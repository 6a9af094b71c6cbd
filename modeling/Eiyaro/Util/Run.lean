import Mathlib

/-!
# Runs of a partial step function

A run applies a list of actions one after the other and stops at an action that
is not enabled. An invariant that every enabled step keeps holds after every run.
-/

variable {σ α : Type}

def run (step : σ → α → Option σ) : σ → List α → Option σ
  | s, [] => some s
  | s, a :: as => (step s a).bind fun s' => run step s' as

namespace run
variable {step : σ → α → Option σ} {C : σ → α → Prop} {as bs : List α} {P : σ → Prop}
  {s s' : σ}

lemma cons_eq_some {a : α} :
    run step s (a :: as) = some s' ↔ ∃ t, step s a = some t ∧ run step t as = some s' :=
  Option.bind_eq_some_iff

lemma append_eq_some :
    run step s (as ++ bs) = some s' ↔ ∃ t, run step s as = some t ∧ run step t bs = some s' := by
  induction as generalizing s with
  | nil => simp [run]
  | cons _ as ih =>
    constructor
    · intro h
      obtain ⟨u,hu,h⟩ := cons_eq_some.1 h
      obtain ⟨t,ht,h⟩ := ih.1 h
      exact ⟨t,cons_eq_some.2 ⟨u,hu,ht⟩,h⟩
    · rintro ⟨t,ht,h⟩
      obtain ⟨u,hu,ht⟩ := cons_eq_some.1 ht
      exact cons_eq_some.2 ⟨u,hu,ih.2 ⟨t,ht,h⟩⟩

/-- The condition `C` is met at every step that the run comes to. -/
def Along (step : σ → α → Option σ) (C : σ → α → Prop) : σ → List α → Prop
  | _, [] => True
  | s, a :: as => C s a ∧ ∀ t, step s a = some t → Along step C t as

instance decidableAlong {C : σ → α → Prop} [∀ s a,Decidable (C s a)] :
    ∀ (s : σ) (as : List α), Decidable (Along step C s as)
  | _, [] => isTrue trivial
  | s, a :: as =>
    have : Decidable (∀ t, step s a = some t → Along step C t as) :=
      match step s a with
      | none => isTrue fun _ h => nomatch h
      | some t =>
        match decidableAlong t as with
        | isTrue htrue => isTrue fun _ h => Option.some.inj h ▸ htrue
        | isFalse hfalse => isFalse fun h => hfalse (h t rfl)
    inferInstanceAs (Decidable (C s a ∧ ∀ t, step s a = some t → Along step C t as))

lemma along_append {t : σ} (h : Along step C s (as ++ bs)) (hrun : run step s as = some t) :
    Along step C s as ∧ Along step C t bs := by
  induction as generalizing s with
  | nil => exact ⟨trivial,Option.some.inj hrun ▸ h⟩
  | cons _ as ih =>
    obtain ⟨u,hu,hrun⟩ := cons_eq_some.1 hrun
    obtain ⟨hf,hr⟩ := ih (h.2 u hu) hrun
    refine ⟨⟨h.1,fun _ hv => ?_⟩,hr⟩
    rw [hu] at hv
    exact Option.some.inj hv ▸ hf

/-- The invariant rule: `P` is kept by the steps that meet `C`. -/
lemma invariant_along (hst : ∀ s a s', P s → C s a → step s a = some s' → P s')
    (hs : P s) (has : Along step C s as) (h : run step s as = some s') : P s' := by
  induction as generalizing s with
  | nil => exact Option.some.inj h ▸ hs
  | cons a as ih =>
    obtain ⟨t,ht,h⟩ := cons_eq_some.1 h
    exact ih (hst s a t hs has.1 ht) (has.2 t ht) h

/-- The invariant rule: `P` is kept by the steps whose action meets `Q`. -/
lemma invariant {Q : α → Prop} (hst : ∀ s a s', P s → Q a → step s a = some s' → P s')
    (hs : P s) (has : ∀ a ∈ as, Q a) (h : run step s as = some s') : P s' := by
  induction as generalizing s with
  | nil => exact Option.some.inj h ▸ hs
  | cons a as ih =>
    obtain ⟨t,ht,h⟩ := cons_eq_some.1 h
    rw [List.forall_mem_cons] at has
    exact ih (hst s a t hs has.1 ht) has.2 h

end run
