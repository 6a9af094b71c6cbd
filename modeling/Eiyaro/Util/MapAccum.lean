import Mathlib

/-!
# Loops with a state and one output per element

`mapAccum` runs a fallible step over a list, threads a state through it and
collects the outputs. Two such loops over the same list simulate each other when
their steps do, where the simulation of a step may depend on a condition that is
met along the run.
-/

variable {ε σ τ α β : Type}

def mapAccum (f : σ → α → Except ε (σ × β)) : List α → σ → Except ε (σ × List β)
  | [], s => .ok (s, [])
  | a :: as, s => do
    let (s, b) ← f s a
    let (s, bs) ← mapAccum f as s
    return (s, b :: bs)

namespace mapAccum
open List

/-- The condition `P` is met at every element that the run comes to. -/
def Along (f : σ → α → Except ε (σ × β)) (P : σ → α → Prop) : List α → σ → Prop
  | [], _ => True
  | a :: as, s => P s a ∧ ∀ s' b, f s a = .ok (s', b) → Along f P as s'

variable {f : σ → α → Except ε (σ × β)} {g : τ → α → Except ε (τ × β)} {x : Except ε (σ × β)}
  {y : Except ε (τ × β)} {P : σ → α → Prop} {R : σ → τ → Prop} {as : List α} {bs : List β}
  {s s' : σ} {a : α} {b : β} {t : τ}

lemma nil_eq_ok : mapAccum f [] s = .ok (s', bs) ↔ s' = s ∧ bs = [] := by
  simp [mapAccum,eq_comm]

lemma cons_eq_ok :
    mapAccum f (a :: as) s = .ok (s', bs) ↔
      ∃ t b bs', f s a = .ok (t, b) ∧ mapAccum f as t = .ok (s', bs') ∧ bs = b :: bs' := by
  rw [mapAccum]
  cases hf : f s a with
  | error e => simp [bind,Except.bind]
  | ok r =>
    obtain ⟨t,b⟩ := r
    cases hr : mapAccum f as t with
    | error e => simp [bind,Except.bind,hr]
    | ok r =>
      obtain ⟨_,bs'⟩ := r
      simp [bind,Except.bind,hr,pure,Except.pure,and_assoc,eq_comm]

/-- A loop does not fail if no step fails on a state with an invariant that the steps keep. -/
lemma total {I : σ → Prop} (h : ∀ s, ∀ a ∈ as, I s → ∃ r, f s a = .ok r ∧ I r.1) (hs : I s) :
    ∃ r, mapAccum f as s = .ok r ∧ I r.1 := by
  induction as generalizing s with
  | nil => exact ⟨_,rfl,hs⟩
  | cons a as ih =>
    obtain ⟨⟨t,b⟩,hf,ht⟩ := h s a (by simp) hs
    obtain ⟨⟨s',bs⟩,hr,hs'⟩ := ih (fun s a' ha' => h s a' (by simp [ha'])) ht
    exact ⟨(s', b :: bs),cons_eq_ok.2 ⟨t,b,bs,hf,hr,rfl⟩,hs'⟩

section
variable (h : mapAccum f as s = .ok (s', bs))
include h

lemma length_eq : bs.length = as.length := by
  induction as generalizing s bs with
  | nil =>
    obtain ⟨-,rfl⟩ := nil_eq_ok.1 h
    rfl
  | cons _ as ih =>
    obtain ⟨_,_,_,_,hr,rfl⟩ := cons_eq_ok.1 h
    rw [length_cons,length_cons,ih hr]

lemma exists_output (ha : a ∈ as) : ∃ b ∈ bs, ∃ t t', f t a = .ok (t', b) := by
  induction as generalizing s bs with
  | nil => cases ha
  | cons _ as ih =>
    obtain ⟨t,b,_,hf,hr,rfl⟩ := cons_eq_ok.1 h
    rcases mem_cons.1 ha with rfl | ha
    · exact ⟨b,by simp,s,t,hf⟩
    · obtain ⟨b',hb',hf'⟩ := ih hr ha
      exact ⟨b',by simp [hb'],hf'⟩

lemma exists_element (hb : b ∈ bs) : ∃ a ∈ as, ∃ t t', f t a = .ok (t', b) := by
  induction as generalizing s bs with
  | nil =>
    obtain ⟨-,rfl⟩ := nil_eq_ok.1 h
    cases hb
  | cons a as ih =>
    obtain ⟨t,_,_,hf,hr,rfl⟩ := cons_eq_ok.1 h
    rcases mem_cons.1 hb with rfl | hb
    · exact ⟨a,by simp,s,t,hf⟩
    · obtain ⟨a',ha',hf'⟩ := ih hr hb
      exact ⟨a',by simp [ha'],hf'⟩

end

/-- A loop over the outputs keeps a relation to the state, if it does so at every element. -/
lemma foldlM_outputs {A : Type} {add : A → β → Except ε A} {R : A → σ → Prop}
    (hs : ∀ acc s, ∀ a ∈ as, R acc s → P s a → ∀ s' b, f s a = .ok (s', b) →
      ∃ acc', add acc b = .ok acc' ∧ R acc' s') {acc : A}
    (hR : R acc s) (hP : Along f P as s) (h : mapAccum f as s = .ok (s', bs)) :
    ∃ acc', bs.foldlM add acc = .ok acc' ∧ R acc' s' := by
  induction as generalizing acc s bs with
  | nil =>
    obtain ⟨rfl,rfl⟩ := nil_eq_ok.1 h
    exact ⟨acc,rfl,hR⟩
  | cons a as ih =>
    obtain ⟨t,b,_,hf,hr,rfl⟩ := cons_eq_ok.1 h
    obtain ⟨_,ha,hR₁⟩ := hs acc s a (by simp) hR hP.1 t b hf
    obtain ⟨acc',hfl,hR'⟩ := ih (fun acc s a' ha' => hs acc s a' (by simp [ha'])) hR₁
      (hP.2 t b hf) hr
    refine ⟨acc',?_,hR'⟩
    rw [foldlM_cons,ha]
    exact hfl

/-- What every step conserves, between a measure of the state, the elements that come in and the
outputs that go out, the run conserves. -/
lemma conserves {μ : σ → Int} {ν : β → Nat} {κ : α → Nat} {Q : β → Prop}
    (hs : ∀ s, ∀ a ∈ as, P s a → ∀ s' b, f s a = .ok (s', b) → μ s' + ν b = μ s+κ a ∧ Q b)
    (hP : Along f P as s) (h : mapAccum f as s = .ok (s', bs)) :
    μ s' + ((bs.map ν).sum : Nat) = μ s+((as.map κ).sum : Nat) ∧ ∀ b ∈ bs, Q b := by
  induction as generalizing s bs with
  | nil =>
    obtain ⟨rfl,rfl⟩ := nil_eq_ok.1 h
    simp
  | cons a as ih =>
    obtain ⟨t,b,_,hf,hr,rfl⟩ := cons_eq_ok.1 h
    obtain ⟨_,hb⟩ := hs s a (by simp) hP.1 t b hf
    obtain ⟨_,ha⟩ := ih (fun s a' ha' => hs s a' (by simp [ha'])) (hP.2 t b hf) hr
    refine ⟨?_,forall_mem_cons.2 ⟨hb,ha⟩⟩
    rw [map_cons,sum_cons,map_cons,sum_cons]
    omega

/-- Two computations fail alike, or have the same output and related states. -/
inductive Matches (R : σ → τ → Prop) : Except ε (σ × β) → Except ε (τ × β) → Prop
  | ok {s : σ} {t : τ} (b : β) (h : R s t) : Matches R (.ok (s, b)) (.ok (t, b))
  | error (e : ε) : Matches R (.error e) (.error e)

lemma Matches.bind {σ' τ' γ : Type} {R' : σ' → τ' → Prop} {k : σ × β → Except ε (σ' × γ)}
    {l : τ × β → Except ε (τ' × γ)} (h : Matches R x y)
    (hk : ∀ s t b, y = .ok (t, b) → R s t → Matches R' (k (s, b)) (l (t, b))) :
    Matches R' (x >>= k) (y >>= l) := by
  cases h with
  | ok b hR => exact hk _ _ b rfl hR
  | error e => exact .error e

lemma Matches.exists_of_ok
    (h : Matches R x y) (hy : y = .ok (t, b)) : ∃ s, x = .ok (s, b) ∧ R s t := by
  cases h with
  | ok b hR =>
    cases hy
    exact ⟨_,rfl,hR⟩
  | error _ => cases hy

lemma Matches.exists_of_ok_left (h : Matches R x y) (hx : x = .ok (s, b)) :
    ∃ t, y = .ok (t, b) ∧ R s t := by
  cases h with
  | ok b hR =>
    cases hx
    exact ⟨_,rfl,hR⟩
  | error _ => cases hx

/-- Loops over one list match when their steps match. The steps may rely on a
condition `P` that the second loop meets. -/
lemma simulates {P : τ → α → Prop} (hs : ∀ s t, ∀ a ∈ as, R s t → P t a → Matches R (f s a) (g t a))
    (hR : R s t) (hP : Along g P as t) : Matches R (mapAccum f as s) (mapAccum g as t) := by
  induction as generalizing s t with
  | nil => exact .ok [] hR
  | cons a as ih =>
    refine (hs s t a (by simp) hR hP.1).bind fun _ t₁ b hg hR₁ => ?_
    refine (ih (fun s t a' ha' => hs s t a' (by simp [ha'])) hR₁ (hP.2 t₁ b hg)).bind
      fun _ _ _ _ hR₂ => ?_
    exact .ok _ hR₂

end mapAccum
