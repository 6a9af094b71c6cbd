import Eiyaro.Util.FinMap

/-!
# Weakest preconditions of computations that keep their state when they fail

A computation of `EStateM` ends with a result or with an error, and in both cases with the
state that it has reached. `wp x Q E s` says that from `s` a result of `x` satisfies `Q` and an
error satisfies `E`, each together with that state. A proof follows the text of a computation
with one equivalence for each of its steps, and uses what is known of the computations that
it calls by `wp.mono`.
-/

namespace EStateM
variable {ε σ α β : Type} {x : EStateM ε σ α} {E : ε → σ → Prop} {s : σ}

def wp (x : EStateM ε σ α) (Q : α → σ → Prop) (E : ε → σ → Prop) (s : σ) : Prop :=
  match x s with
  | .ok a t => Q a t
  | .error e t => E e t

variable {Q : α → σ → Prop} {Q' : α → σ → Prop} {E' : ε → σ → Prop}

lemma wp_pure (a : α) : wp (pure a : EStateM ε σ α) Q E s ↔ Q a s :=
  Iff.rfl

lemma wp_get {Q : σ → σ → Prop} : wp (get : EStateM ε σ σ) Q E s ↔ Q s s :=
  Iff.rfl

lemma wp_set {Q : PUnit → σ → Prop} (t : σ) : wp (set t : EStateM ε σ PUnit) Q E s ↔ Q ⟨⟩ t :=
  Iff.rfl

lemma wp_modify {Q : PUnit → σ → Prop} (f : σ → σ) :
    wp (modify f : EStateM ε σ PUnit) Q E s ↔ Q ⟨⟩ (f s) :=
  Iff.rfl

lemma wp_bind {Q : β → σ → Prop} (x : EStateM ε σ α) (f : α → EStateM ε σ β) :
    wp (x >>= f) Q E s ↔ wp x (fun a => wp (f a) Q E) E s := by
  show (match EStateM.bind x f s with
    | .ok a t => Q a t
    | .error e t => E e t) ↔ _
  unfold EStateM.bind wp
  cases x s with
  | ok a t => exact Iff.rfl
  | error e t => exact Iff.rfl

/-- What follows a computation without a failure of its own does not fail. -/
lemma eq_error_of_bind_pure {f : α → β} {t : σ} {e : ε}
    (h : (x >>= fun a => pure (f a)) s = .error e t) : x s = .error e t := by
  have hbn : EStateM.bind x (fun a => pure (f a)) s = .error e t := h
  unfold EStateM.bind at hbn
  cases hx : x s with
  | ok a u =>
    rw [hx] at hbn
    cases hbn
  | error _ u =>
    rw [hx] at hbn
    cases hbn
    rfl

lemma wp.mono (h : wp x Q E s)
    (hQ : ∀ a t, Q a t → Q' a t) (hE : ∀ e t, E e t → E' e t) : wp x Q' E' s := by
  revert h
  unfold wp
  cases x s with
  | ok a t => exact hQ a t
  | error e t => exact hE e t

lemma wp.imp (h : wp x Q E s) (hQ : ∀ a t, Q a t → Q' a t) : wp x Q' E s :=
  h.mono hQ fun _ _ he => he

lemma wp.and (h : wp x Q E s)
    (h' : wp x Q' E' s) : wp x (fun a t => Q a t ∧ Q' a t) (fun e t => E e t ∧ E' e t) s := by
  revert h h'
  unfold wp
  cases x s with
  | ok a t => exact And.intro
  | error e t => exact And.intro

lemma wp_imp {P : Prop} (h : P → wp x Q E s) :
    wp x (fun a t => P → Q a t) (fun e t => P → E e t) s := by
  revert h
  unfold wp
  cases x s with
  | ok a t => exact id
  | error e t => exact id

lemma wp_ite {c : Prop} [Decidable c] {y : EStateM ε σ α} (hx : c → wp x Q E s)
    (hy : ¬c → wp y Q E s) : wp (if c then x else y) Q E s := by
  by_cases h : c
  · rw [if_pos h]
    exact hx h
  · rw [if_neg h]
    exact hy h

/-! ## Loops -/

/-- The loop rule: `I as` holds before the loop goes over `as`. -/
lemma wp_forM {I : List α → σ → Prop} {f : α → EStateM ε σ PUnit}
    (hs : ∀ a as s, I (a :: as) s → wp (f a) (fun _ => I as) E s) :
    ∀ (as : List α) (s : σ), I as s → wp (as.forM f) (fun _ => I []) E s
  | [], _, h => h
  | a :: as, s, h =>
    (wp_bind (f a) fun _ => as.forM f).2 ((hs a as s h).imp fun _ t ht => wp_forM hs as t ht)

/-- The loop rule for the entries of a map: `I ks` holds before the loop goes over the keys
`ks`. -/
lemma wp_forM_entries {K V : Type} {m : FinMap K V} (it : m.Iteration) {I : List K → σ → Prop}
    {f : K × V → EStateM ε σ PUnit} (hs : ∀ k v ks s, k ∉ ks → m.get k = some v → I (k :: ks) s →
      wp (f (k, v)) (fun _ => I ks) E s) (h : I it.order s) :
    wp (it.entries.forM f) (fun _ => I []) E s := by
  have hl := wp_forM (I := fun (as : List _) t => (as.map Prod.fst).Nodup ∧
      (∀ a ∈ as, m.get a.1 = some a.2) ∧ I (as.map Prod.fst) t) (f := f) (E := E) ?_ it.entries s
    ⟨it.nodup_map_fst,fun _ => it.mem_entries.1,it.map_fst_entries ▸ h⟩
  · exact hl.imp fun _ _ ht => ht.2.2
  · rintro ⟨k,v⟩ as t ⟨hnd,hg,hI⟩
    rw [List.map_cons,List.nodup_cons] at hnd
    rw [List.forall_mem_cons] at hg
    exact (hs k v _ t hnd.1 hg.1 hI).imp fun _ _ hu => ⟨hnd.2,hg.2,hu⟩

/-- An invariant of every round of a loop with an accumulator. -/
lemma wp_foldlM_inv {I : σ → Prop} {f : β → α → EStateM ε σ β}
    {as : List α} (hs : ∀ b, ∀ a ∈ as, ∀ s, I s → wp (f b a) (fun _ => I) E s) :
    ∀ (b : β) (s : σ), I s → wp (as.foldlM f b) (fun _ => I) E s := by
  induction as with
  | nil => exact fun _ _ h => h
  | cons a as ih =>
    intro b s h
    rw [List.foldlM_cons,wp_bind]
    refine (hs b a List.mem_cons_self s h).imp fun b' t ht => ?_
    exact ih (fun b a ha => hs b a (List.mem_cons_of_mem _ ha)) b' t ht

/-- Rounds that leave the state alone give one result each. -/
lemma wp_mapM {f : α → EStateM ε σ β} {g : α → β} {as : List α}
    (h : ∀ a ∈ as, wp (f a) (fun b t => b = g a ∧ t = s) E s) :
    wp (as.mapM f) (fun bs t => bs = as.map g ∧ t = s) E s := by
  induction as with
  | nil => exact ⟨rfl,rfl⟩
  | cons a as ih =>
    rw [List.mapM_cons,wp_bind]
    refine (h a List.mem_cons_self).imp fun b t hb => ?_
    obtain ⟨rfl,rfl⟩ := hb
    rw [wp_bind]
    refine (ih fun b hb => h b (List.mem_cons_of_mem a hb)).imp fun bs _ hbs => ?_
    obtain ⟨rfl,rfl⟩ := hbs
    exact ⟨rfl,rfl⟩

/-! ## Results as values -/

/-- Runs `x` and hands its error on as a value. -/
def attempt (x : EStateM ε σ α) : EStateM ε σ (Except ε α) := fun s =>
  match x s with
  | .ok a t => .ok (.ok a) t
  | .error e t => .ok (.error e) t

lemma wp_attempt {Q : Except ε α → σ → Prop} :
    wp (attempt x) Q E s ↔ wp x (fun a => Q (.ok a)) (fun e => Q (.error e)) s := by
  unfold wp attempt
  cases x s with
  | ok a t => exact Iff.rfl
  | error e t => exact Iff.rfl

lemma wp_ofExcept {x : Except ε α} (hok : ∀ a, x = .ok a → Q a s) (he : ∀ e, x = .error e → E e s) :
    wp (MonadExcept.ofExcept x : EStateM ε σ α) Q E s := by
  cases x with
  | ok a => exact hok a rfl
  | error e => exact he e rfl

end EStateM
