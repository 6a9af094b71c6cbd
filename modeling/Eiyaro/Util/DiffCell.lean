import Mathlib

/-!
# Changes to one key of a map

A diff between two maps acts on every key separately. At one key it removes a
value, adds a value, does both, or does nothing. This file has the composition
and the difference of such changes when values are recognised by a score only:
a removal takes away the stored value when the scores agree, and an addition
cancels a removal of the same score.
-/

/-- A change to the value stored at one key. -/
structure DiffCell (E : Type) where
  add : Option E
  remove : Option E

namespace DiffCell
open Option
variable {E S : Type} (score : E → S) {r₁ r₂ : E} {a₁ a₂ : E}

/-- A change can be applied when it removes only the stored value, and adds a
value only where none is stored once the removal is done. -/
inductive CanApply : DiffCell E → Option E → Prop
  | idle (s : Option E) : CanApply ⟨none,none⟩ s
  | create (a : E) : CanApply ⟨some a,none⟩ none
  | destroy {e r : E} (h : score e = score r) : CanApply ⟨none,some r⟩ (some e)
  | replace (a : E) {e r : E} (h : score e = score r) : CanApply ⟨some a,some r⟩ (some e)

/-- The change does not remove and add values of one score. -/
def Reduced (d : DiffCell E) : Prop :=
  ∀ a r, d.add = some a → d.remove = some r → score a ≠ score r

section
variable {score} {d₁ d₂ : DiffCell E} {s : Option E}

lemma canApply_iff : CanApply score d₁ s ↔
    (∀ r, d₁.remove = some r → ∃ e, s = some e ∧ score e = score r) ∧
      (∀ a, d₁.add = some a → s = none ∨ ∃ r, d₁.remove = some r) := by
  constructor
  · rintro (_ | _ | h | h) <;> simp_all
  · obtain ⟨a,r⟩ := d₁
    rintro ⟨hrm,ha⟩
    rcases r with _ | r
    · rcases a with _ | a
      · exact .idle s
      · rcases ha a rfl with rfl | ⟨r,hr⟩
        · exact .create a
        · simp at hr
    · obtain ⟨e,rfl,h⟩ := hrm r rfl
      rcases a with _ | a
      · exact .destroy h
      · exact .replace a h

variable (h₁ : CanApply score d₁ s) (h₂ : CanApply score d₂ s)
include h₁ h₂

lemma CanApply.score_remove_eq (hr₁ : d₁.remove = some r₁)
    (hr₂ : d₂.remove = some r₂) : score r₁ = score r₂ := by
  obtain ⟨_,rfl,he₁⟩ := (canApply_iff.1 h₁).1 r₁ hr₁
  obtain ⟨_,he,he₂⟩ := (canApply_iff.1 h₂).1 r₂ hr₂
  obtain rfl := some.inj he
  exact he₁.symm.trans he₂

/-- Where one change removes and the other adds, the other one also removes. -/
lemma CanApply.exists_remove_of_add (hr₁ : d₁.remove = some r₁) (ha₂ : d₂.add = some a₂)
    : ∃ r₂, d₂.remove = some r₂ ∧ score r₂ = score r₁ := by
  obtain ⟨_,rfl,-⟩ := (canApply_iff.1 h₁).1 r₁ hr₁
  obtain hs | ⟨r₂,hr₂⟩ := (canApply_iff.1 h₂).2 a₂ ha₂
  · simp at hs
  · exact ⟨r₂,hr₂,(h₁.score_remove_eq h₂ hr₁ hr₂).symm⟩

lemma CanApply.isSome_remove_eq (ha₁ : d₁.add = some a₁) (ha₂ : d₂.add = some a₂) :
    d₁.remove.isSome = d₂.remove.isSome := by
  cases h₁ with
  | idle => simp at ha₁
  | destroy h => simp at ha₁
  | create a =>
    cases h₂ with
    | idle => simp at ha₂
    | create b => rfl
  | replace a h =>
    cases h₂ with
    | idle => simp at ha₂
    | destroy h => simp at ha₂
    | replace b h => rfl

end

/-! ## Effect, composition and difference -/

variable [DecidableEq S]

def hasScore (c : Option E) (s : S) : Bool :=
  c.any fun e => score e == s

def applyTo (d : DiffCell E) (s : Option E) : Option E :=
  d.add.or (s.filter fun e => !hasScore score d.remove (score e))

-- what is removed after the removals of `d₂` and before its additions
variable (d₁ d₂ : DiffCell E)

def removedBy : Option E :=
  (d₂.remove.filter fun e => !hasScore score d₁.add (score e)).or d₁.remove

/-- The change `d₁` followed by the change `d₂`. -/
def compose : DiffCell E where
  add := (d₂.add.filter fun e => !hasScore score (removedBy score d₁ d₂) (score e)).or
    (if (d₂.remove.filter fun e => hasScore score d₁.add (score e)).isNone then d₁.add else none)
  remove := if (d₂.add.filter fun e => hasScore score (removedBy score d₁ d₂) (score e)).isNone
    then removedBy score d₁ d₂ else none

/-- The change that leads from the result of `d₁` to the result of `d₂`. -/
def difference : DiffCell E where
  add := (d₂.add.filter fun e => !hasScore score d₁.add (score e)).or
    (d₁.remove.filter fun e => !hasScore score d₂.remove (score e))
  remove := (d₂.remove.filter fun e => !hasScore score d₁.remove (score e)).or
    (d₁.add.filter fun e => !hasScore score d₂.add (score e))

section
variable (a r : E) (o : Option E)

@[simp]
lemma applyTo_idle : applyTo score ⟨none,none⟩ o = o := by
  cases o <;> simp [applyTo,hasScore,Option.filter]

@[simp]
lemma applyTo_add : applyTo score ⟨some a,some r⟩ o = some a :=
  rfl

@[simp]
lemma applyTo_create : applyTo score ⟨some a,none⟩ o = some a :=
  rfl

lemma applyTo_destroy {e r : E} (h : score e = score r) :
    applyTo score ⟨none,some r⟩ (some e) = none := by
  simp [applyTo,hasScore,Option.filter,h]

end

variable {score}
variable {d₁ d₂ : DiffCell E} {s : Option E} {e : E}

/-! ## Composition -/

lemma compose_idle (d : DiffCell E) : compose score d ⟨none,none⟩ = d := by
  simp [compose,removedBy]

lemma compose_destroy (d : DiffCell E) (e : E) :
    compose score d ⟨none,some e⟩ =
      if hasScore score d.add (score e) then ⟨none,d.remove⟩ else ⟨d.add,some e⟩ := by
  cases h : hasScore score d.add _ <;> simp [compose,removedBy,h,Option.filter]

lemma compose_create (d : DiffCell E) (e : E) :
    compose score d ⟨some e,none⟩ =
      if hasScore score d.remove (score e) then ⟨d.add,none⟩ else ⟨some e,d.remove⟩ := by
  cases h : hasScore score d.remove _ <;> simp [compose,removedBy,h,Option.filter]

/-- What is removed twice was added in between. -/
lemma CanApply.hasScore_add (h₁ : CanApply score d₁ s)
    (h₂ : CanApply score d₂ (d₁.applyTo score s)) (hr₁ : d₁.remove = some r₁)
    (hr₂ : d₂.remove = some r₂) : hasScore score d₁.add (score r₂) = true := by
  obtain ⟨_,he,hs⟩ := (canApply_iff.1 h₂).1 r₂ hr₂
  cases h₁ with
  | idle => simp at hr₁
  | create a => simp at hr₁
  | destroy h => simp [applyTo_destroy score h] at he
  | replace a h =>
    rw [applyTo_add] at he
    simp [hasScore,he,hs]

/-- What is added twice was removed in between. -/
lemma CanApply.hasScore_remove (h₂ : CanApply score d₂ (d₁.applyTo score s))
    (ha₁ : d₁.add = some a₁) (ha₂ : d₂.add = some a₂) :
    hasScore score d₂.remove (score a₁) = true := by
  have hs : d₁.applyTo score s = some a₁ := by simp [applyTo,ha₁]
  rw [hs] at h₂
  cases h₂ with
  | idle => simp at ha₂
  | destroy h => simp at ha₂
  | replace _ h => simp [hasScore,h]

/-- The composition can be applied where the two changes can be applied in turn,
has their effect, and is reduced if the first one is. -/
lemma compose_spec (h₁ : CanApply score d₁ s) (h₂ : CanApply score d₂ (d₁.applyTo score s)) :
    CanApply score (compose score d₁ d₂) s ∧
      ((compose score d₁ d₂).applyTo score s).map score =
        (d₂.applyTo score (d₁.applyTo score s)).map score ∧
      (d₁.Reduced score → (compose score d₁ d₂).Reduced score) := by
  unfold Reduced
  cases h₁ with
  | idle =>
    rw [applyTo_idle] at h₂ ⊢
    cases h₂
    all_goals simp_all [compose,removedBy,hasScore,Option.filter,canApply_iff,applyTo]
    all_goals grind
  | create a =>
    cases h₂
    all_goals simp_all [compose,removedBy,hasScore,Option.filter,canApply_iff,applyTo]
  | destroy h =>
    rw [applyTo_destroy] at h₂ ⊢
    cases h₂
    all_goals simp_all [compose,removedBy,hasScore,Option.filter,canApply_iff,applyTo]
    all_goals grind
  | replace a h =>
    cases h₂
    all_goals simp_all [compose,removedBy,hasScore,Option.filter,canApply_iff,applyTo]
    all_goals grind

/-- The values of the change satisfy `P`. -/
def All (P : E → Prop) (d : DiffCell E) : Prop :=
  (∀ e, d.add = some e → P e) ∧ ∀ e, d.remove = some e → P e

lemma All.compose {P : E → Prop} (h₁ : d₁.All P) (h₂ : d₂.All P) :
    (DiffCell.compose score d₁ d₂).All P := by
  refine ⟨fun e he => ?_,fun e he => ?_⟩
  · rcases or_eq_some_iff.1 he with he | ⟨-,he⟩
    · exact h₂.1 e (filter_eq_some_iff.1 he).1
    · exact h₁.1 e (ite_none_right_eq_some.1 he).2
  · rcases or_eq_some_iff.1 (ite_none_right_eq_some.1 he).2 with he | ⟨-,he⟩
    · exact h₂.2 e (filter_eq_some_iff.1 he).1
    · exact h₁.2 e he

/-! ## Difference -/

lemma All.difference {P : E → Prop} (h₁ : d₁.All P) (h₂ : d₂.All P) :
    (DiffCell.difference score d₁ d₂).All P := by
  have hor : ∀ {c c' : Option E} {p q}, (∀ e, c = some e → P e) → (∀ e, c' = some e → P e) →
      ∀ e, (c.filter p).or (c'.filter q) = some e → P e := by
    intro c c' p q hc hc' e he
    rcases or_eq_some_iff.1 he with he | ⟨-,he⟩
    · exact hc e (filter_eq_some_iff.1 he).1
    · exact hc' e (filter_eq_some_iff.1 he).1
  exact ⟨hor h₂.1 h₁.2,hor h₂.2 h₁.1⟩

section
variable (h₁ : CanApply score d₁ s) (h₂ : CanApply score d₂ s)
include h₁ h₂

/-- The difference leads from the result of the first change to the result of the
second, unless both remove the value and one of them puts the same score back. -/
lemma difference_spec
    (hr : d₁.remove.isSome → d₂.remove.isSome → d₁.Reduced score ∧ d₂.Reduced score) :
    CanApply score (difference score d₁ d₂) (d₁.applyTo score s) ∧
      ((difference score d₁ d₂).applyTo score (d₁.applyTo score s)).map score =
        (d₂.applyTo score s).map score := by
  cases h₁ with
  | idle =>
    rw [applyTo_idle]
    cases h₂
    all_goals simp_all [difference,hasScore,Option.filter,canApply_iff,applyTo]
  | create a =>
    all_goals simp_all [difference,hasScore,Option.filter,canApply_iff,applyTo]
    all_goals grind
  | destroy h =>
    cases h₂
    all_goals simp_all [difference,hasScore,Option.filter,canApply_iff,applyTo]
  | replace a h =>
    cases h₂
    all_goals simp_all [difference,hasScore,Option.filter,canApply_iff,applyTo]
    all_goals grind

lemma difference_reduced (hr₁ : d₁.Reduced score) (hr₂ : d₂.Reduced score) :
    (difference score d₁ d₂).Reduced score := by
  unfold Reduced at hr₁ hr₂
  intro a _ _ _
  cases h₁ with
  | idle | destroy h =>
    cases h₂
    all_goals simp_all [difference,hasScore,Option.filter]
  | create a | replace a h =>
    all_goals simp_all [difference,hasScore,Option.filter]
    all_goals grind

end

/-! ## The opposite change -/

def swap (d : DiffCell E) : DiffCell E := ⟨d.remove,d.add⟩

lemma swap_spec (h : CanApply score d₁ s) :
    CanApply score d₁.swap (d₁.applyTo score s) ∧
      (d₁.swap.applyTo score (d₁.applyTo score s)).map score = s.map score := by
  cases h with
  | idle => exact ⟨.idle _,by simp [swap]⟩
  | create a =>
    refine ⟨.destroy rfl,?_⟩
    rw [applyTo_create,swap,applyTo_destroy score rfl]
  | destroy h =>
    rw [applyTo_destroy score h]
    exact ⟨.create _,by simp [swap,h]⟩
  | replace a h =>
    exact ⟨.replace _ rfl,by simp [swap,h]⟩

end DiffCell
