import Mathlib

/-!
# The greatest elements of a set

A sorted list of bounded length keeps the greatest elements of a set while elements are
added to the set. An element goes into the list unless the list is full and the element
is less than all others in it.
-/

variable {α κ : Type} [LinearOrder κ]

section
open List
variable {key : α → κ} {r : α → α → Prop} [DecidableRel r] (hr : ∀ a b, r a b ↔ key a ≤ key b)
include hr

/-- Inserting by a relation that compares keys. -/
lemma pairwise_key_orderedInsert {w : List α} {x : α} (hw : w.Pairwise fun a b => key a ≤ key b) :
    (w.orderedInsert r x).Pairwise fun a b => key a ≤ key b := by
  have ht : Std.Total r := ⟨fun a b => by simpa only [hr] using le_total _ _⟩
  have htr : IsTrans α r := ⟨fun a b _ => by simpa only [hr] using le_trans⟩
  simp only [← hr] at hw ⊢
  exact hw.orderedInsert x w

lemma pairwise_key_insertionSort (w : List α) :
    (w.insertionSort r).Pairwise fun a b => key a ≤ key b := by
  induction w with
  | nil => exact .nil
  | cons _ w ih => exact pairwise_key_orderedInsert hr ih

end

/-- In ascending order, the `n` greatest elements of `s`, or all of them if there are
fewer. -/
structure Greatest (key : α → κ) (n : Nat) (s : Set α) (w : List α) : Prop where
  sorted : w.Pairwise fun a b => key a < key b
  subset : ∀ x ∈ w, x ∈ s
  length_le : w.length ≤ n
  rest : ∀ y ∈ s, y ∉ w → w.length = n ∧ ∀ x ∈ w, key y < key x

namespace Greatest
open List
variable {key : α → κ} {n : Nat} {s t : Set α} {w w' : List α}

lemma empty : Greatest key n ∅ [] :=
  ⟨.nil,by simp,Nat.zero_le n,by simp⟩

lemma zero : Greatest key 0 s [] :=
  ⟨.nil,by simp,le_rfl,by simp⟩

section
variable (h : Greatest key n s w)
include h

lemma nodup : w.Nodup := by
  apply h.sorted.imp
  rintro _ _ hlt rfl
  exact lt_irrefl _ hlt

/-- Elements below a full list do not change it. -/
lemma union_of_lt (hf : w.length = n) (ht : ∀ y ∈ t, ∀ x ∈ w, key y < key x)
    : Greatest key n (s ∪ t) w := by
  refine ⟨h.sorted,fun x hx => .inl (h.subset x hx),h.length_le,?_⟩
  rintro y (hy | hy) hn
  · exact h.rest y hy hn
  · exact ⟨hf,ht y hy⟩

lemma congr (hst : s = t) : Greatest key n t w :=
  hst ▸ h

/-- One of two lists of greatest elements has all that the other has. -/
lemma subset_of (h' : Greatest key n s w') : w ⊆ w' := by
  intro x hx
  by_contra hn
  obtain ⟨_,hlt⟩ := h'.rest x (h.subset x hx) hn
  -- the other list is full of greater elements, so this one has them all and `x` as well
  have hs : ∀ y ∈ w', y ∈ w := by
    intro y hy
    by_contra hy'
    exact lt_asymm (hlt y hy) ((h.rest y (h'.subset y hy) hy').2 x hx)
  have hle : (x :: w').length ≤ w.length := by
    apply List.Subperm.length_le
    exact subperm_of_subset (nodup_cons.2 ⟨hn,h'.nodup⟩) (cons_subset.2 ⟨hx,hs⟩)
  have hl := h.length_le
  rw [length_cons] at hle
  omega

lemma unique (h' : Greatest key n s w') : w = w' := by
  have hp : w.Perm w' := by
    rw [perm_ext_iff_of_nodup h.nodup h'.nodup]
    exact fun _ => ⟨fun hx => h.subset_of h' hx,fun hx => h'.subset_of h hx⟩
  refine hp.eq_of_pairwise ?_ h.sorted h'.sorted
  intro _ _ _ _ hab hba
  exact absurd hab (lt_asymm hba)

end

section
variable {r : α → α → Prop} [DecidableRel r] {x : α} (hr : ∀ a b, r a b ↔ key a ≤ key b)
include hr

lemma pairwise_orderedInsert (hw : w.Pairwise fun a b => key a < key b)
    (hx : ∀ y ∈ w, key y ≠ key x) :
    (w.orderedInsert r x).Pairwise fun a b => key a < key b := by
  have hle : w.Pairwise fun a b => key a ≤ key b := hw.imp le_of_lt
  have hne : (w.orderedInsert r x).Pairwise fun a b => key a ≠ key b := by
    rw [(perm_orderedInsert r x w).pairwise_iff Ne.symm,pairwise_cons]
    exact ⟨fun y hy => (hx y hy).symm,hw.imp ne_of_lt⟩
  exact (pairwise_key_orderedInsert hr hle).imp₂ (fun _ _ => lt_of_le_of_ne) hne

lemma orderedInsert (hw : w.Pairwise fun a b => key a < key b) (hs : ∀ y ∈ w, y ∈ s)
    (hl : w.length < n) (hx : ∀ y ∈ s, key y ≠ key x)
    (hrs : ∀ y ∈ s, y ∉ w → w.length+1 = n ∧ ∀ z ∈ x :: w, key y < key z) :
    Greatest key n (Insert.insert x s) (w.orderedInsert r x) := by
  have hpr := perm_orderedInsert r x w
  refine ⟨pairwise_orderedInsert hr hw fun y hy => hx y (hs y hy),fun y hy => ?_,?_,?_⟩
  · exact (mem_cons.1 (hpr.mem_iff.1 hy)).imp_right (hs y)
  · rw [orderedInsert_length]
    exact hl
  · intro y hy hn
    rw [hpr.mem_iff,mem_cons,not_or] at hn
    rw [orderedInsert_length]
    simpa only [hpr.mem_iff] using hrs y (hy.resolve_left hn.1) hn.2

/-- An element goes into a list that is not full. -/
lemma insert (h : Greatest key n s w) (hrm : w.length < n) (hx : ∀ y ∈ s, key y ≠ key x) :
    Greatest key n (insert x s) (w.orderedInsert r x) :=
  -- nothing was left out while there was room
  orderedInsert hr h.sorted h.subset hrm hx fun y hy hn =>
    absurd (h.rest y hy hn).1 hrm.ne

/-- In a full list an element takes the place of the least one. -/
lemma replace {least : α} (h : Greatest key n s (least :: w)) (hf : (least :: w).length = n)
    (hle : ¬key x < key least) (hx : ∀ y ∈ s, key y ≠ key x) :
    Greatest key n (Insert.insert x s) (w.orderedInsert r x) := by
  have hs := pairwise_cons.1 h.sorted
  have hl : key least < key x :=
    lt_of_le_of_ne (not_lt.1 hle) (hx least (h.subset least mem_cons_self))
  refine orderedInsert hr hs.2 (fun y hy => h.subset y (mem_cons_of_mem _ hy)) hf.le hx
    fun y hy hn => ⟨hf,?_⟩
  -- whatever is left out is at most the element that was replaced
  have hyle : key y ≤ key least := by
    by_cases hyl : y = least
    · exact hyl ▸ le_rfl
    · exact ((h.rest y hy (by simp [hyl,hn])).2 least mem_cons_self).le
  rw [forall_mem_cons]
  exact ⟨hyle.trans_lt hl,fun z hz => hyle.trans_lt (hs.1 z hz)⟩

end
end Greatest
