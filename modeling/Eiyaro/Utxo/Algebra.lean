import Eiyaro.Util.DiffCell
import Eiyaro.Utxo.Diff

/-!
# The algebra of UTXO diffs

What a diff does to a UTXO set, and the laws that tie the two operations of
`diff_algebra.go` to it: `withDiff` composes diffs and `diffFrom` undoes the
composition. A UTXO set has at most one entry at an outpoint, and the code
identifies entries at one outpoint by their DAA scores, so both laws are facts
about the change at one outpoint (`DiffCell`).
-/

namespace Eiyaro
open FinMap UTXOEntry DiffCell
variable {values : DomainOutpoint → UInt64 → UTXOEntry}

namespace UTXODiff
open UtxoCollection

/-! ## Applying a diff -/

variable (d : UTXODiff)

/-- A UTXO set under a diff, as the iterator of `utxo_iterator_with_diff.go`
reads it: the base entries that the diff does not remove with their DAA score,
then the entries that it adds. -/
def applyTo (s : UtxoCollection) : UtxoCollection :=
  (s.filter fun outpoint entry =>
    !d.toRemove.containsWithDAAScore outpoint entry.blockDAAScore).insertAll d.toAdd

/-- What a diff does at one outpoint. -/
def cell (o : DomainOutpoint) : DiffCell UTXOEntry :=
  ⟨d.toAdd.get o,d.toRemove.get o⟩

/-- A diff can be applied to a set when it removes entries of the set, identified
by outpoint and DAA score, and adds entries at outpoints that are free after the
removal. -/
def CanApply (d : UTXODiff) (s : UtxoCollection) : Prop :=
  ∀ o, (d.cell o).CanApply blockDAAScore (s.get o)

/-- No outpoint is both removed and added with one DAA score. -/
def Reduced (d : UTXODiff) : Prop :=
  ∀ o, (d.cell o).Reduced blockDAAScore

/-- No outpoint that both diffs remove is added back by one of them with the DAA
score it was removed with. -/
def NoReAddition (d₁ d₂ : UTXODiff) : Prop :=
  ∀ o, (d₁.toRemove.get o).isSome → (d₂.toRemove.get o).isSome →
    (d₁.cell o).Reduced blockDAAScore ∧ (d₂.cell o).Reduced blockDAAScore

/-- Two sets with the same outpoints and the same DAA scores at them. -/
def SameScores (s t : UtxoCollection) : Prop :=
  ∀ o, (s.get o).map blockDAAScore = (t.get o).map blockDAAScore

section
variable (values)

/-- All entries of a collection are the ones that `values` has for their
outpoint and DAA score. -/
def Agrees (s : UtxoCollection) : Prop :=
  ∀ o e, s.get o = some e → e = values o e.blockDAAScore

def DiffAgrees (d : UTXODiff) : Prop :=
  Agrees values d.toAdd ∧ Agrees values d.toRemove

end

variable {d₁ d₂ : UTXODiff}

lemma Reduced.noReAddition (h₁ : d₁.Reduced) (h₂ : d₂.Reduced) : NoReAddition d₁ d₂ :=
  fun o _ _ => ⟨h₁ o,h₂ o⟩

lemma SameScores.trans {s t u : UtxoCollection} (h : SameScores s t) (h' : SameScores t u) :
    SameScores s u :=
  fun o => (h o).trans (h' o)

lemma SameScores.eq_of_agrees {s t : UtxoCollection} (h : SameScores s t) (hs : Agrees values s)
    (ht : Agrees values t) :
    s = t := by
  ext1 o
  have ho := h o
  cases hso : s.get o with
  | none =>
    rw [hso] at ho
    exact (Option.map_eq_none_iff.1 ho.symm).symm
  | some e =>
    rw [hso] at ho
    obtain ⟨e',hto,heq⟩ := Option.map_eq_some_iff.1 ho.symm
    rw [hto,hs o e hso,ht o e' hto,heq]

lemma diffAgrees_iff {d : UTXODiff} : DiffAgrees values d ↔
    ∀ o, (d.cell o).All fun e => e = values o e.blockDAAScore :=
  ⟨fun h o => ⟨h.1 o,h.2 o⟩,fun h => ⟨fun o => (h o).1,fun o => (h o).2⟩⟩

lemma get_applyTo (s : UtxoCollection) (o : DomainOutpoint) :
    (d.applyTo s).get o = (d.cell o).applyTo blockDAAScore (s.get o) :=
  rfl

variable {s : UtxoCollection}

lemma applyTo_agrees {d : UTXODiff} (hd : DiffAgrees values d) (hs : Agrees values s) :
    Agrees values (d.applyTo s) := by
  intro o e he
  rw [get_applyTo,DiffCell.applyTo,cell] at he
  cases ha : d.toAdd.get o with
  | some a =>
    simp only [ha,Option.some_or,Option.some.injEq] at he
    exact he ▸ hd.1 o a ha
  | none =>
    simp only [ha,Option.none_or,Option.filter_eq_some_iff] at he
    exact hs o e he.1

lemma checkIntersectionWithRule_eq_false {c₁ c₂ : UtxoCollection}
    {rule : DomainOutpoint → UTXOEntry → UTXOEntry → Bool} :
    checkIntersectionWithRule c₁ c₂ rule = false ↔
      ∀ o e₁ e₂, c₁.get o = some e₁ → c₂.get o = some e₂ → rule o e₁ e₂ = false := by
  rw [checkIntersectionWithRule,any_eq_false]
  constructor
  · intro h o e₁ e₂ h₁ h₂
    simpa [h₂] using h o e₁ h₁
  · intro h o e₁ h₁
    cases h₂ : c₂.get o with
    | none => rfl
    | some e₂ => exact h o e₁ e₂ h₁ h₂

/-! ## Diffs at one outpoint -/

variable (o : DomainOutpoint)

def atOutpoint : Option UTXOEntry → UtxoCollection
  | none => ∅
  | some e => UtxoCollection.add ∅ o e

def entryWithScore (daaScore : UInt64) : UTXOEntry :=
  ⟨1,⟨[],0⟩,false,daaScore⟩

/-- The diff that acts at one outpoint only. -/
def ofCell (c : DiffCell UTXOEntry) : UTXODiff :=
  ⟨atOutpoint o c.add,atOutpoint o c.remove⟩

lemma get_atOutpoint_self (c : Option UTXOEntry) : (atOutpoint o c).get o = c := by
  cases c with
  | none => rfl
  | some e => exact get_insert_self ∅ o e

lemma get_atOutpoint_of_ne {o o' : DomainOutpoint} (h : o' ≠ o) (c : Option UTXOEntry) :
    (atOutpoint o c).get o' = none := by
  cases c with
  | none => rfl
  | some e => exact get_insert_of_ne ∅ e h

variable {c : DiffCell UTXOEntry} {o : DomainOutpoint}

lemma ofCell_canApply (h : c.CanApply blockDAAScore (s.get o)) : (ofCell o c).CanApply s := by
  intro o'
  by_cases ho : o' = o
  · subst ho
    simpa only [ofCell,cell,get_atOutpoint_self] using h
  · simpa only [ofCell,cell,get_atOutpoint_of_ne ho] using .idle _

lemma ofCell_reduced (h : c.Reduced blockDAAScore) : (ofCell o c).Reduced := by
  intro o' a r ha hr
  by_cases ho : o' = o
  · subst ho
    simp only [ofCell,cell,get_atOutpoint_self] at ha hr
    exact h a r ha hr
  · simp [ofCell,cell,get_atOutpoint_of_ne ho] at ha

/-! ## Composition -/

/-- The diff that `withDiff` returns when it returns one. -/
def composed (this other : UTXODiff) : UTXODiff :=
  let removed := intersectionWithRemainderHavingDAAScoreInPlace other.toRemove this.toAdd ∅
    this.toRemove
  let added := intersectionWithRemainderHavingDAAScoreInPlace other.toAdd removed.2 ∅
    (this.toAdd.removeMultiple removed.1)
  ⟨added.2,removed.2.removeMultiple added.1⟩

lemma cell_composed (d₁ d₂ : UTXODiff) (o : DomainOutpoint) :
    (composed d₁ d₂).cell o = compose blockDAAScore (d₁.cell o) (d₂.cell o) := by
  simp only [cell,composed,intersectionWithRemainderHavingDAAScoreInPlace,removeMultiple,
    get_insertAll,get_filter,get_eraseAll,get_empty,Option.or_none]
  rfl

section
variable (h₁ : d₁.CanApply s) (h₂ : d₂.CanApply (d₁.applyTo s))
include h₁ h₂

lemma withDiff_eq_composed : withDiff d₁ d₂ = .ok (composed d₁ d₂) := by
  have h₂ : ∀ o, (d₂.cell o).CanApply blockDAAScore
    ((d₁.cell o).applyTo blockDAAScore (s.get o)) := h₂
  show (if checkIntersectionWithRule _ _ _ then _ else
    if checkIntersectionWithRule _ _ _ then _ else Except.ok (composed d₁ d₂)) = _
  rw [if_neg,if_neg]
  · rw [Bool.not_eq_true,checkIntersectionWithRule_eq_false]
    intro o _ a₁ ha₂ ha₁
    have h : d₂.toRemove.containsWithDAAScore o a₁.blockDAAScore = true :=
      (h₂ o).hasScore_remove ha₁ ha₂
    simp [h]
  · rw [Bool.not_eq_true,checkIntersectionWithRule_eq_false]
    intro o r₂ _ hr₂ hr₁
    have h : d₁.toAdd.containsWithDAAScore o r₂.blockDAAScore = true :=
      (h₁ o).hasScore_add (h₂ o) hr₁ hr₂
    simp [h]

lemma composed_canApply : (composed d₁ d₂).CanApply s := by
  intro o
  rw [cell_composed]
  exact (compose_spec (h₁ o) (h₂ o)).1

lemma composed_applyTo : SameScores ((composed d₁ d₂).applyTo s) (d₂.applyTo (d₁.applyTo s)) := by
  intro o
  simp only [get_applyTo,cell_composed]
  exact (compose_spec (h₁ o) (h₂ o)).2.1

lemma composed_reduced (hred : d₁.Reduced) : (composed d₁ d₂).Reduced := by
  intro o
  rw [cell_composed]
  exact (compose_spec (h₁ o) (h₂ o)).2.2 (hred o)

end

lemma composed_agrees (h₁ : DiffAgrees values d₁) (h₂ : DiffAgrees values d₂) :
    DiffAgrees values (composed d₁ d₂) := by
  rw [diffAgrees_iff] at h₁ h₂ ⊢
  intro o
  rw [cell_composed]
  exact (h₁ o).compose (h₂ o)

lemma composed_applyTo_eq (h₁ : d₁.CanApply s) (h₂ : d₂.CanApply (d₁.applyTo s))
    (hs : Agrees values s) (hd₁ : DiffAgrees values d₁) (hd₂ : DiffAgrees values d₂) :
    (composed d₁ d₂).applyTo s = d₂.applyTo (d₁.applyTo s) :=
  (composed_applyTo h₁ h₂).eq_of_agrees (applyTo_agrees (composed_agrees hd₁ hd₂) hs)
    (applyTo_agrees hd₂ (applyTo_agrees hd₁ hs))

/-- `withDiff` composes: where two diffs can be applied in turn it returns a diff
that can be applied at once, with the same resulting set. Only outpoints and DAA
scores decide what the code cancels, so the entries themselves are equal when an
entry is determined by its outpoint and DAA score. -/
theorem withDiff_composes (d₁ d₂ : UTXODiff) (s : UtxoCollection) (h₁ : d₁.CanApply s)
    (h₂ : d₂.CanApply (d₁.applyTo s)) :
    ∃ d, withDiff d₁ d₂ = .ok d ∧ d.CanApply s ∧
      SameScores (d.applyTo s) (d₂.applyTo (d₁.applyTo s)) ∧
      ∀ values, Agrees values s → DiffAgrees values d₁ → DiffAgrees values d₂ →
        d.applyTo s = d₂.applyTo (d₁.applyTo s) := by
  exact ⟨composed d₁ d₂,withDiff_eq_composed h₁ h₂,composed_canApply h₁ h₂,
    composed_applyTo h₁ h₂,fun _ => composed_applyTo_eq h₁ h₂⟩

theorem withDiff_composes_at_outpoint :
    ∃ d, withDiff (ofCell ⟨0,0⟩ ⟨some (entryWithScore 7),some (entryWithScore 5)⟩)
        (ofCell ⟨0,0⟩ ⟨none,some (entryWithScore 7)⟩) = .ok d ∧
      d.CanApply (atOutpoint ⟨0,0⟩ (some (entryWithScore 5))) := by
  obtain ⟨d,hd,ha,-⟩ := withDiff_composes
    (ofCell ⟨0,0⟩ ⟨some _,some _⟩) (ofCell ⟨0,0⟩ ⟨none,some (entryWithScore 7)⟩)
    (atOutpoint ⟨0,0⟩ (some (entryWithScore 5)))
    (ofCell_canApply (.replace _ rfl)) (ofCell_canApply (.destroy rfl))
  exact ⟨d,hd,ha⟩

/-! ## Difference -/

/-- The diff that `diffFrom` returns when it returns one. -/
def difference (this other : UTXODiff) : UTXODiff :=
  ⟨subtractionHavingDAAScoreInPlace other.toAdd this.toAdd
      (subtractionHavingDAAScoreInPlace this.toRemove other.toRemove ∅),
    subtractionHavingDAAScoreInPlace other.toRemove this.toRemove
      (subtractionWithRemainderHavingDAAScoreInPlace this.toAdd other.toAdd ∅ ∅).1⟩

lemma cell_difference (d₁ d₂ : UTXODiff) (o : DomainOutpoint) :
    (difference d₁ d₂).cell o = DiffCell.difference blockDAAScore (d₁.cell o) (d₂.cell o) := by
  simp only [cell,difference,subtractionHavingDAAScoreInPlace,
    subtractionWithRemainderHavingDAAScoreInPlace,
    get_insertAll,get_filter,get_empty,Option.or_none]
  rfl

lemma difference_agrees (h₁ : DiffAgrees values d₁) (h₂ : DiffAgrees values d₂) :
    DiffAgrees values (difference d₁ d₂) := by
  rw [diffAgrees_iff] at h₁ h₂ ⊢
  intro o
  rw [cell_difference]
  exact (h₁ o).difference (h₂ o)

section
variable (h₁ : d₁.CanApply s) (h₂ : d₂.CanApply s) (hred : NoReAddition d₁ d₂)
include h₁ h₂

/-- The outpoints that both diffs add are removed by both or by none. -/
lemma checkIntersection_inBothToAdd :
    checkIntersection
        (subtractionWithRemainderHavingDAAScoreInPlace d₁.toAdd d₂.toAdd ∅ ∅).2 d₁.toRemove =
      checkIntersection
        (subtractionWithRemainderHavingDAAScoreInPlace d₁.toAdd d₂.toAdd ∅ ∅).2 d₂.toRemove := by
  have hs : ∀ o e,
      (subtractionWithRemainderHavingDAAScoreInPlace d₁.toAdd d₂.toAdd ∅ ∅).2.get o = some e →
        d₁.toRemove.contains o = d₂.toRemove.contains o := by
    intro o e he
    simp only [subtractionWithRemainderHavingDAAScoreInPlace,get_insertAll,
      get_filter,get_empty,Option.or_none,Option.filter_eq_some_iff] at he
    obtain ⟨_,ha₂,-⟩ := containsWithDAAScore_eq_true.1 he.2
    exact (h₁ o).isSome_remove_eq (h₂ o) he.1 ha₂
  rw [Bool.eq_iff_iff,checkIntersection,checkIntersection,any_eq_true,any_eq_true]
  refine exists_congr fun o => exists_congr fun e => and_congr_right fun he => ?_
  rw [hs o e he]

include hred

omit hred in
/-- What one diff adds where the other one removes has another DAA score than what is removed,
and that is removed by both. -/
lemma removed_of_added {r₁ a₂ : UTXOEntry} (hr₁ : d₁.toRemove.get o = some r₁)
    (ha₂ : d₂.toAdd.get o = some a₂)
    (hred : (d₂.toRemove.get o).isSome → (d₂.cell o).Reduced blockDAAScore) :
    d₂.toRemove.containsWithDAAScore o r₁.blockDAAScore = true ∧
      a₂.blockDAAScore ≠ r₁.blockDAAScore := by
  obtain ⟨r₂,hr₂,h⟩ := (h₁ o).exists_remove_of_add (h₂ o) hr₁ ha₂
  rw [← h]
  exact ⟨containsWithDAAScore_eq_true.2 ⟨r₂,hr₂,rfl⟩,
    hred (Option.isSome_of_eq_some hr₂) a₂ r₂ ha₂ hr₂⟩

lemma diffFrom_eq_difference : diffFrom d₁ d₂ = .ok (difference d₁ d₂) := by
  unfold diffFrom
  rw [if_neg,if_neg,if_neg]
  · simp only [checkIntersection_inBothToAdd h₁ h₂,bne_self_eq_false,Bool.false_eq_true,if_false]
    rfl
  · rw [Bool.not_eq_true,checkIntersectionWithRule_eq_false]
    intro o r₁ r₂ hr₁ hr₂
    have h : r₁.blockDAAScore = r₂.blockDAAScore := (h₁ o).score_remove_eq (h₂ o) hr₁ hr₂
    simp [h]
  · rw [Bool.not_eq_true,checkIntersectionWithRule_eq_false]
    intro o _ r₂ ha₁ hr₂
    obtain ⟨hm,hne⟩ := removed_of_added h₂ h₁ hr₂ ha₁ fun hr₁ =>
      (hred o hr₁ (by simp [hr₂])).1
    simp [hm,hne.symm]
  · rw [Bool.not_eq_true,checkIntersectionWithRule_eq_false]
    intro o r₁ _ hr₁ ha₂
    obtain ⟨hm,hne⟩ := removed_of_added h₁ h₂ hr₁ ha₂ fun hr₂ =>
      (hred o (by simp [hr₁]) hr₂).2
    simp [hm,hne]

lemma difference_canApply : (difference d₁ d₂).CanApply (d₁.applyTo s) := by
  intro o
  rw [cell_difference]
  exact (difference_spec (h₁ o) (h₂ o) (hred o)).1

lemma difference_applyTo :
    SameScores ((difference d₁ d₂).applyTo (d₁.applyTo s)) (d₂.applyTo s) := by
  intro o
  simp only [get_applyTo,cell_difference]
  exact (difference_spec (h₁ o) (h₂ o) (hred o)).2

end

/-- A diff that removes an entry and adds one with the same DAA score can be
applied, but `diffFrom` rejects it against a diff that removes the entry. -/
theorem diffFrom_re_addition_fails :
    (ofCell ⟨0,0⟩ ⟨some (entryWithScore 5),some (entryWithScore 5)⟩).CanApply
        (atOutpoint ⟨0,0⟩ (some (entryWithScore 5))) ∧
      (ofCell ⟨0,0⟩ ⟨none,some (entryWithScore 5)⟩).CanApply
        (atOutpoint ⟨0,0⟩ (some (entryWithScore 5))) ∧
      diffFrom (ofCell ⟨0,0⟩ ⟨some (entryWithScore 5),some (entryWithScore 5)⟩)
          (ofCell ⟨0,0⟩ ⟨none,some (entryWithScore 5)⟩) =
        .error "diffFrom: outpoint both in this.toRemove and in other.toAdd" :=
  ⟨ofCell_canApply (.replace _ rfl),ofCell_canApply (.destroy rfl),rfl⟩

/-- `diffFrom` is the difference that `withDiff` adds back, and it recovers the
second part of what `withDiff` composed. -/
theorem diffFrom_laws (this : UTXODiff) (s : UtxoCollection) (hthis : this.CanApply s) :
    (∀ other : UTXODiff, other.CanApply s → NoReAddition this other →
      ∃ d, diffFrom this other = .ok d ∧ ∃ w, withDiff this d = .ok w ∧ w.CanApply s ∧
        SameScores (w.applyTo s) (other.applyTo s) ∧
        ∀ values, Agrees values s → DiffAgrees values this → DiffAgrees values other →
          w.applyTo s = other.applyTo s) ∧
    (this.Reduced → ∀ d : UTXODiff, d.CanApply (this.applyTo s) →
      ∃ w, withDiff this d = .ok w ∧ ∃ x, diffFrom this w = .ok x ∧
        x.CanApply (this.applyTo s) ∧
        SameScores (x.applyTo (this.applyTo s)) (d.applyTo (this.applyTo s)) ∧
        ∀ values, Agrees values s → DiffAgrees values this → DiffAgrees values d →
          x.applyTo (this.applyTo s) = d.applyTo (this.applyTo s)) := by
  constructor
  · intro other hot hred
    have hd := difference_canApply hthis hot hred
    have hef := (composed_applyTo hthis hd).trans (difference_applyTo hthis hot hred)
    refine ⟨_,diffFrom_eq_difference hthis hot hred,_,withDiff_eq_composed hthis hd,
      composed_canApply hthis hd,hef,?_⟩
    intro values hs h₁ h₂
    exact hef.eq_of_agrees
      (applyTo_agrees (composed_agrees h₁ (difference_agrees h₁ h₂)) hs) (applyTo_agrees h₂ hs)
  · intro hred d hd
    have hw := composed_canApply hthis hd
    have hno := hred.noReAddition (composed_reduced hthis hd hred)
    have hef := (difference_applyTo hthis hw hno).trans (composed_applyTo hthis hd)
    refine ⟨_,withDiff_eq_composed hthis hd,_,diffFrom_eq_difference hthis hw hno,
      difference_canApply hthis hw hno,hef,?_⟩
    intro values hs h₁ h₂
    have ht' := applyTo_agrees h₁ hs
    exact hef.eq_of_agrees
      (applyTo_agrees (difference_agrees h₁ (composed_agrees h₁ h₂)) ht')
      (applyTo_agrees h₂ ht')

theorem diffFrom_laws_at_outpoint :
    (∃ d, diffFrom (ofCell ⟨0,0⟩ ⟨some (entryWithScore 7),some (entryWithScore 5)⟩)
        (ofCell ⟨0,0⟩ ⟨none,some (entryWithScore 5)⟩) = .ok d) ∧
      ∃ w, withDiff (ofCell ⟨0,0⟩ ⟨some (entryWithScore 7),some (entryWithScore 5)⟩)
        (ofCell ⟨0,0⟩ ⟨none,some (entryWithScore 7)⟩) = .ok w := by
  obtain ⟨hf,hwt⟩ := diffFrom_laws
    (ofCell ⟨0,0⟩ ⟨some _,some _⟩)
    (atOutpoint ⟨0,0⟩ (some (entryWithScore 5))) (ofCell_canApply (.replace _ rfl))
  have hred : (ofCell ⟨0,0⟩ ⟨some (entryWithScore 7),some (entryWithScore 5)⟩).Reduced := by
    refine ofCell_reduced ?_
    rintro a r ⟨⟩ ⟨⟩
    decide
  have hr' : (ofCell ⟨0,0⟩ ⟨none,some (entryWithScore 5)⟩).Reduced := by
    refine ofCell_reduced ?_
    rintro a r ⟨⟩
  obtain ⟨d,hd,-⟩ := hf _ (ofCell_canApply (.destroy rfl)) (hred.noReAddition hr')
  obtain ⟨w,hw,-⟩ := hwt hred (ofCell ⟨0,0⟩ ⟨none,some (entryWithScore 7)⟩)
    (ofCell_canApply (.destroy rfl))
  exact ⟨⟨d,hd⟩,w,hw⟩

end UTXODiff
end Eiyaro
