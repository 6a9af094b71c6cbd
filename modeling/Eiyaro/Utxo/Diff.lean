import Eiyaro.Util.FinMap
import Eiyaro.Model.Outpoint

/-!
# UTXO diffs

The collections and diffs of `domain/consensus/utils/utxo`: the set operations
of `diff_algebra.go` on collections, and the two operations `diffFrom` and
`withDiff` on diffs that are built from them.

A Go map is iterated in an unspecified order, so the outpoint that an error
message quotes is not determined by the arguments. The errors below carry the
text around it.
-/

namespace Eiyaro

/-- A map from outpoints to UTXO entries. -/
abbrev UtxoCollection := FinMap DomainOutpoint UTXOEntry

namespace UtxoCollection

section
variable (uc : UtxoCollection) (outpoint : DomainOutpoint)

/-- Whether the collection has an entry at the outpoint. -/
def contains : Bool :=
  (uc.get outpoint).isSome

/-- Whether the collection has an entry at the outpoint with this DAA score. -/
def containsWithDAAScore (daaScore : UInt64) : Bool :=
  (uc.get outpoint).any fun entry => entry.blockDAAScore == daaScore

/-- Adds an entry, replacing the one at the same outpoint. -/
def add (entry : UTXOEntry) : UtxoCollection :=
  uc.insert outpoint entry

/-- Removes the entry at the outpoint, if it exists. -/
def remove : UtxoCollection :=
  uc.erase outpoint

end

/-- Removes the outpoints of another collection. -/
def removeMultiple (uc collectionToRemove : UtxoCollection) : UtxoCollection :=
  uc.eraseAll collectionToRemove

lemma containsWithDAAScore_eq_true {uc : UtxoCollection} {o : DomainOutpoint} {s : UInt64} :
    uc.containsWithDAAScore o s = true ↔ ∃ e, uc.get o = some e ∧ e.blockDAAScore = s := by
  unfold containsWithDAAScore
  cases uc.get o <;> simp

end UtxoCollection

/-- Whether two collections share an outpoint. -/
def checkIntersection (collection1 collection2 : UtxoCollection) : Bool :=
  collection1.any fun outpoint _ => collection2.contains outpoint

/-- Whether two collections share an outpoint whose two entries satisfy a rule. -/
def checkIntersectionWithRule (collection1 collection2 : UtxoCollection)
    (extraRule : DomainOutpoint → UTXOEntry → UTXOEntry → Bool) : Bool :=
  collection1.any fun outpoint utxoEntry =>
    (collection2.get outpoint).any fun diffEntry => extraRule outpoint utxoEntry diffEntry

/-- The entries of `collection1` that `collection2` has with the same DAA score
are added to `result`, the others to `remainder`. -/
def intersectionWithRemainderHavingDAAScoreInPlace
    (collection1 collection2 result remainder : UtxoCollection) :
    UtxoCollection × UtxoCollection :=
  (result.insertAll (collection1.filter fun outpoint utxoEntry =>
      collection2.containsWithDAAScore outpoint utxoEntry.blockDAAScore),
    remainder.insertAll (collection1.filter fun outpoint utxoEntry =>
      !collection2.containsWithDAAScore outpoint utxoEntry.blockDAAScore))

/-- The entries of `collection1` that `collection2` does not have with the same
DAA score are added to `result`. -/
def subtractionHavingDAAScoreInPlace (collection1 collection2 result : UtxoCollection) :
    UtxoCollection :=
  result.insertAll (collection1.filter fun outpoint utxoEntry =>
    !collection2.containsWithDAAScore outpoint utxoEntry.blockDAAScore)

/-- The entries of `collection1` that `collection2` does not have with the same
DAA score are added to `result`, the others to `remainder`. -/
def subtractionWithRemainderHavingDAAScoreInPlace
    (collection1 collection2 result remainder : UtxoCollection) :
    UtxoCollection × UtxoCollection :=
  (result.insertAll (collection1.filter fun outpoint utxoEntry =>
      !collection2.containsWithDAAScore outpoint utxoEntry.blockDAAScore),
    remainder.insertAll (collection1.filter fun outpoint utxoEntry =>
      collection2.containsWithDAAScore outpoint utxoEntry.blockDAAScore))

/-- A change to a UTXO set: the entries it adds and the entries it removes. The
references to immutable views of a diff only guard against reading a diff that
was changed in the meantime and are left out. -/
structure UTXODiff where
  toAdd : UtxoCollection
  toRemove : UtxoCollection

namespace UTXODiff

/-- The diff that changes nothing. -/
def newUTXODiff : UTXODiff := ⟨∅,∅⟩

/-- The change in the other direction. -/
def reversed (mud : UTXODiff) : UTXODiff := ⟨mud.toRemove,mud.toAdd⟩

/-- `addEntry` of `mutable_utxo_diff.go`. -/
def addEntry (mud : UTXODiff) (outpoint : DomainOutpoint) (entry : UTXOEntry) :
    Except String UTXODiff :=
  if mud.toRemove.containsWithDAAScore outpoint entry.blockDAAScore then
    .ok { mud with toRemove := mud.toRemove.remove outpoint }
  else if mud.toAdd.contains outpoint then
    .error "AddEntry: Cannot add outpoint twice"
  else
    .ok { mud with toAdd := mud.toAdd.add outpoint entry }

/-- `removeEntry` of `mutable_utxo_diff.go`. -/
def removeEntry (mud : UTXODiff) (outpoint : DomainOutpoint) (entry : UTXOEntry) :
    Except String UTXODiff :=
  if mud.toAdd.containsWithDAAScore outpoint entry.blockDAAScore then
    .ok { mud with toAdd := mud.toAdd.remove outpoint }
  else if mud.toRemove.contains outpoint then
    .error "removeEntry: Cannot remove outpoint twice"
  else
    .ok { mud with toRemove := mud.toRemove.add outpoint entry }

/-- `diffFrom` returns the diff that leads from the result of `this` to the
result of `other`, both taken from the same base. -/
def diffFrom (this other : UTXODiff) : Except String UTXODiff :=
  -- in `this.toRemove` and in `other.toAdd`, unless re-added with another DAA score
  let isNotAddedOutputRemovedWithDAAScore := fun outpoint (utxoEntry diffEntry : UTXOEntry) =>
    !(diffEntry.blockDAAScore != utxoEntry.blockDAAScore &&
      (this.toAdd.containsWithDAAScore outpoint diffEntry.blockDAAScore ||
        other.toRemove.containsWithDAAScore outpoint utxoEntry.blockDAAScore))
  if checkIntersectionWithRule this.toRemove other.toAdd isNotAddedOutputRemovedWithDAAScore then
    .error "diffFrom: outpoint both in this.toAdd and in other.toRemove"
  else
  -- in `this.toAdd` and in `other.toRemove`, unless removed with another DAA score
  let isNotRemovedOutputAddedWithDAAScore := fun outpoint (utxoEntry diffEntry : UTXOEntry) =>
    !(diffEntry.blockDAAScore != utxoEntry.blockDAAScore &&
      (this.toRemove.containsWithDAAScore outpoint diffEntry.blockDAAScore ||
        other.toAdd.containsWithDAAScore outpoint utxoEntry.blockDAAScore))
  if checkIntersectionWithRule this.toAdd other.toRemove isNotRemovedOutputAddedWithDAAScore then
    .error "diffFrom: outpoint both in this.toRemove and in other.toAdd"
  else
  if checkIntersectionWithRule this.toRemove other.toRemove
      (fun _ utxoEntry diffEntry => utxoEntry.blockDAAScore != diffEntry.blockDAAScore) then
    .error ("diffFrom: outpoint both in this.toRemove and other.toRemove with different " ++
      "DAA scores, with no corresponding entry in this.toAdd")
  else
  let (resultToRemove, inBothToAdd) :=
    subtractionWithRemainderHavingDAAScoreInPlace this.toAdd other.toAdd ∅ ∅
  if checkIntersection inBothToAdd this.toRemove !=
      checkIntersection inBothToAdd other.toRemove then
    .error ("diffFrom: outpoint both in this.toAdd, other.toAdd, and only one of this.toRemove " ++
      "and other.toRemove")
  else
  let resultToRemove := subtractionHavingDAAScoreInPlace other.toRemove this.toRemove resultToRemove
  let resultToAdd := subtractionHavingDAAScoreInPlace this.toRemove other.toRemove ∅
  let resultToAdd := subtractionHavingDAAScoreInPlace other.toAdd this.toAdd resultToAdd
  .ok ⟨resultToAdd,resultToRemove⟩

/-- `withDiffInPlace` turns `this` into the diff that applies `this` and then
`other`. -/
def withDiffInPlace (this other : UTXODiff) : Except String UTXODiff :=
  if checkIntersectionWithRule other.toRemove this.toRemove
      (fun outpoint entryToAdd _ =>
        !this.toAdd.containsWithDAAScore outpoint entryToAdd.blockDAAScore) then
    .error "withDiffInPlace: outpoint both in this.toRemove and in other.toRemove"
  else
  if checkIntersectionWithRule other.toAdd this.toAdd
      (fun outpoint _ existingEntry =>
        !other.toRemove.containsWithDAAScore outpoint existingEntry.blockDAAScore) then
    .error "withDiffInPlace: outpoint both in this.toAdd and in other.toAdd"
  else
  -- what `other` removes is no longer added, or else is removed
  let (intersection, thisToRemove) :=
    intersectionWithRemainderHavingDAAScoreInPlace other.toRemove this.toAdd ∅ this.toRemove
  let thisToAdd := this.toAdd.removeMultiple intersection
  -- what `other` adds is no longer removed, or else is added
  let (intersection, thisToAdd) :=
    intersectionWithRemainderHavingDAAScoreInPlace other.toAdd thisToRemove ∅ thisToAdd
  let thisToRemove := thisToRemove.removeMultiple intersection
  .ok ⟨thisToAdd,thisToRemove⟩

/-- `withDiff` works on a copy of `this`. -/
def withDiff (this diff : UTXODiff) : Except String UTXODiff :=
  withDiffInPlace this diff

end UTXODiff
end Eiyaro
