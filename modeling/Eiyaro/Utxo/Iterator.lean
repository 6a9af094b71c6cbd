import Eiyaro.Model.Failure
import Eiyaro.Utxo.Diff

/-!
# Iterators over collections

An iterator of `utxo_iterator.go` has copied the pairs of a collection in some order. `Equal`
moves to the first pair and then asks for the next one before it looks at a pair, so that it
never looks at the first one.
-/

namespace Eiyaro
open List FinMap

structure UtxoCollectionIterator where
  index : Int
  pairs : List (DomainOutpoint × UTXOEntry)
  isClosed : Bool

def UtxoCollection.iterator (uc : UtxoCollection) (order : uc.Iteration) : UtxoCollectionIterator :=
  ⟨-1,order.entries,false⟩

namespace UtxoCollectionIterator
variable (uci : UtxoCollectionIterator)

def first : Except Failure (Bool × UtxoCollectionIterator) :=
  if uci.isClosed then .error (.panic "Tried using a closed utxoCollectionIterator")
  else .ok (decide (0 < uci.pairs.length), { uci with index := 0 })

def next : Except Failure (Bool × UtxoCollectionIterator) :=
  if uci.isClosed then .error (.panic "Tried using a closed utxoCollectionIterator")
  else .ok (decide (uci.index+1 < uci.pairs.length), { uci with index := uci.index+1 })

def get : Except Failure (DomainOutpoint × UTXOEntry) :=
  if uci.isClosed then .error (.error "Tried using a closed utxoCollectionIterator")
  else if uci.index < 0 then .error (.panic "index out of range")
  else indexSlice uci.pairs uci.index.toNat

lemma get_of_lt {i : Nat} {pairs : List (DomainOutpoint × UTXOEntry)} (h : i < pairs.length) :
    get ⟨i,pairs,false⟩ = .ok pairs[i] := by
  simp [get,indexSlice_of_lt h]

end UtxoCollectionIterator

/-! ## The comparison of two diffs -/

/-- The loop of `utxoCollectionsEqual`, with fuel. -/
def equalLoop (b : UtxoCollection) : Nat → UtxoCollectionIterator → Except Failure Bool
  | 0, _ => .error (.error "out of fuel")
  | fuel+1, iterator => do
    let (more, iterator) ← iterator.next
    if more then
      match iterator.get with
      | .error (.panic message) => .error (.panic message)
      | .error _ => return false
      | .ok (outpoint, entryA) =>
        if b.get outpoint = some entryA then equalLoop b fuel iterator else return false
    else return true

def utxoCollectionsEqual (a b : UtxoCollection) (order : a.Iteration) : Except Failure Bool :=
  if a.keys.card ≠ b.keys.card then .ok false
  else do
    let (_, iterator) ← (a.iterator order).first
    equalLoop b (iterator.pairs.length+1) iterator

def UTXODiff.equal (mud other : UTXODiff) (addOrder : mud.toAdd.Iteration)
    (removeOrder : mud.toRemove.Iteration) : Except Failure Bool := do
  if ← utxoCollectionsEqual mud.toAdd other.toAdd addOrder then
    utxoCollectionsEqual mud.toRemove other.toRemove removeOrder
  else return false

variable {a b : UtxoCollection}

/-- The loop compares the pairs after the position. -/
lemma equalLoop_eq (pairs : List (DomainOutpoint × UTXOEntry)) (fuel i : Nat)
    (hi : i ≤ pairs.length) (hf : pairs.length < i+fuel) :
    equalLoop b fuel ⟨i,pairs,false⟩ =
      .ok ((pairs.drop (i+1)).all fun pair => decide (b.get pair.1 = some pair.2)) := by
  induction fuel generalizing i with
  | zero => omega
  | succ fuel ih =>
    have hn : UtxoCollectionIterator.next ⟨i,pairs,false⟩ =
        .ok (decide (i+1 < pairs.length), ⟨(i+1 : Nat),pairs,false⟩) := by
      simp [UtxoCollectionIterator.next]
      omega
    rw [equalLoop,hn,ok_bind]
    by_cases hlt : i+1 < pairs.length
    · simp only [hlt,decide_true,if_true,UtxoCollectionIterator.get_of_lt]
      rw [drop_eq_getElem_cons hlt,all_cons,ih (i+1) hlt.le (by omega)]
      split
      · next heq => rw [decide_eq_true heq,Bool.true_and]
      · next hne => rw [decide_eq_false hne,Bool.false_and]; rfl
    · rw [drop_eq_nil_of_le (Nat.le_of_not_lt hlt)]
      simp [hlt]
      rfl

lemma eq_of_forall_get (hc : a.keys.card = b.keys.card)
    (h : ∀ o e, a.get o = some e → b.get o = some e) : a = b := by
  have hs : a.keys ⊆ b.keys := by
    intro o ho
    obtain ⟨e,he⟩ := exists_get_of_mem ho
    exact mem_keys_of_get (h o e he)
  have hk := Finset.eq_of_subset_of_card_le hs hc.ge
  ext1 o
  cases ha : a.get o with
  | some e => exact (h o e ha).symm
  | none =>
    have ho : o ∉ b.keys := by simp [← hk,a.mem_keys,ha]
    rw [b.mem_keys,Option.not_isSome_iff_eq_none] at ho
    exact ho.symm

/-- What the loop compares: the sizes, and all pairs but the first one. -/
def AgreesAfterFirst (b : UtxoCollection) (order : a.Iteration) : Prop :=
  a.keys.card = b.keys.card ∧ ∀ pair ∈ order.entries.tail, b.get pair.1 = some pair.2

instance (b : UtxoCollection) (order : a.Iteration) : Decidable (AgreesAfterFirst b order) :=
  inferInstanceAs (Decidable (_ ∧ _))

/-- What the loop leaves out: the first pair, if there is one. -/
def AgreesOnFirst (b : UtxoCollection) (order : a.Iteration) : Prop :=
  ∀ pair ∈ order.entries.head?, b.get pair.1 = some pair.2

lemma utxoCollectionsEqual_eq (order : a.Iteration) :
    utxoCollectionsEqual a b order = .ok (decide (AgreesAfterFirst b order)) := by
  by_cases hc : a.keys.card = b.keys.card
  · rw [utxoCollectionsEqual,if_neg (not_not.2 hc)]
    have hl := equalLoop_eq (b := b) order.entries (order.entries.length+1) 0 (Nat.zero_le _)
      (by omega)
    rw [drop_one] at hl
    refine hl.trans (congrArg Except.ok ?_)
    rw [Bool.eq_iff_iff,all_eq_true,decide_eq_true_iff,AgreesAfterFirst,and_iff_right hc]
    exact forall₂_congr fun pair _ => decide_eq_true_iff
  · rw [utxoCollectionsEqual,if_pos hc,decide_eq_false fun h => hc h.1]

lemma eq_iff_agrees (order : a.Iteration) :
    a = b ↔ AgreesAfterFirst b order ∧ AgreesOnFirst b order := by
  constructor
  · rintro rfl
    exact ⟨⟨rfl,fun pair hp => order.mem_entries.1 (mem_of_mem_tail hp)⟩,
      fun pair hp => order.mem_entries.1 (mem_of_mem_head? hp)⟩
  · rintro ⟨⟨hc,ht⟩,hf⟩
    refine eq_of_forall_get hc fun o e he => ?_
    have hm := order.mem_entries.2 he
    unfold AgreesOnFirst at hf
    cases hen : order.entries with
    | nil => simp [hen] at hm
    | cons pair rest =>
      rw [hen] at hm ht hf
      obtain rfl | hm := mem_cons.1 hm
      · exact hf (o, e) rfl
      · exact ht (o, e) hm

/-- `Equal` answers in every order of iteration, and the answer is right if and only if the pairs
that it leaves out agree whenever all that it compares agrees. -/
theorem UTXODiff.equal_iff (mud other : UTXODiff) (addOrder : mud.toAdd.Iteration)
    (removeOrder : mud.toRemove.Iteration) :
    ∃ answer, mud.equal other addOrder removeOrder = .ok answer ∧
      ((answer = true ↔ mud.toAdd = other.toAdd ∧ mud.toRemove = other.toRemove) ↔
        (AgreesAfterFirst other.toAdd addOrder ∧ AgreesAfterFirst other.toRemove removeOrder →
          AgreesOnFirst other.toAdd addOrder ∧ AgreesOnFirst other.toRemove removeOrder)) := by
  rw [equal,utxoCollectionsEqual_eq,utxoCollectionsEqual_eq,eq_iff_agrees addOrder,
    eq_iff_agrees removeOrder,ok_bind]
  by_cases ha : AgreesAfterFirst other.toAdd addOrder
  · rw [decide_eq_true ha,if_pos rfl]
    refine ⟨_,rfl,?_⟩
    rw [decide_eq_true_iff]
    tauto
  · rw [decide_eq_false ha,if_neg Bool.false_ne_true]
    refine ⟨false,rfl,?_⟩
    simp [ha]

/-- A diff that adds one output. -/
def addingOne (amount : UInt64) : UTXODiff :=
  ⟨FinMap.insert ∅ ⟨1,0⟩ ⟨amount,⟨[],0⟩,false,0⟩,∅⟩

def addingOneOrder (amount : UInt64) : (addingOne amount).toAdd.Iteration where
  order := [⟨1,0⟩]
  nodup := nodup_singleton _
  mem_order o := by
    show o ∈ [_] ↔ o ∈ Insert.insert _ ∅
    simp

def noOrder : (∅ : UtxoCollection).Iteration :=
  ⟨[],nodup_nil,fun o => by simp [FinMap.mem_keys]⟩

/-- The amounts differ, and the only entries are left out. -/
theorem UTXODiff.equal_of_different_amounts :
    (addingOne 1).equal (addingOne 2) (addingOneOrder 1) noOrder = .ok true ∧
      (addingOne 1).toAdd ≠ (addingOne 2).toAdd := by
  refine ⟨by decide,fun h => ?_⟩
  have hg := congrArg (fun m => m.get ⟨1,0⟩) h
  revert hg
  decide

end Eiyaro
