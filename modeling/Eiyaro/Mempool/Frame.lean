import Eiyaro.Mempool.Operations

/-!
# What computations leave alone

Most steps of an operation only touch entries and cached values of a transaction object; `Same`
is what they leave as it was.
-/

namespace Eiyaro

namespace DomainTransaction

lemma previousOutpoints_unpopulated (tx : DomainTransaction) :
    tx.unpopulated.previousOutpoints = tx.previousOutpoints := by
  show (tx.inputs.map fun input => { input with utxoEntry := none }).map _ = _
  rw [List.map_map]
  rfl

lemma previousOutpoints_congr {tx tx' : DomainTransaction}
    (h : tx.unpopulated = tx'.unpopulated) : tx.previousOutpoints = tx'.previousOutpoints := by
  rw [← previousOutpoints_unpopulated,h,previousOutpoints_unpopulated]

lemma outputs_unpopulated (tx : DomainTransaction) : tx.unpopulated.outputs = tx.outputs :=
  rfl

end DomainTransaction

namespace Mempool
variable {setup : MempoolSetup} {s t u : Mempool}

/-! ## Frames -/

structure Same (touched : Set Pointer) (s t : Mempool) : Prop where
  objects : ∀ p, p ∉ touched → t.objects p = s.objects p
  core : ∀ p, (t.objects p).toDomainTransaction.unpopulated =
    (s.objects p).toDomainTransaction.unpopulated
  nextPointer : t.nextPointer = s.nextPointer
  allTransactions : t.allTransactions = s.allTransactions
  highPriorityTransactions : t.highPriorityTransactions = s.highPriorityTransactions
  chainedTransactionsByParentID : t.chainedTransactionsByParentID = s.chainedTransactionsByParentID
  transactionsOrderedByFeeRate : t.transactionsOrderedByFeeRate = s.transactionsOrderedByFeeRate
  parentTransactionsInPool : t.parentTransactionsInPool = s.parentTransactionsInPool
  poolUnspentOutputs : t.poolUnspentOutputs = s.poolUnspentOutputs
  transactionByPreviousOutpoint : t.transactionByPreviousOutpoint = s.transactionByPreviousOutpoint
  allOrphans : t.allOrphans = s.allOrphans
  orphansByPreviousOutpoint : t.orphansByPreviousOutpoint = s.orphansByPreviousOutpoint

namespace Same
variable {touched : Set Pointer}

lemma refl (touched : Set Pointer) (s : Mempool) : Same touched s s :=
  ⟨fun _ _ => rfl,fun _ => rfl,rfl,rfl,rfl,rfl,rfl,rfl,rfl,rfl,rfl,rfl⟩

section
variable (h : Same touched s t)
include h

lemma trans (h' : Same touched t u) : Same touched s u :=
  ⟨fun p hp => (h'.objects p hp).trans (h.objects p hp),fun p => (h'.core p).trans (h.core p),
    h'.nextPointer.trans h.nextPointer,h'.allTransactions.trans h.allTransactions,
    h'.highPriorityTransactions.trans h.highPriorityTransactions,
    h'.chainedTransactionsByParentID.trans h.chainedTransactionsByParentID,
    h'.transactionsOrderedByFeeRate.trans h.transactionsOrderedByFeeRate,
    h'.parentTransactionsInPool.trans h.parentTransactionsInPool,
    h'.poolUnspentOutputs.trans h.poolUnspentOutputs,
    h'.transactionByPreviousOutpoint.trans h.transactionByPreviousOutpoint,
    h'.allOrphans.trans h.allOrphans,
    h'.orphansByPreviousOutpoint.trans h.orphansByPreviousOutpoint⟩

lemma mono {touched' : Set Pointer} (hs : touched ⊆ touched') : Same touched' s t :=
  { h with objects := fun p hp => h.objects p fun hm => hp (hs hm) }

lemma previousOutpoints (p : Pointer) :
    (t.objects p).previousOutpoints = (s.objects p).previousOutpoints :=
  DomainTransaction.previousOutpoints_congr (h.core p)

lemma outputs (p : Pointer) : (t.objects p).outputs = (s.objects p).outputs := by
  rw [← DomainTransaction.outputs_unpopulated,h.core p,DomainTransaction.outputs_unpopulated]

end
end Same

/-! ## Writing an object -/

/-- The state with another object at a pointer. -/
def setObject (s : Mempool) (pointer : Pointer) (tx : TransactionObject) : Mempool :=
  { s with objects := fun p => if p = pointer then tx else s.objects p }

@[simp]
lemma setObject_objects_self (s : Mempool) (pointer : Pointer) (tx : TransactionObject) :
    (s.setObject pointer tx).objects pointer = tx :=
  if_pos rfl

lemma same_setObject {pointer : Pointer} {tx : TransactionObject}
    (h : tx.toDomainTransaction.unpopulated = (s.objects pointer).toDomainTransaction.unpopulated) :
    Same {pointer} s (s.setObject pointer tx) := by
  refine ⟨fun p hp => if_neg hp,fun p => ?_,rfl,rfl,rfl,rfl,rfl,rfl,rfl,rfl,rfl,rfl⟩
  by_cases hp : p = pointer
  · rw [hp,setObject_objects_self]
    exact h
  · rw [show (s.setObject pointer tx).objects p = _ from if_neg hp]

/-! ## Computations that only touch some objects -/

open EStateM in
/-- The computation leaves everything but the objects at `touched` alone, and fails only with
errors that satisfy `P`. -/
def Frames {α : Type} (touched : Set Pointer) (P : MempoolFailure → Prop) (x : MempoolM α) : Prop :=
  ∀ s, wp x (fun _ => Same touched s) (fun e t => P e ∧ Same touched s t) s

namespace Frames
open EStateM
variable {α β : Type} {touched : Set Pointer} {P : MempoolFailure → Prop}

lemma pure (a : α) : Frames touched P (pure a : MempoolM α) :=
  fun s => .refl touched s

lemma bind {x : MempoolM α} {f : α → MempoolM β} (hx : Frames touched P x)
    (hf : ∀ a, Frames touched P (f a)) : Frames touched P (x >>= f) := by
  intro s
  rw [wp_bind]
  refine (hx s).imp (fun a t ht => ?_)
  exact (hf a t).mono (fun _ _ hu => ht.trans hu) fun _ _ hu => ⟨hu.1,ht.trans hu.2⟩


lemma forM {f : α → MempoolM PUnit} (hf : ∀ a, Frames touched P (f a)) (as : List α) :
    Frames touched P (as.forM f) := by
  induction as with
  | nil => exact Frames.pure PUnit.unit
  | cons a as ih => exact (hf a).bind fun _ => ih

lemma foldlM {f : β → α → MempoolM β} (hf : ∀ b a, Frames touched P (f b a)) (as : List α)
    (b : β) : Frames touched P (as.foldlM f b) := by
  induction as generalizing b with
  | nil => exact Frames.pure b
  | cons a as ih =>
    exact (hf b a).bind ih

end Frames
end Mempool
end Eiyaro
