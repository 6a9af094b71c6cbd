import Eiyaro.Mempool.Frame
import Eiyaro.Util.Descent

/-!
# Transactions that depend on others in the pool

`getRedeemers` walks down the lists of children and visits a transaction once for each path that
leads to it. `poolUnspentOutputs` has all outputs of the transactions in the pool, since adding a
transaction does not take out what it spends.
-/

namespace Eiyaro.Mempool
open List Relation Descent EStateM FinMap

/-! ## Redeemers -/

section
variable (setup : MempoolSetup) (mp : Mempool)

/-- The children that are listed for an ID. -/
def childrenOf (id : DomainTransactionID) : List MempoolTransaction :=
  (mp.chainedTransactionsByParentID.get id).getD []

/-- The second transaction is listed as a child of the first. -/
def Redeems : MempoolTransaction → MempoolTransaction → Prop :=
  Child (fun transaction => idAt setup mp transaction.transaction) (childrenOf mp)

/-- The transactions at the ends of the paths that lead down, one for each path. -/
def pathEnds : MempoolTransaction → List MempoolTransaction :=
  below (fun transaction => idAt setup mp transaction.transaction) (childrenOf mp)
    mp.chainedTransactionsByParentID.keys.card

/-- Below the transaction, each one has a single parent and is listed once as its child. -/
def HasSingleParents : MempoolTransaction → Prop :=
  IsTree (fun transaction => idAt setup mp transaction.transaction) (childrenOf mp)

/-- No transaction is below itself. -/
def NoCycle : Prop :=
  ∀ a b, TransGen (Redeems setup mp) a b → idAt setup mp b.transaction ≠ idAt setup mp a.transaction

variable {setup mp}

lemma NoCycle.acyclic (h : NoCycle setup mp) :
    Acyclic (fun transaction => idAt setup mp transaction.transaction) (childrenOf mp)
      mp.chainedTransactionsByParentID.keys := by
  refine ⟨fun id hid => ?_,h⟩
  unfold childrenOf
  cases hg : mp.chainedTransactionsByParentID.get id with
  | none => rfl
  | some _ => exact absurd (mem_keys_of_get hg) hid

/-- The loop comes to the end of every path that leads down from its stack. -/
lemma redeemersLoop_perm (h : NoCycle setup mp) (fuel : Nat)
    (stack redeemers : List MempoolTransaction)
    (hf : (stack.map fun t => (pathEnds setup mp t).length+1).sum ≤ fuel) :
    ∃ found, redeemersLoop setup mp fuel stack redeemers = .ok found ∧
      found.Perm (redeemers ++ stack.flatMap (pathEnds setup mp)) := by
  induction fuel generalizing stack redeemers with
  | zero =>
    cases stack with
    | nil => exact ⟨redeemers,rfl,by simp⟩
    | cons current stack => simp at hf
  | succ fuel ih =>
    cases stack with
    | nil => exact ⟨redeemers,rfl,by simp⟩
    | cons current stack =>
      let children := childrenOf mp (idAt setup mp current.transaction)
      have he : pathEnds setup mp current = children ++ children.flatMap (pathEnds setup mp) :=
        h.acyclic.below_eq current
      have hl : (pathEnds setup mp current).length =
          (children.map fun t => (pathEnds setup mp t).length+1).sum :=
        (congrArg length (h.acyclic.below_eq current)).trans (length_below_succ ..)
      -- the children replace their parent on the stack
      obtain ⟨found,hfn,hp⟩ := ih (children.reverse ++ stack) (redeemers ++ children) (by
        rw [map_cons,sum_cons] at hf
        rw [map_append,sum_append,map_reverse,sum_reverse]
        omega)
      refine ⟨found,hfn,hp.trans ?_⟩
      rw [flatMap_append,flatMap_cons,he]
      simp only [append_assoc]
      gcongr
      exact reverse_perm children

/-- On lists without a cycle `getRedeemers` ends, and it returns each transaction below the given
one, once for every path that leads to it, and nothing else. -/
lemma getRedeemers_perm (h : NoCycle setup mp) (transaction : MempoolTransaction) :
    ∃ redeemers, getRedeemers setup mp transaction = .ok redeemers ∧
      redeemers.Perm (pathEnds setup mp transaction) ∧
      ∀ redeemer, redeemer ∈ redeemers ↔ TransGen (Redeems setup mp) transaction redeemer := by
  have hB : ∀ id, (childrenOf mp id).length ≤
      ∑ id ∈ mp.chainedTransactionsByParentID.keys, (childrenOf mp id).length := by
    intro id
    by_cases hid : id ∈ mp.chainedTransactionsByParentID.keys
    · exact Finset.single_le_sum (f := fun id => (childrenOf mp id).length)
        (fun _ _ => Nat.zero_le _) hid
    · rw [h.acyclic.keys id hid]
      exact Nat.zero_le _
  have hf : (pathEnds setup mp transaction).length < redeemersFuel mp := by
    refine (h.acyclic.length_below_lt hB _ transaction).trans_le ?_
    apply Nat.pow_le_pow_right (by omega)
    classical exact (Finset.card_filter_le _ _).trans (Nat.le_add_right _ 2)
  obtain ⟨redeemers,hok,hpr⟩ := redeemersLoop_perm h _ [transaction] []
    (by simpa [Nat.succ_le_iff] using hf)
  rw [flatMap_singleton] at hpr
  exact ⟨redeemers,hok,hpr,fun redeemer => hpr.mem_iff.trans h.acyclic.mem_below_iff⟩

/-- Transactions 2 and 3 redeem transaction 1, and transaction 4 redeems both of them. -/
def diamond : Mempool :=
  { new sampleSetup 0 with
    objects := fun p => sampleTransaction (UInt64.ofNat p) [] []
    chainedTransactionsByParentID :=
      ((insert ∅ 1 [⟨2,false,0⟩,⟨3,false,0⟩]).insert 2 [⟨4,false,0⟩]).insert 3 [⟨4,false,0⟩] }

lemma diamond_noCycle : NoCycle sampleSetup diamond := by
  -- a child is found at a larger pointer below 5, where pointers and IDs are the same
  have hc : ∀ id, ∀ t ∈ childrenOf diamond id, id < idAt sampleSetup diamond t.transaction := by
    intro id t ht
    by_cases h3 : id = 3
    · subst h3
      revert t
      decide
    · by_cases h2 : id = 2
      · subst h2
        revert t
        decide
      · by_cases h1 : id = 1
        · subst h1
          revert t
          decide
        · simp [childrenOf,diamond,get_insert,h1,h2,h3] at ht
  intro _ _ h
  apply ne_of_gt
  induction h with
  | single h => exact hc _ _ h
  | tail _ h ih => exact ih.trans (hc _ _ h)

end

/-! ## Unspent outputs -/

variable {setup : MempoolSetup} {mp mp' : Mempool} {o : DomainOutpoint}

/-- A call on the UTXO set of the mempool. -/
inductive UTXOSetCall
  | addTransaction (transaction : MempoolTransaction)
  | removeTransaction (transaction : MempoolTransaction)

/-- The transaction is in the pool. -/
def enter (setup : MempoolSetup) (transaction : MempoolTransaction) (mp : Mempool) : Mempool :=
  { mp with
    allTransactions :=
      mp.allTransactions.insert (idAt setup mp transaction.transaction) transaction }

/-- The transaction is not in the pool any more. -/
def leave (setup : MempoolSetup) (transaction : MempoolTransaction) (mp : Mempool) : Mempool :=
  { mp with
    allTransactions := mp.allTransactions.erase (idAt setup mp transaction.transaction) }

namespace UTXOSetCall

/-- The call together with what its caller does to the pool: a transaction is in the pool before
it is added and leaves it after it was removed. -/
def perform (setup : MempoolSetup) : UTXOSetCall → MempoolM Unit
  | addTransaction transaction => do
    modify (enter setup transaction)
    addToUTXOSet setup transaction
  | removeTransaction transaction => do
    removeFromUTXOSet setup transaction
    modify (leave setup transaction)

def step (setup : MempoolSetup) (mp : Mempool) (call : UTXOSetCall) : Option Mempool :=
  match call.perform setup mp with
  | .ok _ mp' => some mp'
  | .error _ _ => none

end UTXOSetCall

section
variable (mp o)

/-- An output of a transaction in the pool. -/
def IsOutput : Prop :=
  ∃ transaction, mp.allTransactions.get o.transactionID = some transaction ∧
    o.index.toNat < (mp.objects transaction.transaction).outputs.length

/-- A transaction in the pool spends the outpoint. -/
def IsSpent : Prop :=
  ∃ id transaction, mp.allTransactions.get id = some transaction ∧
    o ∈ (mp.objects transaction.transaction).previousOutpoints

end

/-- What is spent of a transaction in the pool exists. -/
def NamesExisting (mp : Mempool) : Prop :=
  ∀ o, IsSpent mp o → (mp.allTransactions.get o.transactionID).isSome → IsOutput mp o

/-- A transaction is added once and removed only after that, and no transaction in the pool
spends an output that another one does not have. -/
def UTXOSetCall.Allowed (setup : MempoolSetup) (mp : Mempool) : UTXOSetCall → Prop
  | addTransaction transaction =>
    mp.allTransactions.get (idAt setup mp transaction.transaction) = none ∧
      NamesExisting (mp.enter setup transaction)
  | removeTransaction transaction =>
    mp.allTransactions.get (idAt setup mp transaction.transaction) = some transaction

section
variable {id : DomainTransactionID} {n : Nat} {outpoints : List DomainOutpoint}
  (h : checkedOutpoints id n = .ok outpoints)
include h

lemma eq_of_checkedOutpoints :
    n ≤ 2^32 ∧ outpoints = (range n).map fun i => ⟨id,UInt32.ofNat i⟩ := by
  unfold checkedOutpoints at h
  split at h
  · exact ⟨‹_›,(Except.ok.inj h).symm⟩
  · cases h

lemma mem_checkedOutpoints : o ∈ outpoints ↔ o.transactionID = id ∧ o.index.toNat < n := by
  obtain ⟨hn,rfl⟩ := eq_of_checkedOutpoints h
  simp only [mem_map,mem_range]
  constructor
  · rintro ⟨_,hi,rfl⟩
    exact ⟨rfl,by rwa [UInt32.toNat_ofNat',Nat.mod_eq_of_lt (hi.trans_le hn)]⟩
  · rintro ⟨rfl,hi⟩
    exact ⟨o.index.toNat,hi,by simp⟩

end

lemma isSome_get_foldl_insert {β V : Type} (outpoint : β → DomainOutpoint) (value : β → V)
    (p : β → Prop) [DecidablePred p] (l : List β) (m : FinMap DomainOutpoint V) :
    ((l.foldl (fun m b => if p b then m.insert (outpoint b) (value b) else m) m).get o).isSome ↔
      (m.get o).isSome ∨ ∃ b ∈ l, p b ∧ outpoint b = o := by
  induction l generalizing m with
  | nil => simp
  | cons b l ih =>
    rw [foldl_cons,ih,exists_mem_cons_iff]
    by_cases hb : p b
    · rw [if_pos hb,get_insert]
      by_cases heq : o = outpoint b
      · simp [heq,hb]
      · simp [heq,Ne.symm]
    · simp [hb]

lemma addToUTXOSet_wp (transaction : MempoolTransaction) (mp : Mempool) :
    wp (addToUTXOSet setup transaction) (fun _ mp' => mp'.objects = mp.objects ∧
      mp'.allTransactions = mp.allTransactions ∧ ∃ ins outs,
        checkedOutpoints (idAt setup mp transaction.transaction)
          (mp.objects transaction.transaction).inputs.length = .ok ins ∧
        checkedOutpoints (idAt setup mp transaction.transaction)
          (mp.objects transaction.transaction).outputs.length = .ok outs ∧
        ∀ o, (mp'.poolUnspentOutputs.get o).isSome ↔
          o ∉ ins ∧ (mp.poolUnspentOutputs.get o).isSome ∨ o ∈ outs)
      (fun _ _ => True) mp := by
  unfold addToUTXOSet
  rw [wp_bind,wp_get,wp_bind]
  refine wp_ofExcept (fun ins hi => ?_) fun _ _ => trivial
  rw [wp_bind]
  refine wp_ofExcept (fun outs hot => ?_) fun _ _ => trivial
  refine (wp_set _).2 ⟨rfl,rfl,ins,outs,hi,hot,fun o => ?_⟩
  have hf := isSome_get_foldl_insert (o := o) Prod.fst (fun created => some
    (unacceptedEntry created.2)) (fun _ => True)
  simp only [if_true,true_and] at hf
  have hl : outs.length = (mp.objects transaction.transaction).outputs.length := by
    simp [(eq_of_checkedOutpoints hot).2]
  rw [hf,get_eraseKeys,← mem_map,map_fst_zip hl.le]
  by_cases ho : o ∈ ins
  · simp [ho]
  · simp [ho]

lemma removeFromUTXOSet_wp (transaction : MempoolTransaction) (mp : Mempool) :
    wp (removeFromUTXOSet setup transaction) (fun _ mp' => mp'.objects = mp.objects ∧
      mp'.allTransactions = mp.allTransactions ∧ ∃ outs,
        checkedOutpoints (idAt setup mp transaction.transaction)
          (mp.objects transaction.transaction).outputs.length = .ok outs ∧
        ∀ o, (mp'.poolUnspentOutputs.get o).isSome ↔ o ∉ outs ∧
          ((mp.poolUnspentOutputs.get o).isSome ∨
            (mp.allTransactions.get o.transactionID).isSome ∧
              o ∈ (mp.objects transaction.transaction).previousOutpoints))
      (fun _ _ => True) mp := by
  unfold removeFromUTXOSet
  rw [wp_bind,wp_get,wp_bind]
  refine wp_ofExcept (fun outs hot => ?_) fun _ _ => trivial
  refine (wp_set _).2 ⟨rfl,rfl,outs,hot,fun o => ?_⟩
  rw [get_eraseKeys]
  by_cases ho : o ∈ outs
  · simp [ho]
  · rw [if_neg ho,isSome_get_foldl_insert]
    simp only [ho,not_false_iff,true_and]
    apply or_congr_right
    unfold DomainTransaction.previousOutpoints
    rw [mem_map]
    constructor
    · rintro ⟨input,hin,hpl,rfl⟩
      exact ⟨hpl,input,hin,rfl⟩
    · rintro ⟨hpl,input,hin,rfl⟩
      exact ⟨input,hin,hpl,rfl⟩

/-- The outputs of all transactions in the pool are there. -/
structure HasOutputs (mp : Mempool) : Prop where
  isSome_iff : ∀ o, (mp.poolUnspentOutputs.get o).isSome ↔ IsOutput mp o
  names : NamesExisting mp

lemma IsOutput.congr (ho : mp'.objects = mp.objects)
    (ha : mp'.allTransactions = mp.allTransactions) : IsOutput mp' o ↔ IsOutput mp o := by
  unfold IsOutput
  rw [ho,ha]

lemma NamesExisting.congr (h : NamesExisting mp) (ho : mp'.objects = mp.objects)
    (ha : mp'.allTransactions = mp.allTransactions) : NamesExisting mp' := by
  intro o hsp hp
  unfold IsSpent at hsp
  rw [ho,ha] at hsp
  rw [ha] at hp
  exact (IsOutput.congr ho ha).2 (h o hsp hp)

lemma HasOutputs.perform (h : HasOutputs mp) {call : UTXOSetCall} (hc : call.Allowed setup mp) :
    wp (call.perform setup) (fun _ => HasOutputs) (fun _ _ => True) mp := by
  cases call with
  | addTransaction transaction =>
    obtain ⟨hnw,hn⟩ := hc
    refine (wp_bind _ _).2 ((wp_modify _).2 ((addToUTXOSet_wp transaction _).mono ?_
      fun _ _ _ => trivial))
    rintro - mp' ⟨hob,ha,_,outs,hi,hot,hg⟩
    refine ⟨fun o => ?_,hn.congr hob ha⟩
    rw [hg,IsOutput.congr hob ha,mem_checkedOutpoints hi,mem_checkedOutpoints hot]
    show ¬(o.transactionID = idAt setup mp _ ∧ _) ∧ (mp.poolUnspentOutputs.get o).isSome ∨
      o.transactionID = idAt setup mp _ ∧ _ < (mp.objects _).outputs.length ↔ ∃ t,
        (mp.allTransactions.insert _ _).get _ = _ ∧ _ < (mp.objects _).outputs.length
    rw [h.isSome_iff]
    unfold IsOutput
    by_cases ho : o.transactionID = idAt setup mp transaction.transaction
    · -- nothing of the new transaction was there before
      simp [ho,hnw]
    · simp [ho,get_insert_of_ne]
  | removeTransaction transaction =>
    refine (wp_bind _ _).2 ((removeFromUTXOSet_wp transaction mp).mono ?_ fun _ _ _ => trivial)
    rintro - mp' ⟨hob,ha,outs,hot,hg⟩
    have hin : mp.allTransactions.get (idAt setup mp transaction.transaction) = some transaction :=
      hc
    have hlv : ∀ id, (mp'.leave setup transaction).allTransactions.get id =
        if id = idAt setup mp transaction.transaction then none else mp.allTransactions.get id := by
      intro id
      unfold leave idAt
      rw [hob,ha]
      exact get_erase ..
    refine (wp_modify _).2 ⟨fun o => ?_,fun o => ?_⟩
    · show (mp'.poolUnspentOutputs.get o).isSome ↔ ∃ t, _ = some t ∧
        _ < (mp'.objects _).outputs.length
      rw [hg,hlv,hob,h.isSome_iff,mem_checkedOutpoints hot]
      -- what is restored is an output of the pool anyway
      have hr : (mp.allTransactions.get o.transactionID).isSome ∧
          o ∈ (mp.objects transaction.transaction).previousOutpoints → IsOutput mp o :=
        fun ⟨hpl,hm⟩ => h.names o ⟨_,transaction,hin,hm⟩ hpl
      rw [or_iff_left_of_imp hr]
      unfold IsOutput
      by_cases ho : o.transactionID = idAt setup mp transaction.transaction
      · simp [ho,hin]
      · simp [ho]
    · rintro ⟨id,t,ht,hm⟩ hpl
      rw [hlv] at ht hpl
      split at ht
      · cases ht
      · split at hpl
        · cases hpl
        · next hne =>
          obtain ⟨parent,hp,_⟩ := h.names o ⟨id,t,ht,by rwa [← hob]⟩ hpl
          refine ⟨parent,?_,?_⟩
          · rw [hlv,if_neg hne,hp]
          · show _ < (mp'.objects _).outputs.length
            rwa [hob]

/-- After calls that add and remove transactions the set has exactly the unspent outputs of the
transactions in it if and only if none of them spends an output of another. -/
theorem poolUnspentOutputs_iff (calls : List UTXOSetCall) (hpool : mp.allTransactions = ∅)
    (hempty : mp.poolUnspentOutputs = ∅)
    (hcalls : run.Along (UTXOSetCall.step setup) (UTXOSetCall.Allowed setup) mp calls)
    (hrun : run (UTXOSetCall.step setup) mp calls = some mp') :
    (∀ o, (mp'.poolUnspentOutputs.get o).isSome ↔ IsOutput mp' o ∧ ¬IsSpent mp' o) ↔
      ∀ o, IsOutput mp' o → ¬IsSpent mp' o := by
  have hi : HasOutputs mp := by
    refine ⟨fun o => ?_,fun o ⟨_,t,ht,_⟩ => ?_⟩
    · simp [hempty,hpool,IsOutput]
    · simp [hpool] at ht
  have hf : HasOutputs mp' := by
    refine run.invariant_along (fun s call _ hs hc hst => ?_) hi hcalls hrun
    have hwp := hs.perform hc
    unfold UTXOSetCall.step at hst
    unfold wp at hwp
    cases hr : call.perform setup s with
    | ok _ t =>
      rw [hr] at hwp hst
      exact Option.some.inj hst ▸ hwp
    | error _ t =>
      rw [hr] at hst
      cases hst
  simp only [hf.isSome_iff,iff_self_and]

/-- The transaction at pointer 1 spends an output of consensus, and the others spend its. -/
def chainStart : Mempool :=
  { new sampleSetup 0 with
    objects := fun p => sampleTransaction (UInt64.ofNat p) [⟨if p = 1 then 100 else 1,0⟩] [5] }

lemma namesExisting_chain (hob : mp.objects = chainStart.objects)
    (hfirst : mp.allTransactions.get 1 = some ⟨1,false,0⟩)
    (hnone : mp.allTransactions.get 100 = none) : NamesExisting mp := by
  rintro o ⟨_,t,-,ho⟩ hp
  rw [hob] at ho
  obtain rfl := mem_singleton.1 ho
  by_cases ht : t.transaction = 1
  · simp [ht,hnone] at hp
  · refine ⟨⟨1,false,0⟩,by simpa [ht] using hfirst,?_⟩
    rw [hob]
    exact Nat.one_pos

/-- The second transaction is added and removed again, which leaves the first one unspent. -/
theorem poolUnspentOutputs_iff_removed : ∃ mp', run (UTXOSetCall.step sampleSetup) chainStart
    [.addTransaction ⟨1,false,0⟩,.addTransaction ⟨2,false,0⟩,.removeTransaction ⟨2,false,0⟩] =
      some mp' ∧ ∀ o, (mp'.poolUnspentOutputs.get o).isSome ↔ IsOutput mp' o ∧ ¬IsSpent mp' o := by
  have hc : run.Along (UTXOSetCall.step sampleSetup) (UTXOSetCall.Allowed sampleSetup) chainStart
      [.addTransaction ⟨1,false,0⟩,.addTransaction ⟨2,false,0⟩,
        .removeTransaction ⟨2,false,0⟩] := by
    refine ⟨⟨rfl,namesExisting_chain rfl rfl rfl⟩,?_⟩
    rintro _ ⟨⟩
    refine ⟨⟨rfl,namesExisting_chain rfl rfl rfl⟩,?_⟩
    rintro _ ⟨⟩
    exact ⟨rfl,fun _ _ => trivial⟩
  refine ⟨_,rfl,(poolUnspentOutputs_iff _ rfl rfl hc rfl).2 ?_⟩
  rintro o ⟨_,ht,-⟩ ⟨id,t,hg,ho⟩
  have hl : ((insert (insert ∅ 1 ⟨1,false,0⟩) 2 ⟨2,false,0⟩ : IDToTransactionMap).erase 2).get id =
      some t := hg
  obtain rfl : t = ⟨1,false,0⟩ := by
    rw [get_erase,get_insert] at hl
    split at hl
    · cases hl
    · rw [get_insert] at hl
      split at hl
      · cases hl
        rfl
      · cases hl
  obtain rfl := mem_singleton.1 ho
  cases ht

/-- The output of the first transaction stays although the second one spends it. -/
theorem poolUnspentOutputs_keeps_spent : ∃ mp', run (UTXOSetCall.step sampleSetup) chainStart
    [.addTransaction ⟨1,false,0⟩,.addTransaction ⟨2,false,0⟩] = some mp' ∧
      (mp'.poolUnspentOutputs.get ⟨1,0⟩).isSome ∧ IsSpent mp' ⟨1,0⟩ :=
  ⟨_,rfl,rfl,2,⟨2,false,0⟩,rfl,mem_cons_self⟩

end Eiyaro.Mempool
