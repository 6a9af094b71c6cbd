import Eiyaro.Mempool.Orphans

/-!
# Submitting a transaction

`ValidateAndInsertTransaction` first checks the transaction, which writes to nothing but the
transaction itself, and then puts it into the pool, lets in the orphans that waited for it and
limits the count. Its failures are traced to these parts.
-/

namespace Eiyaro
open List
variable {parents : List (DomainTransactionID × MempoolTransaction)}
variable {id : DomainTransactionID} {transaction : MempoolTransaction} {pointer : Pointer}
  {tx : TransactionObject}

/-- The fee and the mass are there, as the order by fee rate asks for. -/
def TransactionObject.Pays (tx : TransactionObject) : Prop :=
  tx.fee ≠ 0 ∧ tx.mass ≠ 0

namespace Mempool
open EStateM
variable {setup : MempoolSetup} {call : Call} {s t : Mempool} {strict : Prop} {n : Nat}

/-! ## The parts of a submission -/

section
variable (setup call)

/-- The checks, up to the parents in the pool. There are none for a transaction that has
become an orphan. -/
def checkSubmission (pointer : Pointer) (isHighPriority allowOrphan : Bool) : MempoolM
    (Option (List (DomainTransactionID × MempoolTransaction))) := do
  populateMass setup pointer
  let mp ← get
  MonadExcept.ofExcept (validateTransactionPreUTXOEntry setup mp (mp.objects pointer))
  let (parentsInPool, missingOutpoints) ← fillInputsAndGetMissingParents setup call pointer
  if missingOutpoints ≠ [] then
    if !allowOrphan then do
      let mp ← get
      MonadExcept.ofExcept (transactionRuleError .rejectBadOrphan ("Transaction " ++
        hashString (idAt setup mp pointer) ++ " is an orphan, where allowOrphan = false"))
    else do
      maybeAddOrphan setup call pointer isHighPriority
      return none
  else do
    let tx ← object pointer
    validateTransactionInContext setup call tx
    return some parentsInPool

/-- The insertion, up to the limit of the count. -/
def insertUnlimited (pointer : Pointer)
    (parentsInPool : List (DomainTransactionID × MempoolTransaction)) (isHighPriority : Bool) :
    MempoolM (List TransactionObject) := do
  let transaction ← newMempoolTransaction call pointer parentsInPool isHighPriority
  addMempoolTransaction setup transaction
  let tx ← object pointer
  recordTransaction setup call tx
  let acceptedOrphans ← processOrphansAfterAcceptedTransaction setup call tx.toDomainTransaction
  let tx ← object pointer
  return tx :: acceptedOrphans

/-- All of a submission but the limit of the count. -/
def submitUnlimited (pointer : Pointer) (isHighPriority allowOrphan : Bool) : MempoolM
    (List TransactionObject) := do
  match ← checkSubmission setup call pointer isHighPriority allowOrphan with
  | none => return []
  | some parentsInPool => insertUnlimited setup call pointer parentsInPool isHighPriority

end

lemma validateAndInsertTransaction_eq (pointer : Pointer) (isHighPriority allowOrphan : Bool) :
    validateAndInsertTransaction setup call pointer isHighPriority allowOrphan = (do
      match ← checkSubmission setup call pointer isHighPriority allowOrphan with
      | none => return []
      | some parentsInPool => do
        let accepted ← insertUnlimited setup call pointer parentsInPool isHighPriority
        limitTransactionCount setup
        return accepted) := by
  unfold validateAndInsertTransaction checkSubmission
  simp only [bind_assoc]
  refine bind_congr fun _ => bind_congr fun _ => bind_congr fun _ => bind_congr fun _ => ?_
  split
  · split
    · rfl
    · simp
  · simp [insertTransaction,insertUnlimited]

variable (setup call) in
/-- A submission is limited only after all else has succeeded. -/
lemma validateAndInsertTransaction_cases (pointer : Pointer) (isHighPriority allowOrphan : Bool)
    (s : Mempool) :
    validateAndInsertTransaction setup call pointer isHighPriority allowOrphan s =
        submitUnlimited setup call pointer isHighPriority allowOrphan s ∨
      ∃ accepted t, submitUnlimited setup call pointer isHighPriority allowOrphan s =
          .ok accepted t ∧
        validateAndInsertTransaction setup call pointer isHighPriority allowOrphan s =
          (do limitTransactionCount setup; return accepted : MempoolM _) t := by
  rw [validateAndInsertTransaction_eq]
  show EStateM.bind _ _ s = EStateM.bind _ _ s ∨ ∃ accepted t,
    EStateM.bind _ _ s = _ ∧ EStateM.bind _ _ s = _
  unfold EStateM.bind
  cases checkSubmission setup call pointer isHighPriority allowOrphan s with
  | error e t => exact .inl rfl
  | ok result t =>
    cases result with
    | none => exact .inl rfl
    | some parents =>
      dsimp only
      show EStateM.bind _ _ t = _ ∨ ∃ accepted u, _ ∧ EStateM.bind _ _ t = _
      unfold EStateM.bind
      cases insertUnlimited setup call pointer parents isHighPriority t with
      | error e u => exact .inl rfl
      | ok accepted u => exact .inr ⟨accepted,u,rfl,rfl⟩

/-! ## Entering the pool -/

/-- The state with the parents of a transaction. -/
def setParents (s : Mempool) (pointer : Pointer)
    (parents : List (DomainTransactionID × MempoolTransaction)) : Mempool :=
  { s with
    parentTransactionsInPool := fun p =>
      if p = pointer then parents else s.parentTransactionsInPool p }

variable {E : MempoolFailure → Mempool → Prop} {isHighPriority : Bool} {touched : Set Pointer}
  {e : MempoolFailure}

lemma wp_newMempoolTransaction {Q : MempoolTransaction → Mempool → Prop} :
    wp (newMempoolTransaction call pointer parents isHighPriority) Q E s ↔
      Q ⟨pointer,isHighPriority,call.virtualDAAScore⟩ (s.setParents pointer parents) :=
  Iff.rfl

/-- The transaction is in the pool, in the index of the spent outpoints and among the children
of its parents. -/
structure Entered (setup : MempoolSetup) (s : Mempool) (transaction : MempoolTransaction)
    (t : Mempool) : Prop where
  objects : t.objects = s.objects
  nextPointer : t.nextPointer = s.nextPointer
  allTransactions : t.allTransactions =
    s.allTransactions.insert (idAt setup s transaction.transaction) transaction
  chainedTransactionsByParentID : t.chainedTransactionsByParentID = chain setup s transaction
  transactionByPreviousOutpoint : t.transactionByPreviousOutpoint =
    s.transactionByPreviousOutpoint.insertKeys
      (s.objects transaction.transaction).previousOutpoints transaction
  allOrphans : t.allOrphans = s.allOrphans
  orphansByPreviousOutpoint : t.orphansByPreviousOutpoint = s.orphansByPreviousOutpoint

lemma checkedOutpoints_eq_ok (h : n ≤ 2^32) :
    checkedOutpoints id n = .ok ((range n).map fun i => ⟨id,UInt32.ofNat i⟩) :=
  if_pos h

lemma checkedOutpoints_errorsIn :
    ErrorsIn (fun e => e.isPanic = true ∧ 2^32 < n) (checkedOutpoints id n) :=
  .ite (fun _ => .ok _) fun h => .error ⟨rfl,Nat.lt_of_not_le h⟩

/-- The transaction enters the pool also where the order by fee rate does not take it. -/
lemma addMempoolTransaction_wp :
    wp (addMempoolTransaction setup transaction)
      (fun _ t => Entered setup s transaction t ∧
        ¬((s.objects transaction.transaction).fee = 0 ∨
          (s.objects transaction.transaction).mass = 0))
      (fun e t => e.isPanic = true ∧
          ¬Indexable (s.objects transaction.transaction).toDomainTransaction ∨
        e.isPanic = false ∧ Entered setup s transaction t ∧
          ((s.objects transaction.transaction).fee = 0 ∨
            (s.objects transaction.transaction).mass = 0)) s := by
  rw [addMempoolTransaction,wp_bind,wp_get,wp_bind,wp_set,wp_bind,addToUTXOSet,wp_bind,
    wp_get,wp_bind]
  refine wp_ofExcept (fun _ _ => ?_) fun e he => .inl ?_
  swap
  · obtain ⟨hpn,hlt⟩ := checkedOutpoints_errorsIn e he
    exact ⟨hpn,fun h => absurd h.1 (Nat.not_le.2 hlt)⟩
  rw [wp_bind]
  refine wp_ofExcept (fun _ _ => ?_) fun e he => .inl ?_
  swap
  · obtain ⟨hpn,hlt⟩ := checkedOutpoints_errorsIn e he
    exact ⟨hpn,fun h => absurd h.2 (Nat.not_le.2 hlt)⟩
  rw [wp_set,wp_bind,push,wp_bind,wp_get,wp_bind]
  refine wp_ofExcept (fun _ hok => ?_) fun e he => .inr ?_
  swap
  · rw [findTransactionIndex] at he
    split at he
    · next hz =>
      cases he
      exact ⟨rfl,⟨rfl,rfl,rfl,rfl,rfl,rfl,rfl⟩,hz⟩
    · cases he
  have hnz := (of_ite_error hok).1
  exact wp_ite (fun _ => ⟨⟨rfl,rfl,rfl,rfl,rfl,rfl,rfl⟩,hnz⟩)
    fun _ => ⟨⟨rfl,rfl,rfl,rfl,rfl,rfl,rfl⟩,hnz⟩

/-! ## What the orphans leave -/

/-- A coherent state with at most `n` transactions. -/
structure Held (strict : Prop) (setup : MempoolSetup) (n : Nat) (mp : Mempool) : Prop where
  coherent : Coherent strict setup mp
  card_le : mp.allTransactions.keys.card+mp.allOrphans.keys.card ≤ n

lemma Held.same (h : Held strict setup n s) (hsm : Same touched s t)
    (ht : strict → ∀ id orphan, s.allOrphans.get id = some orphan →
      orphan.transaction ∈ touched → (t.objects orphan.transaction).mass ≠ 0 ∧
        HasScores (t.objects orphan.transaction)) : Held strict setup n t := by
  refine ⟨h.coherent.same hsm ht,?_⟩
  rw [hsm.allTransactions,hsm.allOrphans]
  exact h.card_le

/-- The pool and the orphan pool have one transaction more at most. -/
lemma Held.entered (h : Held strict setup n s) (hlt : transaction.transaction < s.nextPointer)
    (hen : Entered setup (s.setParents pointer parents) transaction t) :
    Held strict setup (n+1) t := by
  refine ⟨h.coherent.congr (fun _ _ => by rw [hen.objects]; rfl) hen.nextPointer.ge
    hen.allOrphans hen.orphansByPreviousOutpoint (fun id m hm => ?_) ?_,?_⟩
  · rw [hen.allTransactions,FinMap.get_insert] at hm
    split at hm
    · next hid =>
      cases hm
      exact ⟨hlt,hid.symm⟩
    · exact h.coherent.pooled id m hm
  · rw [hen.objects]
    exact h.coherent.accepted
  · have hc : t.allTransactions.keys.card ≤ s.allTransactions.keys.card+1 := by
      rw [hen.allTransactions]
      exact Finset.card_insert_le _ _
    have ho : t.allOrphans.keys.card = s.allOrphans.keys.card := by
      rw [hen.allOrphans]
      rfl
    have hle := h.card_le
    omega

lemma isPanic_of_isRuleError (h : e.isRuleError = true) : e.isPanic = false := by
  cases e with
  | txRuleError _ _ => rfl
  | ruleError failure => rfl
  | other failure => cases h

lemma fillFirst_unpopulated (outpoint : DomainOutpoint) (utxoEntry : UTXOEntry)
    (tx : TransactionObject) :
    { tx with inputs := fillFirst outpoint utxoEntry tx.inputs }.toDomainTransaction.unpopulated =
      tx.toDomainTransaction.unpopulated := by
  refine unpopulated_eq ?_
  induction tx.inputs with
  | nil => rfl
  | cons _ inputs ih =>
    unfold fillFirst
    split
    · rfl
    · rw [map_cons,map_cons,ih]

lemma HasScores.fillFirst (h : HasScores tx)
    {outpoint : DomainOutpoint} {utxoEntry : UTXOEntry} (he : utxoEntry.HasScore) :
    HasScores { tx with inputs := Mempool.fillFirst outpoint utxoEntry tx.inputs } := by
  revert h
  show (∀ input ∈ tx.inputs, _) → ∀ input ∈ Mempool.fillFirst outpoint utxoEntry tx.inputs, _
  induction tx.inputs with
  | nil => exact id
  | cons input inputs ih =>
    intro ha
    rw [forall_mem_cons] at ha
    unfold Mempool.fillFirst
    split
    · rw [forall_mem_cons]
      refine ⟨fun _ hm => ?_,ha.2⟩
      cases hm
      exact he
    · rw [forall_mem_cons]
      exact ⟨ha.1,ih ha.2⟩

/-- No orphan waits for an output of the transaction. -/
def NoneWaits (setup : MempoolSetup) (s : Mempool) (tx : TransactionObject) : Prop :=
  ∀ index, s.orphansByPreviousOutpoint.get ⟨setup.transactionID tx.toDomainTransaction,index⟩ = none

lemma processOrphansAfterAcceptedTransaction_none (ho : tx.outputs.length ≤ 2^32)
    (hn : NoneWaits setup s tx) :
    wp (processOrphansAfterAcceptedTransaction setup call tx.toDomainTransaction)
      (fun _ t => t = s) (fun _ _ => False) s := by
  rw [processOrphansAfterAcceptedTransaction,checkedOutpoints_eq_ok ho]
  refine wp_foldlM_inv (fun _ created hm u hu => ?_) _ s rfl
  obtain ⟨i,-,hi⟩ := mem_map.1 (of_mem_zip hm).1
  rw [processOutput,wp_bind,wp_get,hu,← hi,hn]
  rfl

section
variable (hv : setup.validator.Regular) (hw : setup.HasWindow) (hstd : strict → setup.Standard)
  (hset : strict → ∀ o entry, call.utxoSet.get o = some entry → entry.HasScore)
include hv hw hstd hset

/-- An orphan that is not accepted has broken a rule, with a strict policy at least. -/
lemma unorphanTransaction_wp (h : Held strict setup n s)
    {orphan : OrphanTransaction} (hget : s.allOrphans.get id = some orphan) :
    wp (unorphanTransaction setup call orphan) (fun _ => Held strict setup n)
      (fun e t => e.isPanic = false ∧ (e.isRuleError = true → Held strict setup n t) ∧
        (strict → e.isRuleError = true)) s := by
  have hl := h.coherent.orphans id orphan hget
  rw [unorphanTransaction,wp_bind,wp_get,wp_bind,hl.idAt]
  refine (removeOrphan_wp h.coherent).mono (fun _ t ht => ?_) fun _ _ he => he.elim
  obtain ⟨hn,-⟩ | ⟨orphan',hg',rfl⟩ := ht
  · rw [hget] at hn
    cases hn
  obtain rfl : orphan = orphan' := Option.some.inj (hget.symm.trans hg')
  -- From here on the transaction belongs to neither pool.
  obtain ⟨m,rfl⟩ : ∃ m, n = m+1 := by
    have hps := card_forget hget
    have hle := h.card_le
    exact ⟨n - 1,by omega⟩
  have hf : Held strict setup m (s.forget id orphan) := by
    refine ⟨h.coherent.forget hget,?_⟩
    have hlt := card_forget hget
    have hle := h.card_le
    have hp : (s.forget id orphan).allTransactions = s.allTransactions := rfl
    rw [hp]
    omega
  have hg : ∀ id' orphan', (s.forget id orphan).allOrphans.get id' = some orphan' →
      orphan'.transaction ≠ orphan.transaction := by
    intro id' orphan' hg' heq
    have hg' : (s.allOrphans.erase id).get id' = some orphan' := hg'
    rw [FinMap.get_erase] at hg'
    split at hg'
    · cases hg'
    · next hne => exact hne (h.coherent.eq_of_transaction hget hg' heq)
  have hr : ∀ {u}, Held strict setup m u → Held strict setup (m+1) u :=
    fun hu => ⟨hu.coherent,Nat.le_succ_of_le hu.card_le⟩
  have hs : strict → HasScores ((s.forget id orphan).objects orphan.transaction) ∧
      ∀ o entry, call.utxoSet.get o = some entry → entry.HasScore := fun hst =>
    ⟨(h.coherent.accepted hst id orphan hget).2,hset hst⟩
  rw [wp_bind,wp_attempt]
  refine (validateTransactionAndPopulateWithConsensusData_wp hv hs).mono (fun _ u hu => ?_)
    fun e u hu => ?_
  swap
  · obtain ⟨hsm,-,_,rfl,hex,-⟩ := hu
    obtain ⟨hpn,hrl⟩ := translateConsensusFailure_expected hex
    refine ⟨hpn,fun _ => hr (hf.same hsm fun _ id' orphan' hg' hmem => ?_),hrl⟩
    exact absurd hmem (hg id' orphan' hg')
  obtain ⟨hsm,hm,hpp,-⟩ := hu
  have hu := hf.same hsm fun _ id' orphan' hg' hmem =>
    absurd hmem (hg id' orphan' hg')
  rw [wp_bind,wp_object,wp_bind]
  refine (validateTransactionInContext_wp hw hpp).mono (fun _ v hv' => ?_) fun e v he => ?_
  swap
  · exact ⟨isPanic_of_isRuleError he.2,fun _ => hr (hu.same he.1 fun _ _ _ _ hmem => hmem.elim),
      fun _ => he.2⟩
  obtain ⟨hsm',hfe⟩ := hv'
  have hv' := hu.same hsm' fun _ _ _ _ hmem => hmem.elim
  rw [wp_bind,wp_get,wp_bind,wp_newMempoolTransaction,wp_bind]
  have ho : v.objects orphan.transaction = u.objects orphan.transaction :=
    hsm'.objects _ fun hmem => hmem
  have hlt : orphan.transaction < v.nextPointer := by
    rw [hsm'.nextPointer,hsm.nextPointer]
    exact hl.lt
  refine addMempoolTransaction_wp.mono (fun _ w hen => ?_) fun e w he => ?_
  · refine (recordTransactionAt_frames hw _ _ w).mono (fun _ _ hx => ?_) fun _ _ he => he.1.elim
    exact (hv'.entered hlt hen.1).same hx fun _ _ _ _ hmem => hmem.elim
  · obtain ⟨-,hsz⟩ | ⟨hpn,hen,hzr⟩ := he
    · have hidx : Indexable ((s.forget id orphan).objects
        orphan.transaction).toDomainTransaction := h.coherent.indexable id orphan hget
      exact absurd ((hidx.same hsm).same hsm') hsz
    · refine ⟨hpn,fun _ => hv'.entered hlt hen,fun hst => ?_⟩
      obtain hzr | hzr := hzr
      · refine absurd hzr ?_
        show (v.objects orphan.transaction).fee ≠ 0
        rw [ho]
        exact hfe (hstd hst)
      · refine absurd hzr ?_
        show (v.objects orphan.transaction).mass ≠ 0
        rw [ho,hm]
        exact (h.coherent.accepted hst id orphan hget).1

lemma processOutput_wp (acceptedOrphans : List TransactionObject)
    (created : DomainOutpoint × DomainTransactionOutput) (s : Mempool) (h : Held strict setup n s) :
    wp (processOutput setup call acceptedOrphans created) (fun _ => Held strict setup n)
      (fun e _ => e.isPanic = false ∧ ¬strict) s := by
  rw [processOutput,wp_bind,wp_get]
  cases hidx : s.orphansByPreviousOutpoint.get created.1 with
  | none => exact h
  | some orphan =>
    obtain ⟨id,hg,-⟩ := h.coherent.index created.1 orphan hidx
    have hsm := same_setObject (fillFirst_unpopulated created.1 (unacceptedEntry created.2)
      (s.objects orphan.transaction))
    have hf := h.same hsm fun hst _ orphan' _ hmm => by
      obtain ⟨hm,hs⟩ := h.coherent.accepted hst id orphan hg
      have heq : orphan'.transaction = orphan.transaction := hmm
      rw [heq,setObject_objects_self]
      exact ⟨hm,hs.fillFirst (.inl rfl)⟩
    refine wp_ite (fun _ => ?_) fun _ => hf
    rw [wp_bind,wp_attempt]
    refine (unorphanTransaction_wp hv hw hstd hset hf hg).mono (fun _ t ht => ht) fun e t he => ?_
    obtain ⟨hp,hh,hr⟩ := he
    refine wp_ite (fun hir => hh hir) fun hir => ?_
    exact ⟨hp,fun hst => hir (hr hst)⟩

lemma processOrphansAfterAcceptedTransaction_wp (h : Held strict setup n s)
    {accepted : DomainTransaction} (ho : accepted.outputs.length ≤ 2^32) :
    wp (processOrphansAfterAcceptedTransaction setup call accepted)
      (fun _ => Held strict setup n) (fun e _ => e.isPanic = false ∧ ¬strict) s := by
  rw [processOrphansAfterAcceptedTransaction,checkedOutpoints_eq_ok ho]
  exact wp_foldlM_inv (fun b a _ => processOutput_wp hv hw hstd hset b a) _ s h

/-- A transaction enters the pool without a failure if it pays for its mass and, unless the policy
is strict, no orphan waits for its outputs. -/
lemma insertUnlimited_wp (h : Held strict setup n s) (hlt : pointer < s.nextPointer)
    (hidx : Indexable (s.objects pointer).toDomainTransaction) :
    wp (insertUnlimited setup call pointer parents isHighPriority)
      (fun _ t => Held strict setup (n+1) t ∧ (s.objects pointer).Pays)
      (fun e t => e.isPanic = false ∧
        (¬(s.objects pointer).Pays ∧ (t.allTransactions.get (idAt setup s pointer)).isSome ∨
          (s.objects pointer).Pays ∧ ¬strict ∧ ¬NoneWaits setup s (s.objects pointer))) s := by
  rw [insertUnlimited,wp_bind,wp_newMempoolTransaction,wp_bind]
  refine addMempoolTransaction_wp.mono (fun _ t ht => ?_) fun e t he => ?_
  swap
  · obtain ⟨-,hsz⟩ | ⟨hp,hen,hz⟩ := he
    · exact absurd hidx hsz
    · refine ⟨hp,.inl ⟨fun hpy => hz.elim hpy.1 hpy.2,?_⟩⟩
      rw [hen.allTransactions]
      exact Option.isSome_iff_exists.2 ⟨_,FinMap.get_insert_self _ _ _⟩
  obtain ⟨ht,hnz⟩ := ht
  have hpy : (s.objects pointer).Pays := not_or.1 hnz
  have hh := h.entered hlt ht
  rw [wp_bind,wp_object,wp_bind]
  refine (recordTransactionAt_frames hw _ _ t).mono (fun _ u hu => ?_) fun _ _ he => he.1.elim
  rw [wp_bind]
  have ho : (t.objects pointer).outputs.length ≤ 2^32 := by
    rw [ht.objects]
    exact hidx.2
  have hhu := hh.same hu fun _ _ _ _ hmm => hmm.elim
  by_cases hnw : NoneWaits setup s (s.objects pointer)
  · refine (processOrphansAfterAcceptedTransaction_none ho ?_).mono (fun _ _ hv' => ?_)
      fun _ _ he => he.elim
    · rw [NoneWaits,hu.orphansByPreviousOutpoint,ht.orphansByPreviousOutpoint,ht.objects]
      exact hnw
    · rw [wp_bind,wp_object,hv']
      exact ⟨hhu,hpy⟩
  · refine (processOrphansAfterAcceptedTransaction_wp hv hw hstd hset hhu ho).mono
      (fun _ _ hv' => ⟨hv',hpy⟩) fun _ _ he => ⟨he.1,.inr ⟨hpy,he.2,hnw⟩⟩

end

/-! ## The checks of a submission -/

lemma namesOutputs_iff {tx : DomainTransaction} : NamesOutputs s tx ↔
    ∀ o ∈ tx.previousOutpoints, ∀ parent, s.allTransactions.get o.transactionID = some parent →
      o.index.toNat < (s.objects parent.transaction).outputs.length := by
  rw [DomainTransaction.previousOutpoints,forall_mem_map]
  rfl

lemma namesOutputs_same (hsm : Same touched s t) :
    NamesOutputs t (t.objects pointer).toDomainTransaction ↔
      NamesOutputs s (s.objects pointer).toDomainTransaction := by
  rw [namesOutputs_iff,namesOutputs_iff,hsm.previousOutpoints,hsm.allTransactions]
  simp only [hsm.outputs]

lemma checkTransactionStandardInIsolation_errorsIn :
    ErrorsIn (fun e => e.isRuleError = true) (checkTransactionStandardInIsolation setup tx) := by
  refine .ite (fun _ => errorsIn_rule) fun _ => .ite (fun _ => errorsIn_rule) fun _ => ?_
  refine .bind (.forM fun entry _ => .ite (fun _ => errorsIn_rule) fun _ => .ok _) fun _ _ =>
    .forM fun entry _ => ?_
  exact .ite (fun _ => errorsIn_rule) fun _ => .ite (fun _ => errorsIn_rule) fun _ =>
    .ite (fun _ => errorsIn_rule) fun _ => .ok _

lemma validateTransactionInIsolation_rejects :
    ErrorsIn (fun e => e.isRuleError = true) (validateTransactionInIsolation setup s tx) := by
  refine .ite (fun _ => .error rfl) fun _ => .ite (fun _ => .ok _) fun _ => ?_
  exact errorsIn_notStandard checkTransactionStandardInIsolation_errorsIn

lemma validateTransactionPreUTXOEntry_errorsIn (hi : tx.inputs.length ≤ 2^32) :
    ErrorsIn (fun e => e.isRuleError = true) (validateTransactionPreUTXOEntry setup s tx) := by
  refine .bind validateTransactionInIsolation_rejects fun _ _ => ?_
  unfold checkDoubleSpends
  rw [checkedOutpoints_eq_ok hi]
  refine .bind (.ok _) fun _ _ => .forM fun input _ => ?_
  cases s.transactionByPreviousOutpoint.get input.previousOutpoint with
  | none => exact .ok _
  | some _ => exact .error rfl

/-- The first checks read the transactions of the pool and the outpoints that they spend. -/
lemma validateTransactionPreUTXOEntry_iff (setup : MempoolSetup) (tx : TransactionObject)
    (ha : t.allTransactions = s.allTransactions)
    (hp : t.transactionByPreviousOutpoint = s.transactionByPreviousOutpoint) :
    validateTransactionPreUTXOEntry setup t tx = .ok () ↔
      validateTransactionPreUTXOEntry setup s tx = .ok () := by
  have hc : ∀ {mp mp' : Mempool}, mp'.allTransactions = mp.allTransactions →
      mp'.transactionByPreviousOutpoint = mp.transactionByPreviousOutpoint →
      validateTransactionPreUTXOEntry setup mp tx = .ok () →
      validateTransactionPreUTXOEntry setup mp' tx = .ok () := by
    intro mp mp' ha hp h
    obtain ⟨_,hi,h⟩ := bind_eq_ok h
    obtain ⟨_,ho,h⟩ := bind_eq_ok h
    have hi' : validateTransactionInIsolation setup mp' tx = .ok () := by
      rw [validateTransactionInIsolation,ha]
      exact hi
    rw [validateTransactionPreUTXOEntry,hi',ok_bind,checkDoubleSpends,ho,ok_bind,forM_eq_ok]
    intro input hm
    have hf := forM_eq_ok.1 h input hm
    rw [hp]
    cases hg : mp.transactionByPreviousOutpoint.get input.previousOutpoint with
    | none => rfl
    | some _ =>
      rw [hg] at hf
      cases hf
  exact ⟨hc ha.symm hp.symm,hc ha hp⟩

/-- The transaction is refused before its inputs are read, or they name outputs that exist. -/
def Checkable (setup : MempoolSetup) (s : Mempool) (tx : TransactionObject) : Prop :=
  validateTransactionPreUTXOEntry setup s (withMass setup tx) = .ok () →
    NamesOutputs s tx.toDomainTransaction

lemma checkSubmission_wp (hv : setup.validator.Regular) (hw : setup.HasWindow)
    (h : Coherent strict setup s) {allowOrphan : Bool} (hlt : pointer < s.nextPointer)
    (hidx : Indexable (s.objects pointer).toDomainTransaction)
    (hf : ∀ id orphan, s.allOrphans.get id = some orphan → orphan.transaction ≠ pointer) :
    wp (checkSubmission setup call pointer isHighPriority allowOrphan)
      (fun result t => t.allTransactions = s.allTransactions ∧
        Checkable setup s (s.objects pointer) ∧
        (result.isSome = true → Same {pointer} s t ∧
          s.allTransactions.get (idAt setup s pointer) = none ∧
          (setup.Standard → (t.objects pointer).Pays)))
      (fun e t => Same {pointer} s t ∧
        (e.isPanic = true ↔ ¬Checkable setup s (s.objects pointer))) s := by
  rw [checkSubmission,wp_bind]
  refine populateMass_wp.mono (fun _ t ht => ?_) fun _ _ he => he.elim
  obtain ⟨hsm,hob,hm⟩ := ht
  have hpre := validateTransactionPreUTXOEntry_iff setup (t.objects pointer)
    hsm.allTransactions hsm.transactionByPreviousOutpoint
  -- a later failure is a rule error, only an input that names no output panics
  have hrl : ∀ {e : MempoolFailure} {v : Mempool}, Same {pointer} s v → e.isRuleError = true →
      Checkable setup s (s.objects pointer) → Same {pointer} s v ∧
        (e.isPanic = true ↔ ¬Checkable setup s (s.objects pointer)) := by
    intro e v hv hir hck
    rw [isPanic_of_isRuleError hir]
    exact ⟨hv,iff_of_false Bool.false_ne_true (not_not.2 hck)⟩
  rw [wp_bind,wp_get,wp_bind]
  refine wp_ofExcept (fun _ hok => ?_) fun e he => hrl hsm ?_ fun hok => ?_
  rotate_left
  · exact validateTransactionPreUTXOEntry_errorsIn (hidx.same hsm).1 e he
  · rw [← hob,← hpre,he] at hok
    cases hok
  have hnew : s.allTransactions.get (idAt setup s pointer) = none := by
    obtain ⟨_,hi,-⟩ := bind_eq_ok hok
    have hd := (of_ite_error hi).1
    rw [hsm.allTransactions,← setup.transactionID_unpopulated,hsm.core,
      setup.transactionID_unpopulated] at hd
    exact Option.not_isSome_iff_eq_none.1 hd
  have hck : Checkable setup s (s.objects pointer) ↔
      NamesOutputs t (t.objects pointer).toDomainTransaction := by
    rw [namesOutputs_same hsm]
    exact forall_prop_of_true (hob ▸ hpre.1 hok)
  have ht : Coherent strict setup t := h.same hsm fun _ id orphan hg hmem =>
    absurd hmem (hf id orphan hg)
  rw [wp_bind]
  refine (fillInputsAndGetMissingParents_wp hv ht.keyed).mono (fun result u hu => ?_)
    fun e u hu => ?_
  swap
  · rw [hck]
    exact ⟨hsm.trans hu.1,hu.2⟩
  obtain ⟨hs',hm',hnd,hn,hp⟩ := hu
  rw [← hck] at hn
  have hsu := hsm.trans hs'
  refine wp_ite (fun _ => wp_ite (fun _ => hrl hsu rfl hn) fun _ => ?_) fun hnn => ?_
  -- a parent is missing, so the transaction waits as an orphan or is refused
  · have hu : Coherent strict setup u := h.same hsu fun _ id orphan hg hmem =>
      absurd hmem (hf id orphan hg)
    rw [wp_bind]
    refine (maybeAddOrphan_wp hu (hsu.nextPointer ▸ hlt) (hidx.same hsu) ?_).mono
      (fun _ v hv' => ⟨hv'.2.trans hsu.allTransactions,hn,fun hs => by cases hs⟩)
      fun e v he => ?_
    · rw [hs'.previousOutpoints]
      exact hnd
    · obtain ⟨hir,rfl⟩ := he
      exact hrl hsu hir hn
  · rw [wp_bind,wp_object,wp_bind]
    refine (validateTransactionInContext_wp hw (hp (not_not.1 hnn))).mono
      (fun _ v hv' => ?_) fun e v he => ?_
    · obtain ⟨hs'',hfe⟩ := hv'
      have ho : v.objects pointer = u.objects pointer := hs''.objects _ fun hmem => hmem
      have hsv := hsu.trans (hs''.mono (Set.empty_subset _))
      refine ⟨hsv.allTransactions,hn,fun _ => ⟨hsv,hnew,fun hstd => ?_⟩⟩
      rw [TransactionObject.Pays,ho,hm']
      exact ⟨hfe hstd,hm hstd.calculateTransactionMass⟩
    · exact hrl (hsu.trans (he.1.mono (Set.empty_subset _))) he.2 hn

/-! ## Failures of a submission -/

/-- The state with one more object. -/
def withObject (s : Mempool) (tx : TransactionObject) : Mempool :=
  { s with
    objects := fun p => if p = s.nextPointer then tx else s.objects p
    nextPointer := s.nextPointer+1 }

lemma wp_newObject {Q : Pointer → Mempool → Prop} :
    wp (newObject tx) Q E s ↔ Q s.nextPointer (s.withObject tx) :=
  Iff.rfl

lemma withObject_objects_of_lt {p : Pointer} (tx : TransactionObject) (h : p < s.nextPointer) :
    (s.withObject tx).objects p = s.objects p :=
  if_neg h.ne

lemma Coherent.withObject (h : Coherent strict setup s) (tx : TransactionObject) :
    Coherent strict setup (s.withObject tx) := by
  refine h.congr (fun _ hp => ?_) (Nat.le_succ _) rfl rfl h.pooled fun hs id orphan hg => ?_
  · rw [withObject_objects_of_lt tx hp]
  · rw [withObject_objects_of_lt tx (h.orphans id orphan hg).lt]
    exact h.accepted hs id orphan hg

lemma checkable_withObject (h : Coherent strict setup s) :
    Checkable setup (s.withObject tx) tx ↔ Checkable setup s tx := by
  have hn : NamesOutputs (s.withObject tx) tx.toDomainTransaction ↔
      NamesOutputs s tx.toDomainTransaction := by
    refine forall₂_congr fun input _ => forall₂_congr fun parent hp => ?_
    rw [withObject_objects_of_lt tx (h.transactions _ parent hp)]
  exact imp_congr (validateTransactionPreUTXOEntry_iff setup _ rfl rfl) hn

/-- The limit leaves a pool alone that is not too large. -/
lemma limitTransactionCount_wp
    (h : s.allTransactions.keys.card ≤ setup.config.maximumTransactionCount.toNat) :
    wp (limitTransactionCount setup) (fun _ t => t = s) (fun _ _ => False) s := by
  exact wp_ite (fun hlt => absurd h (Nat.not_le.2 hlt)) fun _ => rfl

section
variable (call) (isHighPriority allowOrphan : Bool) (hv : setup.validator.Regular)
  (hw : setup.HasWindow) (hidx : Indexable tx.toDomainTransaction)
include hv hw hidx

/-- An error comes from the checks, or from an insertion that is not strict. -/
lemma submitUnlimited_wp (h : Held strict setup n s) (hstd : strict → setup.Standard)
    (hset : strict → ∀ o entry, call.utxoSet.get o = some entry → entry.HasScore) :
    wp (newObject tx >>= fun pointer =>
        submitUnlimited setup call pointer isHighPriority allowOrphan)
      (fun _ t => t.allTransactions.keys.card ≤ n+1 ∧ Checkable setup s tx)
      (fun e t => Same {s.nextPointer} (s.withObject tx) t ∧
          (e.isPanic = true ↔ ¬Checkable setup s tx) ∨
        e.isPanic = false ∧ Checkable setup s tx ∧ ¬strict) s := by
  have hc := h.coherent.withObject tx
  have hlt : s.nextPointer < (s.withObject tx).nextPointer := Nat.lt_succ_self _
  have hsl : (s.withObject tx).objects s.nextPointer = tx := if_pos rfl
  have hs : Indexable ((s.withObject tx).objects s.nextPointer).toDomainTransaction := by
    rw [hsl]
    exact hidx
  have hf : ∀ id orphan, (s.withObject tx).allOrphans.get id = some orphan →
      orphan.transaction ≠ s.nextPointer := fun id orphan hg =>
    (h.coherent.orphans id orphan hg).lt.ne
  rw [wp_bind,wp_newObject,submitUnlimited,wp_bind]
  have hck : Checkable setup (s.withObject tx) ((s.withObject tx).objects s.nextPointer) ↔
      Checkable setup s tx := by
    rw [hsl,checkable_withObject h.coherent]
  refine (checkSubmission_wp hv hw hc hlt hs hf).mono (fun result t ht => ?_) fun e t he => .inl ?_
  · obtain ⟨hpl,hch,ht⟩ := ht
    rw [hck] at hch
    cases result with
    | none =>
      have hpl : t.allTransactions = s.allTransactions := hpl
      rw [wp_pure,hpl]
      exact ⟨Nat.le_succ_of_le (le_trans (Nat.le_add_right _ _) h.card_le),hch⟩
    | some _ =>
      obtain ⟨hsm,-,hpy⟩ := ht rfl
      have hh : Held strict setup n t := by
        refine Held.same ⟨hc,h.card_le⟩ hsm fun _ id orphan hg hm => ?_
        exact absurd hm (hf id orphan hg)
      refine (insertUnlimited_wp hv hw hstd hset hh (hsm.nextPointer ▸ hlt)
        (hs.same hsm)).mono (fun _ _ hu => ?_) fun _ _ he => .inr ⟨he.1,hch,fun hst => ?_⟩
      · exact ⟨le_trans (Nat.le_add_right _ _) hu.1.card_le,hch⟩
      · obtain ⟨-,⟨hnp,-⟩ | ⟨-,hns,-⟩⟩ := he
        · exact hnp (hpy (hstd hst))
        · exact hns hst
  · rw [hck] at he
    exact he

end

lemma perform_validateAndInsertTransaction_cases (tx : TransactionObject)
    (isHighPriority allowOrphan : Bool)
    (h : perform setup call (.validateAndInsertTransaction tx isHighPriority allowOrphan) s =
      .error e t) :
    (newObject tx >>= fun pointer =>
        submitUnlimited setup call pointer isHighPriority allowOrphan) s = .error e t ∨
      ∃ accepted u, (newObject tx >>= fun pointer =>
          submitUnlimited setup call pointer isHighPriority allowOrphan) s = .ok accepted u ∧
        limitTransactionCount setup u = .error e t := by
  have hc : validateAndInsertTransaction setup call s.nextPointer isHighPriority allowOrphan
      (s.withObject tx) = .error e t := eq_error_of_bind_pure h
  obtain hs | ⟨accepted,u,hok,hl⟩ := validateAndInsertTransaction_cases setup call
    s.nextPointer isHighPriority allowOrphan _
  · exact .inl (hs.symm.trans hc)
  · exact .inr ⟨accepted,u,hok,eq_error_of_bind_pure (hl.symm.trans hc)⟩

/-- A computation that returns a result or an error. -/
def Returns {α : Type} (x : MempoolM α) (mp : Mempool) : Prop :=
  ∀ e mp', x mp = .error e mp' → e.isPanic = false

lemma perform_eq_error_of_submitUnlimited {isHighPriority allowOrphan : Bool}
    (h : (newObject tx >>= fun pointer =>
      submitUnlimited setup call pointer isHighPriority allowOrphan) s = .error e t) :
    perform setup call (.validateAndInsertTransaction tx isHighPriority allowOrphan) s =
      .error e t := by
  have hs : submitUnlimited setup call s.nextPointer isHighPriority allowOrphan
      (s.withObject tx) = .error e t := h
  have hv : validateAndInsertTransaction setup call s.nextPointer isHighPriority allowOrphan
      (s.withObject tx) = .error e t := by
    obtain heq | ⟨_,_,hok,-⟩ := validateAndInsertTransaction_cases setup call s.nextPointer
      isHighPriority allowOrphan (s.withObject tx)
    · exact heq.trans hs
    · rw [hs] at hok
      cases hok
  show EStateM.bind _ _ (s.withObject tx) = _
  unfold EStateM.bind
  rw [hv]

/-- A pool with one transaction, which has one output. -/
def onePooled : Mempool :=
  { new sampleSetup 0 with
    objects := fun _ => sampleTransaction 1 [⟨100,0⟩] [900000]
    nextPointer := 1
    allTransactions := FinMap.insert ∅ 1 ⟨0,false,1000⟩ }

/-- The transactions pool, the outpoint index, the unspent outputs, the parents and children,
the order by fee rate and the orphan pool are as before. -/
structure SamePools (s t : Mempool) : Prop where
  objects : ∀ p < s.nextPointer, t.objects p = s.objects p
  allTransactions : t.allTransactions = s.allTransactions
  highPriorityTransactions : t.highPriorityTransactions = s.highPriorityTransactions
  transactionByPreviousOutpoint : t.transactionByPreviousOutpoint = s.transactionByPreviousOutpoint
  poolUnspentOutputs : t.poolUnspentOutputs = s.poolUnspentOutputs
  chainedTransactionsByParentID : t.chainedTransactionsByParentID = s.chainedTransactionsByParentID
  parentTransactionsInPool : t.parentTransactionsInPool = s.parentTransactionsInPool
  transactionsOrderedByFeeRate : t.transactionsOrderedByFeeRate = s.transactionsOrderedByFeeRate
  allOrphans : t.allOrphans = s.allOrphans
  orphansByPreviousOutpoint : t.orphansByPreviousOutpoint = s.orphansByPreviousOutpoint

lemma samePools_of_same (h : Same {s.nextPointer} (s.withObject tx) t) : SamePools s t := by
  refine ⟨fun p hp => ?_,h.allTransactions,h.highPriorityTransactions,
    h.transactionByPreviousOutpoint,h.poolUnspentOutputs,h.chainedTransactionsByParentID,
    h.parentTransactionsInPool,h.transactionsOrderedByFeeRate,h.allOrphans,
    h.orphansByPreviousOutpoint⟩
  rw [h.objects p hp.ne,withObject_objects_of_lt tx hp]

/-- The transaction as the checks leave it, if they let it into the pool. -/
def admitted (setup : MempoolSetup) (call : Call) (s : Mempool) (tx : TransactionObject)
    (isHighPriority allowOrphan : Bool) : Option TransactionObject :=
  match checkSubmission setup call s.nextPointer isHighPriority allowOrphan (s.withObject tx) with
  | .ok (some _) t => some (t.objects s.nextPointer)
  | _ => none

/-- A failure comes from the limit of the count after all else has succeeded, or nothing has
changed. -/
def KeepsOnError (setup : MempoolSetup) (call : Call) (s : Mempool) (tx : TransactionObject)
    (isHighPriority allowOrphan : Bool) : Prop :=
  ∀ e t, perform setup call (.validateAndInsertTransaction tx isHighPriority allowOrphan) s =
      .error e t →
    (∃ accepted u, (newObject tx >>= fun pointer =>
        submitUnlimited setup call pointer isHighPriority allowOrphan) s = .ok accepted u ∧
      limitTransactionCount setup u = .error e t) ∨ SamePools s t

lemma keepsOnError_of_submitUnlimited {isHighPriority allowOrphan : Bool}
    (h : ∀ e t, submitUnlimited setup call s.nextPointer isHighPriority allowOrphan
      (s.withObject tx) = .error e t → SamePools s t) :
    KeepsOnError setup call s tx isHighPriority allowOrphan := by
  intro e t he
  obtain hs | hl := perform_validateAndInsertTransaction_cases tx isHighPriority allowOrphan he
  · exact .inr (h e t hs)
  · exact .inl hl

lemma coherent_new (now : Int) : Coherent strict setup (new setup now) := by
  refine .of_noOrphans rfl rfl fun _ _ hm => ?_
  cases hm

/-- Without the standard policy. -/
def lenientSetup : MempoolSetup :=
  { sampleSetup with config := { sampleConfig with acceptNonStandard := true } }

/-- The transactions that a failed call leaves in the pool. -/
def leftBehind {α : Type} : EStateM.Result MempoolFailure Mempool α → Finset DomainTransactionID
  | .error (.other (.error _)) mp => mp.allTransactions.keys
  | _ => ∅

end Mempool
end Eiyaro
