import Eiyaro.Mempool.Frame
import Eiyaro.Transaction.Failures

/-!
# What the checks of a transaction leave alone

The checks write entries, the fee and the mass into the transaction that they check, and the
submissions of the rate limiter. All else is as before when they return, with an error or
without one.
-/

namespace Eiyaro
open List
variable {parents : List (DomainTransactionID × MempoolTransaction)}
variable {tx : TransactionObject}

/-- With the standard policy every transaction in the pool pays something. -/
structure MempoolSetup.Standard (setup : MempoolSetup) : Prop where
  acceptNonStandard : setup.config.acceptNonStandard = false
  minimumRelayTransactionFee : setup.config.minimumRelayTransactionFee ≠ 0
  calculateTransactionMass : ∀ tx, setup.calculateTransactionMass tx ≠ 0

/-- The rate limiter is off, or its window is a signed number of minutes. -/
def MempoolSetup.HasWindow (setup : MempoolSetup) : Prop :=
  setup.config.compoundTxRateLimitEnabled = true →
    setup.config.compoundTxRateLimitWindowMinutes.toNat < 2^63

lemma MempoolSetup.HasWindow.of_isCompoundTransaction {setup : MempoolSetup}
    (h : setup.HasWindow) (hc : Mempool.isCompoundTransaction setup tx = true) :
    setup.config.compoundTxRateLimitWindowMinutes.toNat < 2^63 :=
  h (Bool.and_eq_true_iff.1 hc).1

namespace Mempool
open EStateM
variable {setup : MempoolSetup} {call : Call} {s : Mempool} {p : Pointer} {strict : Prop}
  {inputs : List DomainTransactionInput} {E : MempoolFailure → Mempool → Prop}
  {input : DomainTransactionInput}

/-! ## Entries -/

/-- Only the entries of the inputs change. -/
lemma unpopulated_eq {tx : DomainTransaction}
    (h : inputs.map (fun input => { input with utxoEntry := none }) =
      tx.inputs.map fun input => { input with utxoEntry := none }) :
    { tx with inputs := inputs }.unpopulated = tx.unpopulated := by
  unfold DomainTransaction.unpopulated
  rw [← h]

lemma populate_unpopulated (call : Call) (tx : TransactionObject) :
    (populate call tx).toDomainTransaction.unpopulated = tx.toDomainTransaction.unpopulated := by
  refine unpopulated_eq ?_
  rw [map_map]
  refine map_congr_left fun ⟨_,_,_,_,utxoEntry⟩ _ => ?_
  cases utxoEntry with
  | none | some _ => rfl

lemma wp_writeObject {Q : Unit → Mempool → Prop} :
    wp (writeObject p tx) Q E s ↔ Q () (s.setObject p tx) :=
  Iff.rfl

lemma wp_object {Q : TransactionObject → Mempool → Prop} :
    wp (object p) Q E s ↔ Q (s.objects p) s :=
  Iff.rfl

lemma setObject_setObject (s : Mempool) (p : Pointer) (tx tx' : TransactionObject) :
    (s.setObject p tx).setObject p tx' = s.setObject p tx' := by
  unfold setObject
  congr 1
  funext q
  by_cases hq : q = p
  · simp [hq]
  · simp [hq]

/-- The transaction that `populateMass` leaves. -/
def withMass (setup : MempoolSetup) (tx : TransactionObject) : TransactionObject :=
  if tx.mass ≠ 0 then tx
  else { tx with mass := setup.calculateTransactionMass tx.toDomainTransaction }

/-- A mass that is missing is computed. -/
lemma populateMass_wp : wp (populateMass setup p) (fun _ t => Same {p} s t ∧
      t.objects p = withMass setup (s.objects p) ∧
      ((∀ tx, setup.calculateTransactionMass tx ≠ 0) → (t.objects p).mass ≠ 0))
    (fun _ _ => False) s := by
  refine wp_ite (fun hm => ⟨.refl _ s,(if_pos hm).symm,fun _ => hm⟩) fun hm => ?_
  rw [wp_writeObject,setObject_objects_self]
  exact ⟨same_setObject rfl,(if_neg hm).symm,fun hc => hc _⟩

/-! ## Consensus -/

/-- The entries that the validator computes locks from. -/
def HasScores (tx : TransactionObject) : Prop :=
  ∀ input ∈ tx.inputs, ∀ entry ∈ input.utxoEntry, entry.HasScore

lemma HasScores.populate (htx : HasScores tx)
    (hs : ∀ o entry, call.utxoSet.get o = some entry → entry.HasScore) :
    HasScores (populate call tx) := by
  intro _ hi entry he
  obtain ⟨old,ho,rfl⟩ := mem_map.1 hi
  cases hu : old.utxoEntry with
  | some utxoEntry =>
    rw [hu] at he
    exact htx old ho entry he
  | none =>
    rw [hu] at he
    exact hs _ entry he

lemma wp_ofConsensus {α : Type} {x : Except Failure α} {Q : α → Mempool → Prop}
    (hok : ∀ a, x = .ok a → Q a s)
    (he : ∀ failure, x = .error failure → E (.other failure) s) : wp (ofConsensus x) Q E s := by
  cases x with
  | ok a => exact hok a rfl
  | error failure => exact he failure rfl

/-- Either the transaction can be looked at in context, or the error says what is wrong. -/
lemma validateTransactionAndPopulateWithConsensusData_wp (hv : setup.validator.Regular)
    (hsc : strict → HasScores (s.objects p) ∧
      ∀ o entry, call.utxoSet.get o = some entry → entry.HasScore) :
    wp (validateTransactionAndPopulateWithConsensusData setup call p)
      (fun _ t => Same {p} s t ∧ (t.objects p).mass = (s.objects p).mass ∧
        (t.objects p).toDomainTransaction.Populated ∧
        (s.objects p).previousOutpoints.Nodup)
      (fun e t => Same {p} s t ∧ (t.objects p).mass = (s.objects p).mass ∧
        ∃ failure, e = .other failure ∧ failure.Expected strict ∧
          ((∃ message, failure = .ruleError .errMissingTxOut message) →
            (s.objects p).previousOutpoints.Nodup)) s := by
  have hwr := same_setObject (populate_unpopulated call (s.objects p))
  rw [validateTransactionAndPopulateWithConsensusData,wp_bind,wp_object,wp_bind]
  refine wp_ofConsensus (fun _ hi => ?_) fun failure hfl => ?_
  swap
  · have hin := validateTransactionInIsolation_errorsIn _ _ _ failure hfl
    refine ⟨.refl _ s,rfl,failure,rfl,hin.expected,?_⟩
    rintro ⟨message,rfl⟩
    obtain ⟨_,_,heq,hne⟩ := hin
    cases heq
    exact absurd rfl hne
  have hnd : (s.objects p).previousOutpoints.Nodup := nodup_of_validateTransactionInIsolation hi
  rw [wp_bind,wp_writeObject,wp_bind]
  refine wp_ofConsensus (fun _ hc => ?_) fun failure hfl => ?_
  swap
  · exact ⟨hwr,by rw [setObject_objects_self]; rfl,failure,rfl,
      checkMissingOutpoints_errorsIn failure hfl,fun _ => hnd⟩
  have hp : (populate call (s.objects p)).toDomainTransaction.Populated :=
    populated_of_checkMissingOutpoints hc
  have hsr : strict → HasScores (populate call (s.objects p)) := fun hs =>
    (hsc hs).1.populate (hsc hs).2
  refine wp_ite (fun _ => ?_) fun _ => ?_
  · rw [wp_bind]
    refine wp_ofConsensus (fun _ _ => ?_) fun failure hfl => ?_
    · rw [wp_writeObject,setObject_setObject,setObject_objects_self]
      exact ⟨same_setObject (populate_unpopulated call _),rfl,hp,hnd⟩
    · exact ⟨hwr,by rw [setObject_objects_self]; rfl,failure,rfl,
        validateTransactionInContextAndPopulateFee_errorsIn hv hp hsr _ _ failure hfl,fun _ => hnd⟩
  · exact ⟨hwr,by rw [setObject_objects_self]; rfl,_,rfl,trivial,fun _ => hnd⟩

/-- What the mempool makes of an expected failure. -/
lemma translateConsensusFailure_expected {failure : Failure} (h : failure.Expected strict) :
    (translateConsensusFailure (.other failure)).isPanic = false ∧
      (strict → (translateConsensusFailure (.other failure)).isRuleError = true) := by
  cases failure with
  | error message => exact ⟨rfl,fun hs => absurd hs h⟩
  | panic message => exact h.elim
  | ruleError error message =>
    cases error
    all_goals exact ⟨rfl,fun _ => rfl⟩

/-! ## Inputs from the pool -/

/-- The transactions of the pool are found under their IDs. -/
def KeyedByID (setup : MempoolSetup) (mp : Mempool) : Prop :=
  ∀ id t, mp.allTransactions.get id = some t → idAt setup mp t.transaction = id

/-- An input that names a transaction of the pool names one of its outputs. -/
def NamesOutputs (mp : Mempool) (tx : DomainTransaction) : Prop :=
  ∀ input ∈ tx.inputs, ∀ parent,
    mp.allTransactions.get input.previousOutpoint.transactionID = some parent →
      input.previousOutpoint.index.toNat < (mp.objects parent.transaction).outputs.length

lemma get_of_lookup_parents (hk : KeyedByID setup s) (tx : DomainTransaction) :
    ∀ id parent, (getParentTransactionsInPool setup s tx).lookup id = some parent →
      s.allTransactions.get id = some parent := by
  refine foldlRecOn tx.inputs _ (motive := fun parents => ∀ id parent,
    lookup id parents = some parent → s.allTransactions.get id = some parent) ?_ ?_
  · intro id parent hn
    cases hn
  · intro parents hpr input _
    cases hg : s.allTransactions.get input.previousOutpoint.transactionID with
    | none => exact hpr
    | some parent =>
      dsimp only
      split
      · exact hpr
      · intro id found hf
        rw [lookup_append,Option.or_eq_some_iff] at hf
        obtain ho | ⟨-,hnew⟩ := hf
        · exact hpr id found ho
        · rw [hk _ _ hg] at hnew
          by_cases hid : id = input.previousOutpoint.transactionID
          · subst hid
            simp only [lookup_cons_self,Option.some.injEq] at hnew
            rw [hg,hnew]
          · have hne : (id == input.previousOutpoint.transactionID) = false := by simpa using hid
            rw [lookup_cons,hne] at hnew
            cases hnew

/-- Every parent that an input names is among them. -/
lemma isSome_lookup_parents (hk : KeyedByID setup s) {tx : DomainTransaction}
    (hi : input ∈ tx.inputs)
    (hg : (s.allTransactions.get input.previousOutpoint.transactionID).isSome = true) :
    ((getParentTransactionsInPool setup s tx).lookup
      input.previousOutpoint.transactionID).isSome = true := by
  unfold getParentTransactionsInPool
  generalize tx.inputs = inputs at hi ⊢
  induction inputs using reverseRecOn with
  | nil => cases hi
  | append_singleton inputs last ih =>
    rw [foldl_append,foldl_cons,foldl_nil]
    rw [mem_append,mem_singleton] at hi
    cases hl : s.allTransactions.get last.previousOutpoint.transactionID with
    | none =>
      obtain hi | rfl := hi
      · exact ih hi
      · rw [hl] at hg
        cases hg
    | some parent =>
      dsimp only
      rw [hk _ _ hl]
      split
      · next hs =>
        obtain hi | rfl := hi
        · exact ih hi
        · exact hs
      · rw [lookup_append,Option.isSome_or,Bool.or_eq_true]
        obtain hi | rfl := hi
        · exact .inl (ih hi)
        · exact .inr (by simp)

lemma fillInput_core {input' : DomainTransactionInput} (h : fillInput s parents input = .ok input')
    :
    { input' with utxoEntry := none } = { input with utxoEntry := none } := by
  unfold fillInput at h
  split at h
  · cases h
    rfl
  · split at h
    · cases h
    · cases h
      rfl

/-- The only failure is an output that a parent does not have. -/
lemma fillInput_errorsIn {tx : DomainTransaction} (hi : input ∈ tx.inputs)
    (hp : ∀ id parent, parents.lookup id = some parent → s.allTransactions.get id = some parent) :
    ErrorsIn (fun e => e.isPanic = true ∧ ¬NamesOutputs s tx) (fillInput s parents input) := by
  unfold fillInput
  cases hl : parents.lookup input.previousOutpoint.transactionID with
  | none => exact .ok _
  | some parent =>
    dsimp only
    cases hg : (s.objects parent.transaction).outputs[input.previousOutpoint.index.toNat]? with
    | some _ => exact .ok _
    | none =>
      refine .error ⟨rfl,fun hn => ?_⟩
      have hlt := hn input hi parent (hp _ _ hl)
      rw [getElem?_eq_getElem hlt] at hg
      cases hg

lemma namesOutputs_of_fillInput (hk : KeyedByID setup s) {tx : DomainTransaction}
    (h : ∀ input ∈ tx.inputs, ∃ input',
      fillInput s (getParentTransactionsInPool setup s tx) input = .ok input') :
    NamesOutputs s tx := by
  intro input hi parent hg
  obtain ⟨_,h⟩ := h input hi
  obtain ⟨found,hl⟩ := Option.isSome_iff_exists.1 (isSome_lookup_parents hk hi (by simp [hg]))
  obtain rfl : parent = found :=
    Option.some.inj (hg.symm.trans (get_of_lookup_parents hk tx _ _ hl))
  rw [fillInput,hl] at h
  by_contra hge
  dsimp only at h
  rw [getElem?_eq_none (not_lt.1 hge)] at h
  cases h

lemma fillInputs_wp (hk : KeyedByID setup s) :
    wp (fillInputs p (getParentTransactionsInPool setup s (s.objects p).toDomainTransaction))
      (fun _ t => Same {p} s t ∧ (t.objects p).mass = (s.objects p).mass ∧
        NamesOutputs s (s.objects p).toDomainTransaction)
      (fun e t => t = s ∧ e.isPanic = true ∧
        ¬NamesOutputs s (s.objects p).toDomainTransaction) s := by
  rw [fillInputs,wp_bind,wp_get,wp_bind]
  refine wp_ofExcept (fun _ hin => ?_) fun e he => ⟨rfl,?_⟩
  · rw [wp_writeObject,setObject_objects_self]
    refine ⟨same_setObject (unpopulated_eq (map_mapM_ok hin fun _ _ => fillInput_core)),rfl,?_⟩
    refine namesOutputs_of_fillInput hk fun input hi => ?_
    obtain ⟨i,hi⟩ := getElem?_of_mem hi
    obtain ⟨input',-,hok⟩ := getElem?_mapM_ok hin hi
    exact ⟨input',hok⟩
  · exact ErrorsIn.mapM (fun _ hi => fillInput_errorsIn hi (get_of_lookup_parents hk _)) e he

/-- The parents that are found, and the outpoints that are not. -/
lemma fillInputsAndGetMissingParents_wp (hv : setup.validator.Regular) (hk : KeyedByID setup s) :
    wp (fillInputsAndGetMissingParents setup call p)
      (fun result t => Same {p} s t ∧ (t.objects p).mass = (s.objects p).mass ∧
        (s.objects p).previousOutpoints.Nodup ∧
        NamesOutputs s (s.objects p).toDomainTransaction ∧
        (result.2 = [] → (t.objects p).toDomainTransaction.Populated))
      (fun e t => Same {p} s t ∧
        (e.isPanic = true ↔ ¬NamesOutputs s (s.objects p).toDomainTransaction)) s := by
  rw [fillInputsAndGetMissingParents,wp_bind,wp_get,wp_bind]
  refine (fillInputs_wp hk).mono (fun _ t ht => ?_) fun e t he => ?_
  swap
  · rw [he.1]
    exact ⟨.refl _ s,iff_of_true he.2.1 he.2.2⟩
  obtain ⟨hsm,hm,hn⟩ := ht
  have ho := hsm.previousOutpoints p
  rw [wp_bind,wp_attempt]
  refine (validateTransactionAndPopulateWithConsensusData_wp hv
    fun hs : False => hs.elim).mono (fun _ u hu => ?_) fun e u hu => ?_
  · obtain ⟨hsm',hms',hpp,hnd⟩ := hu
    exact ⟨hsm.trans hsm',hms'.trans hm,ho ▸ hnd,hn,fun _ => hpp⟩
  · obtain ⟨hsm',hms',failure,rfl,hex,hnd⟩ := hu
    have hth : Same {p} s u ∧ ((translateConsensusFailure (.other failure)).isPanic = true ↔
        ¬NamesOutputs s (s.objects p).toDomainTransaction) := by
      rw [(translateConsensusFailure_expected hex).1]
      exact ⟨hsm.trans hsm',iff_of_false Bool.false_ne_true (not_not.2 hn)⟩
    split
    · next heq => cases heq
    · next heq =>
      cases heq
      refine ⟨hsm.trans hsm',hms'.trans hm,ho ▸ hnd ⟨_,rfl⟩,hn,
        fun hn => populated_of_missingOutpoints hn⟩
    · next heq =>
      cases heq
      exact hth

/-! ## The policy of the mempool -/

lemma cleanupOldSubmissions_eq_ok (call : Call)
    (h : setup.config.compoundTxRateLimitWindowMinutes.toNat < 2^63)
    (submissions : List CompoundTxSubmission) :
    ∃ current, cleanupOldSubmissions setup call submissions = .ok current := by
  rw [cleanupOldSubmissions,checkedDurationFromUint64Minutes,if_pos h]
  exact ⟨_,rfl⟩

lemma currentSubmissions_frames
    (h : setup.config.compoundTxRateLimitWindowMinutes.toNat < 2^63) (address : String) :
    Frames ∅ (fun _ => False) (currentSubmissions setup call address) := by
  intro s
  obtain ⟨_,hok⟩ := cleanupOldSubmissions_eq_ok call h ((s.addressTracker.get address).getD [])
  rw [currentSubmissions,wp_bind,wp_get,wp_bind,wp_set,hok]
  exact ⟨fun _ _ => rfl,fun _ => rfl,rfl,rfl,rfl,rfl,rfl,rfl,rfl,rfl,rfl,rfl⟩

section
variable (hw : setup.HasWindow)
include hw

lemma isRateLimited_frames (tx : TransactionObject) :
    Frames ∅ (fun _ => False) (isRateLimited setup call tx) := by
  unfold isRateLimited
  split
  · next hc =>
    refine .foldlM (fun _ address => .bind (.bind ?_ fun _ => .pure _) fun _ => .pure _) _ _
    exact currentSubmissions_frames (hw.of_isCompoundTransaction hc) address
  · exact .pure _

lemma recordTransactionAt_frames (tx : TransactionObject) (ts : Int) :
    Frames ∅ (fun _ => False) (recordTransactionAt setup call tx ts) := by
  unfold recordTransactionAt
  split
  · next hc =>
    refine .forM (fun address => .bind ?_ fun _ => ?_) _
    · exact currentSubmissions_frames (hw.of_isCompoundTransaction hc) address
    · exact fun _ => ⟨fun _ _ => rfl,fun _ => rfl,rfl,rfl,rfl,rfl,rfl,rfl,rfl,rfl,rfl,rfl⟩
  · exact .pure _

end

/-- The least fee is never zero. -/
lemma minimumRequiredTransactionRelayFee_pos
    (h : setup.config.minimumRelayTransactionFee ≠ 0) (mass : UInt64) :
    0 < minimumRequiredTransactionRelayFee setup mass := by
  have hp : ∀ fee : UInt64, 0 < (if fee = 0 ∧ setup.config.minimumRelayTransactionFee > 0 then
      setup.config.minimumRelayTransactionFee else fee) := by
    intro fee
    split
    · next hzr => exact hzr.2
    · next hzr =>
      refine UInt64.pos_iff_ne_zero.2 fun heq => hzr ⟨heq,?_⟩
      exact UInt64.pos_iff_ne_zero.2 h
  exact ite_pos (by decide) (hp _)

lemma errorsIn_rule {code : RejectCode} {description : String} :
    ErrorsIn (fun e => e.isRuleError = true)
      (transactionRuleError code description : Except MempoolFailure Unit) := .error rfl

/-- The text around a rejection does not change what it is. -/
lemma errorsIn_notStandard {x : Except MempoolFailure Unit} {subject verb : String}
    (h : ErrorsIn (fun e => e.isRuleError = true) x) :
    ErrorsIn (fun e => e.isRuleError = true) (x.mapError (notStandard setup subject verb tx)) := by
  cases x with
  | ok _ => exact .ok _
  | error e =>
    have hr := h e rfl
    cases e with
    | txRuleError _ _ => exact .error rfl
    | ruleError failure => exact .error rfl
    | other failure => cases hr

lemma checkTransactionStandardInContext_errorsIn (hp : tx.toDomainTransaction.Populated) :
    ErrorsIn (fun e => e.isRuleError = true) (checkTransactionStandardInContext setup tx) := by
  refine .bind (.forM fun entry he => ?_) fun _ _ => .ite (fun _ => errorsIn_rule) fun _ => .ok _
  obtain ⟨input,i⟩ := entry
  have hs := hp input (fst_mem_of_mem_zipIdx he)
  show ErrorsIn _ (checkStandardSpending setup input i)
  unfold checkStandardSpending
  cases hu : input.utxoEntry with
  | none =>
    rw [hu] at hs
    cases hs
  | some utxoEntry =>
    dsimp only
    cases setup.parseScript utxoEntry.scriptPublicKey.script with
    | none => exact errorsIn_rule
    | some _ => exact .ite (fun _ => errorsIn_rule) fun _ => .ok _

lemma fee_of_checkTransactionStandardInContext (hf : setup.config.minimumRelayTransactionFee ≠ 0)
    (h : checkTransactionStandardInContext setup tx = .ok ()) : tx.fee ≠ 0 := by
  obtain ⟨_,-,h⟩ := bind_eq_ok h
  obtain ⟨hle,h⟩ := of_ite_error h
  have hp := minimumRequiredTransactionRelayFee_pos hf tx.mass
  rintro hz
  rw [hz] at hle
  exact hle hp

/-- A transaction with its entries is accepted or breaks a rule of the mempool. -/
lemma validateTransactionInContext_wp (hw : setup.HasWindow)
    (hp : tx.toDomainTransaction.Populated) :
    wp (validateTransactionInContext setup call tx)
      (fun _ t => Same ∅ s t ∧ (setup.Standard → tx.fee ≠ 0))
      (fun e t => Same ∅ s t ∧ e.isRuleError = true) s := by
  rw [validateTransactionInContext,wp_bind]
  refine wp_ofExcept (fun _ _ => ?_) fun e he => ?_
  swap
  · rw [hasCoinbaseInput_eq hp] at he
    cases he
  refine wp_ite (fun _ => ⟨.refl _ s,rfl⟩) fun _ => ?_
  rw [wp_bind]
  refine (isRateLimited_frames hw tx s).mono (fun _ t hsm => ?_) fun _ _ he => he.1.elim
  refine wp_ite (fun _ => ⟨hsm,rfl⟩) fun _ => wp_ite (fun _ => ⟨hsm,rfl⟩) fun _ => ?_
  refine wp_ite (fun hn => ⟨hsm,fun hs => ?_⟩) fun _ => ?_
  · rw [hs.acceptNonStandard] at hn
    cases hn
  · refine wp_ofExcept (fun _ hok => ⟨hsm,fun hs => ?_⟩) fun e he => ⟨hsm,?_⟩
    · cases hc : checkTransactionStandardInContext setup tx with
      | ok _ =>
        exact fee_of_checkTransactionStandardInContext hs.minimumRelayTransactionFee hc
      | error e =>
        rw [hc] at hok
        cases hok
    · exact errorsIn_notStandard (checkTransactionStandardInContext_errorsIn hp) e he

end Mempool
end Eiyaro
