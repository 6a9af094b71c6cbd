import Eiyaro.Transaction.InIsolation

/-!
# How a transaction is rejected

The transaction validator does not panic on a transaction that has its entries, and returns a
rule error unless the DAA score of an entry is no `int64`.
-/

namespace Eiyaro

/-- The failures to be expected. `strict` leaves only those that say which rule is broken. -/
def Failure.Expected (strict : Prop) : Failure → Prop
  | .ruleError _ _ => True
  | .error _ => ¬strict
  | .panic _ => False

variable {strict : Prop} {tx : DomainTransaction} {failure : Failure}

/-! ## In isolation -/

/-- A rule is broken, and not that for missing entries. -/
def Failure.InIsolation (failure : Failure) : Prop :=
  ∃ error message, failure = .ruleError error message ∧ error ≠ .errMissingTxOut

lemma Failure.InIsolation.expected (h : failure.InIsolation) : failure.Expected strict := by
  obtain ⟨_,_,rfl,-⟩ := h
  trivial

lemma addOutputAmount_errorsIn (totalSompi : UInt64) (txOut : DomainTransactionOutput) :
    ErrorsIn Failure.InIsolation (addOutputAmount totalSompi txOut) :=
  .ite (fun _ => .error ⟨_,_,rfl,by decide⟩) fun _ =>
    .ite (fun _ => .error ⟨_,_,rfl,by decide⟩) fun _ =>
      .ite (fun _ => .error ⟨_,_,rfl,by decide⟩) fun _ =>
        .ite (fun _ => .error ⟨_,_,rfl,by decide⟩) fun _ => .ok _

lemma validateTransactionInIsolation_errorsIn (params : IsolationParams)
    (tx : DomainTransaction) (score : UInt64) :
    ErrorsIn Failure.InIsolation (params.validateTransactionInIsolation tx score) := by
  have hrl : ∀ {c : Prop} [Decidable c] {error message} {rest : Except Failure Unit},
      error ≠ RuleError.errMissingTxOut → ErrorsIn Failure.InIsolation rest →
        ErrorsIn Failure.InIsolation (if c then .error (.ruleError error message) else rest) :=
    fun hne hr => .ite (fun _ => .error ⟨_,_,rfl,hne⟩) fun _ => hr
  refine .bind (hrl (by decide) (.ok _)) fun _ _ => ?_
  refine .bind (.bind (.foldlM (fun total txOut _ => addOutputAmount_errorsIn total txOut) 0)
    fun _ _ => .ok _) fun _ _ => ?_
  refine .bind (.ite (fun _ => .ok _) fun _ => .error ⟨_,_,rfl,by decide⟩) fun _ _ => ?_
  refine .bind (.ite (fun _ => .ok _) fun _ => hrl (by decide) (hrl (by decide)
    (hrl (by decide) (hrl (by decide) (.ok _))))) fun _ _ => ?_
  refine .bind (hrl (by decide) (.ok _)) fun _ _ => ?_
  refine .bind (.ite (fun _ => .ok _) fun _ => hrl (by decide) (.ok _)) fun _ _ => ?_
  refine .bind (.ite (fun _ => .ok _) fun _ => hrl (by decide) (hrl (by decide) (.ok _)))
    fun _ _ => ?_
  refine .bind (hrl (by decide) (.ok _)) fun _ _ => ?_
  refine .bind (hrl (by decide) (hrl (by decide) (.ok _))) fun _ _ => ?_
  exact hrl (by decide) (.ok _)

lemma nodup_of_validateTransactionInIsolation {params : IsolationParams} {score : UInt64}
    (h : params.validateTransactionInIsolation tx score = .ok ()) :
    (tx.inputs.map (·.previousOutpoint)).Nodup := by
  obtain ⟨_,-,_,-,h⟩ := bind₂_eq_ok h
  obtain ⟨_,hdp,-⟩ := bind_eq_ok h
  unfold checkDuplicateTransactionInputs at hdp
  split at hdp
  · next hnd => exact hnd
  · cases hdp

/-! ## In context -/

/-- The entries that a script is run with. -/
def DomainTransaction.Populated (tx : DomainTransaction) : Prop :=
  ∀ input ∈ tx.inputs, input.utxoEntry.isSome = true

/-- The DAA scores that a lock is computed from. -/
def IsLockScore (daaScore : UInt64) : Prop :=
  daaScore = unacceptedDAAScore ∨ daaScore ≤ maxInt64

def UTXOEntry.HasScore (utxoEntry : UTXOEntry) : Prop :=
  IsLockScore utxoEntry.blockDAAScore

/-- The engine rejects a script with a rule error. -/
def TransactionValidator.Regular (v : TransactionValidator) : Prop :=
  ∀ scriptPublicKey tx i, tx.Populated →
    ErrorsIn (Failure.Expected True) (v.runScript scriptPublicKey tx i)

lemma Failure.Expected.weaken (h : failure.Expected True) : failure.Expected strict := by
  cases failure with
  | ruleError error message => trivial
  | error message => exact absurd trivial h
  | panic message => exact h

lemma checkMissingOutpoints_errorsIn :
    ErrorsIn (Failure.Expected strict) (checkMissingOutpoints tx) :=
  .ite (fun _ => .ok _) fun _ => .error trivial

lemma raiseSequenceLock_errorsIn (sequenceLock : Int64) {input : DomainTransactionInput}
    (hsc : strict → ∀ entry ∈ input.utxoEntry, entry.HasScore) :
    ErrorsIn (Failure.Expected strict) (raiseSequenceLock sequenceLock input) := by
  have hl : ¬relativeLock input > maxInt64 := by
    rw [gt_iff_lt,UInt64.lt_iff_toNat_lt]
    have hlt := relativeLock_lt input
    have hm : maxInt64.toNat = 2^63 - 1 := rfl
    omega
  unfold raiseSequenceLock
  cases he : input.utxoEntry with
  | none => exact .ok _
  | some entry =>
    refine .ite (fun h => absurd h hl) fun _ => .ite (fun _ => .ok _) fun _ =>
      .ite (fun _ => .ok _) fun hne => .ite (fun hgt => .error fun hs => ?_) fun _ => .ok _
    obtain hsc | hsc := hsc hs entry (by rw [he]; rfl)
    · exact hne (by simpa using hsc)
    · exact absurd hgt (UInt64.not_lt.2 hsc)

section
variable {v : TransactionValidator} (hv : v.Regular) (hpop : tx.Populated)
  (hsc : strict → ∀ input ∈ tx.inputs, ∀ entry ∈ input.utxoEntry, entry.HasScore)

lemma checkTransactionCoinbaseMaturity_errorsIn (v : TransactionValidator) (score : UInt64) :
    ErrorsIn (Failure.Expected strict) (v.checkTransactionCoinbaseMaturity tx score) := by
  refine .bind (.forM fun input _ => ?_) fun _ _ => checkMissingOutpoints_errorsIn
  unfold TransactionValidator.checkInputMaturity
  cases input.utxoEntry with
  | none => exact .ok _
  | some _ => exact .ite (fun _ => .error trivial) fun _ => .ok _

include hsc in
lemma checkTransactionSequenceLock_errorsIn (score : UInt64) :
    ErrorsIn (Failure.Expected strict) (checkTransactionSequenceLock tx score) := by
  refine .bind (.ite (fun _ => .ok _) fun _ => ?_) fun _ _ =>
    .ite (fun _ => .ok _) fun _ => .error trivial
  refine .bind (.foldlM (fun sequenceLock input hi => ?_) _) fun _ _ =>
    .bind checkMissingOutpoints_errorsIn fun _ _ => .ok _
  exact raiseSequenceLock_errorsIn sequenceLock fun hs => hsc hs input hi

include hpop in
lemma validateTransactionSigOpCounts_errorsIn (v : TransactionValidator) :
    ErrorsIn (Failure.Expected strict) (v.validateTransactionSigOpCounts tx) := by
  refine .forM fun entry he => ?_
  have hs := hpop entry.1 (List.fst_mem_of_mem_zipIdx he)
  dsimp only
  cases hu : entry.1.utxoEntry with
  | none =>
    rw [hu] at hs
    cases hs
  | some utxoEntry => exact .ite (fun _ => .error trivial) fun _ => .ok _

include hv hpop in
lemma validateTransactionScripts_errorsIn :
    ErrorsIn (Failure.Expected strict) (v.validateTransactionScripts tx) := by
  refine .bind (.forM fun entry _ => ?_) fun _ _ => checkMissingOutpoints_errorsIn
  dsimp only
  cases entry.1.utxoEntry with
  | none => exact .ok _
  | some utxoEntry => exact fun e he => (hv _ _ _ hpop e he).weaken

include hv hpop hsc in
lemma validateTransactionInContextAndPopulateFee_errorsIn (arrival : Equiv.Perm (Fin 4))
    (score : UInt64) : ErrorsIn (Failure.Expected strict)
      (v.validateTransactionInContextAndPopulateFee arrival tx score) := by
  have ha : ErrorsIn (Failure.Expected strict) (checkTransactionInputAmounts tx) := by
    refine .bind (.foldlM (fun _ input _ => ?_) 0) fun _ _ =>
      .bind checkMissingOutpoints_errorsIn fun _ _ => .ok _
    unfold addInputAmount
    cases input.utxoEntry with
    | none => exact .ok _
    | some _ => exact .ite (fun _ => .error trivial) fun _ => .ok _
  have hr : ∀ i : Fin 4, ErrorsIn (Failure.Expected strict) (v.contextResults tx score i)
    | 0 => checkTransactionCoinbaseMaturity_errorsIn v score
    | 1 => checkTransactionSequenceLock_errorsIn hsc score
    | 2 => validateTransactionSigOpCounts_errorsIn hpop v
    | 3 => validateTransactionScripts_errorsIn hv hpop
  refine ha.bind fun _ _ => .bind (.ite (fun _ => .error trivial) fun _ => .ok _)
    fun _ _ => .bind (.forM fun i _ => hr _) fun _ _ => .ok _

end
end Eiyaro
