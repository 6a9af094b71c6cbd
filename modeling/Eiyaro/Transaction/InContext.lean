import Eiyaro.Model.Block
import Eiyaro.Model.Failure

/-!
# Validating a transaction against the entries it spends

`transaction_in_context.go`. Amounts and the maturity of coinbase outputs are
computed in `uint64`, relative locks in `int64`.
-/

namespace Eiyaro
open List
variable {sequenceLock after : Int64}
variable {input : DomainTransactionInput} {inputs : List DomainTransactionInput}
  {c totalSompiIn : UInt64} {tx : DomainTransaction} {povDAAScore : UInt64}

def maxSey : UInt64 := 17100000000*100000000

/-- The flag of a sequence number that is not a relative lock. -/
def sequenceLockTimeDisabled : UInt64 := 0x8000000000000000

def sequenceLockTimeMask : UInt64 := 0x00000000ffffffff

/-- The score of entries that no block accepted yet. -/
def unacceptedDAAScore : UInt64 := 0xffffffffffffffff

/-- `math.MaxInt64`. -/
def maxInt64 : UInt64 := 0x7fffffffffffffff

/-- The script engine enters through two functions: `getPreciseSigOpCount` counts the
signature operations of a script pair, and `runScript` initialises and executes the
engine on the input at a position. `TxScript.engineValidator` has those of `txscript`. -/
structure TransactionValidator where
  blockCoinbaseMaturity : UInt64
  getPreciseSigOpCount : List UInt8 → ScriptPublicKey → Nat
  runScript : ScriptPublicKey → DomainTransaction → Nat → Except Failure Unit

/-! ## The checks -/

def missingOutpoints (tx : DomainTransaction) : List DomainOutpoint :=
  (tx.inputs.filter (·.utxoEntry.isNone)).map (·.previousOutpoint)

/-- What every loop over the inputs ends with. -/
def checkMissingOutpoints (tx : DomainTransaction) : Except Failure Unit :=
  if (missingOutpoints tx).isEmpty then
    .ok ()
  else
    .error (.ruleError .errMissingTxOut "missing the following outpoint")

def checkEntryAmounts (entry : UTXOEntry) (totalSompiInBefore : UInt64) : Except Failure UInt64 :=
  let totalSompiInAfter := totalSompiInBefore+entry.amount
  if totalSompiInAfter < totalSompiInBefore ∨ totalSompiInAfter > maxSey then
    .error (.ruleError .errBadTxOutValue ("total value of all transaction inputs is " ++
      toString totalSompiInBefore ++ " which is higher than max allowed value of " ++
      toString maxSey))
  else
    .ok totalSompiInAfter

def addInputAmount (totalSompiIn : UInt64) (input : DomainTransactionInput) :
    Except Failure UInt64 :=
  match input.utxoEntry with
  | none => .ok totalSompiIn
  | some utxoEntry => checkEntryAmounts utxoEntry totalSompiIn

section
variable (sequenceLock input tx)

def checkTransactionInputAmounts : Except Failure UInt64 := do
  let totalSompiIn ← tx.inputs.foldlM addInputAmount 0
  checkMissingOutpoints tx
  return totalSompiIn

def totalOutputAmount : UInt64 :=
  tx.outputs.foldl (fun totalSompiOut output => totalSompiOut+output.value) 0

def checkTransactionOutputAmounts (totalSompiIn : UInt64) : Except Failure UInt64 :=
  let totalSompiOut := totalOutputAmount tx
  if totalSompiIn < totalSompiOut then
    .error (.ruleError .errSpendTooHigh ("total value of all transaction inputs for the " ++
      "transaction is " ++ toString totalSompiIn ++ " which is less than the amount spent of " ++
      toString totalSompiOut))
  else
    .ok totalSompiOut

/-- The relative lock of an input in `calcTxSequenceLockFromReferencedUTXOEntries`. -/
def relativeLock : UInt64 :=
  input.sequence &&& sequenceLockTimeMask

def relativeLockDisabled : Bool :=
  input.sequence &&& sequenceLockTimeDisabled == sequenceLockTimeDisabled

/-- One round of `calcTxSequenceLockFromReferencedUTXOEntries`. -/
def raiseSequenceLock : Except Failure Int64 :=
  match input.utxoEntry with
  | none => .ok sequenceLock
  | some utxoEntry =>
    let inputDAAScore := utxoEntry.blockDAAScore
    if relativeLock input > maxInt64 then
      .error (.error ("relative lock " ++ toString (relativeLock input) ++ " exceeds int64"))
    else if relativeLockDisabled input then
      .ok sequenceLock
    else if inputDAAScore == unacceptedDAAScore then
      .ok sequenceLock
    else if inputDAAScore > maxInt64 then
      .error (.error ("input DAA score " ++ toString inputDAAScore ++ " exceeds int64"))
    else
      let blockDAAScore := inputDAAScore.toInt64+(relativeLock input).toInt64 - 1
      .ok (if blockDAAScore > sequenceLock then blockDAAScore else sequenceLock)

end

/-- A lock of -1 allows a transaction at any DAA score. -/
def calcTxSequenceLockFromReferencedUTXOEntries (tx : DomainTransaction) : Except Failure Int64 :=
  if isCoinBase tx then
    .ok (-1)
  else do
    let sequenceLock ← tx.inputs.foldlM raiseSequenceLock (-1)
    checkMissingOutpoints tx
    return sequenceLock

def sequenceLockActive (sequenceLock : Int64) (blockDAAScore : UInt64) : Bool :=
  if blockDAAScore > maxInt64 then
    true
  else if sequenceLock ≥ blockDAAScore.toInt64 then
    false
  else
    true

def checkTransactionSequenceLock (tx : DomainTransaction) (povDAAScore : UInt64) :
    Except Failure Unit := do
  let sequenceLock ← calcTxSequenceLockFromReferencedUTXOEntries tx
  if sequenceLockActive sequenceLock povDAAScore then
    return ()
  else
    .error (.ruleError .errUnfinalizedTx
      "block contains transaction whose input sequence locks are not met")

namespace TransactionValidator
variable (v : TransactionValidator)

section
variable (tx : DomainTransaction) (povDAAScore : UInt64)

def checkInputMaturity (input : DomainTransactionInput) : Except Failure Unit :=
  match input.utxoEntry with
  | none => .ok ()
  | some utxoEntry =>
    if utxoEntry.isCoinbase ∧ utxoEntry.blockDAAScore+v.blockCoinbaseMaturity > povDAAScore then
      .error (.ruleError .errImmatureSpend ("tried to spend coinbase transaction output from " ++
        "DAA score " ++ toString utxoEntry.blockDAAScore ++ " to DAA score " ++
        toString povDAAScore ++ " before required maturity of " ++
        toString v.blockCoinbaseMaturity))
    else
      .ok ()

def checkTransactionCoinbaseMaturity : Except Failure Unit := do
  tx.inputs.forM (v.checkInputMaturity povDAAScore)
  checkMissingOutpoints tx

def validateTransactionSigOpCounts : Except Failure Unit :=
  tx.inputs.zipIdx.forM fun (input, i) =>
    match input.utxoEntry with
    | none => .error (.panic "invalid memory address or nil pointer dereference")
    | some utxoEntry =>
      let sigOpCount := v.getPreciseSigOpCount input.signatureScript utxoEntry.scriptPublicKey
      if sigOpCount ≠ input.sigOpCount.toNat then
        .error (.ruleError .errWrongSigOpCount ("input " ++ toString i ++
          " specifies SigOpCount " ++ toString input.sigOpCount ++
          " while actual SigOpCount is " ++ toString sigOpCount))
      else
        .ok ()

def validateTransactionScripts : Except Failure Unit := do
  tx.inputs.zipIdx.forM fun (input, i) =>
    match input.utxoEntry with
    | none => .ok ()
    | some utxoEntry => v.runScript utxoEntry.scriptPublicKey tx i
  checkMissingOutpoints tx

/-- The results of the four checks that run at the same time. -/
def contextResults : Fin 4 → Except Failure Unit :=
  ![v.checkTransactionCoinbaseMaturity tx povDAAScore,checkTransactionSequenceLock tx povDAAScore,
    v.validateTransactionSigOpCounts tx,
    v.validateTransactionScripts tx]

end

/-- `ValidateTransactionInContextAndPopulateFee` with the fee that it stores in the
transaction. The results of the concurrent checks arrive in the order `arrival`, and
the first error among them is returned. -/
def validateTransactionInContextAndPopulateFee (arrival : Equiv.Perm (Fin 4))
    (tx : DomainTransaction) (povDAAScore : UInt64) : Except Failure UInt64 := do
  let totalSompiIn ← checkTransactionInputAmounts tx
  let totalSompiOut ← checkTransactionOutputAmounts tx totalSompiIn
  (List.finRange 4).forM fun i => v.contextResults tx povDAAScore (arrival i)
  return totalSompiIn - totalSompiOut

end TransactionValidator

/-! ## Populated entries and amounts -/

lemma populated_of_missingOutpoints (h : missingOutpoints tx = []) :
    ∀ input ∈ tx.inputs, input.utxoEntry.isSome = true := by
  intro input hm
  rw [missingOutpoints,map_eq_nil_iff,filter_eq_nil_iff] at h
  exact Option.isSome_iff_ne_none.2 (by simpa using h input hm)

lemma populated_of_checkMissingOutpoints (h : checkMissingOutpoints tx = .ok ()) :
    ∀ input ∈ tx.inputs, input.utxoEntry.isSome = true := by
  unfold checkMissingOutpoints at h
  split at h
  · next he => exact populated_of_missingOutpoints (isEmpty_iff.1 he)
  · cases h

/-- The amount that an input brings in. -/
def inputAmount (input : DomainTransactionInput) : Nat :=
  (input.utxoEntry.map (·.amount.toNat)).getD 0

lemma addInputAmount_toNat {after : UInt64} (h : addInputAmount totalSompiIn input = .ok after) :
    after.toNat = totalSompiIn.toNat+inputAmount input := by
  unfold addInputAmount at h
  split at h
  · next he =>
    cases h
    simp [inputAmount,he]
  · next utxoEntry he =>
    obtain ⟨hr,h⟩ := of_ite_error h
    cases h
    -- a sum that wrapped around is less than its first summand
    rw [not_or,UInt64.not_lt,UInt64.le_iff_toNat_le,UInt64.toNat_add] at hr
    have hlt := utxoEntry.amount.toNat_lt
    rw [UInt64.toNat_add,inputAmount,he,Option.map_some,Option.getD_some]
    omega

lemma foldlM_addInputAmount_toNat {after : UInt64}
    (h : inputs.foldlM addInputAmount totalSompiIn = .ok after) :
    after.toNat = totalSompiIn.toNat+(inputs.map inputAmount).sum := by
  refine foldlM_rec h (by simp) fun _ inputs totalSompiIn _ ht _ _ => ?_
  have hs := addInputAmount_toNat ht
  rw [map_cons,sum_cons]
  omega

/-! ## Sequence locks -/

section
variable (input c)

/-- The input spends an output of a coinbase transaction accepted at score `c`. -/
def CoinbaseSince : Prop :=
  ∃ utxoEntry, input.utxoEntry = some utxoEntry ∧ utxoEntry.isCoinbase = true ∧
    utxoEntry.blockDAAScore = c

/-- The relative lock of the input is enabled, and counts from the score `c` at which
the spent output was accepted. -/
def LockedSince : Prop :=
  ∃ utxoEntry, input.utxoEntry = some utxoEntry ∧ relativeLockDisabled input = false ∧
    utxoEntry.blockDAAScore = c ∧ c ≠ unacceptedDAAScore

end

lemma toInt_toInt64 (h : c.toNat < 2^63) : c.toInt64.toInt = c.toNat := by
  show c.toInt64.toBitVec.toInt = c.toNat
  rw [UInt64.toBitVec_toInt64,BitVec.toInt_eq_toNat_of_lt]
  · rfl
  · rw [UInt64.toNat_toBitVec]
    omega

lemma relativeLock_lt (input : DomainTransactionInput) : (relativeLock input).toNat < 2^32 := by
  have hm : sequenceLockTimeMask.toNat < 2^32 := by decide
  exact Nat.and_lt_two_pow _ hm

/-- The absolute lock of an input, where it is not beyond `int64`. -/
lemma absoluteLock_toInt {r : UInt64} (hc : c.toNat < 2^63) (hr : r.toNat < 2^32)
    (h : c.toNat+r.toNat ≤ 2^63) :
    (c.toInt64+r.toInt64 - 1).toInt = (c.toNat : Int)+r.toNat - 1 := by
  -- the sum itself may leave the range by one, the subtraction brings it back
  rw [Int64.toInt_sub,Int64.toInt_add,toInt_toInt64 hc,toInt_toInt64 (by omega),
    show (1 : Int64).toInt = 1 from rfl,Int.bmod_sub_bmod,Int.bmod_eq_of_le]
  · omega
  · omega

lemma raiseSequenceLock_le
    (h : raiseSequenceLock sequenceLock input = .ok after) : sequenceLock ≤ after := by
  unfold raiseSequenceLock at h
  dsimp only at h
  split at h
  · cases h
    exact Int64.le_refl _
  · split_ifs at h with _ _ _ _ hlt <;> cases h
    · exact Int64.le_refl _
    · exact Int64.le_refl _
    · exact Int64.le_of_lt hlt
    · exact Int64.le_refl _

lemma raiseSequenceLock_locked (h : raiseSequenceLock sequenceLock input = .ok after)
    (hl : LockedSince input c) :
    c.toNat < 2^63 ∧ c.toInt64+(relativeLock input).toInt64 - 1 ≤ after := by
  obtain ⟨utxoEntry,hen,he,rfl,ha⟩ := hl
  have hu : (utxoEntry.blockDAAScore == unacceptedDAAScore) = false := by
    simpa using ha
  unfold raiseSequenceLock at h
  rw [hen] at h
  simp only [he,hu,Bool.false_eq_true,if_false] at h
  split_ifs at h with hr hc hlt
  · cases h
    have hc' : utxoEntry.blockDAAScore.toNat ≤ maxInt64.toNat :=
      UInt64.le_iff_toNat_le.mp (UInt64.not_lt.mp hc)
    exact ⟨Nat.lt_succ_of_le hc',Int64.le_refl _⟩
  · cases h
    have hc' : utxoEntry.blockDAAScore.toNat ≤ maxInt64.toNat :=
      UInt64.le_iff_toNat_le.mp (UInt64.not_lt.mp hc)
    exact ⟨Nat.lt_succ_of_le hc',Int64.not_lt.mp hlt⟩

section
variable (h : inputs.foldlM raiseSequenceLock sequenceLock = .ok after)
include h

lemma foldlM_raiseSequenceLock_le : sequenceLock ≤ after := by
  refine foldlM_rec h (Int64.le_refl _) fun _ _ sequenceLock _ hl _ ih => ?_
  exact Int64.le_trans (raiseSequenceLock_le hl) ih

/-- The lock of the whole transaction is at least the lock of each input. -/
lemma foldlM_raiseSequenceLock_locked (hm : input ∈ inputs) (hl : LockedSince input c) :
    c.toNat < 2^63 ∧ c.toInt64+(relativeLock input).toInt64 - 1 ≤ after := by
  revert hm
  refine foldlM_rec h (fun hm => absurd hm not_mem_nil) fun _ inputs _ _ hlc hr ih hm => ?_
  obtain rfl | hm := mem_cons.mp hm
  · obtain ⟨hc,hle⟩ := raiseSequenceLock_locked hlc hl
    exact ⟨hc,Int64.le_trans hle (foldlM_raiseSequenceLock_le hr)⟩
  · exact ih hm

end

lemma toInt_lt_of_sequenceLockActive (h : sequenceLockActive sequenceLock povDAAScore = true) :
    2^63 ≤ povDAAScore.toNat ∨ sequenceLock.toInt < povDAAScore.toNat := by
  unfold sequenceLockActive at h
  split_ifs at h with hp hl
  · have : maxInt64.toNat < povDAAScore.toNat := UInt64.lt_iff_toNat_lt.mp hp
    exact .inl this
  · have hp' : povDAAScore.toNat ≤ maxInt64.toNat := UInt64.le_iff_toNat_le.mp (UInt64.not_lt.mp hp)
    have hlt := Int64.lt_iff_toInt_lt.mp (Int64.not_le.mp hl)
    rw [toInt_toInt64 (Nat.lt_succ_of_le hp')] at hlt
    exact .inr hlt

lemma checkTransactionSequenceLock_locked
    (h : checkTransactionSequenceLock tx povDAAScore = .ok ()) (htx : isCoinBase tx = false)
    (hm : input ∈ tx.inputs)
    (hl : LockedSince input c) (hr : c.toNat+(relativeLock input).toNat ≤ 2^63) :
    c.toNat+(relativeLock input).toNat ≤ povDAAScore.toNat := by
  obtain ⟨sequenceLock,hlc,h⟩ := bind_eq_ok h
  have ha : sequenceLockActive sequenceLock povDAAScore = true := by
    split at h
    · assumption
    · cases h
  rw [calcTxSequenceLockFromReferencedUTXOEntries,htx] at hlc
  obtain ⟨_,hf,_,_,hlc⟩ := bind₂_eq_ok hlc
  cases hlc
  obtain ⟨hc,hle⟩ := foldlM_raiseSequenceLock_locked hf hm hl
  rw [Int64.le_iff_toInt_le,absoluteLock_toInt hc (relativeLock_lt input) hr] at hle
  obtain hp | hp := toInt_lt_of_sequenceLockActive ha
  · omega
  · omega

/-! ## What a valid transaction satisfies -/

namespace TransactionValidator
variable {v : TransactionValidator}

lemma checkTransactionCoinbaseMaturity_since
    (h : v.checkTransactionCoinbaseMaturity tx povDAAScore = .ok ()) (hm : input ∈ tx.inputs)
    (hs : CoinbaseSince input c) (hr : c.toNat+v.blockCoinbaseMaturity.toNat < 2^64) :
    c.toNat+v.blockCoinbaseMaturity.toNat ≤ povDAAScore.toNat := by
  obtain ⟨_,he,hcb,rfl⟩ := hs
  obtain ⟨_,his,_⟩ := bind_eq_ok h
  have hin := forM_eq_ok.mp his input hm
  unfold checkInputMaturity at hin
  rw [he] at hin
  obtain ⟨hi,hin⟩ := of_ite_error hin
  rw [not_and,UInt64.not_lt,UInt64.le_iff_toNat_le,UInt64.toNat_add] at hi
  have hle := hi hcb
  omega

variable {arrival : Equiv.Perm (Fin 4)} {tx : DomainTransaction} {povDAAScore fee : UInt64}

section
variable (h : v.validateTransactionInContextAndPopulateFee arrival tx povDAAScore = .ok fee)
include h

/-- A transaction that passes has enough money and passes all four checks, in whatever
order they finish. -/
lemma validateTransactionInContextAndPopulateFee_eq_ok :
    ∃ totalSompiIn, checkTransactionInputAmounts tx = .ok totalSompiIn ∧
      totalOutputAmount tx ≤ totalSompiIn ∧ fee = totalSompiIn - totalOutputAmount tx ∧
      ∀ i, v.contextResults tx povDAAScore i = .ok () := by
  obtain ⟨totalSompiIn,hin,_,ho,h⟩ := bind₂_eq_ok h
  obtain ⟨_,hr,h⟩ := bind_eq_ok h
  cases h
  obtain ⟨hle,ho⟩ := of_ite_error ho
  cases ho
  refine ⟨totalSompiIn,hin,UInt64.not_lt.mp hle,rfl,?_⟩
  intro i
  have hi := forM_eq_ok.mp hr (arrival.symm i) (mem_finRange _)
  rwa [Equiv.apply_symm_apply] at hi

/-- Coinbase outputs of a valid transaction are mature and relative locks have run out exactly
where the sums do not leave the machine types. -/
theorem validateTransactionInContextAndPopulateFee_scores :
    ((∀ input ∈ tx.inputs, ∀ c, CoinbaseSince input c →
        c.toNat+v.blockCoinbaseMaturity.toNat ≤ povDAAScore.toNat) ∧
      (isCoinBase tx = false → ∀ input ∈ tx.inputs, ∀ c, LockedSince input c →
        c.toNat+(relativeLock input).toNat ≤ povDAAScore.toNat)) ↔
    (∀ input ∈ tx.inputs, ∀ c, CoinbaseSince input c →
      c.toNat+v.blockCoinbaseMaturity.toNat < 2^64) ∧
    (isCoinBase tx = false → ∀ input ∈ tx.inputs, ∀ c, LockedSince input c →
      c.toNat+(relativeLock input).toNat ≤ max (2^63) povDAAScore.toNat) := by
  obtain ⟨_,_,_,_,hr⟩ := validateTransactionInContextAndPopulateFee_eq_ok h
  refine and_congr (forall₄_congr fun input hm c hs => ⟨fun hle => ?_,fun hlt => ?_⟩)
    (forall_congr' fun htx => forall₄_congr fun input hm c hl => ⟨fun hle => ?_,fun hle => ?_⟩)
  · exact lt_of_le_of_lt hle povDAAScore.toNat_lt
  · exact checkTransactionCoinbaseMaturity_since (hr 0) hm hs hlt
  · exact hle.trans (le_max_right _ _)
  · obtain hle | hle := le_max_iff.1 hle
    · exact checkTransactionSequenceLock_locked (hr 1) htx hm hl hle
    · exact hle

end

/-- Every script succeeds and has no signature operations. -/
def sample : TransactionValidator where
  blockCoinbaseMaturity := 100
  getPreciseSigOpCount _ _ := 0
  runScript _ _ _ := .ok ()

/-- A transaction without outputs that spends an entry of a coinbase transaction, with
the relative lock disabled, and another entry, with the relative lock 2. -/
def sampleSpending (coinbaseScore score : UInt64) : DomainTransaction :=
  ⟨0,[⟨⟨0,0⟩,[],sequenceLockTimeDisabled,0,some ⟨5,⟨[],0⟩,true,coinbaseScore⟩⟩,
    ⟨⟨0,1⟩,[],2,0,some ⟨7,⟨[],0⟩,false,score⟩⟩],[],0,0,0,[]⟩

theorem validateTransactionInContextAndPopulateFee_scores_of_two :
    let tx := sampleSpending 900 998
    sample.validateTransactionInContextAndPopulateFee (Equiv.refl _) tx 1000 = .ok 12 ∧
      (∀ input ∈ tx.inputs, ∀ c, CoinbaseSince input c → c.toNat+100 ≤ 1000) ∧
      (isCoinBase tx = false → ∀ input ∈ tx.inputs, ∀ c, LockedSince input c →
        c.toNat+(relativeLock input).toNat ≤ 1000) := by
  have hv : sample.validateTransactionInContextAndPopulateFee (Equiv.refl _)
      (sampleSpending 900 998) 1000 =
      .ok 12 := by
    decide
  refine ⟨hv,(validateTransactionInContextAndPopulateFee_scores hv).2 ⟨?_,?_⟩⟩
  · intro input hm c hs
    obtain ⟨utxoEntry,hen,_,rfl⟩ := hs
    simp only [sampleSpending,mem_cons,not_mem_nil,or_false] at hm
    rcases hm with rfl | rfl <;> cases hen <;> decide
  · intro _ input hm c hl
    obtain ⟨utxoEntry,hen,_,rfl,_⟩ := hl
    simp only [sampleSpending,mem_cons,not_mem_nil,or_false] at hm
    rcases hm with rfl | rfl <;> cases hen <;> decide

/-- Both sums wrap around: `2 ^ 64 - 100 + 100` in `uint64` is 0, and
`2 ^ 63 - 1 + 2 - 1` in `int64` is negative. -/
theorem validateTransactionInContextAndPopulateFee_wraps :
    let tx := sampleSpending 18446744073709551516 9223372036854775807
    sample.validateTransactionInContextAndPopulateFee (Equiv.refl _) tx 1000 = .ok 12 ∧
      isCoinBase tx = false ∧
      (∃ input ∈ tx.inputs, ∃ c, CoinbaseSince input c ∧
        ¬c.toNat+sample.blockCoinbaseMaturity.toNat ≤ 1000) ∧
      ∃ input ∈ tx.inputs, ∃ c, LockedSince input c ∧
        ¬c.toNat+(relativeLock input).toNat ≤ 1000 := by
  refine ⟨by decide,by decide,?_,?_⟩
  · refine ⟨_,mem_cons_self,18446744073709551516,⟨_,rfl,rfl,rfl⟩,by decide⟩
  · refine ⟨_,mem_cons_of_mem _ mem_cons_self,9223372036854775807,
      ⟨_,rfl,by decide,rfl,by decide⟩,by decide⟩

end TransactionValidator
end Eiyaro
