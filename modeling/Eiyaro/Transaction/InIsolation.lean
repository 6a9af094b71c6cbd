import Eiyaro.Transaction.InContext

/-!
# Validating a transaction by itself

`transaction_in_isolation.go`. The check that a payload is a JSON object without
embedded files is not part of the model.
-/

namespace Eiyaro
open List

def subnetworkIDNative : DomainSubnetworkID := 0

/-- `SubnetworkIDRegistry` has the first byte 2 and all others 0. -/
def subnetworkIDRegistry : DomainSubnetworkID := ⟨2*2^152,by decide⟩

/-- `SubnetworkIDData` has the first byte 3 and all others 0. -/
def subnetworkIDData : DomainSubnetworkID := ⟨3*2^152,by decide⟩

def isBuiltIn (id : DomainSubnetworkID) : Bool :=
  id == subnetworkIDCoinbase || id == subnetworkIDRegistry || id == subnetworkIDData

def isBuiltInOrNative (id : DomainSubnetworkID) : Bool :=
  id == subnetworkIDNative || isBuiltIn id

def maxTransactionVersion : UInt16 := 0

/-- The fields of the validator that the checks in isolation read. -/
structure IsolationParams where
  maxCoinbasePayloadLength : UInt64
  mergeSetSizeLimit : UInt64
  coinbasePayloadScriptPublicKeyMaxLength : UInt8
  enableNonNativeSubnetworks : Bool
  isValidJSONObject : List UInt8 → UInt64 → Bool

/-! ## The checks -/

variable (tx : DomainTransaction)

def checkTransactionInputCount : Except Failure Unit :=
  if !isCoinBase tx && tx.inputs.length == 0 then
    .error (.ruleError .errNoTxInputs "transaction has no inputs")
  else
    .ok ()

/-- One round of `checkTransactionAmountRanges`. -/
def addOutputAmount (totalSompi : UInt64) (txOut : DomainTransactionOutput) :
    Except Failure UInt64 :=
  let sompi := txOut.value
  if sompi = 0 then
    .error (.ruleError .errTxOutValueZero "zero value outputs are forbidden")
  else if sompi > maxSey then
    .error (.ruleError .errBadTxOutValue ("transaction output value of " ++ toString sompi ++
      " is higher than max allowed value of " ++ toString maxSey))
  else
    let newTotalSompi := totalSompi+sompi
    if newTotalSompi < totalSompi then
      .error (.ruleError .errBadTxOutValue ("total value of all transaction outputs exceeds max " ++
        "allowed value of " ++ toString maxSey))
    else if newTotalSompi > maxSey then
      .error (.ruleError .errBadTxOutValue ("total value of all transaction outputs is " ++
        toString newTotalSompi ++ " which is higher than max allowed value of " ++
        toString maxSey))
    else
      .ok newTotalSompi

def checkTransactionAmountRanges : Except Failure Unit := do
  let _ ← tx.outputs.foldlM addOutputAmount 0

def checkDuplicateTransactionInputs : Except Failure Unit :=
  if (tx.inputs.map (·.previousOutpoint)).Nodup then
    .ok ()
  else
    .error (.ruleError .errDuplicateTxInputs "transaction contains duplicate inputs")

def checkGasInBuiltInOrNativeTransactions : Except Failure Unit :=
  if isBuiltInOrNative tx.subnetworkID && tx.gas > 0 then
    .error (.ruleError .errInvalidGas
      "transaction in the native or registry subnetworks has gas > 0 ")
  else
    .ok ()

def checkSubnetworkRegistryTransaction : Except Failure Unit :=
  if tx.subnetworkID ≠ subnetworkIDRegistry then
    .ok ()
  else if tx.payload.length ≠ 8 then
    .error (.ruleError .errSubnetworkRegistry
      "validation failed: subnetwork registry tx has an invalid payload")
  else
    .ok ()

def checkNativeTransactionPayload : Except Failure Unit :=
  if tx.subnetworkID = subnetworkIDNative ∧ tx.payload.length > 0 then
    .error (.ruleError .errInvalidPayload "transaction in the native subnetwork includes a payload")
  else
    .ok ()

def checkTransactionVersion : Except Failure Unit :=
  if tx.version > maxTransactionVersion then
    .error (.ruleError .errTransactionVersionIsUnknown
      "validation failed: unknown transaction version. ")
  else
    .ok ()

namespace IsolationParams
variable (params : IsolationParams)

section
variable (tx : DomainTransaction)

/-- A coinbase transaction has no inputs, and not too many outputs with short scripts. -/
def checkCoinbaseInIsolation : Except Failure Unit :=
  if !isCoinBase tx then
    .ok ()
  else if UInt64.ofNat tx.payload.length > params.maxCoinbasePayloadLength then
    .error (.ruleError .errBadCoinbasePayloadLen ("coinbase transaction payload length of " ++
      toString tx.payload.length ++ " is out of range (max: " ++
      toString params.maxCoinbasePayloadLength ++ ")"))
  else if tx.inputs.length ≠ 0 then
    .error (.ruleError .errCoinbaseWithInputs "coinbase has inputs")
  else if UInt64.ofNat tx.outputs.length > (params.mergeSetSizeLimit+2)*2 then
    .error (.ruleError .errCoinbaseTooManyOutputs ("coinbase has too many outputs: got " ++
      toString tx.outputs.length ++ " where the limit is " ++
      toString ((params.mergeSetSizeLimit+2)*2)))
  else if tx.outputs.any fun output => output.scriptPublicKey.script.length >
      params.coinbasePayloadScriptPublicKeyMaxLength.toNat then
    .error (.ruleError .errCoinbaseTooLongScriptPublicKey
      "coinbase output has a too long script public key")
  else
    .ok ()

def checkDataTransactionPayload (daaScore : UInt64) : Except Failure Unit :=
  if tx.subnetworkID ≠ subnetworkIDData ∨ tx.payload.length = 0 then
    .ok ()
  else if tx.payload.length > 10000 then
    .error (.ruleError .errTooLargePayload "data subnetwork transaction payload is too large")
  else if !params.isValidJSONObject tx.payload daaScore then
    .error (.ruleError .errInvalidPayload "data subnetwork transaction payload is not valid JSON")
  else
    .ok ()

/-- `checkTransactionSubnetwork` of a full node. -/
def checkTransactionSubnetwork (daaScore : UInt64) : Except Failure Unit :=
  if !params.enableNonNativeSubnetworks && tx.subnetworkID != subnetworkIDNative &&
      tx.subnetworkID != subnetworkIDCoinbase && tx.subnetworkID != subnetworkIDData then
    .error (.ruleError .errSubnetworksDisabled
      "transaction has non native or coinbase subnetwork ID")
  else if daaScore ≤ 89872005+2592000 ∧ tx.subnetworkID = subnetworkIDData then
    .error (.ruleError .errSubnetworksDisabled
      "transaction has non native or coinbase subnetwork ID")
  else
    .ok ()

def validateTransactionInIsolation (povDAAScore : UInt64) : Except Failure Unit := do
  checkTransactionInputCount tx
  checkTransactionAmountRanges tx
  checkDuplicateTransactionInputs tx
  params.checkCoinbaseInIsolation tx
  checkGasInBuiltInOrNativeTransactions tx
  checkSubnetworkRegistryTransaction tx
  params.checkDataTransactionPayload tx povDAAScore
  checkNativeTransactionPayload tx
  params.checkTransactionSubnetwork tx povDAAScore
  checkTransactionVersion tx

end
end IsolationParams

/-! ## Amounts -/

/-- The amount that a transaction creates. -/
def outputAmount (tx : DomainTransaction) : Nat :=
  (tx.outputs.map fun output => output.value.toNat).sum

variable {totalSompi after : UInt64} {tx : DomainTransaction}

lemma addOutputAmount_toNat {txOut : DomainTransactionOutput}
    (h : addOutputAmount totalSompi txOut = .ok after) :
    after.toNat = totalSompi.toNat+txOut.value.toNat ∧ after.toNat ≤ maxSey.toNat := by
  unfold addOutputAmount at h
  dsimp only at h
  split_ifs at h with hz hl hw hm
  cases h
  rw [UInt64.not_lt,UInt64.le_iff_toNat_le] at hw hm
  refine ⟨?_,hm⟩
  have hlt := txOut.value.toNat_lt
  rw [UInt64.toNat_add] at hw ⊢
  omega

lemma foldlM_addOutputAmount_toNat {outputs : List DomainTransactionOutput}
    (hle : totalSompi.toNat ≤ maxSey.toNat)
    (h : outputs.foldlM addOutputAmount totalSompi = .ok after) :
    after.toNat = totalSompi.toNat+(outputs.map fun output => output.value.toNat).sum ∧
      after.toNat ≤ maxSey.toNat := by
  revert hle
  refine foldlM_rec h (fun hle => ⟨by simp,hle⟩) fun output outputs totalSompi _ ht _ ih _ => ?_
  obtain ⟨_,hle'⟩ := addOutputAmount_toNat ht
  obtain ⟨_,hm⟩ := ih hle'
  rw [map_cons,sum_cons]
  exact ⟨by omega,hm⟩

lemma outputAmount_le
    (h : checkTransactionAmountRanges tx = .ok ()) : outputAmount tx ≤ maxSey.toNat := by
  obtain ⟨_,ht,-⟩ := bind_eq_ok h
  obtain ⟨hs,hle⟩ := foldlM_addOutputAmount_toNat (by decide) ht
  rw [UInt64.toNat_zero,Nat.zero_add] at hs
  rw [outputAmount,← hs]
  exact hle

/-- The sum of `checkTransactionOutputAmounts` has no overflow check of its own. The one
in isolation makes up for it. -/
lemma totalOutputAmount_toNat (h : checkTransactionAmountRanges tx = .ok ()) :
    (totalOutputAmount tx).toNat = outputAmount tx := by
  have hle := outputAmount_le h
  have hm : maxSey.toNat < 2^64 := maxSey.toNat_lt
  unfold outputAmount at hle ⊢
  unfold totalOutputAmount
  rw [toNat_foldl_add,UInt64.toNat_zero,Nat.zero_add,Nat.mod_eq_of_lt (by omega)]

/-! ## What a valid transaction satisfies -/

variable {params : IsolationParams} {povDAAScore : UInt64}

section
variable (h : params.validateTransactionInIsolation tx povDAAScore = .ok ())
include h

lemma inputs_eq_nil_of_valid (hcb : isCoinBase tx = true) : tx.inputs = [] := by
  obtain ⟨_,_,_,_,h⟩ := bind₂_eq_ok h
  obtain ⟨_,_,_,hch,_⟩ := bind₂_eq_ok h
  unfold IsolationParams.checkCoinbaseInIsolation at hch
  rw [hcb] at hch
  simp only [Bool.not_true,Bool.false_eq_true,if_false] at hch
  split_ifs at hch with hp hi
  exact eq_nil_of_length_eq_zero (not_not.1 hi)

end

/-- The DAA score only matters for data transactions. -/
lemma validateTransactionInIsolation_score (hd : tx.subnetworkID ≠ subnetworkIDData)
    (score : UInt64) :
    params.validateTransactionInIsolation tx povDAAScore =
      params.validateTransactionInIsolation tx score := by
  simp [IsolationParams.validateTransactionInIsolation,IsolationParams.checkDataTransactionPayload,
    IsolationParams.checkTransactionSubnetwork,ne_eq,hd,not_false_eq_true,true_or,
    and_false]

/-- The limits of the main network. -/
def IsolationParams.sample : IsolationParams where
  maxCoinbasePayloadLength := 204
  mergeSetSizeLimit := 180
  coinbasePayloadScriptPublicKeyMaxLength := 150
  enableNonNativeSubnetworks := false
  isValidJSONObject _ _ := true

/-! ## The fee of a valid transaction -/

/-- The fee of a transaction that is valid by itself and in context is what its inputs
bring in and its outputs do not spend. Neither sum wraps around. -/
lemma TransactionValidator.fee_exact {v : TransactionValidator} {arrival : Equiv.Perm (Fin 4)}
    {fee : UInt64} (hr : checkTransactionAmountRanges tx = .ok ())
    (h : v.validateTransactionInContextAndPopulateFee arrival tx povDAAScore = .ok fee) :
    fee.toNat+outputAmount tx = (tx.inputs.map inputAmount).sum := by
  obtain ⟨_,hin,hle,rfl,-⟩ := validateTransactionInContextAndPopulateFee_eq_ok h
  obtain ⟨_,hs,_,-,hin⟩ := bind₂_eq_ok hin
  cases hin
  have hs := foldlM_addInputAmount_toNat hs
  rw [UInt64.toNat_zero] at hs
  have ho := totalOutputAmount_toNat hr
  have hle' := UInt64.le_iff_toNat_le.mp hle
  rw [UInt64.toNat_sub_of_le _ _ hle]
  omega

end Eiyaro
