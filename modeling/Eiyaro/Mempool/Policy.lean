import Eiyaro.Mempool.State

/-!
# What the mempool accepts beyond consensus

The standard forms of `check_transaction_standard.go`, the rate limiter of
`compound_tx_rate_limiter.go`, the frozen wallets of `wallet_freezing_manager.go` and the
checks of `validate_transaction.go` that use them.
-/

namespace Eiyaro.Mempool

def maxStandardP2SHSigOps : Nat := 15

def maximumStandardSignatureScriptSize : Nat := 1650

def maximumStandardTransactionMass : UInt64 := 100000

def maxScriptPublicKeyVersion : UInt16 := 0

def seyPerEY : UInt64 := 100000000

variable (setup : MempoolSetup) (call : Call)

/-! ## Standard transactions -/

section
variable (output : DomainTransactionOutput)

def transactionOutputEstimatedSerializedSize : UInt64 :=
  8+2+8+UInt64.ofNat output.scriptPublicKey.script.length

def isTransactionOutputDust : Bool :=
  if setup.isUnspendable output.scriptPublicKey.script then
    true
  else
    let totalSerializedSize := transactionOutputEstimatedSerializedSize output+148
    output.value*1000 / (3*totalSerializedSize) < setup.config.minimumRelayTransactionFee

def checkStandardInput (input : DomainTransactionInput) (i : Nat) : Except MempoolFailure Unit :=
  let signatureScriptLen := input.signatureScript.length
  if signatureScriptLen > maximumStandardSignatureScriptSize then
    transactionRuleError .rejectNonstandard ("transaction input " ++ toString i ++
      ": signature script size of " ++ toString signatureScriptLen ++
      " bytes is larger than the maximum allowed size of " ++
      toString maximumStandardSignatureScriptSize ++ " bytes")
  else
    .ok ()

def checkStandardOutput (i : Nat) : Except MempoolFailure Unit :=
  if output.scriptPublicKey.version > maxScriptPublicKeyVersion then
    transactionRuleError .rejectNonstandard
      "The version of the scriptPublicKey is higher than the known version."
  else if (setup.parseScript output.scriptPublicKey.script).getD .nonStandardTy =
      .nonStandardTy then
    transactionRuleError .rejectNonstandard ("transaction output " ++ toString i ++
      ": non-standard script form")
  else if isTransactionOutputDust setup output then
    transactionRuleError .rejectDust ("transaction output " ++ toString i ++
      ": payment of " ++ toString output.value ++ " is dust")
  else
    .ok ()

end

variable (tx : TransactionObject)

def checkTransactionStandardInIsolation : Except MempoolFailure Unit := do
  if tx.version > setup.config.maximumStandardTransactionVersion ∨
      tx.version < setup.config.minimumStandardTransactionVersion then
    transactionRuleError .rejectNonstandard ("transaction version " ++ toString tx.version ++
      " is not in the valid range of " ++
      toString setup.config.minimumStandardTransactionVersion ++ "-" ++
      toString setup.config.maximumStandardTransactionVersion)
  else if tx.mass > maximumStandardTransactionMass then
    transactionRuleError .rejectNonstandard ("transaction mass of " ++ toString tx.mass ++
      " is larger than max allowed size of " ++ toString maximumStandardTransactionMass)
  else do
    tx.inputs.zipIdx.forM fun (input, i) => checkStandardInput input i
    tx.outputs.zipIdx.forM fun (output, i) => checkStandardOutput setup output i

def minimumRequiredTransactionRelayFee (mass : UInt64) : UInt64 :=
  let minimumFee := mass*setup.config.minimumRelayTransactionFee / 1000
  let minimumFee :=
    if minimumFee = 0 ∧ setup.config.minimumRelayTransactionFee > 0 then
      setup.config.minimumRelayTransactionFee
    else
      minimumFee
  if minimumFee > maxSey then maxSey else minimumFee

def checkStandardSpending (input : DomainTransactionInput) (i : Nat) : Except MempoolFailure Unit :=
  match input.utxoEntry with
  | none => .error (.other (.panic "invalid memory address or nil pointer dereference"))
  | some utxoEntry =>
    match setup.parseScript utxoEntry.scriptPublicKey.script with
    | none =>
      transactionRuleError .rejectNonstandard ("transaction input #" ++ toString i ++
        " has a non-standard script form")
    | some scriptClass =>
      let numSigOps :=
        setup.validator.getPreciseSigOpCount input.signatureScript utxoEntry.scriptPublicKey
      if scriptClass = .scriptHashTy ∧ numSigOps > maxStandardP2SHSigOps then
        transactionRuleError .rejectNonstandard ("transaction input #" ++ toString i ++ " has " ++
          toString numSigOps ++
          " signature operations which is more than the allowed max amount of " ++
          toString maxStandardP2SHSigOps)
      else
        .ok ()

def checkTransactionStandardInContext : Except MempoolFailure Unit := do
  tx.inputs.zipIdx.forM fun (input, i) => checkStandardSpending setup input i
  let minimumFee := minimumRequiredTransactionRelayFee setup tx.mass
  if tx.fee < minimumFee then
    transactionRuleError .rejectInsufficientFee ("transaction " ++
      hashString (setup.transactionID tx.toDomainTransaction) ++ " has " ++ toString tx.fee ++
      " fees which is under the required amount of " ++ toString minimumFee)
  else
    .ok ()

/-- What `validate_transaction.go` makes of an error of the checks above. -/
def notStandard (subject verb : String) (tx : TransactionObject) : MempoolFailure → MempoolFailure
  | .txRuleError rejectCode description =>
    .txRuleError rejectCode (subject ++ " " ++
      hashString (setup.transactionID tx.toDomainTransaction) ++ " " ++ verb ++
      " not standard: " ++ description)
  | failure => failure

/-! ## The rate limiter -/

def isCompoundTransaction : Bool :=
  setup.config.compoundTxRateLimitEnabled &&
    (decide (setup.config.compoundTxMinInputsThreshold.toNat ≤ tx.inputs.length) ||
      decide (tx.mass > maximumStandardTransactionMass / 2))

/-- The identifier of the sender that an entry belongs to. -/
def senderAddress (utxoEntry : UTXOEntry) : Option String :=
  match setup.extractAddress utxoEntry.scriptPublicKey with
  | some address => some address
  | none =>
    let fallbackID := setup.scriptPublicKeyIdentifier utxoEntry.scriptPublicKey
    if fallbackID = "" then none else some fallbackID

def extractSenderAddresses : List String :=
  ((tx.inputs.filterMap (·.utxoEntry)).filterMap (senderAddress setup)).dedup

/-- The minutes in nanoseconds, which are multiplied in 64 bits. -/
def checkedDurationFromUint64Minutes (value : UInt64) : Except String Int :=
  if value.toNat < 2^63 then
    .ok ((value.toNat*(60*10^9) : Int).bmod (2^64))
  else
    .error "value out of range"

/-- Drops the submissions before the first one that is within the window. -/
def cleanupOldSubmissions (submissions : List CompoundTxSubmission) :
    Except MempoolFailure (List CompoundTxSubmission) :=
  match checkedDurationFromUint64Minutes setup.config.compoundTxRateLimitWindowMinutes with
  | .error message => .error (.other (.panic message))
  | .ok windowDuration =>
    let cutoff := call.now+(-windowDuration).bmod (2^64)
    .ok (submissions.dropWhile fun submission => decide (submission.timestamp ≤ cutoff))

/-- The submissions of an address after `getOrCreateTracker` and `cleanupOldSubmissions`. -/
def currentSubmissions (address : String) : MempoolM (List CompoundTxSubmission) := do
  let mp ← get
  let submissions := (mp.addressTracker.get address).getD []
  set { mp with addressTracker := mp.addressTracker.insert address submissions }
  let submissions ← MonadExcept.ofExcept (cleanupOldSubmissions setup call submissions)
  set { mp with addressTracker := mp.addressTracker.insert address submissions }
  return submissions

def checkRateLimit (address : String) : MempoolM Bool := do
  let submissions ← currentSubmissions setup call address
  return decide (submissions.length < setup.config.maxCompoundTxPerAddressPerMinute.toNat)

def isRateLimited : MempoolM (List String) := do
  if isCompoundTransaction setup tx then
    (extractSenderAddresses setup tx).foldlM (fun rateLimitedAddresses address => do
      let allowed ← checkRateLimit setup call address
      return if allowed then rateLimitedAddresses else rateLimitedAddresses ++ [address]) []
  else
    return []

/-- `recordTransactionAt`, of which `recordTransaction` is the case `ts = now`. -/
def recordTransactionAt (ts : Int) : MempoolM Unit :=
  if isCompoundTransaction setup tx then
    let txID := hashString (setup.transactionID tx.toDomainTransaction)
    (extractSenderAddresses setup tx).forM fun address => do
      let submissions ← currentSubmissions setup call address
      let submissions :=
        if submissions.any (·.txID = txID) then submissions else submissions ++ [⟨ts,txID⟩]
      modify fun mp => { mp with addressTracker := mp.addressTracker.insert address submissions }
  else
    return

def recordTransaction : MempoolM Unit :=
  recordTransactionAt setup call tx call.now

/-! ## Frozen wallets -/

def extractAddressesFromTransaction : List String :=
  ((tx.inputs.filterMap (·.utxoEntry)).filterMap (fun entry =>
      setup.extractAddress entry.scriptPublicKey) ++
    tx.outputs.filterMap fun output => setup.extractAddress output.scriptPublicKey).dedup

variable (mp : Mempool)

/-- The frozen addresses of a transaction. -/
def isWalletFrozen (tx : TransactionObject) : List String :=
  if setup.config.walletFreezingEnabled then
    (extractAddressesFromTransaction setup tx).filter (· ∈ mp.frozenWallets)
  else
    []

def freezeWallet (address : String) : MempoolM Unit :=
  modify fun mp => { mp with frozenWallets := insert address mp.frozenWallets }

def unfreezeWallet (address : String) : MempoolM Unit :=
  modify fun mp => { mp with frozenWallets := mp.frozenWallets.erase address }

/-! ## Validation -/

def validateTransactionInIsolation (tx : TransactionObject) : Except MempoolFailure Unit :=
  let transactionID := setup.transactionID tx.toDomainTransaction
  if (mp.allTransactions.get transactionID).isSome then
    transactionRuleError .rejectDuplicate ("transaction " ++ hashString transactionID ++
      " is already in the mempool")
  else if setup.config.acceptNonStandard then
    .ok ()
  else
    (checkTransactionStandardInIsolation setup tx).mapError
      (notStandard setup "transaction" "is" tx)

/-- Whether an input spends a coinbase output. The loop stops there, and a missing entry
before it is a nil pointer. -/
def hasCoinbaseInput : List DomainTransactionInput → Except MempoolFailure Bool
  | [] => .ok false
  | input :: inputs =>
    match input.utxoEntry with
    | none => .error (.other (.panic "invalid memory address or nil pointer dereference"))
    | some utxoEntry => if utxoEntry.isCoinbase then .ok true else hasCoinbaseInput inputs

lemma hasCoinbaseInput_eq {inputs : List DomainTransactionInput}
    (h : ∀ input ∈ inputs, input.utxoEntry.isSome) :
    hasCoinbaseInput inputs = .ok (inputs.any fun input => input.utxoEntry.any (·.isCoinbase)) := by
  induction inputs with
  | nil => rfl
  | cons input inputs ih =>
    rw [List.forall_mem_cons] at h
    obtain ⟨entry,he⟩ := Option.isSome_iff_exists.1 h.1
    rw [hasCoinbaseInput,List.any_cons,he]
    by_cases hcb : entry.isCoinbase = true
    · simp [hcb]
    · simp [hcb,ih h.2]

def validateTransactionInContext : MempoolM Unit := do
  let hasCoinbaseInput ← MonadExcept.ofExcept (hasCoinbaseInput tx.inputs)
  let mp ← get
  let frozenAddresses := isWalletFrozen setup mp tx
  if frozenAddresses ≠ [] then
    MonadExcept.ofExcept (transactionRuleError .rejectFreezedWallet
      ("Transaction rejected from frozen wallet addresses: " ++ sliceString frozenAddresses))
  else do
    let rateLimitedAddresses ← isRateLimited setup call tx
    if rateLimitedAddresses ≠ [] then
      MonadExcept.ofExcept (transactionRuleError .rejectRateLimit
        ("Compound transaction rate limit exceeded for addresses: " ++
          sliceString rateLimitedAddresses))
    else
      let numExtraOuts : Int := tx.outputs.length - tx.inputs.length
      if !hasCoinbaseInput && decide (numExtraOuts > 2) &&
          decide (tx.fee < UInt64.ofNat numExtraOuts.toNat*seyPerEY) then
        MonadExcept.ofExcept (transactionRuleError .rejectSpamTx ("Rejected spam tx " ++
          hashString (setup.transactionID tx.toDomainTransaction) ++ " from mempool"))
      else if setup.config.acceptNonStandard then
        return
      else
        MonadExcept.ofExcept ((checkTransactionStandardInContext setup tx).mapError
          (notStandard setup "transaction inputs" "are" tx))

end Eiyaro.Mempool
