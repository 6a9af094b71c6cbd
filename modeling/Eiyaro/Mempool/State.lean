import Eiyaro.Consensus.Env
import Eiyaro.Transaction.InIsolation
import Eiyaro.Util.WeakestPre

/-!
# The state of the mempool

`domain/miningmanager/mempool`. A transaction that was handed to the mempool is one object
that several maps point to, and the populated entries of its inputs change over time. The
objects are therefore kept in a table of their own, and the maps hold positions of it.

The functions of other packages are fields of `MempoolSetup`, and what a call reads of
consensus and of the clock is in `Call`. An error leaves all changes that were made before it
in place, so that a computation returns the state also where it fails.
-/

namespace Eiyaro

inductive RejectCode
  | rejectMalformed
  | rejectInvalid
  | rejectObsolete
  | rejectDuplicate
  | rejectNotRequested
  | rejectNonstandard
  | rejectDust
  | rejectInsufficientFee
  | rejectFinality
  | rejectDifficulty
  | rejectImmatureSpend
  | rejectBadOrphan
  | rejectSpamTx
  | rejectFreezedWallet
  | rejectRateLimit
deriving DecidableEq

/-- An error of the mempool. The first two are its `RuleError`, around a `TxRuleError` or
around an error of consensus. -/
inductive MempoolFailure
  | txRuleError (rejectCode : RejectCode) (description : String)
  | ruleError (failure : Failure)
  | other (failure : Failure)
deriving DecidableEq

namespace MempoolFailure

def isRuleError : MempoolFailure → Bool
  | txRuleError _ _ => true
  | ruleError _ => true
  | other _ => false

/-- The process ends. -/
def isPanic : MempoolFailure → Bool
  | other (.panic _) => true
  | _ => false

end MempoolFailure

/-! ## Objects -/

/-- A `DomainTransaction` with the values that are cached in it. -/
structure TransactionObject extends DomainTransaction where
  fee : UInt64
  mass : UInt64

/-- The position of a `TransactionObject` in the table of the mempool. -/
abbrev Pointer := Nat

structure MempoolTransaction where
  transaction : Pointer
  isHighPriority : Bool
  addedAtDAAScore : UInt64
deriving DecidableEq

structure OrphanTransaction where
  transaction : Pointer
  isHighPriority : Bool
  addedAtDAAScore : UInt64
  /-- In nanoseconds. -/
  addedAtTime : Int
deriving DecidableEq

structure CompoundTxSubmission where
  timestamp : Int
  txID : String
deriving DecidableEq

abbrev IDToTransactionMap := FinMap DomainTransactionID MempoolTransaction

structure Mempool where
  objects : Pointer → TransactionObject
  nextPointer : Pointer
  /-- Of `transactionsPool`. -/
  allTransactions : IDToTransactionMap
  highPriorityTransactions : IDToTransactionMap
  chainedTransactionsByParentID : FinMap DomainTransactionID (List MempoolTransaction)
  transactionsOrderedByFeeRate : List MempoolTransaction
  lastExpireScanDAAScore : UInt64
  lastExpireScanTime : Int
  /-- The field of a `MempoolTransaction` that changes. It is found at the pointer of its
  transaction, since no transaction object is wrapped twice. -/
  parentTransactionsInPool : Pointer → List (DomainTransactionID × MempoolTransaction)
  /-- Of `mempoolUTXOSet`. The stored entry can be nil. -/
  poolUnspentOutputs : FinMap DomainOutpoint (Option UTXOEntry)
  transactionByPreviousOutpoint : FinMap DomainOutpoint MempoolTransaction
  /-- Of `orphansPool`. -/
  allOrphans : FinMap DomainTransactionID OrphanTransaction
  orphansByPreviousOutpoint : FinMap DomainOutpoint OrphanTransaction
  lastExpireScan : UInt64
  /-- Of `compoundTxRateLimiter`. -/
  addressTracker : FinMap String (List CompoundTxSubmission)
  /-- Of `walletFreezingManager`. -/
  frozenWallets : Finset String

/-! ## Surroundings -/

inductive ScriptClass
  | nonStandardTy
  | pubKeyTy
  | pubKeyECDSATy
  | pubKeyHashTy
  | pubKeyHashECDSATy
  | scriptHashTy
deriving DecidableEq

structure MempoolConfig where
  maximumTransactionCount : UInt64
  transactionExpireIntervalDAAScore : UInt64
  transactionExpireScanIntervalDAAScore : UInt64
  transactionExpireScanIntervalSeconds : UInt64
  orphanExpireIntervalDAAScore : UInt64
  orphanExpireScanIntervalDAAScore : UInt64
  maximumOrphanTransactionMass : UInt64
  maximumOrphanTransactionCount : UInt64
  acceptNonStandard : Bool
  minimumRelayTransactionFee : UInt64
  minimumStandardTransactionVersion : UInt16
  maximumStandardTransactionVersion : UInt16
  compoundTxRateLimitEnabled : Bool
  maxCompoundTxPerAddressPerMinute : UInt64
  compoundTxRateLimitWindowMinutes : UInt64
  compoundTxMinInputsThreshold : UInt64
  walletFreezingEnabled : Bool
  frozenAddresses : List String

/-- The configuration, and what other packages compute. -/
structure MempoolSetup where
  config : MempoolConfig
  isolation : IsolationParams
  validator : TransactionValidator
  transactionID : DomainTransaction → DomainTransactionID
  transactionID_unpopulated : ∀ tx, transactionID tx.unpopulated = transactionID tx
  calculateTransactionMass : DomainTransaction → UInt64
  /-- The quotient of fee and mass, with whatever rounding `float64` has. -/
  feeRate : UInt64 → UInt64 → ℚ
  /-- The class of a script, unless it does not parse. -/
  parseScript : List UInt8 → Option ScriptClass
  isUnspendable : List UInt8 → Bool
  /-- The address that `ExtractScriptPubKeyAddress` finds, encoded. -/
  extractAddress : ScriptPublicKey → Option String
  scriptPublicKeyIdentifier : ScriptPublicKey → String

/-- What one call reads of its surroundings. -/
structure Call where
  /-- The UTXO set of virtual. -/
  utxoSet : FinMap DomainOutpoint UTXOEntry
  virtualDAAScore : UInt64
  isFinalizedTransaction : DomainTransaction → Bool
  /-- In which order the concurrent checks of a transaction end. -/
  arrival : Equiv.Perm (Fin 4)
  now : Int
  /-- In which order the loops over maps come to the keys. -/
  order : List DomainTransactionID

abbrev MempoolM := EStateM MempoolFailure Mempool

namespace Mempool

def transactionRuleError {α : Type} (rejectCode : RejectCode) (description : String) :
    Except MempoolFailure α :=
  .error (.txRuleError rejectCode description)

def error {α : Type} (message : String) : MempoolM α :=
  throw (.other (.error message))

def panic {α : Type} (message : String) : MempoolM α :=
  throw (.other (.panic message))

/-- The transaction of a pointer, for a computation. -/
def object (pointer : Pointer) : MempoolM TransactionObject := do
  let mp ← get
  return mp.objects pointer

def writeObject (pointer : Pointer) (tx : TransactionObject) : MempoolM Unit :=
  modify fun mp =>
    { mp with objects := fun p => if p = pointer then tx else mp.objects p }

/-- A transaction that comes from outside of the mempool. -/
def newObject (tx : TransactionObject) : MempoolM Pointer := do
  let mp ← get
  set { mp with
    objects := fun p => if p = mp.nextPointer then tx else mp.objects p
    nextPointer := mp.nextPointer+1 }
  return mp.nextPointer

/-! ## Texts -/

/-- `DomainHash.String`, the 32 bytes in hexadecimal digits. -/
def hashString (hash : DomainHash) : String :=
  String.ofList ((List.range 64).reverse.map fun i => Nat.digitChar (hash.val / 16^i % 16))

def outpointString (outpoint : DomainOutpoint) : String :=
  "(" ++ hashString outpoint.transactionID ++ ": " ++ toString outpoint.index ++ ")"

/-- A slice of strings, as `%v` prints it. -/
def sliceString (strings : List String) : String :=
  "[" ++ String.intercalate " " strings ++ "]"

/-! ## Outpoints -/

/-- The outpoints of the first `n` outputs. `checkedOutpointIndex` panics on an index that is
not a `uint32`. -/
def checkedOutpoints (id : DomainTransactionID) (n : Nat) :
    Except MempoolFailure (List DomainOutpoint) :=
  if n ≤ 2^32 then
    .ok ((List.range n).map fun i => ⟨id,UInt32.ofNat i⟩)
  else
    .error (.other (.panic "strconv.ParseUint: value out of range"))

end Mempool

def DomainTransaction.previousOutpoints (tx : DomainTransaction) : List DomainOutpoint :=
  tx.inputs.map (·.previousOutpoint)

end Eiyaro
