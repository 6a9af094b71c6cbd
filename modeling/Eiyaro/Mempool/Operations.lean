import Eiyaro.Mempool.Pool
import Eiyaro.Util.Run

/-!
# The operations of the mempool

`fill_inputs_and_get_missing_parents.go`, `validate_and_insert_transaction.go`,
`validate_and_insert_transaction_replacement.go`, `handle_new_block_transactions.go`,
`revalidate_high_priority_transactions.go`, the part of `orphan_pool.go` that accepts
orphans, and the exported methods of `mempool.go`.
-/

namespace Eiyaro.Mempool
open MonadExcept
variable (setup : MempoolSetup) (call : Call)

/-! ## Consensus -/

/-- An error of consensus that no one has looked at yet. -/
def ofConsensus {α : Type} (x : Except Failure α) : MempoolM α :=
  ofExcept (x.mapError .other)

/-- `PopulateTransactionWithUTXOEntries`, which skips the inputs that have an entry. -/
def populate (tx : TransactionObject) : TransactionObject :=
  { tx with
    inputs := tx.inputs.map fun input =>
      match input.utxoEntry with
      | some _ => input
      | none => { input with utxoEntry := call.utxoSet.get input.previousOutpoint } }

def validateTransactionAndPopulateWithConsensusData (pointer : Pointer) : MempoolM Unit := do
  let tx ← object pointer
  ofConsensus (setup.isolation.validateTransactionInIsolation tx.toDomainTransaction
    call.virtualDAAScore)
  let tx := populate call tx
  writeObject pointer tx
  ofConsensus (checkMissingOutpoints tx.toDomainTransaction)
  if call.isFinalizedTransaction tx.toDomainTransaction then do
    let fee ← ofConsensus (setup.validator.validateTransactionInContextAndPopulateFee call.arrival
      tx.toDomainTransaction call.virtualDAAScore)
    writeObject pointer { tx with fee := fee }
  else
    throw (.other (.ruleError .errUnfinalizedTx "unfinalized transaction"))

/-- What the mempool returns for an error of consensus. -/
def translateConsensusFailure : MempoolFailure → MempoolFailure
  | .other (.ruleError .errImmatureSpend _) =>
    .txRuleError .rejectImmatureSpend "one of the transaction inputs spends an immature UTXO"
  | .other (.ruleError error message) => .ruleError (.ruleError error message)
  | failure => failure

/-! ## Inputs from the pool -/

variable (mp : Mempool)

section
variable (tx : DomainTransaction) (pointer : Pointer)
  (parentsInPool : List (DomainTransactionID × MempoolTransaction))

/-- The input with the entry of the output that a parent in the pool has for it. -/
def fillInput (input : DomainTransactionInput) : Except MempoolFailure DomainTransactionInput :=
  match parentsInPool.lookup input.previousOutpoint.transactionID with
  | none => .ok input
  | some parent =>
    match (mp.objects parent.transaction).outputs[input.previousOutpoint.index.toNat]? with
    | none => .error (.other (.panic "index out of range"))
    | some relevantOutput => .ok { input with utxoEntry := some (unacceptedEntry relevantOutput) }

def fillInputs : MempoolM Unit := do
  let mp ← get
  let tx := mp.objects pointer
  let inputs ← ofExcept (tx.inputs.mapM (fillInput mp parentsInPool))
  writeObject pointer { tx with inputs := inputs }

/-- The parents in the pool and the outpoints that are found nowhere. -/
def fillInputsAndGetMissingParents :
    MempoolM (List (DomainTransactionID × MempoolTransaction) × List DomainOutpoint) := do
  let mp ← get
  let parentsInPool :=
    getParentTransactionsInPool setup mp (mp.objects pointer).toDomainTransaction
  fillInputs pointer parentsInPool
  match ← EStateM.attempt (validateTransactionAndPopulateWithConsensusData setup call pointer) with
  | .ok () => return (parentsInPool, [])
  | .error (.other (.ruleError .errMissingTxOut _)) => do
    let tx ← object pointer
    return (parentsInPool, missingOutpoints tx.toDomainTransaction)
  | .error failure => throw (translateConsensusFailure failure)

/-! ## Accepting orphans -/

def unorphanTransaction (orphan : OrphanTransaction) : MempoolM Unit := do
  let mp ← get
  removeOrphan setup (idAt setup mp orphan.transaction) false
  match ← EStateM.attempt
      (validateTransactionAndPopulateWithConsensusData setup call orphan.transaction) with
  | .error failure => throw (translateConsensusFailure failure)
  | .ok () => do
    let tx ← object orphan.transaction
    validateTransactionInContext setup call tx
    let mp ← get
    let transaction ← newMempoolTransaction call orphan.transaction
      (getParentTransactionsInPool setup mp tx.toDomainTransaction) false
    addMempoolTransaction setup transaction
    recordTransactionAt setup call tx orphan.addedAtTime

/-- Sets the entry of the first input that spends an outpoint and has none. -/
def fillFirst (outpoint : DomainOutpoint) (utxoEntry : UTXOEntry) :
    List DomainTransactionInput → List DomainTransactionInput
  | [] => []
  | input :: inputs =>
    if input.previousOutpoint = outpoint ∧ input.utxoEntry = none then
      { input with utxoEntry := some utxoEntry } :: inputs
    else
      input :: fillFirst outpoint utxoEntry inputs

/-- The body of the loop over the outputs of an accepted transaction. -/
def processOutput (acceptedOrphans : List TransactionObject)
    (created : DomainOutpoint × DomainTransactionOutput) : MempoolM (List TransactionObject) := do
  let mp ← get
  match mp.orphansByPreviousOutpoint.get created.1 with
  | none => return acceptedOrphans
  | some orphan => do
    let tx := mp.objects orphan.transaction
    let tx := { tx with
      inputs := fillFirst created.1 (unacceptedEntry created.2) tx.inputs }
    writeObject orphan.transaction tx
    if countUnfilledInputs tx = 0 then
      match ← EStateM.attempt (unorphanTransaction setup call orphan) with
      | .ok () => do
        let tx ← object orphan.transaction
        return acceptedOrphans ++ [tx]
      | .error failure =>
        if failure.isRuleError then return acceptedOrphans else throw failure
    else
      return acceptedOrphans

/-- The queue of accepted transactions never gets a second element. -/
def processOrphansAfterAcceptedTransaction (accepted : DomainTransaction) :
    MempoolM (List TransactionObject) := do
  let outpoints ← ofExcept (checkedOutpoints (setup.transactionID accepted) accepted.outputs.length)
  (outpoints.zip accepted.outputs).foldlM (processOutput setup call) []

/-! ## Submitting a transaction -/

def populateMass : MempoolM Unit := do
  let tx ← object pointer
  if tx.mass ≠ 0 then
    return
  else
    writeObject pointer { tx with mass := setup.calculateTransactionMass tx.toDomainTransaction }

def validateTransactionPreUTXOEntry (tx : TransactionObject) : Except MempoolFailure Unit := do
  validateTransactionInIsolation setup mp tx
  checkDoubleSpends setup mp tx

/-- What follows once a transaction may enter the pool. -/
def insertTransaction (isHighPriority : Bool) : MempoolM (List TransactionObject) := do
  let transaction ← newMempoolTransaction call pointer parentsInPool isHighPriority
  addMempoolTransaction setup transaction
  let tx ← object pointer
  recordTransaction setup call tx
  let acceptedOrphans ← processOrphansAfterAcceptedTransaction setup call tx.toDomainTransaction
  let tx ← object pointer
  limitTransactionCount setup
  return tx :: acceptedOrphans

def validateAndInsertTransaction (isHighPriority allowOrphan : Bool) :
    MempoolM (List TransactionObject) := do
  populateMass setup pointer
  let mp ← get
  ofExcept (validateTransactionPreUTXOEntry setup mp (mp.objects pointer))
  let (parentsInPool, missingOutpoints) ← fillInputsAndGetMissingParents setup call pointer
  if missingOutpoints ≠ [] then
    if !allowOrphan then do
      let mp ← get
      ofExcept (transactionRuleError .rejectBadOrphan ("Transaction " ++
        hashString (idAt setup mp pointer) ++ " is an orphan, where allowOrphan = false"))
    else do
      maybeAddOrphan setup call pointer isHighPriority
      return []
  else do
    let tx ← object pointer
    validateTransactionInContext setup call tx
    insertTransaction setup call pointer parentsInPool isHighPriority

/-! ## Replacing transactions -/

/-- The transactions of the pool that spend an outpoint of the new one, by ascending IDs. -/
def mempoolConflicts : List MempoolTransaction :=
  let found := tx.inputs.filterMap fun input =>
    mp.transactionByPreviousOutpoint.get input.previousOutpoint
  let distinct := found.foldl (fun conflicts existing =>
    if conflicts.any fun conflict =>
        idAt setup mp conflict.transaction = idAt setup mp existing.transaction then
      conflicts
    else
      conflicts ++ [existing]) []
  distinct.insertionSort fun a b => idAt setup mp a.transaction ≤ idAt setup mp b.transaction

/-- The fees and the masses of different transactions. -/
def removalTotals (removed : List MempoolTransaction) : UInt64 × UInt64 :=
  let distinct := (removed.map fun transaction => idAt setup mp transaction.transaction).dedup
  distinct.foldl (fun totals id =>
    match removed.find? fun transaction => idAt setup mp transaction.transaction = id with
    | none => totals
    | some transaction =>
      (totals.1+(mp.objects transaction.transaction).fee,
        totals.2+(mp.objects transaction.transaction).mass)) (0, 0)

def replacementRemovalTotals (conflicts : List MempoolTransaction) :
    Except MempoolFailure (UInt64 × UInt64) := do
  let removed ← conflicts.mapM fun conflict => do
    let redeemers ← getRedeemers setup mp conflict
    return conflict :: redeemers
  return removalTotals setup mp removed.flatten

/-- The replacement has to pay more than what it evicts, and at a higher rate. -/
def checkReplacementPolicy (totalRemovedFee totalRemovedMass : UInt64) :
    Except MempoolFailure Unit :=
  let tx := mp.objects pointer
  let txID := hashString (idAt setup mp pointer)
  if tx.fee ≤ totalRemovedFee then
    transactionRuleError .rejectInsufficientFee ("replacement transaction " ++ txID ++
      " fee (" ++ toString tx.fee ++ ") is not higher than evicted transactions fee (" ++
      toString totalRemovedFee ++ ")")
  else if tx.mass = 0 ∨ totalRemovedMass = 0 then
    transactionRuleError .rejectInvalid "replacement fee-rate calculation expects populated mass"
  else if setup.feeRate tx.fee tx.mass ≤ setup.feeRate totalRemovedFee totalRemovedMass then
    transactionRuleError .rejectInsufficientFee ("replacement transaction " ++ txID ++
      " fee rate is not higher than evicted transactions fee rate")
  else
    .ok ()

/-- The accepted transactions and the replaced one. -/
def validateAndInsertTransactionReplacement (isHighPriority : Bool) :
    MempoolM (List TransactionObject × Option TransactionObject) := do
  populateMass setup pointer
  let mp ← get
  ofExcept (validateTransactionInIsolation setup mp (mp.objects pointer))
  let conflicts := mempoolConflicts setup mp (mp.objects pointer).toDomainTransaction
  match conflicts with
  | [] => do
    let accepted ← validateAndInsertTransaction setup call pointer isHighPriority false
    return (accepted, none)
  | conflict :: _ => do
    let (_, missingOutpoints) ← fillInputsAndGetMissingParents setup call pointer
    if missingOutpoints ≠ [] then do
      let mp ← get
      ofExcept (transactionRuleError .rejectBadOrphan ("Transaction " ++
        hashString (idAt setup mp pointer) ++
        " is an orphan, but replacement submission does not allow orphans"))
    else do
      let tx ← object pointer
      validateTransactionInContext setup call tx
      let mp ← get
      let (totalRemovedFee, totalRemovedMass) ← ofExcept
        (replacementRemovalTotals setup mp conflicts)
      ofExcept (checkReplacementPolicy setup mp pointer totalRemovedFee totalRemovedMass)
      let replaced ← object conflict.transaction
      conflicts.forM fun conflict => do
        let mp ← get
        removeTransaction setup (idAt setup mp conflict.transaction) true
      let mp ← get
      let accepted ← insertTransaction setup call pointer
        (getParentTransactionsInPool setup mp (mp.objects pointer).toDomainTransaction)
        isHighPriority
      return (accepted, some replaced)

/-! ## New blocks -/

def removeDoubleSpends : MempoolM Unit :=
  tx.inputs.forM fun input => do
    let mp ← get
    match mp.transactionByPreviousOutpoint.get input.previousOutpoint with
    | none => return
    | some redeemer => removeTransaction setup (idAt setup mp redeemer.transaction) true

/-- The body of the loop over the transactions of a block. -/
def handleBlockTransaction (acceptedOrphans : List TransactionObject) (tx : DomainTransaction) :
    MempoolM (List TransactionObject) := do
  let transactionID := setup.transactionID tx
  removeTransaction setup transactionID false
  removeDoubleSpends setup tx
  removeOrphan setup transactionID false
  let acceptedFromThis ← processOrphansAfterAcceptedTransaction setup call tx
  return acceptedOrphans ++ acceptedFromThis

def handleNewBlockTransactions (blockTransactions : List DomainTransaction) :
    MempoolM (List TransactionObject) := do
  match blockTransactions with
  | [] => panic "slice bounds out of range"
  | _ :: blockTransactions => do
    let acceptedOrphans ← blockTransactions.foldlM (handleBlockTransaction setup call) []
    expireOrphanTransactions setup call
    expireOldTransactions setup call
    return acceptedOrphans

/-! ## Revalidation -/

def clearInputs : MempoolM Unit := do
  let tx ← object pointer
  writeObject pointer
    { tx with inputs := tx.inputs.map fun input => { input with utxoEntry := none } }

end

def revalidateTransaction (transaction : MempoolTransaction) : MempoolM Bool := do
  clearInputs transaction.transaction
  let (_, missingParents) ← fillInputsAndGetMissingParents setup call transaction.transaction
  if missingParents ≠ [] then do
    let mp ← get
    removeTransaction setup (idAt setup mp transaction.transaction) false
    return false
  else
    return true

structure TxNode where
  children : List DomainTransactionID
  nonVisitedParents : Int
  tx : MempoolTransaction
  visited : Bool

abbrev TxDAG := FinMap DomainTransactionID TxNode

/-- The IDs of the parents of high priority, each once. -/
def highPriorityParents (transaction : MempoolTransaction) : List DomainTransactionID :=
  (((mp.objects transaction.transaction).inputs.map (·.previousOutpoint.transactionID)).filter
    fun id => (mp.highPriorityTransactions.get id).isSome).dedup

/-- The transactions of high priority and their children among them. -/
def buildTxDAG : TxDAG :=
  let ids := call.order.filter fun id => (mp.highPriorityTransactions.get id).isSome
  ids.foldl (fun dag id =>
    match mp.highPriorityTransactions.get id with
    | none => dag
    | some transaction =>
      dag.insert id {
        children := ids.filter fun child =>
          match mp.highPriorityTransactions.get child with
          | none => false
          | some childTransaction => id ∈ highPriorityParents mp childTransaction
        nonVisitedParents := (highPriorityParents mp transaction).length
        tx := transaction
        visited := false }) ∅

/-- One parent of the child less is to be visited. -/
def visitChild (visit : TxDAG × List DomainTransactionID) (child : DomainTransactionID) :
    TxDAG × List DomainTransactionID :=
  match visit.1.get child with
  | none => visit
  | some childNode =>
    let nonVisitedParents := childNode.nonVisitedParents - 1
    (visit.1.insert child { childNode with nonVisitedParents := nonVisitedParents },
      if nonVisitedParents = 0 then visit.2 ++ [child] else visit.2)

/-- The breadth-first search, which puts every node into the queue at most once. -/
def revalidateLoop : Nat → TxDAG → List DomainTransactionID → List TransactionObject →
    MempoolM (List TransactionObject)
  | _, _, [], validTransactions => return validTransactions
  | 0, _, _ :: _, _ => panic "revalidateHighPriorityTransactions does not end"
  | fuel+1, dag, id :: queue, validTransactions => do
    match dag.get id with
    | none => panic "invalid memory address or nil pointer dereference"
    | some node =>
      if node.visited then
        revalidateLoop fuel dag queue validTransactions
      else do
        let isValid ← revalidateTransaction setup call node.tx
        let (dag, queue) :=
          node.children.foldl visitChild (dag.insert id { node with visited := true }, queue)
        let tx ← object node.tx.transaction
        revalidateLoop fuel dag queue
          (if isValid then validTransactions ++ [tx] else validTransactions)

def revalidateHighPriorityTransactions : MempoolM (List TransactionObject) := do
  let mp ← get
  let dag := buildTxDAG call mp
  let queue := call.order.filter fun id =>
    match dag.get id with
    | none => false
    | some node => decide (node.nonVisitedParents = 0)
  revalidateLoop setup call (call.order.length+dag.keys.card+1) dag queue []

/-! ## The exported methods -/

def removeInvalidTransactions (invalidTransactions : List (DomainTransaction × Failure)) :
    MempoolM Unit :=
  invalidTransactions.forM fun (tx, failure) =>
    let removeRedeemers :=
      match failure with
      | .ruleError .errMissingTxOut _ => false
      | _ => true
    removeTransaction setup (setup.transactionID tx) removeRedeemers

inductive Operation
  | validateAndInsertTransaction (tx : TransactionObject) (isHighPriority allowOrphan : Bool)
  | validateAndInsertTransactionReplacement (tx : TransactionObject) (isHighPriority : Bool)
  | handleNewBlockTransactions (transactions : List DomainTransaction)
  | revalidateHighPriorityTransactions
  | removeInvalidTransactions (invalidTransactions : List (DomainTransaction × Failure))
  | removeTransaction (id : DomainTransactionID) (removeRedeemers : Bool)
  | freezeWallet (address : String)
  | unfreezeWallet (address : String)

/-- An operation, up to its result. -/
def perform : Operation → MempoolM Unit
  | .validateAndInsertTransaction tx isHighPriority allowOrphan => do
    let pointer ← newObject tx
    let _ ← validateAndInsertTransaction setup call pointer isHighPriority allowOrphan
  | .validateAndInsertTransactionReplacement tx isHighPriority => do
    let pointer ← newObject tx
    let _ ← validateAndInsertTransactionReplacement setup call pointer isHighPriority
  | .handleNewBlockTransactions transactions => do
    let _ ← handleNewBlockTransactions setup call transactions
  | .revalidateHighPriorityTransactions => do
    let _ ← revalidateHighPriorityTransactions setup call
  | .removeInvalidTransactions invalidTransactions =>
    removeInvalidTransactions setup invalidTransactions
  | .removeTransaction id removeRedeemers => removeTransaction setup id removeRedeemers
  | .freezeWallet address => freezeWallet address
  | .unfreezeWallet address => unfreezeWallet address

/-- The state after an operation that returned, with or without an error. -/
def step (action : Call × Operation) : Option Mempool :=
  match perform setup action.1 action.2 mp with
  | .ok _ mp' => some mp'
  | .error failure mp' => if failure.isPanic then none else some mp'

/-- `New`. -/
def new (now : Int) : Mempool where
  objects := fun _ => ⟨⟨0,[],[],0,0,0,[]⟩,0,0⟩
  nextPointer := 0
  allTransactions := ∅
  highPriorityTransactions := ∅
  chainedTransactionsByParentID := ∅
  transactionsOrderedByFeeRate := []
  lastExpireScanDAAScore := 0
  lastExpireScanTime := now
  parentTransactionsInPool := fun _ => []
  poolUnspentOutputs := ∅
  transactionByPreviousOutpoint := ∅
  allOrphans := ∅
  orphansByPreviousOutpoint := ∅
  lastExpireScan := 0
  addressTracker := ∅
  frozenWallets := setup.config.frozenAddresses.toFinset

/-! ## A setup for concrete runs -/

def sampleConfig : MempoolConfig where
  maximumTransactionCount := 1000
  transactionExpireIntervalDAAScore := 60
  transactionExpireScanIntervalDAAScore := 10
  transactionExpireScanIntervalSeconds := 10
  orphanExpireIntervalDAAScore := 60
  orphanExpireScanIntervalDAAScore := 10
  maximumOrphanTransactionMass := 100000
  maximumOrphanTransactionCount := 50
  acceptNonStandard := false
  minimumRelayTransactionFee := 1000
  minimumStandardTransactionVersion := 0
  maximumStandardTransactionVersion := 0
  compoundTxRateLimitEnabled := true
  maxCompoundTxPerAddressPerMinute := 10
  compoundTxRateLimitWindowMinutes := 1
  compoundTxMinInputsThreshold := 21
  walletFreezingEnabled := true
  frozenAddresses := []

/-- The ID of a transaction is its lock time, and every transaction has the same mass. -/
def sampleSetup : MempoolSetup where
  config := sampleConfig
  isolation := IsolationParams.sample
  validator := TransactionValidator.sample
  transactionID tx := Fin.ofNat _ tx.lockTime.toNat
  transactionID_unpopulated _ := rfl
  calculateTransactionMass _ := 1000
  feeRate fee mass := fee.toNat / mass.toNat
  parseScript _ := some .pubKeyTy
  isUnspendable _ := false
  extractAddress _ := none
  scriptPublicKeyIdentifier _ := "spkblake2b:00"

/-- The UTXO set has the output 0 of the transactions 100 to 104. -/
def sampleCall : Call where
  utxoSet := ([100,101,102,103,104] : List DomainTransactionID).foldl
    (fun utxoSet id => utxoSet.insert ⟨id,0⟩ ⟨1000000,⟨[],0⟩,false,5⟩) ∅
  virtualDAAScore := 1000
  isFinalizedTransaction _ := true
  arrival := Equiv.refl _
  now := 0
  order := [1,2,3]

/-- A transaction that was submitted without any entries. -/
def sampleTransaction (id : UInt64) (spent : List DomainOutpoint) (values : List UInt64) :
    TransactionObject where
  version := 0
  inputs := spent.map fun outpoint => ⟨outpoint,[],2^63,0,none⟩
  outputs := values.map fun value => ⟨value,⟨[],0⟩⟩
  lockTime := id
  subnetworkID := 0
  gas := 0
  payload := []
  fee := 0
  mass := 0

end Eiyaro.Mempool
