import Eiyaro.Mempool.Policy

/-!
# The transactions pool, the outpoint index and the orphan pool

`transactions_pool.go`, `model/ordered_transactions_by_fee_rate.go`, `mempool_utxo_set.go`,
`orphan_pool.go` and `remove_transaction.go`.
-/

namespace Eiyaro.Mempool
open MonadExcept
variable (setup : MempoolSetup) (call : Call)
variable (mp : Mempool)

/-- `TransactionID` of the transaction at a pointer. -/
def idAt (pointer : Pointer) : DomainTransactionID :=
  setup.transactionID (mp.objects pointer).toDomainTransaction

/-! ## The order by fee rate -/

/-- The loop of `sort.Search`, which at most halves `[i, j)` as often as it has elements. -/
def sortSearchLoop (f : Nat → Bool) : Nat → Nat → Nat → Nat
  | 0, i, _ => i
  | fuel+1, i, j =>
    if i < j then
      let h := (i+j) / 2
      if f h then sortSearchLoop f fuel i h else sortSearchLoop f fuel (h+1) j
    else
      i

/-- `sort.Search`. -/
def sortSearch (n : Nat) (f : Nat → Bool) : Nat :=
  sortSearchLoop f n 0 n

def feeRateAt (pointer : Pointer) : ℚ :=
  setup.feeRate (mp.objects pointer).fee (mp.objects pointer).mass

/-- The index of a transaction in the order and whether it is there. -/
def findTransactionIndex (mp : Mempool) (transaction : MempoolTransaction) :
    Except MempoolFailure (Nat × Bool) :=
  let tx := mp.objects transaction.transaction
  let slice := mp.transactionsOrderedByFeeRate
  if tx.fee = 0 ∨ tx.mass = 0 then
    .error (.other (.error
      "findTransactionIndex expects a transaction with populated fee and mass"))
  else
    let txID := idAt setup mp transaction.transaction
    let txFeeRate := feeRateAt setup mp transaction.transaction
    let index := sortSearch slice.length fun i =>
      match slice[i]? with
      | none => true
      | some iElement =>
        let elementFeeRate := feeRateAt setup mp iElement.transaction
        decide (elementFeeRate > txFeeRate) ||
          decide (elementFeeRate = txFeeRate ∧ txID ≤ idAt setup mp iElement.transaction)
    .ok (index, (slice[index]?).any fun element => idAt setup mp element.transaction = txID)

section
variable (transaction : MempoolTransaction)

/-- `TransactionsOrderedByFeeRate.Push`. -/
def push : MempoolM Unit := do
  let mp ← get
  let (index, _) ← ofExcept (findTransactionIndex setup mp transaction)
  set { mp with
    transactionsOrderedByFeeRate :=
      mp.transactionsOrderedByFeeRate.take index ++ transaction ::
        mp.transactionsOrderedByFeeRate.drop index }

/-- `TransactionsOrderedByFeeRate.Remove`, whose `ErrTransactionNotFound` is ignored by its
only caller. -/
def removeFromOrder : MempoolM Unit := do
  let mp ← get
  let (index, wasFound) ← ofExcept (findTransactionIndex setup mp transaction)
  if wasFound then
    set { mp with
      transactionsOrderedByFeeRate := mp.transactionsOrderedByFeeRate.eraseIdx index }
  else
    return

/-! ## The outpoint index -/

/-- The entry of an output that no block has accepted yet. -/
def unacceptedEntry (output : DomainTransactionOutput) : UTXOEntry :=
  ⟨output.value,output.scriptPublicKey,false,unacceptedDAAScore⟩

/-- `mempoolUTXOSet.addTransaction`. The outputs that are deleted first are named by the
positions of the inputs. -/
def addToUTXOSet : MempoolM Unit := do
  let mp ← get
  let tx := mp.objects transaction.transaction
  let id := idAt setup mp transaction.transaction
  let inputOutpoints ← ofExcept (checkedOutpoints id tx.inputs.length)
  let outputOutpoints ← ofExcept (checkedOutpoints id tx.outputs.length)
  set { mp with
    poolUnspentOutputs := (outputOutpoints.zip tx.outputs).foldl
      (fun outputs (created : DomainOutpoint × DomainTransactionOutput) =>
        outputs.insert created.1 (some (unacceptedEntry created.2)))
      (mp.poolUnspentOutputs.eraseKeys inputOutpoints)
    transactionByPreviousOutpoint :=
      mp.transactionByPreviousOutpoint.insertKeys tx.previousOutpoints transaction }

/-- `mempoolUTXOSet.removeTransaction`. -/
def removeFromUTXOSet : MempoolM Unit := do
  let mp ← get
  let tx := mp.objects transaction.transaction
  let outputOutpoints ← ofExcept
    (checkedOutpoints (idAt setup mp transaction.transaction) tx.outputs.length)
  let restored := tx.inputs.foldl (fun outputs input =>
    if (mp.allTransactions.get input.previousOutpoint.transactionID).isSome then
      outputs.insert input.previousOutpoint input.utxoEntry
    else
      outputs) mp.poolUnspentOutputs
  set { mp with
    poolUnspentOutputs := restored.eraseKeys outputOutpoints
    transactionByPreviousOutpoint :=
      mp.transactionByPreviousOutpoint.eraseKeys tx.previousOutpoints }

end

variable (tx : TransactionObject)

def checkDoubleSpends : Except MempoolFailure Unit := do
  let _ ← checkedOutpoints (setup.transactionID tx.toDomainTransaction) tx.inputs.length
  tx.inputs.forM fun input =>
    match mp.transactionByPreviousOutpoint.get input.previousOutpoint with
    | none => .ok ()
    | some existingTransaction =>
      transactionRuleError .rejectDuplicate ("output " ++ outpointString input.previousOutpoint ++
        " already spent by transaction " ++
        hashString (idAt setup mp existingTransaction.transaction) ++ " in the memory pool")

/-! ## The transactions pool -/

def getParentTransactionsInPool (tx : DomainTransaction) :
    List (DomainTransactionID × MempoolTransaction) :=
  tx.inputs.foldl (fun parents input =>
    match mp.allTransactions.get input.previousOutpoint.transactionID with
    | none => parents
    | some parent =>
      let parentID := idAt setup mp parent.transaction
      if (parents.lookup parentID).isSome then parents else parents ++ [(parentID, parent)]) []

section
variable (pointer : Pointer) (isHighPriority : Bool) (transaction : MempoolTransaction)
  (id : DomainTransactionID) (removeRedeemers : Bool)

/-- `NewMempoolTransaction`. -/
def newMempoolTransaction
    (parents : List (DomainTransactionID × MempoolTransaction)) (isHighPriority : Bool) :
    MempoolM MempoolTransaction := do
  modify fun mp => { mp with
    parentTransactionsInPool := fun p =>
      if p = pointer then parents else mp.parentTransactionsInPool p }
  return ⟨pointer,isHighPriority,call.virtualDAAScore⟩

/-- Lists a transaction among the children of its parents in the pool. -/
def chain (mp : Mempool) (transaction : MempoolTransaction) :
    FinMap DomainTransactionID (List MempoolTransaction) :=
  (mp.parentTransactionsInPool transaction.transaction).foldl (fun chained (_, parent) =>
    let parentID := idAt setup mp parent.transaction
    chained.insert parentID ((chained.get parentID).getD [] ++ [transaction]))
    mp.chainedTransactionsByParentID

def addMempoolTransaction : MempoolM Unit := do
  let mp ← get
  let transactionID := idAt setup mp transaction.transaction
  set { mp with
    allTransactions := mp.allTransactions.insert transactionID transaction
    chainedTransactionsByParentID := chain setup mp transaction }
  addToUTXOSet setup transaction
  push setup transaction
  if transaction.isHighPriority then
    modify fun mp => { mp with
      highPriorityTransactions := mp.highPriorityTransactions.insert transactionID transaction }
  else
    return

/-- `transactionsPool.removeTransaction`. -/
def removeFromPool : MempoolM Unit := do
  let mp ← get
  let transactionID := idAt setup mp transaction.transaction
  set { mp with allTransactions := mp.allTransactions.erase transactionID }
  removeFromOrder setup transaction
  modify fun mp => { mp with
    highPriorityTransactions := mp.highPriorityTransactions.erase transactionID
    chainedTransactionsByParentID := mp.chainedTransactionsByParentID.erase transactionID }

/-- The loop of `getRedeemers`, which does not end on a cycle of children. The head of the
stack is its top. -/
def redeemersLoop (mp : Mempool) : Nat → List MempoolTransaction → List MempoolTransaction →
    Except MempoolFailure (List MempoolTransaction)
  | _, [], redeemers => .ok redeemers
  | 0, _ :: _, _ => .error (.other (.panic "getRedeemers does not end"))
  | fuel+1, current :: stack, redeemers =>
    let chained :=
      (mp.chainedTransactionsByParentID.get (idAt setup mp current.transaction)).getD []
    redeemersLoop mp fuel (chained.reverse ++ stack) (redeemers ++ chained)

/-- The number of steps within which `getRedeemers` ends unless there is a cycle: a path
of children has at most as many nodes as there are lists. -/
def redeemersFuel : Nat :=
  let chained := mp.chainedTransactionsByParentID
  (∑ id ∈ chained.keys, ((chained.get id).getD []).length+2)^(chained.keys.card+2)

def getRedeemers : Except MempoolFailure (List MempoolTransaction) :=
  redeemersLoop setup mp (redeemersFuel mp) [transaction] []

/-! ## The orphan pool -/

def countUnfilledInputs : Nat :=
  tx.inputs.countP (·.utxoEntry.isNone)

/-- Takes an orphan out of both maps. -/
def forgetOrphan (orphan : OrphanTransaction) : MempoolM Unit := do
  let tx ← object orphan.transaction
  modify fun mp => { mp with allOrphans := mp.allOrphans.erase id }
  tx.inputs.zipIdx.forM fun (input, i) => do
    let mp ← get
    if (mp.orphansByPreviousOutpoint.get input.previousOutpoint).isNone then
      error ("Input No. " ++ toString i ++ " of " ++ hashString id ++ " (" ++
        outpointString input.previousOutpoint ++ ") doesn't exist in orphansByPreviousOutpoint")
    else
      set { mp with
        orphansByPreviousOutpoint := mp.orphansByPreviousOutpoint.erase input.previousOutpoint }

/-- `removeRedeemersOf`, with the removal of one orphan and its redeemers. -/
def removeRedeemersWith (remove : DomainTransactionID → MempoolM Unit) (pointer : Pointer) :
    MempoolM Unit := do
  let mp ← get
  let outpoints ← ofExcept
    (checkedOutpoints (idAt setup mp pointer) (mp.objects pointer).outputs.length)
  outpoints.forM fun outpoint => do
    let mp ← get
    match mp.orphansByPreviousOutpoint.get outpoint with
    | none => return
    | some orphan => remove (idAt setup mp orphan.transaction)

/-- `removeOrphan`. Each call of the recursion has one orphan less to go. -/
def removeOrphanLoop : Nat → DomainTransactionID → Bool → MempoolM Unit
  | 0, _, _ => panic "removeOrphan does not end"
  | fuel+1, id, removeRedeemers => do
    let mp ← get
    match mp.allOrphans.get id with
    | none => return
    | some orphan =>
      forgetOrphan id orphan
      if removeRedeemers then
        removeRedeemersWith setup (fun id => removeOrphanLoop fuel id true) orphan.transaction
      else
        return

def removeOrphan : MempoolM Unit := do
  let mp ← get
  removeOrphanLoop setup (mp.allOrphans.keys.card+1) id removeRedeemers

def removeRedeemersOf : MempoolM Unit :=
  removeRedeemersWith setup (fun id => removeOrphan setup id true) pointer

/-- Empties the entries of an orphan that come from outputs of a transaction. -/
def clearEntriesOf (removedID : DomainTransactionID) (tx : TransactionObject) : TransactionObject :=
  { tx with
    inputs := tx.inputs.map fun input =>
      if input.previousOutpoint.transactionID = removedID then
        { input with utxoEntry := none }
      else
        input }

def updateOrphansAfterTransactionRemoved (removed : MempoolTransaction) (removeRedeemers : Bool) :
    MempoolM Unit := do
  if removeRedeemers then
    removeRedeemersOf setup removed.transaction
  else
    let mp ← get
    let removedID := idAt setup mp removed.transaction
    let outpoints ← ofExcept
      (checkedOutpoints removedID (mp.objects removed.transaction).outputs.length)
    outpoints.forM fun outpoint => do
      let mp ← get
      match mp.orphansByPreviousOutpoint.get outpoint with
      | none => return
      | some orphan =>
        writeObject orphan.transaction (clearEntriesOf removedID (mp.objects orphan.transaction))

def checkOrphanDuplicate : Except MempoolFailure Unit :=
  let id := setup.transactionID tx.toDomainTransaction
  if (mp.allOrphans.get id).isSome then
    transactionRuleError .rejectDuplicate ("Orphan transacion " ++ hashString id ++
      " is already in the orphan pool")
  else
    .ok ()

def checkOrphanMass : Except MempoolFailure Unit :=
  if tx.mass > setup.config.maximumOrphanTransactionMass then
    transactionRuleError .rejectBadOrphan ("orphan transaction size of " ++ toString tx.mass ++
      " bytes is larger than max allowed size of " ++
      toString setup.config.maximumOrphanTransactionMass ++ " bytes")
  else
    .ok ()

def checkOrphanDoubleSpend : Except MempoolFailure Unit :=
  tx.inputs.forM fun input =>
    match mp.orphansByPreviousOutpoint.get input.previousOutpoint with
    | none => .ok ()
    | some doubleSpendOrphan =>
      transactionRuleError .rejectDuplicate ("Orphan transacion " ++
        hashString (setup.transactionID tx.toDomainTransaction) ++
        " is double spending an input from already existing orphan " ++
        hashString (idAt setup mp doubleSpendOrphan.transaction))

def addOrphan : MempoolM Unit :=
  modify fun mp =>
    let orphan : OrphanTransaction := ⟨pointer,isHighPriority,call.virtualDAAScore,call.now⟩
    { mp with
      allOrphans := mp.allOrphans.insert (idAt setup mp pointer) orphan
      orphansByPreviousOutpoint :=
        mp.orphansByPreviousOutpoint.insertKeys (mp.objects pointer).previousOutpoints orphan }

/-- The first orphan of the iteration that may be evicted. -/
def randomNonHighPriorityOrphan : Option OrphanTransaction :=
  (call.order.filterMap mp.allOrphans.get).find? (!·.isHighPriority)

/-- `limitOrphanPoolSize`, where each round takes one orphan out. -/
def limitOrphanPoolSizeLoop : Nat → MempoolM Unit
  | 0 => panic "limitOrphanPoolSize does not end"
  | fuel+1 => do
    let mp ← get
    if setup.config.maximumOrphanTransactionCount.toNat < mp.allOrphans.keys.card then
      match randomNonHighPriorityOrphan call mp with
      | none => return
      | some orphanToRemove => do
        removeOrphan setup (idAt setup mp orphanToRemove.transaction) false
        limitOrphanPoolSizeLoop fuel
    else
      return

def limitOrphanPoolSize : MempoolM Unit := do
  let mp ← get
  limitOrphanPoolSizeLoop setup call (mp.allOrphans.keys.card+1)

def maybeAddOrphan : MempoolM Unit := do
  if setup.config.maximumOrphanTransactionCount = 0 then
    return
  else
    let mp ← get
    let tx := mp.objects pointer
    ofExcept (checkOrphanDuplicate setup mp tx)
    ofExcept (checkOrphanMass setup tx)
    ofExcept (checkOrphanDoubleSpend setup mp tx)
    addOrphan setup call pointer isHighPriority
    limitOrphanPoolSize setup call

def expireOrphanTransactions : MempoolM Unit := do
  let mp ← get
  if call.virtualDAAScore - mp.lastExpireScan < setup.config.orphanExpireScanIntervalDAAScore then
    return
  else
    call.order.forM fun id => do
      let mp ← get
      match mp.allOrphans.get id with
      | none => return
      | some orphan =>
        if !orphan.isHighPriority && decide (call.virtualDAAScore - orphan.addedAtDAAScore >
            setup.config.orphanExpireIntervalDAAScore) then
          removeOrphan setup (idAt setup mp orphan.transaction) false
        else
          return
    modify fun mp => { mp with lastExpireScan := call.virtualDAAScore }

/-! ## Removing a transaction -/

def removeTransactionFromSets (transaction : MempoolTransaction) : MempoolM Unit := do
  removeFromUTXOSet setup transaction
  removeFromPool setup transaction
  updateOrphansAfterTransactionRemoved setup transaction removeRedeemers

/-- `RemoveParentTransactionInPool`. -/
def removeParentTransactionInPool (redeemer : MempoolTransaction) : MempoolM Unit :=
  modify fun mp => { mp with
    parentTransactionsInPool := fun p =>
      if p = redeemer.transaction then
        (mp.parentTransactionsInPool p).filter (·.1 ≠ id)
      else
        mp.parentTransactionsInPool p }

def removeTransaction : MempoolM Unit := do
  let mp ← get
  if (mp.allOrphans.get id).isSome then
    removeOrphan setup id true
  else
    match mp.allTransactions.get id with
    | none => return
    | some transaction =>
      let redeemers ← ofExcept (getRedeemers setup mp transaction)
      if removeRedeemers then
        (transaction :: redeemers).forM (removeTransactionFromSets setup true)
        removeRedeemersOf setup transaction.transaction
      else
        redeemers.forM (removeParentTransactionInPool id)
        removeTransactionFromSets setup false transaction

end

/-! ## Limits -/

def expireOldTransactions : MempoolM Unit := do
  let mp ← get
  if call.virtualDAAScore - mp.lastExpireScanDAAScore <
        setup.config.transactionExpireScanIntervalDAAScore ∨
      call.now - mp.lastExpireScanTime <
        setup.config.transactionExpireScanIntervalSeconds.toNat*10^9 then
    return
  else
    call.order.forM fun id => do
      let mp ← get
      match mp.allTransactions.get id with
      | none => return
      | some transaction =>
        if !transaction.isHighPriority &&
            decide (call.virtualDAAScore - transaction.addedAtDAAScore >
              setup.config.transactionExpireIntervalDAAScore) then
          removeTransaction setup (idAt setup mp transaction.transaction) true
        else
          return
    modify fun mp => { mp with
      lastExpireScanDAAScore := call.virtualDAAScore
      lastExpireScanTime := call.now }

/-- The inner loop of `limitTransactionCount`, from `currentIndex` on: the next transaction
that may be removed, or none where all of them are of high priority. -/
def nextToRemove (mp : Mempool) : Nat → Nat →
    Except MempoolFailure (Option (Nat × MempoolTransaction))
  | 0, _ => .ok none
  | fuel+1, currentIndex =>
    match mp.transactionsOrderedByFeeRate[currentIndex]? with
    | none => .error (.other (.panic "index out of range"))
    | some transactionToRemove =>
      if !transactionToRemove.isHighPriority then
        .ok (some (currentIndex, transactionToRemove))
      else if currentIndex+1 ≥ mp.allTransactions.keys.card then
        .ok none
      else
        nextToRemove mp fuel (currentIndex+1)

/-- The outer loop. A round that takes nothing out repeats itself forever. -/
def limitTransactionCountLoop : Nat → Nat → MempoolM Unit
  | 0, _ => panic "limitTransactionCount does not end"
  | fuel+1, currentIndex => do
    let mp ← get
    if setup.config.maximumTransactionCount.toNat < mp.allTransactions.keys.card then
      match ← ofExcept (nextToRemove mp (mp.allTransactions.keys.card+1) currentIndex) with
      | none => return
      | some (currentIndex, transactionToRemove) => do
        removeTransaction setup (idAt setup mp transactionToRemove.transaction) true
        let mp ← get
        if currentIndex ≥ mp.allTransactions.keys.card then
          return
        else
          limitTransactionCountLoop fuel currentIndex
    else
      return

def limitTransactionCount : MempoolM Unit := do
  let mp ← get
  limitTransactionCountLoop setup (mp.allTransactions.keys.card+mp.allOrphans.keys.card+1) 0

end Eiyaro.Mempool
