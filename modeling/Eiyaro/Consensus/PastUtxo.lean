import Eiyaro.Consensus.Env
import Eiyaro.Util.MapAccum
import Eiyaro.Utxo.Diff

/-!
# The past UTXO of a block

`calculate_past_utxo.go` and `multisets.go`: the transactions of the merge set
are accepted one after another on top of the past UTXO of the selected parent,
and the multiset of the selected parent is updated with the accepted ones. All
diffs are relative to the UTXO set of virtual.
-/

namespace Eiyaro

/-! ## Populating and adding transactions -/

def populateInput (utxoSet : UtxoCollection) (utxoDiff : UTXODiff)
    (input : DomainTransactionInput) : Option DomainTransactionInput :=
  match input.utxoEntry with
  | some _ => some input
  | none =>
    match utxoDiff.toAdd.get input.previousOutpoint with
    | some utxoEntry => some { input with utxoEntry := some utxoEntry }
    | none =>
      if utxoDiff.toRemove.contains input.previousOutpoint then
        none
      else
        (utxoSet.get input.previousOutpoint).map fun utxoEntry =>
          { input with utxoEntry := some utxoEntry }

/-- `populateTransactionWithUTXOEntriesFromVirtualOrDiff` with a diff. -/
def populateTransaction (utxoSet : UtxoCollection) (utxoDiff : UTXODiff)
    (tx : DomainTransaction) : Except Failure DomainTransaction :=
  match tx.inputs.mapM (populateInput utxoSet utxoDiff) with
  | some inputs => .ok { tx with inputs := inputs }
  | none => .error (.ruleError .errMissingTxOut "missing outpoints")

/-- An error of the diff algebra, which is not a rule error. -/
def liftDiffError {α : Type} : Except String α → Except Failure α
  | .ok a => .ok a
  | .error message => .error (.error message)

namespace Consensus
variable {M : Type} [AddCommGroup M] (cs : Consensus M)

/-- The outputs of a transaction as entries of a UTXO set. -/
def createdEntries (tx : DomainTransaction) (isCoinbase : Bool) (blockDAAScore : UInt64) :
    List (DomainOutpoint × UTXOEntry) :=
  tx.outputs.zipIdx.map fun (output, i) =>
    (⟨cs.transactionID tx,UInt32.ofNat i⟩,
      ⟨output.value,output.scriptPublicKey,isCoinbase,blockDAAScore⟩)

/-- The inputs of a populated transaction as entries of a UTXO set. -/
def spentEntries (tx : DomainTransaction) : Except Failure (List (DomainOutpoint × UTXOEntry)) :=
  tx.inputs.mapM fun input =>
    match input.utxoEntry with
    | some utxoEntry => .ok (input.previousOutpoint, utxoEntry)
    | none => .error (.panic "invalid memory address or nil pointer dereference")

def checkOutputIndexes (tx : DomainTransaction) : Except Failure Unit :=
  if tx.outputs.length > 2^32 then
    .error (.error "output index cannot be represented as uint32")
  else
    .ok ()

/-- `AddTransaction` of `mutable_utxo_diff.go`. -/
def addTransaction (diff : UTXODiff) (tx : DomainTransaction) (blockDAAScore : UInt64) :
    Except Failure UTXODiff := do
  let spent ← spentEntries tx
  let diff ← spent.foldlM (fun diff (outpoint, entry) =>
    liftDiffError (diff.removeEntry outpoint entry)) diff
  checkOutputIndexes tx
  (cs.createdEntries tx (isCoinBase tx) blockDAAScore).foldlM (fun diff (outpoint, entry) =>
    liftDiffError (diff.addEntry outpoint entry)) diff

/-- `addTransactionToMultiset`. -/
def addTransactionToMultiset (multiset : M) (tx : DomainTransaction) (blockDAAScore : UInt64)
    (isCoinbase : Bool) : Except Failure M := do
  let spent ← spentEntries tx
  checkOutputIndexes tx
  return multiset - (spent.map fun (outpoint, entry) => cs.element outpoint entry).sum +
    ((cs.createdEntries tx isCoinbase blockDAAScore).map fun (outpoint, entry) =>
      cs.element outpoint entry).sum

/-! ## Accepting the merge set -/

section
variable (utxoSet : UtxoCollection) (blockHash : DomainHash) (blockDAAScore : UInt64)

/-- `maybeAcceptTransaction`: the diff after the transaction, and what is recorded
on it. A broken rule leaves the transaction out. -/
def maybeAcceptTransaction (isSelectedParent : Bool) (diff : UTXODiff) (tx : DomainTransaction) :
    Except Failure (UTXODiff × TransactionAcceptanceData) :=
  let rejected (tx : DomainTransaction) : UTXODiff × TransactionAcceptanceData :=
    (diff, ⟨tx,0,false,[]⟩)
  match populateTransaction utxoSet diff tx with
  | .error (.ruleError _ _) => .ok (rejected tx)
  | .error failure => .error failure
  | .ok tx =>
    if isCoinBase tx then
      if isSelectedParent then do
        let diff ← cs.addTransaction diff tx blockDAAScore
        return (diff, ⟨tx,0,true,tx.inputs.filterMap (·.utxoEntry)⟩)
      else
        .ok (rejected tx)
    else
      match cs.validateTransactionInContextAndPopulateFee tx blockHash blockDAAScore with
      | .error (.ruleError _ _) => .ok (rejected tx)
      | .error failure => .error failure
      | .ok fee => do
        let diff ← cs.addTransaction diff tx blockDAAScore
        return (diff, ⟨tx,fee,true,tx.inputs.filterMap (·.utxoEntry)⟩)

def acceptTransactions (isSelectedParent : Bool) :
    List DomainTransaction → UTXODiff →
      Except Failure (UTXODiff × List TransactionAcceptanceData) :=
  mapAccum (cs.maybeAcceptTransaction utxoSet blockHash blockDAAScore isSelectedParent)

/-- One block of the merge set with its index. -/
def acceptBlock (diff : UTXODiff) (mergeSetBlock : (DomainHash × DomainBlock) × Nat) :
    Except Failure (UTXODiff × BlockAcceptanceData) := do
  let ((mergeSetBlockHash, block), i) := mergeSetBlock
  let isSelectedParent := i == 0
  let (diff, accepted) ← cs.acceptTransactions utxoSet blockHash blockDAAScore isSelectedParent
    block.transactions diff
  return (diff, ⟨mergeSetBlockHash,accepted⟩)

end

/-- The loop of `GetSortedMergeSet`. Every round takes the lesser of the first blue
and the first red block, so the number of blocks bounds the rounds. -/
def sortMergeSet : Nat → List DomainHash → List DomainHash → Except Failure (List DomainHash)
  | rounds+1, currentBlue :: blues, currentRed :: reds => do
    let blueData ← cs.getBlockData currentBlue
    let redData ← cs.getBlockData currentRed
    if lessData currentBlue blueData.ghostdagData currentRed redData.ghostdagData then
      let sorted ← sortMergeSet rounds blues (currentRed :: reds)
      return currentBlue :: sorted
    else
      let sorted ← sortMergeSet rounds (currentBlue :: blues) reds
      return currentRed :: sorted
  | _, blues, reds => return blues ++ reds

/-- `GetSortedMergeSet`: the selected parent, then the blues and the reds merged by
`Less`. -/
def getSortedMergeSet (data : BlockGHOSTDAGData) : Except Failure (List DomainHash) :=
  match data.mergeSetBlues with
  | [] => return []
  | selectedParent :: blues => do
    let sorted ← cs.sortMergeSet (blues.length+data.mergeSetReds.length) blues data.mergeSetReds
    return selectedParent :: sorted

def mergeSetBlocks (data : BlockGHOSTDAGData) :
    Except Failure (List (DomainHash × DomainBlock)) := do
  let mergeSetHashes ← cs.getSortedMergeSet data
  mergeSetHashes.mapM fun hash => do
    let blockData ← cs.getBlockData hash
    return (hash, blockData.block)

/-- `applyMergeSetBlocks`. Without a diff of the selected parent it starts from the
empty one. -/
def applyMergeSetBlocks (utxoSet : UtxoCollection) (blockHash : DomainHash)
    (data : BlockGHOSTDAGData) (selectedParentPastUTXODiff : Option UTXODiff)
    (daaScore : UInt64) : Except Failure (UTXODiff × AcceptanceData) := do
  let mergeSetBlocks ← cs.mergeSetBlocks data
  mapAccum (cs.acceptBlock utxoSet blockHash daaScore) mergeSetBlocks.zipIdx
    (selectedParentPastUTXODiff.getD UTXODiff.newUTXODiff)

/-- The multiset after the accepted transactions of one block. A transaction is
taken for a coinbase transaction by its position. -/
def addBlockToMultiset (multiset : M) (daaScore : UInt64)
    (blockAcceptanceData : BlockAcceptanceData) : Except Failure M :=
  blockAcceptanceData.transactionAcceptanceData.zipIdx.foldlM (fun multiset (txData, i) =>
    if txData.isAccepted then
      cs.addTransactionToMultiset multiset txData.transaction daaScore (i == 0)
    else
      .ok multiset) multiset

/-- `calculateMultiset` of a block that is not genesis. -/
def calculateMultiset (selectedParentMultiset : M) (acceptanceData : AcceptanceData)
    (daaScore : UInt64) : Except Failure M :=
  acceptanceData.foldlM (fun multiset blockAcceptanceData =>
    cs.addBlockToMultiset multiset daaScore blockAcceptanceData) selectedParentMultiset

/-- What `calculatePastUTXOAndAcceptanceDataWithSelectedParentUTXO` returns. -/
structure PastUTXO (M : Type) where
  utxoDiff : UTXODiff
  acceptanceData : AcceptanceData
  multiset : M

def calculatePastUTXOAndAcceptanceData (utxoSet : UtxoCollection) (blockHash : DomainHash)
    (data : BlockGHOSTDAGData) (daaScore : UInt64) (selectedParentPastUTXO : Option UTXODiff)
    (selectedParentMultiset : M) : Except Failure (PastUTXO M) := do
  let (utxoDiff, acceptanceData) ← cs.applyMergeSetBlocks utxoSet blockHash data
    selectedParentPastUTXO daaScore
  let multiset ← cs.calculateMultiset selectedParentMultiset acceptanceData daaScore
  return ⟨utxoDiff,acceptanceData,multiset⟩

end Consensus
end Eiyaro
