import Eiyaro.Consensus.Stores
import Eiyaro.Consensus.Verify

/-!
# Resolving the status of a block

`resolve_block_status.go`. The blocks of a selected parent chain that are pending
UTXO verification are resolved from the oldest one on. The loop carries the past
UTXO of the block before, which is nil after a block that failed verification.
-/

namespace Eiyaro

/-- What `ReverseUTXODiffs` needs of a resolved chain. -/
structure UTXODiffReversalData where
  selectedParentHash : DomainHash
  selectedParentUTXODiff : UTXODiff

/-- `DiffFrom` on a diff that can be nil. -/
def diffFrom? (this : Option UTXODiff) (other : UTXODiff) : Except Failure UTXODiff := do
  let this ← dereference this
  liftDiffError (this.diffFrom other)

namespace Consensus
variable {M : Type} (cs : Consensus M)

/-- `ChooseSelectedParent` of two blocks prefers the first one unless it is less. -/
def isNewSelectedTip (blockHash oldSelectedTip : DomainHash) : Except Failure Bool := do
  let block ← cs.getBlockData blockHash
  let old ← cs.getBlockData oldSelectedTip
  return blockHash = oldSelectedTip ∨
    !lessData blockHash block.ghostdagData oldSelectedTip old.ghostdagData

/-- The blocks of the selected parent chain that are pending verification, from the
given block down. -/
def getUnverifiedChainBlocks (st : ConsensusStores M) :
    Nat → DomainHash → Except Failure (List DomainHash)
  | 0, _ => .error (.error "the selected parents never end")
  | rounds+1, currentHash => do
    let currentBlockStatus ← fromStore (st.blockStatus.get currentHash)
    if currentBlockStatus ≠ .statusUTXOPendingVerification then
      return []
    else
      let data ← cs.getBlockData currentHash
      match data.ghostdagData.selectedParent with
      | none => return [currentHash]
      | some selectedParent =>
        let unverifiedBlocks ← getUnverifiedChainBlocks st rounds selectedParent
        return currentHash :: unverifiedBlocks

/-- The hash, the status and, if it is resolved, the past UTXO of the selected
parent of the last unverified block. -/
def selectedParentInfo (st : ConsensusStores M) (lastUnverifiedBlock : DomainHash) :
    Except Failure (DomainHash × BlockStatus × Option UTXODiff) :=
  if lastUnverifiedBlock = cs.genesisHash then do
    let utxoDiff ← fromStore (st.utxoDiff.get lastUnverifiedBlock)
    return (lastUnverifiedBlock, .statusUTXOValid, some utxoDiff)
  else do
    let data ← cs.getBlockData lastUnverifiedBlock
    let selectedParent ← dereference data.ghostdagData.selectedParent
    let selectedParentStatus ← fromStore (st.blockStatus.get selectedParent)
    if selectedParentStatus ≠ .statusUTXOValid ∧
        selectedParentStatus ≠ .statusDisqualifiedFromChain then
      return (selectedParent, selectedParentStatus, none)
    else
      let selectedParentUTXOSet ← st.restorePastUTXO selectedParent
      return (selectedParent, selectedParentStatus, some selectedParentUTXOSet)

section
variable [AddCommGroup M]

/-- `calculatePastUTXOAndAcceptanceDataWithSelectedParentUTXO` with the stored
multiset of the selected parent. Genesis has a multiset of its own. -/
def calculatePastUTXO (st : ConsensusStores M) (blockHash : DomainHash)
    (ghostdagData : BlockGHOSTDAGData) (daaScore : UInt64)
    (selectedParentPastUTXO : Option UTXODiff) : Except Failure (PastUTXO M) := do
  let multisetBlock ← dereference
    (if blockHash = cs.genesisHash then some blockHash else ghostdagData.selectedParent)
  let multiset ← fromStore (st.multiset.get multisetBlock)
  cs.calculatePastUTXOAndAcceptanceData st.utxoSet blockHash ghostdagData daaScore
    selectedParentPastUTXO multiset

variable (st : ConsensusStores M)

/-- The diffs that are staged for a verified tip of the resolved chain. -/
def stageResolveTipDiff (blockHash : DomainHash)
    (pastUTXOSet : UTXODiff) : Except Failure (ConsensusStores M) := do
  let oldSelectedTip ← dereference st.virtualSelectedParent
  let oldSelectedTipUTXOSet ← st.restorePastUTXO oldSelectedTip
  let isNewSelectedTip ← cs.isNewSelectedTip blockHash oldSelectedTip
  if isNewSelectedTip then
    let updatedOldSelectedTipUTXOSet ← liftDiffError (pastUTXOSet.diffFrom oldSelectedTipUTXOSet)
    return (st.stageDiff oldSelectedTip updatedOldSelectedTipUTXOSet blockHash).stageDiff
      blockHash pastUTXOSet none
  else
    let utxoDiff ← liftDiffError (oldSelectedTipUTXOSet.diffFrom pastUTXOSet)
    return st.stageDiff blockHash utxoDiff oldSelectedTip

section
variable (blockHash selectedParentHash : DomainHash) (selectedParentPastUTXOSet : Option UTXODiff)
  (pastUTXOSet : UTXODiff)

/-- The diff that is staged for a block below the tip of the resolved chain, or for
a block that failed verification. -/
def stageDiffToSelectedParent : Except Failure (ConsensusStores M) := do
  let utxoDiff ← diffFrom? selectedParentPastUTXOSet pastUTXOSet
  return st.stageDiff blockHash utxoDiff selectedParentHash

def stageVerifiedDiff (isResolveTip : Bool) : Except Failure (ConsensusStores M) :=
  if isResolveTip then
    cs.stageResolveTipDiff st blockHash pastUTXOSet
  else
    stageDiffToSelectedParent st blockHash selectedParentHash selectedParentPastUTXOSet pastUTXOSet

def resolveSingleBlockStatus (isResolveTip : Bool) :
    Except Failure (ConsensusStores M × BlockStatus × Option UTXODiff) := do
  let data ← cs.getBlockData blockHash
  let past ← cs.calculatePastUTXO st blockHash data.ghostdagData data.block.header.daaScore
    selectedParentPastUTXOSet
  if blockHash = cs.genesisHash then
    return (st.stageDiff blockHash past.utxoDiff none, .statusUTXOValid, none)
  else
    let staged := (st.stageAcceptanceData blockHash past.acceptanceData).stageMultiset blockHash
      past.multiset
    match cs.verifyUTXO st.utxoSet data.block blockHash past with
    | .error (.ruleError _ _) =>
      let st ← stageDiffToSelectedParent staged blockHash selectedParentHash
        selectedParentPastUTXOSet past.utxoDiff
      return (st, .statusDisqualifiedFromChain, none)
    | .error failure => .error failure
    | .ok () =>
      let st ← cs.stageVerifiedDiff staged blockHash selectedParentHash selectedParentPastUTXOSet
        past.utxoDiff isResolveTip
      return (st, .statusUTXOValid, some past.utxoDiff)

end

/-- What the loop of `resolveBlockStatus` carries from one block to the next. -/
structure ResolveLoop (M : Type) where
  stores : ConsensusStores M
  status : BlockStatus
  previousBlockHash : DomainHash
  previousBlockUTXOSet : Option UTXODiff
  oneBeforeLastResolvedBlockHash : Option DomainHash
  oneBeforeLastResolvedBlockUTXOSet : Option UTXODiff

variable (loop : ResolveLoop M)

/-- One block above a disqualified block. -/
def resolveDisqualified (blockHash : DomainHash) : Except Failure (ResolveLoop M) := do
  let data ← cs.getBlockData blockHash
  let past ← cs.calculatePastUTXO loop.stores blockHash data.ghostdagData
    data.block.header.daaScore loop.previousBlockUTXOSet
  let staged := (loop.stores.stageAcceptanceData blockHash past.acceptanceData).stageMultiset
    blockHash past.multiset
  let st ← stageDiffToSelectedParent staged blockHash loop.previousBlockHash
    loop.previousBlockUTXOSet past.utxoDiff
  return { loop with
    stores := st.stageStatus blockHash .statusDisqualifiedFromChain
    previousBlockHash := blockHash
    previousBlockUTXOSet := past.utxoDiff }

/-- One round of the loop of `resolveBlockStatus`. -/
def resolveNext (blockHash : DomainHash) (isResolveTip : Bool) : Except Failure (ResolveLoop M) :=
  if loop.status = .statusDisqualifiedFromChain then
    cs.resolveDisqualified loop blockHash
  else do
    let (st, blockStatus, pastUTXOSet) ← cs.resolveSingleBlockStatus loop.stores blockHash
      loop.previousBlockHash loop.previousBlockUTXOSet isResolveTip
    return {
      stores := st.stageStatus blockHash blockStatus
      status := blockStatus
      previousBlockHash := blockHash
      previousBlockUTXOSet := pastUTXOSet
      oneBeforeLastResolvedBlockHash := loop.previousBlockHash
      oneBeforeLastResolvedBlockUTXOSet := loop.previousBlockUTXOSet }

/-- The loop of `resolveBlockStatus` over the unverified blocks, oldest first. -/
def resolveBlocks : ResolveLoop M → List DomainHash → Except Failure (ResolveLoop M)
  | loop, [] => return loop
  | loop, blockHash :: blocks => do
    let loop ← cs.resolveNext loop blockHash blocks.isEmpty
    resolveBlocks loop blocks

def reversalData (unverifiedBlocks : List DomainHash) :
    Except Failure (Option UTXODiffReversalData) :=
  if loop.status = .statusUTXOValid ∧ unverifiedBlocks.length > 1 then do
    let oneBeforeLast ← dereference loop.oneBeforeLastResolvedBlockUTXOSet
    let selectedParentUTXODiff ← diffFrom? loop.previousBlockUTXOSet oneBeforeLast
    let selectedParentHash ← dereference loop.oneBeforeLastResolvedBlockHash
    return some ⟨selectedParentHash,selectedParentUTXODiff⟩
  else
    return none

/-- `resolveBlockStatus` with separate staging areas: the changed stores, the
status of the block, and what is needed to reverse the diffs of the chain. -/
def resolveBlockStatus (blockHash : DomainHash) :
    Except Failure (ConsensusStores M × BlockStatus × Option UTXODiffReversalData) := do
  let unverifiedBlocks ← cs.getUnverifiedChainBlocks st (st.blockStatus.keys.card+1) blockHash
  match unverifiedBlocks.getLast? with
  | none =>
    let status ← fromStore (st.blockStatus.get blockHash)
    return (st, status, none)
  | some lastUnverifiedBlock =>
    let (selectedParentHash, selectedParentStatus, selectedParentUTXOSet) ←
      cs.selectedParentInfo st lastUnverifiedBlock
    let loop ← cs.resolveBlocks
      ⟨st,selectedParentStatus,selectedParentHash,selectedParentUTXOSet,none,none⟩
      unverifiedBlocks.reverse
    let reversal ← reversalData loop unverifiedBlocks
    return (loop.stores, loop.status, reversal)

end
end Consensus
end Eiyaro
