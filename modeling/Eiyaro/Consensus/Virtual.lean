import Eiyaro.Consensus.Resolve

/-!
# Updating virtual

What changes the stores as a whole: inserting a block and resolving virtual. Both
resolve the status of a block, move virtual to new parents and reverse the diffs of
the resolved chain, `AddBlock` the diffs last and `ResolveVirtual` virtual last.

The finality check and the choice of the other parents of virtual are inputs of a
step.
-/

namespace Eiyaro

/-- What GHOSTDAG and the difficulty manager compute for virtual with new parents. -/
structure VirtualData where
  ghostdagData : BlockGHOSTDAGData
  daaScore : UInt64

/-- `commitVirtualUTXODiff`. -/
def commitVirtualUTXODiff (utxoSet : UtxoCollection) (virtualUTXODiff : UTXODiff) :
    UtxoCollection :=
  (utxoSet.eraseAll virtualUTXODiff.toRemove).insertAll virtualUTXODiff.toAdd

def ConsensusStores.hasBody {M : Type} (st : ConsensusStores M) (hash : DomainHash) : Bool :=
  match st.blockStatus.get hash with
  | some .statusUTXOValid => true
  | some .statusUTXOPendingVerification => true
  | some .statusDisqualifiedFromChain => true
  | _ => false

def ConsensusStores.hasInvalid {M : Type} (st : ConsensusStores M) : Bool :=
  st.blockStatus.any fun _ status => status = .statusInvalid

namespace Consensus
variable {M : Type} (cs : Consensus M)

/-- `Less` of two stored blocks. -/
def less (hashA hashB : DomainHash) : Bool :=
  match cs.blockData hashA, cs.blockData hashB with
  | some a, some b => lessData hashA a.ghostdagData hashB b.ghostdagData
  | _, _ => false

/-! ## Reversing diffs -/

/-- The loop of `ReverseUTXODiffs`. Every round goes on to a block with less blue
work. -/
def reverseLoop : Nat → ConsensusStores M → DomainHash → UTXODiff →
    Except Failure (ConsensusStores M)
  | 0, _, _, _ => .error (.error "the selected parents never end")
  | rounds+1, st, previousBlock, previousUTXODiff => do
    let previousData ← cs.getBlockData previousBlock
    let currentBlock ← dereference previousData.ghostdagData.selectedParent
    let currentBlockUTXODiffChild ← fromStore (st.utxoDiffChild.get currentBlock)
    let currentData ← cs.getBlockData currentBlock
    let currentUTXODiff ← fromStore (st.utxoDiff.get currentBlock)
    let st := st.stageDiff currentBlock previousUTXODiff.reversed previousBlock
    if currentData.ghostdagData.selectedParent ≠ some currentBlockUTXODiffChild then
      return st
    else
      reverseLoop rounds st currentBlock currentUTXODiff

section
variable (st : ConsensusStores M) (tipHash : DomainHash)

def reverseUTXODiffs
    (reversalData : UTXODiffReversalData) : Except Failure (ConsensusStores M) := do
  let previousBlock := reversalData.selectedParentHash
  let previousUTXODiff ← fromStore (st.utxoDiff.get previousBlock)
  let st := st.stageDiff previousBlock reversalData.selectedParentUTXODiff tipHash
  let previousData ← cs.getBlockData previousBlock
  cs.reverseLoop (previousData.ghostdagData.blueWork+1) st previousBlock previousUTXODiff

/-- The loop when the process stops after some commits: every round makes one. -/
def reverseLoopStopped : Nat → ConsensusStores M → DomainHash → UTXODiff →
    Except Failure (ConsensusStores M)
  | 0, st, _, _ => return st
  | commits+1, st, previousBlock, previousUTXODiff => do
    let previousData ← cs.getBlockData previousBlock
    let currentBlock ← dereference previousData.ghostdagData.selectedParent
    let currentBlockUTXODiffChild ← fromStore (st.utxoDiffChild.get currentBlock)
    let currentData ← cs.getBlockData currentBlock
    let currentUTXODiff ← fromStore (st.utxoDiff.get currentBlock)
    let st := st.stageDiff currentBlock previousUTXODiff.reversed previousBlock
    if currentData.ghostdagData.selectedParent ≠ some currentBlockUTXODiffChild then
      return st
    else
      reverseLoopStopped commits st currentBlock currentUTXODiff

/-- `ReverseUTXODiffs` when the process stops after some commits. -/
def reverseUTXODiffsStopped
    (reversalData : UTXODiffReversalData) : Nat → Except Failure (ConsensusStores M)
  | 0 => return st
  | commits+1 => do
    let previousBlock := reversalData.selectedParentHash
    let previousUTXODiff ← fromStore (st.utxoDiff.get previousBlock)
    let st := st.stageDiff previousBlock reversalData.selectedParentUTXODiff tipHash
    cs.reverseLoopStopped commits st previousBlock previousUTXODiff

def reverseIfRequired : Option UTXODiffReversalData → Except Failure (ConsensusStores M)
  | none => return st
  | some reversalData => cs.reverseUTXODiffs st tipHash reversalData

end

section
variable [AddCommGroup M]

/-! ## Moving virtual -/

variable (st : ConsensusStores M)

/-- `CalculatePastUTXOAndAcceptanceData` of virtual. -/
def calculateVirtualPastUTXO (virtualData : VirtualData) : Except Failure (PastUTXO M) := do
  let selectedParent ← dereference virtualData.ghostdagData.selectedParent
  let selectedParentPastUTXO ← st.restorePastUTXO selectedParent
  cs.calculatePastUTXO st virtualBlockHash virtualData.ghostdagData virtualData.daaScore
    selectedParentPastUTXO

/-- The new diff of virtual's selected parent is computed from its old one and staged
with virtual as its diff child. -/
def updateSelectedTipUTXODiff (virtualUTXODiff : UTXODiff) :
    Except Failure (ConsensusStores M) := do
  let selectedTip ← dereference st.virtualSelectedParent
  let selectedTipUTXODiff ← fromStore (st.utxoDiff.get selectedTip)
  let newDiff ← liftDiffError (virtualUTXODiff.diffFrom selectedTipUTXODiff)
  return st.stageDiff selectedTip newDiff none

def updateVirtualWithParents (virtualData : VirtualData) : Except Failure (ConsensusStores M) := do
  let past ← cs.calculateVirtualPastUTXO st virtualData
  let staged := ({ st with virtualGHOSTDAGData := virtualData.ghostdagData }.stageAcceptanceData
    virtualBlockHash past.acceptanceData).stageMultiset virtualBlockHash past.multiset
  let st ← updateSelectedTipUTXODiff staged past.utxoDiff
  return { st with utxoSet := commitVirtualUTXODiff st.utxoSet past.utxoDiff }

/-! ## Inserting a block -/

variable (blockHash : DomainHash)

def isCandidateToBeNextVirtualSelectedParent : Except Failure Bool :=
  if blockHash = cs.genesisHash then
    .ok true
  else do
    let selectedParent ← dereference st.virtualSelectedParent
    let _ ← cs.getBlockData selectedParent
    let _ ← cs.getBlockData blockHash
    return cs.less selectedParent blockHash

/-- `selectVirtualSelectedParent` takes candidates in decreasing order until one is
UTXO-valid. A block becomes a candidate once all its children were taken, but a child
with an invalid body never is. So virtual's selected parent is the greatest UTXO-valid
block, or some UTXO-valid block if there are invalid ones. -/
def isVirtualSelectedParent (hash : DomainHash) : Bool :=
  st.blockStatus.get hash = some .statusUTXOValid ∧
    (st.hasInvalid ∨
      !st.blockStatus.any fun other status => status = .statusUTXOValid ∧ cs.less hash other)

/-- The first part of `AddBlock`. -/
def resolveIfCandidate (isViolatingFinality : Bool) :
    Except Failure (ConsensusStores M × Option UTXODiffReversalData) := do
  let isCandidate ← cs.isCandidateToBeNextVirtualSelectedParent st blockHash
  if isCandidate ∧ !isViolatingFinality then
    let (st, _, reversalData) ← cs.resolveBlockStatus st blockHash
    return (st, reversalData)
  else
    return (st, none)

def addTip (newTipHash : DomainHash) (parents : List DomainHash) : ConsensusStores M :=
  { st with tips := newTipHash :: st.tips.filter fun tip => tip ∉ parents }

/-- `AddBlock` when it updates virtual: the changed stores, and what is needed to reverse
the diffs of the resolved chain. -/
def addBlock (parents : List DomainHash) (isViolatingFinality : Bool) (virtualData : VirtualData) :
    Except Failure (ConsensusStores M × Option UTXODiffReversalData) := do
  let (st, reversalData) ← cs.resolveIfCandidate st blockHash isViolatingFinality
  let st := addTip st blockHash parents
  let selectedParent ← dereference virtualData.ghostdagData.selectedParent
  if !cs.isVirtualSelectedParent st selectedParent then
    .error (.error "the parents are not picked for virtual")
  else
    let st ← cs.updateVirtualWithParents st virtualData
    return (st, reversalData)

/-- The checks on statuses that a block with a body passes before it is inserted: it
is new, and its selected parent has a body. -/
def checkInsertion (blockHash selectedParent : DomainHash) : Except Failure Unit :=
  if st.blockStatus.get blockHash = some .statusInvalid then
    .error (.ruleError .errKnownInvalid "block is a known invalid block")
  else if st.hasBody blockHash then
    .error (.ruleError .errDuplicateBlock "block already exists")
  else if st.blockStatus.get selectedParent = some .statusInvalid then
    .error (.ruleError .errInvalidAncestorBlock "parent is invalid")
  else if !st.hasBody selectedParent then
    .error (.ruleError .errMissingParents "missing parents")
  else
    .ok ()

section
variable (updateVirtual isViolatingFinality : Bool) (virtualData : VirtualData)

/-- `validateAndInsertBlock` of a block with a body, up to the commit. -/
def commitBlock : Except Failure (ConsensusStores M × Option UTXODiffReversalData) := do
  let data ← cs.getBlockData blockHash
  let selectedParent ← dereference data.ghostdagData.selectedParent
  checkInsertion st blockHash selectedParent
  let st := st.stageStatus blockHash .statusUTXOPendingVerification
  let parents := data.block.header.directParents
  if updateVirtual then
    cs.addBlock st blockHash parents isViolatingFinality virtualData
  else
    return (addTip st blockHash parents, none)

/-- The diffs are reversed after the commit. -/
def insertBlock : Except Failure (ConsensusStores M) := do
  let (st, reversalData) ← cs.commitBlock st blockHash updateVirtual isViolatingFinality virtualData
  cs.reverseIfRequired st blockHash reversalData

end

/-- A block of which the header was inserted before, and of which the body breaks a rule. Its
status is all that changes, so it stays a child of its parents. -/
def rejectBody : Except Failure (ConsensusStores M) := do
  let _ ← cs.getBlockData blockHash
  if st.blockStatus.get blockHash = some .statusInvalid then
    .error (.ruleError .errKnownInvalid "block is a known invalid block")
  else if st.hasBody blockHash then
    .error (.ruleError .errDuplicateBlock "block already exists")
  else
    .ok (st.stageStatus blockHash .statusInvalid)

/-! ## Resolving virtual -/

/-- The tips in decreasing order of parent selection. -/
def tipsInDecreasingOrder : List DomainHash :=
  st.tips.insertionSort fun a b => !cs.less a b

def findPendingTip (st : ConsensusStores M) (isViolatingFinality : DomainHash → Bool) :
    List DomainHash → Except Failure (Option (DomainHash × BlockStatus))
  | [] => return none
  | tip :: tips =>
    if isViolatingFinality tip then
      findPendingTip st isViolatingFinality tips
    else do
      let status ← fromStore (st.blockStatus.get tip)
      if status = .statusUTXOValid ∨ status = .statusUTXOPendingVerification then
        return some (tip, status)
      else
        findPendingTip st isViolatingFinality tips

section
variable (isViolatingFinality : DomainHash → Bool) (maxBlocksToResolve : UInt64)

def findNextPendingTip : Except Failure (Option (DomainHash × BlockStatus)) :=
  findPendingTip st isViolatingFinality (cs.tipsInDecreasingOrder st)

/-- The unverified blocks are searched upwards for one that is preferred to virtual's
selected parent. -/
def searchProcessingPoint (unverifiedBlocks : List DomainHash)
    (previousVirtualSelectedParent : DomainHash) : Nat → Except Failure DomainHash
  | 0 => do
    let processingPoint ← indexSlice unverifiedBlocks 0
    let isNew ← cs.isNewSelectedTip processingPoint previousVirtualSelectedParent
    if isNew then
      return processingPoint
    else
      .error (.error "Expecting the pending tip to overcome the previous selected parent")
  | processingPointIndex+1 => do
    let processingPoint ← indexSlice unverifiedBlocks (processingPointIndex+1)
    let isNew ← cs.isNewSelectedTip processingPoint previousVirtualSelectedParent
    if isNew then
      return processingPoint
    else
      searchProcessingPoint unverifiedBlocks previousVirtualSelectedParent processingPointIndex

/-- The pending tip, or a block below it if there are too many blocks to resolve. -/
def chooseProcessingPoint (pendingTip : DomainHash) (unverifiedBlocks : List DomainHash)
    (previousVirtualSelectedParent : DomainHash) (maxBlocksToResolve : UInt64) :
    Except Failure DomainHash :=
  if maxBlocksToResolve ≠ 0 ∧ unverifiedBlocks.length > maxBlocksToResolve.toNat then
    cs.searchProcessingPoint unverifiedBlocks previousVirtualSelectedParent
      (unverifiedBlocks.length - maxBlocksToResolve.toNat)
  else
    .ok pendingTip

/-- The block that `ResolveVirtual` resolves, if there is something to do. -/
def findProcessingPoint : Except Failure (Option DomainHash) := do
  match ← cs.findNextPendingTip st isViolatingFinality with
  | none => return none
  | some (pendingTip, pendingTipStatus) =>
    let previousVirtualSelectedParent ← dereference st.virtualSelectedParent
    if pendingTipStatus = .statusUTXOValid ∧ previousVirtualSelectedParent = pendingTip then
      return none
    else
      let unverifiedBlocks ← cs.getUnverifiedChainBlocks st (st.blockStatus.keys.card+1) pendingTip
      let processingPoint ← cs.chooseProcessingPoint pendingTip unverifiedBlocks
        previousVirtualSelectedParent maxBlocksToResolve
      return some processingPoint

/-- The resolution of the processing point, up to the commit. -/
def commitResolution (processingPoint : DomainHash) :
    Except Failure (ConsensusStores M × Option UTXODiffReversalData) := do
  let (st, processingPointStatus, reversalData) ← cs.resolveBlockStatus st processingPoint
  return (st, if processingPointStatus = .statusUTXOValid then reversalData else none)

/-- The part of `ResolveVirtual` after the processing point is known. It is virtual's
only parent, or the greatest one when the whole pending chain is resolved. -/
def resolveToProcessingPoint (processingPoint : DomainHash)
    (virtualData : VirtualData) : Except Failure (ConsensusStores M) := do
  let (st, reversalData) ← cs.commitResolution st processingPoint
  let st ← cs.reverseIfRequired st processingPoint reversalData
  if virtualData.ghostdagData.selectedParent ≠ some processingPoint then
    .error (.error "the parents are not picked for virtual")
  else
    cs.updateVirtualWithParents st virtualData

def resolveVirtual (virtualData : VirtualData) : Except Failure (ConsensusStores M) := do
  match ← cs.findProcessingPoint st isViolatingFinality maxBlocksToResolve with
  | none => return st
  | some processingPoint => cs.resolveToProcessingPoint st processingPoint virtualData

end

/-! ## Runs -/

inductive Action
  | insertBlock (blockHash : DomainHash) (updateVirtual isViolatingFinality : Bool)
      (virtualData : VirtualData)
  | resolveVirtual (isViolatingFinality : DomainHash → Bool) (maxBlocksToResolve : UInt64)
      (virtualData : VirtualData)
  | rejectBody (blockHash : DomainHash)

def step : Action → Except Failure (ConsensusStores M)
  | .insertBlock blockHash updateVirtual isViolatingFinality virtualData =>
    cs.insertBlock st blockHash updateVirtual isViolatingFinality virtualData
  | .resolveVirtual isViolatingFinality maxBlocksToResolve virtualData =>
    cs.resolveVirtual st isViolatingFinality maxBlocksToResolve virtualData
  | .rejectBody blockHash => cs.rejectBody st blockHash

/-- What a step has committed when it calls `ReverseUTXODiffs`, and the arguments of the call. -/
def reversalCall :
    Action → Except Failure (ConsensusStores M × DomainHash × Option UTXODiffReversalData)
  | .insertBlock blockHash updateVirtual isViolatingFinality virtualData => do
    let (st, reversalData) ← cs.commitBlock st blockHash updateVirtual isViolatingFinality
      virtualData
    return (st, blockHash, reversalData)
  | .resolveVirtual isViolatingFinality maxBlocksToResolve _ => do
    match ← cs.findProcessingPoint st isViolatingFinality maxBlocksToResolve with
    | none => return (st, virtualBlockHash, none)
    | some processingPoint =>
      let (st, reversalData) ← cs.commitResolution st processingPoint
      return (st, processingPoint, reversalData)
  | .rejectBody blockHash => return (st, blockHash, none)

end
end Consensus
end Eiyaro
