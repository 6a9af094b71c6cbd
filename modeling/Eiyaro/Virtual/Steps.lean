import Eiyaro.Util.Run
import Eiyaro.Virtual.Pick

/-!
# Moving virtual on the DAG

`AddBlock` and `ResolveVirtual` with the finality check, on the stores that decide which
block is virtual's selected parent. The UTXO side is left out: whether a block passes
its UTXO verification is a parameter, and of the past UTXO that the loop of
`resolveBlockStatus` carries only whether it is nil is kept.

Headers, bodies that fail validation and the moves of the pruning point are steps of
their own.
-/

namespace Eiyaro

/-- The stores together with the tips and virtual. -/
structure ChainState extends VirtualStores where
  tips : List DomainHash
  virtualParents : List DomainHash
  virtualGHOSTDAGData : BlockGHOSTDAGData

namespace ChainState

def virtualSelectedParent (state : ChainState) : Option DomainHash :=
  state.virtualGHOSTDAGData.selectedParent

section
variable (cfg : VirtualConfig) (verifyUTXO : DomainHash → Bool) (state : ChainState)

/-! ## Finality -/

def virtualFinalityPoint : Except Failure DomainHash :=
  calculateFinalityPoint cfg.header state.toHeaderStores
    (stageVirtual state.virtualParents state.virtualGHOSTDAGData)

def isFinalityPointInPastOfPruningPoint (virtualFinalityPoint : DomainHash) : Bool :=
  state.blocks.isAncestorOf virtualFinalityPoint state.pruningPoint

/-- The pruning point stands in for a finality point in its past. -/
def finalityPoint (virtualFinalityPoint : DomainHash) : DomainHash :=
  if state.isFinalityPointInPastOfPruningPoint virtualFinalityPoint then state.pruningPoint
  else virtualFinalityPoint

variable (blockHash : DomainHash)

/-- Whether the block violates finality, and whether to notify about it. -/
def isViolatingFinality : Except Failure (Bool × Bool) :=
  if blockHash = cfg.header.ghostdag.genesisHash then
    .ok (false, false)
  else do
    let virtualFinalityPoint ← state.virtualFinalityPoint cfg
    if isInSelectedParentChainOf state.toHeaderStores (state.finalityPoint virtualFinalityPoint)
        blockHash then
      return (false, false)
    else
      return (true, !state.isFinalityPointInPastOfPruningPoint virtualFinalityPoint)

/-! ## Statuses -/

/-- The pending blocks at the top of a selected parent chain. -/
def takePending : List StoredBlock → Except Failure (List StoredBlock)
  | [] => return []
  | current :: chain => do
    let currentBlockStatus ← fromStore (state.blockStatus.get current.hash)
    if currentBlockStatus ≠ .statusUTXOPendingVerification then
      return []
    else
      let unverifiedBlocks ← takePending chain
      return current :: unverifiedBlocks

def getUnverifiedChainBlocks : Except Failure (List StoredBlock) := do
  let _ ← state.blocks.block blockHash
  state.takePending (selectedParentChain state.blocks (some blockHash))

/-- What the loop of `resolveBlockStatus` carries from one block to the next. -/
structure StatusLoop where
  blockStatus : FinMap DomainHash BlockStatus
  selectedParentStatus : BlockStatus
  hasPreviousUTXOSet : Bool

/-- The status of the selected parent of the last unverified block, and whether its past
UTXO is restored. -/
def selectedParentInfo (lastUnverifiedBlock : StoredBlock) : Except Failure (BlockStatus × Bool) :=
  if lastUnverifiedBlock.hash = cfg.header.ghostdag.genesisHash then
    .ok (.statusUTXOValid, true)
  else do
    let selectedParent ← dereference lastUnverifiedBlock.ghostdagData.selectedParent
    let selectedParentStatus ← fromStore (state.blockStatus.get selectedParent)
    return (selectedParentStatus, selectedParentStatus = .statusUTXOValid ∨
      selectedParentStatus = .statusDisqualifiedFromChain)

/-- One round of the loop of `resolveBlockStatus`. A block that fails verification and
genesis leave no past UTXO to the next block. -/
def resolveNextStatus (loop : StatusLoop) (block : StoredBlock) : Except Failure StatusLoop :=
  let stage (status : BlockStatus) (hasUTXOSet : Bool) : StatusLoop :=
    ⟨loop.blockStatus.insert block.hash status,status,hasUTXOSet⟩
  if !loop.hasPreviousUTXOSet then
    .error (.panic "invalid memory address or nil pointer dereference")
  else if loop.selectedParentStatus = .statusDisqualifiedFromChain then
    .ok (stage .statusDisqualifiedFromChain true)
  else if block.hash = cfg.header.ghostdag.genesisHash then
    .ok (stage .statusUTXOValid false)
  else if verifyUTXO block.hash then
    .ok (stage .statusUTXOValid true)
  else
    .ok (stage .statusDisqualifiedFromChain false)

/-- `resolveBlockStatus`: the statuses of the chain, and that of the block. -/
def resolveBlockStatus : Except Failure (ChainState × BlockStatus) := do
  let unverifiedBlocks ← state.getUnverifiedChainBlocks blockHash
  match unverifiedBlocks.getLast? with
  | none =>
    let status ← fromStore (state.blockStatus.get blockHash)
    return (state, status)
  | some lastUnverifiedBlock =>
    let (selectedParentStatus, hasPreviousUTXOSet) ←
      state.selectedParentInfo cfg lastUnverifiedBlock
    let loop ← unverifiedBlocks.reverse.foldlM (resolveNextStatus cfg verifyUTXO)
      ⟨state.blockStatus,selectedParentStatus,hasPreviousUTXOSet⟩
    return ({ state with blockStatus := loop.blockStatus }, loop.selectedParentStatus)

/-! ## Virtual -/

/-- The part of `updateVirtualWithParents` that concerns the DAG. -/
def updateVirtualWithParents (virtualParents : List DomainHash) : Except Failure ChainState := do
  let data ← ghostdag cfg.header.ghostdag state.blocks virtualParents
  return { state with virtualParents := virtualParents, virtualGHOSTDAGData := data }

def updateVirtual : Except Failure ChainState := do
  let virtualParents ← pickVirtualParents cfg state.toVirtualStores state.tips
  state.updateVirtualWithParents cfg virtualParents

/-! ## Adding a block -/

def isCandidateToBeNextVirtualSelectedParent : Except Failure Bool :=
  if blockHash = cfg.header.ghostdag.genesisHash then
    .ok true
  else do
    let selectedParent ← dereference state.virtualSelectedParent
    less state.blocks selectedParent blockHash

/-- The first part of `AddBlock`. -/
def resolveIfCandidate : Except Failure ChainState := do
  let isCandidate ← state.isCandidateToBeNextVirtualSelectedParent cfg blockHash
  if isCandidate then
    let (isViolatingFinality, _) ← state.isViolatingFinality cfg blockHash
    if isViolatingFinality then
      return state
    else
      let (state, _) ← state.resolveBlockStatus cfg verifyUTXO blockHash
      return state
  else
    return state

def addTip (newTip : StoredBlock) : ChainState :=
  { state with
    tips := if newTip.hash = cfg.header.ghostdag.genesisHash then [newTip.hash]
      else newTip.hash :: state.tips.filter fun tip => tip ∉ newTip.parents }

/-- `AddBlock` of `consensusstatemanager`. -/
def addBlock (block : StoredBlock) (updateVirtual : Bool) : Except Failure ChainState :=
  if updateVirtual then do
    let state ← state.resolveIfCandidate cfg verifyUTXO block.hash
    (state.addTip cfg block).updateVirtual cfg
  else
    .ok (state.addTip cfg block)

def stageStatus (status : BlockStatus) : ChainState :=
  { state with blockStatus := state.blockStatus.insert blockHash status }

def checkParentBody (parent : DomainHash) : Except Failure Unit :=
  match state.blockStatus.get parent with
  | some .statusInvalid => .error (.ruleError .errInvalidAncestorBlock "parent is invalid")
  | some .statusHeaderOnly => .error (.ruleError .errMissingParents "missing parents")
  | some _ => .ok ()
  | none => .error (.ruleError .errMissingParents "missing parents")

/-- `validateAndInsertBlock` of a block with a body whose header is stored. -/
def insertBlock (updateVirtual : Bool) : Except Failure ChainState := do
  let block ← state.blocks.block blockHash
  let status ← fromStore (state.blockStatus.get blockHash)
  if status = .statusInvalid then
    .error (.ruleError .errKnownInvalid "block is a known invalid block")
  else if status ≠ .statusHeaderOnly then
    .error (.ruleError .errDuplicateBlock "block already exists")
  else
    block.parents.forM state.checkParentBody
    (state.stageStatus blockHash .statusUTXOPendingVerification).addBlock cfg verifyUTXO block
      updateVirtual

/-! ## Resolving virtual -/

def tipsInDecreasingGHOSTDAGParentSelectionOrder : Except Failure (List DomainHash) := do
  let tips ← state.tips.mapM state.blocks.block
  return (tips.insertionSort fun a b =>
    !lessData a.hash a.ghostdagData b.hash b.ghostdagData).map StoredBlock.hash

def findPendingTip : List DomainHash → Except Failure (Option (DomainHash × BlockStatus))
  | [] => return none
  | tip :: tips => do
    let (isViolatingFinality, _) ← state.isViolatingFinality cfg tip
    if isViolatingFinality then
      findPendingTip tips
    else
      let status ← fromStore (state.blockStatus.get tip)
      if status = .statusUTXOValid ∨ status = .statusUTXOPendingVerification then
        return some (tip, status)
      else
        findPendingTip tips

def findNextPendingTip : Except Failure (Option (DomainHash × BlockStatus)) := do
  let orderedTips ← state.tipsInDecreasingGHOSTDAGParentSelectionOrder
  state.findPendingTip cfg orderedTips

/-- The loop of `getGHOSTDAGLowerTips`. -/
def takeLowerTips (pendingTip : DomainHash) : List DomainHash → Except Failure (List DomainHash)
  | [] => return []
  | tip :: tips =>
    if tip = pendingTip then
      takeLowerTips pendingTip tips
    else do
      let isLess ← less state.blocks tip pendingTip
      let lowerTips ← takeLowerTips pendingTip tips
      return if isLess then tip :: lowerTips else lowerTips

/-- The pending tip and the tips that are less than it. -/
def getGHOSTDAGLowerTips (pendingTip : DomainHash) : Except Failure (List DomainHash) := do
  let lowerTips ← state.takeLowerTips pendingTip state.tips
  return pendingTip :: lowerTips

def isNewSelectedTip (blockHash oldSelectedTip : DomainHash) : Except Failure Bool :=
  if blockHash = oldSelectedTip then
    .ok true
  else do
    let isLess ← less state.blocks blockHash oldSelectedTip
    return !isLess

/-- The unverified blocks are searched upwards for one that is preferred to virtual's
selected parent. -/
def searchProcessingPoint (unverifiedBlocks : List StoredBlock)
    (previousVirtualSelectedParent : DomainHash) : Nat → Except Failure StoredBlock
  | 0 => do
    let processingPoint ← indexSlice unverifiedBlocks 0
    let isNew ← state.isNewSelectedTip processingPoint.hash previousVirtualSelectedParent
    if isNew then
      return processingPoint
    else
      .error (.error "Expecting the pending tip to overcome the previous selected parent")
  | processingPointIndex+1 => do
    let processingPoint ← indexSlice unverifiedBlocks (processingPointIndex+1)
    let isNew ← state.isNewSelectedTip processingPoint.hash previousVirtualSelectedParent
    if isNew then
      return processingPoint
    else
      searchProcessingPoint unverifiedBlocks previousVirtualSelectedParent processingPointIndex

/-- The pending tip, or a block below it if there are too many blocks to resolve. -/
def chooseProcessingPoint (pendingTip : DomainHash) (unverifiedBlocks : List StoredBlock)
    (previousVirtualSelectedParent : DomainHash) (maxBlocksToResolve : UInt64) :
    Except Failure DomainHash :=
  if maxBlocksToResolve ≠ 0 ∧ unverifiedBlocks.length > maxBlocksToResolve.toNat then do
    let processingPoint ← state.searchProcessingPoint unverifiedBlocks
      previousVirtualSelectedParent (unverifiedBlocks.length - maxBlocksToResolve.toNat)
    return processingPoint.hash
  else
    .ok pendingTip

/-- The processing point is virtual's only parent, unless the pending tip is completely
resolved. -/
def resolveToProcessingPoint (pendingTip processingPoint : DomainHash) :
    Except Failure ChainState := do
  let (state, processingPointStatus) ← state.resolveBlockStatus cfg verifyUTXO processingPoint
  if processingPoint = pendingTip ∧ processingPointStatus = .statusUTXOValid then
    let lowerTips ← state.getGHOSTDAGLowerTips pendingTip
    let virtualParents ← pickVirtualParents cfg state.toVirtualStores lowerTips
    state.updateVirtualWithParents cfg virtualParents
  else
    state.updateVirtualWithParents cfg [processingPoint]

section
variable (maxBlocksToResolve : UInt64)

/-- The pending tip and the block of its chain up to which statuses are resolved, if there is
something to resolve. -/
def findProcessingPoint : Except Failure (Option (DomainHash × DomainHash)) := do
  match ← state.findNextPendingTip cfg with
  | none => return none
  | some (pendingTip, pendingTipStatus) =>
    let previousVirtualSelectedParent ← dereference state.virtualSelectedParent
    if pendingTipStatus = .statusUTXOValid ∧ previousVirtualSelectedParent = pendingTip then
      return none
    else
      let unverifiedBlocks ← state.getUnverifiedChainBlocks pendingTip
      let processingPoint ← state.chooseProcessingPoint pendingTip unverifiedBlocks
        previousVirtualSelectedParent maxBlocksToResolve
      return some (pendingTip, processingPoint)

def resolveVirtual : Except Failure ChainState := do
  match ← state.findProcessingPoint cfg maxBlocksToResolve with
  | none => return state
  | some (pendingTip, processingPoint) =>
    state.resolveToProcessingPoint cfg verifyUTXO pendingTip processingPoint

variable (index : Nat)

/-- A block of the chain that `ResolveVirtual` resolves. -/
def findUnverifiedBlock : Except Failure (Option DomainHash) := do
  match ← state.findProcessingPoint cfg maxBlocksToResolve with
  | none => return none
  | some (_, processingPoint) =>
    let unverifiedBlocks ← state.getUnverifiedChainBlocks processingPoint
    let block ← indexSlice unverifiedBlocks index
    return some block.hash

/-- A call of `ResolveVirtual` that ends with an error. Statuses are committed one by one, from the
oldest block on, and then virtual. The last commit of the call was that of the given block. -/
def failResolveVirtual : Except Failure ChainState := do
  match ← state.findUnverifiedBlock cfg maxBlocksToResolve index with
  | none => return state
  | some lastCommitted =>
    let (state, _) ← state.resolveBlockStatus cfg verifyUTXO lastCommitted
    return state

end

/-! ## The other steps -/

/-- A block without a body. -/
def insertHeader (hash : DomainHash) (header : BlockHeader) : Except Failure ChainState := do
  let stores ← processHeader cfg.header state.toHeaderStores hash header
  return { state with
    toHeaderStores := stores
    blockStatus := state.blockStatus.insert hash .statusHeaderOnly }

/-- The body of a block whose header is stored is not valid. -/
def rejectBody : Except Failure ChainState := do
  let status ← fromStore (state.blockStatus.get blockHash)
  if status = .statusHeaderOnly then
    return state.stageStatus blockHash .statusInvalid
  else
    .error (.ruleError .errDuplicateBlock "block already exists")

/-- The pruning manager takes the pruning point from virtual's selected parent chain. -/
def movePruningPoint (pruningPoint : DomainHash) : Except Failure ChainState := do
  let selectedParent ← dereference state.virtualSelectedParent
  if isInSelectedParentChainOf state.toHeaderStores pruningPoint selectedParent then
    return { state with pruningPoint := pruningPoint }
  else
    .error (.error "the pruning point is not in the selected chain of virtual")

end

/-! ## Runs -/

inductive Action
  | insertHeader (hash : DomainHash) (header : BlockHeader)
  | insertBlock (hash : DomainHash) (updateVirtual : Bool)
  | rejectBody (hash : DomainHash)
  | resolveVirtual (maxBlocksToResolve : UInt64)
  | movePruningPoint (pruningPoint : DomainHash)

variable (cfg : VirtualConfig)

def perform (verifyUTXO : DomainHash → Bool) (state : ChainState) :
    Action → Except Failure ChainState
  | .insertHeader hash header => state.insertHeader cfg hash header
  | .insertBlock hash updateVirtual => state.insertBlock cfg verifyUTXO hash updateVirtual
  | .rejectBody hash => state.rejectBody hash
  | .resolveVirtual maxBlocksToResolve => state.resolveVirtual cfg verifyUTXO maxBlocksToResolve
  | .movePruningPoint pruningPoint => state.movePruningPoint pruningPoint

def step (verifyUTXO : DomainHash → Bool) (state : ChainState)
    (action : Action) : Option ChainState :=
  (state.perform cfg verifyUTXO action).toOption

/-- An action, or a call of `ResolveVirtual` that fails after some of its commits. All other failed
calls leave the stores as they are. -/
inductive Move
  | perform (action : Action)
  | failResolveVirtual (maxBlocksToResolve : UInt64) (index : Nat)

def move (verifyUTXO : DomainHash → Bool) (state : ChainState) : Move → Option ChainState
  | .perform action => state.step cfg verifyUTXO action
  | .failResolveVirtual maxBlocksToResolve index =>
    (state.failResolveVirtual cfg verifyUTXO maxBlocksToResolve index).toOption

/-- A fresh node: genesis is the only tip and virtual's only parent. -/
def init (genesis : HeaderRecord) : ChainState where
  toHeaderStores := initHeaderStores cfg.header genesis
  blockStatus := (∅ : FinMap DomainHash BlockStatus).insert cfg.header.ghostdag.genesisHash
    .statusUTXOValid
  tips := [cfg.header.ghostdag.genesisHash]
  virtualParents := [cfg.header.ghostdag.genesisHash]
  virtualGHOSTDAGData :=
    { blueScore := 1
      blueWork := calcWork cfg.header.ghostdag.genesisBits
      selectedParent := some cfg.header.ghostdag.genesisHash
      mergeSetBlues := [cfg.header.ghostdag.genesisHash]
      mergeSetReds := []
      bluesAnticoneSizes := (∅ : FinMap DomainHash UInt8).insert cfg.header.ghostdag.genesisHash 0 }

end ChainState
end Eiyaro
