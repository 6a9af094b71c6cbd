import Eiyaro.Header.Window

/-!
# Header validation in context

`ValidateHeaderInContext` of `processes/blockvalidator` for a header without
trusted data, with the managers it asks: the past median time, the merge depth
root, the finality point and the DAA score. The scores that a header states are
compared with the computed ones in one direction only.
-/

namespace Eiyaro

structure HeaderConfig where
  ghostdag : GhostdagConfig
  mergeSetSizeLimit : UInt64
  timestampDeviationTolerance : Nat
  difficultyAdjustmentWindowSize : Nat
  mergeDepth : UInt64
  finalityDepth : UInt64

/-- A header with the data that is staged for it before it is validated in
context. -/
structure StagedHeader where
  hash : DomainHash
  header : BlockHeader
  ghostdagData : BlockGHOSTDAGData
  daaScore : UInt64
  daaAddedBlocks : List DomainHash

section
variable (cfg : HeaderConfig) (stores : HeaderStores)

/-- The GHOSTDAG data and the DAA score that `validateDifficulty` stages. -/
def stageHeader (hash : DomainHash) (header : BlockHeader) : Except Failure StagedHeader := do
  let data ← Eiyaro.ghostdag cfg.ghostdag stores.blocks header.directParents
  let window ← blockWindow cfg.ghostdag stores.blocks cfg.difficultyAdjustmentWindowSize data
  let (daaScore, daaAddedBlocks) ← calculateDaaScoreAndAddedBlocks stores data window
  return ⟨hash,header,data,daaScore,daaAddedBlocks⟩

/-! ## Time and merge set -/

def windowMedianTimestamp (window : List StoredBlock) : Except Failure Int := do
  let timestamps ← window.mapM fun block => do
    let record ← stores.record block.hash
    return record.header.timeInMilliseconds
  indexSlice (timestamps.insertionSort (· ≤ ·)) (timestamps.length / 2)

def pastMedianTime (data : BlockGHOSTDAGData) : Except Failure Int := do
  let window ← blockWindow cfg.ghostdag stores.blocks (2*cfg.timestampDeviationTolerance - 1) data
  if window.length = 0 then
    let record ← stores.record cfg.ghostdag.genesisHash
    return record.header.timeInMilliseconds
  else
    windowMedianTimestamp stores window

variable (staged : StagedHeader)

def validateMedianTime : Except Failure Unit :=
  if staged.header.directParents.length = 0 then
    .ok ()
  else do
    let pastMedianTime ← pastMedianTime cfg stores staged.ghostdagData
    if staged.header.timeInMilliseconds < pastMedianTime then
      .error (.ruleError .errTimeTooOld ("block timestamp of " ++
        toString staged.header.timeInMilliseconds ++ " is not after expected " ++
        toString pastMedianTime))
    else
      .ok ()

def checkMergeSizeLimit (data : BlockGHOSTDAGData) : Except Failure Unit :=
  let mergeSetSize := data.mergeSetBlues.length+data.mergeSetReds.length
  if mergeSetSize > cfg.mergeSetSizeLimit.toNat then
    .error (.ruleError .errViolatingMergeLimit ("The block merges " ++ toString mergeSetSize ++
      " blocks > " ++ toString cfg.mergeSetSizeLimit ++ " merge set size limit"))
  else
    .ok ()

/-! ## Merge depth -/

/-- The selected parent chain from a block downwards. -/
def selectedParentChain : BlockStores → Option DomainHash → List StoredBlock
  | [], _ => []
  | next :: older, hash =>
    if hash = some next.hash then next :: selectedParentChain older next.ghostdagData.selectedParent
    else selectedParentChain older hash

def isInSelectedParentChainOf (a b : DomainHash) : Bool :=
  a ∈ (selectedParentChain stores.blocks (some b)).map StoredBlock.hash

/-- The last block before the required blue score on a chain that goes upwards. -/
def climbToBlueScore (requiredBlueScore : UInt64) :
    DomainHash → List StoredBlock → Except Failure DomainHash
  | _, [] =>
    .error (.error "Claimed chain ancestor is not in the selected-parent-chain of highHash")
  | current, next :: chain =>
    if next.ghostdagData.blueScore ≥ requiredBlueScore then .ok current
    else climbToBlueScore requiredBlueScore next.hash chain

/-- The common part of `calculateMergeDepthRoot` and `calculateFinalityPoint`: the
highest chain block that is `depth` below the given one. The search starts at
the point that was recorded for the selected parent. -/
def pointAtDepth (depth : UInt64) (recorded : HeaderRecord → DomainHash) (staged : StagedHeader) :
    Except Failure DomainHash :=
  let data := staged.ghostdagData
  if data.blueScore < depth then
    .ok cfg.ghostdag.genesisHash
  else do
    let pruningPoint ← stores.blocks.block stores.pruningPoint
    let chain := selectedParentChain stores.blocks data.selectedParent
    if data.blueScore < pruningPoint.ghostdagData.blueScore+depth then
      return virtualGenesisBlockHash
    else if stores.pruningPoint ∉ chain.map StoredBlock.hash then
      return virtualGenesisBlockHash
    else
      match data.selectedParent with
      | none => .error (.panic "invalid memory address or nil pointer dereference")
      | some selectedParent =>
        if selectedParent = cfg.ghostdag.genesisHash then
          return cfg.ghostdag.genesisHash
        else
          let record ← stores.record selectedParent
          let current := recorded record
          let current := if current = virtualGenesisBlockHash then stores.pruningPoint else current
          let self : StoredBlock :=
            ⟨staged.hash,staged.header.directParents,staged.header.bits,data⟩
          climbToBlueScore (data.blueScore - depth) current
            ((self :: chain).reverse.dropWhile (·.hash ≠ current)).tail

/-- A selected parent from before the upgrade has no merge depth root, its
finality point stands in. -/
def calculateMergeDepthRoot : Except Failure DomainHash :=
  pointAtDepth cfg stores cfg.mergeDepth
    (fun record => record.mergeDepthRoot.getD record.finalityPoint) staged

def calculateFinalityPoint : Except Failure DomainHash :=
  pointAtDepth cfg stores cfg.finalityDepth HeaderRecord.finalityPoint staged

def nonBoundedMergeDepthViolatingBlues (data : BlockGHOSTDAGData) (mergeDepthRoot : DomainHash) :
    List DomainHash :=
  data.mergeSetBlues.filter (isInSelectedParentChainOf stores mergeDepthRoot)

/-- The merge depth root and the finality point that are staged, if no red block
violates the merge depth. -/
def checkBoundedMergeDepth : Except Failure (DomainHash × DomainHash) := do
  let mergeDepthRoot ← calculateMergeDepthRoot cfg stores staged
  let finalityPoint ← calculateFinalityPoint cfg stores staged
  let blues := nonBoundedMergeDepthViolatingBlues stores staged.ghostdagData mergeDepthRoot
  if staged.ghostdagData.mergeSetReds.any fun red =>
      !stores.blocks.isAncestorOf mergeDepthRoot red &&
        !blues.any (stores.blocks.isAncestorOf red) &&
        staged.header.daaScore ≥ 43334184+1000000 then
    .error (.ruleError .errViolatingBoundedMergeDepth "block is violating bounded merge depth")
  else
    return (mergeDepthRoot, finalityPoint)

/-! ## Scores -/

def checkDAAScore : Except Failure Unit :=
  if staged.header.daaScore < staged.daaScore then
    .error (.ruleError .errUnexpectedDAAScore ("block DAA score of " ++
      toString staged.header.daaScore ++ " is not the expected value of " ++
      toString staged.daaScore))
  else
    .ok ()

def checkBlueWork : Except Failure Unit :=
  if staged.header.blueWork > staged.ghostdagData.blueWork then
    .error (.ruleError .errUnexpectedBlueWork ("block blue work " ++
      toString staged.header.blueWork ++ " is ahead of the expected blue work of " ++
      toString staged.ghostdagData.blueWork))
  else
    .ok ()

def checkHeaderBlueScore : Except Failure Unit :=
  if staged.header.blueScore > staged.ghostdagData.blueScore then
    .error (.ruleError .errUnexpectedBlueScore ("block blue score of " ++
      toString staged.header.blueScore ++ " is ahead of the expected blue score of " ++
      toString staged.ghostdagData.blueScore))
  else
    .ok ()

/-- `ValidateHeaderInContext`. The result is what the validation stages. -/
def validateHeaderInContext : Except Failure (DomainHash × DomainHash) := do
  validateMedianTime cfg stores staged
  checkMergeSizeLimit cfg staged.ghostdagData
  checkIndirectParents staged.header
  let points ← checkBoundedMergeDepth cfg stores staged
  checkDAAScore staged
  checkBlueWork staged
  checkHeaderBlueScore staged
  return points

/-- Validates a header and stores it with the data that was computed for it. -/
def processHeader (hash : DomainHash) (header : BlockHeader) : Except Failure HeaderStores := do
  if hash ∈ stores.blocks.hashes then
    .error (.ruleError .errDuplicateBlock "block already exists")
  else if header.directParents.length = 0 then
    .error (.ruleError .errNoParents "block has no parents")
  else
    checkParentNotVirtualGenesis header
    checkParentHeadersExist stores.blocks header
    checkParentsIncest stores.blocks header.directParents
    checkTarget cfg.ghostdag header
    let staged ← stageHeader cfg stores hash header
    let (mergeDepthRoot, finalityPoint) ← validateHeaderInContext cfg stores staged
    return { stores with
      blocks := ⟨hash,header.directParents,header.bits,staged.ghostdagData⟩ :: stores.blocks
      records := stores.records.insert hash
        ⟨header,staged.daaScore,staged.daaAddedBlocks,some mergeDepthRoot,finalityPoint⟩ }

end

/-! ## What the checks guarantee -/

variable {cfg : HeaderConfig} {stores : HeaderStores} {staged : StagedHeader}

/-- The data that is staged for a header is computed from its parents. -/
lemma stageHeader_spec {hash : DomainHash} {header : BlockHeader}
    (h : stageHeader cfg stores hash header = .ok staged) :
    staged.header = header ∧
      Eiyaro.ghostdag cfg.ghostdag stores.blocks header.directParents = .ok staged.ghostdagData ∧
      ∃ window, blockWindow cfg.ghostdag stores.blocks cfg.difficultyAdjustmentWindowSize
          staged.ghostdagData = .ok window ∧
        calculateDaaScoreAndAddedBlocks stores staged.ghostdagData window =
          .ok (staged.daaScore, staged.daaAddedBlocks) := by
  obtain ⟨_,hd,window,hw,h⟩ := bind₂_eq_ok h
  obtain ⟨⟨daaScore,daaAddedBlocks⟩,hs,h⟩ := bind_eq_ok h
  cases h
  exact ⟨rfl,hd,window,hw,hs⟩

lemma validateHeaderInContext_spec {points : DomainHash × DomainHash}
    (h : validateHeaderInContext cfg stores staged = .ok points) :
    checkBoundedMergeDepth cfg stores staged = .ok points ∧
      staged.daaScore ≤ staged.header.daaScore ∧
      staged.header.blueScore ≤ staged.ghostdagData.blueScore ∧
      staged.header.blueWork ≤ staged.ghostdagData.blueWork := by
  obtain ⟨_,_,_,_,h⟩ := bind₂_eq_ok h
  obtain ⟨_,_,_,hd,h⟩ := bind₂_eq_ok h
  obtain ⟨_,hdaa,_,hwr,h⟩ := bind₂_eq_ok h
  obtain ⟨_,hsc,h⟩ := bind_eq_ok h
  cases h
  obtain ⟨hdaa,-⟩ := of_ite_error hdaa
  obtain ⟨hsc,-⟩ := of_ite_error hsc
  obtain ⟨hwr,-⟩ := of_ite_error hwr
  exact ⟨hd,UInt64.not_lt.1 hdaa,UInt64.not_lt.1 hsc,Nat.not_lt.1 hwr⟩

/-- A header that passes validation in context states at most the blue score and the
blue work that the node computes from its parents. -/
theorem validateHeaderInContext_scores (cfg : HeaderConfig) (stores : HeaderStores)
    (hash : DomainHash) (header : BlockHeader) (staged : StagedHeader)
    (points : DomainHash × DomainHash) (hstaged : stageHeader cfg stores hash header = .ok staged)
    (h : validateHeaderInContext cfg stores staged = .ok points) :
    Eiyaro.ghostdag cfg.ghostdag stores.blocks header.directParents = .ok staged.ghostdagData ∧
      header.blueScore ≤ staged.ghostdagData.blueScore ∧
      header.blueWork ≤ staged.ghostdagData.blueWork := by
  obtain ⟨rfl,hd,-⟩ := stageHeader_spec hstaged
  exact ⟨hd,(validateHeaderInContext_spec h).2.2⟩

/-! ## A child of genesis -/

def sampleConfig : HeaderConfig where
  ghostdag := configWithK 18
  mergeSetSizeLimit := 180
  timestampDeviationTolerance := 132
  difficultyAdjustmentWindowSize := 2641
  mergeDepth := 360
  finalityDepth := 4320

def genesisStores : HeaderStores where
  blocks := initStores (configWithK 18)
  records := (∅ : FinMap DomainHash HeaderRecord).insert 0
    ⟨headerOn [],0,[],some virtualGenesisBlockHash,virtualGenesisBlockHash⟩
  pruningPoint := 0

/-- A child of genesis that states its DAA score and understates the rest. -/
def misstatedHeader : BlockHeader :=
  headerOn [0]

/-- The data that the node computes for any child of genesis. -/
def stagedOnGenesis (header : BlockHeader) : StagedHeader where
  hash := 1
  header := header
  ghostdagData := ⟨1,2,some 0,[0],[],(∅ : FinMap DomainHash UInt8).insert 0 0⟩
  daaScore := 0
  daaAddedBlocks := []

theorem validateHeaderInContext_scores_on_genesis :
    misstatedHeader.blueScore ≤ (stagedOnGenesis misstatedHeader).ghostdagData.blueScore ∧
      misstatedHeader.blueWork ≤ (stagedOnGenesis misstatedHeader).ghostdagData.blueWork :=
  (validateHeaderInContext_scores sampleConfig genesisStores 1 misstatedHeader
    (stagedOnGenesis misstatedHeader) (0, 0) rfl rfl).2

/-- The header passes, and its blue score and blue work are not the computed ones. -/
theorem misstatedHeader_accepted :
    stageHeader sampleConfig genesisStores 1 misstatedHeader =
        .ok (stagedOnGenesis misstatedHeader) ∧
      validateHeaderInContext sampleConfig genesisStores (stagedOnGenesis misstatedHeader) =
        .ok (0, 0) ∧
      misstatedHeader.daaScore = (stagedOnGenesis misstatedHeader).daaScore ∧
      misstatedHeader.blueScore ≠ (stagedOnGenesis misstatedHeader).ghostdagData.blueScore ∧
      misstatedHeader.blueWork ≠ (stagedOnGenesis misstatedHeader).ghostdagData.blueWork :=
  ⟨rfl,rfl,rfl,by decide,by decide⟩

end Eiyaro
