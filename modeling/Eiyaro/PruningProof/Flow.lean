import Eiyaro.Ghostdag.Failures
import Eiyaro.PruningProof.Validation

/-!
# Downloading a proof and its trusted data

The part of `ibd_with_headers_proof.go` that reads what a peer sends about its pruning point: the
proof, the list of past pruning points, the trusted data, and the pruning point and its anticone
with indexes into the trusted data. The messages of the peer are a list, which is read from the
front. A message of another type is an error, and so is a missing one.

Applying the proof to the staging consensus, the queries of `ArePruningPointsViolatingFinality` to
the current one and the validation of a block after the checks of its header in isolation are
arbitrary functions.
-/

namespace Eiyaro
open List NoPanic
variable {proof : PruningPointProof}

namespace PruningProof

/-! ## Messages -/

structure TrustedDataDAABlock where
  header : BlockHeader
  ghostdagData : BlockGHOSTDAGData

structure GHOSTDAGHashPair where
  hash : DomainHash
  ghostdagData : BlockGHOSTDAGData

structure TrustedData where
  daaWindow : List TrustedDataDAABlock
  ghostdagData : List GHOSTDAGHashPair

structure BlockWithTrustedDataV4 where
  block : DomainBlock
  daaWindowIndices : List UInt64
  ghostdagDataIndices : List UInt64

inductive Message
  | pruningPointProof (proof : PruningPointProof)
  | pruningPoints (headers : List BlockHeader)
  | trustedData (data : TrustedData)
  | blockWithTrustedDataV4 (block : BlockWithTrustedDataV4)
  | doneBlocksWithTrustedData
  | other (command : String)

def Message.command : Message → String
  | pruningPointProof _ => "PruningPointProof"
  | pruningPoints _ => "PruningPoints"
  | trustedData _ => "TrustedData"
  | blockWithTrustedDataV4 _ => "BlockWithTrustedDataV4"
  | doneBlocksWithTrustedData => "DoneBlocksWithTrustedData"
  | other command => command

/-- The messages that the peer has sent, or will send in time. -/
abbrev Route := List Message

def unexpectedMessage {α : Type} (expected : String) (message : Message) : Except Failure α :=
  .error (.error ("received unexpected message type. expected: " ++ expected ++ ", got: " ++
    message.command))

def timeoutError {α : Type} : Except Failure α := .error (.error "timed out")

def receivePruningPointProof : Route → Except Failure (PruningPointProof × Route)
  | [] => timeoutError
  | .pruningPointProof proof :: route => .ok (proof, route)
  | message :: _ => unexpectedMessage "PruningPointProof" message

def receivePruningPoints : Route → Except Failure (List BlockHeader × Route)
  | [] => timeoutError
  | .pruningPoints headers :: route => .ok (headers, route)
  | message :: _ => unexpectedMessage "PruningPoints" message

def receiveTrustedData : Route → Except Failure (TrustedData × Route)
  | [] => timeoutError
  | .trustedData data :: route => .ok (data, route)
  | message :: _ => unexpectedMessage "TrustedData" message

/-- `none` for the message that there are no more blocks. -/
def receiveBlockWithTrustedData : Route → Except Failure (Option BlockWithTrustedDataV4 × Route)
  | [] => timeoutError
  | .blockWithTrustedDataV4 block :: route => .ok (some block, route)
  | .doneBlocksWithTrustedData :: route => .ok (none, route)
  | message :: _ => unexpectedMessage "BlockWithTrustedData or DoneBlocksWithTrustedData" message

/-! ## The consensus -/

/-- The stores of the staging consensus that the messages go to. -/
structure StagingConsensus where
  pruningPointByIndex : FinMap Nat DomainHash
  currentPruningPointIndex : Option Nat
  pruningPointCandidate : Option DomainHash
  headers : FinMap DomainHash BlockHeader
  daaWindow : FinMap (DomainHash × Nat) GHOSTDAGHashPair
  ghostdagData : FinMap DomainHash BlockGHOSTDAGData
  trustedGHOSTDAGData : FinMap DomainHash BlockGHOSTDAGData
  daaScores : FinMap DomainHash UInt64
  blocks : FinMap DomainHash DomainBlock
  blockCount : UInt64
  blockStatus : FinMap DomainHash BlockStatus

structure Flow where
  ppm : Manager
  node : NodeState
  /-- The time of the node in milliseconds. -/
  now : Int
  applyPruningPointProof : PruningPointProof → Except Failure StagingConsensus
  virtualFinalityPointFinalityPoint : Except Failure DomainHash
  blockExists : DomainHash → Bool
  isInSelectedParentChainOf : DomainHash → DomainHash → Except Failure Bool
  /-- What `validateAndInsertBlock` does once the header has passed the checks in isolation. -/
  insertBlock : StagingConsensus → DomainBlock → Except Failure StagingConsensus

namespace Flow
variable (flow : Flow)

/-- The loop of `ArePruningPointsViolatingFinality`, from the most recent pruning point on. -/
def violatingFinality (finalityPoint : DomainHash) : List BlockHeader → Except Failure Bool
  | [] => .ok true
  | header :: headers =>
    let blockHash := flow.ppm.headerHash header
    if flow.blockExists blockHash then do
      let isInChain ← flow.isInSelectedParentChainOf finalityPoint blockHash
      .ok !isInChain
    else
      violatingFinality finalityPoint headers

def arePruningPointsViolatingFinality (pruningPoints : List BlockHeader) : Except Failure Bool := do
  let finalityPoint ← flow.virtualFinalityPointFinalityPoint
  flow.violatingFinality finalityPoint pruningPoints.reverse

/-- The index that is staged starts at 0, even if a higher one is stored. -/
def stagePruningPointByIndex (stored : Option Nat) (staged : FinMap Nat DomainHash × Option Nat)
    (entry : DomainHash × Nat) : Except Failure (FinMap Nat DomainHash × Option Nat) :=
  let (hash, index) := entry
  if (staged.1.get index).isSome then
    .error (.error ("already staged for pruning point with index " ++ toString index))
  else
    let current := staged.2.getD 0
    match staged.2.or stored with
    | none => .ok (staged.1.insert index hash, some index)
    | some pruningPointIndex =>
      .ok (staged.1.insert index hash, some (if index > pruningPointIndex then index else current))

variable (staging : StagingConsensus)

def importPruningPoints (pruningPoints : List BlockHeader) : Except Failure StagingConsensus := do
  let hashes := pruningPoints.map flow.ppm.headerHash
  let staged ← hashes.zipIdx.foldlM (stagePruningPointByIndex staging.currentPruningPointIndex)
    (∅, none)
  let lastPruningPointHeader ← lastOfSlice pruningPoints
  .ok { staging with
    pruningPointByIndex := staging.pruningPointByIndex.insertAll staged.1
    currentPruningPointIndex := staged.2.or staging.currentPruningPointIndex
    headers := staging.headers.insertEntries (hashes.zip pruningPoints)
    pruningPointCandidate := some (flow.ppm.headerHash lastPruningPointHeader) }

/-- The data without the blocks of which the consensus has no GHOSTDAG data. -/
def ghostdagDataWithoutPrunedBlocks (data : BlockGHOSTDAGData) : BlockGHOSTDAGData :=
  let isPruned := fun hash => (staging.ghostdagData.get hash).isNone
  { data with
    mergeSetBlues := data.mergeSetBlues.filterMap fun hash =>
      if isPruned hash then
        if data.selectedParent = some hash then some virtualGenesisBlockHash else none
      else
        some hash
    mergeSetReds := data.mergeSetReds.filter fun hash => !isPruned hash
    selectedParent := data.selectedParent.map fun hash =>
      if isPruned hash then virtualGenesisBlockHash else hash }

def checkBlockStatus (block : DomainBlock) : Except Failure Unit :=
  let hash := flow.ppm.headerHash block.header
  match staging.blockStatus.get hash with
  | none => .ok ()
  | some status =>
    if status = .statusInvalid then
      .error (.ruleError .errKnownInvalid "block is a known invalid block")
    else if block.transactions.length ≠ 0 ∧ (staging.blocks.get hash).isSome then
      .error (.ruleError .errDuplicateBlock "block already exists")
    else if block.transactions.length = 0 ∧ (staging.headers.get hash).isSome then
      .error (.ruleError .errDuplicateBlock "block header already exists")
    else
      .ok ()

def hasValidatedHeader (hash : DomainHash) : Bool :=
  (staging.blockStatus.get hash).any fun status => status ≠ .statusInvalid

/-- `validatePreProofOfWork`: a header that is known already is not checked again. -/
def validatePreProofOfWork (block : DomainBlock) : Except Failure Unit :=
  let hash := flow.ppm.headerHash block.header
  if hasValidatedHeader staging hash then
    .ok ()
  else
    validateHeaderInIsolation flow.ppm.params (hash = flow.ppm.genesisHash) flow.now block.header

def validateAndInsertBlock (block : DomainBlock) : Except Failure StagingConsensus :=
  if flow.ppm.headerHash block.header = flow.ppm.genesisHash ∧ staging.blockCount ≠ 0 then
    .error (.ruleError .errGenesisOnInitializedConsensus
      "Cannot add genesis to an initialized consensus")
  else do
    flow.checkBlockStatus staging block
    flow.validatePreProofOfWork staging block
    flow.insertBlock staging block

def validateAndInsertBlockWithTrustedData (block : DomainBlock)
    (daaWindow : List TrustedDataDAABlock) (ghostdagData : List GHOSTDAGHashPair) :
    Except Failure StagingConsensus := do
  let blockHash := flow.ppm.headerHash block.header
  let windowHashes := daaWindow.map fun daaBlock => flow.ppm.headerHash daaBlock.header
  let pair ← indexSlice ghostdagData 0
  let staging := { staging with
    daaWindow := staging.daaWindow.insertEntries
      ((windowHashes.zip daaWindow).zipIdx.map fun ((hash, daaBlock), i) =>
        ((blockHash, i), ⟨hash,daaBlock.ghostdagData⟩))
    headers := staging.headers.insertEntries (windowHashes.zip (daaWindow.map (·.header)))
    ghostdagData := staging.ghostdagData.insert blockHash
      (ghostdagDataWithoutPrunedBlocks staging pair.ghostdagData)
    trustedGHOSTDAGData := staging.trustedGHOSTDAGData.insertEntries
      (ghostdagData.map fun pair => (pair.hash, pair.ghostdagData))
    daaScores := staging.daaScores.insert blockHash block.header.daaScore }
  flow.validateAndInsertBlock staging block

/-! ## The flow -/

def syncAndValidatePruningPointProof (route : Route) :
    Except Failure (DomainHash × StagingConsensus × Route) := do
  let (proof, route) ← receivePruningPointProof route
  flow.ppm.validatePruningPointProof flow.node proof
  let staging ← flow.applyPruningPointProof proof
  let pruningPointHeader ← Manager.proofPruningPointHeader proof
  .ok (flow.ppm.headerHash pruningPointHeader, staging, route)

variable (proofPruningPoint : DomainHash)

section
variable (staging : StagingConsensus) (data : TrustedData) (route : Route)

def validateAndInsertPruningPoints : Except Failure (StagingConsensus × Route) := do
  let (headers, route) ← receivePruningPoints route
  let violating ← flow.arePruningPointsViolatingFinality headers
  if violating then
    .error (.error "pruning points are violating finality")
  else do
    let lastHeader ← lastOfSlice headers
    if flow.ppm.headerHash lastHeader ≠ proofPruningPoint then
      .error (.error "the proof pruning point is not equal to the last pruning point in the list")
    else do
      let staging ← flow.importPruningPoints staging headers
      .ok (staging, route)

def processBlockWithTrustedData (block : BlockWithTrustedDataV4)
    (data : TrustedData) : Except Failure StagingConsensus := do
  let daaWindow ← block.daaWindowIndices.mapM fun index => indexSlice data.daaWindow index.toNat
  let ghostdagData ← block.ghostdagDataIndices.mapM fun index =>
    indexSlice data.ghostdagData index.toNat
  flow.validateAndInsertBlockWithTrustedData staging block.block daaWindow ghostdagData

/-- The loop over the blocks of the anticone. -/
def processAnticone : StagingConsensus → Route → Except Failure (StagingConsensus × Route)
  | _, [] => timeoutError
  | staging, .blockWithTrustedDataV4 block :: route => do
    let staging ← flow.processBlockWithTrustedData staging block data
    processAnticone staging route
  | staging, .doneBlocksWithTrustedData :: route => .ok (staging, route)
  | _, message :: _ =>
    unexpectedMessage "BlockWithTrustedData or DoneBlocksWithTrustedData" message

def processPruningPoint (block : Option BlockWithTrustedDataV4) : Except Failure StagingConsensus :=
  match block with
  | none => .error (.error "got `done` message before receiving the pruning point")
  | some block =>
    if flow.ppm.headerHash block.block.header ≠ proofPruningPoint then
      .error (.error "first block with trusted data is not the pruning point")
    else
      flow.processBlockWithTrustedData staging block data

def syncPruningPointsAndPruningPointAnticone : Except Failure (StagingConsensus × Route) := do
  let (staging, route) ← flow.validateAndInsertPruningPoints proofPruningPoint staging route
  let (data, route) ← receiveTrustedData route
  let (block, route) ← receiveBlockWithTrustedData route
  let staging ← flow.processPruningPoint proofPruningPoint staging data block
  flow.processAnticone data staging route

/-- `downloadHeadersAndPruningUTXOSet` up to the headers in the future of the pruning point. -/
def downloadProofAndAnticone : Except Failure (StagingConsensus × Route) := do
  let (proofPruningPoint, staging, route) ← flow.syncAndValidatePruningPointProof route
  flow.syncPruningPointsAndPruningPointAnticone proofPruningPoint staging route

end

/-! ## Accesses within the range -/

/-- The parts of the node that are arbitrary do not panic. -/
structure PartsDoNotPanic : Prop where
  addToReachability : ∀ level blocks hash, NoPanic (flow.ppm.addToReachability level blocks hash)
  applyPruningPointProof : ∀ proof, NoPanic (flow.applyPruningPointProof proof)
  virtualFinalityPointFinalityPoint : NoPanic flow.virtualFinalityPointFinalityPoint
  isInSelectedParentChainOf : ∀ low high, NoPanic (flow.isInSelectedParentChainOf low high)
  insertBlock : ∀ staging block, NoPanic (flow.insertBlock staging block)

/-- The lists of the parameters have an entry for the block version. -/
structure ParamsInRange : Prop where
  k : (getBlockVersion flow.ppm.blockVersion - 1).toNat < flow.ppm.params.k.length
  targetTimePerBlock : 0 < flow.ppm.params.targetTimePerBlock.length

/-- If the parents of a header are counted, there is a limit for its version. -/
def LimitInRange (header : BlockHeader) : Prop :=
  CountsParents flow.ppm.params (flow.ppm.headerHash header = flow.ppm.genesisHash) flow.now
    header → (expectedBlockVersion flow.ppm.params header.daaScore).toNat - 1 <
      flow.ppm.params.maxBlockParents.length

/-- The header of a block is going to be validated: the consensus has no status of it. -/
def ValidatesHeader (staging : StagingConsensus) (header : BlockHeader) : Prop :=
  staging.blockStatus.get (flow.ppm.headerHash header) = none ∧
    (flow.ppm.headerHash header = flow.ppm.genesisHash → staging.blockCount = 0)

end Flow

variable {slice : List α} {α : Type}

lemma noPanic_lastOfSlice (h : slice ≠ []) : NoPanic (lastOfSlice slice) := by
  rw [lastOfSlice,getLast?_eq_some_getLast h]
  exact .ok _

lemma noPanic_getGHOSTDAGData (node : NodeState) (level : Nat) (hash : DomainHash) :
    NoPanic (node.getGHOSTDAGData level hash) := by
  unfold NodeState.getGHOSTDAGData
  split
  · exact .ok _
  · exact .error _

namespace Manager
variable {ppm : Manager} {node : NodeState}

lemma noPanic_addHeader
    (hk : (getBlockVersion ppm.blockVersion - 1).toNat < ppm.params.k.length)
    (hrc : ∀ level blocks hash, NoPanic (ppm.addToReachability level blocks hash))
    (level : Nat) (state : BlockStores × Option DomainHash) (entry : BlockHeader × Nat) :
    NoPanic (ppm.addHeader level state entry) := by
  refine .ite (fun _ => .ruleError _ _) fun _ => bind ?_ fun _ => ?_
  · exact .ite (fun _ => .ite (fun _ => .ruleError _ _) fun _ => .ok _) fun _ => .ok _
  · refine bind ((noPanic_indexSlice_iff.2 hk).bind fun _ => .ghostdag _) fun _ => ?_
    refine (NoPanic.findSelectedParent _ _).bind fun _ => ?_
    exact (hrc _ _ _).bind fun _ => .ok _

lemma noPanic_descend (requiredBlueScore : UInt64) (blocks : BlockStores)
    (current : Option DomainHash) : NoPanic (descend requiredBlueScore blocks current) := by
  induction blocks generalizing current with
  | nil => exact .error _
  | cons _ _ ih =>
    refine .ite (fun _ => .ite (fun _ => ?_) fun _ => .ok _) fun _ => ih _
    exact .ite (fun _ => .ok _) fun _ => ih _

section
variable (hk : (getBlockVersion ppm.blockVersion - 1).toNat < ppm.params.k.length)
  (hrc : ∀ level blocks hash, NoPanic (ppm.addToReachability level blocks hash))
  (pruningPointHeader : BlockHeader)
include hk hrc pruningPointHeader

lemma noPanic_validateLevel (level : Nat) (headers : List BlockHeader) (next : Option ProofLevel) :
    NoPanic (ppm.validateLevel pruningPointHeader level headers next) := by
  refine (foldlM (fun state entry _ => noPanic_addHeader hk hrc level state entry)
    _).bind fun state => ?_
  refine bind ?_ fun _ => ?_
  · cases next with
    | none => exact .ok _
    | some next =>
      refine bind ?_ fun _ => ?_
      · exact (block _ _).bind fun _ => noPanic_descend _ _ _
      · exact .ite (fun _ => .ok _) fun _ => .ruleError _ _
  · cases state.2 with
    | none => exact .ruleError _ _
    | some _ => exact .ite (fun _ => .ruleError _ _) fun _ => .ok _

-- The proof has a list of headers for every level below the given one.
lemma noPanic_validateLevels {count : Nat} (hc : count ≤ proof.length) (above : List ProofLevel) :
    NoPanic (ppm.validateLevels proof pruningPointHeader count above) := by
  induction count generalizing above with
  | zero => exact .ok _
  | succ _ ih =>
    refine (noPanic_indexSlice_iff.2 (by omega)).bind fun _ => ?_
    refine (noPanic_validateLevel hk hrc _ _ _ _).bind fun _ => ?_
    exact ih (by omega) _

end

lemma noPanic_sharedBlock (level : Nat) (blocks : BlockStores) (current : Option DomainHash) :
    NoPanic (sharedBlock node level blocks current) := by
  induction blocks generalizing current with
  | nil => exact .error _
  | cons next _ ih =>
    refine .ite (fun _ => ?_) fun _ => ih _
    cases node.ghostdagData level next.hash with
    | none => exact .ite (fun _ => .ok _) fun _ => ih _
    | some _ => exact .ok _

lemma noPanic_foundBetterParent (level : Nat) (diff : Int) (sharedBlueWork : Nat)
    (parents : List DomainHash) :
    NoPanic (foundBetterParent node level diff sharedBlueWork parents) := by
  induction parents with
  | nil => exact .ok _
  | cons _ parents ih =>
    exact (noPanic_getGHOSTDAGData _ _ _).bind fun _ => .ite (fun _ => .ok _) fun _ => ih

lemma noPanic_foundShortParent (level : Nat) (parents : List DomainHash) :
    NoPanic (ppm.foundShortParent node level parents) := by
  induction parents with
  | nil => exact .ok _
  | cons _ parents ih =>
    exact (noPanic_getGHOSTDAGData _ _ _).bind fun _ => .ite (fun _ => .ok _) fun _ => ih

lemma noPanic_compareLevel (pruningPointHeader : BlockHeader) (proofLevel : ProofLevel)
    (level : Nat) : NoPanic (ppm.compareLevel node pruningPointHeader proofLevel level) := by
  refine bind ?_ fun _ => ?_
  · exact .ite (fun _ => .ite (fun _ => .ruleError _ _) fun _ => .ok _)
      fun _ => .ite (fun _ => .ruleError _ _) fun _ => .ok _
  · refine (block _ _).bind fun _ => .ite (fun _ => .ok _) fun _ => ?_
    refine (noPanic_sharedBlock _ _ _).bind fun shared => ?_
    cases shared with
    | none => exact .ok _
    | some shared =>
      refine (noPanic_foundBetterParent _ _ _ _).bind fun _ => ?_
      exact .ite (fun _ => .ruleError _ _) fun _ => .ok _

lemma noPanic_compareLevels (pruningPointHeader : BlockHeader) (levels : List (ProofLevel × Nat)) :
    NoPanic (ppm.compareLevels node pruningPointHeader levels) := by
  induction levels with
  | nil => exact .ok _
  | cons _ levels ih =>
    exact (noPanic_compareLevel _ _ _).bind fun _ => .ite (fun _ => .ok _) fun _ => ih

lemma noPanic_compareWithoutSharedBlock (count : Nat) :
    NoPanic (ppm.compareWithoutSharedBlock node count) := by
  induction count with
  | zero => exact .ruleError _ _
  | succ _ ih =>
    unfold compareWithoutSharedBlock
    split
    · exact .ok _
    · exact (noPanic_foundShortParent _ _).bind fun _ => .ite (fun _ => .ok _) fun _ => ih

lemma noPanic_proofPruningPointHeader (hne : proof ≠ [])
    (hl0 : proof.head? ≠ some []) : NoPanic (proofPruningPointHeader proof) := by
  cases proof with
  | nil => exact absurd rfl hne
  | cons level0Headers _ =>
    refine (ok level0Headers).bind_ok fun _ hh => ?_
    cases hh
    exact noPanic_lastOfSlice fun hn => hl0 (by rw [hn,head?_cons])

/-- The last header of level 0 is read before anything says that there is one. -/
lemma noPanic_validatePruningPointProof_iff
    (hk : (getBlockVersion ppm.blockVersion - 1).toNat < ppm.params.k.length)
    (hrc : ∀ level blocks hash, NoPanic (ppm.addToReachability level blocks hash)) :
    NoPanic (ppm.validatePruningPointProof node proof) ↔ proof.head? ≠ some [] := by
  constructor
  · rintro h hl0
    obtain ⟨_,rfl⟩ := head?_eq_some_iff.1 hl0
    exact h _ rfl
  · intro hl0
    refine .ite (fun _ => .ruleError _ _) fun hl => ?_
    have hne : proof ≠ [] := fun hn => hl (by rw [hn,length_nil])
    refine (noPanic_proofPruningPointHeader hne hl0).bind fun _ => ?_
    refine .ite (fun _ => .ruleError _ _) fun _ => bind ?_ fun _ => ?_
    · exact noPanic_validateLevels hk hrc _ (by omega) _
    · refine (noPanic_compareLevels _ _).bind fun _ => ?_
      exact .ite (fun _ => .ok _) fun _ => noPanic_compareWithoutSharedBlock _

end Manager

/-- The indexes of a block are within the trusted data, and there is one for its GHOSTDAG data. -/
def BlockWithTrustedDataV4.InRange (block : BlockWithTrustedDataV4) (data : TrustedData) : Prop :=
  (∀ index ∈ block.daaWindowIndices, index.toNat < data.daaWindow.length) ∧
    (∀ index ∈ block.ghostdagDataIndices, index.toNat < data.ghostdagData.length) ∧
    block.ghostdagDataIndices ≠ []

namespace Flow
variable {flow : Flow} {pruningPoints : List BlockHeader} {data : TrustedData} {route rest : Route}

lemma noPanic_arePruningPointsViolatingFinality (hpr : flow.PartsDoNotPanic)
    (pruningPoints : List BlockHeader) :
    NoPanic (flow.arePruningPointsViolatingFinality pruningPoints) := by
  refine hpr.virtualFinalityPointFinalityPoint.bind fun _ => ?_
  induction pruningPoints.reverse with
  | nil => exact .ok _
  | cons _ _ ih =>
    refine .ite (fun _ => ?_) fun _ => ih
    exact (hpr.isInSelectedParentChainOf _ _).bind fun _ => .ok _

/-- Without a known pruning point the list violates finality, so an empty one never gets to the
accesses to its last element. -/
lemma ne_nil_of_not_violating
    (h : flow.arePruningPointsViolatingFinality pruningPoints = .ok false) :
    pruningPoints ≠ [] := by
  rintro rfl
  obtain ⟨_,-,h⟩ := bind_eq_ok h
  cases h

lemma noPanic_importPruningPoints (hne : pruningPoints ≠ [])
    (staging : StagingConsensus) : NoPanic (flow.importPruningPoints staging pruningPoints) := by
  refine (foldlM (fun staged _ _ => ?_) _).bind fun staged => ?_
  · refine .ite (fun _ => .error _) fun _ => ?_
    cases staged.2.or staging.currentPruningPointIndex with
    | none | some _ => exact .ok _
  · exact (noPanic_lastOfSlice hne).bind fun _ => .ok _

section
variable (hpr : flow.PartsDoNotPanic) (hpi : flow.ParamsInRange)
include hpr hpi

/-- Whatever the status of the block is, only its header can lead to an access out of range. -/
lemma noPanic_validateAndInsertBlock_iff {staging : StagingConsensus} {block : DomainBlock} :
    NoPanic (flow.validateAndInsertBlock staging block) ↔
      (flow.ValidatesHeader staging block.header → flow.LimitInRange block.header) := by
  unfold validateAndInsertBlock
  split
  · next hg => exact iff_of_true (.ruleError _ _) fun h => absurd (h.2 hg.1) hg.2
  · next hg =>
    cases hs : staging.blockStatus.get (flow.ppm.headerHash block.header) with
    | none =>
      have hc : flow.checkBlockStatus staging block = .ok () := by
        simp only [checkBlockStatus,hs]
      have hp : flow.validatePreProofOfWork staging block = validateHeaderInIsolation
          flow.ppm.params (flow.ppm.headerHash block.header = flow.ppm.genesisHash) flow.now
          block.header := by
        simp [validatePreProofOfWork,hasValidatedHeader,hs]
      have hv : flow.ValidatesHeader staging block.header :=
        ⟨hs,fun h => by_contra fun hc => hg ⟨h,hc⟩⟩
      rw [hc,ok_bind,hp,noPanic_bind_iff,imp_iff_right hv,LimitInRange,
        validateHeaderInIsolation_noPanic_iff hpi.targetTimePerBlock]
      exact and_iff_left fun _ _ => hpr.insertBlock _ _
    | some status =>
      refine iff_of_true (bind_ok ?_ fun _ hc => bind ?_ fun _ => hpr.insertBlock _ _)
        fun h => absurd (hs.symm.trans h.1) (Option.some_ne_none _)
      · simp only [checkBlockStatus,hs]
        refine .ite (fun _ => .ruleError _ _) fun _ => .ite (fun _ => .ruleError _ _) fun _ => ?_
        exact .ite (fun _ => .ruleError _ _) fun _ => .ok _
      · -- An invalid block does not get this far, so the header was validated before.
        have hne : status ≠ .statusInvalid := by
          rintro rfl
          simp [checkBlockStatus,hs] at hc
        rw [validatePreProofOfWork,if_pos (by simp [hasValidatedHeader,hs,hne])]
        exact .ok _

lemma noPanic_validateAndInsertBlockWithTrustedData_iff {staging : StagingConsensus}
    {block : DomainBlock} {daaWindow : List TrustedDataDAABlock}
    {ghostdagData : List GHOSTDAGHashPair} :
    NoPanic (flow.validateAndInsertBlockWithTrustedData staging block daaWindow ghostdagData) ↔
      0 < ghostdagData.length ∧
        (flow.ValidatesHeader staging block.header → flow.LimitInRange block.header) := by
  rw [validateAndInsertBlockWithTrustedData,noPanic_bind_iff,noPanic_indexSlice_iff]
  refine and_congr_right fun hl => ?_
  simp only [indexSlice_of_lt hl,Except.ok.injEq,forall_eq',
    noPanic_validateAndInsertBlock_iff hpr hpi]
  -- Staging the trusted data does not change the statuses.
  rfl

lemma noPanic_processBlockWithTrustedData_iff
    {block : BlockWithTrustedDataV4} {staging : StagingConsensus} :
    NoPanic (flow.processBlockWithTrustedData staging block data) ↔ block.InRange data ∧
      (flow.ValidatesHeader staging block.block.header →
        flow.LimitInRange block.block.header) := by
  rw [processBlockWithTrustedData,noPanic_bind_iff,noPanic_mapM_indexSlice_iff]
  constructor
  · rintro ⟨hw,h⟩
    obtain ⟨daaWindow,hd⟩ := mapM_eq_ok fun index hi => ⟨_,indexSlice_of_lt (hw index hi)⟩
    obtain ⟨hg,h⟩ := noPanic_bind_iff.1 (h daaWindow hd)
    rw [noPanic_mapM_indexSlice_iff] at hg
    obtain ⟨ghostdagData,hgd⟩ := mapM_eq_ok fun index hi => ⟨_,indexSlice_of_lt (hg index hi)⟩
    obtain ⟨hp,hl⟩ :=
      (noPanic_validateAndInsertBlockWithTrustedData_iff hpr hpi).1 (h ghostdagData hgd)
    rw [length_mapM_ok hgd,length_pos_iff] at hp
    exact ⟨⟨hw,hg,hp⟩,hl⟩
  · rintro ⟨⟨hw,hg,hne⟩,hl⟩
    refine ⟨hw,fun _ _ => (noPanic_mapM_indexSlice_iff.2 hg).bind_ok fun ghostdagData hgd => ?_⟩
    rw [noPanic_validateAndInsertBlockWithTrustedData_iff hpr hpi,length_mapM_ok hgd]
    exact ⟨length_pos_iff.2 hne,hl⟩

/-- The indexes of a block are within the trusted data, and so is the limit of its parents. -/
lemma noPanic_processBlockWithTrustedData {block : BlockWithTrustedDataV4}
    (hr : block.InRange data ∧ flow.LimitInRange block.block.header)
    (staging : StagingConsensus) :
    NoPanic (flow.processBlockWithTrustedData staging block data) :=
  (noPanic_processBlockWithTrustedData_iff hpr hpi).2 ⟨hr.1,fun _ => hr.2⟩

lemma noPanic_processAnticone
    (hr : ∀ block, .blockWithTrustedDataV4 block ∈ route →
      block.InRange data ∧ flow.LimitInRange block.block.header)
    (staging : StagingConsensus) : NoPanic (flow.processAnticone data staging route) := by
  induction route generalizing staging with
  | nil => exact .error _
  | cons message route ih =>
    have hrs := ih fun block hb => hr block (mem_cons_of_mem _ hb)
    cases message with
    | blockWithTrustedDataV4 block =>
      refine bind ?_ fun staging => hrs staging
      exact noPanic_processBlockWithTrustedData hpr hpi (hr block mem_cons_self) _
    | doneBlocksWithTrustedData => exact .ok _
    | pruningPointProof _ | pruningPoints _ | trustedData _ | other _ => exact .error _

end

/-! Every step reads one message from the front of the route. -/

lemma receivePruningPointProof_safe :
    Safe (fun r => route = .pruningPointProof r.1 :: r.2) (receivePruningPointProof route) := by
  unfold receivePruningPointProof
  split
  · exact .error _
  · exact .ok rfl
  · exact .error _

lemma receivePruningPoints_safe :
    Safe (fun r => route = .pruningPoints r.1 :: r.2) (receivePruningPoints route) := by
  unfold receivePruningPoints
  split
  · exact .error _
  · exact .ok rfl
  · exact .error _

lemma receiveTrustedData_safe :
    Safe (fun r => route = .trustedData r.1 :: r.2) (receiveTrustedData route) := by
  unfold receiveTrustedData
  split
  · exact .error _
  · exact .ok rfl
  · exact .error _

lemma receiveBlockWithTrustedData_safe :
    Safe (fun r => ∃ message, route = message :: r.2 ∧
      ∀ received ∈ r.1, message = .blockWithTrustedDataV4 received)
      (receiveBlockWithTrustedData route) := by
  unfold receiveBlockWithTrustedData
  split
  · exact .error _
  · exact .ok ⟨_,rfl,fun received hr => by cases hr; rfl⟩
  · exact .ok ⟨_,rfl,nofun⟩
  · exact .error _

section
variable (hpr : flow.PartsDoNotPanic)
include hpr

lemma validateAndInsertPruningPoints_safe (proofPruningPoint : DomainHash)
    (staging : StagingConsensus) (route : Route) :
    Safe (fun r => ∃ message, route = message :: r.2)
      (flow.validateAndInsertPruningPoints proofPruningPoint staging route) := by
  refine receivePruningPoints_safe.bind fun (headers, _) hr => ?_
  refine (noPanic_arePruningPointsViolatingFinality hpr headers).safe_bind fun violating hv => ?_
  cases violating with
  | true => exact .error _
  | false =>
    have hne := ne_nil_of_not_violating hv
    refine (noPanic_lastOfSlice hne).safe_bind fun _ _ => ?_
    split
    · exact .error _
    · exact (noPanic_importPruningPoints hne staging).safe_bind fun _ _ => .ok ⟨_,hr⟩

lemma syncAndValidatePruningPointProof_safe (hpi : flow.ParamsInRange)
    (hp : ∀ proof, .pruningPointProof proof ∈ route → proof.head? ≠ some []) :
    Safe (fun r => ∃ message, route = message :: r.2.2)
      (flow.syncAndValidatePruningPointProof route) := by
  refine receivePruningPointProof_safe.bind fun (proof, _) hr => ?_
  have hl0 : proof.head? ≠ some [] := hp proof (hr ▸ mem_cons_self)
  have hnp : NoPanic (flow.ppm.validatePruningPointProof flow.node proof) :=
    (Manager.noPanic_validatePruningPointProof_iff hpi.k hpr.addToReachability).2 hl0
  refine hnp.safe_bind fun _ hv => ?_
  have hne : proof ≠ [] := by
    rintro rfl
    cases hv
  refine (hpr.applyPruningPointProof proof).safe_bind fun _ _ => ?_
  exact (Manager.noPanic_proofPruningPointHeader hne hl0).safe_bind fun _ _ => .ok ⟨_,hr⟩

lemma noPanic_syncPruningPointsAndPruningPointAnticone (hpi : flow.ParamsInRange)
    (proofPruningPoint : DomainHash) (staging : StagingConsensus)
    (hr : ∀ data block, .trustedData data ∈ route → .blockWithTrustedDataV4 block ∈ route →
      block.InRange data ∧ flow.LimitInRange block.block.header) :
    NoPanic (flow.syncPruningPointsAndPruningPointAnticone proofPruningPoint staging route) := by
  refine (validateAndInsertPruningPoints_safe hpr _ _ _).noPanic_bind ?_
  rintro ⟨staging,_⟩ ⟨_,rfl⟩
  refine receiveTrustedData_safe.noPanic_bind fun (data, rest) hd => ?_
  obtain rfl := hd
  refine receiveBlockWithTrustedData_safe.noPanic_bind ?_
  rintro ⟨block,rest⟩ ⟨_,rfl,hm⟩
  refine bind ?_ fun staging => ?_
  · cases block with
    | none => exact .error _
    | some block =>
      obtain rfl := hm block rfl
      refine .ite (fun _ => .error _) fun _ => ?_
      exact noPanic_processBlockWithTrustedData hpr hpi (hr data block (by simp) (by simp)) _
  · apply noPanic_processAnticone hpr hpi
    intro block hb
    exact hr data block (by simp) (by simp [hb])

end

end Flow

/-! ## A peer with a longer chain -/

/-- The header of a block on a chain above genesis, with its number as the nonce. -/
def chainHeader (number : Nat) : BlockHeader :=
  { headerOn (if number = 0 then [] else [Fin.ofNat _ (number - 1)]) with
    nonce := number.toUInt64 }

def sampleManager (pruningProofM : UInt64) : Manager where
  params := Network.mainnet.params
  blockVersion := 1
  genesisHash := 0
  ghostdagConfig := configWithK
  pruningProofM := pruningProofM
  maxBlockLevel := 225
  headerHash := fun header => Fin.ofNat _ header.nonce.toNat
  powBitLen := fun _ => 255
  addToReachability := fun _ _ _ => .ok ()

/-- A node with a chain of blocks of level 0, the last of which is the pruning point. -/
def chainNode (length : Nat) : NodeState where
  blocks := processBlocks (configWithK 18)
    ((List.range length).map fun i => (Fin.ofNat _ (i+1), chainHeader (i+1)))
  kept := fun _ => true
  higherGHOSTDAGData := fun _ hash => if hash = 0 then some ⟨0,0,none,[],[],∅⟩ else none
  relationParents := fun _ hash => if hash = 0 then some [virtualGenesisBlockHash] else none
  pruningPoint := Fin.ofNat _ length
  pruningPointHeader := chainHeader length

/-- The proof for a block on the chain. Genesis is the only block of the other levels. -/
def chainProof (number : Nat) : PruningPointProof :=
  (List.range (number+1)).map chainHeader :: List.replicate 225 [chainHeader 0]

namespace Flow

/-- A node at block 2 of a chain. The headers of level 0 of a proof are known afterwards. -/
def sample : Flow where
  ppm := sampleManager 1
  node := chainNode 2
  now := 0
  applyPruningPointProof := fun proof => .ok ⟨∅,none,none,∅,∅,∅,∅,∅,∅,0,
    FinMap.insertEntries ∅ ((proof.headD []).map fun header =>
      ((sampleManager 1).headerHash header, .statusHeaderOnly))⟩
  virtualFinalityPointFinalityPoint := .ok 0
  blockExists := fun hash => hash ≤ 2
  isInSelectedParentChainOf := fun low high => .ok (low ≤ high)
  insertBlock := fun staging _ => .ok staging

def sampleData : BlockGHOSTDAGData := ⟨4,8,some 3,[3],[],∅⟩

def sampleBlock (header : BlockHeader) : DomainBlock :=
  ⟨header,[⟨0,[],[],0,subnetworkIDCoinbase,0,[]⟩],""⟩

/-- What a peer at block 4 sends. Block 5 is in the anticone and was not part of the proof. -/
def sampleRoute : Route :=
  [.pruningPointProof (chainProof 4),.pruningPoints [chainHeader 0,chainHeader 4],
    .trustedData ⟨[⟨chainHeader 4,sampleData⟩],[⟨4,sampleData⟩,⟨5,sampleData⟩]⟩,
    .blockWithTrustedDataV4 ⟨sampleBlock (chainHeader 4),[0],[0]⟩,
    .blockWithTrustedDataV4 ⟨sampleBlock (chainHeader 5),[0],[1,0]⟩,.doneBlocksWithTrustedData]

example : (sample.downloadProofAndAnticone sampleRoute).toBool = true := by decide +kernel

end Flow
end PruningProof
end Eiyaro
