import Eiyaro.Ghostdag.Defs
import Eiyaro.Protocol.BlockVersion

/-!
# Validating a pruning point proof

`ValidatePruningPointProof` of `processes/pruningproofmanager`. A proof has a list of headers for
every block level. The headers of a level are inserted into an empty DAG of their own, the highest
level first, and the selected tip of every level has to be the pruning point or one of its parents
at that level. Then the levels are compared with the DAG of the node, the lowest level first: on
the first level that is long enough and shares a block with the node, the proof needs more blue
work since the shared block than every parent of the current pruning point.

The hash and the proof of work of a header are arbitrary functions. The reachability data of the
DAGs is not part of the model: a query for ancestors is answered from the relations, and adding a
block to the reachability tree may fail. The printed hashes of the errors are left out.
-/

namespace Eiyaro.PruningProof

abbrev PruningPointProof := List (List BlockHeader)

/-- The fields of the manager, and the block version of the process while it validates. -/
structure Manager where
  params : Params
  blockVersion : UInt32
  genesisHash : DomainHash
  /-- The configuration of the GHOSTDAG managers of the levels, for an entry of `K`. -/
  ghostdagConfig : UInt8 → GhostdagConfig
  pruningProofM : UInt64
  maxBlockLevel : Nat
  headerHash : BlockHeader → DomainHash
  /-- The number of bits of the proof-of-work value. -/
  powBitLen : BlockHeader → Nat
  /-- `AddBlock` and `UpdateReindexRoot` of the reachability manager of a level. -/
  addToReachability : Nat → BlockStores → DomainHash → Except Failure Unit

/-- What a node knows: the DAG of level 0 with the blocks whose GHOSTDAG data was not deleted, the
data and relations of the other levels, and its pruning point. -/
structure NodeState where
  blocks : BlockStores
  kept : DomainHash → Bool
  higherGHOSTDAGData : Nat → DomainHash → Option BlockGHOSTDAGData
  relationParents : Nat → DomainHash → Option (List DomainHash)
  pruningPoint : DomainHash
  pruningPointHeader : BlockHeader

def NodeState.ghostdagData (node : NodeState) (level : Nat) (hash : DomainHash) :
    Option BlockGHOSTDAGData :=
  if level = 0 then
    if node.kept hash then
      (node.blocks.find? fun block => block.hash = hash).map (·.ghostdagData)
    else
      none
  else
    node.higherGHOSTDAGData level hash

/-- The access to the GHOSTDAG data where it has to be there. -/
def NodeState.getGHOSTDAGData (node : NodeState) (level : Nat) (hash : DomainHash) :
    Except Failure BlockGHOSTDAGData :=
  match node.ghostdagData level hash with
  | some data => .ok data
  | none => .error (.error "not found")

/-- The last element of a slice. -/
def lastOfSlice {α : Type} (slice : List α) : Except Failure α :=
  match slice.getLast? with
  | some a => .ok a
  | none => .error (.panic "index out of range")

def virtualGenesisBlock : StoredBlock :=
  ⟨virtualGenesisBlockHash,[],0,⟨0,0,none,[],[],∅⟩⟩

namespace Manager
variable (ppm : Manager)

/-! ## Levels -/

section
variable (pruningPointHeader : BlockHeader) (header : BlockHeader) (level : Nat)
  (blocks : BlockStores)

/-- `BlockLevel` of a header. -/
def blockLevel : Nat :=
  if header.directParents.length = 0 then
    ppm.maxBlockLevel
  else
    ppm.maxBlockLevel - ppm.powBitLen header

def parentsAtLevel : List DomainHash :=
  let parentsAtLevel := header.parents.getD level []
  if parentsAtLevel.length = 0 ∧ header.directParents.length > 0 then
    [ppm.genesisHash]
  else
    parentsAtLevel

def parents : List (List DomainHash) :=
  (List.range (ppm.maxBlockLevel+1)).map (ppm.parentsAtLevel header)

/-! ## The DAG of a level -/

/-- The parents that the DAG of the level has. Only the first header may have none. -/
def knownParents (header : BlockHeader) (i : Nat) : Except Failure (List DomainHash) :=
  let parents := (ppm.parentsAtLevel header level).filter fun parent => parent ∈ blocks.hashes
  if parents.length = 0 then
    if i ≠ 0 then
      .error (.ruleError .errPruningProofHeaderWithNoKnownParents
        "the proof header is missing known parents")
    else
      .ok [virtualGenesisBlockHash]
  else
    .ok parents

/-- `GHOSTDAG` of a level. `K` has an entry for every block version that the parameters know. -/
def ghostdagAtLevel (parents : List DomainHash) : Except Failure BlockGHOSTDAGData := do
  let k ← indexSlice ppm.params.k (getBlockVersion ppm.blockVersion - 1).toNat
  ghostdag (ppm.ghostdagConfig k) blocks parents

/-- One round of the loop over the headers of a level, with the blocks and the selected tip so
far. -/
def addHeader (state : BlockStores × Option DomainHash) (entry : BlockHeader × Nat) :
    Except Failure (BlockStores × Option DomainHash) :=
  let (header, i) := entry
  let blockHash := ppm.headerHash header
  if ppm.blockLevel header < level then
    .error (.ruleError .errPruningProofWrongBlockLevel ("block level is " ++
      toString (ppm.blockLevel header) ++ " when it's expected to be at least " ++ toString level))
  else do
    let parents ← ppm.knownParents level state.1 header i
    let data ← ppm.ghostdagAtLevel state.1 parents
    let blocks := ⟨blockHash,parents,header.bits,data⟩ :: state.1
    let selectedTip ← findSelectedParent blocks state.2 [blockHash]
    ppm.addToReachability level blocks blockHash
    .ok (blocks, selectedTip)

/-- A level of the proof after its headers were inserted. -/
structure ProofLevel where
  blocks : BlockStores
  selectedTip : DomainHash

/-- The walk of `blockAtDepth` along the selected parents. -/
def descend (requiredBlueScore : UInt64) : BlockStores → Option DomainHash →
    Except Failure DomainHash
  | [], _ => .error (.error "not found")
  | next :: older, current =>
    if current = some next.hash then
      if next.ghostdagData.blueScore ≥ requiredBlueScore then
        if next.ghostdagData.selectedParent = some virtualGenesisBlockHash then
          .ok next.hash
        else
          descend requiredBlueScore older next.ghostdagData.selectedParent
      else
        .ok next.hash
    else
      descend requiredBlueScore older current

def blockAtDepth (highHash : DomainHash) (depth : UInt64) : Except Failure DomainHash := do
  let high ← blocks.block highHash
  let requiredBlueScore :=
    if high.ghostdagData.blueScore > depth then high.ghostdagData.blueScore - depth else 0
  descend requiredBlueScore blocks (some highHash)

/-- A level has the block at depth m of the level above it. -/
def checkNextLevel : Option ProofLevel → Except Failure Unit
  | none => .ok ()
  | some next => do
    let blockAtDepthMAtNextLevel ← blockAtDepth next.blocks next.selectedTip ppm.pruningProofM
    if blockAtDepthMAtNextLevel ∈ blocks.hashes then
      .ok ()
    else
      .error (.ruleError .errPruningProofMissingBlockAtDepthMFromNextLevel ("proof level " ++
        toString level ++ " is missing the block at depth m in level " ++ toString (level+1)))

/-- Without headers there is no selected tip, and `nil` is not a parent of the pruning point. -/
def checkSelectedTip (selectedTip : Option DomainHash) : Except Failure ProofLevel :=
  let missesBlocks : Except Failure ProofLevel :=
    .error (.ruleError .errPruningProofMissesBlocksBelowPruningPoint ("the selected tip at " ++
      "level " ++ toString level ++ " is not a parent of the pruning point"))
  match selectedTip with
  | none => missesBlocks
  | some tip =>
    if tip ≠ ppm.headerHash pruningPointHeader ∧
        tip ∉ ppm.parentsAtLevel pruningPointHeader level then
      missesBlocks
    else
      .ok ⟨blocks,tip⟩

def validateLevel (headers : List BlockHeader)
    (next : Option ProofLevel) : Except Failure ProofLevel := do
  let (blocks, selectedTip) ←
    headers.zipIdx.foldlM (ppm.addHeader level) ([virtualGenesisBlock], none)
  ppm.checkNextLevel level blocks next
  ppm.checkSelectedTip pruningPointHeader level blocks selectedTip

end

/-- The levels below the ones that are validated, the highest first. -/
def validateLevels (proof : PruningPointProof) (pruningPointHeader : BlockHeader) :
    Nat → List ProofLevel → Except Failure (List ProofLevel)
  | 0, above => .ok above
  | level+1, above => do
    let headers ← indexSlice proof level
    let validated ← ppm.validateLevel pruningPointHeader level headers above.head?
    validateLevels proof pruningPointHeader level (validated :: above)

/-! ## The comparison with the node -/

variable (node : NodeState)

section
variable (pruningPointHeader : BlockHeader) (level : Nat)

/-- The latest block of the proof's selected chain that the node has GHOSTDAG data of, with the
data in the proof and in the node. -/
def sharedBlock : BlockStores → Option DomainHash →
    Except Failure (Option (BlockGHOSTDAGData × BlockGHOSTDAGData))
  | [], _ => .error (.error "not found")
  | next :: older, current =>
    if current = some next.hash then
      match node.ghostdagData level next.hash with
      | some data => .ok (some (next.ghostdagData, data))
      | none =>
        if next.ghostdagData.selectedParent = some virtualGenesisBlockHash then
          .ok none
        else
          sharedBlock older next.ghostdagData.selectedParent
    else
      sharedBlock older current

/-- Whether a parent of the current pruning point has at least as much blue work since the shared
block. -/
def foundBetterParent (selectedTipBlueWorkDiff : Int) (sharedBlueWork : Nat) :
    List DomainHash → Except Failure Bool
  | [] => .ok false
  | parent :: parents => do
    let parentData ← node.getGHOSTDAGData level parent
    if (parentData.blueWork : Int) - sharedBlueWork ≥ selectedTipBlueWorkDiff then
      .ok true
    else
      foundBetterParent selectedTipBlueWorkDiff sharedBlueWork parents

def checkTipIsPruningPoint (selectedTip : DomainHash) : Except Failure Unit :=
  if level ≤ ppm.blockLevel pruningPointHeader then
    if selectedTip ≠ ppm.headerHash pruningPointHeader then
      .error (.ruleError .errPruningProofSelectedTipIsNotThePruningPoint
        ("the pruning proof selected tip at level " ++ toString level ++
          " is not the pruning point"))
    else
      .ok ()
  else if selectedTip ∉ ppm.parentsAtLevel pruningPointHeader level then
    .error (.ruleError .errPruningProofSelectedTipNotParentOfPruningPoint
      ("the pruning proof selected tip at level " ++ toString level ++
        " is not a parent of the of the pruning point on the same level"))
  else
    .ok ()

/-- One round of the comparison: whether the proof is accepted because of this level. -/
def compareLevel (proofLevel : ProofLevel) (level : Nat) : Except Failure Bool := do
  ppm.checkTipIsPruningPoint pruningPointHeader level proofLevel.selectedTip
  let selectedTip ← proofLevel.blocks.block proofLevel.selectedTip
  if selectedTip.ghostdagData.blueScore < 2*ppm.pruningProofM then
    .ok false
  else do
    match ← sharedBlock node level proofLevel.blocks (some proofLevel.selectedTip) with
    | none => .ok false
    | some (proofData, nodeData) =>
      let selectedTipBlueWorkDiff := (selectedTip.ghostdagData.blueWork : Int) - proofData.blueWork
      let found ← foundBetterParent node level selectedTipBlueWorkDiff nodeData.blueWork
        (ppm.parentsAtLevel node.pruningPointHeader level)
      if found then
        .error (.ruleError .errPruningProofInsufficientBlueWork
          "the proof doesn't have sufficient blue work in order to replace the current DAG")
      else
        .ok true

def compareLevels : List (ProofLevel × Nat) → Except Failure Bool
  | [] => .ok false
  | (proofLevel, level) :: rest => do
    let accepted ← ppm.compareLevel node pruningPointHeader proofLevel level
    if accepted then
      .ok true
    else
      compareLevels rest

/-- Whether a parent of the current pruning point has a short past on this level. -/
def foundShortParent : List DomainHash → Except Failure Bool
  | [] => .ok false
  | parent :: parents => do
    let parentData ← node.getGHOSTDAGData level parent
    if parentData.blueScore < 2*ppm.pruningProofM then
      .ok true
    else
      foundShortParent parents

end

/-- The check of a proof that shares no block with the node, on the levels below the given one. -/
def compareWithoutSharedBlock : Nat → Except Failure Unit
  | 0 => .error (.ruleError .errPruningProofInsufficientBlueWork ("the pruning proof doesn't " ++
      "have any shared blocks with the known DAGs, but doesn't have enough headers from levels " ++
      "higher than the existing block levels."))
  | level+1 =>
    match node.relationParents level node.pruningPoint with
    -- Without a parent at this level, the proof is considered to be better.
    | none => .ok ()
    | some parents => do
      let found ← ppm.foundShortParent node level parents
      if found then
        .ok ()
      else
        compareWithoutSharedBlock level

/-! ## Validation -/

variable (proof : PruningPointProof)

/-- The header of the pruning point of a proof. -/
def proofPruningPointHeader : Except Failure BlockHeader := do
  let level0Headers ← indexSlice proof 0
  lastOfSlice level0Headers

def compareWithNode (pruningPointHeader : BlockHeader) (maxLevel : Nat) : Except Failure Unit := do
  let levels ← ppm.validateLevels proof pruningPointHeader (maxLevel+1) []
  let accepted ← ppm.compareLevels node pruningPointHeader levels.zipIdx
  if accepted then
    .ok ()
  else
    ppm.compareWithoutSharedBlock node (maxLevel+1)

def validatePruningPointProof : Except Failure Unit :=
  if proof.length = 0 then
    .error (.ruleError .errPruningProofEmpty "pruning proof is empty")
  else do
    let pruningPointHeader ← proofPruningPointHeader proof
    let maxLevel := (ppm.parents pruningPointHeader).length - 1
    if maxLevel ≥ proof.length then
      .error (.ruleError .errPruningProofEmpty ("proof has only " ++ toString proof.length ++
        " levels while pruning point has parents from " ++ toString (maxLevel+1) ++ " levels"))
    else
      ppm.compareWithNode node proof pruningPointHeader maxLevel

end Manager
end Eiyaro.PruningProof
