import Eiyaro.Model.Block
import Eiyaro.Model.Failure
import Eiyaro.Util.Dag
import Eiyaro.Util.FinMap

/-!
# GHOSTDAG

The colouring of `processes/ghostdagmanager`, and the checks of
`processes/blockvalidator` that a block passes before its GHOSTDAG data is
stored. The stores are one list of blocks, newest first. A walk along the
selected parent chain goes down this list, since a selected parent is older than
its child.
-/

namespace Eiyaro

def virtualGenesisBlockHash : DomainHash :=
  ⟨(2^256 - 1) / 255*254,by decide⟩

/-! ## Work -/

/-- `CompactToBig` of `util/difficulty`. -/
def compactToBig (compact : UInt32) : Int :=
  let mantissa := (compact &&& 0x007fffff).toNat
  let isNegative := compact &&& 0x00800000 ≠ 0
  let exponent := (compact >>> 24).toNat
  let destination := if exponent ≤ 3 then mantissa >>> (8*(3 - exponent))
    else mantissa <<< (8*(exponent - 3))
  if isNegative then -(destination : Int) else destination

def calcWork (bits : UInt32) : Nat :=
  let difficultyNum := compactToBig bits
  if difficultyNum ≤ 0 then 0 else 2^256 / (difficultyNum.toNat+1)

/-! ## Stored blocks -/

structure BlockGHOSTDAGData where
  blueScore : UInt64
  blueWork : Nat
  selectedParent : Option DomainHash
  mergeSetBlues : List DomainHash
  mergeSetReds : List DomainHash
  bluesAnticoneSizes : FinMap DomainHash UInt8

/-- A block of the DAG: what the relation, header and GHOSTDAG stores have on it. -/
structure StoredBlock where
  hash : DomainHash
  parents : List DomainHash
  bits : UInt32
  ghostdagData : BlockGHOSTDAGData

abbrev BlockStores := List StoredBlock

/-- The parameters of a GHOSTDAG manager. -/
structure GhostdagConfig where
  k : UInt8
  genesisHash : DomainHash
  genesisBits : UInt32
  powMax : Int
  genesis_ne : genesisHash ≠ virtualGenesisBlockHash
  powMax_lt : powMax < 2^256

namespace BlockStores

section
variable (stores : BlockStores)

def hashes : List DomainHash :=
  stores.map StoredBlock.hash

def topology : Dag DomainHash :=
  stores.map fun block => (block.hash, block.parents)

/-- `IsAncestorOf` of the topology manager, which is reflexive. -/
def isAncestorOf (a b : DomainHash) : Bool :=
  stores.topology.isAncestorOf a b

def block (hash : DomainHash) : Except Failure StoredBlock :=
  match stores.find? fun block => block.hash = hash with
  | some block => .ok block
  | none => .error (.error "not found")

end
end BlockStores

/-! ## Comparing blocks -/

/-- `Less` of `compare.go`. -/
def lessData (hashA : DomainHash) (dataA : BlockGHOSTDAGData) (hashB : DomainHash)
    (dataB : BlockGHOSTDAGData) : Bool :=
  match compare dataA.blueWork dataB.blueWork with
  | .lt => true
  | .gt => false
  | .eq => hashA < hashB

variable (stores : BlockStores)

/-- `less` of `compare.go`. -/
def less (a b : DomainHash) : Except Failure Bool := do
  let blockA ← stores.block a
  let blockB ← stores.block b
  return lessData a blockA.ghostdagData b blockB.ghostdagData

def findSelectedParent (stores : BlockStores) :
    Option DomainHash → List DomainHash → Except Failure (Option DomainHash)
  | selectedParent, [] => return selectedParent
  | none, hash :: parentHashes => findSelectedParent stores (some hash) parentHashes
  | some selectedParent, hash :: parentHashes => do
    let isHashBiggerThanSelectedParent ← less stores selectedParent hash
    findSelectedParent stores (if isHashBiggerThanSelectedParent then hash else selectedParent)
      parentHashes

/-! ## The merge set -/

/-- The loop variables of the search: the queue, the merge set found so far, and
the blocks already known to be in the past of the selected parent. -/
structure MergeSetSearch where
  queue : List DomainHash
  mergeSet : List DomainHash
  selectedParentPast : List DomainHash

def visitParent (selectedParent : DomainHash) (search : MergeSetSearch)
    (parent : DomainHash) : MergeSetSearch :=
  if parent ∈ search.mergeSet then
    search
  else if parent ∈ search.selectedParentPast then
    search
  else if stores.isAncestorOf parent selectedParent then
    { search with selectedParentPast := parent :: search.selectedParentPast }
  else
    { search with queue := search.queue ++ [parent], mergeSet := search.mergeSet ++ [parent] }

/-- The search loop. A parent is queued once for every time it is listed and any
other block at most once, which bounds the number of rounds. -/
def searchMergeSet (stores : BlockStores) (selectedParent : DomainHash) :
    Nat → MergeSetSearch → Except Failure (List DomainHash)
  | _, ⟨[],mergeSet,_⟩ => return mergeSet
  | 0, _ => .error (.error "out of fuel")
  | fuel+1, ⟨current :: queue,mergeSet,selectedParentPast⟩ => do
    let currentBlock ← stores.block current
    searchMergeSet stores selectedParent fuel
      (currentBlock.parents.foldl (visitParent stores selectedParent)
        ⟨queue,mergeSet,selectedParentPast⟩)

/-- `sortMergeSet`, for blocks together with their GHOSTDAG data. -/
def sortMergeSet (mergeSet : List StoredBlock) : List StoredBlock :=
  mergeSet.insertionSort fun a b => !lessData b.hash b.ghostdagData a.hash a.ghostdagData

def mergeSetWithoutSelectedParent (selectedParent : DomainHash)
    (blockParents : List DomainHash) : Except Failure (List DomainHash) := do
  let queue := blockParents.filter fun parent => parent ≠ selectedParent
  let mergeSet ← searchMergeSet stores selectedParent (queue.length+stores.length) ⟨queue,queue,[]⟩
  let blocks ← mergeSet.mapM stores.block
  return (sortMergeSet blocks).map StoredBlock.hash

/-! ## Colouring -/

section
variable (cfg : GhostdagConfig) (stores : BlockStores)

/-- `blueAnticoneSize`: the first entry for the block along the selected parent
chain of the context. No block of this DAG has trusted data, so the walk cannot
go on below a block whose selected parent is virtual genesis. -/
def blueAnticoneSize (block : DomainHash) (stores : BlockStores) (context : BlockGHOSTDAGData) :
    Except Failure UInt8 :=
  match context.bluesAnticoneSizes.get block with
  | some size => .ok size
  | none =>
    if context.selectedParent = some cfg.genesisHash then
      .error (.error "block is not in blue set of the given context")
    else
      match stores with
      | [] => .error (.error "not found")
      | next :: older =>
        if context.selectedParent = some next.hash then
          if next.ghostdagData.selectedParent = some virtualGenesisBlockHash then
            .error (.error "not found")
          else
            blueAnticoneSize block older next.ghostdagData
        else
          blueAnticoneSize block older context

/-- The two results that a candidate check accumulates. -/
structure CandidateCheck where
  candidateBluesAnticoneSizes : FinMap DomainHash UInt8
  candidateAnticoneSize : UInt8

section
variable (newBlockData : BlockGHOSTDAGData) (blueCandidate : DomainHash)

/-- The loop of `checkBlueCandidateWithChainBlock` over the blues of one chain
block. Without a result the candidate is red. -/
def checkBlueCandidateWithBlues :
    List DomainHash → CandidateCheck → Except Failure (Option CandidateCheck)
  | [], check => .ok (some check)
  | block :: blues, check =>
    if stores.isAncestorOf block blueCandidate then
      checkBlueCandidateWithBlues blues check
    else do
      let size ← blueAnticoneSize cfg block stores newBlockData
      let check : CandidateCheck := ⟨check.candidateBluesAnticoneSizes.insert block size,
        check.candidateAnticoneSize+1⟩
      if check.candidateAnticoneSize > cfg.k then
        .ok none
      else if size = cfg.k then
        .ok none
      else if size > cfg.k then
        .error (.error ("found blue anticone size " ++ toString size ++ " larger than k " ++
          toString cfg.k))
      else
        checkBlueCandidateWithBlues blues check

/-- The loop of `checkBlueCandidate` over the chain blocks that have a hash. -/
def checkBlueCandidateWithChain :
    BlockStores → Option DomainHash → CandidateCheck → Except Failure (Option CandidateCheck)
  | [], _, _ => .error (.error "not found")
  | next :: older, selectedParent, check =>
    if selectedParent = some next.hash then
      if stores.isAncestorOf next.hash blueCandidate then
        .ok (some check)
      else do
        let result ← checkBlueCandidateWithBlues cfg stores newBlockData blueCandidate
          next.ghostdagData.mergeSetBlues check
        match result with
        | none => .ok none
        | some check =>
          checkBlueCandidateWithChain older next.ghostdagData.selectedParent check
    else
      checkBlueCandidateWithChain older selectedParent check

def checkBlueCandidate : Except Failure (Option CandidateCheck) :=
  -- the maximum length of the blues is k + 1, since they contain the selected parent
  if UInt8.ofNat newBlockData.mergeSetBlues.length = cfg.k+1 then
    .ok none
  else do
    let result ← checkBlueCandidateWithBlues cfg stores newBlockData blueCandidate
      newBlockData.mergeSetBlues ⟨∅,0⟩
    match result with
    | none => .ok none
    | some check =>
      checkBlueCandidateWithChain cfg stores newBlockData blueCandidate stores
        newBlockData.selectedParent check

/-- One round of the loop of `GHOSTDAG` over the merge set. -/
def colour : Except Failure BlockGHOSTDAGData := do
  let result ← checkBlueCandidate cfg stores newBlockData blueCandidate
  match result with
  | some check =>
    return { newBlockData with
      mergeSetBlues := newBlockData.mergeSetBlues ++ [blueCandidate]
      bluesAnticoneSizes := (newBlockData.bluesAnticoneSizes.insert blueCandidate
        check.candidateAnticoneSize).insertAll
          (check.candidateBluesAnticoneSizes.mapValues (· + 1)) }
  | none =>
    return { newBlockData with mergeSetReds := newBlockData.mergeSetReds ++ [blueCandidate] }

end

/-- The work of the blues, except for virtual genesis. -/
def bluesWork : List DomainHash → Except Failure Nat
  | [] => return 0
  | blue :: blues =>
    if blue = virtualGenesisBlockHash then
      bluesWork blues
    else do
      let block ← stores.block blue
      let work ← bluesWork blues
      return calcWork block.bits+work

/-- `GHOSTDAG` for a block with parents. -/
def ghostdag (blockParents : List DomainHash) : Except Failure BlockGHOSTDAGData := do
  let result ← findSelectedParent stores none blockParents
  match result with
  | none => return ⟨0,0,none,[],[],∅⟩
  | some selectedParent =>
    let mergeSet ← mergeSetWithoutSelectedParent stores selectedParent blockParents
    let newBlockData ← mergeSet.foldlM (colour cfg stores)
      ⟨0,0,some selectedParent,[selectedParent],[],
        (∅ : FinMap DomainHash UInt8).insert selectedParent 0⟩
    let selectedParentBlock ← stores.block selectedParent
    let work ← bluesWork stores newBlockData.mergeSetBlues
    return { newBlockData with
      blueScore := selectedParentBlock.ghostdagData.blueScore +
        UInt64.ofNat newBlockData.mergeSetBlues.length
      blueWork := selectedParentBlock.ghostdagData.blueWork+work }

end

/-! ## Validation and storing -/

def checkParentNotVirtualGenesis (header : BlockHeader) : Except Failure Unit :=
  if virtualGenesisBlockHash ∈ header.directParents then
    .error (.ruleError .errVirtualGenesisParent
      "block header cannot have the virtual genesis as parent")
  else
    .ok ()

def checkParentHeadersExist (stores : BlockStores) (header : BlockHeader) : Except Failure Unit :=
  if header.directParents.all (· ∈ stores.hashes) then
    .ok ()
  else
    .error (.ruleError .errMissingParents "missing parents")

/-- No parent is an ancestor of another parent. -/
def checkParentsIncest (stores : BlockStores) (parents : List DomainHash) : Except Failure Unit :=
  if parents.any fun parentA => parents.any fun parentB =>
      parentA ≠ parentB && stores.isAncestorOf parentA parentB then
    .error (.ruleError .errInvalidParentsRelation "parent is an ancestor of another parent")
  else
    .ok ()

variable (cfg : GhostdagConfig)

/-- The range checks of `checkProofOfWork`. -/
def checkTarget (header : BlockHeader) : Except Failure Unit :=
  let target := compactToBig header.bits
  if target ≤ 0 then
    .error (.ruleError .errNegativeTarget "block target difficulty is too low")
  else if target > cfg.powMax then
    .error (.ruleError .errTargetTooHigh "block target difficulty is higher than max")
  else
    .ok ()

/-- The lowest level of `checkIndirectParents`: the parents that are built there
are the distinct direct parents, and the header must list as many. -/
def checkIndirectParents (header : BlockHeader) : Except Failure Unit :=
  if header.directParents.length = header.directParents.dedup.length then
    .ok ()
  else
    .error (.ruleError .errUnexpectedParents "unexpected indirect block parents")

/-- Validates the header of a new block and stores the block. -/
def insertBlock (stores : BlockStores) (hash : DomainHash)
    (header : BlockHeader) : Except Failure BlockStores :=
  if hash ∈ stores.hashes then
    .error (.ruleError .errDuplicateBlock "block already exists")
  else if header.directParents.length = 0 then
    .error (.ruleError .errNoParents "block has no parents")
  else do
    checkParentNotVirtualGenesis header
    checkParentHeadersExist stores header
    checkParentsIncest stores header.directParents
    checkTarget cfg header
    let data ← ghostdag cfg stores header.directParents
    checkIndirectParents header
    return ⟨hash,header.directParents,header.bits,data⟩ :: stores

/-- The stores of a fresh node. Genesis is inserted with its data given. -/
def initStores : BlockStores :=
  [⟨cfg.genesisHash,[virtualGenesisBlockHash],cfg.genesisBits,
      ⟨0,0,some virtualGenesisBlockHash,[],[],∅⟩⟩,
    ⟨virtualGenesisBlockHash,[],0,⟨0,0,none,[],[],∅⟩⟩]

/-- A block that is not valid leaves the stores as they are. -/
def processBlock (stores : BlockStores) (block : DomainHash × BlockHeader) : BlockStores :=
  match insertBlock cfg stores block.1 block.2 with
  | .ok stores => stores
  | .error _ => stores

def processBlocks (blocks : List (DomainHash × BlockHeader)) : BlockStores :=
  blocks.foldl (processBlock cfg) (initStores cfg)

/-! ## Sample headers -/

def headerOn (parents : List DomainHash) : BlockHeader where
  version := 1
  parents := [parents]
  hashMerkleRoot := 0
  acceptedIDMerkleRoot := 0
  utxoCommitment := 0
  timeInMilliseconds := 0
  bits := 0x207fffff
  nonce := 0
  daaScore := 0
  blueScore := 0
  blueWork := 0
  pruningPoint := 0

def configWithK (k : UInt8) : GhostdagConfig where
  k := k
  genesisHash := 0
  genesisBits := 0x207fffff
  powMax := 2^255 - 1
  genesis_ne := by decide
  powMax_lt := by decide

end Eiyaro
