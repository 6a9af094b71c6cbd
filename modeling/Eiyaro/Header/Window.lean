import Eiyaro.Ghostdag.Defs

/-!
# Block windows and DAA scores

The block window of `processes/dagtraversalmanager`: the blocks of the greatest
blue work in the past of a block, collected in a heap of bounded size. The heap
is a list in the order of `Less`, so its first element is the one that
`peek` returns. The difficulty manager counts the blocks of the merge set that
are in the window, and the DAA score grows by their number.
-/

namespace Eiyaro

/-- The stores that header validation reads besides the GHOSTDAG data. -/
structure HeaderRecord where
  header : BlockHeader
  daaScore : UInt64
  daaAddedBlocks : List DomainHash
  mergeDepthRoot : Option DomainHash
  finalityPoint : DomainHash

structure HeaderStores where
  blocks : BlockStores
  records : FinMap DomainHash HeaderRecord
  pruningPoint : DomainHash

def HeaderStores.record (stores : HeaderStores) (hash : DomainHash) : Except Failure HeaderRecord :=
  match stores.records.get hash with
  | some record => .ok record
  | none => .error (.error "not found")

/-! ## The heap -/

def heapPush (heap : List StoredBlock) (node : StoredBlock) : List StoredBlock :=
  heap.orderedInsert (fun a b => !lessData b.hash b.ghostdagData a.hash a.ghostdagData) node

/-- `tryPushWithGHOSTDAGData`: the heap, and whether the block was added. -/
def tryPushWithGHOSTDAGData (capacity : Nat) (heap : List StoredBlock) (node : StoredBlock) :
    List StoredBlock × Bool :=
  match heap with
  | [] => ([node], true)
  | minNode :: rest =>
    if heap.length = capacity then
      if lessData node.hash node.ghostdagData minNode.hash minNode.ghostdagData then
        (heap, false)
      else
        (heapPush rest node, true)
    else
      (heapPush heap node, true)

section
variable (cfg : GhostdagConfig) (stores : BlockStores) (windowSize : Nat)

/-- Pushes blocks until one of them is too small for the heap. -/
def pushUntilRejected : List DomainHash → List StoredBlock → Except Failure (List StoredBlock)
  | [], heap => return heap
  | hash :: hashes, heap => do
    let block ← stores.block hash
    let (heap, added) := tryPushWithGHOSTDAGData windowSize heap block
    if added then pushUntilRejected hashes heap else return heap

/-- `tryPushMergeSet`: the heap, and whether no block further down can be added. -/
def tryPushMergeSet (heap : List StoredBlock) (current : BlockGHOSTDAGData)
    (selectedParent : StoredBlock) : Except Failure (List StoredBlock × Bool) := do
  let (heap, added) := tryPushWithGHOSTDAGData windowSize heap selectedParent
  if added then
    -- the selected parent is the first of the blues and was pushed before
    let heap ← pushUntilRejected stores windowSize current.mergeSetBlues.tail.reverse heap
    let heap ← pushUntilRejected stores windowSize current.mergeSetReds.reverse heap
    return (heap, false)
  else
    return (heap, true)

/-- The walk of `calculateBlockWindowHeap` down the selected parent chain. -/
def walkWindow (older : BlockStores) (current : BlockGHOSTDAGData) (heap : List StoredBlock) :
    Except Failure (List StoredBlock) :=
  if current.selectedParent = some cfg.genesisHash then
    .ok heap
  else
    match older with
    | [] => .error (.error "not found")
    | next :: older =>
      if current.selectedParent = some next.hash then do
        let (heap, done) ← tryPushMergeSet stores windowSize heap current next
        if done then return heap else walkWindow older next.ghostdagData heap
      else
        walkWindow older current heap

/-- `BlockWindow` of a block that is not genesis. The slices that the source
keeps for selected parents are a cache of this computation. -/
def blockWindow (data : BlockGHOSTDAGData) : Except Failure (List StoredBlock) :=
  if windowSize = 0 then .ok [] else walkWindow cfg stores windowSize stores data []

end

/-! ## The DAA score -/

/-- The loop that collects the blocks of the merge set that are in the window. It
stops once all of them are found. -/
def collectDaaAddedBlocks (mergeSet : List DomainHash) :
    List DomainHash → List DomainHash → List DomainHash
  | [], daaAddedBlocks => daaAddedBlocks
  | hash :: window, daaAddedBlocks =>
    if hash ∈ mergeSet then
      let daaAddedBlocks := daaAddedBlocks ++ [hash]
      if daaAddedBlocks.length = mergeSet.dedup.length then daaAddedBlocks
      else collectDaaAddedBlocks mergeSet window daaAddedBlocks
    else
      collectDaaAddedBlocks mergeSet window daaAddedBlocks

def calculateDaaScoreAndAddedBlocks (stores : HeaderStores) (data : BlockGHOSTDAGData)
    (windowPairs : List StoredBlock) : Except Failure (UInt64 × List DomainHash) := do
  let daaAddedBlocks := collectDaaAddedBlocks (data.mergeSetBlues ++ data.mergeSetReds)
    (windowPairs.map StoredBlock.hash) []
  match data.selectedParent with
  | none => .error (.panic "invalid memory address or nil pointer dereference")
  | some selectedParent =>
    let record ← stores.record selectedParent
    return (record.daaScore+UInt64.ofNat daaAddedBlocks.length, daaAddedBlocks)

end Eiyaro
