import Eiyaro.Consensus.Stores
import Eiyaro.Header.MergeDepth

/-!
# Picking the parents of virtual

`pick_virtual_parents.go` of `processes/consensusstatemanager`. Virtual is not one of
the stored blocks, so the children of a block are the stored ones, and virtual's
GHOSTDAG data is computed from the parents it would get. A loop that runs out of
rounds stands for one that does not end, and is a panic here.
-/

namespace Eiyaro

structure VirtualConfig where
  header : HeaderConfig
  maxBlockParents : UInt8
  maxBlockParents_pos : 0 < maxBlockParents.toNat
  mergeSetSizeLimit_pos : 0 < header.mergeSetSizeLimit.toNat
  mergeSetSizeLimit_lt : header.mergeSetSizeLimit.toNat+1 < 2^64

structure VirtualStores extends HeaderStores where
  blockStatus : FinMap DomainHash BlockStatus

namespace BlockStores

section
variable (stores : BlockStores) (hash : DomainHash)

def children : List StoredBlock :=
  stores.filter fun block => hash ∈ block.parents

def isAncestorOfAny (potentialDescendants : List DomainHash) : Bool :=
  potentialDescendants.any fun descendant => stores.isAncestorOf hash descendant

def isAnyAncestorOf (potentialAncestors : List DomainHash) (hash : DomainHash) : Bool :=
  potentialAncestors.any fun ancestor => stores.isAncestorOf ancestor hash

end
end BlockStores

section
variable (cfg : VirtualConfig) (stores : VirtualStores)

/-! ## The selected parent -/

/-- A down heap is a list in the order of its `Less`, so `Pop` takes the first one. -/
def downHeapPush (heap : List StoredBlock) (node : StoredBlock) : List StoredBlock :=
  heap.orderedInsert (fun a b => !lessData a.hash a.ghostdagData b.hash b.ghostdagData) node

def pushHash (heap : List StoredBlock) (hash : DomainHash) : Except Failure (List StoredBlock) := do
  let block ← stores.blocks.block hash
  return downHeapPush heap block

/-- The loop variables of the search. The caches for statuses and child counts are left
out, since nothing that they cache changes meanwhile. -/
structure ParentSearch where
  candidatesHeap : List StoredBlock
  disqualifiedChildCount : FinMap DomainHash UInt32
  pushedToHeap : List DomainHash

def countRelevantChild (count : UInt32) (child : StoredBlock) : Except Failure UInt32 := do
  let childStatus ← fromStore (stores.blockStatus.get child.hash)
  if childStatus = .statusHeaderOnly then return count else return count+1

def getRelevantChildCount (parent : DomainHash) : Except Failure UInt32 :=
  (stores.blocks.children parent).foldlM (countRelevantChild stores) 0

/-- One round of the loop over the parents of a candidate that is not valid. -/
def disqualifyChild (search : ParentSearch) (parent : DomainHash) :
    Except Failure ParentSearch := do
  let relevantChildrenCount ← getRelevantChildCount stores parent
  let count := (search.disqualifiedChildCount.get parent).getD 0+1
  let counts := search.disqualifiedChildCount.insert parent count
  if count < relevantChildrenCount then
    return { search with disqualifiedChildCount := counts }
  else if parent ∈ search.pushedToHeap then
    return { search with disqualifiedChildCount := counts }
  else
    let heap ← pushHash stores search.candidatesHeap parent
    return ⟨heap,counts,parent :: search.pushedToHeap⟩

/-- The selected parent, and what is left in the heap. -/
def selectVirtualSelectedParent :
    Nat → ParentSearch → Except Failure (StoredBlock × List StoredBlock)
  | _, ⟨[],_,_⟩ => .error (.error "virtual has no valid parent candidates")
  | 0, _ => .error (.panic "out of fuel")
  | fuel+1, ⟨candidate :: heap,counts,pushed⟩ => do
    let status ← fromStore (stores.blockStatus.get candidate.hash)
    if status = .statusUTXOValid then
      return (candidate, heap)
    else if status = .statusHeaderOnly then
      selectVirtualSelectedParent fuel ⟨heap,counts,pushed⟩
    else
      let search ← candidate.parents.foldlM (disqualifyChild stores) ⟨heap,counts,pushed⟩
      selectVirtualSelectedParent fuel search

/-! ## The candidates -/

def swapSlice {α : Type} (slice : List α) (i j : Nat) : Except Failure (List α) := do
  let a ← indexSlice slice i
  let b ← indexSlice slice j
  return (slice.set i b).set j a

/-- Half of the parents are taken from the end of the candidates. -/
def prioritizeEnds (maxParents : Nat) (candidates : List DomainHash) :
    Except Failure (List DomainHash) :=
  (List.range' (maxParents / 2) (maxParents - maxParents / 2)).foldlM
    (fun candidates i =>
      swapSlice candidates i (candidates.length - 1 - (i - maxParents / 2)))
    candidates

def collectCandidates (heap : List StoredBlock) : Except Failure (List DomainHash) :=
  let maxCandidates := cfg.maxBlockParents.toNat*3
  let candidates := (heap.take maxCandidates).map StoredBlock.hash
  if candidates.length ≥ cfg.maxBlockParents.toNat then
    prioritizeEnds (cfg.maxBlockParents - 1).toNat candidates
  else
    .ok candidates

/-- What `mergeSetIncrease` returns for a candidate. -/
inductive MergeSetIncrease
  | canBeParent (mergeSetIncrease : UInt64)
  | newCandidate (newCandidate : DomainHash)
deriving DecidableEq

/-- The queue and the visited blocks, after one more parent. -/
def enqueueNew (search : List DomainHash × List DomainHash) (parent : DomainHash) :
    List DomainHash × List DomainHash :=
  if parent ∈ search.2 then search else (search.1 ++ [parent], search.2 ++ [parent])

def searchIncrease (selectedVirtualParents : List DomainHash) (mergeSetSize : UInt64) :
    Nat → List DomainHash × List DomainHash → UInt64 → Except Failure MergeSetIncrease
  | _, ([], _), mergeSetIncrease => return .canBeParent mergeSetIncrease
  | 0, _, _ => .error (.panic "out of fuel")
  | fuel+1, (current :: queue, visited), mergeSetIncrease =>
    if stores.blocks.isAncestorOfAny current selectedVirtualParents then
      searchIncrease selectedVirtualParents mergeSetSize fuel (queue, visited) mergeSetIncrease
    else if mergeSetSize+(mergeSetIncrease+1) > cfg.header.mergeSetSizeLimit then
      return .newCandidate current
    else do
      let block ← stores.blocks.block current
      searchIncrease selectedVirtualParents mergeSetSize fuel
        (block.parents.foldl enqueueNew (queue, visited)) (mergeSetIncrease+1)

/-- The increase starts with 1 for the candidate itself. -/
def mergeSetIncrease (candidate : DomainHash) (selectedVirtualParents : List DomainHash)
    (mergeSetSize : UInt64) : Except Failure MergeSetIncrease := do
  let block ← stores.blocks.block candidate
  searchIncrease cfg stores selectedVirtualParents mergeSetSize stores.blocks.length
    (block.parents, block.parents) 1

def removeHashesInFutureOf (hashes : List DomainHash) (ancestor : DomainHash) : List DomainHash :=
  hashes.filter fun hash => !stores.blocks.isAncestorOf ancestor hash

/-- The candidates that are left once one of them is replaced by an ancestor of it. -/
def replaceCandidate (candidates : List DomainHash) (newCandidate : DomainHash) : List DomainHash :=
  if stores.blocks.isAnyAncestorOf candidates newCandidate then candidates
  else removeHashesInFutureOf stores candidates newCandidate ++ [newCandidate]

/-- The loop that adds candidates to the parents of virtual. -/
def addCandidates :
    Nat → List DomainHash → List DomainHash → UInt64 → Except Failure (List DomainHash)
  | _, [], selectedVirtualParents, _ => return selectedVirtualParents
  | fuel, candidate :: candidates, selectedVirtualParents, mergeSetSize =>
    if mergeSetSize < cfg.header.mergeSetSizeLimit ∧
        selectedVirtualParents.length < cfg.maxBlockParents.toNat then
      match fuel with
      | 0 => .error (.panic "out of fuel")
      | fuel+1 => do
        let result ← mergeSetIncrease cfg stores candidate selectedVirtualParents mergeSetSize
        match result with
        | .canBeParent increase =>
          addCandidates fuel candidates (selectedVirtualParents ++ [candidate])
            (mergeSetSize+increase)
        | .newCandidate newCandidate =>
          addCandidates fuel (replaceCandidate stores candidates newCandidate)
            selectedVirtualParents mergeSetSize
    else
      return selectedVirtualParents

/-- `pickVirtualParents` up to the bounded merge. -/
def acceptParents (tips : List DomainHash) : Except Failure (List DomainHash) := do
  let heap ← tips.foldlM (pushHash stores) []
  let (virtualSelectedParent, heap) ←
    selectVirtualSelectedParent stores stores.blocks.length ⟨heap,∅,[]⟩
  let candidates ← collectCandidates cfg heap
  addCandidates cfg stores (2^stores.blocks.length) candidates [virtualSelectedParent.hash] 1

/-! ## The bounded merge -/

section
variable (parents : List DomainHash) (data : BlockGHOSTDAGData)

/-- Virtual with the given parents. It has no header, and only the parents are read. -/
def stageVirtual : StagedHeader where
  hash := virtualBlockHash
  header := ⟨0,[parents],0,0,0,0,0,0,0,0,0,0⟩
  ghostdagData := data
  daaScore := 0
  daaAddedBlocks := []

def virtualMergeDepthRoot : Except Failure DomainHash :=
  calculateMergeDepthRoot cfg.header stores.toHeaderStores (stageVirtual parents data)

/-- The red blocks that have the root not in their past and are not kosherized. -/
def badReds (mergeDepthRoot : DomainHash) : List DomainHash :=
  data.mergeSetReds.filter fun red =>
    !stores.blocks.isAncestorOf mergeDepthRoot red &&
      !stores.blocks.isAncestorOfAny red
        (nonBoundedMergeDepthViolatingBlues stores.toHeaderStores data mergeDepthRoot)

def boundedMergeBreakingParents : Except Failure (List DomainHash) := do
  let data ← ghostdag cfg.header.ghostdag stores.blocks parents
  let mergeDepthRoot ← virtualMergeDepthRoot cfg stores parents data
  return parents.filter (stores.blocks.isAnyAncestorOf (badReds stores data mergeDepthRoot))

/-- The last parent takes the place of the removed one. -/
def removeParent (breakingParent : DomainHash) : List DomainHash :=
  match parents.idxOf? breakingParent, parents.getLast? with
  | some i, some last => (parents.set i last).dropLast
  | _, _ => parents

end

def pickVirtualParents (tips : List DomainHash) : Except Failure (List DomainHash) := do
  let selectedVirtualParents ← acceptParents cfg stores tips
  let breakingParents ← boundedMergeBreakingParents cfg stores selectedVirtualParents
  return breakingParents.foldl removeParent selectedVirtualParents

end
end Eiyaro
