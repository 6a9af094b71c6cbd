import Eiyaro.Consensus.Restorable
import Eiyaro.Util.Meet

/-!
# The UTXO diff between two pruning points

`pruningmanager.go` has two computations of the diff from the previous pruning point to the current
one. One replays the accepted transactions of the chain blocks in between. The other follows the
diff children of both points up to a common descendant and combines the diffs on the two ways.
-/

namespace Eiyaro
open List

/-- The pruning points so far. -/
structure PruningStore where
  pruningPointByIndex : FinMap UInt64 DomainHash
  currentPruningPointIndex : Option UInt64

namespace Consensus
open UTXODiff
variable {M : Type} (cs : Consensus M) {s : UtxoCollection} {hash : DomainHash} {rounds : Nat}

/-! ## The two computations -/

/-- The whole past UTXO set of genesis, taken from `RestorePastUTXOSetIterator`. -/
def genesisDiff (st : ConsensusStores M) : Except Failure UTXODiff := do
  let diff ← st.restorePastUTXO cs.genesisHash
  return ⟨diff.applyTo st.utxoSet,∅⟩

def previousPruningPoint (points : PruningStore) : Except Failure DomainHash := do
  let pruningPointIndex ← fromStore points.currentPruningPointIndex
  if pruningPointIndex = 0 then
    .error (.error "previous pruning point doesn't exist")
  else
    fromStore (points.pruningPointByIndex.get (pruningPointIndex - 1))

/-- `diffTraversalLoop`: the blocks on the ways from the previous and from the current pruning point
to the block where they meet. -/
def diffTraversal (st : ConsensusStores M) : Nat → DomainHash → Nat → DomainHash → Nat →
    Except Failure (List DomainHash × List DomainHash)
  | 0, _, _, _, _ => .error (.error "the diff children do not end")
  | rounds+1, previous, previousBlueWork, current, currentBlueWork =>
    if previousBlueWork < currentBlueWork then do
      let child ← fromStore (st.utxoDiffChild.get previous)
      let childData ← cs.getBlockData child
      let (fromPrevious, fromCurrent) ← diffTraversal st rounds child
        childData.ghostdagData.blueWork current currentBlueWork
      return (previous :: fromPrevious, fromCurrent)
    else if current = previous then
      return ([], [])
    else do
      let child ← fromStore (st.utxoDiffChild.get current)
      let childData ← cs.getBlockData child
      let (fromPrevious, fromCurrent) ← diffTraversal st rounds previous previousBlueWork child
        childData.ghostdagData.blueWork
      return (fromPrevious, current :: fromCurrent)

variable (st : ConsensusStores M)

/-- The diffs of blocks on a way up, applied from the top. -/
def combineDiffs (hashes : List DomainHash) : Except Failure UTXODiff :=
  hashes.reverse.foldlM (fun diff hash => do
    let utxoDiff ← fromStore (st.utxoDiff.get hash)
    liftDiffError (diff.withDiffInPlace utxoDiff)) newUTXODiff

/-- A round of the loop goes up one diff child, so the diffs bound the rounds. -/
def calculateDiffBetweenPreviousAndCurrentPruningPoints
    (points : PruningStore) (currentPruningHash : DomainHash) : Except Failure UTXODiff :=
  if currentPruningHash = cs.genesisHash then
    cs.genesisDiff st
  else do
    let previousPruningHash ← previousPruningPoint points
    let currentData ← cs.getBlockData currentPruningHash
    let previousData ← cs.getBlockData previousPruningHash
    let (fromPrevious, fromCurrent) ← cs.diffTraversal st (2*st.utxoDiff.keys.card)
      previousPruningHash previousData.ghostdagData.blueWork
      currentPruningHash currentData.ghostdagData.blueWork
    let oldDiff ← combineDiffs st fromPrevious
    let newDiff ← combineDiffs st fromCurrent
    liftDiffError (oldDiff.diffFrom newDiff)

/-- `SelectedChildIterator` without the low block: the selected chain from above `low` up to `high`.
The blue work falls along selected parents and bounds the rounds. -/
def selectedChildren (low : DomainHash) : Nat → DomainHash → Except Failure (List DomainHash)
  | 0, _ => .error (.error "low is not in the selected parent chain of high")
  | rounds+1, high =>
    if high = low then
      return []
    else do
      let data ← cs.getBlockData high
      match data.ghostdagData.selectedParent with
      | none => .error (.error "low is not in the selected parent chain of high")
      | some selectedParent => do
        let below ← selectedChildren low rounds selectedParent
        return below ++ [high]

/-- The accepted transactions of one chain block. -/
def addAcceptedTransactions (diff : UTXODiff) (acceptanceData : AcceptanceData)
    (daaScore : UInt64) : Except Failure UTXODiff :=
  acceptanceData.foldlM (fun diff blockAcceptanceData =>
    blockAcceptanceData.transactionAcceptanceData.foldlM (fun diff txData =>
      if txData.isAccepted then
        cs.addTransaction diff txData.transaction daaScore
      else
        .ok diff) diff) diff

def addChainBlock (diff : UTXODiff) (child : DomainHash) : Except Failure UTXODiff := do
  let chainBlockAcceptanceData ← fromStore (st.acceptanceData.get child)
  let data ← cs.getBlockData child
  cs.addAcceptedTransactions diff chainBlockAcceptanceData data.block.header.daaScore

def calculateDiffBetweenPreviousAndCurrentPruningPointsUsingAcceptanceData
    (points : PruningStore) (currentPruningHash : DomainHash) : Except Failure UTXODiff :=
  if currentPruningHash = cs.genesisHash then
    cs.genesisDiff st
  else do
    let previousPruningHash ← previousPruningPoint points
    let currentData ← cs.getBlockData currentPruningHash
    let children ← cs.selectedChildren previousPruningHash
      (currentData.ghostdagData.blueWork+1) currentPruningHash
    children.foldlM (cs.addChainBlock st) newUTXODiff

/-! ## The diff of the accepted transactions -/

variable {cs st} {values : DomainOutpoint → UInt64 → UTXOEntry} {base s' rootSet : UtxoCollection}
  {d : UTXODiff} {root low high tip : DomainHash}

/-- Adding the recorded transactions of a merge set to a diff replays the merge set on the set that
the diff leads to. -/
lemma addAcceptedTransactions_leads {blockHash : DomainHash} {daaScore : UInt64}
    {ghostdagData : BlockGHOSTDAGData} {acceptanceData : AcceptanceData}
    (hb : cs.ValidBodies values) (hbs : Agrees values base) (h : d.Leads values base s)
    (hfr : cs.NoRecreation blockHash daaScore ghostdagData s)
    (hrp : cs.replayMergeSet blockHash daaScore ghostdagData s = .ok (s', acceptanceData)) :
    ∃ d', cs.addAcceptedTransactions d acceptanceData daaScore = .ok d' ∧
      d'.Leads values base s' := by
  obtain ⟨blocks,hbl,hrn⟩ := bind_eq_ok hrp
  refine mapAccum.foldlM_outputs (R := fun d s => Leads values d base s) ?_ h (hfr blocks hbl) hrn
  rintro d s ⟨⟨_,_⟩,_⟩ hm h hfr s' _ hblk
  obtain ⟨_,hd,rfl⟩ := exists_of_mem_mergeSetBlocks hbl _ (fst_mem_of_mem_zipIdx hm)
  obtain ⟨⟨_,_⟩,hts,hblk⟩ := bind_eq_ok hblk
  cases hblk
  refine mapAccum.foldlM_outputs (R := fun d s => Leads values d base s) ?_ h hfr hts
  intro d s tx htx h hfr s' txData hr
  obtain ⟨hrj,rfl⟩ | ⟨ha,ht,hi,rfl⟩ := replayTransaction_cases hr
  · exact ⟨d,by rw [hrj]; rfl,h⟩
  · rw [if_pos ha,ht]
    refine addTransaction_leads hbs h ((hb.validInIsolation hd).transactions tx htx)
      hi (hfr _ txData hr ha) fun p hp => ?_
    rw [blockDAAScore_of_mem_createdEntries hp]
    exact hb.values_eq hd tx htx daaScore p hp

/-- The blocks that have a past UTXO set are not below the root. -/
lemma Replays.blueWork_le (hcs : cs.WellFormed values)
    (h : cs.Replays root rootSet hash s) : cs.blueWork root ≤ cs.blueWork hash := by
  induction h with
  | root => exact le_rfl
  | child _ hd hp _ _ ih =>
    exact ih.trans (IsSelectedParent.blueWork_lt hcs ⟨_,hd,hp⟩).le

lemma IsSelectedParent.blueWork_le_of_chain (hcs : cs.WellFormed values)
    (hc : Relation.ReflTransGen cs.IsSelectedParent low high) :
    cs.blueWork low ≤ cs.blueWork high := by
  induction hc with
  | refl => exact le_rfl
  | tail _ hp ih => exact ih.trans (hp.blueWork_lt hcs).le

/-- The other stores have the same acceptance data for the selected chain above `low`. -/
def SameAccepted (cs : Consensus M) (low high : DomainHash) (st st' : ConsensusStores M) : Prop :=
  ∀ hash, hash ≠ low → Relation.ReflTransGen cs.IsSelectedParent low hash →
    Relation.ReflTransGen cs.IsSelectedParent hash high →
    st'.acceptanceData.get hash = st.acceptanceData.get hash

/-- The blocks of the selected chain, with the diff of their accepted transactions. -/
lemma selectedChildren_leads [AddCommGroup M] (hcs : cs.WellFormed values)
    (hr : cs.Recorded root rootSet st) (hlow : cs.Replays root rootSet low s) (ha : Agrees values s)
    (hch : Relation.ReflTransGen cs.IsSelectedParent low high) (hh : st.Resolved high)
    (hrn : cs.blueWork high < rounds) :
    ∃ children d s', cs.selectedChildren low rounds high = .ok children ∧
      (∀ st', cs.SameAccepted low high st st' →
        children.foldlM (cs.addChainBlock st') newUTXODiff = .ok d) ∧
      cs.Replays root rootSet high s' ∧ d.Leads values s s' := by
  induction hch generalizing rounds with
  | refl =>
    obtain ⟨rounds,rfl⟩ : ∃ r, rounds = r+1 := ⟨rounds - 1,by omega⟩
    exact ⟨[],newUTXODiff,s,by simp [selectedChildren,pure,Except.pure],fun _ _ => rfl,hlow,
      .newUTXODiff values s⟩
  | @tail parent high hch hp ih =>
    obtain ⟨rounds,rfl⟩ : ∃ r, rounds = r+1 := ⟨rounds - 1,by omega⟩
    have hlt := hp.blueWork_lt hcs
    have hle := IsSelectedParent.blueWork_le_of_chain hcs hch
    have hne : high ≠ low := by
      rintro rfl
      omega
    have hrt : high ≠ root := by
      rintro rfl
      have := hlow.blueWork_le hcs
      omega
    obtain ⟨children,d,_,hc,hfl,ht,hl⟩ :=
      ih (hr.parent high parent hh hrt hp) (show cs.blueWork parent < rounds by omega)
    obtain ⟨_,hac,_,_,_,s',hcn,hf,hrp⟩ := hr.accepted high hh hrt
    have hc' := hch.tail hp
    have hst : Relation.ReflTransGen cs.IsSelectedParent parent high := .single hp
    obtain ⟨_,hdt',hsl⟩ := hp
    obtain rfl := Option.some.inj (hcn.data_eq.symm.trans hdt')
    obtain rfl := Option.some.inj (hcn.parent.symm.trans hsl)
    obtain rfl := hcn.replays.unique ht
    -- the recorded acceptance data are those of the replay
    obtain ⟨d',hd',hl'⟩ := addAcceptedTransactions_leads hcs.bodies ha hl hf hrp
    refine ⟨children ++ [high],d',s',?_,?_,.child hrt hcn.data_eq hcn.parent ht hrp,hl'⟩
    · rw [selectedChildren,if_neg hne,getBlockData_eq_ok.2 hdt',ok_bind,hsl]
      dsimp only
      rw [hc]
      rfl
    · intro st' hs
      rw [foldlM_append,hfl st' fun hash hne hlow hhs => hs hash hne hlow
          (hhs.trans hst),ok_bind,foldlM_cons,addChainBlock,
        hs high hne hc' .refl,hac]
      dsimp only [fromStore]
      rw [ok_bind,getBlockData_eq_ok.2 hdt',ok_bind,hd']
      rfl

/-! ## The diff of the diff children -/

/-- The traversal is where the two walks of the diff children are. -/
lemma diffTraversal_eq (hs : ∀ k k', st.utxoDiffChild.get k = some k' →
      ∃ data, cs.blockData k' = some data) {previous current : DomainHash}
    {left left' : List DomainHash}
    (h : meet st.utxoDiffChild.get cs.blueWork rounds previous current = some (left, left')) :
    cs.diffTraversal st rounds previous (cs.blueWork previous) current (cs.blueWork current) =
      .ok (left, left') := by
  induction rounds generalizing previous current left left' with
  | zero => cases h
  | succ rounds ih =>
    -- the blue work of a child is that of its data
    have hc : ∀ k k', st.utxoDiffChild.get k = some k' → ∃ data, cs.getBlockData k' = .ok data ∧
        data.ghostdagData.blueWork = cs.blueWork k' := by
      intro k k' hk
      obtain ⟨data,hdt⟩ := hs k k' hk
      exact ⟨data,getBlockData_eq_ok.2 hdt,by rw [blueWork,hdt]⟩
    rw [meet] at h
    rw [diffTraversal]
    split at h
    · next hlt =>
      simp only [bind,Option.bind_eq_some_iff] at h
      obtain ⟨k',hk',⟨left₁,left₁'⟩,hmt,h⟩ := h
      cases h
      obtain ⟨data,hdt,hwr⟩ := hc _ _ hk'
      rw [if_pos hlt,hk',fromStore,ok_bind,hdt,ok_bind,hwr,ih hmt]
      rfl
    · next hlt =>
      rw [if_neg hlt]
      split at h
      · next heq =>
        cases h
        rw [if_pos heq]
        rfl
      · next hne =>
        simp only [bind,Option.bind_eq_some_iff] at h
        obtain ⟨k',hk',⟨left₁,left₁'⟩,hmt,h⟩ := h
        cases h
        obtain ⟨data,hdt,hwr⟩ := hc _ _ hk'
        rw [if_neg hne,hk',fromStore,ok_bind,hdt,ok_bind,hwr,ih hmt]
        rfl

variable [AddCommGroup M]

/-- The way of a block along its diff children ends at the tip. -/
lemma Sound.exists_climb (h : cs.Sound values root rootSet st tip) (hr : st.Resolved hash) :
    ∃ nodes, Climb st.utxoDiffChild.get nodes hash tip ∧ nodes.length < st.utxoDiff.keys.card := by
  obtain ⟨s,n,hs,hp,-⟩ := h.restorable hr
  have hn : n < st.utxoDiff.keys.card := DeltaForest.Path.lt_card ConsensusStores.leads_unique
    (fun hash _ hd => FinMap.mem_keys_of_get hd) hp
  have hcl : ∃ nodes, Climb st.utxoDiffChild.get nodes hash tip ∧ nodes.length = n := by
    clear hs hn hr
    induction hp with
    | @root k l s hQ _ hnx _ =>
      obtain rfl := (h.child hQ.1).1 hnx
      exact ⟨[],.nil _,rfl⟩
    | @link n k _ l s _ hQ _ hnx _ _ ih =>
      obtain ⟨nodes,hcl,hl⟩ := ih
      exact ⟨k :: nodes,.cons hnx hcl,by simp [hl]⟩
  obtain ⟨nodes,hcl,rfl⟩ := hcl
  exact ⟨nodes,hcl,hn⟩

lemma Sound.combineDiffs_eq (h : cs.Sound values root rootSet st tip) {nodes : List DomainHash}
    {top : DomainHash} (hc : Climb st.utxoDiffChild.get nodes hash top)
    (hr : st.Resolved hash) (hs : cs.Replays root rootSet hash s) :
    ∃ d t, combineDiffs st nodes = .ok d ∧ cs.Replays root rootSet top t ∧ Agrees values t ∧
      d.Leads values t s := by
  induction hc generalizing s with
  | nil => exact ⟨newUTXODiff,s,rfl,hs,h.agrees_replayed hr hs,.newUTXODiff values s⟩
  | @cons _ _ top nodes hn hc ih =>
    obtain ⟨hr',diff,_,hdf,hu,hl⟩ := h.child_diff hr hs hn
    obtain ⟨d,t,hd,ht,ha,hl'⟩ := ih hr' hu
    obtain ⟨d',hd',hl''⟩ := hl'.withDiff ha hl
    change d.withDiffInPlace diff = .ok d' at hd'
    refine ⟨d',t,?_,ht,ha,hl''⟩
    rw [combineDiffs] at hd ⊢
    rw [reverse_cons,foldlM_append,hd,ok_bind,foldlM_cons,hdf]
    dsimp only [fromStore]
    rw [ok_bind,hd']
    rfl

/-! ## Both diffs -/

/-- The pruning points 1 and `current`. -/
def samplePoints (current : DomainHash) : PruningStore :=
  ⟨((∅ : FinMap UInt64 DomainHash).insert 0 1).insert 1 current,some 1⟩

lemma chainBlocks_blueWork (h : (sampleConsensus payingBlocks).blueWork hash =
      (sampleConsensus payingBlocks).blueWork 2) : hash = 2 := by
  rw [blueWork] at h
  split at h
  · next data hd =>
    rcases chainBlocks_cases hd with ⟨rfl,rfl⟩ | ⟨rfl,rfl⟩ | ⟨rfl,rfl⟩
    · cases h
    · cases h
    · rfl
  · cases h

/-- Three blocks on top of genesis, the first two with the same coinbase transaction. -/
def repeatedBlocks : DomainHash → Option BlockData :=
  let withBlueWork (blueWork : Nat) (data : BlockData) : BlockData :=
    { data with ghostdagData := { data.ghostdagData with blueWork := blueWork } }
  fun hash =>
    if hash = 0 then some sampleGenesisData
    else if hash = 1 then some (withBlueWork 1 (sampleBlockData 0 1 [⟨5,⟨[],0⟩⟩]))
    else if hash = 2 then some (withBlueWork 2 (sampleBlockData 1 2 [⟨5,⟨[],0⟩⟩]))
    else if hash = 3 then some (withBlueWork 3 (sampleBlockData 2 3 []))
    else none

end Consensus
end Eiyaro
