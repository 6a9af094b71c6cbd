import Eiyaro.Pruning.Anticone
import Eiyaro.Pruning.Diff

/-!
# The update of the pruning point

A new pruning point is committed together with a flag. `updatePruningPoint` then computes the UTXO
diff from the previous pruning point, writes it to the pruning point UTXO set one outpoint at a
time, deletes the blocks below the pruning point in one transaction, and clears the flag. When the
process stops before that, all of it is done again at the next start.
-/

namespace Eiyaro
open List FinMap

/-- The stores that hold data of a block which is deleted with the block. -/
structure PrunableStores (M : Type) extends ConsensusStores M where
  blocks : FinMap DomainHash DomainBlock
  daaAddedBlocks : FinMap DomainHash (List DomainHash)

/-- What an update of the pruning point reads and writes. -/
structure PruningDatabase (M : Type) where
  stores : PrunableStores M
  points : PruningStore
  updatingPruningPointUTXOSet : Bool
  pruningPointUTXOSet : UtxoCollection

/-- The process can stop between two of these. -/
inductive PruningWrite (M : Type)
  | deleteUTXO (outpoint : DomainOutpoint)
  | putUTXO (outpoint : DomainOutpoint) (entry : UTXOEntry)
  | commitAllChanges (stores : PrunableStores M)
  | finishUpdatingPruningPointUTXOSet

/-- What a call does not find in the database: the order in which the maps are visited, and the
answer of `shouldDeferDeletion`, which asks the clock. -/
structure UpdateCall where
  orders : (m : UtxoCollection) → m.Iteration
  shouldDeferDeletion : Bool

/-- The DAG and the windows do not change while a pruning point is updated. -/
structure PruningManager (M : Type) extends Topology where
  consensus : Consensus M
  isArchivalNode : Bool
  shouldSanityCheckPruningUTXOSet : Bool

def PruningDatabase.write {M : Type} (db : PruningDatabase M) : PruningWrite M → PruningDatabase M
  | .deleteUTXO outpoint =>
    { db with pruningPointUTXOSet := db.pruningPointUTXOSet.erase outpoint }
  | .putUTXO outpoint entry =>
    { db with pruningPointUTXOSet := db.pruningPointUTXOSet.insert outpoint entry }
  | .commitAllChanges stores => { db with stores := stores }
  | .finishUpdatingPruningPointUTXOSet => { db with updatingPruningPointUTXOSet := false }

def PruningStore.pruningPoint (points : PruningStore) : Except Failure DomainHash := do
  let pruningPointIndex ← fromStore points.currentPruningPointIndex
  fromStore (points.pruningPointByIndex.get pruningPointIndex)

def updatePruningPointUTXOSet {M : Type} (orders : (m : UtxoCollection) → m.Iteration)
    (diff : UTXODiff) : List (PruningWrite M) :=
  (orders diff.toRemove).order.map .deleteUTXO ++
    (orders diff.toAdd).entries.map fun (outpoint, entry) => .putUTXO outpoint entry

namespace PruningManager
variable {M : Type} (pm : PruningManager M)

/-! ## The deletion of past blocks -/

/-- Whether the block was pruned already, and the stores without its data. Deleting from the DAA
blocks store marks the added blocks for deletion twice and never the DAA score, which stays. -/
def deleteBlock (st : PrunableStores M) (blockHash : DomainHash) : Bool × PrunableStores M :=
  match st.blockStatus.get blockHash with
  | none => (false, st)
  | some .statusHeaderOnly => (true, st)
  | some _ =>
    let st := { st with blockStatus := st.blockStatus.insert blockHash .statusHeaderOnly }
    if pm.isArchivalNode then
      (false, st)
    else
      (false, { st with
          multiset := st.multiset.erase blockHash
          acceptanceData := st.acceptanceData.erase blockHash
          blocks := st.blocks.erase blockHash
          utxoDiff := st.utxoDiff.erase blockHash
          utxoDiffChild := st.utxoDiffChild.erase blockHash
          daaAddedBlocks := st.daaAddedBlocks.erase blockHash })

/-- Whether the parents of the block are visited too. -/
def visitDownward (blocksToKeep : List DomainHash) (current : DomainHash) (st : PrunableStores M) :
    Except Failure (Bool × PrunableStores M) :=
  if current ∈ blocksToKeep then
    .ok (true, st)
  else
    let (alreadyPruned, st) := pm.deleteBlock st current
    .ok (!alreadyPruned, st)

/-- The source takes the block with the greatest blue work first. A block is only visited once, and
what is done then depends on that block alone, so that the order does not matter. -/
def deleteBlocksDownward (blocksToKeep queue : List DomainHash) (st : PrunableStores M) :
    Except Failure (PrunableStores M) :=
  walk pm.parentsOf (pm.visitDownward blocksToKeep) (.error "the queue never ends")
    (walk.enough pm.parentsOf pm.parents.keys queue) queue ∅ st

def deletePastBlocks (st : PrunableStores M) (pruningPoint : DomainHash) :
    Except Failure (PrunableStores M) := do
  let stays := fun tip => pm.isInPruningFutureOrInVirtualPast tip pruningPoint
  let queue := (st.tips.filter fun tip => !stays tip) ++ pm.parentsOf pruningPoint
  let blocksToKeep ← pm.calculateBlocksToKeep pruningPoint
  pm.deleteBlocksDownward blocksToKeep queue { st with tips := st.tips.filter stays }

/-! ## The update -/

section
variable [AddCommGroup M]
variable (db : PruningDatabase M)

def validateUTXOSetFitsCommitment (pruningPointHash : DomainHash) : Except Failure Unit := do
  let data ← pm.consensus.getBlockData pruningPointHash
  if data.block.header.utxoCommitment ≠
      pm.consensus.multisetHash (pm.consensus.multisetOf db.pruningPointUTXOSet) then
    .error (.error "Calculated UTXOSet for next pruning point doesn't match it's UTXO commitment")
  else
    .ok ()

/-- The diff from acceptance data, or else from the UTXO diff children. -/
def utxoSetDiff (pruningPoint : DomainHash) : Except Failure UTXODiff :=
  match pm.consensus.calculateDiffBetweenPreviousAndCurrentPruningPointsUsingAcceptanceData
      db.stores.toConsensusStores db.points pruningPoint with
  | .ok diff => .ok diff
  | .error _ => pm.consensus.calculateDiffBetweenPreviousAndCurrentPruningPoints
      db.stores.toConsensusStores db.points pruningPoint

section
variable (call : UpdateCall) (db : PruningDatabase M)

/-- What is done between the writes of the UTXO set and the commit of the staged changes. -/
def validateAndDelete (pruningPoint : DomainHash) : Except Failure (PrunableStores M) := do
  if pm.shouldSanityCheckPruningUTXOSet ∧ pruningPoint ≠ pm.consensus.genesisHash then
    pm.validateUTXOSetFitsCommitment db pruningPoint
  if call.shouldDeferDeletion then
    return db.stores
  else
    pm.deletePastBlocks db.stores pruningPoint

/-- The writes in their order, and the outcome. -/
def updatePruningPoint : List (PruningWrite M) × Except Failure Unit :=
  match (do
    let pruningPoint ← db.points.pruningPoint
    let diff ← pm.utxoSetDiff db pruningPoint
    return (pruningPoint, diff)) with
  | .error failure => ([], .error failure)
  | .ok (pruningPoint, diff) =>
    let writes := updatePruningPointUTXOSet call.orders diff
    match pm.validateAndDelete call (writes.foldl .write db) pruningPoint with
    | .error failure => (writes, .error failure)
    | .ok stores =>
      (writes ++ [.commitAllChanges stores,.finishUpdatingPruningPointUTXOSet], .ok ())

def updatePruningPointIfRequired : List (PruningWrite M) × Except Failure Unit :=
  if db.updatingPruningPointUTXOSet then pm.updatePruningPoint call db else ([], .ok ())

end

/-- The database when the process stops after some of the writes of a call. -/
def stopAfter (stop : UpdateCall × Nat) : PruningDatabase M :=
  ((pm.updatePruningPointIfRequired stop.1 db).1.take stop.2).foldl .write db

end

/-! ## What a deletion does -/

variable {pm}

variable {st st' : PrunableStores M} {blocksToKeep queue : List DomainHash}

/-- The deletion ends. -/
lemma deleteBlocksDownward_ok : ∃ st', pm.deleteBlocksDownward blocksToKeep queue st = .ok st' := by
  refine walk.ok (fun _ => Topology.parentsOf_eq_nil) fun h st => ?_
  rw [visitDownward]
  split
  · exact ⟨_,rfl⟩
  · exact ⟨_,rfl⟩

/-- The stores have the same data of a block, apart from its status. -/
structure SameData (hash : DomainHash) (st st' : PrunableStores M) : Prop where
  multiset : st'.multiset.get hash = st.multiset.get hash
  acceptanceData : st'.acceptanceData.get hash = st.acceptanceData.get hash
  blocks : st'.blocks.get hash = st.blocks.get hash
  utxoDiff : st'.utxoDiff.get hash = st.utxoDiff.get hash
  utxoDiffChild : st'.utxoDiffChild.get hash = st.utxoDiffChild.get hash
  daaAddedBlocks : st'.daaAddedBlocks.get hash = st.daaAddedBlocks.get hash

lemma SameData.refl (hash : DomainHash) (st : PrunableStores M) : SameData hash st st :=
  ⟨rfl,rfl,rfl,rfl,rfl,rfl⟩

lemma SameData.trans {hash : DomainHash} {st'' : PrunableStores M} (h : SameData hash st st')
    (h' : SameData hash st' st'') : SameData hash st st'' :=
  ⟨h'.1.trans h.1,h'.2.trans h.2,h'.3.trans h.3,h'.4.trans h.4,h'.5.trans h.5,h'.6.trans h.6⟩

/-- The tips stay, a block that was pruned stays so, and a block loses its data at most if it is in
`S`. -/
structure Prunes (S : Set DomainHash) (st st' : PrunableStores M) : Prop where
  tips : st'.tips = st.tips
  headerOnly : ∀ hash, st.blockStatus.get hash = some .statusHeaderOnly →
    st'.blockStatus.get hash = some .statusHeaderOnly
  sameData : ∀ hash ∉ S, SameData hash st st'

lemma Prunes.refl (S : Set DomainHash) (st : PrunableStores M) : Prunes S st st :=
  ⟨rfl,fun _ => id,fun hash _ => .refl hash st⟩

lemma Prunes.trans {S : Set DomainHash} {st'' : PrunableStores M} (h : Prunes S st st')
    (h' : Prunes S st' st'') : Prunes S st st'' :=
  ⟨h'.tips.trans h.tips,fun hash hs => h'.headerOnly hash (h.headerOnly hash hs),
    fun hash hs => (h.sameData hash hs).trans (h'.sameData hash hs)⟩

lemma deleteBlock_prunes (st : PrunableStores M) (block : DomainHash) :
    Prunes {hash | hash = block ∧ pm.isArchivalNode = false ∧
      st.blockStatus.get hash ≠ some .statusHeaderOnly} st (pm.deleteBlock st block).2 := by
  have hh : ∀ hash, st.blockStatus.get hash = some .statusHeaderOnly →
      (st.blockStatus.insert block .statusHeaderOnly).get hash = some .statusHeaderOnly := by
    intro hash hs
    rw [get_insert]
    split
    · rfl
    · exact hs
  rw [deleteBlock]
  split
  · exact .refl _ _
  · exact .refl _ _
  · next hne hs =>
    split
    · exact ⟨rfl,hh,fun _ _ => ⟨rfl,rfl,rfl,rfl,rfl,rfl⟩⟩
    · next ha =>
      refine ⟨rfl,hh,fun hash hn => ?_⟩
      have hb : hash ≠ block := by
        rintro rfl
        exact hn ⟨rfl,Bool.not_eq_true _ ▸ ha,fun h => hne (Option.some.inj (hs.symm.trans h))⟩
      constructor <;> exact get_erase_of_ne _ hb

/-- Blocks that are kept, that were pruned before or that the walk does not come to lose nothing,
and no block does on an archival node. -/
lemma deleteBlocksDownward_prunes {S : Set DomainHash}
    (hd : ∀ h ∈ S, ∀ parent ∈ pm.parentsOf h, parent ∈ S) (hqu : ∀ h ∈ queue, h ∈ S)
    (hr : pm.deleteBlocksDownward blocksToKeep queue st = .ok st') :
    Prunes {hash | hash ∈ S ∧ hash ∉ blocksToKeep ∧ pm.isArchivalNode = false ∧
      st.blockStatus.get hash ≠ some .statusHeaderOnly} st st' := by
  set T := {hash | hash ∈ S ∧ hash ∉ blocksToKeep ∧ pm.isArchivalNode = false ∧
    st.blockStatus.get hash ≠ some .statusHeaderOnly}
  have hvisit : ∀ current ∈ S, ∀ t goesOn t', Prunes T st t →
      pm.visitDownward blocksToKeep current t = .ok (goesOn, t') → Prunes T st t' := by
    intro current hc t _ _ h hvs
    rw [visitDownward] at hvs
    split at hvs
    · cases hvs
      exact h
    · next hk =>
      cases hvs
      obtain ⟨ht,hh,hs⟩ := pm.deleteBlock_prunes t current
      refine h.trans ⟨ht,hh,fun hash hn => hs hash ?_⟩
      rintro ⟨rfl,ha,hne⟩
      exact hn ⟨hc,hk,ha,fun hs => hne (h.headerOnly _ hs)⟩
  obtain ⟨_,h,-⟩ := walk.rule (I := fun _ => Prunes T st) (G := fun _ => False) hd hqu
    (fun current hc _ t _ t' _ h hvs => ⟨hvisit current hc t _ t' h hvs,False.elim⟩) (.refl T st) hr
  exact h

variable {pruningPoint : DomainHash}

lemma deletePastBlocks_ok (st : PrunableStores M) (pruningPoint : DomainHash) :
    ∃ st', pm.deletePastBlocks st pruningPoint = .ok st' := by
  obtain ⟨_,hk,-⟩ := pm.calculateBlocksToKeep_spec pruningPoint
  rw [deletePastBlocks,hk,ok_bind]
  exact deleteBlocksDownward_ok

/-- The walk starts at the pruned tips and at the parents of the pruning point, and nothing below
them has the pruning point in its past. -/
lemma deletePastBlocks_prunes (hr : pm.deletePastBlocks st pruningPoint = .ok st') :
    ∃ blocksToKeep, pm.calculateBlocksToKeep pruningPoint = .ok blocksToKeep ∧
      Prunes {hash | ¬pm.dag.Anc pruningPoint hash ∧ hash ∉ blocksToKeep ∧
          pm.isArchivalNode = false ∧ st.blockStatus.get hash ≠ some .statusHeaderOnly}
        { st with
          tips := st.tips.filter (pm.isInPruningFutureOrInVirtualPast · pruningPoint) } st' := by
  obtain ⟨blocksToKeep,hk,hr⟩ := bind_eq_ok hr
  refine ⟨blocksToKeep,hk,deleteBlocksDownward_prunes (S := {hash | ¬pm.dag.Anc pruningPoint hash})
    (fun h hh parent hpar ha => hh ?_) (forall_mem_append.2 ⟨fun tip ht ha => ?_,
      fun parent hpar ha => ?_⟩) hr⟩
  · exact pm.wf.anc_trans ha (Topology.anc_of_mem_parentsOf hpar).1
  · have hs := (mem_filter.1 ht).2
    simp [Topology.isInPruningFutureOrInVirtualPast,ha] at hs
  · obtain ⟨hpar,hne⟩ := Topology.anc_of_mem_parentsOf hpar
    exact hne (pm.wf.anc_antisymm hpar ha)

end PruningManager

/-! ## Writing a diff again -/

section
variable {M : Type} {base s : UtxoCollection} {diff : UTXODiff} {db : PruningDatabase M}
  {orders : (m : UtxoCollection) → m.Iteration}

/-- Some outpoints of the diff may be written already. -/
def Midway (base : UtxoCollection) (diff : UTXODiff) (s : UtxoCollection) : Prop :=
  ∀ o, diff.toAdd.get o = none → diff.toRemove.get o = none → s.get o = base.get o

/-- The writes of a diff, in any order. -/
inductive WriteOf (diff : UTXODiff) : PruningWrite M → Prop
  | deleteUTXO {o : DomainOutpoint} (h : diff.toRemove.get o ≠ none) : WriteOf diff (.deleteUTXO o)
  | putUTXO {o : DomainOutpoint} {e : UTXOEntry} (h : diff.toAdd.get o = some e) :
    WriteOf diff (.putUTXO o e)

lemma WriteOf.of_mem {w : PruningWrite M}
    (h : w ∈ updatePruningPointUTXOSet orders diff) : WriteOf diff w := by
  obtain h | h := mem_append.1 h
  · obtain ⟨o,ho,rfl⟩ := mem_map.1 h
    obtain ⟨e,he⟩ := exists_get_of_mem (((orders diff.toRemove).mem_order o).1 ho)
    exact .deleteUTXO (by rw [he]; exact Option.some_ne_none e)
  · obtain ⟨⟨o,e⟩,he,rfl⟩ := mem_map.1 h
    exact .putUTXO ((orders diff.toAdd).mem_entries.1 he)

/-- The writes of a diff leave everything but the UTXO set alone, and the set between the old one
and the new one. -/
lemma foldl_write_midway {writes : List (PruningWrite M)} (hwr : ∀ w ∈ writes, WriteOf diff w)
    (h : Midway base diff db.pruningPointUTXOSet) :
    ∃ s, writes.foldl .write db = { db with pruningPointUTXOSet := s } ∧ Midway base diff s := by
  induction writes generalizing db with
  | nil => exact ⟨_,rfl,h⟩
  | cons w writes ih =>
    rw [forall_mem_cons] at hwr
    cases hwr.1 with
    | deleteUTXO hr =>
      refine ih hwr.2 fun o ha hnn => ?_
      rw [← h o ha hnn]
      exact get_erase_of_ne _ fun heq => hr (heq ▸ hnn)
    | putUTXO hp =>
      refine ih hwr.2 fun o ha hnn => ?_
      rw [← h o ha hnn]
      exact get_insert_of_ne _ _ fun heq => Option.some_ne_none _ (hp.symm.trans (heq ▸ ha))

/-- No write changes the pruning points. -/
lemma foldl_write_points (writes : List (PruningWrite M)) (db : PruningDatabase M) :
    (writes.foldl .write db).points = db.points := by
  induction writes generalizing db with
  | nil => rfl
  | cons w writes ih => cases w <;> exact ih _

lemma foldl_deleteUTXO (outpoints : List DomainOutpoint) (db : PruningDatabase M) :
    (outpoints.map PruningWrite.deleteUTXO).foldl .write db =
      { db with pruningPointUTXOSet := db.pruningPointUTXOSet.eraseKeys outpoints } := by
  induction outpoints generalizing db with
  | nil => rfl
  | cons _ outpoints ih => exact ih _

lemma foldl_putUTXO (entries : List (DomainOutpoint × UTXOEntry)) (db : PruningDatabase M) :
    (entries.map fun (o, e) => PruningWrite.putUTXO o e).foldl .write db =
      { db with pruningPointUTXOSet := db.pruningPointUTXOSet.insertEntries entries } := by
  induction entries generalizing db with
  | nil => rfl
  | cons _ entries ih => exact ih _

/-- From wherever the writes of a diff stopped, all of them once more give the new set. -/
lemma foldl_updatePruningPointUTXOSet
    (hap : diff.CanApply base) (h : Midway base diff db.pruningPointUTXOSet) :
    (updatePruningPointUTXOSet orders diff).foldl .write db =
      { db with pruningPointUTXOSet := diff.applyTo base } := by
  rw [updatePruningPointUTXOSet,foldl_append,foldl_deleteUTXO,foldl_putUTXO]
  congr 1
  ext1 o
  rw [insertEntries_entries,eraseKeys_order,get_insertAll,get_eraseAll,UTXODiff.get_applyTo,
    UTXODiff.cell]
  cases ha : diff.toAdd.get o with
  | some e => rfl
  | none =>
    cases hr : diff.toRemove.get o with
    | none =>
      rw [h o ha hr,DiffCell.applyTo_idle]
      rfl
    | some r =>
      obtain ⟨e,he,hs⟩ := (DiffCell.canApply_iff.1 (hap o)).1 r hr
      rw [he,DiffCell.applyTo_destroy _ hs]
      rfl

end

/-! ## Computing the diff again -/

namespace Consensus
open UTXODiff
variable {M : Type} {cs : Consensus M} {values : DomainOutpoint → UInt64 → UTXOEntry}
  {root current : DomainHash} {rootSet base : UtxoCollection} {st : ConsensusStores M}
  {points : PruningStore}

/-- The pruning points after a move to a UTXO-valid block, and the UTXO set of the pruning point
before the move. -/
inductive MovedPoint (cs : Consensus M) (root : DomainHash) (rootSet : UtxoCollection)
    (st : ConsensusStores M) (points : PruningStore) : DomainHash → UtxoCollection → Prop
  | genesis (hpoint : points.pruningPoint = .ok cs.genesisHash)
      (hvalid : st.blockStatus.get cs.genesisHash = some .statusUTXOValid) :
      MovedPoint cs root rootSet st points cs.genesisHash ∅
  | next {previous current : DomainHash} {s : UtxoCollection}
      (hpoint : points.pruningPoint = .ok current)
      (hprevious : previousPruningPoint points = .ok previous)
      (hgenesis : current ≠ cs.genesisHash) (hne : previous ≠ current)
      (hchain : Relation.ReflTransGen cs.IsSelectedParent previous current)
      (hvalid : st.blockStatus.get previous = some .statusUTXOValid)
      (hvalid' : st.blockStatus.get current = some .statusUTXOValid)
      (hs : cs.Replays root rootSet previous s) : MovedPoint cs root rootSet st points current s

/-- The stores `st'` have what the diff to the pruning point is computed from as `st` has it. -/
def KeepsDiffData (cs : Consensus M) (points : PruningStore) (st st' : ConsensusStores M) : Prop :=
  st' = st ∨ ∃ previous current, previousPruningPoint points = .ok previous ∧
    points.pruningPoint = .ok current ∧ current ≠ cs.genesisHash ∧
    cs.SameAccepted previous current st st'

variable [AddCommGroup M]

/-- A block that passed verification commits to the multiset of its past UTXO set. -/
lemma Recorded.utxoCommitment_eq (h : cs.Recorded root rootSet st)
    (hv : st.blockStatus.get current = some .statusUTXOValid) (hrt : current ≠ root)
    (hg : current ≠ cs.genesisHash) {s : UtxoCollection} (hs : cs.Replays root rootSet current s) :
    ∃ data, cs.blockData current = some data ∧
      data.block.header.utxoCommitment = cs.multisetHash (cs.multisetOf s) := by
  cases hs with
  | root => exact absurd rfl hrt
  | @child _ selectedParent data t _ acceptanceData _ hd hp hr hm =>
    have hvr := h.passes current hv hrt selectedParent data t s acceptanceData ⟨hrt,hd,hp,hr⟩ hm
    obtain ⟨_,hc,-⟩ := bind_eq_ok hvr
    rw [validateUTXOCommitment,if_neg hg] at hc
    exact ⟨data,hd,not_not.1 (of_ite_error hc).1⟩

/-- The diff from the UTXO set `base` to that of the pruning point. -/
structure DiffTo (cs : Consensus M) (st : ConsensusStores M) (points : PruningStore)
    (current : DomainHash) (base : UtxoCollection) (diff : UTXODiff) : Prop where
  pruningPoint : points.pruningPoint = .ok current
  canApply : diff.CanApply base
  diff_eq : ∀ st', cs.KeepsDiffData points st st' →
    cs.calculateDiffBetweenPreviousAndCurrentPruningPointsUsingAcceptanceData st' points current =
      .ok diff
  commitment : current ≠ cs.genesisHash → ∃ data, cs.blockData current = some data ∧
    data.block.header.utxoCommitment = cs.multisetHash (cs.multisetOf (diff.applyTo base))

lemma MovedPoint.exists_diff (hcs : cs.WellFormed values)
    (hc : cs.Consistent values root rootSet st)
    (h : cs.MovedPoint root rootSet st points current base) :
    ∃ diff, cs.Replays root rootSet current (diff.applyTo base) ∧
      cs.DiffTo st points current base diff := by
  obtain ⟨_,-,hst,hr,-⟩ := hc
  have hsn := hst.sound
  cases h with
  | genesis hpn hvl =>
    obtain ⟨s,-,hs,-⟩ := hsn.restorable (.inl hvl)
    obtain ⟨_,hd,hld⟩ := hsn.restorePastUTXO_eq (.inl hvl) hs
    -- the diff creates all entries of the past UTXO set of genesis
    have hse : applyTo ⟨s,∅⟩ ∅ = s := by
      ext1 o
      rw [get_applyTo,cell,DiffCell.applyTo]
      simp
    refine ⟨⟨s,∅⟩,by rwa [hse],hpn,fun o => ?_,?_,fun hne => absurd rfl hne⟩
    · rw [cell]
      cases s.get o with
      | none => exact .idle _
      | some e => exact .create e
    · rintro st' (rfl | ⟨previous,current,-,hpn',hne,-⟩)
      · rw [calculateDiffBetweenPreviousAndCurrentPruningPointsUsingAcceptanceData,if_pos rfl,
          genesisDiff,hd,ok_bind,hld.applyTo_eq]
        rfl
      · cases hpn.symm.trans hpn'
        exact absurd rfl hne
  | @next previous _ s hpn hp hg hne hch hvl hvl' hs =>
    obtain ⟨data,hdt⟩ := hsn.exists_blockData (.inl hvl')
    have hw : data.ghostdagData.blueWork = cs.blueWork current := by rw [blueWork,hdt]
    obtain ⟨_,diff,_,hcl,hdf,hs',hld⟩ := selectedChildren_leads hcs
      hr hs (hsn.agrees_replayed (.inl hvl) hs) hch (.inl hvl')
      (Nat.lt_succ_self _)
    have hrt : current ≠ root := by
      rintro rfl
      obtain heq | ⟨_,hch,hpr⟩ := Relation.ReflTransGen.cases_tail hch
      · exact hne heq.symm
      · have hlt := hpr.blueWork_lt hcs
        have hle := IsSelectedParent.blueWork_le_of_chain hcs hch
        have := hs.blueWork_le hcs
        omega
    rw [← hld.applyTo_eq] at hs'
    refine ⟨diff,hs',hpn,hld.canApply,fun st' hk => ?_,fun _ =>
      hr.utxoCommitment_eq hvl' hrt hg hs'⟩
    -- what was deleted since is not read between the two pruning points
    have hsm : cs.SameAccepted previous current st st' := by
      obtain rfl | ⟨_,_,hp',hpn',-,hsm⟩ := hk
      · exact fun _ _ _ _ => rfl
      · cases hp.symm.trans hp'
        cases hpn.symm.trans hpn'
        exact hsm
    rw [calculateDiffBetweenPreviousAndCurrentPruningPointsUsingAcceptanceData,if_neg hg,
      hp,ok_bind,getBlockData_eq_ok.2 hdt,ok_bind,hw,hcl,ok_bind,
      hdf st' hsm]

end Consensus

/-! ## Stops and restarts -/

namespace PruningManager
variable {M : Type} [AddCommGroup M] {pm : PruningManager M} {st : ConsensusStores M}
  {points : PruningStore} {current : DomainHash} {base : UtxoCollection} {diff : UTXODiff}
  {db : PruningDatabase M}

section
variable (pm st points base diff db)

/-- An update from the UTXO set `base` has started, and may be done. -/
def Recovering : Prop :=
  db.points = points ∧
    (db.updatingPruningPointUTXOSet = true ∧ Midway base diff db.pruningPointUTXOSet ∧
        pm.consensus.KeepsDiffData points st db.stores.toConsensusStores ∨
      db.updatingPruningPointUTXOSet = false ∧ db.pruningPointUTXOSet = diff.applyTo base)

def stopOption (stop : UpdateCall × Nat) : Option (PruningDatabase M) :=
  some (pm.stopAfter db stop)

/-- Deleting the past blocks leaves what the diff is computed from: nothing is deleted at all, or
every block of the selected chain above the previous pruning point is kept or was pruned before, or
the node is archival. -/
def KeepsDiffBlocks : Prop :=
  ∃ current blocksToKeep, db.points.pruningPoint = .ok current ∧
    pm.calculateBlocksToKeep current = .ok blocksToKeep ∧
    ((∀ tip ∈ db.stores.tips, pm.isInPruningFutureOrInVirtualPast tip current = true) ∧
        pm.parentsOf current = [] ∨
      current ≠ pm.consensus.genesisHash ∧
        ∃ previous, Consensus.previousPruningPoint db.points = .ok previous ∧
          ∀ hash, hash ≠ previous →
          Relation.ReflTransGen pm.consensus.IsSelectedParent previous hash →
          Relation.ReflTransGen pm.consensus.IsSelectedParent hash current →
          pm.isArchivalNode = true ∨ hash ∈ blocksToKeep ∨
            db.stores.blockStatus.get hash = some .statusHeaderOnly)

/-- The process only stops between the deletion of blocks and the last write, which clears the flag,
if the data of the diff is not deleted. -/
def SafeStop (stop : UpdateCall × Nat) : Prop :=
  stop.2+1 = (pm.updatePruningPointIfRequired stop.1 db).1.length →
    stop.1.shouldDeferDeletion = false → pm.KeepsDiffBlocks db

end

omit [AddCommGroup M] in
/-- The commit of a deletion does not change what the diff is computed from. -/
lemma deletePastBlocks_keepsDiffData {stores : PrunableStores M} (hpn : db.points = points)
    (hp : points.pruningPoint = .ok current) (hb : pm.KeepsDiffBlocks db)
    (hk : pm.consensus.KeepsDiffData points st db.stores.toConsensusStores)
    (hd : pm.deletePastBlocks db.stores current = .ok stores) :
    pm.consensus.KeepsDiffData points st stores.toConsensusStores := by
  subst hpn
  obtain ⟨_,blocksToKeep,hp',hkp,hb⟩ := hb
  cases hp.symm.trans hp'
  obtain ⟨ht,hpar⟩ | ⟨hg,previous,hpr,hb⟩ := hb
  · -- the walk starts with an empty queue
    have hn : (db.stores.tips.filter fun tip =>
        !pm.isInPruningFutureOrInVirtualPast tip current) = [] :=
      filter_eq_nil_iff.2 fun tip htip => by simp [ht tip htip]
    rw [deletePastBlocks,hn,hpar,nil_append,filter_eq_self.2 ht,hkp] at hd
    cases hd
    exact hk
  · obtain ⟨_,hkp',hd⟩ := deletePastBlocks_prunes hd
    cases hkp.symm.trans hkp'
    refine .inr ⟨previous,current,hpr,hp,hg,fun hash hne hlow hhigh => ?_⟩
    have hs : stores.acceptanceData.get hash = db.stores.acceptanceData.get hash := by
      refine (hd.sameData hash fun hm => ?_).acceptanceData
      obtain ⟨-,hnk,ha,hh⟩ := hm
      obtain ha' | hk' | hh' := hb hash hne hlow hhigh
      · rw [ha] at ha'
        cases ha'
      · exact hnk hk'
      · exact hh hh'
    obtain heq | ⟨_,_,hpr'',hp'',-,hsm⟩ := hk
    · rw [hs,heq]
    · cases hpr.symm.trans hpr''
      cases hp.symm.trans hp''
      exact hs.trans (hsm hash hne hlow hhigh)

section
variable (h : pm.consensus.DiffTo st points current base diff)
include h

lemma validateAndDelete_eq (call : UpdateCall) (db : PruningDatabase M) :
    pm.validateAndDelete call { db with pruningPointUTXOSet := diff.applyTo base } current =
      if call.shouldDeferDeletion then .ok db.stores
      else pm.deletePastBlocks db.stores current := by
  rw [validateAndDelete]
  split
  · next hch =>
    obtain ⟨_,hdt,hc⟩ := h.commitment hch.2
    rw [validateUTXOSetFitsCommitment,Consensus.getBlockData_eq_ok.2 hdt,ok_bind,
      if_neg (not_not.2 hc)]
    rfl
  · rfl

/-- A call that finds what the diff is computed from completes. -/
lemma updatePruningPointIfRequired_eq
    (hp : db.points = points) (hf : db.updatingPruningPointUTXOSet = true)
    (hm : Midway base diff db.pruningPointUTXOSet)
    (hk : pm.consensus.KeepsDiffData points st db.stores.toConsensusStores) (call : UpdateCall) :
    ∃ stores, pm.updatePruningPointIfRequired call db =
        (updatePruningPointUTXOSet call.orders diff ++
          [.commitAllChanges stores,.finishUpdatingPruningPointUTXOSet], .ok ()) ∧
      (if call.shouldDeferDeletion then .ok db.stores
        else pm.deletePastBlocks db.stores current) = Except.ok stores := by
  subst hp
  obtain ⟨stores,hst⟩ : ∃ stores, (if call.shouldDeferDeletion then .ok db.stores
      else pm.deletePastBlocks db.stores current) = Except.ok stores := by
    split
    · exact ⟨_,rfl⟩
    · exact deletePastBlocks_ok _ _
  refine ⟨stores,?_,hst⟩
  rw [updatePruningPointIfRequired,if_pos hf,updatePruningPoint,h.pruningPoint,ok_bind,
    utxoSetDiff,h.diff_eq _ hk]
  dsimp only [ok_bind,pure,Except.pure]
  rw [foldl_updatePruningPointUTXOSet h.canApply hm,validateAndDelete_eq h,hst]

lemma Recovering.stopAfter (hdb : pm.Recovering st points base diff db) {stop : UpdateCall × Nat}
    (hsf : pm.SafeStop db stop) : pm.Recovering st points base diff (pm.stopAfter db stop) := by
  obtain ⟨hpn,⟨hfl,hmd,hk⟩ | ⟨hfl,hst⟩⟩ := hdb
  · obtain ⟨_,hu,hd⟩ := updatePruningPointIfRequired_eq h hpn hfl hmd hk stop.1
    rw [SafeStop,hu,length_append] at hsf
    rw [PruningManager.stopAfter,hu,take_append,foldl_append]
    cases hn : stop.2 - (updatePruningPointUTXOSet (M := M) stop.1.orders diff).length with
    | zero =>
      -- some of the UTXO set was written
      obtain ⟨s,hs,hmd⟩ := foldl_write_midway (fun w hw => WriteOf.of_mem (mem_of_mem_take hw)) hmd
      rw [hs]
      exact ⟨hpn,.inl ⟨hfl,hmd,hk⟩⟩
    | succ n =>
      rw [take_of_length_le (by omega),foldl_updatePruningPointUTXOSet h.canApply hmd]
      cases n with
      | zero =>
        -- the blocks are deleted, and the flag is still set
        obtain ⟨s,hs,hm'⟩ := foldl_write_midway
          (fun w (hw : w ∈ updatePruningPointUTXOSet stop.1.orders diff) => WriteOf.of_mem hw) hmd
        rw [foldl_updatePruningPointUTXOSet h.canApply hmd] at hs
        refine ⟨hpn,.inl ⟨hfl,congrArg PruningDatabase.pruningPointUTXOSet hs ▸ hm',?_⟩⟩
        split at hd
        · cases hd
          exact hk
        · next hdf =>
          have hl : stop.2+1 = (updatePruningPointUTXOSet (M := M) stop.1.orders diff).length +
              (0+1+1) := by omega
          exact deletePastBlocks_keepsDiffData hpn h.pruningPoint (hsf hl (by simpa using hdf)) hk
            hd
      | succ n =>
        rw [take_of_length_le (by simp)]
        exact ⟨hpn,.inr ⟨rfl,rfl⟩⟩
  · rw [PruningManager.stopAfter,updatePruningPointIfRequired,
      if_neg (by rw [hfl]; exact Bool.false_ne_true),take_nil]
    exact ⟨hpn,.inr ⟨hfl,hst⟩⟩

end

section
open Consensus

def fourBlocks : DomainHash → Option BlockData :=
  fun hash => if hash = 3 then some (chainBlockData 2 3 0 []) else chainBlocks 0 [] hash

def insertThreeBlocks : List Action :=
  [.insertBlock 1 true false (virtualOn 1),.insertBlock 2 true false (virtualOn 2),
    .insertBlock 3 true false (virtualOn 3)]

/-- A window has one block. -/
def twoBlocksTopology : Topology where
  dag := [(2, [1]),(1, [0]),(0, [])]
  wf := by
    refine .cons ?_ ?_ (.cons ?_ ?_ (.cons ?_ ?_ .nil)) <;> simp [Dag.nodes]
  virtualParents := [2]
  virtualParents_stored := by simp
  blockWindow block := [block - 1]

def threeBlocksTopology : Topology where
  dag := (3, [2]) :: twoBlocksTopology.dag
  wf := by
    refine .cons ?_ ?_ twoBlocksTopology.wf <;> simp [twoBlocksTopology,Dag.nodes]
  virtualParents := [3]
  virtualParents_stored := by simp
  blockWindow := twoBlocksTopology.blockWindow

def samplePruningManager (t : Topology) (blockData : DomainHash → Option BlockData) :
    PruningManager Int where
  toTopology := t
  consensus := sampleConsensus blockData
  isArchivalNode := false
  shouldSanityCheckPruningUTXOSet := false

def pointsFromGenesis (current : DomainHash) : PruningStore :=
  ⟨((∅ : FinMap UInt64 DomainHash).insert 0 0).insert 1 current,some 1⟩

/-- The pruning point has just moved from genesis. -/
def movedFromGenesis (stores : ConsensusStores Int) (current : DomainHash) :
    PruningDatabase Int where
  stores :=
    { stores with
      blocks := (∅ : FinMap DomainHash DomainBlock).insert 0 sampleGenesisData.block
      daaAddedBlocks := (∅ : FinMap DomainHash (List DomainHash)).insert 0 [] }
  points := pointsFromGenesis current
  updatingPruningPointUTXOSet := true
  pruningPointUTXOSet := ∅

/-- The blocks are deleted at once. -/
noncomputable def deletingCall : UpdateCall :=
  ⟨someIteration,false⟩

/-- Both blocks above genesis are kept. -/
lemma keepsDiffBlocks_of_two {db : PruningDatabase Int} (hp : db.points = pointsFromGenesis 2) :
    (samplePruningManager twoBlocksTopology payingBlocks).KeepsDiffBlocks db := by
  refine ⟨2,_,by rw [hp]; rfl,rfl,.inr ⟨by decide,0,by rw [hp]; rfl,fun hash hne _ hhigh => ?_⟩⟩
  refine .inr (.inl ?_)
  -- the selected chain below block 2
  obtain rfl | ⟨_,hhigh,_,hd,hpar⟩ := Relation.ReflTransGen.cases_tail hhigh
  · decide
  · cases hd
    cases hpar
    obtain rfl | ⟨_,hhigh,_,hd,hpar⟩ := Relation.ReflTransGen.cases_tail hhigh
    · decide
    · cases hd
      cases hpar
      obtain rfl | ⟨_,_,_,hd,hpar⟩ := Relation.ReflTransGen.cases_tail hhigh
      · exact absurd rfl hne
      · cases hd
        cases hpar

/-- Without a change of the UTXO set, the first write is the commit of the deletion. -/
lemma stopAfter_one {pm : PruningManager Int} {db : PruningDatabase Int}
    {stores : PrunableStores Int} (hf : db.updatingPruningPointUTXOSet = true)
    (hp : db.points.pruningPoint = .ok current)
    (hdf : pm.utxoSetDiff db current = .ok UTXODiff.newUTXODiff)
    (hc : pm.shouldSanityCheckPruningUTXOSet = false)
    (hd : pm.deletePastBlocks db.stores current = .ok stores)
    (orders : (m : UtxoCollection) → m.Iteration) :
    pm.stopAfter db (⟨orders,false⟩, 1) = { db with stores := stores } := by
  have hwr : updatePruningPointUTXOSet orders UTXODiff.newUTXODiff =
      ([] : List (PruningWrite Int)) := by
    refine eq_nil_iff_forall_not_mem.2 fun _ hw => ?_
    cases WriteOf.of_mem hw with
    | deleteUTXO h => exact h rfl
    | putUTXO h => cases h
  have hst : pm.validateAndDelete ⟨orders,false⟩ db current = .ok stores := by
    rw [validateAndDelete,hc]
    exact hd
  rw [stopAfter,updatePruningPointIfRequired,if_pos hf,updatePruningPoint,hp,ok_bind,hdf]
  dsimp only [ok_bind,pure,Except.pure]
  rw [hwr,foldl_nil,hst]
  rfl

end
end PruningManager
end Eiyaro
