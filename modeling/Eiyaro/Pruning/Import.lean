import Eiyaro.Pruning.Update

/-!
# Importing the UTXO set of the pruning point

A peer sends the UTXO set in chunks. Every pair is added to a multiset and put into a map. When the
multiset has the hash that the header commits to, the start of the import is marked. The virtual
UTXO set and the pruning point UTXO set are then written entry by entry, virtual is updated, and the
mark is deleted. A start with the mark does all of this again.
-/

namespace Eiyaro
open List FinMap

/-- What is kept of the chunks. -/
structure ImportedPruningPoint (M : Type) where
  multiset : Option M
  utxos : UtxoCollection

namespace Consensus
variable {M : Type} [AddCommGroup M] (cs : Consensus M)

/-! ## The chunks -/

def appendImportedPruningPointUTXOs (imported : ImportedPruningPoint M)
    (pairs : List (DomainOutpoint × UTXOEntry)) : ImportedPruningPoint M where
  multiset := some (pairs.foldl (fun multiset (outpoint, utxoEntry) =>
    multiset+cs.element outpoint utxoEntry) (imported.multiset.getD 0))
  utxos := imported.utxos.insertEntries pairs

/-- All chunks, after `ClearImportedPruningPointData`. -/
def receiveChunks (chunks : List (List (DomainOutpoint × UTXOEntry))) : ImportedPruningPoint M :=
  chunks.foldl cs.appendImportedPruningPointUTXOs ⟨none,∅⟩

/-- The stores that are committed with the start mark. -/
def importPruningPointUTXOSet (st : ConsensusStores M) (imported : ImportedPruningPoint M)
    (newPruningPoint : DomainHash) (virtualData : VirtualData) :
    Except Failure (ConsensusStores M) := do
  let importedMultiset ← fromStore imported.multiset
  let data ← cs.getBlockData newPruningPoint
  if data.block.header.utxoCommitment ≠ cs.multisetHash importedMultiset then
    .error (.ruleError .errBadPruningPointUTXOSet "the expected multiset hash of the pruning point")
  else do
    let transactions ← data.block.transactions.mapM fun tx =>
      match lookupInputs imported.utxos tx with
      | none => .error (.ruleError .errMissingTxOut "missing outpoints")
      | some tx => .ok tx
    transactions.tail.forM fun tx => do
      let _ ← cs.validateTransactionInContextAndPopulateFee tx newPruningPoint
        data.block.header.daaScore
    let st := { st with virtualGHOSTDAGData := virtualData.ghostdagData }
    return ((st.stageDiff newPruningPoint .newUTXODiff none).stageStatus newPruningPoint
      .statusUTXOValid).stageMultiset newPruningPoint importedMultiset

/-- The multiset has every pair that was received, and the map the last one for its outpoint. -/
lemma receiveChunks_eq (chunks : List (List (DomainOutpoint × UTXOEntry))) :
    (cs.receiveChunks chunks).multiset.getD 0 =
        (chunks.flatten.map fun p => cs.element p.1 p.2).sum ∧
      (cs.receiveChunks chunks).utxos = (∅ : UtxoCollection).insertEntries chunks.flatten := by
  induction chunks using reverseRecOn with
  | nil => exact ⟨rfl,rfl⟩
  | append_singleton chunks chunk ih =>
    have hc : ∀ m : M, chunk.foldl (fun multiset (o, e) => multiset+cs.element o e) m =
        m+(chunk.map fun p => cs.element p.1 p.2).sum := by
      intro m
      induction chunk generalizing m with
      | nil => exact (add_zero m).symm
      | cons p chunk ih => rw [foldl_cons,ih,map_cons,sum_cons,add_assoc]
    rw [receiveChunks,foldl_append,flatten_append,flatten_singleton,map_append,sum_append,← ih.1]
    refine ⟨hc _,?_⟩
    exact (congrArg (insertEntries · chunk) ih.2).trans foldl_append.symm

/-- The pairs are the entries of the set, each of them once. -/
def EntriesOf (pairs : List (DomainOutpoint × UTXOEntry)) (s : UtxoCollection) : Prop :=
  pairs.Nodup ∧ ∀ o e, (o, e) ∈ pairs ↔ s.get o = some e

/-- If the header commits to a UTXO set, and the multiset of that set does not collide with what
was received, then an accepted import stores that set. -/
theorem importPruningPointUTXOSet_stores {st st' : ConsensusStores M} {data : BlockData}
    {newPruningPoint : DomainHash} {virtualData : VirtualData} {s : UtxoCollection}
    (chunks : List (List (DomainOutpoint × UTXOEntry)))
    (hdata : cs.blockData newPruningPoint = some data)
    (hcommits : data.block.header.utxoCommitment = cs.multisetHash (cs.multisetOf s))
    (hinjective : cs.multisetHash (chunks.flatten.map fun p => cs.element p.1 p.2).sum =
      cs.multisetHash (cs.multisetOf s) → EntriesOf chunks.flatten s)
    (haccepted : cs.importPruningPointUTXOSet st (cs.receiveChunks chunks) newPruningPoint
      virtualData = .ok st') :
    (cs.receiveChunks chunks).utxos = s ∧ data.block.header.utxoCommitment =
      cs.multisetHash (cs.multisetOf (cs.receiveChunks chunks).utxos) := by
  obtain ⟨hm,hu⟩ := cs.receiveChunks_eq chunks
  obtain ⟨_,hg,h⟩ := bind_eq_ok haccepted
  rw [getBlockData_eq_ok.2 hdata] at h
  obtain ⟨hh,-⟩ := of_ite_error h
  rw [fromStore_eq_ok.1 hg] at hm
  obtain ⟨hnd,hmem⟩ := hinjective (hm ▸ (not_not.1 hh).symm.trans hcommits)
  -- no outpoint is received twice
  have hk : (chunks.flatten.map Prod.fst).Nodup := by
    refine hnd.map_on ?_
    rintro ⟨o,e⟩ he ⟨_,e'⟩ he' rfl
    exact congrArg _ (Option.some.inj (((hmem o e).1 he).symm.trans ((hmem o e').1 he')))
  have hs : (cs.receiveChunks chunks).utxos = s := by
    ext1 o
    refine Option.ext fun e => ?_
    rw [hu,← hmem]
    exact get_insertEntries_empty hk
  exact ⟨hs,hs.symm ▸ hcommits⟩

/-- Elements are counted, and the count is the hash. -/
def countingConsensus (utxoCommitment : DomainHash) : Consensus Int :=
  { sampleConsensus (chainBlocks utxoCommitment []) with
    multisetHash := fun m => Fin.ofNat _ m.toNat }

def sampleChunk : List (DomainOutpoint × UTXOEntry) :=
  [(⟨0,0⟩, ⟨5,⟨[],0⟩,false,1⟩)]

/-- Two chunks with three pairs. -/
def sampleChunks : List (List (DomainOutpoint × UTXOEntry)) :=
  [sampleChunk,[(⟨0,1⟩, ⟨6,⟨[],0⟩,false,1⟩),(⟨1,0⟩, ⟨5,⟨[],0⟩,false,1⟩)]]

theorem importPruningPointUTXOSet_stores_three : ∃ st',
    (countingConsensus 3).importPruningPointUTXOSet chainStores
        ((countingConsensus 3).receiveChunks sampleChunks) 1 (virtualOn 1) = .ok st' ∧
      ((countingConsensus 3).receiveChunks sampleChunks).utxos =
        (∅ : UtxoCollection).insertEntries sampleChunks.flatten ∧
      (countingConsensus 3).multisetHash ((countingConsensus 3).multisetOf
        ((countingConsensus 3).receiveChunks sampleChunks).utxos) = 3 := by
  obtain ⟨st',h⟩ : ∃ st', (countingConsensus 3).importPruningPointUTXOSet chainStores
    ((countingConsensus 3).receiveChunks sampleChunks) 1 (virtualOn 1) = .ok st' := ⟨_,rfl⟩
  have hs := (countingConsensus 3).importPruningPointUTXOSet_stores sampleChunks rfl
    (s := (∅ : UtxoCollection).insertEntries sampleChunks.flatten) (by decide)
    (fun _ => ⟨by decide,fun _ _ => (get_insertEntries_empty (by decide)).symm⟩) h
  exact ⟨st',h,hs.1,hs.2.symm⟩

/-- A pair that is sent twice counts twice, but is stored once. -/
theorem importPruningPointUTXOSet_accepts_twice : ∃ st',
    (countingConsensus 2).importPruningPointUTXOSet chainStores
        ((countingConsensus 2).receiveChunks [sampleChunk,sampleChunk]) 1 (virtualOn 1) = .ok st' ∧
      (countingConsensus 2).multisetHash ((countingConsensus 2).multisetOf
        ((countingConsensus 2).receiveChunks [sampleChunk,sampleChunk]).utxos) = 1 :=
  ⟨_,rfl,by decide⟩

end Consensus

/-! ## Stops during an import -/

/-- What an import reads and writes. -/
structure ImportDatabase (M : Type) where
  stores : ConsensusStores M
  points : PruningStore
  importingPruningPointUTXOSet : Bool
  importedPruningPointUTXOs : UtxoCollection
  pruningPointUTXOSet : UtxoCollection

/-- The process can stop between two writes. -/
abbrev ImportWrite (M : Type) := ImportDatabase M → ImportDatabase M

/-- All old keys are deleted before the new entries are put. -/
def replaceUTXOs (orders : (m : UtxoCollection) → m.Iteration) (old new : UtxoCollection) :
    List (UtxoCollection → UtxoCollection) :=
  (orders old).order.map (fun outpoint s => s.erase outpoint) ++
    (orders new).entries.map fun (outpoint, utxoEntry) s => s.insert outpoint utxoEntry

lemma foldl_replaceUTXOs (orders : (m : UtxoCollection) → m.Iteration) (old new : UtxoCollection) :
    (replaceUTXOs orders old new).foldl (fun s w => w s) old = new := by
  rw [replaceUTXOs,foldl_append,foldl_map,foldl_map]
  refine (insertEntries_entries _ _).trans ?_
  ext1 o
  rw [get_insertAll]
  cases hn : new.get o with
  | some _ => rfl
  | none =>
    refine (congrArg (get · o) (eraseKeys_order old (orders old))).trans ?_
    rw [get_eraseAll]
    cases ho : old.get o <;> rfl

namespace ImportDatabase
open Consensus
variable {M : Type} (orders : (m : UtxoCollection) → m.Iteration) (db : ImportDatabase M)

def withSets (virtualUTXOSet pruningPointUTXOSet : UtxoCollection) : ImportDatabase M :=
  { db with
    stores := { db.stores with utxoSet := virtualUTXOSet }
    pruningPointUTXOSet := pruningPointUTXOSet }

def write (writes : List (ImportWrite M)) : ImportDatabase M :=
  writes.foldl (fun db w => w db) db

def writeVirtual (w : UtxoCollection → UtxoCollection) : ImportWrite M :=
  fun db => db.withSets (w db.stores.utxoSet) db.pruningPointUTXOSet

def writePruningPoint (w : UtxoCollection → UtxoCollection) : ImportWrite M :=
  fun db => db.withSets db.stores.utxoSet (w db.pruningPointUTXOSet)

lemma write_append (l l' : List (ImportWrite M)) : db.write (l ++ l') = (db.write l).write l' :=
  foldl_append

/-- `ImportPruningPointUTXOSetIntoVirtualUTXOSet` and `CommitImportedPruningPointUTXOSet`. -/
def importSets : List (ImportWrite M) :=
  (replaceUTXOs orders db.stores.utxoSet db.importedPruningPointUTXOs).map writeVirtual ++
    (replaceUTXOs orders db.pruningPointUTXOSet db.importedPruningPointUTXOs).map writePruningPoint

variable [AddCommGroup M] (cs : Consensus M) (virtualData : DomainHash → VirtualData)

/-- `updateVirtual`, the commit of what it staged, and `FinishImportingPruningPointUTXOSet`. -/
def updateVirtualAndFinish (pruningPoint : DomainHash) :
    List (ImportWrite M) × Except Failure Unit :=
  match cs.updateVirtualWithParents db.stores (virtualData pruningPoint) with
  | .error failure => ([], .error failure)
  | .ok stores => ([fun db => { db with stores := stores },
      fun db => { db with importingPruningPointUTXOSet := false }], .ok ())

/-- The writes in their order, and the outcome. -/
def importVirtualUTXOSetAndPruningPointUTXOSet (pruningPoint : DomainHash) :
    List (ImportWrite M) × Except Failure Unit :=
  if db.importingPruningPointUTXOSet then
    let writes := db.importSets orders
    let rest := (db.write writes).updateVirtualAndFinish cs virtualData pruningPoint
    (writes ++ rest.1, rest.2)
  else
    ([], .error (.error ("cannot import pruning point UTXO set without calling " ++
      "StartImportingPruningPointUTXOSet first")))

def recoverUTXOIfRequired : List (ImportWrite M) × Except Failure Unit :=
  if db.importingPruningPointUTXOSet then
    match db.points.pruningPoint with
    | .error failure => ([], .error failure)
    | .ok pruningPoint =>
      db.importVirtualUTXOSetAndPruningPointUTXOSet orders cs virtualData pruningPoint
  else
    ([], .ok ())

def stopAfter (n : Nat) : ImportDatabase M :=
  db.write ((db.recoverUTXOIfRequired orders cs virtualData).1.take n)

/-- What a call leaves in the database, and its outcome. -/
def after (call : List (ImportWrite M) × Except Failure Unit) :
    ImportDatabase M × Except Failure Unit :=
  (db.write call.1, call.2)

/-- The import, or a recovery, stopped before virtual was committed, and so did every one before. -/
inductive Interrupted : ImportDatabase M → Prop
  | start : Interrupted db
  | stop {db' : ImportDatabase M} {n : Nat} (h : Interrupted db')
      (hn : n ≤ (db'.importSets orders).length) :
      Interrupted (db'.stopAfter orders cs virtualData n)

variable {orders db cs virtualData} {db' : ImportDatabase M} {pruningPoint : DomainHash}

omit [AddCommGroup M] in
lemma write_sets (l l' : List (UtxoCollection → UtxoCollection)) :
    db.write (l.map writeVirtual ++ l'.map writePruningPoint) = db.withSets
      (l.foldl (fun s w => w s) db.stores.utxoSet)
      (l'.foldl (fun s w => w s) db.pruningPointUTXOSet) := by
  induction l generalizing db with
  | nil =>
    induction l' generalizing db with
    | nil => rfl
    | cons w l' ih => exact ih
  | cons w l ih => exact ih

omit [AddCommGroup M] in
lemma write_importSets : db.write (db.importSets orders) =
    db.withSets db.importedPruningPointUTXOs db.importedPruningPointUTXOs := by
  rw [importSets,write_sets,foldl_replaceUTXOs,foldl_replaceUTXOs]

variable (hst : db.importingPruningPointUTXOSet = true)
  (hpn : db.points.pruningPoint = .ok pruningPoint)
include hst

/-- Both sets are replaced before anything that was in them is read. -/
lemma after_import :
    db.after (db.importVirtualUTXOSetAndPruningPointUTXOSet orders cs virtualData pruningPoint) =
      let db := db.withSets db.importedPruningPointUTXOs db.importedPruningPointUTXOs
      db.after (db.updateVirtualAndFinish cs virtualData pruningPoint) := by
  rw [importVirtualUTXOSetAndPruningPointUTXOSet,if_pos hst,← write_importSets]
  exact congrArg (·, _) (write_append ..)

include hpn

lemma recoverUTXOIfRequired_eq :
    db.recoverUTXOIfRequired orders cs virtualData =
      db.importVirtualUTXOSetAndPruningPointUTXOSet orders cs virtualData pruningPoint := by
  rw [recoverUTXOIfRequired,if_pos hst,hpn]

lemma Interrupted.eq_withSets (h : db.Interrupted orders cs virtualData db') :
    ∃ s s', db' = db.withSets s s' := by
  induction h with
  | start => exact ⟨_,_,rfl⟩
  | @stop db' _ _ hn ih =>
    obtain ⟨s,s',rfl⟩ := ih
    have hs' : (db.withSets s s').importingPruningPointUTXOSet = true := hst
    rw [stopAfter,recoverUTXOIfRequired_eq hs' hpn,
      importVirtualUTXOSetAndPruningPointUTXOSet,if_pos hs',take_append_of_le_length hn,
      importSets,take_append,← map_take,← map_take,write_sets]
    exact ⟨_,_,rfl⟩

/-- However often an import stops before virtual is committed, the recovery leaves the database as
the import would have. -/
theorem recoverUTXOIfRequired_completes (h : db.Interrupted orders cs virtualData db') :
    db'.after (db'.recoverUTXOIfRequired orders cs virtualData) =
      db.after
        (db.importVirtualUTXOSetAndPruningPointUTXOSet orders cs virtualData pruningPoint) := by
  obtain ⟨s,s',rfl⟩ := Interrupted.eq_withSets hst hpn h
  have hs' : (db.withSets s s').importingPruningPointUTXOSet = true := hst
  rw [recoverUTXOIfRequired_eq hs' hpn,after_import hs',after_import hst]
  rfl

omit hst hpn

/-- The start was marked with the first block above genesis as the pruning point. -/
def startedImport : ImportDatabase Int where
  stores :=
    { ((chainStores.stageDiff 1 .newUTXODiff none).stageStatus 1 .statusUTXOValid).stageMultiset 1 0
      with virtualGHOSTDAGData := (virtualOn 1).ghostdagData }
  points := ⟨(∅ : FinMap UInt64 DomainHash).insert 0 1,some 0⟩
  importingPruningPointUTXOSet := true
  importedPruningPointUTXOs := ∅
  pruningPointUTXOSet := ∅

def payingConsensus : Consensus Int :=
  sampleConsensus (chainBlocks 0 [⟨5,⟨[],0⟩⟩])

/-- The start was marked with a set of one entry. -/
def startedImportOfOne : ImportDatabase Int :=
  { startedImport with
    importedPruningPointUTXOs := (∅ : UtxoCollection).insert ⟨7,1⟩ ⟨5,⟨[],0⟩,false,1⟩ }

/-- The process stops between the two sets. The pruning point is accepted on top of the entry
that was received. -/
theorem recoverUTXOIfRequired_completes_between : ∃ orders, ∃ db : ImportDatabase Int,
    db = startedImportOfOne.stopAfter orders payingConsensus virtualOn 1 ∧
    db.stores.utxoSet.get ⟨7,1⟩ ≠ none ∧ db.pruningPointUTXOSet.get ⟨7,1⟩ = none ∧
    db.after (db.recoverUTXOIfRequired orders payingConsensus virtualOn) =
      startedImportOfOne.after (startedImportOfOne.importVirtualUTXOSetAndPruningPointUTXOSet
        orders payingConsensus virtualOn 1) ∧
    (db.after (db.recoverUTXOIfRequired orders payingConsensus virtualOn)).2 = .ok () ∧
    (db.after (db.recoverUTXOIfRequired orders payingConsensus virtualOn)).1.stores.utxoSet.get
      ⟨0,0⟩ ≠ none := by
  -- both old sets are empty, so there is one write for each of the sets
  have hw : startedImportOfOne.importSets someIteration =
      [writeVirtual (FinMap.insert · ⟨7,1⟩ ⟨5,⟨[],0⟩,false,1⟩),
        writePruningPoint (FinMap.insert · ⟨7,1⟩ ⟨5,⟨[],0⟩,false,1⟩)] := by
    have hn : replaceUTXOs someIteration ∅ startedImportOfOne.importedPruningPointUTXOs =
        [(FinMap.insert · ⟨7,1⟩ ⟨5,⟨[],0⟩,false,1⟩)] := by
      rw [replaceUTXOs,Iteration.entries_of_keys_eq (k := ⟨7,1⟩) _ (by decide) rfl,
        show (someIteration (∅ : UtxoCollection)).order = [] from Finset.toList_empty]
      rfl
    exact congrArg₂ _ (congrArg (map writeVirtual) hn) (congrArg (map writePruningPoint) hn)
  have hs : startedImportOfOne.stopAfter someIteration payingConsensus virtualOn 1 =
      startedImportOfOne.withSets startedImportOfOne.importedPruningPointUTXOs ∅ := by
    rw [stopAfter,recoverUTXOIfRequired_eq rfl rfl,importVirtualUTXOSetAndPruningPointUTXOSet,
      if_pos (by rfl),hw]
    rfl
  have hi : startedImportOfOne.Interrupted someIteration payingConsensus virtualOn _ :=
    .stop .start (n := 1) (by rw [hw]; decide)
  have hr := recoverUTXOIfRequired_completes rfl rfl hi
  refine ⟨someIteration,_,rfl,?_,?_,hr,?_,?_⟩
  · rw [hs]
    decide
  · rw [hs]
    rfl
  · rw [hr,after_import rfl]
    rfl
  · rw [hr,after_import rfl]
    decide

/-- After the commit of virtual, the diff of the pruning point takes back the outputs that the
recovery creates once more. -/
theorem recoverUTXOIfRequired_loses : ∃ orders n, ∃ db : ImportDatabase Int,
    payingConsensus.importPruningPointUTXOSet chainStores (payingConsensus.receiveChunks [[]]) 1
      (virtualOn 1) = .ok startedImport.stores ∧
    db = startedImport.stopAfter orders payingConsensus virtualOn n ∧
    (startedImport.after (startedImport.importVirtualUTXOSetAndPruningPointUTXOSet orders
      payingConsensus virtualOn 1)).1.stores.utxoSet.get ⟨0,0⟩ ≠ none ∧
    (db.after (db.recoverUTXOIfRequired orders payingConsensus virtualOn)).1.stores.utxoSet.get
      ⟨0,0⟩ = none := by
  refine ⟨someIteration,(startedImport.importSets someIteration).length+1,_,rfl,rfl,?_,?_⟩
  · rw [after_import rfl]
    decide
  · have hs : startedImport.stopAfter someIteration payingConsensus virtualOn
        ((startedImport.importSets someIteration).length+1) =
          startedImport.write
            ((startedImport.updateVirtualAndFinish payingConsensus virtualOn 1).1.take 1) := by
      rw [stopAfter,recoverUTXOIfRequired_eq rfl rfl,importVirtualUTXOSetAndPruningPointUTXOSet,
        if_pos (by rfl),take_length_add_append,write_append,write_importSets]
      rfl
    rw [hs,recoverUTXOIfRequired_eq rfl rfl,after_import rfl]
    decide

end ImportDatabase
end Eiyaro
