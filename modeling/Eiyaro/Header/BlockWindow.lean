import Eiyaro.Ghostdag.Shape
import Eiyaro.Header.Window

/-!
# The block window of a block

`BlockWindow` with the store of window heap slices. A window is computed from the window
of the selected parent if that is in the store, and by a walk down the selected parent
chain otherwise. Both ways give the blocks with the greatest blue work of the past. No
block has a trusted window here, and virtual, whose window is never stored, is left out.
-/

namespace Eiyaro
open List BlockStores Set

/-! ## Model -/

/-- A slice of the heap. Its capacity is the size of the window. -/
structure HeapSlice where
  nodes : List StoredBlock
  capacity : Nat

/-- The window heap slice store, by block and size of the window. -/
abbrev WindowHeapSliceStore := FinMap (DomainHash × Nat) HeapSlice

section
variable (cfg : GhostdagConfig) (stores : BlockStores) (slices : WindowHeapSliceStore)

/-- The window of a selected parent, extended by the merge set of its child. -/
def extendHeapSlice (slice : HeapSlice) (data : BlockGHOSTDAGData) (selectedParent : DomainHash) :
    Except Failure HeapSlice :=
  if selectedParent = cfg.genesisHash then
    .ok slice
  else do
    let selectedParent ← stores.block selectedParent
    let (nodes, _) ← tryPushMergeSet stores slice.capacity slice.nodes data selectedParent
    return { slice with nodes := nodes }

def calculateBlockWindowHeap (highHash : DomainHash) (windowSize : Nat) :
    Except Failure HeapSlice :=
  if highHash = cfg.genesisHash then
    .ok ⟨[],windowSize⟩
  else if windowSize = 0 then
    .ok ⟨[],windowSize⟩
  else do
    let block ← stores.block highHash
    let data := block.ghostdagData
    let cached := data.selectedParent.bind fun selectedParent =>
      (slices.get (selectedParent, windowSize)).map fun slice => (selectedParent, slice)
    match cached with
    | some (selectedParent, slice) => extendHeapSlice cfg stores slice data selectedParent
    | none =>
      let nodes ← walkWindow cfg stores windowSize stores data []
      return ⟨nodes,windowSize⟩

/-- The window, and the store with the window in it. -/
def blockWindowHeapSlice (highHash : DomainHash) (windowSize : Nat) :
    Except Failure (HeapSlice × WindowHeapSliceStore) :=
  match slices.get (highHash, windowSize) with
  | some slice => .ok (slice, slices)
  | none => do
    let slice ← calculateBlockWindowHeap cfg stores slices highHash windowSize
    return (slice, slices.insert (highHash, windowSize) slice)

end

structure WindowState where
  stores : BlockStores
  slices : WindowHeapSliceStore

inductive WindowAction
  | insertBlock (hash : DomainHash) (header : BlockHeader)
  /-- The node asks for windows of its blocks only. -/
  | blockWindow (hash : DomainHash) (windowSize : Nat)
  /-- The store is a cache that forgets slices at any time. -/
  | forget (forgotten : List (DomainHash × Nat))

def windowStep (cfg : GhostdagConfig) (state : WindowState) : WindowAction → WindowState
  | .insertBlock hash header =>
    { state with stores := processBlock cfg state.stores (hash, header) }
  | .blockWindow hash windowSize =>
    if hash ∈ state.stores.hashes ∧ hash ≠ virtualGenesisBlockHash then
      match blockWindowHeapSlice cfg state.stores state.slices hash windowSize with
      | .ok (_, slices) => { state with slices := slices }
      | .error _ => state
    else
      state
  | .forget forgotten => { state with slices := state.slices.filter fun key _ => key ∉ forgotten }

def runWindow (cfg : GhostdagConfig) (actions : List WindowAction) : WindowState :=
  actions.foldl (windowStep cfg) ⟨initStores cfg,∅⟩

/-! ## Pushing into the heap -/

variable {cfg : GhostdagConfig} {stores older : BlockStores} {hash p : DomainHash} {n : Nat}
  {b block selected : StoredBlock} {mergeSet heap : List StoredBlock} {s : Set StoredBlock}
  {slices : WindowHeapSliceStore} {slice : HeapSlice}

lemma tryPush_cases (hn : 0 < n) (h : Greatest StoredBlock.key n s heap) {node : StoredBlock}
    (hnd : ∀ y ∈ s, y.key ≠ node.key) :
    (∃ heap', tryPushWithGHOSTDAGData n heap node = (heap', true) ∧
      Greatest StoredBlock.key n (insert node s) heap') ∨
    (tryPushWithGHOSTDAGData n heap node = (heap, false) ∧ heap.length = n ∧
      ∀ y ∈ heap, node.key < y.key) := by
  cases heap with
  | nil => exact .inl ⟨[node],rfl,h.insert not_lessData_iff hn hnd⟩
  | cons least rest =>
    rw [tryPushWithGHOSTDAGData]
    by_cases hfl : (least :: rest).length = n
    · rw [if_pos hfl]
      by_cases hls : node.key < least.key
      · rw [if_pos ((lessData_iff node least).2 hls)]
        refine .inr ⟨rfl,hfl,?_⟩
        rw [forall_mem_cons]
        refine ⟨hls,fun y hy => hls.trans ?_⟩
        exact (pairwise_cons.1 h.sorted).1 y hy
      · rw [if_neg (mt (lessData_iff node least).1 hls)]
        exact .inl ⟨_,rfl,h.replace not_lessData_iff hfl hls hnd⟩
    · rw [if_neg hfl]
      exact .inl ⟨_,rfl,h.insert not_lessData_iff (lt_of_le_of_ne h.length_le hfl) hnd⟩

/-- Blocks that are pushed in descending order are all accounted for, although the first
one that is rejected ends the loop. -/
lemma pushUntilRejected_spec (hwf : stores.topology.WF) (hn : 0 < n) {blocks : List StoredBlock}
    (hm : ∀ b ∈ blocks, b ∈ stores) (hds : blocks.Pairwise fun a b => b.key < a.key)
    (hnew : ∀ b ∈ blocks, ∀ y ∈ s, y.key ≠ b.key) (h : Greatest StoredBlock.key n s heap) :
    ∃ heap', pushUntilRejected stores n (blocks.map StoredBlock.hash) heap = .ok heap' ∧
      Greatest StoredBlock.key n (s ∪ {b | b ∈ blocks}) heap' := by
  induction blocks generalizing s heap with
  | nil => exact ⟨heap,rfl,by simpa using h⟩
  | cons block blocks ih =>
    rw [forall_mem_cons] at hm hnew
    rw [pairwise_cons] at hds
    have hs : s ∪ {b | b ∈ block :: blocks} = insert block s ∪ {b | b ∈ blocks} := by
      ext b
      simp only [mem_union,mem_ofPred_eq,mem_cons,mem_insert_iff]
      tauto
    rw [map_cons,pushUntilRejected,block_of_mem hwf hm.1,ok_bind]
    obtain ⟨heap',hps,h'⟩ | ⟨hps,hf,hlt⟩ := tryPush_cases hn h hnew.1
    · rw [hps,hs]
      apply ih hm.2 hds.2 _ h'
      intro b hb y hy
      obtain rfl | hy := hy
      · exact (hds.1 b hb).ne'
      · exact hnew.2 b hb y hy
    · rw [hps]
      refine ⟨heap,rfl,h.union_of_lt hf ?_⟩
      intro y hy x hx
      obtain rfl | hy := mem_cons.1 hy
      · exact hlt x hx
      · exact (hds.1 y hy).trans (hlt x hx)

/-! ## The past of a block -/

/-- The past of a block without genesis. -/
def windowPast (cfg : GhostdagConfig) (stores : BlockStores) (hash : DomainHash) :
    Set StoredBlock :=
  {b | b ∈ stores ∧ stores.isAncestorOf b.hash hash ∧ b.hash ≠ hash ∧
    b.hash ≠ cfg.genesisHash ∧ b.hash ≠ virtualGenesisBlockHash}

/-- How the past of a block is made up of the past of its selected parent and its merge
set. -/
structure WindowStep (cfg : GhostdagConfig) (stores : BlockStores) (block selected : StoredBlock)
    (mergeSet : List StoredBlock) : Prop where
  selected_mem : selected ∈ stores
  selected_ne : selected.hash ≠ virtualGenesisBlockHash
  mergeSet_mem : ∀ b ∈ mergeSet, b ∈ stores
  ascending : mergeSet.Pairwise fun a b => a.key < b.key
  data : ∃ older, MergedData older selected mergeSet block.ghostdagData
  past_of_genesis : selected.hash = cfg.genesisHash → windowPast cfg stores block.hash = ∅
  past : selected.hash ≠ cfg.genesisHash → windowPast cfg stores block.hash =
    insert selected (windowPast cfg stores selected.hash ∪ {b | b ∈ mergeSet})
  below : ∀ b ∈ windowPast cfg stores block.hash, b ≠ selected → b.key < selected.key
  mergeSet_new : ∀ b ∈ mergeSet, b ≠ selected ∧ b ∉ windowPast cfg stores selected.hash

section
variable (hst : Shaped cfg stores)
include hst

lemma key_ne_of_ne {a : StoredBlock} (ha : a ∈ stores) (hb : b ∈ stores) (hne : a ≠ b)
    : a.key ≠ b.key := by
  intro heq
  have hh : a.hash = b.hash := congrArg (fun key => (ofLex key).2) heq
  exact hne (eq_of_hash_eq hst.wf ha hb hh)

lemma windowPast_genesis : windowPast cfg stores cfg.genesisHash = ∅ := by
  ext b
  simp only [windowPast,mem_ofPred_eq,mem_empty_iff_false,iff_false]
  rintro ⟨-,ha,hg,-,hv⟩
  obtain h | h := hst.eq_of_isAncestorOf_genesis ha
  · exact hg h
  · exact hv h

/-- The past of a block does not change when a block is added. -/
lemma windowPast_suffix (hs : older <:+ stores) (hhs : hash ∈ older.hashes) :
    windowPast cfg stores hash = windowPast cfg older hash := by
  ext b
  constructor
  · rintro ⟨hb,ha,hne⟩
    have hb' := hst.mem_older_of_isAncestorOf hs hb hhs ha
    rw [hst.isAncestorOf_suffix hs hhs] at ha
    exact ⟨hb',ha,hne⟩
  · rintro ⟨hb,ha,hne⟩
    rw [← hst.isAncestorOf_suffix hs hhs] at ha
    exact ⟨hs.subset hb,ha,hne⟩

lemma mem_windowPast_iff {newer : BlockStores} (heq : stores = newer ++ block :: older)
    (hs : Shape older block) : b ∈ windowPast cfg stores block.hash ↔
      b ∈ older ∧ (∃ p ∈ block.parents, older.isAncestorOf b.hash p) ∧
        b.hash ≠ cfg.genesisHash ∧ b.hash ≠ virtualGenesisBlockHash := by
  have hsuf : block :: older <:+ stores := ⟨newer,heq.symm⟩
  have ha : stores.isAncestorOf b.hash block.hash ↔
      b.hash = block.hash ∨ ∃ p ∈ block.parents, older.isAncestorOf b.hash p := by
    rw [hst.isAncestorOf_suffix hsuf mem_cons_self]
    exact Dag.anc_cons_self
  constructor
  · rintro ⟨hb,hb',hne,hrs⟩
    have hm := hst.mem_older_of_isAncestorOf hsuf hb mem_cons_self hb'
    have ho : b ∈ older := by
      obtain rfl | ho := mem_cons.1 hm
      · exact absurd rfl hne
      · exact ho
    exact ⟨ho,(ha.1 hb').resolve_left hne,hrs⟩
  · rintro ⟨hb,hp,hrs⟩
    refine ⟨hsuf.subset (mem_cons_of_mem _ hb),ha.2 (.inr hp),?_,hrs⟩
    intro hh
    exact hs.new (hh ▸ hash_mem hb)

end

section
variable (hol : Shaped cfg older) (hmr : Merge older block.parents selected mergeSet)
include hol hmr

lemma ascending_mergeSet (hnd : block.parents.Nodup) :
    mergeSet.Pairwise fun a b => a.key < b.key := by
  have hd : mergeSet.Nodup := (hmr.nodup hnd).of_map _
  apply (hmr.sorted.and hd).imp_of_mem
  rintro a b ha hb ⟨hle,hne⟩
  exact lt_of_le_of_ne hle (key_ne_of_ne hol (hmr.subset a ha) (hmr.subset b hb) hne)

/-- Genesis is below every block, so it is never merged with another parent. -/
lemma eq_genesis_of_selected (hsh : Shape older block)
    (hs : selected.hash = cfg.genesisHash) (hp : p ∈ block.parents) : p = cfg.genesisHash := by
  by_contra hne
  have hg := hol.isAncestorOf_genesis (hsh.parents.mem p hp) (hsh.parents.ne p hp)
  have hpr := hmr.selected_parent
  rw [hs] at hpr
  exact hsh.parents.antichain _ hpr p hp (Ne.symm hne) hg

/-- The merge set as blocks. -/
lemma mem_mergeSet_iff (hb : b ∈ older) :
    b ∈ mergeSet ↔ (∃ p ∈ block.parents, older.isAncestorOf b.hash p) ∧
      ¬older.isAncestorOf b.hash selected.hash := by
  rw [← hmr.mem_iff]
  constructor
  · exact fun h => mem_map_of_mem h
  · intro h
    obtain ⟨b',hb',hh⟩ := mem_map.1 h
    rwa [← eq_of_hash_eq hol.wf (hmr.subset b' hb') hb hh]

end

lemma exists_windowStep (hst : Shaped cfg stores)
    (hbl : block ∈ stores) (hv : block.hash ≠ virtualGenesisBlockHash)
    (hg : block.hash ≠ cfg.genesisHash) :
    ∃ selected mergeSet, WindowStep cfg stores block selected mergeSet := by
  obtain ⟨newer,older,heq,hsh,hol⟩ := hst.split hbl hv hg
  have hs : older <:+ stores := ⟨newer ++ [block],by simp [heq]⟩
  obtain ⟨selected,mergeSet,hmr,hd⟩ := hsh.merged
  have hps (b : StoredBlock) := mem_windowPast_iff (b := b) hst heq hsh
  have hsl := hmr.selected_mem_hashes
  refine ⟨selected,mergeSet,hs.subset hmr.selected_mem,hsh.parents.ne _ hmr.selected_parent,
    fun b hb => hs.subset (hmr.subset b hb),ascending_mergeSet hol hmr hsh.nodup,
    ⟨older,hd⟩,?_,?_,?_,?_⟩
  -- on top of genesis the window is empty
  · intro hsel
    rw [eq_empty_iff_forall_notMem]
    intro b hb
    obtain ⟨-,⟨p,hp,ha⟩,hbg,hbv⟩ := (hps b).1 hb
    rw [eq_genesis_of_selected hol hmr hsh hsel hp] at ha
    obtain h | h := hol.eq_of_isAncestorOf_genesis ha
    · exact hbg h
    · exact hbv h
  · intro hsel
    ext b
    rw [hps,windowPast_suffix hst hs hsl]
    constructor
    · rintro ⟨hb,hpr,hbg,hbv⟩
      by_cases ha : older.isAncestorOf b.hash selected.hash
      · by_cases hh : b.hash = selected.hash
        · exact .inl (eq_of_hash_eq hol.wf hb hmr.selected_mem hh)
        · exact .inr (.inl ⟨hb,ha,hh,hbg,hbv⟩)
      · exact .inr (.inr ((mem_mergeSet_iff hol hmr hb).2 ⟨hpr,ha⟩))
    · rintro (rfl | ⟨hb,ha,-,hr⟩ | hb)
      · exact ⟨hmr.selected_mem,⟨b.hash,hmr.selected_parent,Shaped.isAncestorOf_refl hsl⟩,hsel,
          hsh.parents.ne _ hmr.selected_parent⟩
      · exact ⟨hb,⟨selected.hash,hmr.selected_parent,ha⟩,hr⟩
      · have hm := hmr.subset b hb
        exact ⟨hm,((mem_mergeSet_iff hol hmr hm).1 hb).1,
          hmr.ne_of_mem hol hsh.parents (mem_map_of_mem hb)⟩
  · intro b hb hne
    obtain ⟨hb,⟨p,hp,ha⟩,hbg,hbv⟩ := (hps b).1 hb
    exact lt_of_le_of_ne (hmr.key_le hol hb hp ha hbg hbv)
      (key_ne_of_ne hol hb hmr.selected_mem hne)
  · intro b hb
    have hn := ((mem_mergeSet_iff hol hmr (hmr.subset b hb)).1 hb).2
    constructor
    · rintro rfl
      exact hn (Shaped.isAncestorOf_refl hsl)
    · rw [windowPast_suffix hst hs hsl]
      exact fun h => hn h.2.1

/-- The part of the past that is not in the past of the selected parent is what is pushed. -/
lemma WindowStep.past_union (hsp : WindowStep cfg stores block selected mergeSet)
    (hs : selected.hash ≠ cfg.genesisHash) : windowPast cfg stores block.hash =
      windowPast cfg stores selected.hash ∪ insert selected {b | b ∈ mergeSet} := by
  rw [hsp.past hs,union_insert]

lemma WindowStep.key_lt (hsp : WindowStep cfg stores block selected mergeSet)
    (hb : b ∈ windowPast cfg stores block.hash) {x : StoredBlock} (hlt : selected.key < x.key) :
    b.key < x.key := by
  by_cases hne : b = selected
  · exact hne ▸ hlt
  · exact (hsp.below b hb hne).trans hlt

/-! ## Pushing the merge sets -/

section
variable (hst : Shaped cfg stores) (hsp : WindowStep cfg stores block selected mergeSet)
include hst hsp

/-- The blues besides the selected parent and the reds, as blocks. -/
lemma WindowStep.colours :
    ∃ blues reds : List StoredBlock,
      block.ghostdagData.mergeSetBlues = selected.hash :: blues.map StoredBlock.hash ∧
      block.ghostdagData.mergeSetReds = reds.map StoredBlock.hash ∧
      blues.Sublist mergeSet ∧ reds.Sublist mergeSet ∧
      (∀ b, b ∈ mergeSet ↔ b ∈ blues ∨ b ∈ reds) ∧ ∀ b ∈ blues, b ∉ reds := by
  obtain ⟨_,hdt⟩ := hsp.data
  obtain ⟨blues,hbl,hbs⟩ := hdt.blues
  obtain ⟨reds,hr,hrs⟩ := hdt.reds
  have hpr : (blues.map StoredBlock.hash ++ reds.map StoredBlock.hash).Perm
      (mergeSet.map StoredBlock.hash) := by
    have hpr := hdt.perm
    rw [hbl,hr] at hpr
    exact perm_cons _ |>.1 hpr
  have hof {l : List StoredBlock} (hl : l.Sublist mergeSet) {b : StoredBlock} (hb : b ∈ mergeSet)
      (hh : b.hash ∈ l.map StoredBlock.hash) : b ∈ l := by
    obtain ⟨b',hb',heq⟩ := mem_map.1 hh
    rwa [← eq_of_hash_eq hst.wf (hsp.mergeSet_mem b' (hl.subset hb')) (hsp.mergeSet_mem b hb) heq]
  refine ⟨blues,reds,hbl,hr,hbs,hrs,?_,?_⟩
  · intro b
    constructor
    · intro hb
      have hm := hpr.mem_iff.2 (mem_map_of_mem hb)
      obtain hm | hm := mem_append.1 hm
      · exact .inl (hof hbs hb hm)
      · exact .inr (hof hrs hb hm)
    · rintro (hb | hb)
      · exact hbs.subset hb
      · exact hrs.subset hb
  · intro b hb hb'
    have hnd : (mergeSet.map StoredBlock.hash).Nodup := by
      rw [nodup_iff_pairwise_ne,pairwise_map]
      apply hsp.ascending.imp_of_mem
      intro a c ha hc
      exact hash_ne_of_key_lt hst.wf (hsp.mergeSet_mem a ha) (hsp.mergeSet_mem c hc)
    exact disjoint_of_nodup_append (hpr.nodup_iff.2 hnd) (mem_map_of_mem hb) (mem_map_of_mem hb')

/-- The whole merge set is accounted for, or nothing of it is great enough. -/
lemma WindowStep.tryPushMergeSet (hn : 0 < n)
    (h : Greatest StoredBlock.key n s heap) (hs : ∀ y ∈ s, y ∈ stores) (hsl : selected ∉ s)
    (hnw : ∀ b ∈ mergeSet, b ∉ s) :
    (∃ heap', Eiyaro.tryPushMergeSet stores n heap block.ghostdagData selected =
        .ok (heap', false) ∧
      Greatest StoredBlock.key n (s ∪ insert selected {b | b ∈ mergeSet}) heap') ∨
    (Eiyaro.tryPushMergeSet stores n heap block.ghostdagData selected = .ok (heap, true) ∧
      heap.length = n ∧ ∀ y ∈ heap, selected.key < y.key) := by
  obtain ⟨blues,reds,hblu,hre,hbs,hrs,hm,hd⟩ := hsp.colours hst
  have hk {b : StoredBlock} (hb : b ∈ stores) (hb' : b ∉ s) : ∀ y ∈ s, y.key ≠ b.key := by
    intro y hy
    apply key_ne_of_ne hst (hs y hy) hb
    rintro rfl
    exact hb' hy
  rw [Eiyaro.tryPushMergeSet]
  obtain ⟨_,hps,h₁⟩ | ⟨hps,hf,hlt⟩ :=
    tryPush_cases hn h (hk hsp.selected_mem hsl)
  · rw [hps]
    have hbf : ∀ b ∈ mergeSet, ∀ y ∈ insert selected s, y.key ≠ b.key := by
      rintro b hb y (rfl | hy)
      · exact key_ne_of_ne hst hsp.selected_mem (hsp.mergeSet_mem b hb)
          (hsp.mergeSet_new b hb).1.symm
      · exact hk (hsp.mergeSet_mem b hb) (hnw b hb) y hy
    -- blues and reds are pushed from the greatest on, so that the rest of them is too small
    obtain ⟨_,hp,h₂⟩ := pushUntilRejected_spec hst.wf hn
      (fun b hb => hsp.mergeSet_mem b ((hm b).2 (.inl (mem_reverse.1 hb))))
      (pairwise_reverse.2 (hsp.ascending.sublist hbs))
      (fun b hb => hbf b ((hm b).2 (.inl (mem_reverse.1 hb)))) h₁
    have hr : ∀ b ∈ reds.reverse, ∀ y ∈ insert selected s ∪ {b | b ∈ blues.reverse},
        y.key ≠ b.key := by
      intro b hb y hy
      have hrd := mem_reverse.1 hb
      have hb := (hm b).2 (.inr hrd)
      obtain hy | hy := hy
      · exact hbf b hb y hy
      · have hbl : y ∈ blues := mem_reverse.1 hy
        apply key_ne_of_ne hst (hsp.mergeSet_mem y ((hm y).2 (.inl hbl))) (hsp.mergeSet_mem b hb)
        rintro rfl
        exact hd y hbl hrd
    obtain ⟨heap₃,hpr,h₃⟩ := pushUntilRejected_spec hst.wf hn
      (fun b hb => hsp.mergeSet_mem b ((hm b).2 (.inr (mem_reverse.1 hb))))
      (pairwise_reverse.2 (hsp.ascending.sublist hrs)) hr h₂
    refine .inl ⟨heap₃,?_,h₃.congr ?_⟩
    · dsimp only
      rw [hblu,hre,tail_cons,← map_reverse,← map_reverse,hp,ok_bind,hpr]
      rfl
    · ext b
      simp only [mem_union,mem_insert_iff,mem_ofPred_eq,mem_reverse,hm b]
      tauto
  · rw [hps]
    exact .inr ⟨rfl,hf,hlt⟩

end

lemma walkWindow_genesis {current : BlockGHOSTDAGData}
    (h : current.selectedParent = some cfg.genesisHash) :
    walkWindow cfg stores n older current heap = .ok heap := by
  cases older with
  | nil => rw [walkWindow,if_pos h]
  | cons _ older => rw [walkWindow,if_pos h]

/-- The walk accounts for the whole past of the block where it starts. -/
lemma walkWindow_spec (hst : Shaped cfg stores) (hn : 0 < n)
    (hol : Shaped cfg older) (hsf : older <:+ stores) (hblk : block ∈ stores)
    (hvr : block.hash ≠ virtualGenesisBlockHash) (hg : block.hash ≠ cfg.genesisHash)
    (hse : ∀ hash, block.ghostdagData.selectedParent = some hash → hash ∈ older.hashes)
    (h : Greatest StoredBlock.key n s heap) (hs : ∀ y ∈ s, y ∈ stores)
    (hnew : ∀ b ∈ windowPast cfg stores block.hash, b ∉ s) :
    ∃ heap', walkWindow cfg stores n older block.ghostdagData heap = .ok heap' ∧
      Greatest StoredBlock.key n (s ∪ windowPast cfg stores block.hash) heap' := by
  induction hol generalizing block s heap with
  | init =>
    -- the selected parent can only be genesis
    obtain ⟨selected,mergeSet,hsp⟩ := exists_windowStep hst hblk hvr hg
    obtain ⟨_,hdt⟩ := hsp.data
    have hmem := hse _ hdt.selectedParent
    have hsl : selected.hash = cfg.genesisHash := by
      simpa [initStores,hashes,hsp.selected_ne] using hmem
    refine ⟨heap,walkWindow_genesis (by rw [hdt.selectedParent,hsl]),?_⟩
    rw [hsp.past_of_genesis hsl,union_empty]
    exact h
  | @cons older next hol hnt ih =>
    obtain ⟨selected,mergeSet,hsp⟩ := exists_windowStep hst hblk hvr hg
    obtain ⟨_,hdt⟩ := hsp.data
    have ho : older <:+ stores := (suffix_cons next older).trans hsf
    have hnx : next ∈ stores := hsf.subset mem_cons_self
    by_cases hsl : selected.hash = cfg.genesisHash
    · refine ⟨heap,walkWindow_genesis (by rw [hdt.selectedParent,hsl]),?_⟩
      rw [hsp.past_of_genesis hsl,union_empty]
      exact h
    · have hne : block.ghostdagData.selectedParent ≠ some cfg.genesisHash := by
        rw [hdt.selectedParent]
        simpa using hsl
      rw [walkWindow,if_neg hne]
      by_cases hfn : block.ghostdagData.selectedParent = some next.hash
      · rw [if_pos hfn]
        have hhs : selected.hash = next.hash := by
          rw [hdt.selectedParent] at hfn
          exact Option.some.inj hfn
        obtain rfl := eq_of_hash_eq hst.wf hsp.selected_mem hnx hhs
        have hps := hsp.past_union hsl
        have hsn : selected ∉ s := hnew selected (hps ▸ .inr (.inl rfl))
        have hm : ∀ b ∈ mergeSet, b ∉ s := fun b hb =>
          hnew b (hps ▸ .inr (.inr hb))
        obtain ⟨heap',hph,h'⟩ | ⟨hph,hf,hlt⟩ := hsp.tryPushMergeSet hst hn h hs hsn hm
        · rw [hph]
          have hs' : ∀ y ∈ s ∪ insert selected {b | b ∈ mergeSet}, y ∈ stores := by
            rintro y (hy | rfl | hy)
            · exact hs y hy
            · exact hnx
            · exact hsp.mergeSet_mem y hy
          have hn' : ∀ b ∈ windowPast cfg stores selected.hash,
              b ∉ s ∪ insert selected {b | b ∈ mergeSet} := by
            rintro b hb (hb' | rfl | hb')
            · exact hnew b (hps ▸ .inl hb) hb'
            · exact hb.2.2.1 rfl
            · exact (hsp.mergeSet_new b hb').2 hb
          obtain ⟨heap'',hw,h''⟩ := ih ho hsp.selected_mem hsp.selected_ne hsl
            (hnt.selectedParent_mem) h' hs' hn'
          refine ⟨heap'',hw,h''.congr ?_⟩
          rw [hps,union_assoc,union_comm (insert _ _)]
        · rw [hph]
          exact ⟨heap,rfl,h.union_of_lt hf fun y hy x hx => hsp.key_lt hy (hlt x hx)⟩
      · rw [if_neg hfn]
        apply ih ho hblk hvr hg _ h hs hnew
        intro hash hhs
        obtain rfl | hmem := mem_cons.1 (hse hash hhs)
        · exact absurd hhs hfn
        · exact hmem

/-! ## Windows with and without stored slices -/

/-- Every stored slice is the window of its block, with the size of the window as its
capacity. -/
def SlicesValid (cfg : GhostdagConfig) (stores : BlockStores) (slices : WindowHeapSliceStore) :
    Prop :=
  ∀ hash n slice, slices.get (hash, n) = some slice → hash ∈ stores.hashes ∧ slice.capacity = n ∧
    Greatest StoredBlock.key n (windowPast cfg stores hash) slice.nodes

/-- The window of the selected parent and the merge set make up the window. -/
lemma extendHeapSlice_spec (hst : Shaped cfg stores) (hn : 0 < n)
    (hsp : WindowStep cfg stores block selected mergeSet) (hc : slice.capacity = n)
    (h : Greatest StoredBlock.key n (windowPast cfg stores selected.hash) slice.nodes) :
    ∃ slice', extendHeapSlice cfg stores slice block.ghostdagData selected.hash = .ok slice' ∧
      slice'.capacity = n ∧
      Greatest StoredBlock.key n (windowPast cfg stores block.hash) slice'.nodes := by
  rw [extendHeapSlice]
  by_cases hsl : selected.hash = cfg.genesisHash
  · rw [if_pos hsl]
    refine ⟨slice,rfl,hc,?_⟩
    rw [hsl,windowPast_genesis hst] at h
    rwa [hsp.past_of_genesis hsl]
  · rw [if_neg hsl,block_of_mem hst.wf hsp.selected_mem,ok_bind,hc]
    have hset := hsp.past_union hsl
    obtain ⟨_,hps,h'⟩ | ⟨hps,hf,hlt⟩ :=
      hsp.tryPushMergeSet hst hn h (fun y hy => hy.1) (fun hs => hs.2.2.1 rfl)
        fun b hb => (hsp.mergeSet_new b hb).2
    · rw [hps]
      exact ⟨_,rfl,rfl,h'.congr hset.symm⟩
    · rw [hps]
      refine ⟨_,rfl,rfl,(h.union_of_lt hf ?_).congr hset.symm⟩
      exact fun y hy x hx => hsp.key_lt (hset ▸ .inr hy) (hlt x hx)

lemma calculateBlockWindowHeap_spec (hst : Shaped cfg stores)
    (hsc : SlicesValid cfg stores slices) (hhs : hash ∈ stores.hashes)
    (hv : hash ≠ virtualGenesisBlockHash) :
    ∃ slice, calculateBlockWindowHeap cfg stores slices hash n = .ok slice ∧ slice.capacity = n ∧
      Greatest StoredBlock.key n (windowPast cfg stores hash) slice.nodes := by
  rw [calculateBlockWindowHeap]
  by_cases hgen : hash = cfg.genesisHash
  · rw [if_pos hgen,hgen,windowPast_genesis hst]
    exact ⟨_,rfl,rfl,.empty⟩
  · rw [if_neg hgen]
    by_cases hn : n = 0
    · rw [hn]
      exact ⟨_,rfl,rfl,.zero⟩
    · have hp : 0 < n := Nat.pos_of_ne_zero hn
      obtain ⟨block,hb,rfl,hg⟩ := exists_block hst.wf hhs
      obtain ⟨_,_,hsp⟩ := exists_windowStep hst hb hv hgen
      obtain ⟨_,hd⟩ := hsp.data
      rw [if_neg hn,hg,ok_bind]
      dsimp only
      rw [hd.selectedParent,Option.bind_some]
      cases hs : slices.get _ with
      | some slice =>
        obtain ⟨-,hc,h⟩ := hsc _ _ _ hs
        exact extendHeapSlice_spec hst hp hsp hc h
      | none =>
        have hsl : ∀ hash, block.ghostdagData.selectedParent = some hash →
            hash ∈ stores.hashes := by
          intro hash hhs
          rw [hd.selectedParent] at hhs
          cases hhs
          exact hash_mem hsp.selected_mem
        obtain ⟨heap,hw,h⟩ := walkWindow_spec hst hp hst (suffix_refl stores)
          hb hv hgen hsl .empty (fun y hy => absurd hy (notMem_empty y))
          fun b _ => notMem_empty b
        refine ⟨⟨heap,n⟩,?_,rfl,h.congr (empty_union _)⟩
        rw [hw]
        rfl

lemma SlicesValid.insert (hsc : SlicesValid cfg stores slices)
    (hh : hash ∈ stores.hashes) (hc : slice.capacity = n)
    (h : Greatest StoredBlock.key n (windowPast cfg stores hash) slice.nodes) :
    SlicesValid cfg stores (slices.insert (hash, n) slice) := by
  intro hash' n' slice' hg
  rw [FinMap.get_insert] at hg
  split at hg
  · next heq =>
    cases heq
    cases hg
    exact ⟨hh,hc,h⟩
  · exact hsc hash' n' slice' hg

section
variable (hst : Shaped cfg stores) (hsc : SlicesValid cfg stores slices)
include hst hsc

lemma blockWindowHeapSlice_spec (hh : hash ∈ stores.hashes) (hv : hash ≠ virtualGenesisBlockHash) :
    ∃ slice slices', blockWindowHeapSlice cfg stores slices hash n = .ok (slice, slices') ∧
      slice.capacity = n ∧ SlicesValid cfg stores slices' ∧
      Greatest StoredBlock.key n (windowPast cfg stores hash) slice.nodes := by
  rw [blockWindowHeapSlice]
  cases hs : slices.get _ with
  | some slice =>
    obtain ⟨-,hcap,h⟩ := hsc _ _ _ hs
    exact ⟨slice,slices,rfl,hcap,hsc,h⟩
  | none =>
    obtain ⟨slice,hc,hcap,h⟩ :=
      calculateBlockWindowHeap_spec (n := n) hst hsc hh hv
    refine ⟨slice,_,?_,hcap,hsc.insert hh hcap h,h⟩
    rw [hc]
    rfl

/-- Windows stay what they are when a block is added. -/
lemma SlicesValid.processBlock (block : DomainHash × BlockHeader) :
    SlicesValid cfg (processBlock cfg stores block) slices := by
  rw [Eiyaro.processBlock]
  split
  · next stores' hi =>
    obtain ⟨hs,hsf⟩ := insertBlock_shaped hst hi
    intro hash n slice hg
    obtain ⟨hh,hc,h⟩ := hsc hash n slice hg
    refine ⟨?_,hc,h.congr (windowPast_suffix hs hsf hh).symm⟩
    obtain ⟨_,hb,rfl⟩ := mem_hashes.1 hh
    exact hash_mem (hsf.subset hb)
  · exact hsc

end

/-! ## Runs -/

/-- The invariant of a run. -/
structure WindowValid (cfg : GhostdagConfig) (state : WindowState) : Prop where
  shaped : Shaped cfg state.stores
  slices : SlicesValid cfg state.stores state.slices

lemma WindowValid.step {state : WindowState} (hs : WindowValid cfg state) (action : WindowAction) :
    WindowValid cfg (windowStep cfg state action) := by
  cases action with
  | insertBlock hash header =>
    exact ⟨processBlock_shaped hs.shaped _,hs.slices.processBlock hs.shaped (hash, header)⟩
  | blockWindow hash n =>
    rw [windowStep]
    split
    · next hh =>
      obtain ⟨slice,_,hw,-,hs',-⟩ :=
        blockWindowHeapSlice_spec (n := n) hs.shaped hs.slices hh.1 hh.2
      rw [hw]
      exact ⟨hs.shaped,hs'⟩
    · exact hs
  | forget _ =>
    refine ⟨hs.shaped,?_⟩
    intro hash n slice hg
    have hg' : state.slices.get (hash, n) = some slice := by
      exact (Option.filter_eq_some_iff.1 hg).1
    exact hs.slices hash n slice hg'

lemma runWindow_valid (cfg : GhostdagConfig) (actions : List WindowAction) :
    WindowValid cfg (runWindow cfg actions) := by
  have hi : WindowValid cfg ⟨initStores cfg,∅⟩ := by
    refine ⟨.init,?_⟩
    intro _ _ _ hg
    cases hg
  refine foldlRecOn actions _ hi ?_
  intro _ hs action _
  exact hs.step action

/-- In every run, the window of every block is the list of the blocks of its past without
genesis that have the greatest blue work. It does not depend on the slices in the store. -/
theorem runWindow_blockWindow (cfg : GhostdagConfig) (actions : List WindowAction)
    {block : StoredBlock} (hblock : block ∈ (runWindow cfg actions).stores)
    (hvirtual : block.hash ≠ virtualGenesisBlockHash) (windowSize : Nat) :
    ∃ slice slices scratch,
      blockWindowHeapSlice cfg (runWindow cfg actions).stores (runWindow cfg actions).slices
        block.hash windowSize = .ok (slice, slices) ∧
      blockWindowHeapSlice cfg (runWindow cfg actions).stores ∅ block.hash windowSize =
        .ok (slice, scratch) ∧
      Greatest StoredBlock.key windowSize
        (windowPast cfg (runWindow cfg actions).stores block.hash) slice.nodes := by
  obtain ⟨hst,hsc⟩ := runWindow_valid cfg actions
  have hh := hash_mem hblock
  have he : SlicesValid cfg (runWindow cfg actions).stores ∅ := by
    intro hash n slice hg
    cases hg
  obtain ⟨⟨nodes,_⟩,slices,hw,hc,-,h⟩ :=
    blockWindowHeapSlice_spec (n := windowSize) hst hsc hh hvirtual
  obtain ⟨⟨_,_⟩,scratch,hs,hc',-,h'⟩ :=
    blockWindowHeapSlice_spec (n := windowSize) hst he hh hvirtual
  -- both are sorted lists of the same greatest blocks
  obtain rfl := h.unique h'
  obtain rfl := hc.trans hc'.symm
  exact ⟨_,slices,scratch,hw,hs,h⟩

/-- A chain of three blocks, with the window of the second one in the store. -/
def chainWindow : List WindowAction :=
  [.insertBlock 1 (headerOn [0]),.insertBlock 2 (headerOn [1]),.blockWindow 2 1,
    .insertBlock 3 (headerOn [2])]

theorem runWindow_blockWindow_of_chain :
    ∃ block ∈ (runWindow (configWithK 18) chainWindow).stores, block.hash = 3 ∧
      ∃ slice slices scratch,
        blockWindowHeapSlice (configWithK 18) (runWindow (configWithK 18) chainWindow).stores
          (runWindow (configWithK 18) chainWindow).slices block.hash 1 = .ok (slice, slices) ∧
        blockWindowHeapSlice (configWithK 18) (runWindow (configWithK 18) chainWindow).stores ∅
          block.hash 1 = .ok (slice, scratch) ∧
        Greatest StoredBlock.key 1 (windowPast (configWithK 18)
          (runWindow (configWithK 18) chainWindow).stores block.hash) slice.nodes := by
  obtain ⟨block,hb,hh⟩ :
      ∃ block ∈ (runWindow (configWithK 18) chainWindow).stores, block.hash = 3 := by
    decide
  refine ⟨block,hb,hh,?_⟩
  exact runWindow_blockWindow _ chainWindow hb (by rw [hh]; decide) 1

end Eiyaro
