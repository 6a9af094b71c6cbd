import Eiyaro.Ghostdag.MergeSet

/-!
# The shape of the stored data

What the GHOSTDAG data of a block looks like whatever `k` is: the blues and the reds
are the merge set, both in the order of blue work, and the blue work grows from the
parents to the block.
-/

namespace Eiyaro
open List BlockStores
variable {cfg : GhostdagConfig} {older stores stores' : BlockStores} {x y hash : DomainHash}
  {block selected a b : StoredBlock} {mergeSet : List StoredBlock} {parents blues : List DomainHash}
  {data data' : BlockGHOSTDAGData} {header : BlockHeader}

lemma BlockStores.isAncestorOf_of_parent {p : DomainHash} (hp : p ∈ block.parents)
    (h : stores.isAncestorOf x p) :
    isAncestorOf (block :: stores) x block.hash :=
  Dag.anc_cons_self.2 (.inr ⟨p,hp,h⟩)

/-! ## The blue work of a block -/

lemma bluesWork_total (hwf : stores.topology.WF)
    (h : ∀ x ∈ blues, x ∈ stores.hashes) : ∃ work, bluesWork stores blues = .ok work := by
  induction blues with
  | nil => exact ⟨0,rfl⟩
  | cons _ blues ih =>
    rw [forall_mem_cons] at h
    obtain ⟨_,-,-,hb⟩ := exists_block hwf h.1
    obtain ⟨work,hw⟩ := ih h.2
    rw [bluesWork]
    split
    · exact ⟨work,hw⟩
    · rw [hb,hw]
      exact ⟨_,rfl⟩

lemma calcWork_le_bluesWork {work : Nat}
    (hbl : stores.block block.hash = .ok block) (hne : block.hash ≠ virtualGenesisBlockHash)
    (hm : block.hash ∈ blues) (h : bluesWork stores blues = .ok work) :
    calcWork block.bits ≤ work := by
  induction blues generalizing work with
  | nil => simp at hm
  | cons _ blues ih =>
    rw [bluesWork] at h
    split at h
    · next hb =>
      refine ih ((mem_cons.1 hm).resolve_left ?_) h
      rwa [hb]
    · obtain ⟨_,hf,_,hr,h⟩ := bind₂_eq_ok h
      cases h
      rcases mem_cons.1 hm with heq | hm
      · rw [← heq,hbl] at hf
        cases hf
        exact Nat.le_add_right _ _
      · exact (ih hm hr).trans (Nat.le_add_left _ _)

/-! ## The data of a new block -/

/-- What the checks that run before `GHOSTDAG` say on the parents of a block. -/
structure CheckedParents (stores : BlockStores) (parents : List DomainHash) : Prop where
  nonempty : parents ≠ []
  mem : ∀ p ∈ parents, p ∈ stores.hashes
  ne : ∀ p ∈ parents, p ≠ virtualGenesisBlockHash
  antichain : ∀ p ∈ parents, ∀ q ∈ parents, p ≠ q → ¬stores.isAncestorOf p q

/-- The data that the colouring loop starts with. -/
def initialData (selectedParent : DomainHash) : BlockGHOSTDAGData :=
  ⟨0,0,some selectedParent,[selectedParent],[],
    (∅ : FinMap DomainHash UInt8).insert selectedParent 0⟩

/-- The selected parent and the merge set of a new block. -/
structure Merge (stores : BlockStores) (parents : List DomainHash) (selected : StoredBlock)
    (mergeSet : List StoredBlock) : Prop where
  found : findSelectedParent stores none parents = .ok (some selected.hash)
  selected_mem : selected ∈ stores
  selected_parent : selected.hash ∈ parents
  maximal : ∀ block ∈ stores, block.hash ∈ parents → block.key ≤ selected.key
  merged : mergeSetWithoutSelectedParent stores selected.hash parents =
    .ok (mergeSet.map StoredBlock.hash)
  nodup : parents.Nodup → (mergeSet.map StoredBlock.hash).Nodup
  subset : ∀ block ∈ mergeSet, block ∈ stores
  sorted : mergeSet.Pairwise fun a b => a.key ≤ b.key
  mem_iff : ∀ x, x ∈ mergeSet.map StoredBlock.hash ↔
    (∃ p ∈ parents, stores.isAncestorOf x p) ∧ ¬stores.isAncestorOf x selected.hash

lemma CheckedParents.exists_merge (hwf : stores.topology.WF) (hpa : CheckedParents stores parents) :
    ∃ selected mergeSet, Merge stores parents selected mergeSet := by
  obtain ⟨selected,hsel,hfn,hpr,hmax⟩ :
      ∃ selected ∈ stores, findSelectedParent stores none parents = .ok (some selected.hash) ∧
        selected.hash ∈ parents ∧
        ∀ block ∈ stores, block.hash ∈ parents → block.key ≤ selected.key := by
    cases parents with
    | nil => exact absurd rfl hpa.nonempty
    | cons p _ =>
      have hmm := forall_mem_cons.1 hpa.mem
      obtain ⟨_,hf,rfl,-⟩ := exists_block hwf hmm.1
      obtain ⟨selected,hsel,hfn,hor,_,hmax⟩ := findSelectedParent_some hwf hmm.2 hf
      refine ⟨selected,hsel,hfn,?_,fun block hb hp => ?_⟩
      · rcases hor with rfl | hr
        · exact mem_cons_self
        · exact mem_cons_of_mem _ hr
      · rcases mem_cons.1 hp with heq | hp
        · rwa [eq_of_hash_eq hwf hb hf heq]
        · exact hmax block hb hp
  obtain ⟨mergeSet,hm,hnd,hsb,hs,hi⟩ :=
    mergeSetWithoutSelectedParent_spec hwf hpa.mem
      fun p hp hne => hpa.antichain p hp selected.hash hpr hne
  exact ⟨selected,mergeSet,hfn,hsel,hpr,hmax,hm,hnd,hsb,hs,hi⟩

/-- `GHOSTDAG` once the selected parent and the merge set are known. -/
lemma Merge.ghostdag_eq (hwf : stores.topology.WF) (hmr : Merge stores parents selected mergeSet) :
    ghostdag cfg stores parents = do
      let data ← (mergeSet.map StoredBlock.hash).foldlM (colour cfg stores)
        (initialData selected.hash)
      let work ← bluesWork stores data.mergeSetBlues
      return { data with
        blueScore := selected.ghostdagData.blueScore+UInt64.ofNat data.mergeSetBlues.length
        blueWork := selected.ghostdagData.blueWork+work } := by
  rw [ghostdag,hmr.found,ok_bind]
  dsimp only
  rw [hmr.merged,block_of_mem hwf hmr.selected_mem]
  rfl

lemma Merge.selected_mem_hashes (hmr : Merge stores parents selected mergeSet) :
    selected.hash ∈ stores.hashes :=
  hash_mem hmr.selected_mem

lemma Merge.mem_hashes (hmr : Merge stores parents selected mergeSet)
    (hx : x ∈ mergeSet.map StoredBlock.hash) : x ∈ stores.hashes := by
  obtain ⟨block,hb,rfl⟩ := mem_map.1 hx
  exact hash_mem (hmr.subset block hb)

/-! ## The colouring loop splits the merge set -/

/-- The data with one more blue. -/
def BlockGHOSTDAGData.addBlue (data : BlockGHOSTDAGData) (blue : DomainHash)
    (check : CandidateCheck) : BlockGHOSTDAGData :=
  { data with
    mergeSetBlues := data.mergeSetBlues ++ [blue]
    bluesAnticoneSizes := (data.bluesAnticoneSizes.insert blue
      check.candidateAnticoneSize).insertAll (check.candidateBluesAnticoneSizes.mapValues (· + 1)) }

def BlockGHOSTDAGData.addRed (data : BlockGHOSTDAGData) (red : DomainHash) : BlockGHOSTDAGData :=
  { data with mergeSetReds := data.mergeSetReds ++ [red] }

/-- The data after a loop over `candidates`, as far as it does not depend on the
colours. -/
structure SplitOf (candidates : List DomainHash) (data data' : BlockGHOSTDAGData) : Prop where
  selectedParent : data'.selectedParent = data.selectedParent
  split : ∃ blues reds, data'.mergeSetBlues = data.mergeSetBlues ++ blues ∧
    data'.mergeSetReds = data.mergeSetReds ++ reds ∧ blues.Sublist candidates ∧
    reds.Sublist candidates ∧ (blues ++ reds).Perm candidates

lemma colour_cases {candidate : DomainHash} (h : colour cfg stores data candidate = .ok data') :
    (∃ check, data' = data.addBlue candidate check) ∨ data' = data.addRed candidate := by
  obtain ⟨result,_,h⟩ := bind_eq_ok h
  cases result with
  | none =>
    cases h
    exact .inr rfl
  | some check =>
    cases h
    exact .inl ⟨check,rfl⟩

lemma SplitOf.foldlM_colour {candidates : List DomainHash}
    (h : candidates.foldlM (colour cfg stores) data = .ok data') :
    SplitOf candidates data data' := by
  refine foldlM_rec h ?_ fun candidate candidates data _ hn _ ih => ?_
  · exact ⟨rfl,[],[],by simp,by simp,.slnil,.slnil,.refl _⟩
  · obtain ⟨hs,blues,reds,hbl,hrd,hb,hr,hp⟩ := ih
    obtain ⟨_,rfl⟩ | rfl := colour_cases hn
    · refine ⟨hs,candidate :: blues,reds,?_,hrd,hb.cons_cons _,hr.cons _,?_⟩
      · simpa [BlockGHOSTDAGData.addBlue] using hbl
      · exact hp.cons candidate
    · refine ⟨hs,blues,candidate :: reds,hbl,?_,hb.cons _,hr.cons_cons _,?_⟩
      · simpa [BlockGHOSTDAGData.addRed] using hrd
      · exact perm_middle.trans (hp.cons candidate)

/-! ## Shapes -/

/-- The data of a block with the given merge. The selected parent is the first blue. -/
structure MergedData (stores : BlockStores) (selected : StoredBlock)
    (mergeSet : List StoredBlock) (data : BlockGHOSTDAGData) : Prop where
  selectedParent : data.selectedParent = some selected.hash
  blues : ∃ blues : List StoredBlock, data.mergeSetBlues =
    selected.hash :: blues.map StoredBlock.hash ∧ blues.Sublist mergeSet
  reds : ∃ reds : List StoredBlock, data.mergeSetReds = reds.map StoredBlock.hash ∧
    reds.Sublist mergeSet
  perm : (data.mergeSetBlues ++ data.mergeSetReds).Perm
    (selected.hash :: mergeSet.map StoredBlock.hash)
  work : ∃ work, bluesWork stores data.mergeSetBlues = .ok work ∧
    data.blueWork = selected.ghostdagData.blueWork+work

/-- What holds of a stored block, relative to the blocks stored before it. -/
structure Shape (older : BlockStores) (block : StoredBlock) : Prop where
  new : block.hash ∉ older.hashes
  parents : CheckedParents older block.parents
  nodup : block.parents.Nodup
  work_pos : 0 < calcWork block.bits
  merged : ∃ selected mergeSet, Merge older block.parents selected mergeSet ∧
    MergedData older selected mergeSet block.ghostdagData

lemma Shape.selectedParent_mem (hb : Shape older block) (hash : DomainHash)
    (hh : block.ghostdagData.selectedParent = some hash) : hash ∈ older.hashes := by
  obtain ⟨_,_,hmr,hd⟩ := hb.merged
  rw [hd.selectedParent] at hh
  cases hh
  exact hmr.selected_mem_hashes

lemma Shape.exists_selectedParent (hb : Shape older block) :
    ∃ sp ∈ block.parents, block.ghostdagData.selectedParent = some sp := by
  obtain ⟨selected,_,hmr,hd⟩ := hb.merged
  exact ⟨selected.hash,hmr.selected_parent,hd.selectedParent⟩

inductive Shaped (cfg : GhostdagConfig) : BlockStores → Prop
  | init : Shaped cfg (initStores cfg)
  | cons {older : BlockStores} {block : StoredBlock} (holder : Shaped cfg older)
      (hblock : Shape older block) : Shaped cfg (block :: older)

lemma Merge.mergedData (hwf : stores.topology.WF) (hmr : Merge stores parents selected mergeSet)
    (h : ghostdag cfg stores parents = .ok data) : MergedData stores selected mergeSet data := by
  rw [hmr.ghostdag_eq hwf] at h
  obtain ⟨_,hl,work,hw,h⟩ := bind₂_eq_ok h
  cases h
  obtain ⟨hs,_,_,hb,hrd,hbs,hr,hp⟩ := SplitOf.foldlM_colour hl
  obtain ⟨blues',hb',rfl⟩ := sublist_map_iff.1 hbs
  obtain ⟨reds',hr',rfl⟩ := sublist_map_iff.1 hr
  refine ⟨hs,⟨blues',hb,hb'⟩,⟨reds',hrd,hr'⟩,?_,work,hw,rfl⟩
  rw [hb,hrd]
  exact hp.cons selected.hash

section
variable (h : MergedData stores selected mergeSet data)
include h

lemma MergedData.mem_mergeSet_of_red (hx : x ∈ data.mergeSetReds)
    : x ∈ mergeSet.map StoredBlock.hash := by
  obtain ⟨reds,hr,hs⟩ := h.reds
  rw [hr] at hx
  exact (hs.map _).subset hx

lemma MergedData.selected_blue : selected.hash ∈ data.mergeSetBlues := by
  obtain ⟨blues,hb,-⟩ := h.blues
  rw [hb]
  exact mem_cons_self

/-- The selected parent counts for the work of the block. -/
lemma MergedData.add_le_blueWork (hwf : stores.topology.WF)
    (hmr : Merge stores parents selected mergeSet) (hne : selected.hash ≠ virtualGenesisBlockHash) :
    selected.ghostdagData.blueWork+calcWork selected.bits ≤ data.blueWork := by
  obtain ⟨work,hw,_⟩ := h.work
  have hle := calcWork_le_bluesWork (block_of_mem hwf hmr.selected_mem) hne h.selected_blue hw
  omega

end

lemma mem_initStores : block ∈ initStores cfg ↔
    block = ⟨cfg.genesisHash,[virtualGenesisBlockHash],cfg.genesisBits,
      ⟨0,0,some virtualGenesisBlockHash,[],[],∅⟩⟩ ∨
    block = ⟨virtualGenesisBlockHash,[],0,⟨0,0,none,[],[],∅⟩⟩ := by
  simp [initStores]

namespace Shaped

lemma wf (hst : Shaped cfg stores) : stores.topology.WF := by
  induction hst with
  | init =>
    refine .cons ?_ ?_ (.cons ?_ ?_ .nil)
    · simpa [Dag.nodes] using cfg.genesis_ne
    · simp [Dag.nodes]
    · simp [Dag.nodes]
    · simp
  | @cons _ _ _ hb ih =>
    refine .cons ?_ ?_ ih
    · rw [← topology,nodes_topology]
      exact hb.new
    · rw [← topology,nodes_topology]
      exact hb.parents.mem

lemma mem_of_isAncestorOf (hst : Shaped cfg stores)
    (h : stores.isAncestorOf x y) : x ∈ stores.hashes ∧ y ∈ stores.hashes :=
  BlockStores.mem_of_isAncestorOf hst.wf h

lemma isAncestorOf_refl (hx : x ∈ stores.hashes) : stores.isAncestorOf x x :=
  Dag.anc_refl (by rwa [nodes_topology])

section
variable (hst : Shaped cfg stores)
include hst

/-- Ancestry between older blocks does not depend on the newer ones. -/
lemma isAncestorOf_suffix (hs : older <:+ stores) (hy : y ∈ older.hashes) :
    stores.isAncestorOf x y = older.isAncestorOf x y := by
  obtain ⟨_,rfl⟩ := hs
  have hwf := hst.wf
  rw [topology,map_append] at hwf
  rw [Bool.eq_iff_iff,isAncestorOf,topology,map_append]
  apply hwf.anc_append
  rwa [← topology,nodes_topology]

omit hst in
lemma isAncestorOf_cons (hst : Shaped cfg (block :: stores)) (hy : y ∈ stores.hashes) :
    isAncestorOf (block :: stores) x y = stores.isAncestorOf x y :=
  hst.isAncestorOf_suffix (suffix_cons _ _) hy

lemma init_suffix : initStores cfg <:+ stores := by
  induction hst with
  | init => exact suffix_rfl
  | cons _ _ ih => exact ih.trans (suffix_cons _ _)

lemma genesis_mem : cfg.genesisHash ∈ stores.hashes :=
  mem_map_of_mem (hst.init_suffix.subset mem_cons_self)

lemma isAncestorOf_genesis (hx : x ∈ stores.hashes) (hne : x ≠ virtualGenesisBlockHash) :
    stores.isAncestorOf cfg.genesisHash x := by
  induction hst generalizing x with
  | init =>
    have hg : x = cfg.genesisHash := by simpa [initStores,hashes,hne] using hx
    subst hg
    exact Dag.anc_cons_self.2 (.inl rfl)
  | @cons _ _ ho hb ih =>
    obtain rfl | hx := mem_cons.1 hx
    · obtain ⟨_,_,hmr,-⟩ := hb.merged
      exact isAncestorOf_of_parent hmr.selected_parent
        (ih hmr.selected_mem_hashes (hb.parents.ne _ hmr.selected_parent))
    · rw [(Shaped.cons ho hb).isAncestorOf_cons hx]
      exact ih hx hne

lemma isAncestorOf_virtualGenesis (hx : x ∈ stores.hashes) (hne : x ≠ virtualGenesisBlockHash) :
    stores.isAncestorOf virtualGenesisBlockHash x := by
  refine hst.wf.anc_trans ?_ (hst.isAncestorOf_genesis hx hne)
  refine (hst.isAncestorOf_suffix hst.init_suffix Shaped.init.genesis_mem).trans ?_
  exact Dag.anc_cons_self.2 (.inr ⟨_,mem_singleton_self _,Dag.anc_cons_self.2 (.inl rfl)⟩)

/-- What is not in the past of some block besides virtual genesis is above genesis. -/
lemma ne_of_not_isAncestorOf (hy : y ∈ stores.hashes) (hne : y ≠ virtualGenesisBlockHash)
    (h : ¬stores.isAncestorOf x y) : x ≠ cfg.genesisHash ∧ x ≠ virtualGenesisBlockHash := by
  constructor
  · rintro rfl
    exact h (hst.isAncestorOf_genesis hy hne)
  · rintro rfl
    exact h (hst.isAncestorOf_virtualGenesis hy hne)

/-- Only virtual genesis is below genesis. -/
lemma eq_of_isAncestorOf_genesis (h : stores.isAncestorOf x cfg.genesisHash) :
    x = cfg.genesisHash ∨ x = virtualGenesisBlockHash := by
  rw [hst.isAncestorOf_suffix hst.init_suffix Shaped.init.genesis_mem] at h
  obtain h | ⟨p,hp,h⟩ := Dag.anc_cons_self.1 h
  · exact .inl h
  · rw [mem_singleton] at hp
    subst hp
    obtain h | ⟨p,hp,-⟩ := Dag.anc_cons_self.1 h
    · exact .inr h
    · cases hp

/-- The stores are a history: all of the past of a block is older than it. -/
lemma mem_older_of_isAncestorOf
    (hs : older <:+ stores) (ha : a ∈ stores) (hy : y ∈ older.hashes)
    (hanc : stores.isAncestorOf a.hash y) : a ∈ older := by
  rw [hst.isAncestorOf_suffix hs hy] at hanc
  have hwf : older.topology.WF := by
    obtain ⟨newer,rfl⟩ := hs
    have hwf := hst.wf
    clear hanc hy ha hst
    induction newer with
    | nil => exact hwf
    | cons _ newer ih => exact ih hwf.tail
  obtain ⟨_,hb,heq⟩ := BlockStores.mem_hashes.1 (BlockStores.mem_of_isAncestorOf hwf hanc).1
  rwa [← eq_of_hash_eq hst.wf (hs.subset hb) ha heq]

/-- A block besides genesis and virtual genesis, with the blocks that are older. -/
lemma init_or_split (hb : block ∈ stores) :
    block ∈ initStores cfg ∨ ∃ newer older : BlockStores, stores = newer ++ block :: older ∧
      Shape older block ∧ Shaped cfg older := by
  induction hst with
  | init => exact .inl hb
  | @cons older first ho hf ih =>
    obtain rfl | hb := mem_cons.1 hb
    · exact .inr ⟨[],older,rfl,hf,ho⟩
    · refine (ih hb).imp_right ?_
      rintro ⟨newer,older',rfl,hs,ho'⟩
      exact ⟨first :: newer,older',rfl,hs,ho'⟩

lemma split (hb : block ∈ stores)
    (hne : block.hash ≠ virtualGenesisBlockHash) (hg : block.hash ≠ cfg.genesisHash) :
    ∃ newer older : BlockStores, stores = newer ++ block :: older ∧ Shape older block ∧
      Shaped cfg older := by
  refine (hst.init_or_split hb).resolve_left fun hi => ?_
  obtain rfl | rfl := mem_initStores.1 hi
  · exact hg rfl
  · exact hne rfl

/-- A proper ancestor of a block has a child on the way to it. -/
lemma exists_child_of_isAncestorOf (h : stores.isAncestorOf x y) (hne : x ≠ y) :
    ∃ child ∈ stores, x ∈ child.parents ∧ stores.isAncestorOf child.hash y := by
  have hm := (hst.wf.mem_of_anc h).2
  have hp := (hst.wf.anc_iff hm).1 h
  obtain rfl | ⟨_,hl,hcy⟩ := hp.cases_head
  · exact absurd rfl hne
  · obtain ⟨child,hc,rfl,hx⟩ := link_iff.1 hl
    exact ⟨child,hc,hx,(hst.wf.anc_iff hm).2 hcy⟩

lemma exists_parent_of_isAncestorOf (hb : block ∈ stores) (h : stores.isAncestorOf x block.hash)
    (hne : x ≠ block.hash) : ∃ parent ∈ block.parents, stores.isAncestorOf x parent := by
  have hp := (hst.wf.anc_iff (hst.wf.mem_of_anc h).2).1 h
  obtain heq | ⟨parent,hxp,hl⟩ := hp.cases_tail
  · exact absurd heq.symm hne
  · refine ⟨parent,mem_parents_of_link hst.wf hb hl,?_⟩
    exact (hst.wf.anc_iff (hst.wf.mem_of_link hl).1).2 hxp

lemma work_pos (hb : block ∈ stores)
    (hne : block.hash ≠ virtualGenesisBlockHash) (hg : block.hash ≠ cfg.genesisHash) :
    0 < calcWork block.bits := by
  obtain ⟨_,_,rfl,hs,-⟩ := hst.split hb hne hg
  exact hs.work_pos

end
end Shaped

/-- The blue work of a block is greater than that of its parents. Genesis counts no work,
so its children may have no more than it. -/
lemma Shape.work_lt (hol : Shaped cfg older) (hb : Shape older block) {parent : StoredBlock}
    (hpr : parent ∈ older) (hp : parent.hash ∈ block.parents) (hg : parent.hash ≠ cfg.genesisHash) :
    parent.ghostdagData.blueWork < block.ghostdagData.blueWork := by
  obtain ⟨selected,_,hmr,hd⟩ := hb.merged
  have hne := hb.parents.ne _ hmr.selected_parent
  have hs : selected.hash ≠ cfg.genesisHash := by
    intro hsl
    have hpg := hol.isAncestorOf_genesis (hb.parents.mem _ hp) (hb.parents.ne _ hp)
    apply hb.parents.antichain _ hmr.selected_parent _ hp
    · rw [hsl]
      exact hg.symm
    · rwa [hsl]
  have hle := blueWork_le_of_key_le (hmr.maximal parent hpr hp)
  have hps := hol.work_pos hmr.selected_mem hne hs
  have hw := hd.add_le_blueWork hol.wf hmr hne
  omega

/-- Blue work grows along the DAG above genesis. -/
lemma Shaped.blueWork_lt (hst : Shaped cfg stores) (ha : a ∈ stores) (hb : b ∈ stores)
    (hanc : stores.isAncestorOf a.hash b.hash) (hne : a.hash ≠ b.hash)
    (hg : a.hash ≠ cfg.genesisHash) (hvr : a.hash ≠ virtualGenesisBlockHash) :
    a.ghostdagData.blueWork < b.ghostdagData.blueWork := by
  induction hst generalizing a b with
  | init =>
    obtain rfl | rfl := mem_initStores.1 ha
    · exact absurd rfl hg
    · exact absurd rfl hvr
  | @cons older block hol hblk ih =>
    have hst := Shaped.cons hol hblk
    have holder_of {c : StoredBlock} (hc : c ∈ block :: older) (hm : c.hash ∈ older.hashes) :
        c ∈ older := by
      obtain rfl | hc := mem_cons.1 hc
      · exact absurd hm hblk.new
      · exact hc
    by_cases hn : b.hash = block.hash
    · obtain rfl := eq_of_hash_eq hst.wf hb mem_cons_self hn
      obtain h | ⟨p,hp,hap⟩ := Dag.anc_cons_self.1 hanc
      · exact absurd h hne
      · have ha' := holder_of ha (hol.mem_of_isAncestorOf hap).1
        obtain ⟨parent,hpar,rfl⟩ := mem_hashes.1 (hblk.parents.mem p hp)
        have hpg : parent.hash ≠ cfg.genesisHash := by
          intro h
          rw [h] at hap
          exact hg (hol.wf.anc_antisymm hap
            (hol.isAncestorOf_genesis (hol.mem_of_isAncestorOf hap).1 hvr))
        have hlt := hblk.work_lt hol hpar hp hpg
        by_cases heq : a.hash = parent.hash
        · obtain rfl := eq_of_hash_eq hol.wf ha' hpar heq
          exact hlt
        · exact (ih ha' hpar hap heq hg hvr).trans hlt
    · have hb' : b ∈ older := (mem_cons.1 hb).resolve_left fun h => hn (h ▸ rfl)
      rw [hst.isAncestorOf_cons (hash_mem hb')] at hanc
      exact ih (holder_of ha (hol.mem_of_isAncestorOf hanc).1) hb' hanc hne hg hvr

/-- A block above genesis is not greater than what is above it. -/
lemma Shaped.key_le (hst : Shaped cfg stores) (ha : a ∈ stores) (hb : b ∈ stores)
    (han : stores.isAncestorOf a.hash b.hash) (hg : a.hash ≠ cfg.genesisHash)
    (hv : a.hash ≠ virtualGenesisBlockHash) : a.key ≤ b.key := by
  by_cases hne : a.hash = b.hash
  · rw [eq_of_hash_eq hst.wf ha hb hne]
  · have hlt := hst.blueWork_lt ha hb han hne hg hv
    exact (Prod.Lex.lt_iff.2 (.inl hlt)).le

/-- The selected parent comes after the past of the parents. -/
lemma Merge.key_le (hmr : Merge stores parents selected mergeSet) (hst : Shaped cfg stores)
    (hb : b ∈ stores) (hx : x ∈ parents) (ha : stores.isAncestorOf b.hash x)
    (hg : b.hash ≠ cfg.genesisHash) (hv : b.hash ≠ virtualGenesisBlockHash) :
    b.key ≤ selected.key := by
  obtain ⟨parent,hp,rfl⟩ := BlockStores.mem_hashes.1 (hst.mem_of_isAncestorOf ha).2
  exact (hst.key_le hb hp ha hg hv).trans (hmr.maximal parent hp hx)

lemma Shaped.blueWork_genesis (hst : Shaped cfg stores) (hb : block ∈ stores)
    (hg : block.hash = cfg.genesisHash) :
    block.ghostdagData.blueWork = 0 ∧ block.bits = cfg.genesisBits := by
  obtain rfl := eq_of_hash_eq hst.wf hb (hst.init_suffix.subset mem_cons_self) hg
  exact ⟨rfl,rfl⟩

lemma Shaped.calcWork_pos (hw : 0 < calcWork cfg.genesisBits) (hst : Shaped cfg stores)
    (hb : block ∈ stores) (hne : block.hash ≠ virtualGenesisBlockHash) :
    0 < calcWork block.bits := by
  by_cases hg : block.hash = cfg.genesisHash
  · rwa [(hst.blueWork_genesis hb hg).2]
  · exact hst.work_pos hb hne hg

/-- The work of genesis counts for its children, so all other blocks have some. -/
lemma Shape.blueWork_pos (hb : Shape older block) (ho : Shaped cfg older)
    (hw : 0 < calcWork cfg.genesisBits) : 0 < block.ghostdagData.blueWork := by
  obtain ⟨_,_,hmr,hd⟩ := hb.merged
  have hs := hb.parents.ne _ hmr.selected_parent
  have hle := hd.add_le_blueWork ho.wf hmr hs
  have hp := ho.calcWork_pos hw hmr.selected_mem hs
  omega

/-! ## The merge set -/

section
variable (hst : Shaped cfg stores) (hpa : CheckedParents stores parents)
  (hmr : Merge stores parents selected mergeSet)
include hst hpa hmr

/-- The first two blocks are in the past of every selected parent. -/
lemma Merge.ne_of_mem (hx : x ∈ mergeSet.map StoredBlock.hash) :
    x ≠ cfg.genesisHash ∧ x ≠ virtualGenesisBlockHash :=
  hst.ne_of_not_isAncestorOf hmr.selected_mem_hashes
    (hpa.ne _ hmr.selected_parent) ((hmr.mem_iff x).1 hx).2

lemma Merge.isAncestorOf_genesis
    (hx : x ∈ mergeSet.map StoredBlock.hash) : stores.isAncestorOf cfg.genesisHash x :=
  hst.isAncestorOf_genesis (hmr.mem_hashes hx) (hmr.ne_of_mem hst hpa hx).2

/-- The merge set is sorted topologically, since work grows along the DAG. -/
lemma Merge.topological (hnd : parents.Nodup) :
    (mergeSet.map StoredBlock.hash).Pairwise fun a b => ¬stores.isAncestorOf b a := by
  have hd := pairwise_map.1 (hmr.nodup hnd)
  rw [pairwise_map]
  refine (hmr.sorted.and hd).imp_of_mem fun {a b} ha hb hab han => ?_
  have hne := hmr.ne_of_mem hst hpa (mem_map_of_mem hb)
  have hlt := hst.blueWork_lt (hmr.subset b hb) (hmr.subset a ha) han hab.2.symm hne.1 hne.2
  exact absurd (blueWork_le_of_key_le hab.1) (not_le.2 hlt)

end

lemma Shape.blues_past (hb : Shape stores block) :
    ∀ x ∈ block.ghostdagData.mergeSetBlues, ∃ p ∈ block.parents, stores.isAncestorOf x p := by
  intro x hx
  obtain ⟨selected,_,hmr,hd⟩ := hb.merged
  obtain rfl | hx := mem_cons.1 (hd.perm.subset (mem_append_left _ hx))
  · exact ⟨selected.hash,hmr.selected_parent,Shaped.isAncestorOf_refl hmr.selected_mem_hashes⟩
  · exact ((hmr.mem_iff x).1 hx).1

/-! ## Storing blocks -/

/-- The checks on a block besides the computation of its data. -/
structure HeaderChecks (cfg : GhostdagConfig) (stores : BlockStores) (hash : DomainHash)
    (header : BlockHeader) : Prop where
  new : hash ∉ stores.hashes
  length_ne : header.directParents.length ≠ 0
  notVirtualGenesis : checkParentNotVirtualGenesis header = .ok ()
  headersExist : checkParentHeadersExist stores header = .ok ()
  incest : checkParentsIncest stores header.directParents = .ok ()
  target : checkTarget cfg header = .ok ()
  indirectParents : checkIndirectParents header = .ok ()

/-- What is known once the checks before `GHOSTDAG` have passed. -/
lemma checkedParents (hl : header.directParents.length ≠ 0)
    (hv : checkParentNotVirtualGenesis header = .ok ())
    (hex : checkParentHeadersExist stores header = .ok ())
    (hi : checkParentsIncest stores header.directParents = .ok ()) :
    CheckedParents stores header.directParents := by
  refine ⟨fun h => hl (by rw [h]; rfl),?_,?_,?_⟩
  · rw [checkParentHeadersExist] at hex
    split at hex
    · next ha => simpa using ha
    · cases hex
  · obtain ⟨hm,hv⟩ := of_ite_error hv
    rintro p hp rfl
    exact hm hp
  · obtain ⟨hay,hi⟩ := of_ite_error hi
    intro p hp q hq hne han
    refine hay (any_eq_true.2 ⟨p,hp,any_eq_true.2 ⟨q,hq,?_⟩⟩)
    simp [hne,han]

lemma calcWork_pos_of_checkTarget (h : checkTarget cfg header = .ok ()) :
    0 < calcWork header.bits := by
  obtain ⟨hp,h⟩ := of_ite_error h
  obtain ⟨hm,h⟩ := of_ite_error h
  have hlt := (not_lt.1 hm).trans_lt cfg.powMax_lt
  rw [calcWork,if_neg hp]
  exact Nat.div_pos (by omega) (Nat.succ_pos _)

lemma nodup_of_checkIndirectParents (h : checkIndirectParents header = .ok ()) :
    header.directParents.Nodup := by
  rw [checkIndirectParents] at h
  split at h
  · next hl =>
    rw [← dedup_eq_self]
    exact (dedup_sublist _).eq_of_length hl.symm
  · cases h

lemma HeaderChecks.checkedParents (h : HeaderChecks cfg stores hash header) :
    CheckedParents stores header.directParents :=
  Eiyaro.checkedParents h.length_ne h.notVirtualGenesis h.headersExist h.incest

/-- A block that passes the checks has the shape. -/
lemma HeaderChecks.shape (h : HeaderChecks cfg stores hash header) (hst : Shaped cfg stores)
    (hd : ghostdag cfg stores header.directParents = .ok data) :
    Shape stores ⟨hash,header.directParents,header.bits,data⟩ := by
  obtain ⟨selected,mergeSet,hmr⟩ := h.checkedParents.exists_merge hst.wf
  exact ⟨h.new,h.checkedParents,nodup_of_checkIndirectParents h.indirectParents,
    calcWork_pos_of_checkTarget h.target,selected,mergeSet,hmr,
    hmr.mergedData hst.wf hd⟩

lemma insertBlock_eq_ok (h : insertBlock cfg stores hash header = .ok stores') :
    HeaderChecks cfg stores hash header ∧ ∃ data,
      ghostdag cfg stores header.directParents = .ok data ∧
        stores' = ⟨hash,header.directParents,header.bits,data⟩ :: stores := by
  obtain ⟨hn,h⟩ := of_ite_error h
  obtain ⟨hl,h⟩ := of_ite_error h
  obtain ⟨_,hv,_,he,h⟩ := bind₂_eq_ok h
  obtain ⟨_,hin,_,ht,h⟩ := bind₂_eq_ok h
  obtain ⟨data,hd,_,hi,h⟩ := bind₂_eq_ok h
  cases h
  exact ⟨⟨hn,hl,hv,he,hin,ht,hi⟩,data,hd,rfl⟩

lemma insertBlock_shaped (hst : Shaped cfg stores)
    (h : insertBlock cfg stores hash header = .ok stores') :
    Shaped cfg stores' ∧ stores <:+ stores' := by
  obtain ⟨hc,_,hd,rfl⟩ := insertBlock_eq_ok h
  exact ⟨.cons hst (hc.shape hst hd),suffix_cons _ _⟩

lemma processBlock_shaped (hst : Shaped cfg stores) (block : DomainHash × BlockHeader) :
    Shaped cfg (processBlock cfg stores block) := by
  rw [processBlock]
  split
  · next hi => exact (insertBlock_shaped hst hi).1
  · exact hst

lemma processBlocks_shaped (blocks : List (DomainHash × BlockHeader)) :
    Shaped cfg (processBlocks cfg blocks) := by
  refine foldlRecOn blocks _ .init ?_
  intro _ hst block _
  exact processBlock_shaped hst block

/-! ## The order of blocks -/

/-- `Less` compares keys, and two blocks never have the same key. -/
lemma Shaped.less_isStrictTotalOrder (hst : Shaped cfg stores) :
    IsStrictTotalOrder {x // x ∈ stores.hashes} fun a b => less stores a b = .ok true := by
  have hb : ∀ x : {x // x ∈ stores.hashes}, ∃ block ∈ stores, block.hash = x :=
    fun x => mem_hashes.1 x.2
  choose block hm hhs using hb
  refine RelEmbedding.isStrictTotalOrder (s := (· < ·))
    ⟨⟨fun x => (block x).key,fun x y h => ?_⟩,fun {x y} => ?_⟩
  · refine Subtype.ext ?_
    rw [← hhs x,← hhs y]
    exact congrArg (fun key => (ofLex key).2) h
  · rw [← hhs x,← hhs y,less_of_mem hst.wf (hm x) (hm y),Except.ok.injEq,decide_eq_true_iff]
    rfl

/-- The blue work grows from an ancestor to its descendants. From genesis on it does so only
if genesis has work itself. -/
lemma Shaped.less_of_isAncestorOf (hst : Shaped cfg stores) (hanc : stores.isAncestorOf x y)
    (hne : x ≠ y) (hv : x ≠ virtualGenesisBlockHash)
    (hw : x = cfg.genesisHash → 0 < calcWork cfg.genesisBits) : less stores x y = .ok true := by
  obtain ⟨hx,hy⟩ := hst.mem_of_isAncestorOf hanc
  obtain ⟨a,ha,rfl⟩ := mem_hashes.1 hx
  obtain ⟨b,hb,rfl⟩ := mem_hashes.1 hy
  have hlt : a.ghostdagData.blueWork < b.ghostdagData.blueWork := by
    by_cases hg : a.hash = cfg.genesisHash
    · have hb' : b.hash ≠ virtualGenesisBlockHash := by
        intro h
        rw [h] at hanc hne
        have hbc := hst.isAncestorOf_virtualGenesis hx hv
        exact hne (hst.wf.anc_antisymm hanc hbc)
      rw [(hst.blueWork_genesis ha hg).1]
      obtain ⟨_,_,rfl,hs,ho⟩ := hst.split hb hb' (hg ▸ hne.symm)
      exact hs.blueWork_pos ho (hw hg)
    · exact hst.blueWork_lt ha hb hanc hne hg hv
  rw [less_of_mem hst.wf ha hb,decide_eq_true (Prod.Lex.lt_iff.2 (.inl hlt))]

/-- What a new block merges besides its selected parent, and how `Less` orders the
blocks. Only that genesis is below its descendants depends on the work of genesis. Virtual
genesis, which `Less` puts above genesis, marks the bottom of the DAG and is no block. -/
theorem mergeSet_topological_and_less_total (cfg : GhostdagConfig)
    (blocks : List (DomainHash × BlockHeader)) :
    (∀ hash header, HeaderChecks cfg (processBlocks cfg blocks) hash header →
      ∃ selectedParent mergeSet,
        findSelectedParent (processBlocks cfg blocks) none header.directParents =
          .ok (some selectedParent) ∧
        mergeSetWithoutSelectedParent (processBlocks cfg blocks) selectedParent
          header.directParents = .ok mergeSet ∧
        mergeSet.Nodup ∧
        (∀ x, x ∈ mergeSet ↔
          (∃ p ∈ header.directParents, (processBlocks cfg blocks).isAncestorOf x p) ∧
            ¬(processBlocks cfg blocks).isAncestorOf x selectedParent) ∧
        mergeSet.Pairwise fun a b => ¬(processBlocks cfg blocks).isAncestorOf b a) ∧
    (IsStrictTotalOrder {x // x ∈ (processBlocks cfg blocks).hashes} fun a b =>
      less (processBlocks cfg blocks) a b = .ok true) ∧
    ∀ x y, (processBlocks cfg blocks).isAncestorOf x y → x ≠ y → x ≠ virtualGenesisBlockHash →
      (x = cfg.genesisHash → 0 < calcWork cfg.genesisBits) →
        less (processBlocks cfg blocks) x y = .ok true := by
  have hst := @processBlocks_shaped cfg blocks
  refine ⟨fun hash header h => ?_,hst.less_isStrictTotalOrder,fun x y ha hne hv hw =>
    hst.less_of_isAncestorOf ha hne hv hw⟩
  have hpa := h.checkedParents
  have hn := nodup_of_checkIndirectParents h.indirectParents
  obtain ⟨selected,mergeSet,hmr⟩ := hpa.exists_merge hst.wf
  exact ⟨selected.hash,mergeSet.map StoredBlock.hash,hmr.found,hmr.merged,
    hmr.nodup hn,hmr.mem_iff,hmr.topological hst hpa hn⟩

theorem mergeSet_topological_and_less_total_fork :
    (∃ selectedParent mergeSet,
      findSelectedParent (processBlocks (configWithK 1) [(1, headerOn [0]),(2, headerOn [0])])
        none [1,2] = .ok (some selectedParent) ∧
      mergeSetWithoutSelectedParent (processBlocks (configWithK 1) [(1, headerOn [0]),
        (2, headerOn [0])]) selectedParent [1,2] = .ok mergeSet ∧ mergeSet.Nodup) ∧
    less (processBlocks (configWithK 1) [(1, headerOn [0]),(2, headerOn [0])]) 0 2 = .ok true := by
  obtain ⟨hmr,-,hl⟩ := mergeSet_topological_and_less_total (configWithK 1)
    [(1, headerOn [0]),(2, headerOn [0])]
  obtain ⟨selectedParent,mergeSet,hf,hm,hn,-⟩ := hmr 3 (headerOn [1,2])
    ⟨by decide,by decide,by decide,by decide,by decide,
      by decide,by decide⟩
  exact ⟨⟨selectedParent,mergeSet,hf,hm,hn⟩,
    hl 0 2 (by decide) (by decide) (by decide) fun _ => by decide⟩

/-- The bits of the main network's genesis, whose target is negative. -/
def mainGenesisConfig : GhostdagConfig :=
  { configWithK 18 with
    genesisHash := 2
    genesisBits := 100000000
    genesis_ne := by decide }

/-- Genesis has no work, so that a child on it has no blue work either, and the child with the
smaller hash is below genesis. -/
theorem less_child_mainGenesis :
    (processBlocks mainGenesisConfig [(1, headerOn [2])]).isAncestorOf 2 1 ∧
      less (processBlocks mainGenesisConfig [(1, headerOn [2])]) 2 1 = .ok false ∧
      less (processBlocks mainGenesisConfig [(1, headerOn [2])]) 1 2 = .ok true := by
  decide

end Eiyaro
