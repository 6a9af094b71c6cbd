import Eiyaro.Ghostdag.Colouring

/-!
# Storing a block

`GHOSTDAG` gives a block that passes the parent checks data for which the
invariant holds, so it holds of the stores after any sequence of blocks. Every
blue set is then a k-cluster, and a block is only ever rejected for a broken
rule.
-/

namespace Eiyaro
open List BlockStores

/-! ## The data of a new block -/

variable {cfg : GhostdagConfig} {stores : BlockStores} {parents : List DomainHash}
  {selected : StoredBlock} {mergeSet : List StoredBlock}

lemma Merge.loopInv_init (hi : StoresInv cfg stores) (hp : CheckedParents stores parents)
    (hm : Merge stores parents selected mergeSet) :
    LoopInv cfg stores selected.hash (initialData selected.hash) :=
  .init hi hm.selected_mem_hashes (hp.ne _ hm.selected_parent) rfl rfl rfl

/-- Before the loop the blue set is in the past of the selected parent. -/
lemma Merge.past_of_blueList (hi : StoresInv cfg stores)
    (hm : Merge stores parents selected mergeSet) :
    ∀ x ∈ blueList stores (initialData selected.hash), stores.isAncestorOf x selected.hash := by
  have hmm := hm.selected_mem_hashes
  intro x hx
  obtain rfl | hx := mem_cons.1 hx
  · exact Dag.anc_refl (by rwa [nodes_topology])
  · exact (hi.chainBlues_past hmm hx).1

lemma ghostdag_total (hi : StoresInv cfg stores) (hpr : CheckedParents stores parents) :
    ∃ data, ghostdag cfg stores parents = .ok data := by
  obtain ⟨_,_,hmr⟩ := hpr.exists_merge hi.shaped.wf
  obtain ⟨data,hd⟩ := foldlM_colour_total hi hmr.selected_mem_hashes
    (hpr.ne _ hmr.selected_parent) rfl (hmr.loopInv_init hi hpr).bounded
    (fun _ hc => hmr.isAncestorOf_genesis hi.shaped hpr hc)
  obtain ⟨-,_,-,hb,-,hs,-⟩ := SplitOf.foldlM_colour hd
  have hm : ∀ x ∈ data.mergeSetBlues, x ∈ stores.hashes := by
    rw [hb]
    exact forall_mem_cons.2 ⟨hmr.selected_mem_hashes,fun x hx =>
      hmr.mem_hashes (hs.subset hx)⟩
  obtain ⟨_,hw⟩ := bluesWork_total hi.shaped.wf hm
  rw [hmr.ghostdag_eq hi.shaped.wf,hd,ok_bind,hw]
  exact ⟨_,rfl⟩

/-- The data of a block with distinct parents satisfies the invariant. -/
lemma ghostdag_coloured (hk : cfg.k < 255) (hinv : StoresInv cfg stores)
    (hpr : CheckedParents stores parents) (hnd : parents.Nodup)
    {data : BlockGHOSTDAGData} (h : ghostdag cfg stores parents = .ok data) :
    Coloured cfg stores data := by
  have hst := hinv.shaped
  obtain ⟨_,_,hmr⟩ := hpr.exists_merge hst.wf
  have hm := hmr.selected_mem_hashes
  have hne := hpr.ne _ hmr.selected_parent
  have hi := hmr.past_of_blueList hinv
  rw [hmr.ghostdag_eq hst.wf] at h
  obtain ⟨_,hl,_,_,h⟩ := bind₂_eq_ok h
  obtain ⟨hlp,-⟩ := LoopInv.foldlM_colour hk hinv hm hne
    (fun c hc => ⟨hmr.mem_hashes hc,hmr.isAncestorOf_genesis hst hpr hc⟩)
    (hmr.topological hst hpr hnd) (hmr.loopInv_init hinv hpr)
    (fun c hc x hx hcx => ((hmr.mem_iff c).1 hc).2 (hst.wf.anc_trans hcx (hi x hx))) hl
  cases h
  exact LoopInv.coloured hinv hm hne (hlp.congr rfl rfl rfl)

/-! ## Validation -/

variable {hash : DomainHash} {header : BlockHeader}

lemma insertBlock_inv (hk : cfg.k < 255) (hi : StoresInv cfg stores) {stores' : BlockStores}
    (h : insertBlock cfg stores hash header = .ok stores') : StoresInv cfg stores' := by
  obtain ⟨hch,_,hd,rfl⟩ := insertBlock_eq_ok h
  exact .cons hi ⟨hch.shape hi.shaped hd,ghostdag_coloured hk hi
    hch.checkedParents (nodup_of_checkIndirectParents hch.indirectParents) hd⟩

/-- No lookup of the colouring fails and no size above `k` is found. -/
lemma insertBlock_onlyRuleErrors (hin : StoresInv cfg stores) (hash : DomainHash)
    (header : BlockHeader) : OnlyRuleErrors (insertBlock cfg stores hash header) := by
  refine .ite (fun _ => .ruleError _ _) fun _ => .ite (fun _ => .ruleError _ _) fun hl => ?_
  refine .bind (.ite (fun _ => .ruleError _ _) fun _ => .ok _) fun _ hv => ?_
  refine .bind (.ite (fun _ => .ok _) fun _ => .ruleError _ _) fun _ he => ?_
  refine .bind (.ite (fun _ => .ruleError _ _) fun _ => .ok _) fun _ hi => ?_
  refine .bind (.ite (fun _ => .ruleError _ _) fun _ => .ite (fun _ => .ruleError _ _)
    fun _ => .ok _) fun _ _ => ?_
  refine .bind (.inl (ghostdag_total hin (checkedParents hl hv he hi))) fun _ _ => ?_
  exact .bind (.ite (fun _ => .ok _) fun _ => .ruleError _ _) fun _ _ => .ok _

lemma processBlock_inv (hk : cfg.k < 255) (hi : StoresInv cfg stores)
    (block : DomainHash × BlockHeader) : StoresInv cfg (processBlock cfg stores block) := by
  rw [processBlock]
  split
  · next h => exact insertBlock_inv hk hi h
  · exact hi

lemma processBlocks_inv (hk : cfg.k < 255) (blocks : List (DomainHash × BlockHeader)) :
    StoresInv cfg (processBlocks cfg blocks) :=
  foldlRecOn blocks _ .init fun _ hi block _ =>
    processBlock_inv hk hi block

/-! ## Sample DAGs -/

/-- A chain of `n` blocks on genesis, with hashes `1, …, n`. -/
def chainOnGenesis (n : Nat) : List (DomainHash × BlockHeader) :=
  (List.range n).map fun i => (Fin.ofNat (2^256) (i+1), headerOn [Fin.ofNat (2^256) i])

/-- A chain of 256 blocks, one more block on genesis, and a block that merges them. -/
def mergeOfChainAndFork : List (DomainHash × BlockHeader) :=
  chainOnGenesis 256 ++ [(257, headerOn [0]),(258, headerOn [256,257])]

/-! ## Clusters -/

/-- The blue set of the data is a k-cluster, its anticone sizes are exact, and at
most `k + 1` blocks of the merge set are blue. -/
structure Clustered (cfg : GhostdagConfig) (stores : BlockStores) (data : BlockGHOSTDAGData) :
    Prop where
  kCluster : stores.topology.KCluster cfg.k.toNat (blueSet stores data)
  sizes_exact : ∀ x size, data.bluesAnticoneSizes.get x = some size →
    x ∈ blueSet stores data ∧ size.toNat = stores.topology.anticoneSize (blueSet stores data) x
  blues_le : data.mergeSetBlues.length ≤ cfg.k.toNat+1

variable {data : BlockGHOSTDAGData}

lemma Coloured.clustered (hdt : Coloured cfg stores data) : Clustered cfg stores data where
  kCluster := by
    intro x hx
    have hx' := mem_toFinset.1 hx
    obtain ⟨size,hs,hle⟩ := hdt.bounded x hx'
    rw [← hdt.size_exact x hx' size hs]
    exact UInt8.le_iff_toNat_le.1 hle
  sizes_exact := hdt.entry_exact
  blues_le := hdt.length_le

/-- A new block changes nothing for the data of the blocks before it. -/
lemma Clustered.cons {block : StoredBlock} (hwf : (topology (block :: stores)).WF)
    (hsl : data.selectedParent ≠ some block.hash)
    (hm : ∀ x ∈ blueList stores data, x ∈ stores.hashes) (hdt : Clustered cfg stores data) :
    blueList (block :: stores) data = blueList stores data ∧
      Clustered cfg (block :: stores) data := by
  have hl : blueList (block :: stores) data = blueList stores data := by
    rw [blueList,chainBlues,if_neg hsl,blueList]
  have hst : blueSet (block :: stores) data = blueSet stores data := by
    rw [blueSet,blueSet,hl]
  have hn : ∀ x ∈ blueSet stores data, x ∈ stores.topology.nodes := by
    intro x hx
    rw [nodes_topology]
    exact hm x (mem_toFinset.1 hx)
  have hs : ∀ x ∈ blueSet stores data,
      (topology (block :: stores)).anticoneSize (blueSet stores data) x =
        stores.topology.anticoneSize (blueSet stores data) x := fun x hx =>
    Dag.WF.anticoneSize_append (e := [(block.hash, block.parents)]) hwf (hn x hx) hn
  refine ⟨hl,?_,?_,hdt.blues_le⟩
  · intro x hx
    rw [hst] at hx ⊢
    rw [hs x hx]
    exact hdt.kCluster x hx
  · intro x size hg
    obtain ⟨hx,heq⟩ := hdt.sizes_exact x size hg
    rw [hst,hs x hx]
    exact ⟨hx,heq⟩

lemma StoresInv.clustered (hi : StoresInv cfg stores) :
    ∀ block ∈ stores, Clustered cfg stores block.ghostdagData ∧
      (∀ x ∈ blueList stores block.ghostdagData, x ∈ stores.hashes) ∧
      ∀ t, block.ghostdagData.selectedParent = some t → t ∈ stores.hashes := by
  induction hi with
  | init =>
    have he : ∀ block ∈ initStores cfg, blueList (initStores cfg) block.ghostdagData = [] ∧
        block.ghostdagData.bluesAnticoneSizes = ∅ ∧ block.ghostdagData.mergeSetBlues = [] := by
      simp [initStores,blueList,chainBlues]
    intro block hblk
    obtain ⟨hls,hsz,hbl⟩ := he block hblk
    refine ⟨⟨?_,?_,?_⟩,?_,?_⟩
    · simp [Dag.KCluster,blueSet,hls]
    · simp [hsz]
    · simp [hbl]
    · simp [hls]
    · intro t ht
      obtain rfl | rfl := mem_initStores.1 hblk
      · cases ht
        simp [initStores,hashes]
      · cases ht
  | @cons older block hol hblk ih =>
    have hwf := (StoresInv.cons hol hblk).shaped.wf
    -- the blocks before the new one, and the new one, are all clustered in the older stores
    have ha : ∀ data, (∃ b ∈ older, b.ghostdagData = data) ∨ data = block.ghostdagData →
        Clustered cfg older data ∧ (∀ x ∈ blueList older data, x ∈ older.hashes) ∧
        ∀ t, data.selectedParent = some t → t ∈ older.hashes := by
      rintro data (⟨b,hb,rfl⟩ | rfl)
      · exact ih b hb
      · obtain ⟨sp,hsp,hsel⟩ := hblk.exists_selectedParent
        have hs := hblk.parents.mem sp hsp
        refine ⟨hblk.coloured.clustered,fun x hx => ?_,fun t ht => ?_⟩
        · rcases mem_append.1 hx with hx | hx
          · obtain ⟨_,-,han⟩ := hblk.blues_past x hx
            exact (hol.shaped.mem_of_isAncestorOf han).1
          · rw [hsel] at hx
            exact hol.mem_of_mem_chainBlues hs hx
        · rw [hsel] at ht
          cases ht
          exact hs
    intro b hb
    obtain ⟨hd,hm,hsel⟩ := ha b.ghostdagData <| by
      rcases mem_cons.1 hb with rfl | hb
      · exact .inr rfl
      · exact .inl ⟨b,hb,rfl⟩
    obtain ⟨hls,hc⟩ := hd.cons hwf (fun h => hblk.new (hsel block.hash h)) hm
    refine ⟨hc,fun x hx => ?_,fun t ht => mem_cons_of_mem _ (hsel t ht)⟩
    rw [hls] at hx
    exact mem_cons_of_mem _ (hm x hx)

/-- After any sequence of blocks every blue set is a k-cluster with exact sizes,
and the next block fails for a broken rule if at all, so that the consistency
check of `checkBlueCandidate` never fails. The size of an anticone must not wrap
around, which is why the largest `k` is left out. -/
theorem processBlocks_clustered (cfg : GhostdagConfig) (hk : cfg.k < 255)
    (blocks : List (DomainHash × BlockHeader)) :
    (∀ block ∈ processBlocks cfg blocks,
      Clustered cfg (processBlocks cfg blocks) block.ghostdagData) ∧
    ∀ hash header, OnlyRuleErrors (insertBlock cfg (processBlocks cfg blocks) hash header) :=
  ⟨fun block hb => ((processBlocks_inv hk blocks).clustered block hb).1,
    insertBlock_onlyRuleErrors (processBlocks_inv hk blocks)⟩

theorem processBlocks_clustered_fork :
    (configWithK 18).k < 255 ∧
      ∀ block ∈ processBlocks (configWithK 18) [(1, headerOn [0]),(2, headerOn [0]),
          (3, headerOn [1,2])],
        Clustered (configWithK 18) (processBlocks (configWithK 18) [(1, headerOn [0]),
          (2, headerOn [0]),(3, headerOn [1,2])]) block.ghostdagData :=
  ⟨by decide,(processBlocks_clustered _ (by decide) _).1⟩

/-- With `k = 255` the count of a candidate wraps around: the last block colours
the fork blue with size 0, but it has all of the chain in its anticone. -/
theorem largest_k_not_clustered :
    ∃ block ∈ processBlocks (configWithK 255) mergeOfChainAndFork,
      block.ghostdagData.bluesAnticoneSizes.get 257 = some 0 ∧
      257 ∈ blueSet (processBlocks (configWithK 255) mergeOfChainAndFork) block.ghostdagData ∧
      (processBlocks (configWithK 255) mergeOfChainAndFork).topology.anticoneSize
        (blueSet (processBlocks (configWithK 255) mergeOfChainAndFork) block.ghostdagData) 257 =
          256 := by
  decide +kernel

end Eiyaro
