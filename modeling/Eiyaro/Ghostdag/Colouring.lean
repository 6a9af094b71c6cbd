import Eiyaro.Ghostdag.Cluster

/-!
# The colouring loop

One round of the loop either leaves a candidate red or adds it to the blues. The
blue anticone sizes stay exact: a new blue raises the size of the blues outside
of its past, and these are the ones whose entries are rewritten.
-/

namespace Eiyaro
open List BlockStores Option
variable {cfg : GhostdagConfig} {stores : BlockStores} {data data' : BlockGHOSTDAGData}
  {candidate t x : DomainHash} {check : CandidateCheck} {candidates : List DomainHash}

namespace StoresInv
variable (hinv : StoresInv cfg stores)
include hinv

lemma chainBlues_genesis : chainBlues stores (some cfg.genesisHash) = [] := by
  induction hinv with
  | init => simp [initStores,chainBlues]
  | @cons _ block ho hb ih =>
    have hne : cfg.genesisHash ≠ block.hash := fun heq =>
      hb.new (heq ▸ ho.shaped.genesis_mem)
    rw [chainBlues,if_neg (by simpa using hne),ih]

section
variable (ht : t ∈ stores.hashes)
include ht

/-- A stored block other than the first two, with the blocks before it. -/
lemma split (hne : t ≠ virtualGenesisBlockHash) (hg : t ≠ cfg.genesisHash) :
    ∃ (newer : BlockStores) (block : StoredBlock) (older : BlockStores),
      stores = newer ++ block :: older ∧ block.hash = t ∧
      t ∉ newer.hashes ∧ BlockInv cfg older block ∧ StoresInv cfg older := by
  induction hinv with
  | init => simp [initStores,hashes,hne,hg] at ht
  | @cons older block hol hb ih =>
    by_cases heq : block.hash = t
    · exact ⟨[],block,older,rfl,heq,by simp [hashes],hb,hol⟩
    · obtain ⟨newer,found,older',rfl,hf,hnew,hinv,hol⟩ :=
        ih ((mem_cons.1 ht).resolve_left (Ne.symm heq))
      refine ⟨block :: newer,found,older',rfl,hf,?_,hinv,hol⟩
      rw [hashes_cons,mem_cons,not_or]
      exact ⟨Ne.symm heq,hnew⟩

lemma mem_of_mem_chainBlues (hx : x ∈ chainBlues stores (some t)) : x ∈ stores.hashes :=
  (hinv.shaped.mem_of_isAncestorOf (hinv.chainBlues_past ht hx).1).1

/-- The data of the selected parent answers for the blues of its chain. -/
lemma chain_size (hne : t ≠ virtualGenesisBlockHash) (hx : x ∈ chainBlues stores (some t))
    (hsel : data.selectedParent = some t) (hn : data.bluesAnticoneSizes.get x = none) :
    ∃ size, blueAnticoneSize cfg x stores data = .ok size ∧ size ≤ cfg.k ∧
      size.toNat = stores.topology.anticoneSize (chainBlues stores (some t)).toFinset x := by
  have hg : t ≠ cfg.genesisHash := by
    rintro rfl
    simp [hinv.chainBlues_genesis] at hx
  have hwf := hinv.shaped.wf
  obtain ⟨newer,block,older,rfl,rfl,hnew,hblk,ho⟩ := hinv.split ht hne hg
  obtain ⟨sp,hsp,hb⟩ := hblk.exists_selectedParent
  have hsn : block.ghostdagData.selectedParent ≠ some virtualGenesisBlockHash := by
    rw [hb]
    exact fun h => hblk.parents.ne sp hsp (some.inj h)
  have hc : chainBlues (newer ++ block :: older) (some block.hash) =
    blueList older block.ghostdagData := chainBlues_found hnew
  rw [hc] at hx ⊢
  rw [blueAnticoneSize_found hn hsel hg hsn hnew]
  obtain ⟨size,hs,hle⟩ := hblk.coloured.bounded x hx
  refine ⟨size,hs,hle,?_⟩
  rw [hblk.coloured.size_exact x hx size hs]
  have hm : ∀ y ∈ blueList older block.ghostdagData, y ∈ older.topology.nodes := by
    intro y hy
    rw [nodes_topology]
    rcases mem_append.1 hy with hy | hy
    · obtain ⟨_,-,ha⟩ := hblk.blues_past y hy
      exact (ho.shaped.mem_of_isAncestorOf ha).1
    · rw [hb] at hy
      exact ho.mem_of_mem_chainBlues (hblk.parents.mem sp hsp) hy
  have htp : topology (newer ++ block :: older) =
      (topology newer ++ [(block.hash, block.parents)]) ++ older.topology := by
    simp [topology]
  rw [htp] at hwf ⊢
  refine (hwf.anticoneSize_append (hm x hx) ?_).symm
  intro y hy
  exact hm y (mem_toFinset.1 hy)

lemma nodup_chainBlues
    (hne : t ≠ virtualGenesisBlockHash) : (chainBlues stores (some t)).Nodup := by
  by_cases hg : t = cfg.genesisHash
  · subst hg
    rw [hinv.chainBlues_genesis]
    exact nodup_nil
  · obtain ⟨_,_,_,rfl,rfl,hnew,hb,-⟩ := hinv.split ht hne hg
    rw [chainBlues_found hnew]
    exact hb.coloured.nodup

end
end StoresInv

/-! ## One round -/

lemma colour_blue (h : checkBlueCandidate cfg stores data candidate = .ok (some check)) :
    colour cfg stores data candidate = .ok (data.addBlue candidate check) := by
  rw [colour,h]
  rfl

lemma colour_red (h : checkBlueCandidate cfg stores data candidate = .ok none) :
    colour cfg stores data candidate = .ok (data.addRed candidate) := by
  rw [colour,h]
  rfl

lemma get_addBlue : (data.addBlue candidate check).bluesAnticoneSizes.get x =
    ((check.candidateBluesAnticoneSizes.get x).map (· + 1)).or
      (if x = candidate then some check.candidateAnticoneSize
        else data.bluesAnticoneSizes.get x) := by
  simp [BlockGHOSTDAGData.addBlue,FinMap.get_insert]

lemma mem_blueList_addBlue : x ∈ blueList stores (data.addBlue candidate check) ↔
    x = candidate ∨ x ∈ blueList stores data := by
  simp only [blueList,BlockGHOSTDAGData.addBlue,mem_append,mem_singleton]
  tauto

lemma BoundedSizes.addBlue (hss : BoundedSizes cfg stores data (blueList stores data))
    (hc : check.Bounded cfg) :
    BoundedSizes cfg stores (data.addBlue candidate check)
      (blueList stores (data.addBlue candidate check)) := by
  intro x hx
  cases hg : (data.addBlue candidate check).bluesAnticoneSizes.get x with
  | some size =>
    refine ⟨size,blueAnticoneSize_of_entry hg,?_⟩
    rw [get_addBlue] at hg
    rcases or_eq_some_iff.1 hg with h | ⟨-,h⟩
    · obtain ⟨old,ho,rfl⟩ := map_eq_some_iff.1 h
      have hlt := UInt8.lt_iff_toNat_lt.1 (hc.sizes_lt x old ho)
      rw [UInt8.le_iff_toNat_le,UInt8.toNat_add,UInt8.toNat_one]
      omega
    · split at h
      · cases h
        exact hc.anticone_le
      · next hne =>
        obtain ⟨_,hs',hle⟩ := hss x ((mem_blueList_addBlue.1 hx).resolve_left hne)
        rw [blueAnticoneSize_of_entry h] at hs'
        cases hs'
        exact hle
  | none =>
    have ho := hg
    rw [get_addBlue,or_eq_none_iff] at ho
    split at ho
    · simp at ho
    · next hne =>
      obtain ⟨size,hs,hle⟩ := hss x ((mem_blueList_addBlue.1 hx).resolve_left hne)
      refine ⟨size,?_,hle⟩
      rw [← hs]
      exact blueAnticoneSize_congr (hg.trans ho.2.symm) rfl

section
variable (hinv : StoresInv cfg stores) (ht : t ∈ stores.hashes) (hne : t ≠ virtualGenesisBlockHash)
  (hsel : data.selectedParent = some t) (hss : BoundedSizes cfg stores data (blueList stores data))
include hinv ht hne hsel hss

lemma colour_total (hg : stores.isAncestorOf cfg.genesisHash candidate) :
    ∃ data', colour cfg stores data candidate = .ok data' ∧ data'.selectedParent = some t ∧
      BoundedSizes cfg stores data' (blueList stores data') := by
  obtain ⟨result,hr,hc⟩ := checkBlueCandidate_spec hinv hg hsel ht hne hss
  cases result with
  | none =>
    refine ⟨data.addRed candidate,colour_red hr,hsel,fun x hx => ?_⟩
    obtain ⟨size,hs,hle⟩ := hss x hx
    refine ⟨size,?_,hle⟩
    rw [← hs]
    exact blueAnticoneSize_congr rfl rfl
  | some check =>
    obtain ⟨-,hn⟩ | ⟨-,hb,-⟩ := hc
    · cases hn
    · exact ⟨data.addBlue candidate check,colour_blue hr,hsel,hss.addBlue hb⟩

lemma foldlM_colour_total (hg : ∀ c ∈ candidates, stores.isAncestorOf cfg.genesisHash c) :
    ∃ data', candidates.foldlM (colour cfg stores) data = .ok data' := by
  induction candidates generalizing data with
  | nil => exact ⟨data,rfl⟩
  | cons c candidates ih =>
    rw [forall_mem_cons] at hg
    obtain ⟨_,hn,hsl',hs'⟩ := colour_total hinv ht hne hsel hss hg.1
    rw [foldlM_cons,hn]
    exact ih hsl' hs' hg.2

end

/-! ## The loop invariant -/

/-- The invariant of the colouring loop for a block with selected parent `t`. -/
structure LoopInv (cfg : GhostdagConfig) (stores : BlockStores) (t : DomainHash)
    (data : BlockGHOSTDAGData) : Prop where
  selectedParent : data.selectedParent = some t
  selectedParent_blue : t ∈ data.mergeSetBlues
  nodup : (blueList stores data).Nodup
  mem : ∀ x ∈ blueList stores data, x ∈ stores.hashes
  bounded : BoundedSizes cfg stores data (blueList stores data)
  blues_entry : ∀ x ∈ data.mergeSetBlues, data.bluesAnticoneSizes.get x ≠ none
  entry_exact : ∀ x size, data.bluesAnticoneSizes.get x = some size →
    x ∈ blueSet stores data ∧ size.toNat = stores.topology.anticoneSize (blueSet stores data) x
  untouched : ∀ x ∈ chainBlues stores (some t), data.bluesAnticoneSizes.get x = none →
    ∀ y ∈ data.mergeSetBlues, ¬stores.topology.Unrelated x y
  length_le : data.mergeSetBlues.length ≤ cfg.k.toNat+1

namespace LoopInv

section
variable (hinv : StoresInv cfg stores) (ht : t ∈ stores.hashes) (hne : t ≠ virtualGenesisBlockHash)
include hinv ht hne

/-- Sizes without an entry come from the selected parent and are still exact. -/
lemma size_exact (hlp : LoopInv cfg stores t data) (hx : x ∈ blueList stores data) {size : UInt8}
    (hsz : blueAnticoneSize cfg x stores data = .ok size) :
    size.toNat = stores.topology.anticoneSize (blueSet stores data) x := by
  cases hg : data.bluesAnticoneSizes.get x with
  | some _ =>
    rw [blueAnticoneSize_of_entry hg] at hsz
    cases hsz
    exact (hlp.entry_exact x size hg).2
  | none =>
    have hc : x ∈ chainBlues stores (some t) := by
      rw [blueList,hlp.selectedParent] at hx
      exact (mem_append.1 hx).resolve_left fun h => hlp.blues_entry x h hg
    obtain ⟨_,hs',-,heq⟩ := hinv.chain_size ht hne hc hlp.selectedParent hg
    rw [hsz] at hs'
    cases hs'
    rw [heq,Dag.anticoneSize]
    congr 1
    ext y
    simp only [Finset.mem_filter,blueSet,blueList,hlp.selectedParent,toFinset_append,
      Finset.mem_union,List.mem_toFinset]
    constructor
    · rintro ⟨hy,hun⟩
      exact ⟨.inr hy,hun⟩
    · rintro ⟨hy | hy,hun⟩
      · exact absurd hun (hlp.untouched x hc hg y hy)
      · exact ⟨hy,hun⟩

lemma init (hsel : data.selectedParent = some t) (hbl : data.mergeSetBlues = [t])
    (hss : data.bluesAnticoneSizes = (∅ : FinMap DomainHash UInt8).insert t 0) :
    LoopInv cfg stores t data := by
  have hls : blueList stores data = t :: chainBlues stores (some t) := by
    rw [blueList,hbl,hsel,singleton_append]
  have hg : ∀ x, data.bluesAnticoneSizes.get x = if x = t then some 0 else none := by
    intro x
    rw [hss,FinMap.get_insert,FinMap.get_empty]
  have hc : ∀ x ∈ chainBlues stores (some t), ¬stores.topology.Unrelated x t :=
    fun x hx hun => hun.1 (hinv.chainBlues_past ht hx).1
  refine ⟨hsel,by simp [hbl],?_,?_,?_,?_,?_,?_,?_⟩
  · rw [hls,nodup_cons]
    exact ⟨fun hx => (hinv.chainBlues_past ht hx).2 rfl,hinv.nodup_chainBlues ht hne⟩
  · rw [hls,forall_mem_cons]
    exact ⟨ht,fun x hx => (hinv.shaped.mem_of_isAncestorOf (hinv.chainBlues_past ht hx).1).1⟩
  · rw [hls]
    refine forall_mem_cons.2 ⟨?_,fun x hx => ?_⟩
    · exact ⟨0,blueAnticoneSize_of_entry (by simp [hg]),UInt8.zero_le⟩
    · have hxt := (hinv.chainBlues_past ht hx).2
      obtain ⟨size,hsz,hle,-⟩ := hinv.chain_size ht hne hx hsel (by simp [hg,hxt])
      exact ⟨size,hsz,hle⟩
  · simp [hbl,hg]
  · intro x size hx
    rw [hg,ite_none_right_eq_some] at hx
    obtain ⟨rfl,hsz⟩ := hx
    cases hsz
    refine ⟨by simp [blueSet,hls],?_⟩
    rw [Dag.anticoneSize,UInt8.toNat_zero,eq_comm,Finset.card_eq_zero, Finset.filter_eq_empty_iff]
    intro y hy hun
    rw [blueSet,hls,List.mem_toFinset,mem_cons] at hy
    rcases hy with rfl | hy
    · exact Dag.not_unrelated_self (by rwa [nodes_topology]) hun
    · exact hc y hy hun.symm
  · intro x hx _
    simpa [hbl] using hc x hx
  · simp [hbl]

end

section
variable (hlp : LoopInv cfg stores t data)
include hlp

/-- A blue that the check has not kept is in the past of the candidate. -/
lemma past_of_not_kept (he : check.Exact cfg stores data candidate (blueList stores data))
    (hx : x ∈ blueList stores data) (hkp : check.candidateBluesAnticoneSizes.get x = none) :
    stores.isAncestorOf x candidate := by
  obtain ⟨size,hs,-⟩ := hlp.bounded x hx
  by_contra hp
  have := (he.sizes_iff x size).2 ⟨hx,hp,hs⟩
  rw [hkp] at this
  cases this

variable (hnew : ∀ x ∈ blueList stores data, ¬stores.isAncestorOf candidate x)
include hnew

/-- The blues outside of the past of the candidate are its blue anticone. -/
lemma length_filter :
    ((blueList stores data).filter fun x => !stores.isAncestorOf x candidate).length =
      stores.topology.anticoneSize (blueSet stores data) candidate := by
  rw [← toFinset_card_of_nodup (hlp.nodup.filter _)]
  congr 1
  ext x
  simp only [blueSet,List.mem_toFinset,List.mem_filter,Finset.mem_filter,
    Bool.not_eq_true',and_congr_right_iff]
  intro hx
  constructor
  · intro hp
    exact ⟨hnew x hx,by simpa [Dag.Anc,isAncestorOf] using hp⟩
  · intro hu
    simpa [Dag.Anc,isAncestorOf] using hu.2

lemma candidate_exact (he : check.Exact cfg stores data candidate (blueList stores data)) :
    check.candidateAnticoneSize.toNat =
      stores.topology.anticoneSize (blueSet stores data) candidate := by
  rw [he.anticone_eq,hlp.length_filter hnew]

end

lemma addBlue (hinv : StoresInv cfg stores) (ht : t ∈ stores.hashes)
    (hne : t ≠ virtualGenesisBlockHash) (hlp : LoopInv cfg stores t data)
    (hc : candidate ∈ stores.hashes)
    (hnew : ∀ x ∈ blueList stores data, ¬stores.isAncestorOf candidate x) (hb : check.Bounded cfg)
    (hex : check.Exact cfg stores data candidate (blueList stores data))
    (hl : UInt8.ofNat data.mergeSetBlues.length ≠ cfg.k+1) :
    LoopInv cfg stores t (data.addBlue candidate check) := by
  have hn : candidate ∉ blueList stores data := fun h =>
    hnew candidate h (Dag.anc_refl (by rwa [nodes_topology]))
  have hst : blueSet stores (data.addBlue candidate check) =
      insert candidate (blueSet stores data) := by
    ext x
    simp [blueSet,mem_blueList_addBlue]
  have hn' : candidate ∉ blueSet stores data := by rwa [blueSet,List.mem_toFinset]
  refine ⟨hlp.selectedParent,mem_append_left _ hlp.selectedParent_blue,?_,?_,
    hlp.bounded.addBlue hb,?_,?_,?_,?_⟩
  · have hp : blueList stores (data.addBlue candidate check) =
        data.mergeSetBlues ++ candidate :: chainBlues stores data.selectedParent := by
      simp [blueList,BlockGHOSTDAGData.addBlue]
    rw [hp,perm_middle.nodup_iff,nodup_cons]
    exact ⟨hn,hlp.nodup⟩
  · intro x hx
    rcases mem_blueList_addBlue.1 hx with rfl | hx
    · exact hc
    · exact hlp.mem x hx
  · intro x hx hg
    rw [get_addBlue,or_eq_none_iff] at hg
    split at hg
    · simp at hg
    · next hne =>
      refine hlp.blues_entry x ?_ hg.2
      simpa [BlockGHOSTDAGData.addBlue,hne] using hx
  · intro x size hg
    rw [get_addBlue] at hg
    rw [hst,Finset.mem_insert,Dag.anticoneSize_insert hn']
    rcases or_eq_some_iff.1 hg with h | ⟨hkp,h⟩
    · -- a blue outside of the past of the candidate has one more blue in its anticone
      obtain ⟨old,ho,rfl⟩ := map_eq_some_iff.1 h
      obtain ⟨hx,hps,hs⟩ := (hex.sizes_iff x old).1 ho
      have hun : stores.topology.Unrelated x candidate := ⟨hps,hnew x hx⟩
      have hlt := UInt8.lt_iff_toNat_lt.1 (hb.sizes_lt x old ho)
      have hk' := cfg.k.toNat_lt
      refine ⟨.inr (mem_toFinset.2 hx),?_⟩
      rw [if_pos hun,← hlp.size_exact hinv ht hne hx hs,UInt8.toNat_add,
        UInt8.toNat_one,Nat.mod_eq_of_lt (by omega)]
    · split at h
      · next heq =>
        subst heq
        cases h
        refine ⟨.inl rfl,?_⟩
        rw [if_neg (Dag.not_unrelated_self (by rwa [nodes_topology]))]
        exact hlp.candidate_exact hnew hex
      · obtain ⟨hx,heq⟩ := hlp.entry_exact x size h
        have hps := hlp.past_of_not_kept hex (mem_toFinset.1 hx) (map_eq_none_iff.1 hkp)
        exact ⟨.inr hx,by rw [if_neg fun hun => hun.1 hps,heq,Nat.add_zero]⟩
  · intro x hx hg y hy
    rw [get_addBlue,or_eq_none_iff,map_eq_none_iff] at hg
    split at hg
    · simp at hg
    · rw [BlockGHOSTDAGData.addBlue,mem_append,mem_singleton] at hy
      rcases hy with hy | rfl
      · exact hlp.untouched x hx hg.2 y hy
      · have hx' : x ∈ blueList stores data := by
          rw [blueList,hlp.selectedParent]
          exact mem_append_right _ hx
        exact fun hun => hun.1 (hlp.past_of_not_kept hex hx' hg.1)
  · have hle := hlp.length_le
    have hl' : data.mergeSetBlues.length ≠ cfg.k.toNat+1 := by
      intro h
      refine hl (UInt8.toNat_inj.1 ?_)
      rw [h,UInt8.toNat_ofNat',UInt8.toNat_add,UInt8.toNat_one]
    rw [BlockGHOSTDAGData.addBlue,length_append,length_singleton]
    omega

/-- The scores and the reds do not matter. -/
lemma congr (hlp : LoopInv cfg stores t data) (hsel : data'.selectedParent = data.selectedParent)
    (hb : data'.mergeSetBlues = data.mergeSetBlues)
    (hss : data'.bluesAnticoneSizes = data.bluesAnticoneSizes) :
    LoopInv cfg stores t data' := by
  obtain ⟨_,_,_,_,_,_⟩ := data
  cases hsel
  cases hb
  cases hss
  refine ⟨hlp.selectedParent,hlp.selectedParent_blue,hlp.nodup,hlp.mem,fun x hx => ?_,
    hlp.blues_entry,hlp.entry_exact,hlp.untouched,hlp.length_le⟩
  obtain ⟨size,hs,hle⟩ := hlp.bounded x hx
  refine ⟨size,?_,hle⟩
  rw [← hs]
  exact blueAnticoneSize_congr rfl rfl

section
variable (hk : cfg.k < 255) (hinv : StoresInv cfg stores) (ht : t ∈ stores.hashes)
  (hne : t ≠ virtualGenesisBlockHash)
include hk hinv ht hne

/-- One round of the loop. -/
lemma colour (hlp : LoopInv cfg stores t data)
    (hc : candidate ∈ stores.hashes) (hg : stores.isAncestorOf cfg.genesisHash candidate)
    (hnew : ∀ x ∈ blueList stores data, ¬stores.isAncestorOf candidate x)
    (h : Eiyaro.colour cfg stores data candidate = .ok data') :
    LoopInv cfg stores t data' ∧
      ∀ x ∈ blueList stores data', x = candidate ∨ x ∈ blueList stores data := by
  obtain ⟨result,hr,hcs⟩ := checkBlueCandidate_spec hinv hg hlp.selectedParent ht hne hlp.bounded
  cases result with
  | none =>
    rw [colour_red hr] at h
    cases h
    exact ⟨hlp.congr rfl rfl rfl,fun x hx => .inr hx⟩
  | some _ =>
    rw [colour_blue hr] at h
    cases h
    obtain ⟨-,hn⟩ | ⟨hl,hb,he⟩ := hcs
    · cases hn
    · exact ⟨hlp.addBlue hinv ht hne hc hnew hb (he hk) hl,fun x hx => mem_blueList_addBlue.1 hx⟩

/-- The loop over a list of candidates of which none is an ancestor of an earlier one. -/
lemma foldlM_colour
    (hm : ∀ c ∈ candidates, c ∈ stores.hashes ∧ stores.isAncestorOf cfg.genesisHash c)
    (hsr : candidates.Pairwise fun a b => ¬stores.isAncestorOf b a)
    (hlp : LoopInv cfg stores t data)
    (hnew : ∀ c ∈ candidates, ∀ x ∈ blueList stores data, ¬stores.isAncestorOf c x)
    (h : candidates.foldlM (Eiyaro.colour cfg stores) data = .ok data') :
    LoopInv cfg stores t data' ∧
      ∀ x ∈ blueList stores data', x ∈ candidates ∨ x ∈ blueList stores data := by
  induction candidates generalizing data with
  | nil =>
    cases h
    exact ⟨hlp,fun x hx => .inr hx⟩
  | cons c candidates ih =>
    obtain ⟨next,hn,h⟩ := bind_eq_ok h
    rw [forall_mem_cons] at hm hnew
    rw [pairwise_cons] at hsr
    obtain ⟨hl',hb⟩ := hlp.colour hk hinv ht hne hm.1.1 hm.1.2 hnew.1 hn
    have hn' : ∀ d ∈ candidates, ∀ x ∈ blueList stores next, ¬stores.isAncestorOf d x := by
      intro d hd x hx
      rcases hb x hx with rfl | hx
      · exact hsr.1 d hd
      · exact hnew.2 d hd x hx
    obtain ⟨hr,hb'⟩ := ih hm.2 hsr.2 hl' hn' h
    refine ⟨hr,fun x hx => ?_⟩
    rcases hb' x hx with hx | hx
    · exact .inl (mem_cons_of_mem _ hx)
    · rcases hb x hx with rfl | hx
      · exact .inl mem_cons_self
      · exact .inr hx

end

lemma coloured (hinv : StoresInv cfg stores) (ht : t ∈ stores.hashes)
    (hne : t ≠ virtualGenesisBlockHash) (hlp : LoopInv cfg stores t data) :
    Coloured cfg stores data where
  nodup := hlp.nodup
  bounded := hlp.bounded
  entry_exact := hlp.entry_exact
  size_exact _ hx _ hs := hlp.size_exact hinv ht hne hx hs
  length_le := hlp.length_le

end LoopInv
end Eiyaro
