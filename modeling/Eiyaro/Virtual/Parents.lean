import Eiyaro.Virtual.Candidates

/-!
# The parents of virtual

Parents with a bad red block in their past are removed at the end of `pickVirtualParents`. The
removal only takes parents away, so that what the loop over the candidates ensures still holds: the
parents can be those of a block, and GHOSTDAG selects the greatest of the valid blocks.
-/

namespace Eiyaro
open List VirtualStores BlockStores StoredBlock UInt64 NoPanic

/-! ## Selected parent chains -/

section
variable {stores : BlockStores} {hash : Option DomainHash} {x : StoredBlock}

lemma mem_of_mem_selectedParentChain (h : x ∈ selectedParentChain stores hash) : x ∈ stores := by
  induction stores generalizing hash with
  | nil => exact absurd h not_mem_nil
  | cons _ _ ih =>
    rw [selectedParentChain] at h
    split at h
    · obtain rfl | h := mem_cons.1 h
      · exact mem_cons_self
      · exact mem_cons_of_mem _ (ih h)
    · exact mem_cons_of_mem _ (ih h)

lemma selectedParentChain_cons_of_mem {next : StoredBlock}
    (hwf : (topology (next :: stores)).WF) (hx : x ∈ stores) :
    selectedParentChain (next :: stores) (some x.hash) =
      selectedParentChain stores (some x.hash) := by
  rw [selectedParentChain,if_neg]
  intro heq
  have hn := hwf.notMem
  rw [← topology,nodes_topology,← Option.some.inj heq] at hn
  exact hn (hash_mem hx)

lemma selectedParentChain_pairwise (hwf : stores.topology.WF) (hash : Option DomainHash) :
    (selectedParentChain stores hash).Pairwise fun a b =>
      b ∈ selectedParentChain stores (some a.hash) := by
  induction stores generalizing hash with
  | nil => exact List.Pairwise.nil
  | cons next older ih =>
    have ho : ∀ hash, (selectedParentChain older hash).Pairwise fun a b =>
        b ∈ selectedParentChain (next :: older) (some a.hash) := by
      intro hash
      refine (ih hwf.tail hash).imp_of_mem fun {a b} ha _ h => ?_
      rwa [selectedParentChain_cons_of_mem hwf (mem_of_mem_selectedParentChain ha)]
    rw [selectedParentChain]
    split
    · refine pairwise_cons.2 ⟨fun b hb => ?_,ho _⟩
      rw [selectedParentChain,if_pos rfl]
      exact mem_cons_of_mem _ hb
    · exact ho hash

end

variable {cfg : HeaderConfig} {stores : HeaderStores} {required required' depth : UInt64}
  {current root root' : DomainHash} {chain : List StoredBlock} {self self' : StoredBlock}
  {recorded : HeaderRecord → DomainHash} {staged staged' : StagedHeader}

lemma isInSelectedParentChainOf_iff {a b : DomainHash} :
    isInSelectedParentChainOf stores a b ↔
      ∃ x ∈ selectedParentChain stores.blocks (some b), x.hash = a := by
  rw [isInSelectedParentChainOf,decide_eq_true_iff,mem_map]

/-! ## The merge depth root -/

lemma climbToBlueScore_mem (h : climbToBlueScore required current (chain ++ [self]) = .ok root) :
    root ∈ current :: chain.map hash := by
  induction chain generalizing current with
  | nil =>
    rw [nil_append,climbToBlueScore] at h
    split at h
    · cases h
      exact mem_cons_self
    · cases h
  | cons _ chain ih =>
    rw [cons_append,climbToBlueScore] at h
    split at h
    · cases h
      exact mem_cons_self
    · exact mem_cons_of_mem _ (ih h)

/-- The part of a chain that goes upwards from a block on it, with a last block on top. -/
lemma exists_climb_of_ok (h : climbToBlueScore required current
      ((self :: chain).reverse.dropWhile (·.hash ≠ current)).tail = .ok root) :
    ∃ first rest, chain.reverse.dropWhile (·.hash ≠ current) = first :: rest ∧
      first.hash = current ∧
      ((self :: chain).reverse.dropWhile (·.hash ≠ current)).tail = rest ++ [self] := by
  rw [reverse_cons,dropWhile_append] at h ⊢
  cases hdr : chain.reverse.dropWhile _ with
  | nil =>
    -- then there is nothing left to climb
    have ht : ([self].dropWhile (·.hash ≠ current)).tail = [] := by
      rw [dropWhile_cons]
      split
      · rfl
      · rfl
    rw [hdr,isEmpty_nil,if_pos rfl,ht] at h
    cases h
  | cons first rest =>
    have hne : chain.reverse.dropWhile (fun b => decide (b.hash ≠ current)) ≠ [] := by
      rw [hdr]
      exact cons_ne_nil _ _
    have hh := head_dropWhile_not _ hne
    simp only [hdr,head_cons] at hh
    simpa using hh

/-- The point at some depth is on the selected parent chain, or at the very bottom. -/
lemma pointAtDepth_mem (h : pointAtDepth cfg stores depth recorded staged = .ok root) :
    root = cfg.ghostdag.genesisHash ∨ root = virtualGenesisBlockHash ∨
      root ∈ (selectedParentChain stores.blocks staged.ghostdagData.selectedParent).map
        hash := by
  rw [pointAtDepth] at h
  dsimp only at h
  split at h
  · cases h
    exact .inl rfl
  obtain ⟨_,_,h⟩ := bind_eq_ok h
  split at h
  · cases h
    exact .inr (.inl rfl)
  split at h
  · cases h
    exact .inr (.inl rfl)
  cases hs : staged.ghostdagData.selectedParent with
  | none =>
    rw [hs] at h
    cases h
  | some selectedParent =>
    rw [hs] at h
    dsimp only at h
    split at h
    · cases h
      exact .inl rfl
    · obtain ⟨_,-,h⟩ := bind_eq_ok h
      obtain ⟨_,_,hd,hfr,ht⟩ := exists_climb_of_ok h
      rw [ht] at h
      have hm := climbToBlueScore_mem h
      rw [← hfr,← map_cons,← hd] at hm
      obtain ⟨_,hb,rfl⟩ := mem_map.1 hm
      exact .inr (.inr (mem_map_of_mem (mem_reverse.1 ((dropWhile_sublist _).subset hb))))

/-! ## Removing parents -/

lemma removeParent_perm (parents : List DomainHash) (breakingParent : DomainHash) :
    (removeParent parents breakingParent).Perm (parents.erase breakingParent) := by
  rw [removeParent,erase_eq_eraseIdx]
  cases hid : parents.idxOf? breakingParent with
  | none => exact .refl _
  | some i =>
    have hlt : i < parents.length := by
      rw [idxOf?,findIdx?_eq_some_iff_getElem] at hid
      exact hid.1
    obtain rfl | ⟨init,last,rfl⟩ := parents.eq_nil_or_concat'
    · exact absurd hlt (Nat.not_lt_zero i)
    · rw [getLast?_concat]
      dsimp only
      rw [length_append,length_singleton] at hlt
      by_cases hi : i < init.length
      · rw [set_append_left i last hi,dropLast_concat,eraseIdx_append_of_lt_length hi]
        exact (set_perm_cons_eraseIdx hi last).trans (perm_append_singleton _ _).symm
      · obtain rfl : i = init.length := by omega
        rw [eraseIdx_append_of_length_le le_rfl]
        simp

lemma foldl_removeParent_perm (parents breakingParents : List DomainHash) :
    (breakingParents.foldl removeParent parents).Perm (parents.diff breakingParents) := by
  induction breakingParents generalizing parents with
  | nil => exact .refl _
  | cons breakingParent breakingParents ih =>
    rw [diff_cons]
    exact (ih _).trans ((removeParent_perm parents breakingParent).diff_right _)

/-! ## Panics -/

lemma NoPanic.climbToBlueScore (required : UInt64) (current : DomainHash)
    (chain : List StoredBlock) : NoPanic (climbToBlueScore required current chain) := by
  induction chain generalizing current with
  | nil => exact .error _
  | cons _ chain ih =>
    exact .ite (fun _ => .ok _) fun _ => ih _

lemma NoPanic.pointAtDepth {selectedParent : DomainHash}
    (hsc : staged.ghostdagData.selectedParent = some selectedParent) :
    NoPanic (pointAtDepth cfg stores depth recorded staged) := by
  rw [Eiyaro.pointAtDepth]
  dsimp only
  split
  · exact .ok _
  · refine (block _ _).bind fun _ => ?_
    split
    · exact .ok _
    · split
      · exact .ok _
      · rw [hsc]
        dsimp only
        split
        · exact .ok _
        · refine bind ?_ fun record => climbToBlueScore _ _ _
          rw [HeaderStores.record]
          split
          · exact .ok _
          · exact .error _

/-! ## The parents of virtual -/

/-- What the parents of virtual are meant to satisfy, as far as the bounded merge is not
concerned: they can be the parents of a block, and the one that GHOSTDAG selects is valid
and the greatest of the valid blocks that are not in its past. -/
structure VirtualParents (cfg : VirtualConfig) (stores : VirtualStores) (tips : List DomainHash)
    (selected : StoredBlock) (mergeSet : List StoredBlock) (parents : List DomainHash) :
    Prop where
  nodup : parents.Nodup
  checked : CheckedParents stores.blocks parents
  length_le : parents.length ≤ cfg.maxBlockParents.toNat
  merge : Merge stores.blocks parents selected mergeSet
  mergeSet_le : mergeSet.length+1 ≤ cfg.header.mergeSetSizeLimit.toNat
  valid : stores.blockStatus.get selected.hash = some .statusUTXOValid
  maximal : ∀ block ∈ stores.blocks, stores.blockStatus.get block.hash = some .statusUTXOValid →
    stores.CoveredBy tips block.hash → ¬stores.blocks.isAncestorOf block.hash selected.hash →
      block.key < selected.key

section
variable {cfg : VirtualConfig} {stores : VirtualStores} {tips accepted parents : List DomainHash}
  {selected : StoredBlock} {others mergeSet : List StoredBlock} {data data' : BlockGHOSTDAGData}

section
variable (hacc : Accepted cfg stores selected accepted)
include hacc

lemma Accepted.nodup : accepted.Nodup :=
  nodup_of_unrelated hacc.unrelated hacc.mem

variable (hst : Shaped cfg.header.ghostdag stores.blocks)
  (hsc : Selected stores tips selected others) (hsub : parents ⊆ accepted)
  (hfr : selected.hash ∈ parents)
include hst hsc hsub hfr in
/-- Some of the accepted parents, with the selected one among them. -/
lemma Accepted.checkedParents : CheckedParents stores.blocks parents := by
  have hs : Std.Symm stores.blocks.topology.Unrelated := ⟨fun _ _ h => h.symm⟩
  have hu : ∀ p ∈ parents, ∀ q ∈ parents, p ≠ q →
      stores.blocks.topology.Unrelated p q := fun p hp q hq hne =>
    hacc.unrelated.forall (hsub hp) (hsub hq) hne
  refine ⟨ne_nil_of_mem hfr,fun p hp => hacc.mem p (hsub hp),?_,
    fun p hp q hq hne => (hu p hp q hq hne).1⟩
  rintro p hp rfl
  have hm := hacc.mem _ hacc.first
  exact (hu _ hp _ hfr hsc.ne.symm).1 (hst.isAncestorOf_virtualGenesis hm hsc.ne)

include hsub in
/-- The merge set of some of the accepted parents fits into the limit. -/
lemma Accepted.mergeSet_le (hwf : stores.blocks.topology.WF) (hnd : parents.Nodup)
    (hmr : Merge stores.blocks parents selected mergeSet) :
    mergeSet.length+1 ≤ cfg.header.mergeSetSizeLimit.toNat := by
  have hd : (mergeSet.map hash ++ stores.blocks.hashes.filter
      fun x => stores.blocks.isAncestorOfAny x [selected.hash]).Nodup := by
    refine (hmr.nodup hnd).append ((hashes_nodup hwf).filter _) fun x hx hy => ?_
    have hps := (mem_filter.1 hy).2
    rw [isAncestorOfAny_iff] at hps
    obtain ⟨p,hp,hanc⟩ := hps
    rw [mem_singleton.1 hp] at hanc
    exact ((hmr.mem_iff x).1 hx).2 hanc
  have hps : (mergeSet.map hash ++ stores.blocks.hashes.filter
      fun x => stores.blocks.isAncestorOfAny x [selected.hash]) ⊆
      stores.blocks.hashes.filter fun x => stores.blocks.isAncestorOfAny x accepted := by
    intro x hx
    obtain hx | hx := mem_append.1 hx
    · obtain ⟨p,hp,hanc⟩ := ((hmr.mem_iff x).1 hx).1
      exact mem_filter.2 ⟨hmr.mem_hashes hx,isAncestorOfAny_iff.2 ⟨p,hsub hp,hanc⟩⟩
    · obtain ⟨hx,ha⟩ := mem_filter.1 hx
      obtain ⟨p,hp,hanc⟩ := isAncestorOfAny_iff.1 ha
      rw [mem_singleton.1 hp] at hanc
      exact mem_filter.2 ⟨hx,isAncestorOfAny_iff.2 ⟨_,hacc.first,hanc⟩⟩
  have hle := (hd.subperm hps).length_le
  have hl := hacc.pastSize_le
  rw [length_append,length_map,← countP_eq_length_filter,
    ← countP_eq_length_filter,← pastSize,← pastSize] at hle
  omega

include hst hsc hsub hfr in
lemma Accepted.merge : ∃ mergeSet, Merge stores.blocks parents selected mergeSet := by
  obtain ⟨found,mergeSet,hmr⟩ := (hacc.checkedParents hst hsc hsub hfr).exists_merge hst.wf
  have hm := hsc.mem selected mem_cons_self
  have hle := hmr.maximal selected hm hfr
  have hge := hacc.greatest found hmr.selected_mem (hsub hmr.selected_parent)
  have heq : found = selected := by
    by_contra hne
    exact key_ne_of_ne hst hmr.selected_mem hm hne (le_antisymm hge hle)
  subst heq
  exact ⟨mergeSet,hmr⟩

end

section
variable (hst : stores.Complete cfg) (hnd : tips.Nodup)
  (htips : ∀ tip ∈ tips, stores.IsTip tip)
include hst hnd htips

/-- The first part of the result: whatever is removed in the end, the rest can be the
parents of virtual. -/
lemma pickVirtualParents_spec : Safe (fun parents =>
    ∃ accepted data root selected others mergeSet, acceptParents cfg stores tips = .ok accepted ∧
      stores.Finds tips selected others ∧
      ghostdag cfg.header.ghostdag stores.blocks accepted = .ok data ∧
      virtualMergeDepthRoot cfg stores accepted data = .ok root ∧
      data.selectedParent = some selected.hash ∧
      (∀ x ∈ parents, stores.blocks.isAnyAncestorOf (badReds stores data root) x = false) ∧
      VirtualParents cfg stores tips selected mergeSet parents)
    (pickVirtualParents cfg stores tips) := by
  have hwf := hst.shaped.wf
  obtain ⟨hp,hs⟩ := acceptParents_spec hst hnd htips
  refine hp.safe_bind fun accepted ha => ?_
  obtain ⟨selected,others,hf,hacc⟩ := hs accepted ha
  have hsc := hf.toSelected hst hnd htips
  obtain ⟨_,hall⟩ := hacc.merge hst.shaped hsc (List.Subset.refl _) hacc.first
  refine NoPanic.safe_bind ((NoPanic.ghostdag _).bind_ok fun data hdt => NoPanic.bind
    (NoPanic.pointAtDepth (hall.mergedData hwf hdt).selectedParent) fun root => .ok _)
    fun _ hbr => ?_
  obtain ⟨data,hdt,root,hr,hbr⟩ := bind₂_eq_ok hbr
  cases hbr
  have hm := hall.mergedData hwf hdt
  -- what is left of the accepted parents
  have hpr := foldl_removeParent_perm accepted
    (accepted.filter (stores.blocks.isAnyAncestorOf (badReds stores data root)))
  generalize foldl removeParent accepted _ = parents at hpr ⊢
  have hnd' := hpr.nodup_iff.2 hacc.nodup.diff
  have hl := hpr.length_eq.trans_le (diff_sublist _ _).length_le
  have hmem := fun x => (hpr.mem_iff (a := x)).trans hacc.nodup.mem_sdiff_iff
  have hsub : parents ⊆ accepted := fun x hx => ((hmem x).1 hx).1
  have hfr : selected.hash ∈ parents := by
    refine (hmem _).2 ⟨hacc.first,fun hfl => ?_⟩
    -- a bad red block is not in the past of the selected parent
    obtain ⟨red,hrd,han⟩ := isAnyAncestorOf_iff.1 (mem_filter.1 hfl).2
    exact ((hall.mem_iff red).1 (hm.mem_mergeSet_of_red (mem_filter.1 hrd).1)).2 han
  obtain ⟨mergeSet,hmr⟩ := hacc.merge hst.shaped hsc hsub hfr
  refine .ok ⟨accepted,data,root,selected,others,mergeSet,ha,hf,hdt,hr,
    hm.selectedParent,fun x hx => ?_,hnd',
    hacc.checkedParents hst.shaped hsc hsub hfr,hl.trans hacc.length_le,hmr,
    hacc.mergeSet_le hsub hwf hnd' hmr,
    hsc.valid,hsc.maximal⟩
  have hn := (hmem x).1 hx
  rw [← Bool.not_eq_true]
  exact fun hb => hn.2 (mem_filter.2 ⟨hn.1,hb⟩)

end
end
end Eiyaro
