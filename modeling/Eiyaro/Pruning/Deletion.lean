import Eiyaro.Pruning.Update

/-!
# What the deletion of past blocks touches

The walk starts at the pruned tips and at the parents of the pruning point and goes down. None of
these has the pruning point in its past, and neither has a block below them.
-/

namespace Eiyaro
open List FinMap

namespace PruningManager
variable {M : Type}

/-- The blocks that leave the block store. -/
def deletedBodies (st st' : PrunableStores M) : Finset DomainHash :=
  st.blocks.keys \ st'.blocks.keys

lemma SameData.notMem_deletedBodies {hash : DomainHash} {st st' : PrunableStores M}
    (h : SameData hash st st') : hash ∉ deletedBodies st st' := by
  rw [deletedBodies,Finset.mem_sdiff,FinMap.mem_keys,FinMap.mem_keys,h.blocks]
  exact fun hh => hh.2 hh.1

/-- The deletion ends. It deletes no body of the pruning point, of its anticone in the past of the
virtual block, of a window of these or of a block in the future of the pruning point, and the tips
that remain are in that future or in the past of the virtual block. -/
theorem deletePastBlocks_keeps (pm : PruningManager M) (st : PrunableStores M)
    (pruningPoint : DomainHash) :
    ∃ st', pm.deletePastBlocks st pruningPoint = .ok st' ∧
      (∀ h ∈ deletedBodies st st', ¬pm.dag.Anc pruningPoint h ∧
        ∀ b, b = pruningPoint ∨ pm.isInVirtualPast b ∧ pm.dag.Unrelated b pruningPoint →
          h ≠ b ∧ h ∉ pm.blockWindow b) ∧
      (pm.isInVirtualPast pruningPoint → ∀ tip ∈ st'.tips,
        (pm.dag.Anc pruningPoint tip ∧ tip ≠ pruningPoint) ∨ pm.isInVirtualPast tip) := by
  obtain ⟨st',hr⟩ := pm.deletePastBlocks_ok st pruningPoint
  obtain ⟨blocksToKeep,hk,hpr⟩ := deletePastBlocks_prunes hr
  obtain ⟨_,hk',hm⟩ := pm.calculateBlocksToKeep_spec pruningPoint
  cases hk.symm.trans hk'
  refine ⟨st',hr,fun h hd => ?_,fun hp tip ht => ?_⟩
  · -- a block that lost its body was not kept
    have hb : ¬pm.dag.Anc pruningPoint h ∧ h ∉ blocksToKeep := by
      by_contra hn
      exact (hpr.sameData h fun hs => hn ⟨hs.1,hs.2.1⟩).notMem_deletedBodies hd
    refine ⟨hb.1,fun b hbk => ⟨?_,fun hw => hb.2 ((hm b hbk).2 h hw)⟩⟩
    rintro rfl
    exact hb.2 (hm h hbk).1
  · rw [hpr.tips] at ht
    obtain ha | hvr := (Bool.or_eq_true ..).mp (mem_filter.1 ht).2
    · by_cases heq : tip = pruningPoint
      · exact .inr (heq ▸ hp)
      · exact .inl ⟨ha,heq⟩
    · exact .inr hvr

/-! ## A pruning point with an anticone -/

def forkStores : PrunableStores Int :=
  { Consensus.genesisStores with
    tips := [4,5]
    blockStatus := (∅ : FinMap DomainHash BlockStatus).insertEntries
      ([0,1,2,3,4,5].map fun hash => (hash, .statusUTXOValid))
    blocks := (∅ : FinMap DomainHash DomainBlock).insertEntries
      ([0,1,2,3,4,5].map fun hash => (hash, sampleGenesisData.block))
    daaAddedBlocks := ∅ }

/-- Genesis and the tip outside of the past of virtual are deleted. -/
theorem deletePastBlocks_keeps_fork :
    ∃ st', (samplePruningManager Topology.forkTopology fun _ => none).deletePastBlocks forkStores 2 =
        .ok st' ∧ st'.tips = [4] ∧ 0 ∈ deletedBodies forkStores st' ∧
      5 ∈ deletedBodies forkStores st' ∧
      ∀ h ∈ deletedBodies forkStores st', ¬Topology.forkTopology.dag.Anc 2 h ∧ h ≠ 3 ∧ h ≠ 1 := by
  obtain ⟨st',hr,ht,h0,h5⟩ : ∃ st', (samplePruningManager Topology.forkTopology fun _ =>
      none).deletePastBlocks forkStores 2 = .ok st' ∧ st'.tips = [4] ∧
        0 ∈ deletedBodies forkStores st' ∧ 5 ∈ deletedBodies forkStores st' :=
    ⟨_,rfl,rfl,by decide,by decide⟩
  obtain ⟨_,hr',hd,-⟩ := deletePastBlocks_keeps
    (samplePruningManager Topology.forkTopology fun _ => none) forkStores 2
  cases hr.symm.trans hr'
  refine ⟨st',hr,ht,h0,h5,fun h hh => ?_⟩
  obtain ⟨ha,hb⟩ := hd h hh
  obtain ⟨h3,hw⟩ := hb 3 (.inr ⟨rfl,by decide⟩)
  exact ⟨ha,h3,fun h1 => hw (h1 ▸ by decide)⟩

end PruningManager
end Eiyaro
