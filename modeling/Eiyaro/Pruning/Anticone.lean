import Eiyaro.Model.Block
import Eiyaro.Model.Failure
import Eiyaro.Util.Dag
import Eiyaro.Util.FinMap
import Eiyaro.Util.Walk

/-!
# The blocks that are kept below a pruning point

`AnticoneFromBlocks` goes down from the tips and turns back at the past of the block. The blocks
that it passes on the way and that do not have the block in their past are its anticone. The pruning
point, its anticone from the point of view of virtual and the windows of all of these are kept.
-/

namespace Eiyaro
open List FinMap

/-- The DAG that the topology and traversal managers are asked about. The windows can be any. -/
structure Topology where
  dag : Dag DomainHash
  wf : dag.WF
  virtualParents : List DomainHash
  virtualParents_stored : ∀ parent ∈ virtualParents, parent ∈ dag.nodes
  blockWindow : DomainHash → List DomainHash

namespace Topology
variable (t : Topology)

/-- The parents of all blocks, without the virtual genesis. -/
def parents : FinMap DomainHash (List DomainHash) :=
  (∅ : FinMap _ _).insertEntries t.dag

def parentsOf (hash : DomainHash) : List DomainHash :=
  (t.parents.get hash).getD []

def isInVirtualPast (block : DomainHash) : Bool :=
  t.virtualParents.any (t.dag.isAncestorOf block)

def isInPruningFutureOrInVirtualPast (block pruningPoint : DomainHash) : Bool :=
  t.dag.isAncestorOf pruningPoint block || t.isInVirtualPast block

section
variable (blockHash : DomainHash) (maxTraversalAllowed : UInt64)

/-- One round of the loop: whether the parents enter the queue, the traversal counter and the
anticone so far. Only blocks outside of the past of the block are counted. -/
def visitAnticone (current : DomainHash) (s : UInt64 × List DomainHash) :
    Except Failure (Bool × UInt64 × List DomainHash) :=
  if t.dag.isAncestorOf current blockHash then
    .ok (false, s)
  else
    let traversalCounter := s.1+1
    if maxTraversalAllowed > 0 ∧ traversalCounter > maxTraversalAllowed then
      .error (.error ("Passed max allowed traversal (" ++ toString traversalCounter ++ " > " ++
        toString maxTraversalAllowed ++
        "): Traversal searching for anticone passed the maxTraversalAllowed limit"))
    else
      .ok (true, traversalCounter,
        if t.dag.isAncestorOf blockHash current then s.2 else s.2 ++ [current])

def anticoneFromBlocks (tips : List DomainHash) : Except Failure (List DomainHash) := do
  let (_, anticone) ← walk t.parentsOf (t.visitAnticone blockHash maxTraversalAllowed)
    (.error "the queue never ends") (walk.enough t.parentsOf t.parents.keys tips) tips ∅ (0, [])
  return anticone

end

def anticoneFromVirtualPOV (blockHash : DomainHash) : Except Failure (List DomainHash) :=
  t.anticoneFromBlocks blockHash 0 t.virtualParents

def calculateBlocksToKeep (pruningPoint : DomainHash) : Except Failure (List DomainHash) := do
  let pruningPointAnticone ← t.anticoneFromVirtualPOV pruningPoint
  return (pruningPointAnticone ++ [pruningPoint]).flatMap fun b => b :: t.blockWindow b

variable {t} {parent hash block : DomainHash} {s : UInt64 × List DomainHash}

lemma parentsOf_eq_nil (h : hash ∉ t.parents.keys) : t.parentsOf hash = [] := by
  have hg : t.parents.get hash = none :=
    Option.not_isSome_iff_eq_none.1 fun hs => h ((t.parents.mem_keys _).2 hs)
  rw [parentsOf,hg]
  rfl

lemma mem_parentsOf : parent ∈ t.parentsOf hash ↔ t.dag.Link parent hash := by
  have hg : ∀ ps, t.parents.get hash = some ps ↔ (hash, ps) ∈ t.dag :=
    fun _ => get_insertEntries_empty t.wf.nodes_nodup
  rw [parentsOf]
  constructor
  · intro hm
    cases hp : t.parents.get hash with
    | none => simp [hp] at hm
    | some ps =>
      rw [hp] at hm
      exact ⟨ps,(hg ps).1 hp,hm⟩
  · rintro ⟨ps,hps,hm⟩
    rw [(hg ps).2 hps]
    exact hm

lemma anc_of_mem_parentsOf (hm : parent ∈ t.parentsOf hash) :
    t.dag.Anc parent hash ∧ parent ≠ hash := by
  refine ⟨t.wf.anc_of_link (mem_parentsOf.1 hm),?_⟩
  rintro rfl
  exact lt_irrefl _ (t.wf.weight_lt_of_link (mem_parentsOf.1 hm))

/-! ## The traversal finds the anticone -/

section
variable {maxTraversalAllowed : UInt64} {goesOn : Bool} {s' : UInt64 × List DomainHash}
  {visited : Finset DomainHash} {tips : List DomainHash}

/-- A round that does not pass the limit. -/
lemma visitAnticone_eq_ok
    (h : t.visitAnticone block maxTraversalAllowed hash s = .ok (goesOn, s')) :
    t.dag.Anc hash block ∧ s' = s ∨ ¬t.dag.Anc hash block ∧ goesOn = true ∧
      ¬(maxTraversalAllowed > 0 ∧ s.1+1 > maxTraversalAllowed) ∧
      s' = (s.1+1, if t.dag.isAncestorOf block hash then s.2 else s.2 ++ [hash]) := by
  rw [visitAnticone] at h
  split at h
  · next ha =>
    cases h
    exact .inl ⟨ha,rfl⟩
  · next ha =>
    obtain ⟨hl,h⟩ := of_ite_error h
    cases h
    exact .inr ⟨ha,rfl,hl,rfl⟩

/-- The visited blocks outside of the past of the block are counted. -/
def countedBlocks (t : Topology) (block : DomainHash) (visited : Finset DomainHash) :
    Finset DomainHash :=
  visited.filter fun b => ¬t.dag.Anc b block

lemma countedBlocks_insert (hn : hash ∉ visited) (ha : ¬t.dag.Anc hash block) :
    (t.countedBlocks block (insert hash visited)).card =
      (t.countedBlocks block visited).card+1 := by
  rw [countedBlocks,Finset.filter_insert,if_pos ha,Finset.card_insert_of_notMem]
  · rfl
  · exact fun hm => hn (Finset.mem_filter.1 hm).1

/-- The anticone so far has exactly the visited blocks that are unrelated to the block, and the
counter has not passed the limit. -/
structure Collects (t : Topology) (block : DomainHash) (maxTraversalAllowed : UInt64)
    (visited : Finset DomainHash) (s : UInt64 × List DomainHash) : Prop where
  mem_iff : ∀ b, b ∈ s.2 ↔ b ∈ visited ∧ t.dag.Unrelated b block
  nodup : s.2.Nodup
  count : s.1 = UInt64.ofNat (t.countedBlocks block visited).card
  le : maxTraversalAllowed > 0 → s.1 ≤ maxTraversalAllowed

lemma Collects.empty : t.Collects block maxTraversalAllowed ∅ (0, []) :=
  ⟨by simp,nodup_nil,rfl,fun _ => UInt64.zero_le⟩

lemma Collects.visit (h : t.Collects block maxTraversalAllowed visited s) (hn : hash ∉ visited)
    (hv : t.visitAnticone block maxTraversalAllowed hash s = .ok (goesOn, s')) :
    t.Collects block maxTraversalAllowed (insert hash visited) s' ∧
      (¬t.dag.Anc hash block → goesOn = true) := by
  obtain ⟨ha,rfl⟩ | ⟨ha,hg,hl,rfl⟩ := visitAnticone_eq_ok hv
  · refine ⟨⟨fun b => ?_,h.nodup,?_,h.le⟩,fun hn => absurd ha hn⟩
    · rw [h.mem_iff b,Finset.mem_insert]
      refine and_congr_left fun hu => ⟨.inr,?_⟩
      rintro (rfl | hm)
      · exact absurd ha hu.1
      · exact hm
    · rw [h.count,countedBlocks,countedBlocks,Finset.filter_insert,if_neg (not_not.2 ha)]
  -- outside the past of the block the visit is counted, and collected unless in the future
  · have hc : s.1+1 = UInt64.ofNat (t.countedBlocks block (insert hash visited)).card := by
      rw [countedBlocks_insert hn ha,h.count]
      exact (UInt64.ofNat_add _ 1).symm
    have hle : maxTraversalAllowed > 0 → s.1+1 ≤ maxTraversalAllowed :=
      fun hp => UInt64.not_lt.1 fun hlt => hl ⟨hp,hlt⟩
    refine ⟨⟨fun b => ?_,?_,hc,hle⟩,fun _ => hg⟩
    · rw [Finset.mem_insert]
      dsimp only
      split
      · next hb =>
        rw [h.mem_iff b]
        refine and_congr_left fun hu => ⟨.inr,?_⟩
        rintro (rfl | hm)
        · exact absurd hb hu.2
        · exact hm
      · next hb =>
        rw [mem_append,mem_singleton,h.mem_iff b,or_and_right,or_comm]
        refine or_congr_left ⟨?_,And.left⟩
        rintro rfl
        exact ⟨rfl,ha,hb⟩
    · dsimp only
      split
      · exact h.nodup
      · refine nodup_append.2 ⟨h.nodup,nodup_singleton _,fun b hb c hc => ?_⟩
        rintro rfl
        rw [mem_singleton.1 hc,h.mem_iff] at hb
        exact hn hb.1

/-- The tips and the blocks in their past. -/
def PastOf (t : Topology) (tips : List DomainHash) : Set DomainHash :=
  {b | ∃ tip ∈ tips, t.dag.Anc b tip}

lemma mem_pastOf_of_parent (hb : hash ∈ t.PastOf tips) (hp : parent ∈ t.parentsOf hash) :
    parent ∈ t.PastOf tips := by
  obtain ⟨tip,htip,ha⟩ := hb
  exact ⟨tip,htip,t.wf.anc_trans (anc_of_mem_parentsOf hp).1 ha⟩

/-- What the traversal has seen when it returns. -/
lemma anticone_of_walk (ht : ∀ tip ∈ tips, tip ∈ t.dag.nodes) {rounds : Nat} {stuck : Failure}
    (hw : walk t.parentsOf (t.visitAnticone block maxTraversalAllowed) stuck rounds tips ∅ (0, []) =
      .ok s) :
    ∃ seen, t.Collects block maxTraversalAllowed seen s ∧ (∀ b ∈ seen, b ∈ t.PastOf tips) ∧
      ∀ b ∈ t.PastOf tips, ¬t.dag.Anc b block → b ∈ seen := by
  obtain ⟨seen,⟨hc,hs⟩,-,hq,hg⟩ := walk.rule (G := fun b => ¬t.dag.Anc b block)
    (I := fun visited s => t.Collects block maxTraversalAllowed visited s ∧
      ∀ b ∈ visited, b ∈ t.PastOf tips)
    (fun _ hh _ hp => mem_pastOf_of_parent hh hp)
    (fun tip htip => ⟨tip,htip,Dag.anc_refl (ht tip htip)⟩)
    (fun h hh visited s _ _ hn hI hv => ⟨⟨(hI.1.visit hn hv).1,
      (Finset.forall_mem_insert ..).2 ⟨hh,hI.2⟩⟩,(hI.1.visit hn hv).2⟩)
    ⟨.empty,by simp⟩ hw
  refine ⟨seen,hc,hs,?_⟩
  rintro b ⟨tip,htip,ha⟩ hb
  -- no block on the way down from the tip is in the past of the block
  refine t.wf.anc_induction ha (hq tip htip) fun p c hl hap hcs => ?_
  refine hg c hcs (Finset.notMem_empty c) (fun hcb => hb ?_) p (mem_parentsOf.2 hl)
  exact t.wf.anc_trans (t.wf.anc_trans hap (t.wf.anc_of_link hl)) hcb

end

/-- Without a limit no round fails. -/
lemma visitAnticone_ok : ∃ r, t.visitAnticone block 0 hash s = .ok r := by
  rw [visitAnticone]
  split
  · exact ⟨_,rfl⟩
  · exact ⟨_,if_neg fun h => absurd h.1 (by decide)⟩

/-- The blocks in the past of the tips that are unrelated to the block. -/
lemma anticoneFromBlocks_spec {tips : List DomainHash} (ht : ∀ tip ∈ tips, tip ∈ t.dag.nodes)
    (block : DomainHash) : ∃ anticone, t.anticoneFromBlocks block 0 tips = .ok anticone ∧
      anticone.Nodup ∧ ∀ b, b ∈ anticone ↔ b ∈ t.PastOf tips ∧ t.dag.Unrelated b block := by
  obtain ⟨⟨n,anticone⟩,hw⟩ : ∃ r, walk t.parentsOf (t.visitAnticone block 0)
      (.error "the queue never ends") (walk.enough t.parentsOf t.parents.keys tips) tips ∅ (0, []) =
        .ok r := walk.ok (fun _ => parentsOf_eq_nil) fun _ _ => visitAnticone_ok
  obtain ⟨seen,hc,hs,ha⟩ := anticone_of_walk ht hw
  refine ⟨anticone,by rw [anticoneFromBlocks,hw]; rfl,hc.nodup,fun b => ?_⟩
  rw [hc.mem_iff b]
  exact and_congr_left fun hu => ⟨hs b,fun hb => ha b hb hu.1⟩

lemma isInVirtualPast_iff {b : DomainHash} :
    t.isInVirtualPast b ↔ b ∈ t.PastOf t.virtualParents :=
  any_eq_true

/-- The pruning point, its anticone in the past of virtual, and the windows of these. -/
lemma calculateBlocksToKeep_spec (t : Topology) (pruningPoint : DomainHash) :
    ∃ blocksToKeep, t.calculateBlocksToKeep pruningPoint = .ok blocksToKeep ∧
      ∀ b, b = pruningPoint ∨ t.isInVirtualPast b ∧ t.dag.Unrelated b pruningPoint →
        b ∈ blocksToKeep ∧ ∀ w ∈ t.blockWindow b, w ∈ blocksToKeep := by
  obtain ⟨anticone,ha,-,hm⟩ := anticoneFromBlocks_spec t.virtualParents_stored pruningPoint
  refine ⟨_,by rw [calculateBlocksToKeep,anticoneFromVirtualPOV,ha]; rfl,fun b hb => ?_⟩
  have hb' : b ∈ anticone ++ [pruningPoint] := by
    rw [mem_append,mem_singleton,hm b,← isInVirtualPast_iff]
    exact hb.symm
  exact ⟨mem_flatMap.2 ⟨b,hb',mem_cons_self⟩,
    fun w hw => mem_flatMap.2 ⟨b,hb',mem_cons_of_mem _ hw⟩⟩

/-! ## The limit of the traversal -/

section
variable {tips : List DomainHash}

/-- The tips and the blocks in their past that are outside of the past of the block. -/
def outsidePast (t : Topology) (tips : List DomainHash) (block : DomainHash) : Finset DomainHash :=
  t.dag.nodes.toFinset.filter fun b => (∃ tip ∈ tips, t.dag.Anc b tip) ∧ ¬t.dag.Anc b block

lemma mem_outsidePast {b : DomainHash} :
    b ∈ t.outsidePast tips block ↔ b ∈ t.PastOf tips ∧ ¬t.dag.Anc b block := by
  rw [outsidePast,Finset.mem_filter,mem_toFinset]
  refine and_iff_right_of_imp fun h => ?_
  obtain ⟨_,_,ha⟩ := h.1
  exact (t.wf.mem_of_anc ha).1

lemma card_outsidePast_lt (hsize : t.dag.length < 2^64) (tips : List DomainHash)
    (block : DomainHash) : (t.outsidePast tips block).card < 2^64 := by
  refine ((Finset.card_filter_le _ _).trans (toFinset_card_le _)).trans_lt ?_
  rwa [Dag.nodes,length_map]

lemma countedBlocks_subset {visited : Finset DomainHash} (h : ∀ b ∈ visited, b ∈ t.PastOf tips)
    (block : DomainHash) :
    t.countedBlocks block visited ⊆ t.outsidePast tips block := by
  intro b hb
  rw [countedBlocks,Finset.mem_filter] at hb
  exact mem_outsidePast.2 ⟨h b hb.1,hb.2⟩

/-- A round that fails has passed the limit. -/
lemma visitAnticone_eq_error {maxTraversalAllowed : UInt64} {failure : Failure}
    (h : t.visitAnticone block maxTraversalAllowed hash s = .error failure) :
    ¬t.dag.Anc hash block ∧ s.1+1 > maxTraversalAllowed := by
  rw [visitAnticone] at h
  split at h
  · cases h
  · next ha =>
    dsimp only at h
    split at h
    · next hl => exact ⟨ha,hl.2⟩
    · cases h

lemma anticoneFromBlocks_error_iff (hsize : t.dag.length < 2^64)
    (ht : ∀ tip ∈ tips, tip ∈ t.dag.nodes) {maxTraversalAllowed : UInt64}
    (hp : 0 < maxTraversalAllowed) :
    (∃ failure, t.anticoneFromBlocks block maxTraversalAllowed tips = .error failure) ↔
      maxTraversalAllowed.toNat < (t.outsidePast tips block).card := by
  have hlt := card_outsidePast_lt hsize tips block
  rw [anticoneFromBlocks]
  cases hw : walk t.parentsOf (t.visitAnticone block maxTraversalAllowed)
      (.error "the queue never ends") (walk.enough t.parentsOf t.parents.keys tips) tips ∅
      (0, []) with
  | ok s =>
    -- all blocks outside of the past of the block were counted
    obtain ⟨seen,hc,hs,ha⟩ := anticone_of_walk ht hw
    have heq : t.countedBlocks block seen = t.outsidePast tips block := by
      refine (countedBlocks_subset hs block).antisymm fun b hb => ?_
      obtain ⟨hb,hn⟩ := mem_outsidePast.1 hb
      exact Finset.mem_filter.2 ⟨ha b hb hn,hn⟩
    have hle := UInt64.le_iff_toNat_le.1 (hc.le hp)
    rw [hc.count,heq,UInt64.toNat_ofNat_of_lt' hlt] at hle
    refine ⟨?_,fun h => absurd h hle.not_gt⟩
    rintro ⟨_,h⟩
    cases h
  | error failure =>
    refine ⟨fun _ => ?_,fun _ => ⟨failure,rfl⟩⟩
    obtain ⟨b,hb,seen,s,hn,⟨hc,hs⟩,hv⟩ := walk.rule_error
      (I := fun visited s => t.Collects block maxTraversalAllowed visited s ∧
        ∀ b ∈ visited, b ∈ t.PastOf tips)
      (fun _ => parentsOf_eq_nil) (fun _ hh _ hp => mem_pastOf_of_parent hh hp)
      (fun tip htip => ⟨tip,htip,Dag.anc_refl (ht tip htip)⟩)
      (fun h hh visited s _ _ hn hI hv => ⟨(hI.1.visit hn hv).1,
        (Finset.forall_mem_insert ..).2 ⟨hh,hI.2⟩⟩)
      (by rw [Finset.sdiff_empty]; exact Nat.lt_succ_self _) ⟨.empty,by simp⟩ hw
    obtain ⟨ha,hgt⟩ := visitAnticone_eq_error hv
    have hle := Finset.card_le_card
      (countedBlocks_subset ((Finset.forall_mem_insert ..).2 ⟨hb,hs⟩) block)
    have hcount : s.1+1 = UInt64.ofNat (t.countedBlocks block (insert b seen)).card := by
      rw [countedBlocks_insert hn ha,hc.count]
      exact (UInt64.ofNat_add _ 1).symm
    have hgt := UInt64.lt_iff_toNat_lt.1 hgt
    rw [hcount,UInt64.toNat_ofNat_of_lt' (hle.trans_lt hlt)] at hgt
    exact hgt.trans_le hle

/-- Without a limit the traversal returns every block in the past of the tips that is unrelated to
the block, each once. With a limit it fails exactly if more blocks than that are outside of the past
of the block. -/
theorem anticoneFromBlocks_exact (t : Topology) (hsize : t.dag.length < 2^64)
    (tips : List DomainHash) (htips : ∀ tip ∈ tips, tip ∈ t.dag.nodes) (block : DomainHash) :
    (∃ anticone, t.anticoneFromBlocks block 0 tips = .ok anticone ∧ anticone.Nodup ∧
      ∀ b, b ∈ anticone ↔ (∃ tip ∈ tips, t.dag.Anc b tip) ∧ t.dag.Unrelated b block) ∧
    ∀ maxTraversalAllowed : UInt64, 0 < maxTraversalAllowed →
      ((∃ failure, t.anticoneFromBlocks block maxTraversalAllowed tips = .error failure) ↔
        maxTraversalAllowed.toNat < (t.outsidePast tips block).card) :=
  ⟨anticoneFromBlocks_spec htips block,
    fun _ hp => anticoneFromBlocks_error_iff hsize htips hp⟩

end

/-- Blocks 2 and 3 stand on block 1, block 4 on both of them. Block 5 stands on genesis and is not
in the past of virtual. -/
def forkTopology : Topology where
  dag := [(5, [0]),(4, [2,3]),(3, [1]),(2, [1]),(1, [0]),(0, [])]
  wf := by
    refine .cons ?_ ?_ (.cons ?_ ?_ (.cons ?_ ?_ (.cons ?_ ?_ (.cons ?_ ?_ (.cons ?_ ?_ .nil)))))
      <;> simp [Dag.nodes]
  virtualParents := [4]
  virtualParents_stored := by simp [Dag.nodes]
  blockWindow block := if block = 2 ∨ block = 3 then [1] else []

/-- Blocks 3 and 5 are the anticone of block 2, and with block 4 three blocks are counted. -/
theorem anticoneFromBlocks_exact_fork :
    (∃ anticone, forkTopology.anticoneFromBlocks 2 0 [4,5] = .ok anticone ∧ 3 ∈ anticone ∧
      5 ∈ anticone ∧ 4 ∉ anticone) ∧
    ∃ failure, forkTopology.anticoneFromBlocks 2 2 [4,5] = .error failure := by
  obtain ⟨⟨anticone,hr,-,hm⟩,hl⟩ := anticoneFromBlocks_exact forkTopology (by decide) [4,5]
    (by simp [forkTopology,Dag.nodes]) 2
  have hc : ({3,4,5} : Finset DomainHash) ⊆ forkTopology.outsidePast [4,5] 2 := by
    intro b hb
    rw [Finset.mem_insert,Finset.mem_insert,Finset.mem_singleton] at hb
    rcases hb with rfl | rfl | rfl
    · exact mem_outsidePast.2 ⟨⟨4,by simp,rfl⟩,by decide⟩
    · exact mem_outsidePast.2 ⟨⟨4,by simp,rfl⟩,by decide⟩
    · exact mem_outsidePast.2 ⟨⟨5,by simp,rfl⟩,by decide⟩
  refine ⟨⟨anticone,hr,(hm 3).2 ⟨⟨4,by simp,rfl⟩,by decide⟩,(hm 5).2 ⟨⟨5,by simp,rfl⟩,by decide⟩,
    fun h => absurd ((hm 4).1 h).2 (by decide)⟩,(hl 2 (by decide)).2 ?_⟩
  exact (show 2 < ({3,4,5} : Finset DomainHash).card by decide).trans_le (Finset.card_le_card hc)

end Topology
end Eiyaro
