import Eiyaro.Ghostdag.Candidate

/-!
# The blue sets are k-clusters

The invariant of the stored GHOSTDAG data. It is stated for a block relative to
the blocks that were stored before it, and kept by storing a block: the colouring
loop keeps the sizes that can be looked up exact and at most `k`.
-/

namespace Eiyaro
open List

/-! ## The invariant -/

/-- The data has exact blue anticone sizes, none of them larger than `k`. -/
structure Coloured (cfg : GhostdagConfig) (stores : BlockStores) (data : BlockGHOSTDAGData) :
    Prop where
  nodup : (blueList stores data).Nodup
  bounded : BoundedSizes cfg stores data (blueList stores data)
  entry_exact : ∀ x size, data.bluesAnticoneSizes.get x = some size →
    x ∈ blueSet stores data ∧ size.toNat = stores.topology.anticoneSize (blueSet stores data) x
  size_exact : ∀ x ∈ blueList stores data, ∀ size,
    blueAnticoneSize cfg x stores data = .ok size →
      size.toNat = stores.topology.anticoneSize (blueSet stores data) x
  length_le : data.mergeSetBlues.length ≤ cfg.k.toNat+1

/-- What holds of a stored block, relative to the blocks stored before it. -/
structure BlockInv (cfg : GhostdagConfig) (older : BlockStores) (block : StoredBlock) : Prop
    extends Shape older block where
  coloured : Coloured cfg older block.ghostdagData

inductive StoresInv (cfg : GhostdagConfig) : BlockStores → Prop
  | init : StoresInv cfg (initStores cfg)
  | cons {older : BlockStores} {block : StoredBlock} (holder : StoresInv cfg older)
      (hblock : BlockInv cfg older block) : StoresInv cfg (block :: older)

namespace StoresInv
variable {cfg : GhostdagConfig} {stores : BlockStores}

lemma shaped (hinv : StoresInv cfg stores) : Shaped cfg stores := by
  induction hinv with
  | init => exact .init
  | cons _ hb ih => exact .cons ih hb.toShape

/-- The blues of a chain are in the past of its highest block. -/
lemma chainBlues_past (hinv : StoresInv cfg stores) {t : DomainHash} (ht : t ∈ stores.hashes)
    {x : DomainHash} (hx : x ∈ chainBlues stores (some t)) :
    stores.isAncestorOf x t ∧ x ≠ t := by
  induction hinv generalizing t with
  | init =>
    simp only [initStores,chainBlues] at hx
    split at hx
    · simp at hx
    · split at hx <;> simp at hx
  | @cons older block ho hb ih =>
    have hinv := StoresInv.cons ho hb
    obtain ⟨sp,hsp,hsl⟩ := hb.exists_selectedParent
    have hs := hb.parents.mem sp hsp
    rw [chainBlues] at hx
    split at hx
    · next heq =>
      obtain rfl := Option.some.inj heq
      rw [hsl] at hx
      have hps : ∃ p ∈ block.parents, older.isAncestorOf x p := by
        rcases mem_append.1 hx with hx | hx
        · exact hb.blues_past x hx
        · exact ⟨sp,hsp,(ih hs hx).1⟩
      obtain ⟨p,hp,ha⟩ := hps
      refine ⟨BlockStores.isAncestorOf_of_parent hp ha,?_⟩
      rintro rfl
      exact hb.new (ho.shaped.mem_of_isAncestorOf ha).1
    · next hne =>
      have hne' : t ≠ block.hash := fun heq => hne (congrArg some heq)
      have ht' : t ∈ older.hashes := (mem_cons.1 ht).resolve_left hne'
      rw [hinv.shaped.isAncestorOf_cons ht']
      exact ih ht' hx

end StoresInv

/-! ## The walk along the chain -/

variable {cfg : GhostdagConfig} {stores l : BlockStores} {newBlockData : BlockGHOSTDAGData}
  {blueCandidate t : DomainHash} {check : CandidateCheck}

section
variable (hinv : StoresInv cfg stores) (hgen : stores.isAncestorOf cfg.genesisHash blueCandidate)
include hinv hgen

/-- The walk ends at genesis at the latest, which is in the past of every candidate. Where it stops,
the remaining blues are in the past of the candidate. -/
lemma checkBlueCandidateWithChain_spec (hl : StoresInv cfg l)
    (hs : l <:+ stores) (ht : t ∈ l.hashes) (hne : t ≠ virtualGenesisBlockHash)
    {visited : List DomainHash} (hsz : BoundedSizes cfg stores newBlockData (chainBlues l (some t)))
    (hch : Checked cfg stores newBlockData blueCandidate visited (some check)) :
    ∃ result, checkBlueCandidateWithChain cfg stores newBlockData blueCandidate l (some t) check =
        .ok result ∧
      Checked cfg stores newBlockData blueCandidate (visited ++ chainBlues l (some t)) result := by
  induction hl generalizing t check visited with
  | init =>
    have heq : t = cfg.genesisHash := by simpa [initStores,BlockStores.hashes,hne] using ht
    subst heq
    refine ⟨some check,?_,?_⟩
    · simp [initStores,checkBlueCandidateWithChain,hgen]
    · simpa [initStores,chainBlues] using hch
  | @cons older _ ho hb ih =>
    have hl := StoresInv.cons ho hb
    have hs' : older <:+ stores := (suffix_cons _ _).trans hs
    obtain ⟨sp,hsp,hsl⟩ := hb.exists_selectedParent
    rw [checkBlueCandidateWithChain]
    split
    · next heq =>
      split
      · next ha =>
        refine ⟨some check,rfl,hch.1,fun hk => (hch.2 hk).append_past fun x hx => ?_⟩
        obtain rfl := Option.some.inj heq
        refine hinv.shaped.wf.anc_trans ?_ ha
        have hp := (hl.chainBlues_past ht hx).1
        rwa [← hinv.shaped.isAncestorOf_suffix hs ht] at hp
      · rw [chainBlues,if_pos heq] at hsz ⊢
        obtain ⟨result,hr,hc⟩ := checkBlueCandidateWithBlues_spec
          (fun x hx => hsz x (mem_append_left _ hx)) hch
        rw [hr,← append_assoc]
        cases result with
        | none => exact ⟨none,rfl,fun hk => (hc hk).append _⟩
        | some next =>
          rw [hsl] at hsz ⊢
          exact ih hs' (hb.parents.mem sp hsp) (hb.parents.ne sp hsp)
            (fun x hx => hsz x (mem_append_right _ hx)) hc
    · next hn =>
      rw [chainBlues,if_neg hn] at hsz ⊢
      exact ih hs' ((mem_cons.1 ht).resolve_left fun heq => hn (congrArg some heq)) hne hsz hch

/-- The whole check of a candidate. After `k + 1` blues of the merge set nothing is checked. -/
lemma checkBlueCandidate_spec (hs : newBlockData.selectedParent = some t) (ht : t ∈ stores.hashes)
    (hne : t ≠ virtualGenesisBlockHash)
    (hsz : BoundedSizes cfg stores newBlockData (blueList stores newBlockData)) :
    ∃ result, checkBlueCandidate cfg stores newBlockData blueCandidate = .ok result ∧
      (UInt8.ofNat newBlockData.mergeSetBlues.length = cfg.k+1 ∧ result = none ∨
        UInt8.ofNat newBlockData.mergeSetBlues.length ≠ cfg.k+1 ∧
          Checked cfg stores newBlockData blueCandidate (blueList stores newBlockData) result) := by
  rw [checkBlueCandidate]
  split
  · next hl => exact ⟨none,rfl,.inl ⟨hl,rfl⟩⟩
  · next hl =>
    rw [blueList,hs] at hsz ⊢
    obtain ⟨result,hr,hch⟩ := checkBlueCandidateWithBlues_spec
      (fun x hx => hsz x (mem_append_left _ hx)) Checked.init
    rw [hr]
    cases result with
    | none => exact ⟨none,rfl,.inr ⟨hl,fun hk => (hch hk).append _⟩⟩
    | some _ =>
      obtain ⟨result,hr,hch⟩ := checkBlueCandidateWithChain_spec hinv hgen hinv
        (suffix_refl _) ht hne (fun x hx => hsz x (mem_append_right _ hx)) hch
      exact ⟨result,hr,.inr ⟨hl,hch⟩⟩

end
end Eiyaro
