import Eiyaro.Ghostdag.Shape

/-!
# Checking a blue candidate

The blue set of a block, and what `checkBlueCandidate` computes from it: the
blues outside of the past of the candidate, with their blue anticone sizes. The
check ends without an error as long as the sizes it looks up are at most `k`.
-/

namespace Eiyaro
open List
variable {x : DomainHash}

/-- The blues of a chain block and of its selected parent chain. -/
def chainBlues : BlockStores → Option DomainHash → List DomainHash
  | [], _ => []
  | next :: older, selectedParent =>
    if selectedParent = some next.hash then
      next.ghostdagData.mergeSetBlues ++ chainBlues older next.ghostdagData.selectedParent
    else
      chainBlues older selectedParent

/-- The blue set of a block: its merge set blues and the blues of its selected
parent chain. -/
def blueList (stores : BlockStores) (data : BlockGHOSTDAGData) : List DomainHash :=
  data.mergeSetBlues ++ chainBlues stores data.selectedParent

def blueSet (stores : BlockStores) (data : BlockGHOSTDAGData) : Finset DomainHash :=
  (blueList stores data).toFinset

/-! ## Walking down the chain -/

variable {cfg : GhostdagConfig} {newer older : BlockStores} {next : StoredBlock}
  {context : BlockGHOSTDAGData} {stores : BlockStores}

lemma chainBlues_found (hn : next.hash ∉ newer.hashes) :
    chainBlues (newer ++ next :: older) (some next.hash) =
      next.ghostdagData.mergeSetBlues ++ chainBlues older next.ghostdagData.selectedParent := by
  induction newer with
  | nil => simp [chainBlues]
  | cons _ newer ih =>
    rw [BlockStores.hashes_cons,mem_cons,not_or] at hn
    rw [cons_append,chainBlues,if_neg (by simpa using hn.1),ih hn.2]

/-- The walk of `blueAnticoneSize` reaches the data of the selected parent. -/
lemma blueAnticoneSize_found (hn : context.bluesAnticoneSizes.get x = none)
    (hs : context.selectedParent = some next.hash) (hg : next.hash ≠ cfg.genesisHash)
    (hnx : next.ghostdagData.selectedParent ≠ some virtualGenesisBlockHash)
    (hnew : next.hash ∉ newer.hashes) :
    blueAnticoneSize cfg x (newer ++ next :: older) context =
      blueAnticoneSize cfg x older next.ghostdagData := by
  induction newer with
  | nil =>
    conv_lhs => unfold blueAnticoneSize
    simp [hn,hs,hg,hnx]
  | cons _ newer ih =>
    rw [BlockStores.hashes_cons,mem_cons,not_or] at hnew
    conv_lhs => unfold blueAnticoneSize
    simpa [hn,hs,hg,hnew.1] using ih hnew.2

lemma blueAnticoneSize_of_entry {size : UInt8} (h : context.bluesAnticoneSizes.get x = some size) :
    blueAnticoneSize cfg x stores context = .ok size := by
  unfold blueAnticoneSize
  simp [h]

/-- Only the entry for the block and the selected parent matter. -/
lemma blueAnticoneSize_congr {context' : BlockGHOSTDAGData}
    (he : context.bluesAnticoneSizes.get x = context'.bluesAnticoneSizes.get x)
    (hs : context.selectedParent = context'.selectedParent) :
    blueAnticoneSize cfg x stores context = blueAnticoneSize cfg x stores context' := by
  induction stores with
  | nil =>
    unfold blueAnticoneSize
    simp [he,hs]
  | cons _ _ ih =>
    unfold blueAnticoneSize
    simp [he,hs,ih]

/-! ## The candidate check -/

section
variable (cfg : GhostdagConfig) (stores : BlockStores) (newBlockData : BlockGHOSTDAGData)
  (blueCandidate : DomainHash)

/-- No number that the check has written down exceeds `k`. -/
structure CandidateCheck.Bounded (check : CandidateCheck) : Prop where
  anticone_le : check.candidateAnticoneSize ≤ cfg.k
  sizes_lt : ∀ x size, check.candidateBluesAnticoneSizes.get x = some size → size < cfg.k

/-- The check has visited the blues `visited` and kept what is not in the past of
the candidate. -/
structure CandidateCheck.Exact (visited : List DomainHash) (check : CandidateCheck) : Prop where
  sizes_iff : ∀ x size, check.candidateBluesAnticoneSizes.get x = some size ↔
    x ∈ visited ∧ ¬stores.isAncestorOf x blueCandidate ∧
      blueAnticoneSize cfg x stores newBlockData = .ok size
  anticone_eq : check.candidateAnticoneSize.toNat =
    (visited.filter fun x => !stores.isAncestorOf x blueCandidate).length

/-- The sizes of the blues can be looked up and are at most `k`. -/
def BoundedSizes (blues : List DomainHash) : Prop :=
  ∀ x ∈ blues, ∃ size, blueAnticoneSize cfg x stores newBlockData = .ok size ∧ size ≤ cfg.k

/-- Too many of the blues are outside of the past of the candidate, or one of these has `k` blues in
its own anticone. -/
def Rejected (visited : List DomainHash) : Prop :=
  cfg.k.toNat < (visited.filter fun x => !stores.isAncestorOf x blueCandidate).length ∨
    ∃ x ∈ visited, ¬stores.isAncestorOf x blueCandidate ∧
      blueAnticoneSize cfg x stores newBlockData = .ok cfg.k

/-- What the check says on the blues `visited`. The count of the candidate can wrap around if `k` is
the greatest number. -/
def Checked (visited : List DomainHash) : Option CandidateCheck → Prop
  | some check => check.Bounded cfg ∧
    (cfg.k < 255 → check.Exact cfg stores newBlockData blueCandidate visited)
  | none => cfg.k < 255 → Rejected cfg stores newBlockData blueCandidate visited

variable {cfg stores newBlockData blueCandidate} {check : CandidateCheck}
  {visited blues : List DomainHash}

/-- Blues in the past of the candidate change nothing. -/
lemma CandidateCheck.Exact.append_past
    (hc : check.Exact cfg stores newBlockData blueCandidate visited)
    (hp : ∀ x ∈ blues, stores.isAncestorOf x blueCandidate) :
    check.Exact cfg stores newBlockData blueCandidate (visited ++ blues) := by
  refine ⟨?_,?_⟩
  · intro x _
    rw [hc.sizes_iff,mem_append]
    constructor
    · rintro ⟨hx,hrs⟩
      exact ⟨.inl hx,hrs⟩
    · rintro ⟨hx | hx,hrs⟩
      · exact ⟨hx,hrs⟩
      · exact absurd (hp x hx) hrs.1
  · have hn : (blues.filter fun x => !stores.isAncestorOf x blueCandidate) = [] := by
      rw [filter_eq_nil_iff]
      intro x hx
      simp [hp x hx]
    rw [filter_append,hn,append_nil]
    exact hc.anticone_eq

lemma Rejected.append (h : Rejected cfg stores newBlockData blueCandidate visited)
    (blues : List DomainHash) :
    Rejected cfg stores newBlockData blueCandidate (visited ++ blues) := by
  obtain hlt | ⟨x,hx,hr⟩ := h
  · refine .inl (hlt.trans_le ?_)
    rw [filter_append,length_append]
    exact Nat.le_add_right _ _
  · exact .inr ⟨x,mem_append_left _ hx,hr⟩

lemma Checked.init : Checked cfg stores newBlockData blueCandidate [] (some ⟨∅,0⟩) :=
  ⟨⟨UInt8.zero_le,by simp⟩,fun _ => ⟨by simp,by simp⟩⟩

lemma checkBlueCandidateWithBlues_spec (hsz : BoundedSizes cfg stores newBlockData blues)
    (hc : Checked cfg stores newBlockData blueCandidate visited (some check)) :
    ∃ result, checkBlueCandidateWithBlues cfg stores newBlockData blueCandidate blues check =
        .ok result ∧
      Checked cfg stores newBlockData blueCandidate (visited ++ blues) result := by
  induction blues generalizing check visited with
  | nil => exact ⟨some check,rfl,by simpa using hc⟩
  | cons block blues ih =>
    obtain ⟨⟨size,hsi,hle⟩,hsz⟩ := forall_mem_cons.1 hsz
    obtain ⟨hb,hex⟩ := hc
    rw [checkBlueCandidateWithBlues,append_cons]
    split
    · next hanc =>
      exact ih hsz ⟨hb,fun hk => (hex hk).append_past (by simpa using hanc)⟩
    · next hanc =>
      -- the count of the candidate with this block
      have hcn : cfg.k < 255 → (check.candidateAnticoneSize+1).toNat =
          ((visited ++ [block]).filter fun x => !stores.isAncestorOf x blueCandidate).length := by
        intro hk
        have h₁ := UInt8.le_iff_toNat_le.1 hb.anticone_le
        have h₂ := UInt8.lt_iff_toNat_lt.1 hk
        have h₃ : (255 : UInt8).toNat = 255 := rfl
        have hn : check.candidateAnticoneSize.toNat+1 < 256 := by omega
        simp [filter_append,hanc,← (hex hk).anticone_eq,UInt8.toNat_add,hn]
      rw [hsi,ok_bind]
      dsimp only
      split
      · next hgt =>
        refine ⟨none,rfl,fun hk => Rejected.append (.inl ?_) blues⟩
        rw [← hcn hk]
        exact UInt8.lt_iff_toNat_lt.1 hgt
      · next ha =>
        split
        · next heq =>
          exact ⟨none,rfl,fun _ => Rejected.append
            (.inr ⟨block,by simp,hanc,by rw [hsi,heq]⟩) blues⟩
        · next hne =>
          have hlt : size < cfg.k := UInt8.lt_of_le_of_ne hle hne
          rw [if_neg (UInt8.not_lt.2 hle)]
          refine ih hsz ⟨⟨UInt8.not_lt.1 ha,?_⟩,fun hk => ⟨?_,hcn hk⟩⟩
          · intro x size' hg
            rw [FinMap.get_insert] at hg
            split at hg
            · cases hg
              exact hlt
            · exact hb.sizes_lt x size' hg
          · intro x size'
            rw [FinMap.get_insert]
            by_cases hx : x = block
            · subst hx
              simp [hanc,hsi]
            · rw [if_neg hx,(hex hk).sizes_iff x size']
              simp [hx]

end
end Eiyaro
