import Eiyaro.Ghostdag.Defs

/-!
# GHOSTDAG does not panic

The stores may be any list of blocks: a block that is missing gives an error.
-/

namespace Eiyaro
open NoPanic
variable {cfg : GhostdagConfig} {stores : BlockStores}

lemma NoPanic.block (blocks : BlockStores) (hash : DomainHash) : NoPanic (blocks.block hash) := by
  rw [BlockStores.block]
  split
  · exact .ok _
  · exact .error _

lemma NoPanic.findSelectedParent (selectedParent : Option DomainHash)
    (parents : List DomainHash) : NoPanic (findSelectedParent stores selectedParent parents) := by
  induction parents generalizing selectedParent with
  | nil =>
    cases selectedParent with
    | none | some _ => exact .ok _
  | cons _ parents ih =>
    cases selectedParent with
    | none => exact ih _
    | some selectedParent =>
      refine bind ?_ fun _ => ih _
      exact (block _ _).bind fun _ => (block _ _).bind fun _ => .ok _

lemma NoPanic.searchMergeSet (selectedParent : DomainHash) (fuel : Nat)
    (search : MergeSetSearch) : NoPanic (searchMergeSet stores selectedParent fuel search) := by
  induction fuel generalizing search with
  | zero =>
    obtain ⟨queue,mergeSet,selectedParentPast⟩ := search
    cases queue with
    | nil => exact .ok _
    | cons current queue => exact .error _
  | succ fuel ih =>
    obtain ⟨queue,mergeSet,selectedParentPast⟩ := search
    cases queue with
    | nil => exact .ok _
    | cons current queue => exact (block _ _).bind fun _ => ih _

lemma NoPanic.blueAnticoneSize (block : DomainHash) (stores : BlockStores)
    (context : BlockGHOSTDAGData) : NoPanic (blueAnticoneSize cfg block stores context) := by
  induction stores generalizing context with
  | nil =>
    rw [Eiyaro.blueAnticoneSize]
    split
    · exact .ok _
    · split
      · exact .error _
      · exact .error _
  | cons _ _ ih =>
    rw [Eiyaro.blueAnticoneSize]
    split
    · exact .ok _
    · split
      · exact .error _
      · split
        · split
          · exact .error _
          · exact ih _
        · exact ih _

section
variable (data : BlockGHOSTDAGData) (candidate : DomainHash)
include data candidate

lemma NoPanic.checkBlueCandidateWithBlues (blues : List DomainHash) (check : CandidateCheck) :
    NoPanic (checkBlueCandidateWithBlues cfg stores data candidate blues check) := by
  induction blues generalizing check with
  | nil => exact .ok _
  | cons _ blues ih =>
    refine .ite (fun _ => ih check) fun _ => (blueAnticoneSize _ _ _).bind fun _ => ?_
    refine .ite (fun _ => .ok _) fun _ => .ite (fun _ => .ok _) fun _ => ?_
    exact .ite (fun _ => .error _) fun _ => ih _

lemma NoPanic.checkBlueCandidateWithChain
    (chain : BlockStores) (selectedParent : Option DomainHash) (check : CandidateCheck) :
    NoPanic (checkBlueCandidateWithChain cfg stores data candidate chain selectedParent check) := by
  induction chain generalizing selectedParent check with
  | nil => exact .error _
  | cons _ _ ih =>
    refine .ite (fun _ => .ite (fun _ => .ok _) fun _ => ?_) fun _ => ih _ _
    refine (checkBlueCandidateWithBlues _ _ _ _).bind fun result => ?_
    cases result with
    | none => exact .ok _
    | some check => exact ih _ _

lemma NoPanic.colour : NoPanic (colour cfg stores data candidate) := by
  have hc : NoPanic (checkBlueCandidate cfg stores data candidate) := by
    refine .ite (fun _ => .ok _) fun _ => ?_
    refine (checkBlueCandidateWithBlues _ _ _ _).bind fun result => ?_
    cases result with
    | none => exact .ok _
    | some _ => exact checkBlueCandidateWithChain _ _ _ _ _
  refine hc.bind fun result => ?_
  cases result with
  | none | some _ => exact .ok _

end

lemma NoPanic.bluesWork (blues : List DomainHash) : NoPanic (bluesWork stores blues) := by
  induction blues with
  | nil => exact .ok _
  | cons _ blues ih =>
    refine .ite (fun _ => ih) fun _ => ?_
    exact (block _ _).bind fun block => ih.bind fun _ => .ok _

lemma NoPanic.ghostdag (parents : List DomainHash) : NoPanic (ghostdag cfg stores parents) := by
  refine (findSelectedParent _ _).bind fun result => ?_
  cases result with
  | none => exact .ok _
  | some selectedParent =>
    have hm : NoPanic (mergeSetWithoutSelectedParent stores selectedParent parents) :=
      (searchMergeSet _ _ _).bind fun mergeSet =>
        (mapM fun hash _ => block _ hash).bind fun _ => .ok _
    refine hm.bind fun mergeSet => ?_
    refine (foldlM (fun data candidate _ => colour data candidate) _).bind ?_
    intro data
    exact (block _ _).bind fun _ => (bluesWork _).bind fun _ => .ok _

end Eiyaro
