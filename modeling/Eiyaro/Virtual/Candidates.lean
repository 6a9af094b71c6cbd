import Eiyaro.Virtual.Selection

/-!
# The other parents of virtual

A candidate is accepted if what it adds to the merge set fits into the limit. The search
of `mergeSetIncrease` counts this exactly. If it does not fit, an ancestor takes the
place of the candidate. The accepted parents and the remaining candidates are an antichain
throughout.
-/

namespace Eiyaro
open List BlockStores Bool
variable {cfg : VirtualConfig} {stores : VirtualStores} {blocks : BlockStores}
  {x candidate newCandidate : DomainHash} {selected : StoredBlock}
  {tips parents candidates done queue hashes : List DomainHash} {size : UInt64} {fuel : Nat}

/-- The number of blocks in the past of the given ones, which are included. -/
def BlockStores.pastSize (stores : BlockStores) (hashes : List DomainHash) : Nat :=
  stores.hashes.countP fun x => stores.isAncestorOfAny x hashes

/-! ## What a candidate adds -/

lemma BlockStores.isAncestorOfAny_iff :
    blocks.isAncestorOfAny x hashes ↔ ∃ y ∈ hashes, blocks.isAncestorOf x y :=
  any_eq_true

lemma BlockStores.isAnyAncestorOf_iff :
    blocks.isAnyAncestorOf hashes x ↔ ∃ y ∈ hashes, blocks.isAncestorOf y x :=
  any_eq_true

/-- The invariant of the search below a candidate. What is visited was processed or is in
the queue, and the parents of what was counted are visited. -/
structure IncreaseInv (stores : BlockStores) (parents : List DomainHash) (candidate : DomainHash)
    (done queue : List DomainHash) : Prop where
  nodup : (done ++ queue).Nodup
  below : ∀ x ∈ done ++ queue, stores.isAncestorOf x candidate ∧ x ≠ candidate
  closed : ∀ x, x = candidate ∨ x ∈ done ∧ stores.isAncestorOfAny x parents = false →
    ∀ p, stores.topology.Link p x → p ∈ done ++ queue

/-- What was counted besides the candidate. -/
def countedBelow (stores : BlockStores) (parents done : List DomainHash) : List DomainHash :=
  done.filter fun x => !stores.isAncestorOfAny x parents

lemma ne_of_isAncestorOf_parent (hwf : blocks.topology.WF) {p y : DomainHash}
    (hl : blocks.topology.Link p x) (hxy : blocks.isAncestorOf x y) :
    blocks.isAncestorOf p y ∧ p ≠ y := by
  have hpx := hwf.anc_of_link hl
  refine ⟨hwf.anc_trans hpx hxy,?_⟩
  rintro rfl
  have hlt := hwf.weight_lt_of_link hl
  rw [hwf.anc_antisymm hpx hxy] at hlt
  exact lt_irrefl _ hlt

/-- A processed block that is not in the past of the parents puts its own parents into the
queue. -/
lemma IncreaseInv.step (hwf : blocks.topology.WF) {new : List DomainHash}
    {current : StoredBlock} (hc : current ∈ blocks)
    (hinv : IncreaseInv blocks parents candidate done (current.hash :: queue)) (hnd : new.Nodup)
    (hnew : ∀ x ∈ new, x ∈ current.parents ∧ x ∉ done ++ current.hash :: queue)
    (hs : blocks.isAncestorOfAny current.hash parents = false →
      current.parents ⊆ (done ++ current.hash :: queue) ++ new) :
    IncreaseInv blocks parents candidate (done ++ [current.hash]) (queue ++ new) := by
  have hap : (done ++ [current.hash]) ++ (queue ++ new) =
      (done ++ current.hash :: queue) ++ new := by simp
  refine ⟨?_,?_,?_⟩
  · rw [hap]
    exact hinv.nodup.append hnd fun x hx hy => (hnew x hy).2 hx
  · rw [hap,forall_mem_append]
    refine ⟨hinv.below,fun x hx => ?_⟩
    exact ne_of_isAncestorOf_parent hwf (link_iff.2 ⟨current,hc,rfl,(hnew x hx).1⟩)
      (hinv.below current.hash (mem_append_right _ mem_cons_self)).1
  · intro x hx p hln
    rw [hap]
    obtain rfl | ⟨hdn,hn⟩ := hx
    · exact mem_append_left _ (hinv.closed x (.inl rfl) p hln)
    · obtain hdn | hdn := mem_append.1 hdn
      · exact mem_append_left _ (hinv.closed x (.inr ⟨hdn,hn⟩) p hln)
      · rw [mem_singleton] at hdn
        subst hdn
        exact hs hn (mem_parents_of_link hwf hc hln)

/-- When the queue is empty, the counted blocks are those that the candidate has in its
past and the parents have not. -/
lemma IncreaseInv.length_eq (hwf : blocks.topology.WF) (hcn : candidate ∈ blocks.hashes)
    (hps : blocks.isAncestorOfAny candidate parents = false)
    (hinv : IncreaseInv blocks parents candidate done []) :
    (countedBelow blocks parents done).length+1 =
      blocks.hashes.countP fun x =>
        blocks.isAncestorOf x candidate && !blocks.isAncestorOfAny x parents := by
  have hnd : (candidate :: countedBelow blocks parents done).Nodup := by
    refine nodup_cons.2 ⟨fun hm => ?_,?_⟩
    · have hdn := (mem_filter.1 hm).1
      exact (hinv.below candidate (by simpa using hdn)).2 rfl
    · have hdn := hinv.nodup
      rw [append_nil] at hdn
      exact hdn.filter _
  have hpr : (candidate :: countedBelow blocks parents done).Perm (blocks.hashes.filter fun x =>
      blocks.isAncestorOf x candidate && !blocks.isAncestorOfAny x parents) := by
    refine (perm_ext_iff_of_nodup hnd ((hashes_nodup hwf).filter _)).2 fun x => ?_
    rw [mem_cons,countedBelow,mem_filter,mem_filter]
    simp only [and_eq_true,not_eq_true']
    constructor
    · rintro (rfl | ⟨hdn,hn⟩)
      · exact ⟨hcn,Shaped.isAncestorOf_refl hcn,hps⟩
      · have hb := hinv.below x (by simpa using hdn)
        exact ⟨(mem_of_isAncestorOf hwf hb.1).1,hb.1,hn⟩
    · rintro ⟨-,ha,hn⟩
      -- nothing between the candidate and `x` is in the past of the parents
      have hup : ∀ y, blocks.isAncestorOf x y → blocks.isAncestorOfAny y parents = false := by
        intro y hxy
        rw [← not_eq_true,isAncestorOfAny_iff]
        rintro ⟨p,hp,hyp⟩
        rw [← not_eq_true,isAncestorOfAny_iff] at hn
        exact hn ⟨p,hp,hwf.anc_trans hxy hyp⟩
      have hor : x = candidate ∨ x ∈ done := by
        refine hwf.anc_induction (P := fun y => y = candidate ∨ y ∈ done) ha (.inl rfl) ?_
        intro p c hl hxp hc
        have hxc := hwf.anc_trans hxp (hwf.anc_of_link hl)
        have hv := hinv.closed c (hc.imp_right fun hdn => ⟨hdn,hup c hxc⟩) p hl
        exact .inr (by simpa using hv)
      exact hor.imp_right fun hdn => ⟨hdn,hn⟩
  rw [countP_eq_length_filter]
  exact hpr.length_eq

/-- What the search returns. -/
def IncreaseSpec (cfg : VirtualConfig) (blocks : BlockStores) (parents : List DomainHash)
    (candidate : DomainHash) (size : UInt64) : MergeSetIncrease → Prop
  | .canBeParent increase => size.toNat+increase.toNat ≤ cfg.header.mergeSetSizeLimit.toNat ∧
    increase.toNat = blocks.hashes.countP fun x =>
      blocks.isAncestorOf x candidate && !blocks.isAncestorOfAny x parents
  | .newCandidate newCandidate => blocks.isAncestorOf newCandidate candidate ∧
    newCandidate ≠ candidate ∧ blocks.isAncestorOfAny newCandidate parents = false

lemma searchIncrease_spec (hwf : stores.blocks.topology.WF) (hc : candidate ∈ stores.blocks.hashes)
    (hp : stores.blocks.isAncestorOfAny candidate parents = false) {increase : UInt64}
    (hinv : IncreaseInv stores.blocks parents candidate done queue)
    (hin : increase.toNat = (countedBelow stores.blocks parents done).length+1)
    (hsz : size.toNat+increase.toNat ≤ cfg.header.mergeSetSizeLimit.toNat)
    (hfl : stores.blocks.length ≤ fuel+done.length) :
    Safe (IncreaseSpec cfg stores.blocks parents candidate size)
      (searchIncrease cfg stores parents size fuel (queue, done ++ queue) increase) := by
  induction fuel generalizing done queue increase with
  | zero =>
    cases queue with
    | nil => exact .ok ⟨hsz,hin.trans (hinv.length_eq hwf hc hp)⟩
    | cons current queue =>
      -- every visited block is stored and visited once, which the fuel suffices for
      have hle := (hinv.nodup.subperm fun x hx =>
        (mem_of_isAncestorOf hwf (hinv.below x hx).1).1).length_le
      rw [length_append,length_cons,hashes,length_map] at hle
      omega
  | succ fuel ih =>
    cases queue with
    | nil => exact .ok ⟨hsz,hin.trans (hinv.length_eq hwf hc hp)⟩
    | cons current queue =>
      rw [searchIncrease]
      have hcur := hinv.below current (mem_append_right _ mem_cons_self)
      obtain ⟨block,hb,rfl,hg⟩ := exists_block hwf (mem_of_isAncestorOf hwf hcur.1).1
      by_cases ha : stores.blocks.isAncestorOfAny block.hash parents
      · rw [if_pos ha,append_cons,← append_nil queue]
        refine ih (hinv.step hwf hb nodup_nil (by simp) (by simp [ha])) ?_ hsz ?_
        · simpa [countedBelow,ha] using hin
        · rw [length_append,length_singleton]
          omega
      · rw [if_neg ha]
        rw [not_eq_true] at ha
        have hl := cfg.mergeSetSizeLimit_lt
        have hs : (increase+1).toNat = increase.toNat+1 := by
          rw [UInt64.toNat_add,UInt64.toNat_one]
          omega
        have hsm : (size+(increase+1)).toNat = size.toNat+(increase.toNat+1) := by
          rw [UInt64.toNat_add]
          omega
        by_cases hex : size+(increase+1) > cfg.header.mergeSetSizeLimit
        · rw [if_pos hex]
          exact .ok ⟨hcur.1,hcur.2,ha⟩
        · rw [if_neg hex]
          rw [gt_iff_lt,UInt64.lt_iff_toNat_lt,hsm,not_lt] at hex
          obtain ⟨new,heq,hnd,hnew,hsb⟩ := exists_foldl_enqueue block.parents queue _
          have hf : block.parents.foldl enqueueNew (queue, done ++ block.hash :: queue) =
              (queue ++ new, (done ++ [block.hash]) ++ (queue ++ new)) := heq.trans (by simp)
          rw [hg,ok_bind,hf]
          refine ih (hinv.step hwf hb hnd hnew fun _ => hsb) ?_ ?_ ?_
          · simpa [countedBelow,ha,hs] using hin
          · rw [hs]
            exact hex
          · rw [length_append,length_singleton]
            omega

lemma mergeSetIncrease_spec (hst : Shaped cfg.header.ghostdag stores.blocks)
    (hcn : candidate ∈ stores.blocks.hashes)
    (hp : stores.blocks.isAncestorOfAny candidate parents = false)
    (hs : size.toNat < cfg.header.mergeSetSizeLimit.toNat) :
    Safe (IncreaseSpec cfg stores.blocks parents candidate size)
      (mergeSetIncrease cfg stores candidate parents size) := by
  obtain ⟨block,hb,rfl,hg⟩ := exists_block hst.wf hcn
  have hi : IncreaseInv stores.blocks parents block.hash [] block.parents := by
    refine ⟨parents_nodup hst hb,fun x hx => ?_,fun x hx _ hl => ?_⟩
    · exact ne_of_isAncestorOf_parent hst.wf (link_iff.2 ⟨block,hb,rfl,hx⟩)
        (Shaped.isAncestorOf_refl hcn)
    · obtain rfl | ⟨hx,-⟩ := hx
      · exact mem_parents_of_link hst.wf hb hl
      · cases hx
  rw [mergeSetIncrease,hg]
  exact searchIncrease_spec hst.wf hcn hp hi rfl (by rw [UInt64.toNat_one]; omega) (by simp)

/-! ## Collecting the candidates -/

lemma swapSlice_perm {α : Type} {slice : List α} {i j : Nat} (hi : i < slice.length)
    (hj : j < slice.length) : ∃ swapped, swapSlice slice i j = .ok swapped ∧
      swapped.Perm slice := by
  refine ⟨_,?_,set_set_perm hi hj⟩
  rw [swapSlice,indexSlice_of_lt hi,indexSlice_of_lt hj]
  rfl

lemma prioritizeEnds_perm {maxParents : Nat} (h : maxParents < candidates.length) :
    ∃ ordered, prioritizeEnds maxParents candidates = .ok ordered ∧ ordered.Perm candidates := by
  have hl : ∀ (indices : List Nat) (current : List DomainHash), current.Perm candidates →
      (∀ i ∈ indices, i < maxParents) →
      ∃ ordered, indices.foldlM (fun candidates i => swapSlice candidates i
          (candidates.length - 1 - (i - maxParents / 2))) current = .ok ordered ∧
        ordered.Perm candidates := by
    intro indices
    induction indices with
    | nil => exact fun current hpr _ => ⟨current,rfl,hpr⟩
    | cons i indices ih =>
      intro current hpr hin
      rw [forall_mem_cons] at hin
      have hln := hpr.length_eq
      have hi : i < current.length := by omega
      have he : current.length - 1 - (i - maxParents / 2) < current.length := by omega
      obtain ⟨swapped,hsw,hs⟩ := swapSlice_perm hi he
      obtain ⟨ordered,hr,ho⟩ := ih swapped (hs.trans hpr) hin.2
      refine ⟨ordered,?_,ho⟩
      rw [foldlM_cons,hsw]
      exact hr
  refine hl _ candidates (.refl _) fun i hi => ?_
  rw [mem_range'_1] at hi
  omega

/-- The candidates are the greatest of the heap in some order. -/
lemma collectCandidates_perm (cfg : VirtualConfig) (heap : List StoredBlock) :
    ∃ n candidates, collectCandidates cfg heap = .ok candidates ∧
      candidates.Perm ((heap.take n).map StoredBlock.hash) := by
  have hp := cfg.maxBlockParents_pos
  refine ⟨cfg.maxBlockParents.toNat*3,?_⟩
  rw [collectCandidates]
  split
  · have hpr : (cfg.maxBlockParents - 1).toNat = cfg.maxBlockParents.toNat - 1 := by
      rw [UInt8.toNat_sub_of_le _ _ (by rw [UInt8.le_iff_toNat_le]; exact hp)]
      rfl
    exact prioritizeEnds_perm (by omega)
  · exact ⟨_,rfl,.refl _⟩

/-! ## Adding the candidates -/

/-- What holds of the accepted parents and the remaining candidates. -/
structure AddInv (cfg : VirtualConfig) (stores : VirtualStores) (selected : StoredBlock)
    (candidates parents : List DomainHash) (size : UInt64) : Prop where
  first : selected.hash ∈ parents
  mem : ∀ x ∈ parents ++ candidates, x ∈ stores.blocks.hashes
  unrelated : (parents ++ candidates).Pairwise stores.blocks.topology.Unrelated
  greatest : ∀ b ∈ stores.blocks, b.hash ∈ parents ++ candidates → b.key ≤ selected.key
  size_eq : size.toNat+stores.blocks.pastSize [selected.hash] = stores.blocks.pastSize parents+1
  size_le : size.toNat ≤ cfg.header.mergeSetSizeLimit.toNat
  length_le : parents.length ≤ cfg.maxBlockParents.toNat

/-- The parents of virtual before the bounded merge is looked at. -/
structure Accepted (cfg : VirtualConfig) (stores : VirtualStores) (selected : StoredBlock)
    (parents : List DomainHash) : Prop where
  first : selected.hash ∈ parents
  mem : ∀ x ∈ parents, x ∈ stores.blocks.hashes
  unrelated : parents.Pairwise stores.blocks.topology.Unrelated
  greatest : ∀ b ∈ stores.blocks, b.hash ∈ parents → b.key ≤ selected.key
  pastSize_le : stores.blocks.pastSize parents+1 ≤
    cfg.header.mergeSetSizeLimit.toNat+stores.blocks.pastSize [selected.hash]
  length_le : parents.length ≤ cfg.maxBlockParents.toNat

lemma nodup_of_unrelated (h : parents.Pairwise blocks.topology.Unrelated)
    (hm : ∀ x ∈ parents, x ∈ blocks.hashes) : parents.Nodup := by
  refine h.imp_of_mem fun {a b} ha _ h => ?_
  rintro rfl
  exact h.1 (Shaped.isAncestorOf_refl (hm a ha))

lemma AddInv.accepted (hinv : AddInv cfg stores selected candidates parents size) :
    Accepted cfg stores selected parents := by
  have hs := hinv.size_eq
  have hle := hinv.size_le
  refine ⟨hinv.first,fun x hx => hinv.mem x (mem_append_left _ hx),
    (pairwise_append.1 hinv.unrelated).1,
    fun b hb hx => hinv.greatest b hb (mem_append_left _ hx),by omega,hinv.length_le⟩

section
variable (blocks parents candidate)

lemma pastSize_append : blocks.pastSize (parents ++ [candidate]) = blocks.pastSize parents +
    blocks.hashes.countP fun x => blocks.isAncestorOf x candidate && !blocks.isAncestorOfAny x
    parents := by
  have hs : ∀ x, blocks.isAncestorOfAny x (parents ++ [candidate]) =
      (blocks.isAncestorOfAny x parents || blocks.isAncestorOf x candidate) := by
    simp [isAncestorOfAny]
  rw [pastSize,countP_eq_countP_filter_add _ _ (blocks.isAncestorOfAny · parents),
    countP_filter,countP_filter]
  congr 2 <;> funext x <;> cases h : blocks.isAncestorOfAny x parents <;> simp [hs,h]

end

section
variable (hinv : AddInv cfg stores selected (candidate :: candidates) parents size)
include hinv

/-- No accepted parent has the next candidate in its past. -/
lemma AddInv.not_past : stores.blocks.isAncestorOfAny candidate parents = false := by
  rw [← not_eq_true,isAncestorOfAny_iff]
  rintro ⟨p,hp,ha⟩
  exact ((pairwise_append.1 hinv.unrelated).2.2 p hp candidate mem_cons_self).2 ha

lemma AddInv.accept (hln : parents.length < cfg.maxBlockParents.toNat) {increase : UInt64}
    (hi : IncreaseSpec cfg stores.blocks parents candidate size (.canBeParent increase)) :
    AddInv cfg stores selected candidates (parents ++ [candidate]) (size+increase) := by
  obtain ⟨hle,_⟩ := hi
  have hap : (parents ++ [candidate]) ++ candidates = parents ++ candidate :: candidates := by
    simp
  have hl := cfg.mergeSetSizeLimit_lt
  have hs : (size+increase).toNat = size.toNat+increase.toNat := by
    rw [UInt64.toNat_add]
    omega
  have hsz := hinv.size_eq
  constructor
  case first => exact mem_append_left _ hinv.first
  case mem => rw [hap]; exact hinv.mem
  case unrelated => rw [hap]; exact hinv.unrelated
  case greatest => rw [hap]; exact hinv.greatest
  case size_eq =>
    rw [pastSize_append]
    omega
  case size_le => rw [hs]; exact hle
  case length_le =>
    rw [length_append,length_singleton]
    omega

end

lemma mem_replaceCandidate (hx : x ∈ replaceCandidate stores candidates newCandidate) :
    x ∈ candidates ∨ x = newCandidate := by
  rw [replaceCandidate] at hx
  split at hx
  · exact .inl hx
  · obtain hx | hx := mem_append.1 hx
    · exact .inl (mem_filter.1 hx).1
    · exact .inr (mem_singleton.1 hx)

section
variable (hst : Shaped cfg.header.ghostdag stores.blocks)
include hst

section
variable (hinv : AddInv cfg stores selected (candidate :: candidates) parents size)
  (hnew : IncreaseSpec cfg stores.blocks parents candidate size (.newCandidate newCandidate))
include hinv hnew

/-- A new candidate is unrelated to the parents and to the candidates that it leaves. -/
lemma AddInv.unrelated_replace :
    (parents ++ replaceCandidate stores candidates newCandidate).Pairwise
      stores.blocks.topology.Unrelated := by
  obtain ⟨hbl,-,hps⟩ := hnew
  obtain ⟨hpr,hcn,hb⟩ := pairwise_append.1 hinv.unrelated
  rw [pairwise_cons] at hcn
  have ho : (parents ++ candidates).Pairwise stores.blocks.topology.Unrelated :=
    pairwise_append.2 ⟨hpr,hcn.2,fun p hp c hc => hb p hp c (mem_cons_of_mem _ hc)⟩
  rw [replaceCandidate]
  split
  · exact ho
  · next hn =>
    rw [isAnyAncestorOf_iff] at hn
    rw [← append_assoc]
    refine pairwise_append.2 ⟨?_,pairwise_singleton _ _,?_⟩
    · exact ho.sublist (List.Sublist.append_left filter_sublist _)
    · intro x hx _ hy
      rw [mem_singleton.1 hy]
      obtain hx | hx := mem_append.1 hx
      · -- an accepted parent below the new candidate would be below the old one
        refine ⟨fun ha => ?_,fun ha => ?_⟩
        · exact (hb x hx candidate mem_cons_self).1 (hst.wf.anc_trans ha hbl)
        · rw [← not_eq_true,isAncestorOfAny_iff] at hps
          exact hps ⟨x,hx,ha⟩
      · obtain ⟨hx,hft⟩ := mem_filter.1 hx
        refine ⟨fun ha => hn ⟨x,hx,ha⟩,fun ha => ?_⟩
        rw [not_eq_true'] at hft
        exact absurd ha (by rw [isAncestorOf] at hft; simp [hft])

lemma AddInv.replace (hne : selected.hash ≠ virtualGenesisBlockHash) :
    AddInv cfg stores selected (replaceCandidate stores candidates newCandidate) parents size := by
  have hu := hinv.unrelated_replace hst hnew
  obtain ⟨hbl,-,hp⟩ := hnew
  have hs := hst.mem_of_isAncestorOf hbl
  refine ⟨hinv.first,fun x hx => ?_,hu,fun b hb hx => ?_,hinv.size_eq,hinv.size_le,hinv.length_le⟩
  · obtain hx | hx := mem_append.1 hx
    · exact hinv.mem x (mem_append_left _ hx)
    · obtain hx | rfl := mem_replaceCandidate hx
      · exact hinv.mem x (mem_append_right _ (mem_cons_of_mem _ hx))
      · exact hs.1
  · obtain hx | hx := mem_append.1 hx
    · exact hinv.greatest b hb (mem_append_left _ hx)
    · obtain hx | rfl := mem_replaceCandidate hx
      · exact hinv.greatest b hb (mem_append_right _ (mem_cons_of_mem _ hx))
      · -- a new candidate is smaller than the one whose place it takes
        obtain ⟨cblock,hc,rfl⟩ := mem_hashes.1 hs.2
        have hsl : ¬stores.blocks.isAncestorOf b.hash selected.hash := by
          intro han
          rw [← not_eq_true,isAncestorOfAny_iff] at hp
          exact hp ⟨_,hinv.first,han⟩
        have ha := hst.ne_of_not_isAncestorOf (hinv.mem _ (mem_append_left _ hinv.first)) hne hsl
        exact (hst.key_le hb hc hbl ha.1 ha.2).trans
          (hinv.greatest cblock hc (mem_append_right _ mem_cons_self))

end

/-- The candidates get lighter when one of them is replaced. -/
lemma sum_weight_replace (candidates : List DomainHash)
    (hb : stores.blocks.isAncestorOf newCandidate candidate) (hne : newCandidate ≠ candidate) :
    ((replaceCandidate stores candidates newCandidate).map stores.blocks.topology.weight).sum <
      ((candidate :: candidates).map stores.blocks.topology.weight).sum := by
  have hlt := hst.wf.weight_lt_of_anc hb hne
  rw [replaceCandidate,map_cons,sum_cons]
  split
  · omega
  · have hle : ((removeHashesInFutureOf stores candidates newCandidate).map
        stores.blocks.topology.weight).sum ≤
        (candidates.map stores.blocks.topology.weight).sum :=
      (filter_sublist.map _).sum_le_sum fun _ _ => Nat.zero_le _
    rw [map_append,sum_append,map_singleton,sum_singleton]
    omega

lemma addCandidates_spec (hne : selected.hash ≠ virtualGenesisBlockHash)
    (hinv : AddInv cfg stores selected candidates parents size)
    (hf : (candidates.map stores.blocks.topology.weight).sum ≤ fuel) :
    Safe (Accepted cfg stores selected)
      (addCandidates cfg stores fuel candidates parents size) := by
  induction fuel generalizing candidates parents size with
  | zero =>
    cases candidates with
    | nil => exact .ok hinv.accepted
    | cons candidate candidates =>
      have hm := hinv.mem candidate (mem_append_right _ mem_cons_self)
      rw [← nodes_topology] at hm
      have hps := Dag.weight_pos hm
      rw [map_cons,sum_cons] at hf
      omega
  | succ fuel ih =>
    cases candidates with
    | nil => exact .ok hinv.accepted
    | cons candidate candidates =>
      rw [addCandidates]
      by_cases hmr : size < cfg.header.mergeSetSizeLimit ∧
          parents.length < cfg.maxBlockParents.toNat
      · rw [if_pos hmr]
        have hm := hinv.mem candidate (mem_append_right _ mem_cons_self)
        obtain ⟨hp,hs⟩ := mergeSetIncrease_spec hst hm hinv.not_past
          (UInt64.lt_iff_toNat_lt.1 hmr.1)
        refine hp.safe_bind fun result hr => ?_
        have hr := hs result hr
        cases result with
        | canBeParent _ =>
          have hps : 0 < stores.blocks.topology.weight candidate :=
            Dag.weight_pos (by rwa [nodes_topology])
          refine ih (hinv.accept hmr.2 hr) ?_
          rw [map_cons,sum_cons] at hf
          omega
        | newCandidate newCandidate =>
          refine ih (hinv.replace hst hr hne) ?_
          have hlt := sum_weight_replace hst candidates hr.1 hr.2.1
          omega
      · rw [if_neg hmr]
        exact .ok hinv.accepted

end

/-! ## The accepted parents -/

lemma AddInv.init (hst : Shaped cfg.header.ghostdag stores.blocks)
    {others : List StoredBlock} (hsel : Selected stores tips selected others) {n : Nat}
    (hp : candidates.Perm ((others.take n).map StoredBlock.hash)) :
    AddInv cfg stores selected candidates [selected.hash] 1 := by
  have hs : ∀ x ∈ candidates, ∃ b ∈ others, b.hash = x := by
    intro x hx
    obtain ⟨b,hb,rfl⟩ := mem_map.1 (hp.mem_iff.1 hx)
    exact ⟨b,mem_of_mem_take hb,rfl⟩
  have hm : ∀ x ∈ [selected.hash] ++ candidates, ∃ b ∈ selected :: others, b.hash = x := by
    intro x hx
    obtain rfl | hx := mem_cons.1 hx
    · exact ⟨selected,mem_cons_self,rfl⟩
    · obtain ⟨b,hb,rfl⟩ := hs x hx
      exact ⟨b,mem_cons_of_mem _ hb,rfl⟩
  obtain ⟨hf,ho⟩ := pairwise_cons.1 hsel.unrelated
  constructor
  case first => exact mem_singleton_self _
  case mem =>
    intro x hx
    obtain ⟨b,hb,rfl⟩ := hm x hx
    exact hash_mem (hsel.mem b hb)
  case unrelated =>
    refine pairwise_cons.2 ⟨fun x hx => ?_,?_⟩
    · obtain ⟨b,hb,rfl⟩ := hs x hx
      exact hf b hb
    · refine (hp.pairwise_iff fun h => h.symm).2 (pairwise_map.2 ?_)
      exact ho.sublist (take_sublist _ _)
  case greatest =>
    intro b hb hx
    obtain ⟨b',hb',heq⟩ := hm _ hx
    obtain rfl := eq_of_hash_eq hst.wf (hsel.mem b' hb') hb heq
    obtain rfl | hb' := mem_cons.1 hb'
    · exact le_rfl
    · exact (hsel.greatest b' hb').le
  case size_eq => exact Nat.add_comm _ _
  case size_le => exact cfg.mergeSetSizeLimit_pos
  case length_le => exact cfg.maxBlockParents_pos

lemma sum_weight_candidates (hinv : AddInv cfg stores selected candidates [selected.hash] 1) :
    (candidates.map stores.blocks.topology.weight).sum ≤ 2^stores.blocks.length := by
  have hnd := nodup_of_unrelated hinv.unrelated hinv.mem
  have hlt := Dag.sum_weight_lt (d := stores.blocks.topology) hnd.of_append_right
  rw [topology,length_map] at hlt
  exact hlt.le

/-- The parents that are accepted for virtual. -/
lemma acceptParents_spec (hst : stores.Complete cfg) (hnd : tips.Nodup)
    (ht : ∀ tip ∈ tips, stores.IsTip tip) :
    Safe (fun parents => ∃ selected others, stores.Finds tips selected others ∧
      Accepted cfg stores selected parents) (acceptParents cfg stores tips) := by
  refine (NoPanic.foldlM (fun _ _ _ => NoPanic.pushHash _ _) _).safe_bind fun heap hh => ?_
  refine (selectVirtualSelectedParent_spec hst (SelectInv.init hst hnd ht hh)
    (Nat.le_add_right _ _)).1.safe_bind fun (selected, others) hs => ?_
  have hf : stores.Finds tips selected others := ⟨heap,hh,hs⟩
  have hsl := hf.toSelected hst hnd ht
  obtain ⟨_,candidates,hc,hp⟩ := collectCandidates_perm cfg others
  have hinv : AddInv cfg stores selected candidates [selected.hash] 1 :=
    AddInv.init hst.shaped hsl hp
  dsimp only
  rw [hc]
  have ha := addCandidates_spec hst.shaped hsl.ne hinv (sum_weight_candidates hinv)
  exact ⟨ha.1,fun parents h => ⟨selected,others,hf,ha.2 parents h⟩⟩

end Eiyaro
