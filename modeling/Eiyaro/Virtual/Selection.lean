import Eiyaro.Ghostdag.Failures
import Eiyaro.Header.BlockWindow
import Eiyaro.Virtual.Pick

/-!
# The selected parent of virtual

The search goes down from the tips. A block is looked at once all of its children with
a body were rejected, so what is in the heap is an antichain at all times, and it covers
every block that was not rejected.
-/

namespace Eiyaro
open List BlockStores StoredBlock NoPanic
variable {cfg : VirtualConfig} {stores : VirtualStores} {x y parent : DomainHash}
  {block b candidate selected : StoredBlock} {heap others : List StoredBlock}
  {tips rejected pushed done : List DomainHash} {counts : FinMap DomainHash UInt32}
  {search search' : ParentSearch} {α : Type}

namespace VirtualStores

def HasBody (stores : VirtualStores) (hash : DomainHash) : Prop :=
  stores.blockStatus.get hash ≠ some .statusHeaderOnly

instance (stores : VirtualStores) (hash : DomainHash) : Decidable (stores.HasBody hash) :=
  inferInstanceAs (Decidable (_ ≠ _))

/-- A tip of the DAG of the blocks with a body. -/
@[mk_iff]
structure IsTip (stores : VirtualStores) (hash : DomainHash) : Prop where
  mem : hash ∈ stores.blocks.hashes
  hasBody : stores.HasBody hash
  childless : ∀ child ∈ stores.blocks, hash ∈ child.parents → ¬stores.HasBody child.hash

/-- The stores of a node that has not pruned: the body of a block is only added after the
bodies of its parents, and genesis is valid. The children of a block are counted in 32
bits. -/
structure Complete (cfg : VirtualConfig) (stores : VirtualStores) : Prop where
  shaped : Shaped cfg.header.ghostdag stores.blocks
  genesis : stores.blockStatus.get cfg.header.ghostdag.genesisHash = some .statusUTXOValid
  bodies : ∀ block ∈ stores.blocks, stores.HasBody block.hash →
    ∀ parent ∈ block.parents, stores.HasBody parent
  children_lt : ∀ block ∈ stores.blocks, (stores.blocks.children block.hash).length < 2^32

end VirtualStores

open VirtualStores

/-! ## The DAG above a block -/

lemma BlockStores.mem_children {stores : BlockStores} {hash : DomainHash} {child : StoredBlock} :
    child ∈ stores.children hash ↔ child ∈ stores ∧ hash ∈ child.parents := by
  simp [children]

section
variable (hst : Shaped cfg.header.ghostdag stores.blocks) (hblk : block ∈ stores.blocks)
include hst hblk

lemma parent_mem (hp : parent ∈ block.parents) : parent ∈ stores.blocks.hashes := by
  rw [← nodes_topology]
  exact (hst.wf.mem_of_link (link_iff.2 ⟨block,hblk,rfl,hp⟩)).1

lemma isAncestorOf_parent (hp : parent ∈ block.parents) :
    stores.blocks.isAncestorOf parent block.hash :=
  hst.wf.anc_of_link (link_iff.2 ⟨block,hblk,rfl,hp⟩)

lemma parents_nodup : block.parents.Nodup := by
  obtain hi | ⟨_,_,-,hs,-⟩ := hst.init_or_split hblk
  · obtain rfl | rfl := mem_initStores.1 hi
    · exact nodup_singleton _
    · exact nodup_nil
  · exact hs.nodup

/-- No parent of a stored block is an ancestor of another one. -/
lemma parents_antichain {p q : DomainHash}
    (hp : p ∈ block.parents) (hq : q ∈ block.parents) (h : stores.blocks.isAncestorOf p q) :
    p = q := by
  obtain hi | ⟨newer,older,heq,hs,-⟩ := hst.init_or_split hblk
  · obtain rfl | rfl := mem_initStores.1 hi
    · rw [mem_singleton.1 hp,mem_singleton.1 hq]
    · cases hp
  · have hsf : older <:+ stores.blocks := ⟨newer ++ [block],by simp [heq]⟩
    rw [hst.isAncestorOf_suffix hsf (hs.parents.mem q hq)] at h
    by_contra hne
    exact hs.parents.antichain p hp q hq hne h

end

lemma hasBody_of_isAncestorOf (hst : stores.Complete cfg)
    (h : stores.blocks.isAncestorOf x y) (hy : stores.HasBody y) : stores.HasBody x := by
  refine hst.shaped.wf.anc_induction h hy ?_
  intro p _ hl _ hc
  obtain ⟨block,hblk,rfl,hp⟩ := link_iff.1 hl
  exact hst.bodies block hblk hc p hp

/-! ## Maximal blocks -/

variable {blocks : BlockStores} {P Q : DomainHash → Prop}

/-- A block with the property `P` that has no child with it. -/
def IsMaximal (blocks : BlockStores) (P : DomainHash → Prop) (x : DomainHash) : Prop :=
  x ∈ blocks.hashes ∧ P x ∧ ∀ child ∈ blocks, x ∈ child.parents → ¬P child.hash

/-- A new block without the property changes nothing. -/
lemma isMaximal_cons (ho : ∀ x ∈ blocks.hashes, Q x ↔ P x) (hn : ¬Q block.hash) :
    IsMaximal (block :: blocks) Q x ↔ IsMaximal blocks P x := by
  have hcl : (∀ child ∈ blocks, x ∈ child.parents → ¬Q child.hash) ↔
      ∀ child ∈ blocks, x ∈ child.parents → ¬P child.hash :=
    forall₂_congr fun child hcl => by rw [ho _ (hash_mem hcl)]
  rw [IsMaximal,forall_mem_cons,hcl]
  constructor
  · rintro ⟨hm,hx,-,hch⟩
    obtain rfl | hm := mem_cons.1 hm
    · exact absurd hx hn
    · exact ⟨hm,(ho x hm).1 hx,hch⟩
  · rintro ⟨hm,hx,hch⟩
    exact ⟨mem_cons_of_mem _ hm,(ho x hm).2 hx,fun _ => hn,hch⟩

/-- A childless block that gets the property is maximal, and its parents are no longer. -/
lemma isMaximal_insert (hst : blocks.topology.WF) (hblk : block ∈ blocks)
    (hn : ∀ y, Q y ↔ y = block.hash ∨ P y)
    (hl : ∀ child ∈ blocks, block.hash ∈ child.parents → ¬P child.hash) :
    IsMaximal blocks Q x ↔ x = block.hash ∨ IsMaximal blocks P x ∧ x ∉ block.parents := by
  have hc : (∀ child ∈ blocks, x ∈ child.parents → ¬Q child.hash) ↔
      x ∉ block.parents ∧ ∀ child ∈ blocks, x ∈ child.parents → ¬P child.hash := by
    grind [eq_of_hash_eq]
  rw [IsMaximal,hc,hn]
  constructor
  · rintro ⟨hm,rfl | hx,hp,hch⟩
    · exact .inl rfl
    · exact .inr ⟨⟨hm,hx,hch⟩,hp⟩
  · rintro (rfl | ⟨⟨hm,hx,hch⟩,hp⟩)
    · refine ⟨hash_mem hblk,.inl rfl,fun hs => ?_,hl⟩
      exact lt_irrefl _ (hst.weight_lt_of_link (link_iff.2 ⟨block,hblk,rfl,hs⟩))
    · exact ⟨hm,.inr hx,hp,hch⟩

/-- Every block with a body has a tip above it. -/
lemma exists_tip (hst : stores.Complete cfg)
    (hx : x ∈ stores.blocks.hashes) (hb : stores.HasBody x) :
    ∃ tip, stores.IsTip tip ∧ stores.blocks.isAncestorOf x tip := by
  let above := stores.blocks.hashes.toFinset.filter fun y =>
    stores.blocks.isAncestorOf x y ∧ stores.HasBody y
  have hab : ∀ y, y ∈ above ↔ y ∈ stores.blocks.hashes ∧
      stores.blocks.isAncestorOf x y ∧ stores.HasBody y := by
    intro y
    rw [Finset.mem_filter,mem_toFinset]
  -- the heaviest block above `x` has no child with a body
  obtain ⟨tip,htp,hm⟩ := above.exists_max_image stores.blocks.topology.weight
    ⟨x,(hab x).2 ⟨hx,Shaped.isAncestorOf_refl hx,hb⟩⟩
  obtain ⟨hmm,ha,ht⟩ := (hab tip).1 htp
  refine ⟨tip,⟨hmm,ht,?_⟩,ha⟩
  intro child hch hp hc
  have hl := link_iff.2 ⟨child,hch,rfl,hp⟩
  have hlt : stores.blocks.topology.weight tip < stores.blocks.topology.weight child.hash :=
    hst.shaped.wf.weight_lt_of_link hl
  have hle := hm child.hash ((hab _).2 ⟨hash_mem hch,
    hst.shaped.wf.anc_trans ha (hst.shaped.wf.anc_of_link hl),hc⟩)
  omega

/-! ## Counting children -/

lemma of_countP_le {p q : α → Bool} {l : List α} (hpq : ∀ a, p a → q a)
    (h : l.countP q ≤ l.countP p) : ∀ a ∈ l, q a → p a := by
  rw [countP_eq_length_filter,countP_eq_length_filter] at h
  have heq := (monotone_filter_right l hpq).eq_of_length_le h
  intro a ha hq
  exact (mem_filter.1 (heq ▸ mem_filter.2 ⟨ha,hq⟩)).2

lemma foldlM_countRelevantChild {children : List StoredBlock} {count count' : UInt32}
    (h : children.foldlM (countRelevantChild stores) count = .ok count') :
    count' = count+UInt32.ofNat (children.countP fun child => stores.HasBody child.hash) := by
  refine foldlM_rec h (by simp) fun child children count next hnx _ ih => ?_
  obtain ⟨_,hs,hnx⟩ := bind_eq_ok hnx
  have hg := fromStore_eq_ok.1 hs
  rw [ih,countP_cons]
  split at hnx
  · next hh =>
    cases hnx
    have hbd : ¬stores.HasBody child.hash := by simp [HasBody,hg,hh]
    simp [hbd]
  · next hh =>
    cases hnx
    have hbd : stores.HasBody child.hash := by simp [HasBody,hg,hh]
    rw [if_pos (decide_eq_true hbd),UInt32.ofNat_add,UInt32.add_assoc,UInt32.add_comm 1]
    rfl

lemma getRelevantChildCount_toNat (hst : stores.Complete cfg)
    (hp : parent ∈ stores.blocks.hashes) {count : UInt32}
    (h : getRelevantChildCount stores parent = .ok count) :
    count.toNat = (stores.blocks.children parent).countP fun child =>
      stores.HasBody child.hash := by
  obtain ⟨block,hblk,rfl⟩ := mem_hashes.1 hp
  have hlt := hst.children_lt block hblk
  have hle := countP_le_length (p := fun child => decide (stores.HasBody child.hash))
    (l := stores.blocks.children block.hash)
  rw [foldlM_countRelevantChild h,UInt32.zero_add]
  exact UInt32.toNat_ofNat_of_lt' (by rw [UInt32.size]; omega)

/-- One more rejected block counts for each of its parents. -/
lemma countP_rejected_cons (hst : Shaped cfg.header.ghostdag stores.blocks)
    (hc : candidate ∈ stores.blocks) (hn : candidate.hash ∉ rejected) (x : DomainHash) :
    ((stores.blocks.children x).countP fun child => child.hash ∈ candidate.hash :: rejected) =
      ((stores.blocks.children x).countP fun child => child.hash ∈ rejected) +
        if x ∈ candidate.parents then 1 else 0 := by
  have hs : ∀ children : List StoredBlock,
      (children.countP fun child => child.hash ∈ candidate.hash :: rejected) =
        (children.countP fun child => child.hash ∈ rejected) +
          (children.map hash).count candidate.hash := by
    intro children
    induction children with
    | nil => rfl
    | cons child children ih =>
      rw [countP_cons,countP_cons,ih]
      by_cases heq : child.hash = candidate.hash
      · simp [heq,hn,Nat.add_assoc]
      · simp [heq,Nat.add_right_comm]
  rw [hs]
  congr 1
  split
  · next hx =>
    refine count_eq_one_of_mem ((hashes_nodup hst.wf).sublist (filter_sublist.map _)) ?_
    exact mem_map_of_mem (mem_children.2 ⟨hc,hx⟩)
  · next hx =>
    rw [count_eq_zero,mem_map]
    rintro ⟨child,hch,hh⟩
    obtain ⟨hm,hxc⟩ := mem_children.1 hch
    rw [eq_of_hash_eq hst.wf hm hc hh] at hxc
    exact hx hxc

/-! ## The search -/

/-- All tips above a block are among the given ones. -/
def VirtualStores.CoveredBy (stores : VirtualStores) (tips : List DomainHash) (x : DomainHash) :
    Prop :=
  ∀ tip, stores.IsTip tip → stores.blocks.isAncestorOf x tip → tip ∈ tips

/-- All children of a block that have a body were rejected. -/
def VirtualStores.Exposed (stores : VirtualStores) (rejected : List DomainHash)
    (x : DomainHash) : Prop :=
  ∀ child ∈ stores.blocks.children x, stores.HasBody child.hash → child.hash ∈ rejected

/-- What holds of the search before each candidate. -/
structure SelectInv (stores : VirtualStores) (tips rejected : List DomainHash)
    (search : ParentSearch) : Prop where
  mem : ∀ b ∈ search.candidatesHeap, b ∈ stores.blocks
  hasBody : ∀ b ∈ search.candidatesHeap, stores.HasBody b.hash
  sorted : search.candidatesHeap.Pairwise fun a b => b.key < a.key
  fresh : ∀ b ∈ search.candidatesHeap, b.hash ∉ rejected
  rejected_mem : rejected ⊆ stores.blocks.hashes
  rejected_nodup : rejected.Nodup
  rejected_body : ∀ x ∈ rejected, stores.HasBody x
  rejected_status : ∀ x ∈ rejected, stores.blockStatus.get x ≠ some .statusUTXOValid
  exposed : ∀ x, x ∈ search.candidatesHeap.map hash ∨ x ∈ rejected → stores.Exposed rejected x
  counts : ∀ x, ((search.disqualifiedChildCount.get x).getD 0).toNat =
    (stores.blocks.children x).countP fun child => child.hash ∈ rejected
  pushed : ∀ x ∈ search.pushedToHeap, x ∈ search.candidatesHeap.map hash ∨ x ∈ rejected
  covered : ∀ x ∈ stores.blocks.hashes, stores.HasBody x → stores.CoveredBy tips x →
    x ∉ rejected → ∃ b ∈ search.candidatesHeap, stores.blocks.isAncestorOf x b.hash

/-- What holds inside the loop over the parents of a rejected candidate. -/
structure DisqualifyInv (stores : VirtualStores) (rejected : List DomainHash)
    (candidate : StoredBlock) (heap : List StoredBlock) (done : List DomainHash)
    (search : ParentSearch) : Prop where
  mem_iff : ∀ b, b ∈ search.candidatesHeap ↔ b ∈ heap ∨
    b ∈ stores.blocks ∧ b.hash ∈ done ∧ stores.Exposed (candidate.hash :: rejected) b.hash
  sorted : search.candidatesHeap.Pairwise fun a b => b.key < a.key
  counts : ∀ x, ((search.disqualifiedChildCount.get x).getD 0).toNat =
    ((stores.blocks.children x).countP fun child => child.hash ∈ rejected) +
      if x ∈ done then 1 else 0
  pushed : ∀ x ∈ search.pushedToHeap,
    x ∈ search.candidatesHeap.map hash ∨ x ∈ candidate.hash :: rejected

lemma downHeapPush_sorted {node : StoredBlock}
    (hh : heap.Pairwise fun a b => b.key < a.key) (hn : ∀ b ∈ heap, b.key ≠ node.key) :
    (downHeapPush heap node).Pairwise fun a b => b.key < a.key := by
  have hr (a b : StoredBlock) := (not_lessData_iff b a).trans OrderDual.toDual_le_toDual.symm
  exact Greatest.pairwise_orderedInsert hr hh hn

lemma mem_downHeapPush {node : StoredBlock} : b ∈ downHeapPush heap node ↔ b = node ∨ b ∈ heap :=
  mem_orderedInsert _

/-- The block above an exposed one that has a body was rejected. -/
lemma rejected_of_exposed (hst : stores.Complete cfg)
    (hr : ∀ x ∈ rejected, stores.Exposed rejected x)
    (hx : stores.Exposed rejected x) (h : stores.blocks.isAncestorOf x y)
    (hy : stores.HasBody y) (hne : x ≠ y) : y ∈ rejected := by
  have hpt := (hst.shaped.wf.anc_iff (hst.shaped.wf.mem_of_anc h).2).1 h
  have hor : y = x ∨ y ∈ rejected := by
    clear hne h
    induction hpt with
    | refl => exact .inl rfl
    | @tail b _ _ hl ih =>
      obtain ⟨child,hc,rfl,hp⟩ := link_iff.1 hl
      have hm := mem_children.2 ⟨hc,hp⟩
      obtain rfl | hb := ih (hst.bodies child hc hy b hp)
      · exact .inr (hx child hm hy)
      · exact .inr (hr b hb child hm hy)
  exact hor.resolve_left hne.symm

/-- A block is exposed once as many of its children were rejected as have a body. -/
lemma exposed_iff (hbd : ∀ x ∈ rejected, stores.HasBody x) (x : DomainHash) :
    stores.Exposed rejected x ↔
      ((stores.blocks.children x).countP fun child => stores.HasBody child.hash) ≤
        (stores.blocks.children x).countP fun child => child.hash ∈ rejected := by
  constructor
  · intro h
    refine countP_mono_left fun child hch hb => ?_
    exact decide_eq_true (h child hch (of_decide_eq_true hb))
  · intro h child hch hb
    refine of_decide_eq_true (of_countP_le (fun _ hc => ?_) h child hch (decide_eq_true hb))
    exact decide_eq_true (hbd _ (of_decide_eq_true hc))

section
variable (hst : stores.Complete cfg)
  (hinv : SelectInv stores tips rejected ⟨candidate :: heap,counts,pushed⟩)
include hinv

/-- A parent of the candidate is neither in the heap nor rejected, since the candidate is
a child of it. -/
lemma SelectInv.parent_fresh (hp : parent ∈ candidate.parents) :
    parent ∉ (candidate :: heap).map hash ∧ parent ∉ rejected := by
  have hc := mem_children.2 ⟨hinv.mem candidate mem_cons_self,hp⟩
  have hn : ¬stores.Exposed rejected parent := fun he =>
    hinv.fresh candidate mem_cons_self (he candidate hc (hinv.hasBody candidate mem_cons_self))
  exact ⟨fun h => hn (hinv.exposed parent (.inl h)),fun h => hn (hinv.exposed parent (.inr h))⟩

include hst

lemma DisqualifyInv.step (hlp : DisqualifyInv stores rejected candidate heap done search)
    (hp : parent ∈ candidate.parents) (hd : parent ∉ done)
    (h : disqualifyChild stores search parent = .ok search') :
    DisqualifyInv stores rejected candidate heap (parent :: done) search' := by
  have hcn := hinv.mem candidate mem_cons_self
  have hn := hinv.fresh candidate mem_cons_self
  have hm := parent_mem hst.shaped hcn hp
  obtain ⟨_,hrl,h⟩ := bind_eq_ok h
  have hrl := getRelevantChildCount_toNat hst hm hrl
  obtain ⟨pblock,hpb,hph,hg⟩ := exists_block hst.shaped.wf hm
  -- the counter of the parent counts the candidate and those rejected before
  have hct : ((search.disqualifiedChildCount.get parent).getD 0+1).toNat =
      (stores.blocks.children parent).countP fun child =>
        child.hash ∈ candidate.hash :: rejected := by
    have hlt := hst.children_lt pblock hpb
    have hle := countP_le_length
      (p := fun child : StoredBlock => decide (child.hash ∈ candidate.hash :: rejected))
      (l := stores.blocks.children parent)
    have ho := hlp.counts parent
    rw [if_neg hd] at ho
    rw [hph] at hlt
    rw [countP_rejected_cons hst.shaped hcn hn,if_pos hp] at hle ⊢
    rw [UInt32.toNat_add,ho]
    exact Nat.mod_eq_of_lt (by simp only [UInt32.toNat_one]; omega)
  have hc : ∀ x, (((search.disqualifiedChildCount.insert parent
      ((search.disqualifiedChildCount.get parent).getD 0+1)).get x).getD 0).toNat =
      ((stores.blocks.children x).countP fun child => child.hash ∈ rejected) +
        if x ∈ parent :: done then 1 else 0 := by
    intro x
    by_cases hx : x = parent
    · subst hx
      rw [FinMap.get_insert_self,Option.getD_some,hct,
        countP_rejected_cons hst.shaped hcn hn,if_pos hp,
        if_pos mem_cons_self]
    · rw [FinMap.get_insert_of_ne _ _ hx,hlp.counts]
      simp [hx]
  have hexposed_iff := exposed_iff (forall_mem_cons.2
    ⟨hinv.hasBody candidate mem_cons_self,hinv.rejected_body⟩) parent
  rw [← hct,← hrl,← UInt32.le_iff_toNat_le,← UInt32.not_lt] at hexposed_iff
  dsimp only at h
  split at h
  · next hlt =>
    cases h
    refine ⟨fun b => ?_,hlp.sorted,hc,hlp.pushed⟩
    have hnt : b.hash = parent → ¬stores.Exposed (candidate.hash :: rejected) b.hash :=
      fun heq hex => hexposed_iff.1 (heq ▸ hex) hlt
    rw [hlp.mem_iff,mem_cons]
    tauto
  · next hlt =>
    have hex := hexposed_iff.2 hlt
    have hfr := hinv.parent_fresh hp
    have hh : parent ∉ search.candidatesHeap.map hash := by
      intro hm
      obtain ⟨b,hb,rfl⟩ := mem_map.1 hm
      obtain hb | ⟨-,hbd,-⟩ := (hlp.mem_iff b).1 hb
      · exact hfr.1 (mem_map_of_mem (mem_cons_of_mem _ hb))
      · exact hd hbd
    have hps : parent ∉ search.pushedToHeap := by
      intro hps
      obtain hm | hm := hlp.pushed parent hps
      · exact hh hm
      · obtain rfl | hm := mem_cons.1 hm
        · exact hfr.1 mem_cons_self
        · exact hfr.2 hm
    rw [if_neg hps] at h
    obtain ⟨_,hh',h⟩ := bind_eq_ok h
    cases h
    rw [pushHash,hg,ok_bind] at hh'
    cases hh'
    have hne : ∀ b ∈ search.candidatesHeap, b ≠ pblock := by
      rintro b hb rfl
      exact hh (mem_map.2 ⟨b,hb,hph⟩)
    have hs : ∀ b ∈ search.candidatesHeap, b ∈ stores.blocks := by
      intro b hb
      obtain hb | ⟨hb,-,-⟩ := (hlp.mem_iff b).1 hb
      · exact hinv.mem b (mem_cons_of_mem _ hb)
      · exact hb
    refine ⟨fun b => ?_,downHeapPush_sorted hlp.sorted fun b hb =>
      key_ne_of_ne hst.shaped (hs b hb) hpb (hne b hb),hc,?_⟩
    · have hb := eq_iff_mem_and_hash_eq (a := b) hst.shaped.wf hpb
      rw [hph] at hb
      have hbx : b.hash = parent → stores.Exposed (candidate.hash :: rejected) b.hash :=
        fun heq => heq ▸ hex
      rw [mem_downHeapPush,hlp.mem_iff,mem_cons]
      tauto
    · intro x hx
      obtain rfl | hx := mem_cons.1 hx
      · exact .inl (mem_map.2 ⟨pblock,mem_downHeapPush.2 (.inl rfl),hph⟩)
      · obtain hx | hx := hlp.pushed x hx
        · obtain ⟨b,hb,rfl⟩ := mem_map.1 hx
          exact .inl (mem_map_of_mem (mem_downHeapPush.2 (.inr hb)))
        · exact .inr hx

lemma DisqualifyInv.foldlM {parents : List DomainHash} (hpr : parents ⊆ candidate.parents)
    (hnd : parents.Nodup) (hdn : ∀ p ∈ parents, p ∉ done)
    (hl : DisqualifyInv stores rejected candidate heap done search)
    (h : parents.foldlM (disqualifyChild stores) search = .ok search') :
    DisqualifyInv stores rejected candidate heap (parents.reverse ++ done) search' := by
  induction parents generalizing done search with
  | nil =>
    cases h
    exact hl
  | cons _ parents ih =>
    obtain ⟨_,hn,h⟩ := bind_eq_ok h
    rw [nodup_cons] at hnd
    rw [forall_mem_cons] at hdn
    rw [cons_subset] at hpr
    rw [reverse_cons,append_assoc]
    refine ih hpr.2 hnd.2 ?_ (hl.step hst hinv hpr.1 hdn.1 hn) h
    intro p hp hm
    obtain rfl | hm := mem_cons.1 hm
    · exact hnd.1 hp
    · exact hdn.2 p hp hm

/-- A block that only the rejected candidate covered is covered by a parent of it, or by
what covers another child of that parent. -/
lemma SelectInv.covered_reject
    (hlp : DisqualifyInv stores rejected candidate heap (candidate.parents.reverse ++ []) search')
    (hx : x ∈ stores.blocks.hashes) (hbd : stores.HasBody x)
    (hcv : stores.CoveredBy tips x) (hne : x ≠ candidate.hash) (hr : x ∉ rejected) :
    ∃ b ∈ search'.candidatesHeap, stores.blocks.isAncestorOf x b.hash := by
  have hwf := hst.shaped.wf
  have hcn := hinv.mem candidate mem_cons_self
  obtain ⟨b,hb,ha⟩ := hinv.covered x hx hbd hcv hr
  obtain rfl | hb := mem_cons.1 hb
  · obtain ⟨parent,hp,hxp⟩ := hst.shaped.exists_parent_of_isAncestorOf hcn ha hne
    by_cases hex : stores.Exposed (b.hash :: rejected) parent
    · obtain ⟨pblock,hpb,rfl⟩ := mem_hashes.1 (parent_mem hst.shaped hcn hp)
      exact ⟨pblock,(hlp.mem_iff pblock).2 (.inr ⟨hpb,by simpa using hp,hex⟩),hxp⟩
    · -- the parent has a child that was not rejected, and something else covers it
      simp only [VirtualStores.Exposed,not_forall] at hex
      obtain ⟨child,hcd,hcl,hn⟩ := hex
      obtain ⟨hch,hpc⟩ := mem_children.1 hcd
      rw [mem_cons,not_or] at hn
      have hxc := hwf.anc_trans hxp (isAncestorOf_parent hst.shaped hch hpc)
      obtain ⟨b',hb',ha'⟩ := hinv.covered child.hash
        (hash_mem hch) hcl
        (fun tip ht h => hcv tip ht (hwf.anc_trans hxc h)) hn.2
      obtain rfl | hb' := mem_cons.1 hb'
      · -- then the parent would be an ancestor of another parent
        obtain ⟨_,hq,hc⟩ := hst.shaped.exists_parent_of_isAncestorOf hcn ha' hn.1
        have hpq := isAncestorOf_parent hst.shaped hch hpc
        obtain rfl := parents_antichain hst.shaped hcn hp hq (hwf.anc_trans hpq hc)
        have hs := hwf.anc_antisymm hpq hc
        have hlt := hwf.weight_lt_of_link (link_iff.2 ⟨child,hch,rfl,hpc⟩)
        rw [← hs] at hlt
        exact absurd hlt (lt_irrefl _)
      · exact ⟨b',(hlp.mem_iff b').2 (.inl hb'),hwf.anc_trans hxc ha'⟩
  · exact ⟨b,(hlp.mem_iff b).2 (.inl hb),ha⟩

/-- A rejected candidate leaves the invariant intact. -/
lemma SelectInv.reject (hsta : stores.blockStatus.get candidate.hash ≠ some .statusUTXOValid)
    (h : candidate.parents.foldlM (disqualifyChild stores) ⟨heap,counts,pushed⟩ =
      .ok search') : SelectInv stores tips (candidate.hash :: rejected) search' := by
  have hcn := hinv.mem candidate mem_cons_self
  have hbd := hinv.hasBody candidate mem_cons_self
  have hn := hinv.fresh candidate mem_cons_self
  have hmn : ∀ x, stores.Exposed rejected x → stores.Exposed (candidate.hash :: rejected) x :=
    fun x hx child hc hbd => mem_cons_of_mem _ (hx child hc hbd)
  have hs : DisqualifyInv stores rejected candidate heap [] ⟨heap,counts,pushed⟩ := by
    refine ⟨fun b => by simp,(pairwise_cons.1 hinv.sorted).2,fun x => ?_,fun x hx => ?_⟩
    · simpa using hinv.counts x
    · obtain hx | hx := hinv.pushed x hx
      · obtain rfl | hx := mem_cons.1 hx
        · exact .inr mem_cons_self
        · exact .inl hx
      · exact .inr (mem_cons_of_mem _ hx)
  have hlp := hs.foldlM hst hinv (List.Subset.refl _)
    (parents_nodup hst.shaped hcn) (fun _ _ => not_mem_nil) h
  -- new in the heap are the parents that have no other child left
  have hhp : ∀ b ∈ search'.candidatesHeap, b ∈ heap ∨
      b ∈ stores.blocks ∧ b.hash ∈ candidate.parents ∧
        stores.Exposed (candidate.hash :: rejected) b.hash := by
    intro b hb
    simpa using (hlp.mem_iff b).1 hb
  constructor
  case mem =>
    intro b hb
    obtain hb | ⟨hb,-,-⟩ := hhp b hb
    · exact hinv.mem b (mem_cons_of_mem _ hb)
    · exact hb
  case hasBody =>
    intro b hb
    obtain hb | ⟨-,hp,-⟩ := hhp b hb
    · exact hinv.hasBody b (mem_cons_of_mem _ hb)
    · exact hst.bodies candidate hcn hbd b.hash hp
  case sorted => exact hlp.sorted
  case fresh =>
    intro b hb hm
    obtain hb | ⟨-,hp,-⟩ := hhp b hb
    · obtain heq | hm := mem_cons.1 hm
      · exact hash_ne_of_key_lt hst.shaped.wf (hinv.mem b (mem_cons_of_mem _ hb)) hcn
          ((pairwise_cons.1 hinv.sorted).1 b hb) heq
      · exact hinv.fresh b (mem_cons_of_mem _ hb) hm
    · have hfr := hinv.parent_fresh hp
      obtain heq | hm := mem_cons.1 hm
      · rw [heq] at hfr
        exact hfr.1 mem_cons_self
      · exact hfr.2 hm
  case rejected_mem =>
    exact cons_subset.2 ⟨hash_mem hcn,hinv.rejected_mem⟩
  case rejected_nodup => exact nodup_cons.2 ⟨hn,hinv.rejected_nodup⟩
  case rejected_body => exact forall_mem_cons.2 ⟨hbd,hinv.rejected_body⟩
  case rejected_status => exact forall_mem_cons.2 ⟨hsta,hinv.rejected_status⟩
  case exposed =>
    intro x hx
    obtain hx | hx := hx
    · obtain ⟨b,hb,rfl⟩ := mem_map.1 hx
      obtain hb | ⟨-,-,he⟩ := hhp b hb
      · exact hmn _ (hinv.exposed _ (.inl (mem_map_of_mem (mem_cons_of_mem _ hb))))
      · exact he
    · obtain rfl | hx := mem_cons.1 hx
      · exact hmn _ (hinv.exposed _ (.inl mem_cons_self))
      · exact hmn _ (hinv.exposed _ (.inr hx))
  case counts =>
    intro x
    rw [hlp.counts,countP_rejected_cons hst.shaped hcn hn]
    simp
  case pushed => exact hlp.pushed
  case covered =>
    intro x hx hxb hcv hnot
    rw [mem_cons,not_or] at hnot
    exact hinv.covered_reject hst hlp hx hxb hcv hnot.1 hnot.2

end

/-! ## What is selected -/

/-- The selected parent of virtual and the other candidates: the selected one is valid
and the greatest, none is an ancestor of another, and every valid block below the tips is
smaller or in the past of the selected one. -/
structure Selected (stores : VirtualStores) (tips : List DomainHash) (selected : StoredBlock)
    (others : List StoredBlock) : Prop where
  mem : ∀ b ∈ selected :: others, b ∈ stores.blocks
  valid : stores.blockStatus.get selected.hash = some .statusUTXOValid
  greatest : ∀ b ∈ others, b.key < selected.key
  unrelated : (selected :: others).Pairwise fun a b =>
    stores.blocks.topology.Unrelated a.hash b.hash
  ne : selected.hash ≠ virtualGenesisBlockHash
  maximal : ∀ block ∈ stores.blocks, stores.blockStatus.get block.hash = some .statusUTXOValid →
    stores.CoveredBy tips block.hash → ¬stores.blocks.isAncestorOf block.hash selected.hash →
      block.key < selected.key

lemma SelectInv.unrelated (hst : stores.Complete cfg)
    (hinv : SelectInv stores tips rejected search) :
    search.candidatesHeap.Pairwise fun a b =>
      stores.blocks.topology.Unrelated a.hash b.hash := by
  have hn : ∀ a ∈ search.candidatesHeap, ∀ b ∈ search.candidatesHeap, a.hash ≠ b.hash →
      ¬stores.blocks.isAncestorOf a.hash b.hash := by
    intro a ha b hb hne han
    exact hinv.fresh b hb (rejected_of_exposed hst
      (fun x hx => hinv.exposed x (.inr hx)) (hinv.exposed _ (.inl (mem_map_of_mem ha))) han
      (hinv.hasBody b hb) hne)
  refine hinv.sorted.imp_of_mem fun {a b} ha hb hlt => ?_
  have hne := hash_ne_of_key_lt hst.shaped.wf (hinv.mem b hb) (hinv.mem a ha) hlt
  exact ⟨hn a ha b hb hne.symm,hn b hb a ha hne⟩

lemma genesis_parents (hst : Shaped cfg.header.ghostdag stores.blocks) :
    ∃ genesis ∈ stores.blocks, genesis.hash = cfg.header.ghostdag.genesisHash ∧
      virtualGenesisBlockHash ∈ genesis.parents :=
  ⟨_,hst.init_suffix.subset mem_cons_self,rfl,mem_singleton_self _⟩

/-- Virtual genesis is never looked at, since genesis is not rejected. -/
lemma SelectInv.ne_virtualGenesis (hst : stores.Complete cfg)
    (hinv : SelectInv stores tips rejected search)
    (hb : b ∈ search.candidatesHeap) : b.hash ≠ virtualGenesisBlockHash := by
  intro heq
  obtain ⟨genesis,hm,hh,hp⟩ := genesis_parents hst.shaped
  have he := hinv.exposed b.hash (.inl (mem_map_of_mem hb))
  have hvl := hst.genesis
  rw [← hh] at hvl
  refine hinv.rejected_status genesis.hash (he genesis ?_ ?_) hvl
  · rw [heq]
    exact mem_children.2 ⟨hm,hp⟩
  · simp [HasBody,hvl]

/-- A block is in the past of another one, or it is smaller and not above it. -/
def VirtualStores.Ahead (stores : VirtualStores) (selected block : StoredBlock) : Prop :=
  stores.blocks.isAncestorOf block.hash selected.hash ∨
    ¬stores.blocks.isAncestorOf selected.hash block.hash ∧ block.key < selected.key

lemma SelectInv.exists_above (hinv : SelectInv stores tips rejected search)
    (hblk : block ∈ stores.blocks) (hs : stores.blockStatus.get block.hash = some .statusUTXOValid)
    (hc : stores.CoveredBy tips block.hash) :
    ∃ b ∈ search.candidatesHeap, stores.blocks.isAncestorOf block.hash b.hash :=
  hinv.covered block.hash (hash_mem hblk) (by simp [HasBody,hs]) hc
    fun hr => hinv.rejected_status _ hr hs

section
variable (hst : stores.Complete cfg)
  (hinv : SelectInv stores tips rejected ⟨selected :: others,counts,pushed⟩)
  (hvl : stores.blockStatus.get selected.hash = some .statusUTXOValid)
include hst hinv hvl

lemma SelectInv.toSelected : Selected stores tips selected others := by
  have hs := (pairwise_cons.1 hinv.sorted).1
  have hm := hinv.mem selected mem_cons_self
  have hne := hinv.ne_virtualGenesis hst mem_cons_self
  refine ⟨hinv.mem,hvl,hs,hinv.unrelated hst,hne,?_⟩
  intro _ hblk hsta hc hn
  obtain ⟨b,hb,ha⟩ := hinv.exists_above hblk hsta hc
  obtain rfl | hb' := mem_cons.1 hb
  · exact absurd ha hn
  · obtain ⟨hg,hv⟩ := hst.shaped.ne_of_not_isAncestorOf (hash_mem hm) hne hn
    exact (hst.shaped.key_le hblk (hinv.mem b hb) ha hg hv).trans_lt (hs b hb')

/-- The selected parent is ahead of every valid block below the tips. -/
lemma SelectInv.ahead (hblk : block ∈ stores.blocks)
    (hs : stores.blockStatus.get block.hash = some .statusUTXOValid)
    (hc : stores.CoveredBy tips block.hash) : stores.Ahead selected block := by
  by_cases hps : stores.blocks.isAncestorOf block.hash selected.hash
  · exact .inl hps
  refine .inr ⟨fun ha => ?_,(hinv.toSelected hst hvl).maximal block hblk hs hc hps⟩
  -- what covers the block would be above the selected parent
  obtain ⟨b,hb,han⟩ := hinv.exists_above hblk hs hc
  obtain rfl | hb := mem_cons.1 hb
  · exact hps han
  · have hu := (pairwise_cons.1 (hinv.unrelated hst)).1 b hb
    exact hu.1 (hst.shaped.wf.anc_trans ha han)

end

lemma NoPanic.fromStore (a : Option α) : NoPanic (fromStore a) := by
  cases a with
  | none => exact .error _
  | some a => exact .ok a

lemma NoPanic.pushHash (heap : List StoredBlock) (hash : DomainHash) :
    NoPanic (pushHash stores heap hash) :=
  (block _ _).bind fun _ => .ok _

lemma NoPanic.disqualifyChild (search : ParentSearch) (parent : DomainHash) :
    NoPanic (disqualifyChild stores search parent) := by
  refine bind (foldlM (fun _ _ _ => ?_) _) fun _ => ?_
  · refine (fromStore _).bind fun _ => ?_
    exact .ite (fun _ => .ok _) fun _ => .ok _
  · refine .ite (fun _ => .ok _) fun _ => .ite (fun _ => .ok _) fun _ => ?_
    exact (pushHash _ _).bind fun _ => .ok _

lemma selectVirtualSelectedParent_spec (hst : stores.Complete cfg) {fuel : Nat}
    (hinv : SelectInv stores tips rejected search)
    (hf : stores.blocks.length ≤ fuel+rejected.length) :
    Safe (fun (selected, others) =>
        stores.blockStatus.get selected.hash = some .statusUTXOValid ∧ ∃ rejected counts pushed,
          SelectInv stores tips rejected ⟨selected :: others,counts,pushed⟩)
      (selectVirtualSelectedParent stores fuel search) := by
  induction fuel generalizing rejected search with
  | zero =>
    obtain ⟨heap,counts,pushed⟩ := search
    cases heap with
    | nil => exact .error _
    | cons candidate heap =>
      -- the candidate is one more block besides the rejected ones
      have hsb : candidate.hash :: rejected ⊆ stores.blocks.hashes :=
        cons_subset.2 ⟨hash_mem (hinv.mem candidate mem_cons_self),hinv.rejected_mem⟩
      have hle := ((nodup_cons.2 ⟨hinv.fresh candidate mem_cons_self,
        hinv.rejected_nodup⟩).subperm hsb).length_le
      rw [length_cons,hashes,length_map] at hle
      omega
  | succ fuel ih =>
    obtain ⟨heap,counts,pushed⟩ := search
    cases heap with
    | nil => exact .error _
    | cons candidate heap =>
      rw [selectVirtualSelectedParent]
      have hb := hinv.hasBody candidate mem_cons_self
      cases hg : stores.blockStatus.get candidate.hash with
      | none => exact .error _
      | some status =>
        have hh : status ≠ .statusHeaderOnly := by
          rintro rfl
          exact hb hg
        rw [fromStore,ok_bind]
        by_cases hvl : status = .statusUTXOValid
        · rw [if_pos hvl]
          rw [hvl] at hg
          exact .ok ⟨hg,rejected,counts,pushed,hinv⟩
        · rw [if_neg hvl,if_neg hh]
          have hs : stores.blockStatus.get candidate.hash ≠ some .statusUTXOValid := by
            rw [hg]
            exact fun h => hvl (Option.some.inj h)
          refine (NoPanic.foldlM (fun _ _ _ => NoPanic.disqualifyChild _ _) _).safe_bind
            fun _ h => ih (hinv.reject hst hs h) ?_
          rw [length_cons]
          omega

/-! ## The tips -/

lemma foldlM_pushHash (hst : Shaped cfg.header.ghostdag stores.blocks) {hashes : List DomainHash}
    (hnd : hashes.Nodup) {heap' : List StoredBlock}
    (hm : ∀ b ∈ heap, b ∈ stores.blocks ∧ b.hash ∉ hashes)
    (hs : heap.Pairwise fun a b => b.key < a.key)
    (h : hashes.foldlM (pushHash stores) heap = .ok heap') :
    (heap'.Pairwise fun a b => b.key < a.key) ∧
      ∀ b, b ∈ heap' ↔ b ∈ heap ∨ b ∈ stores.blocks ∧ b.hash ∈ hashes := by
  induction hashes generalizing heap with
  | nil =>
    cases h
    exact ⟨hs,fun b => by simp⟩
  | cons hash hashes ih =>
    obtain ⟨_,hnx,h⟩ := bind_eq_ok h
    obtain ⟨block,hg,hnx⟩ := bind_eq_ok hnx
    cases hnx
    obtain ⟨hblk,hhs⟩ := block_eq_ok hg
    rw [nodup_cons] at hnd
    have hne : ∀ b ∈ heap, b.key ≠ block.key := by
      intro b hb
      refine key_ne_of_ne hst (hm b hb).1 hblk ?_
      rintro rfl
      exact (hm b hb).2 (hhs ▸ mem_cons_self)
    have hm' : ∀ b ∈ downHeapPush heap block, b ∈ stores.blocks ∧ b.hash ∉ hashes := by
      intro b hb
      obtain rfl | hb := mem_downHeapPush.1 hb
      · exact ⟨hblk,hhs ▸ hnd.1⟩
      · exact ⟨(hm b hb).1,fun hin => (hm b hb).2 (mem_cons_of_mem _ hin)⟩
    obtain ⟨hs',hi⟩ := ih hnd.2 hm' (downHeapPush_sorted hs hne) h
    refine ⟨hs',fun b => ?_⟩
    rw [hi,mem_downHeapPush,mem_cons,eq_iff_mem_and_hash_eq hst.wf hblk,hhs]
    tauto

lemma SelectInv.init (hst : stores.Complete cfg) (hnd : tips.Nodup)
    (hts : ∀ tip ∈ tips, stores.IsTip tip) (h : tips.foldlM (pushHash stores) [] = .ok heap) :
    SelectInv stores tips [] ⟨heap,∅,[]⟩ := by
  obtain ⟨hs,hi⟩ := foldlM_pushHash hst.shaped hnd (forall_mem_nil _) List.Pairwise.nil h
  have hhp : ∀ b, b ∈ heap ↔ b ∈ stores.blocks ∧ b.hash ∈ tips := fun b => by
    simpa using hi b
  refine ⟨fun b hb => ((hhp b).1 hb).1,fun b hb => (hts _ ((hhp b).1 hb).2).hasBody,hs,
    fun b _ => not_mem_nil,nil_subset _,nodup_nil,?_,?_,?_,?_,?_,?_⟩
  · exact forall_mem_nil _
  · exact forall_mem_nil _
  · intro x hx child hc hbd
    obtain hx | hx := hx
    · obtain ⟨b,hb,rfl⟩ := mem_map.1 hx
      obtain ⟨hm,hp⟩ := mem_children.1 hc
      exact absurd hbd ((hts _ ((hhp b).1 hb).2).childless child hm hp)
    · cases hx
  · simp
  · exact forall_mem_nil _
  · intro x hx hbd hcv _
    obtain ⟨tip,ht,ha⟩ := exists_tip hst hx hbd
    obtain ⟨block,hblk,rfl⟩ := mem_hashes.1 ht.mem
    exact ⟨block,(hhp block).2 ⟨hblk,hcv _ ht ha⟩,ha⟩

/-- The selected parent and the other candidates, as the search finds them from the tips. -/
def VirtualStores.Finds (stores : VirtualStores) (tips : List DomainHash) (selected : StoredBlock)
    (others : List StoredBlock) : Prop :=
  ∃ heap, tips.foldlM (pushHash stores) [] = .ok heap ∧
    selectVirtualSelectedParent stores stores.blocks.length ⟨heap,∅,[]⟩ = .ok (selected, others)

section
variable (hst : stores.Complete cfg) (hnd : tips.Nodup)
  (hts : ∀ tip ∈ tips, stores.IsTip tip) (hfn : stores.Finds tips selected others)
include hst hnd hts hfn

lemma VirtualStores.Finds.inv :
    stores.blockStatus.get selected.hash = some .statusUTXOValid ∧
      ∃ rejected counts pushed,
        SelectInv stores tips rejected ⟨selected :: others,counts,pushed⟩ := by
  obtain ⟨_,hh,hs⟩ := hfn
  exact (selectVirtualSelectedParent_spec hst (SelectInv.init hst hnd hts hh)
    (Nat.le_add_right _ _)).2 _ hs

lemma VirtualStores.Finds.toSelected : Selected stores tips selected others := by
  obtain ⟨hvl,_,_,_,hinv⟩ := hfn.inv hst hnd hts
  exact hinv.toSelected hst hvl

end

/-- A valid tip that is the greatest one is selected. -/
lemma VirtualStores.Finds.eq_of_greatest (hst : Shaped cfg.header.ghostdag stores.blocks)
    (hnd : tips.Nodup) (hfn : stores.Finds tips selected others) {tip : StoredBlock}
    (ht : tip ∈ stores.blocks) (hm : tip.hash ∈ tips)
    (hvl : stores.blockStatus.get tip.hash = some .statusUTXOValid)
    (hg : ∀ b ∈ stores.blocks, b.hash ∈ tips → b.key ≤ tip.key) : selected = tip := by
  obtain ⟨heap,hh,hs⟩ := hfn
  obtain ⟨hsr,hi⟩ := foldlM_pushHash hst hnd (forall_mem_nil _) List.Pairwise.nil hh
  have hin : tip ∈ heap := (hi tip).2 (.inr ⟨ht,hm⟩)
  cases heap with
  | nil => exact absurd hin not_mem_nil
  | cons first heap =>
    have hf : first = tip := by
      obtain h | h := mem_cons.1 hin
      · exact h.symm
      · have hlt := (pairwise_cons.1 hsr).1 tip h
        obtain hn | ⟨hblk,hts⟩ := (hi first).1 mem_cons_self
        · cases hn
        · exact absurd hlt (not_lt.2 (hg first hblk hts))
    subst hf
    obtain ⟨_,hfl⟩ := Nat.exists_eq_succ_of_ne_zero (length_pos_of_mem ht).ne'
    rw [hfl,selectVirtualSelectedParent,hvl] at hs
    cases hs
    rfl

end Eiyaro
