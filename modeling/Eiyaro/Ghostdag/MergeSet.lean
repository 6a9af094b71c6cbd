import Eiyaro.Ghostdag.Defs
import Eiyaro.Util.Greatest

/-!
# The selected parent and the merge set

What the search loop of `mergeset.go` finds: the blocks that the parents have in
their past and the selected parent has not, each once, and sorted by blue work.
-/

namespace Eiyaro
open List BlockStores
variable {a b block : StoredBlock} {hash selectedParent : DomainHash} {search : MergeSetSearch}
  {stores : BlockStores} {blockParents init done : List DomainHash}

namespace BlockStores

lemma nodes_topology (stores : BlockStores) : stores.topology.nodes = stores.hashes := by
  simp [topology,hashes,Dag.nodes,Function.comp_def]

lemma mem_hashes : hash ∈ stores.hashes ↔ ∃ block ∈ stores, block.hash = hash :=
  mem_map

lemma hash_mem (h : block ∈ stores) : block.hash ∈ stores.hashes :=
  mem_map_of_mem h

@[simp]
lemma hashes_cons (block : StoredBlock) (stores : BlockStores) :
    hashes (block :: stores) = block.hash :: hashes stores :=
  rfl

lemma block_eq_ok (h : stores.block hash = .ok block) : block ∈ stores ∧ block.hash = hash := by
  rw [BlockStores.block] at h
  split at h
  · next found hf =>
    cases h
    exact ⟨mem_of_find?_eq_some hf,by simpa using find?_some hf⟩
  · cases h

section
variable (hwf : stores.topology.WF)
include hwf

lemma block_of_mem (hb : block ∈ stores) : stores.block block.hash = .ok block := by
  have hf : stores.find? (fun b => b.hash = block.hash) = some block := by
    induction stores with
    | nil => simp at hb
    | cons first _ ih =>
      rcases mem_cons.1 hb with rfl | hm
      · simp
      · have hne : first.hash ≠ block.hash := by
          intro heq
          have hn := hwf.notMem
          rw [← topology,nodes_topology,heq] at hn
          exact hn (hash_mem hm)
        rw [find?_cons_of_neg (by simpa using hne)]
        exact ih hwf.tail hm
  simp [BlockStores.block,hf]

lemma eq_of_hash_eq (ha : a ∈ stores) (hb : b ∈ stores) (h : a.hash = b.hash) : a = b := by
  have heq := block_of_mem hwf ha
  rw [h,block_of_mem hwf hb] at heq
  cases heq
  rfl

lemma eq_iff_mem_and_hash_eq (hb : b ∈ stores) : a = b ↔ a ∈ stores ∧ a.hash = b.hash :=
  ⟨fun h => h.symm ▸ ⟨hb,rfl⟩,fun ⟨ha,h⟩ => eq_of_hash_eq hwf ha hb h⟩

lemma exists_block (h : hash ∈ stores.hashes) :
    ∃ block ∈ stores, block.hash = hash ∧ stores.block hash = .ok block := by
  obtain ⟨block,hb,rfl⟩ := mem_hashes.1 h
  exact ⟨block,hb,rfl,block_of_mem hwf hb⟩

end

lemma link_iff {p c : DomainHash} :
    stores.topology.Link p c ↔ ∃ block ∈ stores, block.hash = c ∧ p ∈ block.parents := by
  simp only [Dag.Link,topology,mem_map,Prod.mk.injEq]
  constructor
  · rintro ⟨_,⟨block,hb,rfl,rfl⟩,hp⟩
    exact ⟨block,hb,rfl,hp⟩
  · rintro ⟨block,hb,rfl,hp⟩
    exact ⟨block.parents,⟨block,hb,rfl,rfl⟩,hp⟩

lemma hashes_nodup (hwf : stores.topology.WF) : stores.hashes.Nodup :=
  nodes_topology stores ▸ hwf.nodes_nodup

lemma mem_of_isAncestorOf (hwf : stores.topology.WF) {x y : DomainHash}
    (h : stores.isAncestorOf x y) : x ∈ stores.hashes ∧ y ∈ stores.hashes :=
  nodes_topology stores ▸ hwf.mem_of_anc h

lemma mem_parents_of_link (hwf : stores.topology.WF) (hb : block ∈ stores)
    (h : stores.topology.Link hash block.hash) : hash ∈ block.parents := by
  obtain ⟨_,hb',hh,hp⟩ := link_iff.1 h
  rwa [eq_of_hash_eq hwf hb' hb hh] at hp

end BlockStores

/-! ## The selected parent -/

/-- Blocks are compared by blue work and then by hash. -/
def StoredBlock.key (block : StoredBlock) : Nat ×ₗ DomainHash :=
  toLex (block.ghostdagData.blueWork, block.hash)

lemma lessData_iff (a b : StoredBlock) :
    lessData a.hash a.ghostdagData b.hash b.ghostdagData = true ↔ a.key < b.key := by
  rw [StoredBlock.key,StoredBlock.key,Prod.Lex.lt_iff,lessData]
  rcases lt_trichotomy a.ghostdagData.blueWork b.ghostdagData.blueWork with h | h | h
  · simp [compare_lt_iff_lt.2 h,h]
  · simp [h]
  · simp [compare_gt_iff_gt.2 h,h.not_gt,h.ne']

lemma not_lessData_iff (a b : StoredBlock) :
    (!lessData b.hash b.ghostdagData a.hash a.ghostdagData) = true ↔ a.key ≤ b.key := by
  rw [Bool.not_eq_true',← Bool.not_eq_true,lessData_iff,not_lt]

lemma hash_ne_of_key_lt (hwf : stores.topology.WF) (ha : a ∈ stores) (hb : b ∈ stores)
    (h : a.key < b.key) : a.hash ≠ b.hash :=
  fun heq => h.ne (congrArg StoredBlock.key (eq_of_hash_eq hwf ha hb heq))

lemma blueWork_le_of_key_le (h : a.key ≤ b.key) :
    a.ghostdagData.blueWork ≤ b.ghostdagData.blueWork := by
  rcases Prod.Lex.le_iff.1 h with h | h
  · exact h.le
  · exact h.1.le

section
variable (hwf : stores.topology.WF)
include hwf

lemma less_of_mem (ha : a ∈ stores) (hb : b ∈ stores) :
    less stores a.hash b.hash = .ok (decide (a.key < b.key)) := by
  have hl : lessData a.hash a.ghostdagData b.hash b.ghostdagData = decide (a.key < b.key) := by
    rw [Bool.eq_iff_iff,lessData_iff,decide_eq_true_iff]
  rw [less,block_of_mem hwf ha,block_of_mem hwf hb,← hl]
  rfl

lemma findSelectedParent_some {parents : List DomainHash}
    (hpr : ∀ p ∈ parents, p ∈ stores.hashes) {first : StoredBlock} (hfr : first ∈ stores) :
    ∃ selected ∈ stores, findSelectedParent stores (some first.hash) parents =
        .ok (some selected.hash) ∧
      (selected = first ∨ selected.hash ∈ parents) ∧ first.key ≤ selected.key ∧
      ∀ block ∈ stores, block.hash ∈ parents → block.key ≤ selected.key := by
  induction parents generalizing first with
  | nil => exact ⟨first,hfr,rfl,.inl rfl,le_rfl,fun _ _ h => absurd h (by simp)⟩
  | cons p parents ih =>
    rw [forall_mem_cons] at hpr
    obtain ⟨pblock,hpb,rfl,-⟩ := exists_block hwf hpr.1
    by_cases hlt : first.key < pblock.key
    · obtain ⟨selected,hs,heq,hm,hle,hmax⟩ := ih hpr.2 hpb
      refine ⟨selected,hs,?_,?_,hlt.le.trans hle,?_⟩
      · simpa [findSelectedParent,less_of_mem hwf hfr hpb,hlt] using heq
      · rcases hm with rfl | hm
        · exact .inr mem_cons_self
        · exact .inr (mem_cons_of_mem _ hm)
      · intro block hb hin
        rcases mem_cons.1 hin with heq | hin
        · rwa [eq_of_hash_eq hwf hb hpb heq]
        · exact hmax block hb hin
    · obtain ⟨selected,hs,heq,hm,hle,hmax⟩ := ih hpr.2 hfr
      refine ⟨selected,hs,?_,?_,hle,?_⟩
      · simpa [findSelectedParent,less_of_mem hwf hfr hpb,hlt] using heq
      · rcases hm with rfl | hm
        · exact .inl rfl
        · exact .inr (mem_cons_of_mem _ hm)
      · intro block hb hin
        rcases mem_cons.1 hin with heq | hin
        · rw [eq_of_hash_eq hwf hb hpb heq]
          exact (not_lt.1 hlt).trans hle
        · exact hmax block hb hin

end

/-! ## The search -/

/-- A loop that puts what was not visited into a queue. -/
lemma exists_foldl_enqueue {α : Type} [DecidableEq α] (added queue visited : List α) :
    ∃ new, added.foldl
        (fun search x => if x ∈ search.2 then search else (search.1 ++ [x], search.2 ++ [x]))
        (queue, visited) = (queue ++ new, visited ++ new) ∧
      new.Nodup ∧ (∀ x ∈ new, x ∈ added ∧ x ∉ visited) ∧ added ⊆ visited ++ new := by
  induction added generalizing queue visited with
  | nil => exact ⟨[],by simp,nodup_nil,by simp,nil_subset _⟩
  | cons first added ih =>
    rw [foldl_cons]
    by_cases hm : first ∈ visited
    · rw [if_pos hm]
      obtain ⟨new,heq,hnd,hn,hs⟩ := ih queue visited
      refine ⟨new,heq,hnd,?_,cons_subset.2 ⟨mem_append_left _ hm,hs⟩⟩
      exact fun x hx => ⟨mem_cons_of_mem _ (hn x hx).1,(hn x hx).2⟩
    · rw [if_neg hm]
      obtain ⟨new,heq,hnd,hn,hs⟩ := ih (queue ++ [first]) (visited ++ [first])
      have hf : first ∉ new := fun hx =>
        (hn first hx).2 (mem_append_right _ (mem_singleton_self _))
      refine ⟨first :: new,by simpa using heq,nodup_cons.2 ⟨hf,hnd⟩,
        forall_mem_cons.2 ⟨⟨mem_cons_self,hm⟩,fun x hx => ?_⟩,?_⟩
      · exact ⟨mem_cons_of_mem _ (hn x hx).1,fun h => (hn x hx).2 (mem_append_left _ h)⟩
      · rw [append_assoc] at hs
        exact cons_subset.2 ⟨by simp,hs⟩

/-- What one or several visits add to the search. -/
structure Visited (stores : BlockStores) (selectedParent : DomainHash) (parents : List DomainHash)
    (search search' : MergeSetSearch) (added : List DomainHash) : Prop where
  queue_eq : search'.queue = search.queue ++ added
  mergeSet_eq : search'.mergeSet = search.mergeSet ++ added
  nodup : added.Nodup
  added_spec : ∀ x ∈ added, x ∈ parents ∧ x ∉ search.mergeSet ∧
    ¬stores.isAncestorOf x selectedParent
  past_spec : ∀ x ∈ search'.selectedParentPast, stores.isAncestorOf x selectedParent
  covered : ∀ p ∈ parents, p ∈ search'.mergeSet ∨ stores.isAncestorOf p selectedParent

lemma visitParent_spec (hps : ∀ x ∈ search.selectedParentPast, stores.isAncestorOf x selectedParent)
    (parent : DomainHash) :
    ∃ added, Visited stores selectedParent [parent] search
      (visitParent stores selectedParent search parent) added := by
  unfold visitParent
  split
  · next hm => exact ⟨[],by simp,by simp,by simp,by simp,hps,by simp [hm]⟩
  · next hn =>
    split
    · next hm => exact ⟨[],by simp,by simp,by simp,by simp,hps,by simp [hps parent hm]⟩
    · split
      · next ha =>
        refine ⟨[],by simp,by simp,by simp,by simp,?_,by simp [ha]⟩
        simpa [ha] using hps
      · next ha => exact ⟨[parent],by simp,by simp,by simp,by simp [hn,ha],hps,by simp⟩

lemma foldl_visitParent_spec (parents : List DomainHash) (search : MergeSetSearch)
    (hps : ∀ x ∈ search.selectedParentPast, stores.isAncestorOf x selectedParent) :
    ∃ added, Visited stores selectedParent parents search
      (parents.foldl (visitParent stores selectedParent) search) added := by
  induction parents generalizing search with
  | nil => exact ⟨[],by simp,by simp,by simp,by simp,hps,by simp⟩
  | cons p parents ih =>
    obtain ⟨first,hfr⟩ := visitParent_spec hps p
    obtain ⟨rest,hrs⟩ := ih _ hfr.past_spec
    refine ⟨first ++ rest,?_,?_,?_,?_,hrs.past_spec,?_⟩
    · rw [foldl_cons,hrs.queue_eq,hfr.queue_eq,append_assoc]
    · rw [foldl_cons,hrs.mergeSet_eq,hfr.mergeSet_eq,append_assoc]
    · refine hfr.nodup.append hrs.nodup fun x hx hy => (hrs.added_spec x hy).2.1 ?_
      rw [hfr.mergeSet_eq]
      exact mem_append_right _ hx
    · intro x hx
      rcases mem_append.1 hx with hx | hx
      · obtain ⟨hp,hsp⟩ := hfr.added_spec x hx
        rw [mem_singleton] at hp
        exact ⟨hp ▸ mem_cons_self,hsp⟩
      · obtain ⟨hp,hn,hsp⟩ := hrs.added_spec x hx
        rw [hfr.mergeSet_eq,mem_append,not_or] at hn
        exact ⟨mem_cons_of_mem _ hp,hn.1,hsp⟩
    · intro q hq
      rw [foldl_cons,hrs.mergeSet_eq]
      rcases mem_cons.1 hq with rfl | hq
      · rcases hfr.covered q mem_cons_self with h | h
        · exact .inl (mem_append_left _ h)
        · exact .inr h
      · rw [← hrs.mergeSet_eq]
        exact hrs.covered q hq

/-- The invariant of the search: the merge set is what was processed followed by
the queue, the parents of what was processed are covered, and nothing is found
twice after the initial queue. -/
structure SearchInv (stores : BlockStores) (selectedParent : DomainHash)
    (blockParents init done : List DomainHash) (search : MergeSetSearch) : Prop where
  mergeSet_eq : search.mergeSet = done ++ search.queue
  found : ∃ found, search.mergeSet = init ++ found ∧ found.Nodup ∧ ∀ x ∈ found, x ∉ init
  mem_spec : ∀ x ∈ search.mergeSet, ¬stores.isAncestorOf x selectedParent ∧
    ∃ p ∈ blockParents, stores.isAncestorOf x p
  past_spec : ∀ x ∈ search.selectedParentPast, stores.isAncestorOf x selectedParent
  closed : ∀ x ∈ done, ∀ p, stores.topology.Link p x →
    p ∈ search.mergeSet ∨ stores.isAncestorOf p selectedParent

section
variable (hwf : stores.topology.WF)
include hwf

/-- One round of the search keeps the invariant. -/
lemma SearchInv.step {queue mergeSet past : List DomainHash} {current : StoredBlock}
    (hc : current ∈ stores) (hinv : SearchInv stores selectedParent blockParents init done
      ⟨current.hash :: queue,mergeSet,past⟩) :
    ∃ added, SearchInv stores selectedParent blockParents init (done ++ [current.hash])
        (current.parents.foldl (visitParent stores selectedParent) ⟨queue,mergeSet,past⟩) ∧
      Visited stores selectedParent current.parents ⟨queue,mergeSet,past⟩
        (current.parents.foldl (visitParent stores selectedParent) ⟨queue,mergeSet,past⟩)
        added := by
  obtain ⟨added,hv⟩ := foldl_visitParent_spec current.parents ⟨queue,mergeSet,past⟩ hinv.past_spec
  have hm : mergeSet = done ++ current.hash :: queue := hinv.mergeSet_eq
  refine ⟨added,⟨?_,?_,?_,hv.past_spec,?_⟩,hv⟩
  · rw [hv.mergeSet_eq,hv.queue_eq]
    simp [hm]
  · obtain ⟨found,heq,hnd,hd⟩ := hinv.found
    have hmem : ∀ x ∈ added, x ∉ init ∧ x ∉ found := by
      intro x hx
      have hn := (hv.added_spec x hx).2.1
      rw [heq,mem_append,not_or] at hn
      exact hn
    refine ⟨found ++ added,by rw [hv.mergeSet_eq,heq,append_assoc],?_,?_⟩
    · exact hnd.append hv.nodup fun x hx hy => (hmem x hy).2 hx
    · exact forall_mem_append.2 ⟨hd,fun x hx => (hmem x hx).1⟩
  · intro x hx
    rw [hv.mergeSet_eq] at hx
    rcases mem_append.1 hx with hx | hx
    · exact hinv.mem_spec x hx
    · obtain ⟨hpr,-,han⟩ := hv.added_spec x hx
      have hmem : current.hash ∈ mergeSet := by simp [hm]
      obtain ⟨-,p,hp,ha⟩ := hinv.mem_spec _ hmem
      have hln : stores.topology.Link x current.hash := link_iff.2 ⟨current,hc,rfl,hpr⟩
      exact ⟨han,p,hp,hwf.anc_trans (hwf.anc_of_link hln) ha⟩
  · intro x hx p hln
    rcases mem_append.1 hx with hx | hx
    · rw [hv.mergeSet_eq]
      exact (hinv.closed x hx p hln).imp_left (mem_append_left _)
    · rw [mem_singleton] at hx
      subst hx
      exact hv.covered p (mem_parents_of_link hwf hc hln)

section
variable (hinv : SearchInv stores selectedParent blockParents init done search)
include hinv

lemma SearchInv.mem_hashes {x : DomainHash} (hx : x ∈ search.mergeSet) : x ∈ stores.hashes := by
  obtain ⟨-,_,-,ha⟩ := hinv.mem_spec x hx
  exact (mem_of_isAncestorOf hwf ha).1

lemma SearchInv.length_le : search.mergeSet.length ≤ init.length+stores.length := by
  obtain ⟨found,heq,hnd,-⟩ := hinv.found
  have hs : found ⊆ stores.hashes := by
    intro _ hx
    refine hinv.mem_hashes hwf ?_
    rw [heq]
    exact mem_append_right _ hx
  have hle := (hnd.subperm hs).length_le
  rw [hashes,length_map] at hle
  rw [heq,length_append]
  omega

end

/-- With enough rounds the search ends, and everything it found was processed. -/
lemma searchMergeSet_spec (fuel : Nat)
    (hinv : SearchInv stores selectedParent blockParents init done search)
    (hf : search.queue.length+(init.length+stores.length) ≤ fuel+search.mergeSet.length) :
    ∃ mergeSet past, searchMergeSet stores selectedParent fuel search = .ok mergeSet ∧
      SearchInv stores selectedParent blockParents init mergeSet ⟨[],mergeSet,past⟩ ∧
      search.mergeSet ⊆ mergeSet := by
  induction fuel generalizing done search with
  | zero =>
    have hle := hinv.length_le hwf
    obtain ⟨queue,mergeSet,past⟩ := search
    have hq : queue = [] := eq_nil_of_length_eq_zero (by dsimp only at hf hle; omega)
    subst hq
    have hdn : mergeSet = done := by simpa using hinv.mergeSet_eq
    subst hdn
    exact ⟨mergeSet,past,rfl,hinv,List.Subset.refl _⟩
  | succ fuel ih =>
    obtain ⟨queue,mergeSet,past⟩ := search
    cases queue with
    | nil =>
      have hdn : mergeSet = done := by simpa using hinv.mergeSet_eq
      subst hdn
      exact ⟨mergeSet,past,rfl,hinv,List.Subset.refl _⟩
    | cons current queue =>
      have hm : current ∈ stores.hashes := hinv.mem_hashes hwf (by rw [hinv.mergeSet_eq]; simp)
      obtain ⟨_,hb,rfl,hg⟩ := exists_block hwf hm
      obtain ⟨_,hi',hv⟩ := hinv.step hwf hb
      have hf' := hf
      rw [length_cons] at hf'
      obtain ⟨result,past',heq,hr,hs⟩ := ih hi' (by
        rw [hv.queue_eq,hv.mergeSet_eq,length_append,length_append]
        dsimp only at hf' ⊢
        omega)
      refine ⟨result,past',?_,hr,?_⟩
      · rw [searchMergeSet,hg]
        exact heq
      · rw [hv.mergeSet_eq] at hs
        exact fun _ hx => hs (mem_append_left _ hx)

lemma mapM_block_of_subset {hashes : List DomainHash} (h : ∀ x ∈ hashes, x ∈ stores.hashes) :
    ∃ blocks, hashes.mapM stores.block = .ok blocks ∧ blocks.map StoredBlock.hash = hashes ∧
      ∀ block ∈ blocks, block ∈ stores := by
  induction hashes with
  | nil => exact ⟨[],rfl,rfl,by simp⟩
  | cons x hashes ih =>
    rw [forall_mem_cons] at h
    obtain ⟨block,hbl,rfl,hg⟩ := exists_block hwf h.1
    obtain ⟨blocks,hm,hh,hb⟩ := ih h.2
    refine ⟨block :: blocks,?_,by simp [hh],?_⟩
    · rw [mapM_cons,hg,hm]
      rfl
    · rw [forall_mem_cons]
      exact ⟨hbl,hb⟩

end

/-- The merge set is what the parents have in their past and the selected parent
has not, each block once and in the order of blue work. -/
lemma mergeSetWithoutSelectedParent_spec (hwf : stores.topology.WF)
    (hmm : ∀ p ∈ blockParents, p ∈ stores.hashes)
    (hsel : ∀ p ∈ blockParents, p ≠ selectedParent → ¬stores.isAncestorOf p selectedParent) :
    ∃ blocks : List StoredBlock,
      mergeSetWithoutSelectedParent stores selectedParent blockParents =
        .ok (blocks.map StoredBlock.hash) ∧
      (blockParents.Nodup → (blocks.map StoredBlock.hash).Nodup) ∧
      (∀ block ∈ blocks, block ∈ stores) ∧
      (blocks.Pairwise fun a b => a.key ≤ b.key) ∧
      ∀ x, x ∈ blocks.map StoredBlock.hash ↔
        (∃ p ∈ blockParents, stores.isAncestorOf x p) ∧ ¬stores.isAncestorOf x selectedParent := by
  have hi : SearchInv stores selectedParent blockParents
      (blockParents.filter fun parent => parent ≠ selectedParent) []
      ⟨blockParents.filter fun parent => parent ≠ selectedParent,
        blockParents.filter fun parent => parent ≠ selectedParent,[]⟩ := by
    refine ⟨rfl,⟨[],by simp,by simp,by simp⟩,?_,by simp,by simp⟩
    intro x hx
    rw [mem_filter,decide_eq_true_iff] at hx
    refine ⟨hsel x hx.1 hx.2,x,hx.1,Dag.anc_refl ?_⟩
    rw [nodes_topology]
    exact hmm x hx.1
  obtain ⟨mergeSet,_,heq,hinv,hsb⟩ := searchMergeSet_spec hwf
    ((blockParents.filter fun parent => parent ≠ selectedParent).length+stores.length) hi
    (by dsimp only; omega)
  have hs : ∀ x ∈ mergeSet, x ∈ stores.hashes := fun x hx => hinv.mem_hashes hwf hx
  obtain ⟨blocks,hm,hh,hb⟩ := mapM_block_of_subset hwf hs
  have hpr : (sortMergeSet blocks).Perm blocks := perm_insertionSort _ _
  have hph : ((sortMergeSet blocks).map StoredBlock.hash).Perm mergeSet := by
    rw [← hh]
    exact hpr.map _
  refine ⟨sortMergeSet blocks,?_,?_,?_,pairwise_key_insertionSort not_lessData_iff blocks,?_⟩
  · simp only [mergeSetWithoutSelectedParent,heq,ok_bind,hm]
    rfl
  · intro hnd
    obtain ⟨found,hfn,hf,hd⟩ := hinv.found
    change mergeSet = _ at hfn
    rw [hph.nodup_iff,hfn]
    exact (hnd.filter _).append hf fun x hx hy => hd x hy hx
  · exact fun block hbl => hb block (hpr.mem_iff.1 hbl)
  · intro x
    rw [hph.mem_iff]
    constructor
    · intro hx
      obtain ⟨hsel,ha⟩ := hinv.mem_spec x hx
      exact ⟨ha,hsel⟩
    · rintro ⟨⟨p,hp,ha⟩,hsel⟩
      -- go down from the parent; nothing on the way is in the past of the selected parent
      refine hwf.anc_induction ha (hsb ?_) ?_
      · rw [mem_filter,decide_eq_true_iff]
        refine ⟨hp,?_⟩
        rintro rfl
        exact hsel ha
      · intro q c hl hxq hc
        rcases hinv.closed c hc q hl with h | h
        · exact h
        · exact absurd (hwf.anc_trans hxq h) hsel

end Eiyaro
