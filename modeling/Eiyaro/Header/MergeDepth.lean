import Eiyaro.Ghostdag.Shape
import Eiyaro.Header.Context

/-!
# Bounded merges

A node processes headers one after the other, and its pruning point moves in between.
The merge depth check is made for every header, but it only rejects one whose stated
DAA score has reached the activation score of the rule.
-/

namespace Eiyaro
open List

/-- The DAA score from which on `CheckBoundedMergeDepth` rejects. -/
def boundedMergeActivation : UInt64 := 43334184+1000000

/-- Every red block without the root in its past is in the past of a blue block that has
the root in its past. -/
def BoundedMerge (stores : BlockStores) (data : BlockGHOSTDAGData) (root : DomainHash) : Prop :=
  ∀ red ∈ data.mergeSetReds, stores.isAncestorOf root red = false →
    ∃ blue ∈ data.mergeSetBlues, stores.isAncestorOf root blue ∧ stores.isAncestorOf red blue

/-! ## Runs -/

inductive HeaderAction
  | header (hash : DomainHash) (header : BlockHeader)
  | movePruningPoint (hash : DomainHash)

variable (cfg : HeaderConfig)

/-- A header that is not valid leaves the stores as they are. -/
def headerStep (stores : HeaderStores) : HeaderAction → HeaderStores
  | .header hash header =>
    match processHeader cfg stores hash header with
    | .ok stores => stores
    | .error _ => stores
  | .movePruningPoint hash => { stores with pruningPoint := hash }

/-- The stores of a fresh node. -/
def initHeaderStores (genesis : HeaderRecord) : HeaderStores where
  blocks := initStores cfg.ghostdag
  records := (∅ : FinMap DomainHash HeaderRecord).insert cfg.ghostdag.genesisHash genesis
  pruningPoint := cfg.ghostdag.genesisHash

def processHeaders (genesis : HeaderRecord) (actions : List HeaderAction) : HeaderStores :=
  actions.foldl (headerStep cfg) (initHeaderStores cfg genesis)

/-! ## The selected parent chain -/

variable {cfg : GhostdagConfig} {stores : BlockStores} {header : BlockHeader} {block : StoredBlock}
  {hash : DomainHash}

lemma isAncestorOf_of_mem_selectedParentChain (hst : Shaped cfg stores) {a b : DomainHash}
    (h : a ∈ (selectedParentChain stores (some b)).map StoredBlock.hash) :
    stores.isAncestorOf a b := by
  induction hst generalizing b with
  | init =>
    -- the chain of genesis ends with virtual genesis
    have hv : virtualGenesisBlockHash ∈ (initStores cfg).hashes := by
      simp [initStores,BlockStores.hashes]
    by_cases hg : b = cfg.genesisHash
    · subst hg
      have hmem : a = cfg.genesisHash ∨ a = virtualGenesisBlockHash := by
        simpa [initStores,selectedParentChain] using h
      obtain rfl | rfl := hmem
      · exact Dag.anc_cons_self.2 (.inl rfl)
      · exact Dag.anc_cons_self.2 (.inr ⟨_,mem_singleton_self _,Dag.anc_cons_self.2 (.inl rfl)⟩)
    · by_cases hb : b = virtualGenesisBlockHash
      · subst hb
        have hmem : a = virtualGenesisBlockHash := by
          simpa [initStores,selectedParentChain,hg] using h
        subst hmem
        exact Shaped.isAncestorOf_refl hv
      · simp [initStores,selectedParentChain,hg,hb] at h
  | @cons _ _ ho hbl ih =>
    rw [selectedParentChain] at h
    split at h
    · next heq =>
      obtain rfl := Option.some.inj heq
      obtain ⟨_,_,hm,hd⟩ := hbl.merged
      rw [map_cons,mem_cons,hd.selectedParent] at h
      obtain rfl | h := h
      · exact Dag.anc_cons_self.2 (.inl rfl)
      · exact BlockStores.isAncestorOf_of_parent hm.selected_parent (ih h)
    · have ha := ih h
      rwa [(Shaped.cons ho hbl).isAncestorOf_cons (ho.mem_of_isAncestorOf ha).2]

/-! ## What an accepted header satisfies -/

section
variable {cfg : HeaderConfig} {stores : HeaderStores} (hst : Shaped cfg.ghostdag stores.blocks)
include hst

lemma boundedMerge_of_check {staged : StagedHeader} {root finalityPoint : DomainHash}
    (h : checkBoundedMergeDepth cfg stores staged = .ok (root, finalityPoint))
    (ha : boundedMergeActivation ≤ staged.header.daaScore) :
    BoundedMerge stores.blocks staged.ghostdagData root := by
  obtain ⟨_,hrt,_,_,h⟩ := bind₂_eq_ok h
  obtain ⟨han,h⟩ := of_ite_error h
  cases h
  intro red hrd hrt
  rw [Bool.not_eq_true,any_eq_false] at han
  have hr' := han red hrd
  have hd : decide (staged.header.daaScore ≥ 43334184+1000000) = true :=
    decide_eq_true ha
  rw [hrt,hd] at hr'
  have hbl : (nonBoundedMergeDepthViolatingBlues stores staged.ghostdagData root).any
      (stores.blocks.isAncestorOf red) = true := by
    simpa using hr'
  obtain ⟨blue,hbl,hac⟩ := any_eq_true.1 hbl
  obtain ⟨hm,hc⟩ := mem_filter.1 hbl
  have hr := isAncestorOf_of_mem_selectedParentChain hst (of_decide_eq_true hc)
  exact ⟨blue,hm,hr,hac⟩

/-- What storing a header does. -/
lemma processHeader_eq_ok {stores' : HeaderStores}
    (h : processHeader cfg stores hash header = .ok stores') :
    ∃ (staged : StagedHeader) (root finalityPoint : DomainHash), staged.header = header ∧
      checkBoundedMergeDepth cfg stores staged = .ok (root, finalityPoint) ∧
      Shape stores.blocks ⟨hash,header.directParents,header.bits,staged.ghostdagData⟩ ∧
      stores' = { stores with
        blocks := ⟨hash,header.directParents,header.bits,staged.ghostdagData⟩ :: stores.blocks
        records := stores.records.insert hash
          ⟨header,staged.daaScore,staged.daaAddedBlocks,some root,finalityPoint⟩ } := by
  obtain ⟨hn,h⟩ := of_ite_error h
  obtain ⟨hl,h⟩ := of_ite_error h
  obtain ⟨_,hv,_,he,h⟩ := bind₂_eq_ok h
  obtain ⟨_,hi,_,ht,h⟩ := bind₂_eq_ok h
  obtain ⟨staged,hs,⟨root,finalityPoint⟩,hvl,h⟩ := bind₂_eq_ok h
  cases h
  obtain ⟨rfl,hd,-⟩ := stageHeader_spec hs
  have hin : checkIndirectParents staged.header = .ok () := by
    obtain ⟨_,_,_,_,hvl⟩ := bind₂_eq_ok hvl
    obtain ⟨_,hin,_⟩ := bind_eq_ok hvl
    exact hin
  have hc : HeaderChecks cfg.ghostdag stores.blocks hash staged.header := ⟨hn,hl,hv,he,hi,ht,hin⟩
  exact ⟨staged,root,finalityPoint,rfl,(validateHeaderInContext_spec hvl).1,hc.shape hst hd,rfl⟩

end

/-- The colours of a block are on blocks that are older than it. -/
lemma Shape.mem_of_mergeSet {older : BlockStores} (hb : Shape older block) {x : DomainHash}
    (hx : x ∈ block.ghostdagData.mergeSetBlues ++ block.ghostdagData.mergeSetReds) :
    x ∈ older.hashes := by
  obtain ⟨_,_,hm,hd⟩ := hb.merged
  obtain rfl | hx := mem_cons.1 (hd.perm.mem_iff.1 hx)
  · exact hm.selected_mem_hashes
  · exact hm.mem_hashes hx

/-- A bounded merge stays one when a block is added. -/
lemma BoundedMerge.cons
    (hst : Shaped cfg (block :: stores)) {data : BlockGHOSTDAGData} {root : DomainHash}
    (hm : ∀ x ∈ data.mergeSetBlues ++ data.mergeSetReds, x ∈ stores.hashes)
    (h : BoundedMerge stores data root) : BoundedMerge (block :: stores) data root := by
  intro red hrd hr
  rw [hst.isAncestorOf_cons (hm red (mem_append_right _ hrd))] at hr
  obtain ⟨blue,hb,_,_⟩ := h red hrd hr
  have hs := hm blue (mem_append_left _ hb)
  refine ⟨blue,hb,?_,?_⟩
  · rwa [hst.isAncestorOf_cons hs]
  · rwa [hst.isAncestorOf_cons hs]

/-- The invariant of a run: every block besides genesis has a record with its merge depth
root, and its merge is bounded if the rule was active for it. -/
structure MergesBounded (cfg : HeaderConfig) (stores : HeaderStores) : Prop where
  shaped : Shaped cfg.ghostdag stores.blocks
  bounded : ∀ block ∈ stores.blocks, block.hash ≠ cfg.ghostdag.genesisHash →
    block.hash ≠ virtualGenesisBlockHash → ∃ record root,
      stores.records.get block.hash = some record ∧ record.mergeDepthRoot = some root ∧
      (boundedMergeActivation ≤ record.header.daaScore →
        BoundedMerge stores.blocks block.ghostdagData root)

namespace MergesBounded
variable {cfg : HeaderConfig} {stores stores' : HeaderStores}

lemma init (genesis : HeaderRecord) : MergesBounded cfg (initHeaderStores cfg genesis) := by
  refine ⟨.init,?_⟩
  intro _ hb hg hv
  obtain rfl | rfl := mem_initStores.1 hb
  · exact absurd rfl hg
  · exact absurd rfl hv

lemma processHeader (hi : MergesBounded cfg stores)
    (h : Eiyaro.processHeader cfg stores hash header = .ok stores') :
    MergesBounded cfg stores' := by
  obtain ⟨_,root,_,rfl,hc,hsp,rfl⟩ := processHeader_eq_ok hi.shaped h
  have hsh : Shaped cfg.ghostdag (_ :: stores.blocks) := .cons hi.shaped hsp
  refine ⟨hsh,?_⟩
  intro block hbl hg hv
  obtain rfl | hold := mem_cons.1 hbl
  · refine ⟨_,root,FinMap.get_insert_self _ _ _,rfl,?_⟩
    intro hac
    exact (boundedMerge_of_check hi.shaped hc hac).cons hsh fun x hx => hsp.mem_of_mergeSet hx
  · obtain ⟨record,root',hrc,hr,hb⟩ := hi.bounded block hold hg hv
    have hne : block.hash ≠ hash := by
      rintro rfl
      exact hsp.new (BlockStores.mem_hashes.2 ⟨block,hold,rfl⟩)
    refine ⟨record,root',?_,hr,?_⟩
    · rw [FinMap.get_insert_of_ne _ _ hne]
      exact hrc
    · intro hac
      obtain ⟨_,_,heq,ho,-⟩ := hi.shaped.split hold hv hg
      refine (hb hac).cons hsh fun x hx => ?_
      rw [heq,BlockStores.hashes,map_append]
      exact mem_append_right _ (mem_cons_of_mem _ (ho.mem_of_mergeSet hx))

lemma headerStep (hi : MergesBounded cfg stores) (action : HeaderAction) :
    MergesBounded cfg (headerStep cfg stores action) := by
  cases action with
  | header hash header =>
    rw [Eiyaro.headerStep]
    split
    · next h => exact hi.processHeader h
    · exact hi
  | movePruningPoint hash => exact ⟨hi.shaped,hi.bounded⟩

lemma processHeaders (genesis : HeaderRecord) (actions : List HeaderAction) :
    MergesBounded cfg (processHeaders cfg genesis actions) := by
  refine foldlRecOn actions _ (init genesis) ?_
  intro _ hi action _
  exact hi.headerStep action

end MergesBounded

/-- In every run, every accepted header that states a DAA score from the activation score
on has a bounded merge with respect to its merge depth root. -/
theorem processHeaders_boundedMerge (cfg : HeaderConfig) (genesis : HeaderRecord)
    (actions : List HeaderAction) {block : StoredBlock} {record : HeaderRecord}
    (hblock : block ∈ (processHeaders cfg genesis actions).blocks)
    (hgen : block.hash ≠ cfg.ghostdag.genesisHash) (hvirtual : block.hash ≠ virtualGenesisBlockHash)
    (hrecord : (processHeaders cfg genesis actions).records.get block.hash = some record)
    (hactive : boundedMergeActivation ≤ record.header.daaScore) :
    ∃ root, record.mergeDepthRoot = some root ∧
      BoundedMerge (processHeaders cfg genesis actions).blocks block.ghostdagData root := by
  obtain ⟨_,root,hr',hr,hb⟩ :=
    (MergesBounded.processHeaders genesis actions).bounded block hblock hgen hvirtual
  rw [hrecord] at hr'
  cases hr'
  exact ⟨root,hr,hb hactive⟩

/-! ## A deep merge -/

/-- No block merges another one as blue, and merges may reach back two blue blocks. -/
def shallowConfig : HeaderConfig where
  ghostdag := configWithK 0
  mergeSetSizeLimit := 180
  timestampDeviationTolerance := 2
  difficultyAdjustmentWindowSize := 3
  mergeDepth := 2
  finalityDepth := 100

def genesisRecord : HeaderRecord :=
  ⟨headerOn [],0,[],some virtualGenesisBlockHash,virtualGenesisBlockHash⟩

/-- A chain of two blocks on genesis, another block on genesis, and a header on top of
both that states the activation score. -/
def shallowMerge : List HeaderAction :=
  [.header 1 { headerOn [0] with daaScore := 100 },.header 2 { headerOn [1] with daaScore := 100 },
    .header 4 { headerOn [0] with daaScore := 100 },
    .header 5 { headerOn [2,4] with daaScore := boundedMergeActivation }]

theorem processHeaders_boundedMerge_of_red :
    ∃ block ∈ (processHeaders shallowConfig genesisRecord shallowMerge).blocks,
      block.hash = 5 ∧ block.ghostdagData.mergeSetReds = [4] ∧
      ∃ record root,
        (processHeaders shallowConfig genesisRecord shallowMerge).records.get block.hash =
          some record ∧ record.mergeDepthRoot = some root ∧
        BoundedMerge (processHeaders shallowConfig genesisRecord shallowMerge).blocks
          block.ghostdagData root := by
  obtain ⟨block,hb,hhs,hr⟩ :
      ∃ block ∈ (processHeaders shallowConfig genesisRecord shallowMerge).blocks,
        block.hash = 5 ∧ block.ghostdagData.mergeSetReds = [4] := by
    decide
  have han : ((processHeaders shallowConfig genesisRecord shallowMerge).records.get 5).any
      (fun record => decide (boundedMergeActivation ≤ record.header.daaScore)) = true := by
    decide
  rw [Option.any_eq_true] at han
  obtain ⟨record,hrc,ha⟩ := han
  rw [← hhs] at hrc
  obtain ⟨root,hrt,hbn⟩ := processHeaders_boundedMerge shallowConfig genesisRecord
    shallowMerge hb (by rw [hhs]; decide) (by rw [hhs]; decide) hrc
    (of_decide_eq_true ha)
  exact ⟨block,hb,hhs,hr,record,root,hrc,hrt,hbn⟩

/-- A chain of three blocks on genesis, another block on genesis, and a header on top of
both that states the given DAA score. -/
def deepMerge (daaScore : UInt64) : List HeaderAction :=
  [.header 1 { headerOn [0] with daaScore := 100 },.header 2 { headerOn [1] with daaScore := 100 },
    .header 3 { headerOn [2] with daaScore := 100 },
    .header 4 { headerOn [0] with daaScore := 100 },
    .header 5 { headerOn [3,4] with daaScore := daaScore }]

/-- Below the activation score the merge of block 4 is accepted, although the merge depth
root 1 is neither in its past nor is it in the past of the only blue block. -/
theorem deepMerge_accepted :
    let stores := processHeaders shallowConfig genesisRecord (deepMerge 100)
    (stores.records.get 5).bind HeaderRecord.mergeDepthRoot = some 1 ∧
      ∃ block ∈ stores.blocks, block.hash = 5 ∧
        ¬BoundedMerge stores.blocks block.ghostdagData 1 := by
  intro stores
  have hm : (stores.records.get 5).bind HeaderRecord.mergeDepthRoot = some 1 ∧
      stores.blocks.isAncestorOf 1 4 = false ∧ stores.blocks.isAncestorOf 4 3 = false ∧
      ∃ block ∈ stores.blocks, block.hash = 5 ∧ block.ghostdagData.mergeSetBlues = [3] ∧
        block.ghostdagData.mergeSetReds = [4] := by
    decide +kernel
  obtain ⟨hs,hrt,hblu,block,hbl,hh,hbs,hr⟩ := hm
  refine ⟨hs,block,hbl,hh,fun hb => ?_⟩
  obtain ⟨_,hmm,-,ha⟩ := hb 4 (by simp [hr]) hrt
  rw [hbs,mem_singleton] at hmm
  rw [hmm,hblu] at ha
  exact Bool.false_ne_true ha

example : (processHeaders shallowConfig genesisRecord
    (deepMerge 44334184)).blocks.hashes = [4,3,2,1,0,virtualGenesisBlockHash] := by
  decide +kernel

end Eiyaro
