import Eiyaro.Virtual.Parents
import Eiyaro.Virtual.Steps

/-!
# The finality of virtual's selected parent

Virtual's selected parent is meant to be ahead of every UTXO-valid block. Then it changes
only to a block that a step has just verified. Such a block is pending until then and is
verified on behalf of a block whose chain has the finality point, which is not pending.
So the finality point is below it.

`ResolveVirtual` breaks this where it moves virtual to a block that fails verification, or
to one that is not preferred to the selected parent it had.
-/

namespace Eiyaro
open List VirtualStores BlockStores FinMap Option
variable {a b : StoredBlock}
variable {action : ChainState.Action} {status : BlockStatus} {parent point : DomainHash}
  {selected : StoredBlock} {block : StoredBlock}

/-! ## Selected parent chains -/

variable {cfg : GhostdagConfig} {stores : BlockStores} {hash : Option DomainHash}

lemma Shaped.selectedParent_mem (hst : Shaped cfg stores) (hblk : block ∈ stores)
    (hp : block.ghostdagData.selectedParent = some parent) : parent ∈ stores.hashes := by
  obtain hi | ⟨_,_,rfl,hs,-⟩ := hst.init_or_split hblk
  · obtain rfl | rfl := mem_initStores.1 hi
    · cases hp
      exact mem_map_of_mem (hst.init_suffix.subset (mem_cons_of_mem _ mem_cons_self))
    · cases hp
  · rw [hashes,map_append]
    exact mem_append_right _ (mem_cons_of_mem _ (hs.selectedParent_mem parent hp))

/-- A stored block is followed by the chain of its selected parent. -/
lemma Shaped.selectedParentChain_eq (hst : Shaped cfg stores)
    (hblk : block ∈ stores) : selectedParentChain stores (some block.hash) =
      block :: selectedParentChain stores block.ghostdagData.selectedParent := by
  induction hst with
  | init =>
    have hne : ¬virtualGenesisBlockHash = cfg.genesisHash := fun h => cfg.genesis_ne h.symm
    obtain rfl | rfl := mem_initStores.1 hblk
    · simp [initStores,selectedParentChain,hne]
    · simp [initStores,selectedParentChain,hne]
  | @cons older first ho hfr ih =>
    -- the selected parent is an older block, wherever the block stands
    have hs : (∀ parent, block.ghostdagData.selectedParent = some parent →
        parent ∈ older.hashes) →
        selectedParentChain (first :: older) block.ghostdagData.selectedParent =
          selectedParentChain older block.ghostdagData.selectedParent := by
      intro hm
      rw [selectedParentChain,if_neg]
      exact fun hsl => hfr.new (hm _ hsl)
    obtain rfl | hblk := mem_cons.1 hblk
    · rw [hs fun parent => hfr.selectedParent_mem parent,selectedParentChain,if_pos rfl]
    · rw [hs fun parent => ho.selectedParent_mem hblk,← ih hblk]
      exact selectedParentChain_cons_of_mem (Shaped.cons ho hfr).wf hblk

lemma head_selectedParentChain
    (h : block ∈ (selectedParentChain stores hash).head?) : hash = some block.hash := by
  induction stores with
  | nil => simp [selectedParentChain] at h
  | cons _ _ ih =>
    rw [selectedParentChain] at h
    split at h
    · next heq =>
      rw [head?_cons,mem_some_iff] at h
      rw [heq,h]
    · exact ih h

lemma selectedParentChain_isChain (stores : BlockStores) (hash : Option DomainHash) :
    (selectedParentChain stores hash).IsChain fun a b =>
      a.ghostdagData.selectedParent = some b.hash := by
  induction stores generalizing hash with
  | nil => exact isChain_nil
  | cons _ _ ih =>
    rw [selectedParentChain]
    split
    · exact isChain_cons.2 ⟨fun b hb => head_selectedParentChain hb,ih _⟩
    · exact ih hash

/-- What goes from every block to its selected parent holds along the chain. -/
lemma forall_mem_selectedParentChain {P : DomainHash → Prop}
    (hnx : ∀ block ∈ stores, P block.hash → ∀ parent,
      block.ghostdagData.selectedParent = some parent → P parent)
    (hhs : ∀ x, hash = some x → P x) :
    ∀ block ∈ selectedParentChain stores hash, P block.hash := by
  induction stores generalizing hash with
  | nil => exact forall_mem_nil _
  | cons _ _ ih =>
    rw [forall_mem_cons] at hnx
    intro block hblk
    rw [selectedParentChain] at hblk
    split at hblk
    · next heq =>
      obtain rfl | hblk := mem_cons.1 hblk
      · exact hhs _ heq
      · exact ih hnx.2 (hnx.1 (hhs _ heq)) block hblk
    · exact ih hnx.2 hhs block hblk

namespace ChainState
variable {cfg : VirtualConfig} {verifyUTXO : DomainHash → Bool} {state state' : ChainState}
  {unverifiedBlocks : List StoredBlock} {pending rest : List StoredBlock}
  {maxBlocksToResolve : UInt64} {loop loop' : StatusLoop} {hash pendingTip previous : DomainHash}
  {tip : DomainHash} {x : DomainHash} {tips parents : List DomainHash}

/-! ## Resolving statuses -/

lemma hasBody_of_valid
    (h : state.blockStatus.get hash = some .statusUTXOValid) : state.HasBody hash := by
  rw [HasBody,h]
  decide

/-- The status of a block is resolved, or it is virtual genesis. -/
def Settled (state : ChainState) (hash : DomainHash) : Prop :=
  hash = virtualGenesisBlockHash ∨ state.blockStatus.get hash = some .statusUTXOValid ∨
    state.blockStatus.get hash = some .statusDisqualifiedFromChain

/-- What resolving the status of a block does: the pending blocks at the top of its chain
get a status, and the selected parent of the last one had one before. -/
structure Resolves (state : ChainState) (blocks : List StoredBlock) (state' : ChainState) :
    Prop where
  eq : state' = { state with blockStatus := state'.blockStatus }
  pending : ∀ block ∈ blocks, state.blockStatus.get block.hash = some .statusUTXOPendingVerification
  resolved : ∀ block ∈ blocks, state'.blockStatus.get block.hash = some .statusUTXOValid ∨
    state'.blockStatus.get block.hash = some .statusDisqualifiedFromChain
  frame : ∀ hash, hash ∉ blocks.map StoredBlock.hash →
    state'.blockStatus.get hash = state.blockStatus.get hash
  last : ∀ block, blocks.getLast? = some block →
    ∀ parent, block.ghostdagData.selectedParent = some parent → state.Settled parent

lemma Resolves.refl (state : ChainState) : Resolves state [] state :=
  ⟨rfl,by simp,by simp,by simp,by simp⟩

lemma takePending_eq_ok {chain : List StoredBlock} (h : state.takePending chain = .ok pending) :
    (∃ rest, chain = pending ++ rest) ∧ ∀ block ∈ pending,
      state.blockStatus.get block.hash = some .statusUTXOPendingVerification := by
  induction chain generalizing pending with
  | nil =>
    cases h
    exact ⟨⟨[],rfl⟩,forall_mem_nil _⟩
  | cons current chain ih =>
    obtain ⟨_,hsta,h⟩ := bind_eq_ok h
    split at h
    · cases h
      exact ⟨⟨current :: chain,rfl⟩,forall_mem_nil _⟩
    · next hp =>
      obtain ⟨rest,hr,h⟩ := bind_eq_ok h
      cases h
      obtain ⟨⟨below,rfl⟩,ha⟩ := ih hr
      rw [not_not] at hp
      rw [fromStore_eq_ok,hp] at hsta
      exact ⟨⟨below,rfl⟩,forall_mem_cons.2 ⟨hsta,ha⟩⟩

lemma resolveNextStatus_eq_ok (h : resolveNextStatus cfg verifyUTXO loop block = .ok loop') :
    loop.hasPreviousUTXOSet ∧
      (loop'.selectedParentStatus = .statusUTXOValid ∨
        loop'.selectedParentStatus = .statusDisqualifiedFromChain) ∧
      loop'.blockStatus = loop.blockStatus.insert block.hash loop'.selectedParentStatus := by
  obtain ⟨hpr,h⟩ := of_ite_error h
  rw [Bool.not_eq_true,Bool.not_eq_false'] at hpr
  split at h
  · cases h
    exact ⟨hpr,.inr rfl,rfl⟩
  split at h
  · cases h
    exact ⟨hpr,.inl rfl,rfl⟩
  split at h
  · cases h
    exact ⟨hpr,.inl rfl,rfl⟩
  · cases h
    exact ⟨hpr,.inr rfl,rfl⟩

/-- The loop over the unverified blocks, oldest first. -/
lemma foldlM_resolveNextStatus {blocks : List StoredBlock}
    (h : blocks.foldlM (resolveNextStatus cfg verifyUTXO) loop = .ok loop') :
    (blocks ≠ [] → loop.hasPreviousUTXOSet) ∧
      (∀ block ∈ blocks, loop'.blockStatus.get block.hash = some .statusUTXOValid ∨
        loop'.blockStatus.get block.hash = some .statusDisqualifiedFromChain) ∧
      (∀ hash, hash ∉ blocks.map StoredBlock.hash →
        loop'.blockStatus.get hash = loop.blockStatus.get hash) ∧
      ∀ block, blocks.getLast? = some block →
        loop'.blockStatus.get block.hash = some loop'.selectedParentStatus := by
  refine foldlM_rec h ?_ fun block blocks loop _ hn hr ih => ?_
  · exact ⟨fun h => absurd rfl h,forall_mem_nil _,fun _ _ => rfl,nofun⟩
  · obtain ⟨hp,hsta,hi⟩ := resolveNextStatus_eq_ok hn
    obtain ⟨-,hres,hf,hl⟩ := ih
    refine ⟨fun _ => hp,forall_mem_cons.2 ⟨?_,hres⟩,fun hash hnot => ?_,fun last hls' => ?_⟩
    · by_cases hm : block.hash ∈ blocks.map StoredBlock.hash
      · obtain ⟨other,ho,heq⟩ := mem_map.1 hm
        rw [← heq]
        exact hres other ho
      · rw [hf _ hm,hi,get_insert_self,some.injEq,some.injEq]
        exact hsta
    · rw [map_cons,mem_cons,not_or] at hnot
      rw [hf hash hnot.2,hi,get_insert_of_ne _ _ hnot.1]
    · cases blocks with
      | nil =>
        cases hr
        rw [getLast?_singleton,some.injEq] at hls'
        rw [← hls',hi,get_insert_self]
      | cons _ blocks => exact hl last hls'

lemma selectedParentInfo_eq_ok (h : state.selectedParentInfo cfg block = .ok (status, true)) :
    block.hash = cfg.header.ghostdag.genesisHash ∨
      ∀ parent, block.ghostdagData.selectedParent = some parent → state.Settled parent := by
  rw [selectedParentInfo] at h
  split at h
  · next heq => exact .inl heq
  · obtain ⟨parent,hp,found,hf,h⟩ := bind₂_eq_ok h
    rw [dereference_eq_ok] at hp
    rw [fromStore_eq_ok] at hf
    have hres : found = .statusUTXOValid ∨ found = .statusDisqualifiedFromChain := by
      simpa using (Prod.ext_iff.1 (Except.ok.inj h)).2
    refine .inr fun _ hp' => .inr ?_
    rw [hp,some.injEq] at hp'
    rw [← hp',hf,some.injEq,some.injEq]
    exact hres

lemma getUnverifiedChainBlocks_eq_ok (h : state.getUnverifiedChainBlocks hash = .ok pending) :
    (∃ rest, selectedParentChain state.blocks (some hash) = pending ++ rest) ∧
      ∀ block ∈ pending,
        state.blockStatus.get block.hash = some .statusUTXOPendingVerification := by
  obtain ⟨block,-,h⟩ := bind_eq_ok h
  exact takePending_eq_ok h

lemma resolveBlockStatus_eq_ok (hst : Shaped cfg.header.ghostdag state.blocks)
    (hg : state.blockStatus.get cfg.header.ghostdag.genesisHash = some .statusUTXOValid)
    (h : state.resolveBlockStatus cfg verifyUTXO hash = .ok (state', status)) :
    state'.blockStatus.get hash = some status ∧
      ∃ pending rest, selectedParentChain state.blocks (some hash) = pending ++ rest ∧
        Resolves state pending state' := by
  obtain ⟨pending,hu,h⟩ := bind_eq_ok h
  obtain ⟨⟨rest,hcn⟩,hp⟩ := getUnverifiedChainBlocks_eq_ok hu
  cases hls : pending.getLast? with
  | none =>
    rw [hls] at h
    obtain ⟨_,hfn,h⟩ := bind_eq_ok h
    cases h
    rw [getLast?_eq_none_iff] at hls
    subst hls
    exact ⟨fromStore_eq_ok.1 hfn,[],rest,hcn,.refl state⟩
  | some last =>
    rw [hls] at h
    obtain ⟨⟨_,hasUTXOSet⟩,hi,h⟩ := bind_eq_ok h
    obtain ⟨_,hl,h⟩ := bind_eq_ok h
    cases h
    obtain ⟨hpr,hres,hfr,ht⟩ := foldlM_resolveNextStatus hl
    have hlm := mem_of_getLast? hls
    obtain rfl : hasUTXOSet = true := hpr (ne_nil_of_mem (mem_reverse.2 hlm))
    -- the first of the pending blocks is the block itself, and it is resolved last
    obtain ⟨block,hblk,-⟩ := bind_eq_ok hu
    obtain ⟨hm,rfl⟩ := block_eq_ok hblk
    cases pending with
    | nil => exact absurd hlm not_mem_nil
    | cons first pending =>
      have hf : first = block := by
        rw [hst.selectedParentChain_eq hm] at hcn
        exact (cons.inj hcn).1.symm
      refine ⟨?_,first :: pending,rest,hcn,rfl,hp,?_,?_,?_⟩
      · rw [← hf]
        exact ht first (by simp)
      · exact fun b hb => hres b (mem_reverse.2 hb)
      · exact fun x _ => hfr x (by rwa [map_reverse,mem_reverse])
      · intro b hb
        rw [hls] at hb
        cases hb
        obtain hgn | hpa := selectedParentInfo_eq_ok hi
        · have hsta := hp last hlm
          rw [hgn,hg] at hsta
          cases hsta
        · exact hpa

/-! ## A chain that passes -/

/-- The pending blocks of the chain stand on a valid block and pass their verification. -/
def passesVerification (cfg : VirtualConfig) (verifyUTXO : DomainHash → Bool) (state : ChainState)
    (blockHash : DomainHash) : Bool :=
  match state.getUnverifiedChainBlocks blockHash with
  | .error _ => false
  | .ok unverifiedBlocks =>
    unverifiedBlocks.all (fun block => verifyUTXO block.hash) &&
    match unverifiedBlocks.getLast? with
    | none => state.blockStatus.get blockHash = some .statusUTXOValid
    | some last => (state.selectedParentInfo cfg last).map Prod.fst = .ok .statusUTXOValid

lemma foldlM_resolveNextStatus_valid {blocks : List StoredBlock}
    (h : blocks.foldlM (resolveNextStatus cfg verifyUTXO) loop = .ok loop')
    (hv : ∀ block ∈ blocks, verifyUTXO block.hash)
    (hl : loop.selectedParentStatus = .statusUTXOValid) :
    loop'.selectedParentStatus = .statusUTXOValid := by
  revert hv hl
  refine foldlM_rec h (fun _ hl => hl) fun block blocks loop _ hn _ ih hv hl => ?_
  rw [forall_mem_cons] at hv
  refine ih hv.2 ?_
  obtain ⟨-,hn⟩ := of_ite_error hn
  rw [hl,if_neg (by decide)] at hn
  split at hn
  · cases hn
    rfl
  · rw [if_pos hv.1] at hn
    cases hn
    rfl

lemma valid_of_passesVerification
    (h : state.resolveBlockStatus cfg verifyUTXO hash = .ok (state', status))
    (hp : passesVerification cfg verifyUTXO state hash) : status = .statusUTXOValid := by
  obtain ⟨pending,hu,h⟩ := bind_eq_ok h
  rw [passesVerification,hu] at hp
  dsimp only at hp
  rw [Bool.and_eq_true,List.all_eq_true] at hp
  obtain ⟨hv,hp⟩ := hp
  cases hls : pending.getLast? with
  | none =>
    rw [hls] at h hp
    obtain ⟨_,hs,h⟩ := bind_eq_ok h
    cases h
    rw [fromStore_eq_ok,of_decide_eq_true hp] at hs
    exact (some.inj hs).symm
  | some last =>
    rw [hls] at h hp
    obtain ⟨⟨_,_⟩,hi,h⟩ := bind_eq_ok h
    obtain ⟨_,hl,h⟩ := bind_eq_ok h
    cases h
    have hsp := of_decide_eq_true hp
    rw [hi] at hsp
    exact foldlM_resolveNextStatus_valid hl (fun block hb => hv block (mem_reverse.1 hb))
      (Except.ok.inj hsp)

/-! ## The DAG with its statuses -/

section
variable (cfg state)

/-- What holds of the stores in every run. -/
structure DagInv : Prop where
  shaped : Shaped cfg.header.ghostdag state.blocks
  genesis : state.blockStatus.get cfg.header.ghostdag.genesisHash = some .statusUTXOValid
  virtualGenesis : state.blockStatus.get virtualGenesisBlockHash = none
  bodies : ∀ block ∈ state.blocks, state.HasBody block.hash →
    ∀ parent ∈ block.parents, state.HasBody parent
  settled : ∀ block ∈ state.blocks, state.Settled block.hash →
    ∀ parent, block.ghostdagData.selectedParent = some parent → state.Settled parent
  pruning_mem : state.pruningPoint ∈ state.blocks.hashes
  pruning_settled : state.Settled state.pruningPoint

/-- The tips are those of the DAG of the blocks with a body. -/
structure TipsInv : Prop where
  nodup : state.tips.Nodup
  mem_iff : ∀ hash, hash ∈ state.tips ↔ state.IsTip hash

/-- Virtual's selected parent is valid and ahead of every valid block. -/
def Leads (selected : StoredBlock) : Prop :=
  selected ∈ state.blocks ∧ state.virtualSelectedParent = some selected.hash ∧
    state.blockStatus.get selected.hash = some .statusUTXOValid ∧
    ∀ block ∈ state.blocks, state.blockStatus.get block.hash = some .statusUTXOValid →
      state.Ahead selected block

end

section
variable (hinv : DagInv cfg state)
include hinv

lemma DagInv.complete (hl : state.blocks.length < 2^32) : state.Complete cfg :=
  ⟨hinv.shaped,hinv.genesis,hinv.bodies,fun _ _ => (length_filter_le _ _).trans_lt hl⟩

lemma DagInv.settled_chain (hh : state.Settled hash) :
    ∀ block ∈ selectedParentChain state.blocks (some hash), state.Settled block.hash :=
  forall_mem_selectedParentChain hinv.settled fun _ h => some.inj h ▸ hh

lemma DagInv.not_pending (hh : state.Settled hash) :
    state.blockStatus.get hash ≠ some .statusUTXOPendingVerification := by
  obtain rfl | h | h := hh
  · rw [hinv.virtualGenesis]
    nofun
  · rw [h]
    nofun
  · rw [h]
    nofun

lemma DagInv.ne_genesis
    (h : state.blockStatus.get hash = some status) (hsta : status ≠ .statusUTXOValid) :
    hash ≠ cfg.header.ghostdag.genesisHash := by
  rintro rfl
  exact hsta (some.inj (h.symm.trans hinv.genesis))

lemma DagInv.ne_virtualGenesis
    (h : state.blockStatus.get hash = some status) : hash ≠ virtualGenesisBlockHash := by
  rintro rfl
  cases h.symm.trans hinv.virtualGenesis

/-- The point that finality is checked against is settled. -/
lemma DagInv.settled_finalityPoint (hl : state.Leads selected)
    (h : state.virtualFinalityPoint cfg = .ok point) :
    state.Settled (state.finalityPoint point) := by
  rw [finalityPoint]
  split
  · exact hinv.pruning_settled
  · obtain rfl | rfl | hcn := pointAtDepth_mem h
    · exact .inr (.inl hinv.genesis)
    · exact .inl rfl
    · obtain ⟨block,hblk,rfl⟩ := mem_map.1 hcn
      have hs : state.virtualGHOSTDAGData.selectedParent = some selected.hash := hl.2.1
      rw [stageVirtual,hs] at hblk
      exact hinv.settled_chain (.inr (.inl hl.2.2.1)) block hblk

/-- A settled block on a chain is below the pending ones. -/
lemma DagInv.isInSelectedParentChainOf_pending
    (hcn : selectedParentChain state.blocks (some hash) = pending ++ rest) (hpn : ∀ block ∈ pending,
      state.blockStatus.get block.hash = some .statusUTXOPendingVerification)
    (hp : state.Settled point)
    (hin : isInSelectedParentChainOf state.toHeaderStores point hash) (hblk : block ∈ pending) :
    isInSelectedParentChainOf state.toHeaderStores point block.hash := by
  obtain ⟨x,hx,rfl⟩ := isInSelectedParentChainOf_iff.1 hin
  rw [hcn] at hx
  obtain hx | hx := mem_append.1 hx
  · exact absurd (hpn x hx) (hinv.not_pending hp)
  · have hb := selectedParentChain_pairwise hinv.shaped.wf (some hash)
    rw [hcn,pairwise_append] at hb
    exact isInSelectedParentChainOf_iff.2 ⟨x,hb.2.2 block hblk x hx,rfl⟩

end

/-! ## What resolving keeps -/

namespace Resolves

section
variable (hres : Resolves state pending state')
include hres

lemma blocks_eq : state'.blocks = state.blocks := by
  rw [hres.eq]

lemma tips_eq : state'.tips = state.tips := by
  rw [hres.eq]

lemma hasBody_iff (x : DomainHash) : state'.HasBody x ↔ state.HasBody x := by
  by_cases hx : x ∈ pending.map StoredBlock.hash
  · obtain ⟨block,hblk,rfl⟩ := mem_map.1 hx
    rw [HasBody,HasBody,hres.pending block hblk]
    obtain h | h := hres.resolved block hblk
    · simp [h]
    · simp [h]
  · rw [HasBody,HasBody,hres.frame x hx]

lemma isTip_iff (x : DomainHash) : state'.IsTip x ↔ state.IsTip x := by
  simp [VirtualStores.isTip_iff,hres.blocks_eq,hres.hasBody_iff]

lemma tipsInv (ht : TipsInv state) : TipsInv state' := by
  refine ⟨hres.tips_eq ▸ ht.nodup,fun x => ?_⟩
  rw [hres.tips_eq,hres.isTip_iff]
  exact ht.mem_iff x

/-- A status that is there before does not change. -/
lemma get_of_settled (hx : state.blockStatus.get x ≠ some .statusUTXOPendingVerification) :
    state'.blockStatus.get x = state.blockStatus.get x := by
  apply hres.frame
  intro hm
  obtain ⟨block,hblk,rfl⟩ := mem_map.1 hm
  exact hx (hres.pending block hblk)

lemma get_of_valid (hx : state.blockStatus.get x = some .statusUTXOValid) :
    state'.blockStatus.get x = some .statusUTXOValid :=
  (hres.get_of_settled (by simp [hx])).trans hx

lemma settled (hinv : DagInv cfg state) (hx : state.Settled x) : state'.Settled x := by
  rw [Settled,hres.get_of_settled (hinv.not_pending hx)]
  exact hx

/-- A block that is valid afterwards was valid before or is one of the pending ones. -/
lemma valid_cases (h : state'.blockStatus.get block.hash = some .statusUTXOValid) :
    state.blockStatus.get block.hash = some .statusUTXOValid ∨
      ∃ other ∈ pending, other.hash = block.hash := by
  by_cases hm : block.hash ∈ pending.map StoredBlock.hash
  · exact .inr (mem_map.1 hm)
  · rw [hres.frame _ hm] at h
    exact .inl h

section
variable (hinv : DagInv cfg state)
  (hcn : selectedParentChain state.blocks (some hash) = pending ++ rest)
include hinv hcn

/-- The selected parent of a pending block is the next one, unless it is the last. -/
lemma settled_parent (hblk : block ∈ pending)
    (hp : block.ghostdagData.selectedParent = some parent) : state'.Settled parent := by
  obtain ⟨_,after,rfl⟩ := append_of_mem hblk
  cases after with
  | nil => exact hres.settled hinv (hres.last block (by simp) parent hp)
  | cons next after =>
    have hn : block.ghostdagData.selectedParent = some next.hash := by
      have hl := selectedParentChain_isChain state.blocks (some hash)
      rw [hcn,append_assoc] at hl
      exact (isChain_cons_cons.1 (isChain_append.1 hl).2.1).1
    rw [hn,some.injEq] at hp
    rw [← hp]
    exact .inr (hres.resolved next (by simp))

lemma dagInv : DagInv cfg state' := by
  have hp : state'.pruningPoint = state.pruningPoint := by rw [hres.eq]
  constructor
  case shaped =>
    rw [hres.blocks_eq]
    exact hinv.shaped
  case genesis => exact hres.get_of_valid hinv.genesis
  case virtualGenesis =>
    rw [hres.get_of_settled (by simp [hinv.virtualGenesis])]
    exact hinv.virtualGenesis
  case bodies =>
    intro block hblk hb parent hpar
    rw [hres.blocks_eq] at hblk
    rw [hres.hasBody_iff] at hb ⊢
    exact hinv.bodies block hblk hb parent hpar
  case settled =>
    intro block hblk hs parent hpar
    rw [hres.blocks_eq] at hblk
    by_cases hm : block.hash ∈ pending.map StoredBlock.hash
    · obtain ⟨other,ho,heq⟩ := mem_map.1 hm
      have hst : other ∈ state.blocks := by
        refine mem_of_mem_selectedParentChain (?_ : other ∈ selectedParentChain _ (some hash))
        rw [hcn]
        exact mem_append_left _ ho
      obtain rfl := eq_of_hash_eq hinv.shaped.wf hst hblk heq
      exact hres.settled_parent hinv hcn ho hpar
    · rw [Settled,hres.frame _ hm] at hs
      exact hres.settled hinv (hinv.settled block hblk hs parent hpar)
  case pruning_mem =>
    rw [hp,hres.blocks_eq]
    exact hinv.pruning_mem
  case pruning_settled =>
    rw [hp]
    exact hres.settled hinv hinv.pruning_settled

end
end
end Resolves

/-! ## Adding a block -/

lemma hasBody_stageStatus (hash x : DomainHash) :
    (state.stageStatus hash .statusUTXOPendingVerification).HasBody x ↔
      x = hash ∨ state.HasBody x := by
  simp only [HasBody,stageStatus,get_insert]
  by_cases hx : x = hash
  · simp [hx]
  · simp [hx]

lemma settled_stageStatus (hsta : state.blockStatus.get hash = some .statusHeaderOnly) :
    (state.stageStatus hash .statusUTXOPendingVerification).Settled x ↔ state.Settled x := by
  simp only [Settled,stageStatus,get_insert]
  by_cases hx : x = hash
  · simp [hx,hsta]
  · simp [hx]

lemma hasBody_of_checkParentBody
    (h : state.checkParentBody parent = .ok ()) : state.HasBody parent := by
  rw [checkParentBody] at h
  intro heq
  rw [heq] at h
  cases h

section
variable (hinv : DagInv cfg state) (hblk : block ∈ state.blocks)
  (hsta : state.blockStatus.get block.hash = some .statusHeaderOnly)
include hinv hblk hsta

lemma dagInv_stageStatus (hp : ∀ parent ∈ block.parents, state.HasBody parent) :
    DagInv cfg (state.stageStatus block.hash .statusUTXOPendingVerification) := by
  have hg : ∀ x, x ≠ block.hash →
      (state.stageStatus block.hash .statusUTXOPendingVerification).blockStatus.get x =
        state.blockStatus.get x := fun x hx => get_insert_of_ne _ _ hx
  constructor
  case shaped => exact hinv.shaped
  case genesis =>
    rw [hg _ (hinv.ne_genesis hsta (by decide)).symm]
    exact hinv.genesis
  case virtualGenesis =>
    rw [hg _ (hinv.ne_virtualGenesis hsta).symm]
    exact hinv.virtualGenesis
  case bodies =>
    intro other hot hbd parent hpar
    rw [hasBody_stageStatus] at hbd ⊢
    obtain heq | hbd := hbd
    · obtain rfl := eq_of_hash_eq hinv.shaped.wf hot hblk heq
      exact .inr (hp parent hpar)
    · exact .inr (hinv.bodies other hot hbd parent hpar)
  case settled =>
    intro other hot hs parent hpar
    rw [settled_stageStatus hsta] at hs ⊢
    exact hinv.settled other hot hs parent hpar
  case pruning_mem => exact hinv.pruning_mem
  case pruning_settled => exact (settled_stageStatus hsta).2 hinv.pruning_settled

/-- A new body is a tip, and its parents are no longer. -/
lemma isTip_stageStatus (x : DomainHash) :
    (state.stageStatus block.hash .statusUTXOPendingVerification).IsTip x ↔
      x = block.hash ∨ state.IsTip x ∧ x ∉ block.parents := by
  rw [isTip_iff,isTip_iff]
  exact isMaximal_insert hinv.shaped.wf hblk (hasBody_stageStatus block.hash)
    fun child hc hp hb => hinv.bodies child hc hb block.hash hp hsta

end

lemma leads_stageStatus (hl : state.Leads selected)
    (hsta : state.blockStatus.get hash = some .statusHeaderOnly) :
    (state.stageStatus hash .statusUTXOPendingVerification).Leads selected := by
  obtain ⟨hm,hs,hv,ha⟩ := hl
  have hg : ∀ x,
      (state.stageStatus hash .statusUTXOPendingVerification).blockStatus.get x =
        some .statusUTXOValid ↔ state.blockStatus.get x = some .statusUTXOValid := by
    intro x
    simp only [stageStatus,get_insert]
    by_cases hx : x = hash
    · simp [hx,hsta]
    · simp [hx]
  exact ⟨hm,hs,(hg _).2 hv,fun block hblk h => ha block hblk ((hg _).1 h)⟩

/-! ## Moving virtual -/

section
variable (cfg state state')

structure ChainInv : Prop where
  dag : DagInv cfg state
  tips : TipsInv state
  leads : ∃ selected, state.Leads selected

/-- A new selected parent of virtual has the finality point from before on its chain. -/
def KeepsFinality : Prop :=
  state'.virtualSelectedParent ≠ state.virtualSelectedParent →
    ∃ point selected, state.virtualFinalityPoint cfg = .ok point ∧
      state'.virtualSelectedParent = some selected ∧
      isInSelectedParentChainOf state'.toHeaderStores (state.finalityPoint point) selected

end

lemma DagInv.congr (hinv : DagInv cfg state)
    (h : state'.toVirtualStores = state.toVirtualStores) : DagInv cfg state' := by
  cases state
  cases h
  exact ⟨hinv.shaped,hinv.genesis,hinv.virtualGenesis,hinv.bodies,hinv.settled,
    hinv.pruning_mem,hinv.pruning_settled⟩

lemma TipsInv.congr (hinv : TipsInv state)
    (h : state'.toVirtualStores = state.toVirtualStores) (ht : state'.tips = state.tips) :
    TipsInv state' := by
  cases state
  cases h
  cases ht
  exact ⟨hinv.nodup,hinv.mem_iff⟩

lemma ahead_congr (h : state'.blocks = state.blocks) : state'.Ahead a b ↔ state.Ahead a b := by
  rw [Ahead,Ahead,h]

lemma isInSelectedParentChainOf_congr (h : state'.blocks = state.blocks) {a b : DomainHash} :
    isInSelectedParentChainOf state'.toHeaderStores a b ↔
      isInSelectedParentChainOf state.toHeaderStores a b := by
  rw [isInSelectedParentChainOf,isInSelectedParentChainOf,h]

lemma Ahead.antisymm (hst : Shaped cfg.header.ghostdag state.blocks)
    (hab : state.Ahead a b) (hba : state.Ahead b a) : a.hash = b.hash := by
  obtain hab | ⟨hab,hlt⟩ := hab
  · obtain hba | ⟨hba,-⟩ := hba
    · exact hst.wf.anc_antisymm hba hab
    · exact absurd hab hba
  · obtain hba | ⟨-,hgt⟩ := hba
    · exact absurd hba hab
    · exact absurd hlt hgt.asymm

/-- The parents that are picked for virtual make what the search finds its selected
parent. -/
lemma selectedParent_of_pick (hst : state.Complete cfg) (hnd : tips.Nodup)
    (ht : ∀ tip ∈ tips, state.IsTip tip)
    (hpc : pickVirtualParents cfg state.toVirtualStores tips = .ok parents)
    (h : state.updateVirtualWithParents cfg parents = .ok state') :
    ∃ selected others data, state.Finds tips selected others ∧
      data.selectedParent = some selected.hash ∧
      state' = { state with virtualParents := parents, virtualGHOSTDAGData := data } := by
  obtain ⟨data,hd,h⟩ := bind_eq_ok h
  cases h
  obtain ⟨_,_,_,selected,others,_,-,hf,-,-,-,-,hp⟩ := (pickVirtualParents_spec hst hnd ht).2 _ hpc
  exact ⟨selected,others,data,hf,(hp.merge.mergedData hst.shaped.wf hd).selectedParent,rfl⟩

/-- With the tips of the DAG, virtual's selected parent is ahead of every valid block. -/
lemma updateVirtual_leads (hinv : DagInv cfg state) (htp : TipsInv state)
    (hl : state.blocks.length < 2^32) (h : state.updateVirtual cfg = .ok state') :
    (∃ parents data, state' =
      { state with virtualParents := parents, virtualGHOSTDAGData := data }) ∧
      ChainInv cfg state' := by
  obtain ⟨parents,hp,h⟩ := bind_eq_ok h
  have hst := hinv.complete hl
  have ht : ∀ tip ∈ state.tips, state.IsTip tip := fun tip => (htp.mem_iff tip).1
  obtain ⟨selected,_,data,hf,hsl,rfl⟩ := selectedParent_of_pick hst htp.nodup ht hp h
  obtain ⟨hv,_,_,_,hs⟩ := hf.inv hst htp.nodup ht
  refine ⟨⟨_,_,rfl⟩,hinv.congr rfl,htp.congr rfl rfl,selected,hs.mem selected mem_cons_self,
    hsl,hv,fun _ hblk hb => ?_⟩
  exact hs.ahead hst hv hblk hb fun tip ht _ => (htp.mem_iff tip).2 ht

/-- The chain of the block has the finality point, or the block is genesis. -/
def IsFinal (cfg : VirtualConfig) (state : ChainState) (hash : DomainHash) : Prop :=
  hash = cfg.header.ghostdag.genesisHash ∨ ∃ point, state.virtualFinalityPoint cfg = .ok point ∧
    isInSelectedParentChainOf state.toHeaderStores (state.finalityPoint point) hash

lemma isViolatingFinality_eq_false {notify : Bool}
    (h : state.isViolatingFinality cfg hash = .ok (false, notify)) : IsFinal cfg state hash := by
  rw [isViolatingFinality] at h
  split at h
  · next heq => exact .inl heq
  · obtain ⟨point,hp,h⟩ := bind_eq_ok h
    split at h
    · next hin => exact .inr ⟨point,hp,hin⟩
    · cases h

/-- The statuses that `AddBlock` resolves are those of a chain that keeps finality. -/
lemma resolveIfCandidate_eq_ok (hst : Shaped cfg.header.ghostdag state.blocks)
    (hg : state.blockStatus.get cfg.header.ghostdag.genesisHash = some .statusUTXOValid)
    (h : state.resolveIfCandidate cfg verifyUTXO hash = .ok state') :
    ∃ pending rest, selectedParentChain state.blocks (some hash) = pending ++ rest ∧
      Resolves state pending state' ∧ (pending ≠ [] → IsFinal cfg state hash) := by
  obtain ⟨_,-,h⟩ := bind_eq_ok h
  split at h
  · obtain ⟨⟨_,_⟩,hv,h⟩ := bind_eq_ok h
    dsimp only at h
    split at h
    · cases h
      exact ⟨[],_,rfl,.refl state,fun h => absurd rfl h⟩
    · next hn =>
      rw [Bool.not_eq_true] at hn
      subst hn
      obtain ⟨⟨_,_⟩,hr,h⟩ := bind_eq_ok h
      cases h
      obtain ⟨-,pending,rest,hcn,hres⟩ := resolveBlockStatus_eq_ok hst hg hr
      exact ⟨pending,rest,hcn,hres,fun _ => isViolatingFinality_eq_false hv⟩
  · cases h
    exact ⟨[],_,rfl,.refl state,fun h => absurd rfl h⟩

/-- The tips after a new body. -/
lemma TipsInv.addTip (htp : TipsInv state)
    (hg : block.hash ≠ cfg.header.ghostdag.genesisHash) (hb : ¬state.HasBody block.hash)
    {staged : ChainState} (hs : staged.tips = state.tips)
    (ht : ∀ x, staged.IsTip x ↔ x = block.hash ∨ state.IsTip x ∧ x ∉ block.parents) :
    TipsInv (staged.addTip cfg block) := by
  have heq : (staged.addTip cfg block).tips =
      block.hash :: state.tips.filter fun tip => tip ∉ block.parents := by
    rw [ChainState.addTip]
    rw [if_neg hg,hs]
  constructor
  · rw [heq,nodup_cons]
    refine ⟨fun hm => ?_,htp.nodup.filter _⟩
    exact hb ((htp.mem_iff _).1 (mem_filter.1 hm).1).hasBody
  · intro x
    rw [heq,mem_cons,mem_filter,htp.mem_iff,decide_eq_true_iff]
    exact (ht x).symm

lemma insertBlock_keeps (hinv : ChainInv cfg state) (hl : state.blocks.length < 2^32)
    {updateVirtual : Bool} (h : state.insertBlock cfg verifyUTXO hash updateVirtual = .ok state') :
    ChainInv cfg state' ∧ KeepsFinality cfg state state' := by
  obtain ⟨selected,hld⟩ := hinv.leads
  obtain ⟨block,hget,h⟩ := bind_eq_ok h
  obtain ⟨hblk,rfl⟩ := block_eq_ok hget
  obtain ⟨_,hsta,h⟩ := bind_eq_ok h
  rw [fromStore_eq_ok] at hsta
  obtain ⟨-,h⟩ := of_ite_error h
  obtain ⟨hh,h⟩ := of_ite_error h
  rw [not_not] at hh
  subst hh
  obtain ⟨_,hpr,h⟩ := bind_eq_ok h
  have hgen := hinv.dag.ne_genesis hsta (by decide)
  have hb : ¬state.HasBody block.hash := not_not.2 hsta
  have hd := dagInv_stageStatus hinv.dag hblk hsta
    fun parent hpa => hasBody_of_checkParentBody (forM_eq_ok.1 hpr parent hpa)
  have ht := isTip_stageStatus hinv.dag hblk hsta
  have hld' := leads_stageStatus hld hsta
  rw [addBlock] at h
  split at h
  · obtain ⟨resolved,hr,h⟩ := bind_eq_ok h
    obtain ⟨pending,_,hcn,hres,hfi⟩ := resolveIfCandidate_eq_ok hd.shaped hd.genesis hr
    have hbl : resolved.blocks = state.blocks := hres.blocks_eq
    have htp : TipsInv (resolved.addTip cfg block) :=
      hinv.tips.addTip hgen hb hres.tips_eq fun x => (hres.isTip_iff x).trans (ht x)
    have hd' : DagInv cfg (resolved.addTip cfg block) := (hres.dagInv hd hcn).congr rfl
    obtain ⟨⟨_,_,rfl⟩,hi'⟩ := updateVirtual_leads hd' htp (by rw [addTip,hbl]; exact hl) h
    refine ⟨hi',fun hne => ?_⟩
    obtain ⟨found,hfn⟩ := hi'.leads
    obtain hol | ⟨_,ho,heq⟩ := hres.valid_cases hfn.2.2.1
    · -- a block that was valid before is behind the old selected parent
      have hbc : state.Ahead selected found := hld'.2.2.2 found (hbl ▸ hfn.1) hol
      have hf := (ahead_congr hbl).1
        (hfn.2.2.2 selected (hbl ▸ hld.1) (hres.get_of_valid hld'.2.2.1))
      have heq := Ahead.antisymm hinv.dag.shaped hbc hf
      rw [hfn.2.1,hld.2.1,heq] at hne
      exact absurd rfl hne
    · obtain hg | ⟨point,hp,hin⟩ := hfi (ne_nil_of_mem ho)
      · exact absurd hg hgen
      · refine ⟨point,found.hash,hp,hfn.2.1,?_⟩
        have hs := hd.settled_finalityPoint hld' hp
        have hc' := hd.isInSelectedParentChainOf_pending hcn hres.pending hs hin ho
        rw [heq] at hc'
        exact (isInSelectedParentChainOf_congr hbl).2 hc'
  · cases h
    exact ⟨⟨hd.congr rfl,hinv.tips.addTip hgen hb rfl ht,selected,hld'⟩,fun hne => absurd rfl hne⟩

/-! ## Resolving virtual -/

/-- Only a tip that keeps finality is returned. -/
lemma findPendingTip_eq_some (h : state.findPendingTip cfg tips = .ok (some (tip, status))) :
    tip ∈ tips ∧ state.blockStatus.get tip = some status ∧ IsFinal cfg state tip := by
  induction tips with
  | nil => cases h
  | cons first tips ih =>
    have hl : state.findPendingTip cfg tips = .ok (some (tip, status)) → _ := fun h =>
      (ih h).imp_left (mem_cons_of_mem first)
    obtain ⟨⟨_,_⟩,hv,h⟩ := bind_eq_ok h
    dsimp only at h
    split at h
    · exact hl h
    · next hn =>
      rw [Bool.not_eq_true] at hn
      subst hn
      obtain ⟨_,hf,h⟩ := bind_eq_ok h
      split at h
      · cases h
        exact ⟨mem_cons_self,fromStore_eq_ok.1 hf,isViolatingFinality_eq_false hv⟩
      · exact hl h

lemma findNextPendingTip_eq_some (h : state.findNextPendingTip cfg = .ok (some (tip, status))) :
    tip ∈ state.tips ∧ state.blockStatus.get tip = some status ∧ IsFinal cfg state tip := by
  obtain ⟨_,hor,h⟩ := bind_eq_ok h
  obtain ⟨_,hb,hor⟩ := bind_eq_ok hor
  cases hor
  obtain ⟨hm,hr⟩ := findPendingTip_eq_some h
  refine ⟨?_,hr⟩
  obtain ⟨_,hblk,rfl⟩ := mem_map.1 hm
  rw [mem_insertionSort] at hblk
  obtain ⟨tip,ht,hg⟩ := exists_of_mem_mapM hb _ hblk
  rw [(block_eq_ok hg).2]
  exact ht

lemma searchProcessingPoint_mem {index : Nat}
    (h : state.searchProcessingPoint unverifiedBlocks previous index = .ok block) :
    block ∈ unverifiedBlocks := by
  induction index with
  | zero =>
    obtain ⟨found,hfn,isNew,-,h⟩ := bind₂_eq_ok h
    split at h
    · exact Except.ok.inj h ▸ mem_of_indexSlice hfn
    · cases h
  | succ index ih =>
    obtain ⟨found,hfn,isNew,-,h⟩ := bind₂_eq_ok h
    split at h
    · exact Except.ok.inj h ▸ mem_of_indexSlice hfn
    · exact ih h

lemma chooseProcessingPoint_eq_ok
    (h : state.chooseProcessingPoint pendingTip unverifiedBlocks previous maxBlocksToResolve =
      .ok point) : point = pendingTip ∨ ∃ block ∈ unverifiedBlocks, block.hash = point := by
  rw [chooseProcessingPoint] at h
  split at h
  · obtain ⟨block,hblk,h⟩ := bind_eq_ok h
    cases h
    exact .inr ⟨block,searchProcessingPoint_mem hblk,rfl⟩
  · cases h
    exact .inl rfl

lemma less_eq_ok_true (hst : Shaped cfg.header.ghostdag state.blocks)
    (ha : a ∈ state.blocks) (hb : b ∈ state.blocks)
    (h : less state.blocks a.hash b.hash = .ok true) : a.key < b.key := by
  rw [less_of_mem hst.wf ha hb] at h
  exact of_decide_eq_true (Except.ok.inj h)

lemma takeLowerTips_eq_ok {lowerTips : List DomainHash}
    (h : state.takeLowerTips pendingTip tips = .ok lowerTips) :
    lowerTips.Sublist tips ∧ ∀ tip ∈ lowerTips, tip ≠ pendingTip ∧
      less state.blocks tip pendingTip = .ok true := by
  induction tips generalizing lowerTips with
  | nil =>
    cases h
    exact ⟨List.Sublist.refl _,forall_mem_nil _⟩
  | cons tip tips ih =>
    rw [takeLowerTips] at h
    split at h
    · obtain ⟨hs,hls⟩ := ih h
      exact ⟨hs.cons tip,hls⟩
    · next hne =>
      obtain ⟨_,hi,_,hr,h⟩ := bind₂_eq_ok h
      cases h
      obtain ⟨hs,hls⟩ := ih hr
      split
      · next ht =>
        subst ht
        exact ⟨hs.cons_cons tip,forall_mem_cons.2 ⟨⟨hne,hi⟩,hls⟩⟩
      · exact ⟨hs.cons tip,hls⟩

/-- A single parent of virtual is its selected parent. -/
lemma selectedParent_of_singleton (hst : Shaped cfg.header.ghostdag state.blocks)
    (hmm : point ∈ state.blocks.hashes) (hne : point ≠ virtualGenesisBlockHash)
    (h : state.updateVirtualWithParents cfg [point] = .ok state') :
    ∃ data, data.selectedParent = some point ∧
      state' = { state with virtualParents := [point], virtualGHOSTDAGData := data } := by
  obtain ⟨data,hd,h⟩ := bind_eq_ok h
  cases h
  have hpr : CheckedParents state.blocks [point] := by
    refine ⟨cons_ne_nil _ _,?_,?_,?_⟩
    · simpa using hmm
    · simpa using hne
    · intro _ hp _ hq hpq
      exact absurd ((mem_singleton.1 hp).trans (mem_singleton.1 hq).symm) hpq
  obtain ⟨_,_,hm⟩ := hpr.exists_merge hst.wf
  have hs := (hm.mergedData hst.wf hd).selectedParent
  rw [mem_singleton.1 hm.selected_parent] at hs
  exact ⟨data,hs,rfl⟩

/-- `ResolveVirtual` makes the processing point virtual's selected parent, whatever its
status is. -/
lemma resolveToProcessingPoint_eq_ok (hinv : DagInv cfg state) (ht : TipsInv state)
    (hln : state.blocks.length < 2^32) (htp : pendingTip ∈ state.tips)
    (hm : point ∈ state.blocks.hashes) (hne : point ≠ virtualGenesisBlockHash)
    (h : state.resolveToProcessingPoint cfg verifyUTXO pendingTip point = .ok state') :
    ∃ pending rest resolved status parents data,
      selectedParentChain state.blocks (some point) = pending ++ rest ∧
      Resolves state pending resolved ∧
      state.resolveBlockStatus cfg verifyUTXO point = .ok (resolved, status) ∧
      data.selectedParent = some point ∧
      state' = { resolved with virtualParents := parents, virtualGHOSTDAGData := data } := by
  obtain ⟨⟨resolved,status⟩,hr,h⟩ := bind_eq_ok h
  obtain ⟨hsta,pending,rest,hcn,hres⟩ := resolveBlockStatus_eq_ok hinv.shaped hinv.genesis hr
  have hd := hres.dagInv hinv hcn
  have hbl := hres.blocks_eq
  dsimp only at h
  split at h
  · next hc =>
    obtain ⟨rfl,rfl⟩ := hc
    obtain ⟨_,hlw,h⟩ := bind_eq_ok h
    obtain ⟨lower,htk,hlw⟩ := bind_eq_ok hlw
    cases hlw
    obtain ⟨parents,hp,h⟩ := bind_eq_ok h
    obtain ⟨hsub,hl⟩ := takeLowerTips_eq_ok htk
    rw [hres.tips_eq] at hsub
    have hnd : (point :: lower).Nodup :=
      nodup_cons.2 ⟨fun hin => (hl point hin).1 rfl,ht.nodup.sublist hsub⟩
    have ht' : ∀ tip ∈ point :: lower, resolved.IsTip tip := by
      intro tip hin
      rw [hres.isTip_iff,← ht.mem_iff]
      obtain rfl | hin := mem_cons.1 hin
      · exact htp
      · exact hsub.subset hin
    obtain ⟨selected,_,data,hf,hs,rfl⟩ :=
      selectedParent_of_pick (hd.complete (by rw [hbl]; exact hln)) hnd ht' hp h
    obtain ⟨block,hblk,rfl⟩ := mem_hashes.1 hm
    rw [← hbl] at hblk
    -- the lower tips are below the point, so that it is the one that is selected
    have heq : selected = block := by
      refine hf.eq_of_greatest hd.shaped hnd hblk mem_cons_self hsta ?_
      intro _ hb hin
      obtain heq | hin := mem_cons.1 hin
      · rw [eq_of_hash_eq hd.shaped.wf hb hblk heq]
      · exact (less_eq_ok_true hd.shaped hb hblk (hl _ hin).2).le
    rw [heq] at hs
    exact ⟨pending,rest,resolved,_,parents,data,hcn,hres,hr,hs,rfl⟩
  · rw [← hbl] at hm
    obtain ⟨data,hs,rfl⟩ := selectedParent_of_singleton hd.shaped hm hne h
    exact ⟨pending,rest,resolved,_,[point],data,hcn,hres,hr,hs,rfl⟩

lemma ahead_of_key_lt (hst : Shaped cfg.header.ghostdag state.blocks) {old new : StoredBlock}
    (ho : old ∈ state.blocks) (hn : new ∈ state.blocks) (hblk : block ∈ state.blocks)
    (hne : new.hash ≠ virtualGenesisBlockHash) (hg : new.hash ≠ cfg.header.ghostdag.genesisHash)
    (hlt : old.key < new.key) (hah : state.Ahead old block) : state.Ahead new block := by
  by_cases hp : state.blocks.isAncestorOf block.hash new.hash
  · exact .inl hp
  -- a block that is not in the past of the new one is above genesis
  obtain ⟨hb,hbn⟩ := hst.ne_of_not_isAncestorOf (hash_mem hn) hne hp
  have hle : block.key ≤ old.key := by
    obtain han | ⟨-,hlt⟩ := hah
    · exact hst.key_le hblk ho han hb hbn
    · exact hlt.le
  refine .inr ⟨fun ha => ?_,hle.trans_lt hlt⟩
  have hge := hst.key_le hn hblk ha hg hne
  exact absurd (hle.trans_lt hlt) hge.not_gt

lemma DagInv.not_isTip_virtualGenesis (hinv : DagInv cfg state) :
    ¬state.IsTip virtualGenesisBlockHash := by
  rintro ⟨-,-,hc⟩
  obtain ⟨genesis,hm,hh,hp⟩ := genesis_parents hinv.shaped
  exact hc genesis hm hp (hasBody_of_valid (hh ▸ hinv.genesis))

/-- Genesis is a tip only as long as it is virtual's selected parent. -/
lemma DagInv.eq_genesis_of_isTip (hinv : DagInv cfg state) (hl : state.blocks.length < 2^32)
    (hld : state.Leads selected) (ht : state.IsTip cfg.header.ghostdag.genesisHash) :
    selected.hash = cfg.header.ghostdag.genesisHash := by
  by_contra hne
  have hm : selected.hash ∈ state.blocks.hashes := hash_mem hld.1
  obtain ⟨child,hc,hp,ha⟩ := hinv.shaped.exists_child_of_isAncestorOf
    (hinv.shaped.isAncestorOf_genesis hm (hinv.ne_virtualGenesis hld.2.2.1)) (Ne.symm hne)
  exact ht.childless child hc hp
    (hasBody_of_isAncestorOf (hinv.complete hl) ha (hasBody_of_valid hld.2.2.1))

/-- A valid processing point that is not less than the old selected parent leads. -/
lemma leads_of_resolves (hinv : DagInv cfg state) {point : StoredBlock}
    (hl : state.Leads selected) {resolved : ChainState}
    (hcn : selectedParentChain state.blocks (some point.hash) = pending ++ rest)
    (hres : Resolves state pending resolved) {data : BlockGHOSTDAGData}
    (hs : data.selectedParent = some point.hash) (hp : point ∈ state.blocks)
    (hv : resolved.blockStatus.get point.hash = some .statusUTXOValid)
    (ha : ∀ block ∈ state.blocks, state.Ahead selected block → state.Ahead point block) :
    Leads { resolved with virtualParents := parents, virtualGHOSTDAGData := data } point := by
  have hbl := hres.blocks_eq
  refine ⟨hbl ▸ hp,hs,hv,fun block hblk hb => ?_⟩
  rw [hbl] at hblk
  refine (ahead_congr hbl).2 ?_
  obtain hol | ⟨other,ho,heq⟩ := hres.valid_cases hb
  · exact ha block hblk (hl.2.2.2 block hblk hol)
  · refine .inl (isAncestorOf_of_mem_selectedParentChain hinv.shaped (mem_map.2 ?_))
    refine ⟨other,?_,heq⟩
    rw [hcn]
    exact mem_append_left _ ho

/-- The processing point is above genesis and has the finality point on its chain. -/
lemma findProcessingPoint_eq_some {tip : DomainHash} (hinv : ChainInv cfg state)
    (hl : state.blocks.length < 2^32)
    (h : state.findProcessingPoint cfg maxBlocksToResolve = .ok (some (tip, point))) :
    tip ∈ state.tips ∧ point ∈ state.blocks.hashes ∧ point ≠ virtualGenesisBlockHash ∧
      point ≠ cfg.header.ghostdag.genesisHash ∧ ∃ finality,
        state.virtualFinalityPoint cfg = .ok finality ∧
        isInSelectedParentChainOf state.toHeaderStores (state.finalityPoint finality) point := by
  obtain ⟨_,hld⟩ := hinv.leads
  obtain ⟨next,hn,h⟩ := bind_eq_ok h
  cases next with
  | none => cases h
  | some next =>
    obtain ⟨tip,_⟩ := next
    obtain ⟨hti,hsta,hf⟩ := findNextPendingTip_eq_some hn
    have hit := (hinv.tips.mem_iff tip).1 hti
    obtain ⟨_,hpr,h⟩ := bind_eq_ok h
    rw [hld.2.1] at hpr
    cases hpr
    split at h
    · cases h
    next hgo =>
    obtain ⟨_,hu,h⟩ := bind_eq_ok h
    obtain ⟨⟨_,ht⟩,hpn⟩ := getUnverifiedChainBlocks_eq_ok hu
    obtain ⟨point,hpt,h⟩ := bind_eq_ok h
    cases h
    have htn : tip ≠ virtualGenesisBlockHash := by
      rintro rfl
      exact hinv.dag.not_isTip_virtualGenesis hit
    have htp : tip ≠ cfg.header.ghostdag.genesisHash := by
      rintro rfl
      rw [hinv.dag.genesis,some.injEq] at hsta
      exact hgo ⟨hsta.symm,hinv.dag.eq_genesis_of_isTip hl hld hit⟩
    obtain hg | ⟨finality,hf,hin⟩ := hf
    · exact absurd hg htp
    have hs := hinv.dag.settled_finalityPoint hld hf
    obtain rfl | ⟨block,hblk,rfl⟩ := chooseProcessingPoint_eq_ok hpt
    · exact ⟨hti,hit.mem,htn,htp,finality,hf,hin⟩
    · -- a pending block of the chain is above the finality point
      have hb := hpn block hblk
      exact ⟨hti,hash_mem (mem_of_mem_selectedParentChain (ht ▸ mem_append_left _ hblk)),
        hinv.dag.ne_virtualGenesis hb,hinv.dag.ne_genesis hb (by decide),finality,hf,
        hinv.dag.isInSelectedParentChainOf_pending ht hpn hs hin hblk⟩

section
variable (cfg verifyUTXO state)

/-- The block is virtual's selected parent, or it comes after it in parent selection order and its
chain passes verification. -/
def mayMoveTo (point : DomainHash) : Bool :=
  match state.virtualSelectedParent with
  | none => false
  | some selectedParent => point = selectedParent ∨
    less state.blocks selectedParent point = .ok true ∧
      passesVerification cfg verifyUTXO state point

/-- Virtual's selected parent is not genesis, and the block comes before it in parent selection
order. -/
def isBehindVirtual (block : DomainHash) : Bool :=
  match state.virtualSelectedParent with
  | none => false
  | some selectedParent => selectedParent ≠ cfg.header.ghostdag.genesisHash ∧
    less state.blocks block selectedParent = .ok true

end

lemma resolveVirtual_keeps (hinv : ChainInv cfg state) (hl : state.blocks.length < 2^32)
    (h : state.resolveVirtual cfg verifyUTXO maxBlocksToResolve = .ok state')
    (hm : ∀ tip point, state.findProcessingPoint cfg maxBlocksToResolve =
      .ok (some (tip, point)) → mayMoveTo cfg verifyUTXO state point) :
    ChainInv cfg state' ∧ KeepsFinality cfg state state' := by
  obtain ⟨_,hld⟩ := hinv.leads
  obtain ⟨next,hn,h⟩ := bind_eq_ok h
  cases next with
  | none =>
    cases h
    exact ⟨hinv,fun hne => absurd rfl hne⟩
  | some next =>
    obtain ⟨tip,point⟩ := next
    have hp := hm tip point hn
    obtain ⟨hti,hm,hne,hg,finality,hf,hpi⟩ := findProcessingPoint_eq_some hinv hl hn
    obtain ⟨_,_,_,_,_,_,hcn,hres,hr,hsel,rfl⟩ :=
      resolveToProcessingPoint_eq_ok hinv.dag hinv.tips hl hti hm hne h
    obtain ⟨block,hblk,rfl⟩ := mem_hashes.1 hm
    refine ⟨⟨(hres.dagInv hinv.dag hcn).congr rfl,(hres.tipsInv hinv.tips).congr rfl rfl,block,
      ?_⟩,fun _ => ?_⟩
    · rw [mayMoveTo,hld.2.1] at hp
      obtain heq | ⟨hls,hv⟩ := of_decide_eq_true hp
      · obtain rfl := eq_of_hash_eq hinv.dag.shaped.wf hblk hld.1 heq
        exact leads_of_resolves hinv.dag hld hcn hres hsel hblk
          (hres.get_of_valid hld.2.2.1) fun _ _ ha => ha
      · have hsta := (resolveBlockStatus_eq_ok hinv.dag.shaped hinv.dag.genesis hr).1
        rw [valid_of_passesVerification hr hv] at hsta
        exact leads_of_resolves hinv.dag hld hcn hres hsel hblk hsta
          fun _ ho => ahead_of_key_lt hinv.dag.shaped hld.1 hblk ho hne hg
            (less_eq_ok_true hinv.dag.shaped hld.1 hblk hls)
    · exact ⟨finality,block.hash,hf,hsel,(isInSelectedParentChainOf_congr hres.blocks_eq).2 hpi⟩

/-- Statuses are committed up to a block that virtual's selected parent is ahead of. -/
lemma failResolveVirtual_keeps {index : Nat} (hinv : ChainInv cfg state)
    (h : state.failResolveVirtual cfg verifyUTXO maxBlocksToResolve index = .ok state')
    (hb : ∀ block, state.findUnverifiedBlock cfg maxBlocksToResolve index = .ok (some block) →
      isBehindVirtual cfg state block) :
    ChainInv cfg state' ∧ KeepsFinality cfg state state' := by
  obtain ⟨selected,hld⟩ := hinv.leads
  obtain ⟨found,hn,h⟩ := bind_eq_ok h
  cases found with
  | none =>
    cases h
    exact ⟨hinv,fun hne => absurd rfl hne⟩
  | some last =>
    obtain ⟨⟨_,_⟩,hr,h⟩ := bind_eq_ok h
    cases h
    obtain ⟨-,pending,_,hcn,hres⟩ := resolveBlockStatus_eq_ok hinv.dag.shaped hinv.dag.genesis hr
    have hlt := hb last hn
    rw [isBehindVirtual,hld.2.1] at hlt
    obtain ⟨hg,hlt⟩ := of_decide_eq_true hlt
    obtain ⟨_,hu,-⟩ := bind_eq_ok hr
    obtain ⟨block,hblk,-⟩ := bind_eq_ok hu
    obtain ⟨hm,rfl⟩ := block_eq_ok hblk
    have hbl := hres.blocks_eq
    have hsp : state'.virtualSelectedParent = state.virtualSelectedParent := by
      rw [hres.eq]
      rfl
    refine ⟨⟨hres.dagInv hinv.dag hcn,hres.tipsInv hinv.tips,selected,hbl ▸ hld.1,
      hsp.trans hld.2.1,hres.get_of_valid hld.2.2.1,fun other ho hv => (ahead_congr hbl).2 ?_⟩,
      fun hne => absurd hsp hne⟩
    rw [hbl] at ho
    obtain hv | ⟨committed,hc,heq⟩ := hres.valid_cases hv
    · exact hld.2.2.2 other ho hv
    · -- the block is on the chain of the last one
      refine ahead_of_key_lt hinv.dag.shaped hm hld.1 ho (hinv.dag.ne_virtualGenesis hld.2.2.1) hg
        (less_eq_ok_true hinv.dag.shaped hm hld.1 hlt) (.inl ?_)
      refine isAncestorOf_of_mem_selectedParentChain hinv.dag.shaped
        (mem_map.2 ⟨committed,?_,heq⟩)
      rw [hcn]
      exact mem_append_left _ hc

/-! ## Headers and the pruning point -/

lemma insertHeader_keeps (hinv : ChainInv cfg state) {header : BlockHeader}
    (h : state.insertHeader cfg hash header = .ok state') :
    ChainInv cfg state' ∧ KeepsFinality cfg state state' := by
  obtain ⟨selected,hl⟩ := hinv.leads
  have hd := hinv.dag
  obtain ⟨_,hst,h⟩ := bind_eq_ok h
  cases h
  obtain ⟨_,_,_,-,-,hsp,rfl⟩ := processHeader_eq_ok hd.shaped hst
  have hsh := Shaped.cons hd.shaped hsp
  have hn : ∀ x ∈ state.blocks.hashes, x ≠ hash := by
    rintro x hx rfl
    exact hsp.new hx
  have hg : ∀ x ∈ state.blocks.hashes,
      (state.blockStatus.insert hash .statusHeaderOnly).get x = state.blockStatus.get x :=
    fun x hx => get_insert_of_ne _ _ (hn x hx)
  have hv : virtualGenesisBlockHash ∈ state.blocks.hashes :=
    (hd.shaped.mem_of_isAncestorOf (hd.shaped.isAncestorOf_virtualGenesis
      hd.shaped.genesis_mem cfg.header.ghostdag.genesis_ne)).1
  have hsf : (state.blockStatus.insert hash .statusHeaderOnly).get hash =
      some .statusHeaderOnly := get_insert_self _ _ _
  refine ⟨⟨?_,⟨hinv.tips.nodup,fun x => ?_⟩,selected,?_⟩,fun hne => absurd rfl hne⟩
  · constructor
    case shaped => exact hsh
    case genesis => exact (hg _ hd.shaped.genesis_mem).trans hd.genesis
    case virtualGenesis => exact (hg _ hv).trans hd.virtualGenesis
    case bodies =>
      intro block hblk hbd parent hp
      obtain rfl | hblk := mem_cons.1 hblk
      · exact absurd hsf hbd
      · have hm := parent_mem hd.shaped hblk hp
        rw [HasBody,hg _ (hash_mem hblk)] at hbd
        rw [HasBody,hg _ hm]
        exact hd.bodies block hblk hbd parent hp
    case settled =>
      intro block hblk hsl parent hp
      obtain rfl | hblk := mem_cons.1 hblk
      · obtain heq | heq | heq := hsl
        · exact absurd hv (heq ▸ hsp.new)
        · rw [hsf] at heq
          cases heq
        · rw [hsf] at heq
          cases heq
      · rw [Settled,hg _ (hash_mem hblk)] at hsl
        rw [Settled,hg _ (hd.shaped.selectedParent_mem hblk hp)]
        exact hd.settled block hblk hsl parent hp
    case pruning_mem => exact mem_cons_of_mem _ hd.pruning_mem
    case pruning_settled =>
      rw [Settled,hg _ hd.pruning_mem]
      exact hd.pruning_settled
  · -- a header is no tip, and its parents stay tips
    rw [hinv.tips.mem_iff,isTip_iff,isTip_iff]
    exact (isMaximal_cons (fun x hx => by rw [HasBody,HasBody,hg x hx]) (not_not.2 hsf)).symm
  · obtain ⟨hm,hs,hvl,ha⟩ := hl
    refine ⟨mem_cons_of_mem _ hm,hs,(hg _ (hash_mem hm)).trans hvl,?_⟩
    intro block hblk hbv
    obtain rfl | hblk := mem_cons.1 hblk
    · rw [hsf] at hbv
      cases hbv
    · rw [hg _ (hash_mem hblk)] at hbv
      rw [Ahead,hsh.isAncestorOf_cons (hash_mem hm),hsh.isAncestorOf_cons (hash_mem hblk)]
      exact ha block hblk hbv

lemma movePruningPoint_keeps (hinv : ChainInv cfg state) {pruningPoint : DomainHash}
    (h : state.movePruningPoint pruningPoint = .ok state') :
    ChainInv cfg state' ∧ KeepsFinality cfg state state' := by
  obtain ⟨selected,hld⟩ := hinv.leads
  have hd := hinv.dag
  obtain ⟨_,hs,h⟩ := bind_eq_ok h
  rw [hld.2.1] at hs
  cases hs
  split at h
  · next hin =>
    cases h
    obtain ⟨block,hblk,rfl⟩ := isInSelectedParentChainOf_iff.1 hin
    refine ⟨⟨⟨hd.shaped,hd.genesis,hd.virtualGenesis,hd.bodies,hd.settled,
      hash_mem (mem_of_mem_selectedParentChain hblk),
      hd.settled_chain (.inr (.inl hld.2.2.1)) block hblk⟩,
      ⟨hinv.tips.nodup,fun _ => ?_⟩,selected,hld⟩,fun hne => absurd rfl hne⟩
    rw [hinv.tips.mem_iff,isTip_iff,isTip_iff]
    rfl
  · cases h

/-! ## Runs -/

section
variable (cfg verifyUTXO state)

/-- No stored header turns out to have an invalid body. `ResolveVirtual` goes to a block that passes
verification and comes after virtual's selected parent. Where it fails, the blocks whose statuses it
has committed come before virtual's selected parent. -/
def isOrderlyMove : Move → Bool
  | .perform (.rejectBody _) => false
  | .perform (.resolveVirtual maxBlocksToResolve) =>
    match state.findProcessingPoint cfg maxBlocksToResolve with
    | .ok (some (_, processingPoint)) => mayMoveTo cfg verifyUTXO state processingPoint
    | _ => true
  | .perform _ => true
  | .failResolveVirtual maxBlocksToResolve index =>
    match state.findUnverifiedBlock cfg maxBlocksToResolve index with
    | .ok (some lastCommitted) => isBehindVirtual cfg state lastCommitted
    | _ => true

/-- The condition on a step. The children of a block are counted in 32 bits. -/
def isOrderly (move : Move) : Bool :=
  state.blocks.length < 2^32 && isOrderlyMove cfg verifyUTXO state move

end

lemma move_keeps {step : Move} (hinv : ChainInv cfg state)
    (ho : isOrderly cfg verifyUTXO state step)
    (h : move cfg verifyUTXO state step = some state') :
    ChainInv cfg state' ∧ KeepsFinality cfg state state' := by
  rw [isOrderly,Bool.and_eq_true,decide_eq_true_iff] at ho
  obtain ⟨hl,ho⟩ := ho
  cases step with
  | perform action =>
    have h := toOption_eq_some.1 h
    cases action with
    | insertHeader hash _ => exact insertHeader_keeps hinv h
    | insertBlock hash _ => exact insertBlock_keeps hinv hl h
    | rejectBody hash => exact absurd ho Bool.false_ne_true
    | resolveVirtual _ =>
      refine resolveVirtual_keeps hinv hl h fun tip point hp => ?_
      rw [isOrderlyMove,hp] at ho
      exact ho
    | movePruningPoint _ => exact movePruningPoint_keeps hinv h
  | failResolveVirtual _ _ =>
    refine failResolveVirtual_keeps hinv (toOption_eq_some.1 h) fun block hb => ?_
    rw [isOrderlyMove,hb] at ho
    exact ho

lemma mem_hashes_init {genesis : HeaderRecord} :
    x ∈ (init cfg genesis).blocks.hashes ↔
      x = cfg.header.ghostdag.genesisHash ∨ x = virtualGenesisBlockHash := by
  simp [init,initHeaderStores,initStores,hashes]

lemma chainInv_init (cfg : VirtualConfig) (genesis : HeaderRecord) :
    ChainInv cfg (init cfg genesis) := by
  have hne := cfg.header.ghostdag.genesis_ne
  have hvl : (init cfg genesis).blockStatus.get cfg.header.ghostdag.genesisHash =
      some .statusUTXOValid := get_insert_self _ _ _
  have hvr : (init cfg genesis).blockStatus.get virtualGenesisBlockHash = none := by
    rw [init,get_insert_of_ne _ _ hne.symm,get_empty]
  have hbd : ∀ x ∈ (init cfg genesis).blocks.hashes, (init cfg genesis).HasBody x := by
    intro x hx
    obtain rfl | rfl := mem_hashes_init.1 hx
    · exact hasBody_of_valid hvl
    · rw [HasBody,hvr]
      decide
  have hgm : cfg.header.ghostdag.genesisHash ∈ (init cfg genesis).blocks.hashes :=
    Shaped.init.genesis_mem
  have hsh : Shaped cfg.header.ghostdag (init cfg genesis).blocks := .init
  refine ⟨⟨hsh,hvl,hvr,fun block hblk _ parent hp => ?_,
    fun block hblk _ parent hp => ?_,hgm,.inr (.inl hvl)⟩,
    ⟨nodup_singleton _,fun x => ?_⟩,?_⟩
  · exact hbd parent (parent_mem hsh hblk hp)
  · obtain rfl | rfl := mem_hashes_init.1 (hsh.selectedParent_mem hblk hp)
    · exact .inr (.inl hvl)
    · exact .inl rfl
  · constructor
    · intro hx
      obtain rfl := mem_singleton.1 hx
      refine ⟨hgm,hbd _ hgm,fun child hch hp => ?_⟩
      obtain rfl | rfl := mem_initStores.1 hch
      · exact absurd (mem_singleton.1 hp) hne
      · cases hp
    · rintro ⟨hm,-,hc⟩
      obtain rfl | rfl := mem_hashes_init.1 hm
      · exact mem_singleton_self _
      · obtain ⟨child,hch,hhs,hp⟩ := genesis_parents hsh
        exact absurd (hbd _ (hash_mem hch)) (hc child hch hp)
  · obtain ⟨block,hblk,hhs,-⟩ := genesis_parents hsh
    refine ⟨block,hblk,?_,by rw [hhs]; exact hvl,fun _ ho hsta => .inl ?_⟩
    · rw [hhs]
      rfl
    · rw [hhs]
      obtain heq | heq := mem_hashes_init.1 (hash_mem ho)
      · rw [heq]
        exact Shaped.isAncestorOf_refl hgm
      · rw [heq,hvr] at hsta
        cases hsta

def finalityConfig : VirtualConfig where
  header :=
    { ghostdag := configWithK 3
      mergeSetSizeLimit := 180
      timestampDeviationTolerance := 2
      difficultyAdjustmentWindowSize := 3
      mergeDepth := 6
      finalityDepth := 1 }
  maxBlockParents := 10
  maxBlockParents_pos := by decide
  mergeSetSizeLimit_pos := by decide
  mergeSetSizeLimit_lt := by decide

/-- The header of a block and then its body. -/
def blockOn (hash : DomainHash) (parents : List DomainHash) (updateVirtual : Bool) : List Move :=
  [.perform (.insertHeader hash { headerOn parents with daaScore := boundedMergeActivation }),
    .perform (.insertBlock hash updateVirtual)]

/-- A chain of two blocks, and a longer one on its first block. The first call that resolves the
longer one fails when it has committed the status of block 2. -/
def forkMoves : List Move :=
  blockOn 1 [0] true ++ blockOn 8 [1] true ++ blockOn 2 [1] false ++ blockOn 13 [2] false ++
    [.failResolveVirtual 0 1]

/-- What a run and one more step do to virtual: the finality point before the step, and the
selected parents before and after it. -/
def observe (verifyUTXO : DomainHash → Bool) (moves : List Move) (last : Move) :
    Option (DomainHash × Option DomainHash × Option DomainHash) := do
  let state ← run (move finalityConfig verifyUTXO) (init finalityConfig genesisRecord) moves
  let state' ← move finalityConfig verifyUTXO state last
  let point ← (state.virtualFinalityPoint finalityConfig).toOption
  return (state.finalityPoint point, state.virtualSelectedParent, state'.virtualSelectedParent)

lemma observe_eq_some {moves : List Move} {last : Move} {finality : DomainHash}
    {before after : Option DomainHash}
    (h : observe verifyUTXO moves last = some (finality, before, after)) :
    ∃ state state' point,
      run (move finalityConfig verifyUTXO) (init finalityConfig genesisRecord) moves =
        some state ∧
      move finalityConfig verifyUTXO state last = some state' ∧
      state.virtualFinalityPoint finalityConfig = .ok point ∧
      state.finalityPoint point = finality ∧ state.virtualSelectedParent = before ∧
      state'.virtualSelectedParent = after := by
  obtain ⟨state,hr,h⟩ := bind_eq_some_iff.1 h
  obtain ⟨state',hs,h⟩ := bind_eq_some_iff.1 h
  obtain ⟨point,hp,h⟩ := bind_eq_some_iff.1 h
  have hv := some.inj h
  rw [Prod.mk.injEq,Prod.mk.injEq] at hv
  exact ⟨state,state',point,hr,hs,toOption_eq_some.1 hp,hv⟩

/-- Block 15 fails its verification. `ResolveVirtual` moves virtual onto it all the same, so
that block 3 below it is the finality point. -/
def disqualifiedMoves : List Move :=
  blockOn 12 [0] true ++ blockOn 3 [0] false ++ blockOn 15 [3] false ++
    [.perform (.resolveVirtual 0),.perform (.insertHeader 13
      { headerOn [12] with daaScore := boundedMergeActivation })]

end ChainState
end Eiyaro
