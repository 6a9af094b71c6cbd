import Eiyaro.Consensus.Recorded
import Eiyaro.Util.Run

/-!
# Every valid block can be restored

The diffs stay sound along every run of insertions and virtual resolutions that
moves virtual only to the greatest UTXO-valid block, and so do the recorded acceptance
data and the order of the diff children. A virtual resolution moves virtual to its
processing point in any case, also to one that failed verification.
-/

namespace Eiyaro
open List FinMap ConsensusStores Option
variable {isViolatingFinality : DomainHash → Bool} {s t : UtxoCollection}
variable {reversal : Option UTXODiffReversalData}

namespace Consensus
open UTXODiff
variable {M : Type} [AddCommGroup M] {cs : Consensus M}
  {values : DomainOutpoint → UInt64 → UTXOEntry} {root : DomainHash} {rootSet : UtxoCollection}
  {st st' : ConsensusStores M} {tip hash : DomainHash} {action : Action}

/-! ## Moving virtual -/

lemma commitVirtualUTXODiff_eq {d : UTXODiff} (h : d.Leads values s t) :
    commitVirtualUTXODiff s d = t := by
  ext1 o
  rw [h.get_eq_lookup o,commitVirtualUTXODiff,get_insertAll,get_eraseAll, UtxoCollection.contains]
  cases d.toAdd.get o with
  | some _ => rfl
  | none => cases d.toRemove.get o <;> simp

section
variable (cs root rootSet)

/-- The merge set of virtual can be accepted on the past UTXO set of its selected parent. -/
def VirtualFresh (virtualData : VirtualData) : Prop :=
  ∀ selectedParent s, virtualData.ghostdagData.selectedParent = some selectedParent →
    cs.Replays root rootSet selectedParent s →
    cs.Acceptable virtualBlockHash virtualData.daaScore virtualData.ghostdagData s

end

/-- Virtual gets parents of which the tip of the forest of diffs is the selected one. -/
lemma updateVirtualWithParents_sound (hcs : cs.WellFormed values) {virtualData : VirtualData}
    (h : cs.Sound values root rootSet st tip)
    (hpar : virtualData.ghostdagData.selectedParent = some tip)
    (hf : cs.VirtualFresh root rootSet virtualData)
    (hu : cs.updateVirtualWithParents st virtualData = .ok st') :
    cs.Sound values root rootSet st' tip ∧ st'.blockStatus = st.blockStatus ∧
      st'.utxoDiffChild = st.utxoDiffChild ∧ st'.virtualSelectedParent = some tip ∧
      ∀ k, st.Resolved k → st'.acceptanceData.get k = st.acceptanceData.get k := by
  -- virtual has acceptance data and a multiset of its own, but is no block
  have hne : ∀ k, st.Resolved k → k ≠ virtualBlockHash := by
    rintro k hk rfl
    obtain ⟨_,hd⟩ := h.exists_blockData hk
    rw [hcs.virtual_notStored] at hd
    cases hd
  obtain ⟨past,hp,_,hstg,hu⟩ := bind₂_eq_ok hu
  cases hu
  obtain ⟨t,-,ht,-⟩ := h.restorable h.tip_resolved
  -- the past UTXO of virtual starts at the past UTXO of the tip
  obtain ⟨_,hdf,hl⟩ := h.restorePastUTXO_eq h.tip_resolved ht
  rw [calculateVirtualPastUTXO,hpar,dereference,ok_bind,hdf,ok_bind,calculatePastUTXO,
    if_neg hcs.virtual_ne_genesis,hpar,dereference,ok_bind,h.multiset_eq h.tip_resolved ht] at hp
  obtain ⟨_,-,hvr⟩ := exists_replay_of_calculatePastUTXO hcs.bodies h.agrees hl
    (hf tip t hpar ht).noRecreation hp
  -- the tip has the diff from the old UTXO set of virtual
  obtain ⟨tipDiff,htd,htl⟩ := h.tip_diff ht
  obtain ⟨newDiff,hnd,hn⟩ := liftDiffError_diffFrom h.agrees hvr htl
  obtain ⟨selectedTip,hs,hstg⟩ := bind_eq_ok hstg
  obtain rfl : tip = selectedTip := some.inj (hpar.symm.trans (dereference_eq_ok.1 hs))
  obtain ⟨oldDiff,ho,hstg⟩ := bind_eq_ok hstg
  obtain rfl : tipDiff = oldDiff := some.inj (htd.symm.trans (fromStore_eq_ok.1 ho))
  rw [hnd] at hstg
  cases hstg
  have hst := commitVirtualUTXODiff_eq hvr
  refine ⟨h.updateVirtual ?_ ht ?_ rfl rfl rfl fun k hk => get_insert_of_ne _ _ (hne k hk),
    rfl,rfl,hpar,fun k hk => get_insert_of_ne _ _ (hne k hk)⟩
  · change Agrees values (commitVirtualUTXODiff st.utxoSet past.utxoDiff)
    rw [hst]
    exact hvr.agrees_right h.agrees
  · change newDiff.Leads values (commitVirtualUTXODiff st.utxoSet past.utxoDiff) t
    rw [hst]
    exact hn

/-! ## Reversing diffs -/

section
variable (hcs : cs.WellFormed values) (h : cs.Sound values root rootSet st tip)
  {previous current : DomainHash} {data : UTXODiffReversalData} {previousDiff : UTXODiff}
include hcs h

/-- The next block in a reversal gets the reversed diff of the block before it. The
path of that block only meets blocks with at least its blue work. -/
lemma reroute_parent {n : Nat}
    {diff : UTXODiff} (hpr : cs.IsSelectedParent current previous) (hne : current ≠ tip)
    (hr : st.Resolved current) (ht : cs.Replays root rootSet current t) (hl : diff.Leads values s t)
    (hp : st.Path values (fun k => cs.blueWork previous ≤ cs.blueWork k) n previous s) :
    cs.Sound values root rootSet (st.stageDiff current diff (some previous)) tip ∧
      (st.stageDiff current diff (some previous)).Path values
        (fun k => cs.blueWork current ≤ cs.blueWork k) (n+1) current t := by
  have hlt := hpr.blueWork_lt hcs
  have hk : ∀ k, cs.blueWork previous ≤ cs.blueWork k → k ≠ current := by
    rintro k hk rfl
    omega
  refine ⟨h.reroute hr hne ht (hp.mono fun k hk' => ⟨hk'.1,hk k hk'.2⟩) hl,?_⟩
  have hf : (st.stageDiff current diff (some previous)).Path values
      (fun k => cs.blueWork previous ≤ cs.blueWork k) n previous s :=
    DeltaForest.Path.frame (F := st.forest) (fun k hk' => get_insert_of_ne _ _ (hk k hk'.2))
      (fun k hk' => get_insert_of_ne _ _ (hk k hk'.2)) hp
  exact .link ⟨hr,le_rfl⟩ (get_insert_self _ _ _) (get_insert_self _ _ _)
    (hf.mono fun k hk' => ⟨hk'.1,hlt.le.trans hk'.2⟩) hl

/-- The rounds of a reversal below the tip, as many as the process makes before it
stops. -/
lemma reverseLoopStopped_sound {n : Nat} (commits : Nat)
    (htp : cs.blueWork previous < cs.blueWork tip)
    (hp : st.Path values (fun k => cs.blueWork previous ≤ cs.blueWork k) n previous s)
    (hpar : cs.IsSelectedParent current previous) (hr : st.Resolved current)
    (ht : cs.Replays root rootSet current t) (hl : previousDiff.Leads values t s) :
    ∃ st', cs.reverseLoopStopped commits st previous previousDiff = .ok st' ∧
      cs.Sound values root rootSet st' tip ∧ st'.blockStatus = st.blockStatus ∧
      SameVirtual st st' := by
  induction commits generalizing st previous current previousDiff n s t with
  | zero => exact ⟨st,rfl,h,rfl,rfl,rfl,rfl⟩
  | succ commits ih =>
    have hlt := hpar.blueWork_lt hcs
    have hne : current ≠ tip := by
      rintro rfl
      omega
    obtain ⟨child,hch⟩ : ∃ child, st.utxoDiffChild.get current = some child :=
      ne_none_iff_exists'.1 fun hn => hne ((h.child hr).1 hn)
    obtain ⟨hcr,_,_,hd,hu,hdl⟩ := h.child_diff hr ht hch
    obtain ⟨currentData,hc⟩ := h.exists_blockData hr
    obtain ⟨hs,hcp⟩ := reroute_parent hcs h hpar hne hr ht
      (hl.reversed (h.agrees_replayed hr ht)) hp
    obtain ⟨_,hdt,hpar⟩ := hpar
    rw [reverseLoopStopped,getBlockData_eq_ok.2 hdt,ok_bind,hpar,dereference,ok_bind,hch,
      fromStore,getBlockData_eq_ok.2 hc,ok_bind,hd,ok_bind]
    split
    · exact ⟨_,rfl,hs,rfl,rfl,rfl,rfl⟩
    · next hsl =>
      obtain ⟨st',hst',hs',hst,hsm⟩ := ih hs (hlt.trans htp)
        hcp ⟨currentData,hc,not_not.1 hsl⟩ hcr hu hdl
      exact ⟨st',hst',hs',hst,hsm.utxoSet_eq,hsm.virtualGHOSTDAGData_eq,hsm.tips_eq⟩

/-- However many commits are made, the diffs stay sound. -/
lemma reverseUTXODiffsStopped_sound (hdt : cs.Reversible values root rootSet st tip data)
    (commits : Nat) :
    ∃ st', cs.reverseUTXODiffsStopped st tip data commits = .ok st' ∧
      cs.Sound values root rootSet st' tip ∧ st'.blockStatus = st.blockStatus ∧
      SameVirtual st st' := by
  obtain _ | commits := commits
  · exact ⟨st,rfl,h,rfl,rfl,rfl,rfl⟩
  obtain ⟨previous,_⟩ := data
  obtain ⟨hpar,⟨_,hcr,hch⟩,s,_,hs,ht,hl⟩ := hdt
  dsimp only at hpar hcr hch ht hl
  have hlt := hpar.blueWork_lt hcs
  have hne : previous ≠ tip := by
    rintro rfl
    omega
  have hrs : st.Resolved previous := by
    by_contra hn
    rw [h.unresolved hn] at hch
    cases hch
  obtain ⟨hc,_,_,hd,hu,hdl⟩ := h.child_diff hrs ht hch
  obtain ⟨_,hrd,hr⟩ := h.tip_diff hs
  have hpt : st.Path values (fun k => cs.blueWork tip ≤ cs.blueWork k) 0 tip s :=
    .root ⟨h.tip_resolved,le_rfl⟩ hrd ((h.child h.tip_resolved).2 rfl) hr
  obtain ⟨hsn,hp⟩ := reroute_parent hcs h hpar hne hrs ht hl hpt
  obtain ⟨st',hst',hs',hst,hsm⟩ := reverseLoopStopped_sound hcs hsn commits hlt hp hcr hc hu hdl
  refine ⟨st',?_,hs',hst,hsm.utxoSet_eq,hsm.virtualGHOSTDAGData_eq,hsm.tips_eq⟩
  rw [reverseUTXODiffsStopped]
  rw [hd]
  exact hst'

/-- Wherever the process stops, the diff children of a UTXO-valid block lead to the same
past UTXO set as before the call. -/
lemma restorePastUTXO_reverseUTXODiffsStopped
    (hdt : cs.Reversible values root rootSet st tip data) (commits : Nat) :
    ∃ st', cs.reverseUTXODiffsStopped st tip data commits = .ok st' ∧
      ∀ hash, st.blockStatus.get hash = some .statusUTXOValid →
        ∃ diff diff', st.restorePastUTXO hash = .ok diff ∧ st'.restorePastUTXO hash = .ok diff' ∧
          diff'.applyTo st'.utxoSet = diff.applyTo st.utxoSet := by
  obtain ⟨st',hst',hsn,hst,-⟩ := reverseUTXODiffsStopped_sound hcs h hdt commits
  refine ⟨st',hst',fun hash hv => ?_⟩
  have hv' : st'.blockStatus.get hash = some .statusUTXOValid := by rwa [hst]
  obtain ⟨_,-,hs,-⟩ := h.restorable (.inl hv)
  obtain ⟨diff,hd,hl⟩ := h.restorePastUTXO_eq (.inl hv) hs
  obtain ⟨diff',hd',hl'⟩ := hsn.restorePastUTXO_eq (.inl hv') hs
  exact ⟨diff,diff',hd,hd',hl'.applyTo_eq.trans hl.applyTo_eq.symm⟩

omit [AddCommGroup M] h

/-- The loop ends on its own before it runs out of rounds. -/
lemma reverseLoop_eq_stopped {rounds : Nat} (hr : cs.blueWork previous < rounds) :
    cs.reverseLoop rounds st previous previousDiff =
      cs.reverseLoopStopped rounds st previous previousDiff := by
  induction rounds generalizing st previous previousDiff with
  | zero => omega
  | succ rounds ih =>
    rw [reverseLoop,reverseLoopStopped]
    cases hd : cs.getBlockData previous with
    | error _ => rfl
    | ok data =>
      rw [ok_bind,ok_bind]
      cases hp : data.ghostdagData.selectedParent with
      | none => rfl
      | some _ =>
        have hlt := IsSelectedParent.blueWork_lt hcs ⟨data,getBlockData_eq_ok.1 hd,hp⟩
        rw [dereference,ok_bind]
        refine bind_congr fun _ => bind_congr fun _ => bind_congr fun _ => ?_
        dsimp only
        rw [ih (by omega)]

lemma reverseUTXODiffs_eq_stopped (hd : cs.Reversible values root rootSet st tip data) :
    cs.reverseUTXODiffs st tip data =
      cs.reverseUTXODiffsStopped st tip data (cs.blueWork data.selectedParentHash+2) := by
  obtain ⟨_,⟨_,hpd,-⟩,-⟩ := hd.child
  refine bind_congr fun _ => ?_
  rw [getBlockData_eq_ok.2 hpd,blueWork,hpd]
  refine reverseLoop_eq_stopped hcs ?_
  rw [blueWork,hpd]
  exact Nat.lt_succ_self _

end

/-! ## Consistent stores -/

section
variable (cs values root rootSet st tip)

/-- The blocks with a body form a tree on top of the root. -/
def ParentsHaveBodies : Prop :=
  ∀ hash, st.hasBody hash → hash ≠ root →
    ∃ selectedParent, cs.IsSelectedParent selectedParent hash ∧ st.hasBody selectedParent

/-- The diffs are sound, with the greatest UTXO-valid block as their tip. -/
structure Settled : Prop where
  sound : cs.Sound values root rootSet st tip
  greatest : ∀ k, st.blockStatus.get k = some .statusUTXOValid → k ≠ tip → cs.key k < cs.key tip
  parents : cs.ParentsHaveBodies root st

end

section
variable (cs values root rootSet st)

/-- What holds of the stores along a run of safe steps. -/
def Consistent : Prop :=
  ∃ tip, st.virtualSelectedParent = some tip ∧ cs.Settled values root rootSet st tip ∧
    cs.Tracked root rootSet st

end

omit [AddCommGroup M] in
lemma ParentsHaveBodies.congr (h : cs.ParentsHaveBodies root st)
    (hb : ∀ k, st'.hasBody k = st.hasBody k) : cs.ParentsHaveBodies root st' := by
  intro hash hh hne
  rw [hb] at hh
  obtain ⟨selectedParent,hp,hs⟩ := h hash hh hne
  exact ⟨selectedParent,hp,(hb selectedParent).trans hs⟩

/-- The pending blocks below a pending block end at a resolved block. -/
lemma exists_pendingChain (hcs : cs.WellFormed values) (h : cs.Sound values root rootSet st tip)
    (hpr : cs.ParentsHaveBodies root st) {block : DomainHash}
    (hpe : st.blockStatus.get block = some .statusUTXOPendingVerification) :
    ∃ base baseStatus chain, cs.PendingChain st base baseStatus chain block ∧
      baseStatus.IsResolved := by
  -- the selected parent has less blue work
  induction hw : cs.blueWork block using Nat.strong_induction_on generalizing block with
  | h _ ih =>
    have hr : block ≠ root := by
      rintro rfl
      have hres := h.root_resolved
      rw [ConsensusStores.Resolved,hpe] at hres
      simp at hres
    obtain ⟨parent,hpar,hb⟩ := hpr block (hasBody_iff.2 (.inr hpe)) hr
    rcases hasBody_iff.1 hb with hres | hp
    · have hbs : ∀ baseStatus, st.blockStatus.get parent = some baseStatus →
          cs.PendingChain st parent baseStatus [] block := by
        intro baseStatus hst
        refine ⟨?_,fun hash hhs => ?_,hst⟩
        · exact isChain_cons_cons.2 ⟨hpar,isChain_singleton _⟩
        · obtain rfl := mem_singleton.1 hhs
          exact hpe
      rcases hres with hst | hst
      · exact ⟨parent,_,[],hbs _ hst,.inl rfl⟩
      · exact ⟨parent,_,[],hbs _ hst,.inr rfl⟩
    · have hlt := hpar.blueWork_lt hcs
      obtain ⟨base,baseStatus,chain,hch,hbs⟩ := ih _ (hw ▸ hlt) hp rfl
      refine ⟨base,baseStatus,chain ++ [parent],⟨?_,fun hash hhs => ?_,hch.base_status⟩,hbs⟩
      · rw [← cons_append,isChain_append]
        refine ⟨hch.isChain,isChain_singleton block,fun _ hx _ hy => ?_⟩
        rw [← cons_append,getLast?_append] at hx
        cases hx
        cases hy
        exact hpar
      · rcases mem_append.1 hhs with hhs | hhs
        · exact hch.pending hash hhs
        · obtain rfl := mem_singleton.1 hhs
          exact hpe

section
variable (h : cs.Settled values root rootSet st tip) {block : DomainHash}
  {status : BlockStatus} (hnw : ¬st.hasBody block)
include h hnw

/-- A new block is stored with a status that is not a resolved one. -/
lemma Settled.stageUnresolved (hst : ¬status.IsResolved)
    (hp : (st.stageStatus block status).hasBody block →
      ∃ parent, cs.IsSelectedParent parent block ∧ st.hasBody parent) :
    cs.Settled values root rootSet (st.stageStatus block status) tip := by
  have hn : ¬st.Resolved block := fun hr => hnw (hasBody_iff.2 (.inl hr))
  have hg : ∀ k, k ≠ block → (st.stageStatus block status).blockStatus.get k =
      st.blockStatus.get k := fun k hk => get_insert_of_ne _ _ hk
  have hsl : (st.stageStatus block status).blockStatus.get block = some status :=
    get_insert_self _ _ _
  have hb' : ∀ k, st.hasBody k → (st.stageStatus block status).hasBody k := by
    intro k hk
    have hne : k ≠ block := by
      rintro rfl
      exact hnw hk
    rwa [hasBody,hg k hne]
  refine ⟨h.sound.stageStatus hn ?_,fun k hk hne => ?_,fun k hk hne => ?_⟩
  · rw [ConsensusStores.Resolved,hsl,Option.some.injEq,Option.some.injEq]
    exact hst
  · by_cases hkb : k = block
    · rw [hkb,hsl] at hk
      exact absurd (.inl (some.inj hk)) hst
    · exact h.greatest k ((hg k hkb).symm.trans hk) hne
  · by_cases hkb : k = block
    · subst hkb
      obtain ⟨parent,hpar,hb⟩ := hp hk
      exact ⟨parent,hpar,hb' parent hb⟩
    · rw [hasBody,hg k hkb] at hk
      obtain ⟨selectedParent,hse,hs⟩ := h.parents k hk hne
      exact ⟨selectedParent,hse,hb' _ hs⟩

end

/-! ## Resolving a block that comes after the tip -/

variable {base block : DomainHash} {baseStatus status : BlockStatus} {chain : List DomainHash}

omit [AddCommGroup M] in
lemma PendingChain.exists_parent (h : cs.PendingChain st base baseStatus chain block) :
    ∃ parent, cs.IsSelectedParent parent block := by
  have hc := h.isChain
  rw [← cons_append,isChain_append] at hc
  exact ⟨_,hc.2.2 _ (getLast?_eq_some_getLast (cons_ne_nil base chain)) block rfl⟩

lemma Resolution.hasBody_eq (h : cs.Resolution values root rootSet st tip baseStatus chain block
      st' status reversal) (hc : cs.PendingChain st base baseStatus chain block)
    (hb : baseStatus.IsResolved) (k : DomainHash) : st'.hasBody k = st.hasBody k := by
  by_cases hm : k ∈ chain ++ [block]
  · have hr : st'.hasBody k := hasBody_iff.2 (.inl (h.resolved_of_mem hb hm))
    exact hr.trans (hasBody_iff.2 (.inr (hc.pending k hm))).symm
  · rw [hasBody,hasBody,h.status_of_notMem hm]

/-- Unless a block fails on top of other pending blocks, the greatest valid block is
the tip of the diffs again. -/
lemma Resolution.settled (hcs : cs.WellFormed values) (ho : cs.Settled values root rootSet st tip)
    (hls : cs.less tip block) (hc : cs.PendingChain st base baseStatus chain block)
    (hb : baseStatus.IsResolved)
    (h : cs.Resolution values root rootSet st tip baseStatus chain block st' status reversal)
    (ha : status = .statusDisqualifiedFromChain → baseStatus = .statusUTXOValid → chain = []) :
    ∃ tip', cs.Settled values root rootSet st' tip' ∧
      (status = .statusUTXOValid → tip' = block) := by
  obtain ⟨tip',hs,hn,hsm⟩ := h.sound
  have ht := (less_iff.1 hls).2.2
  refine ⟨tip',⟨hs,fun k hk hne => ?_,ho.parents.congr (h.hasBody_eq hc hb)⟩,
    fun hst => (hn hst (isNewSelectedTip_of_less hls)).1⟩
  rw [h.statuses] at hk
  rcases h.status_eq with ⟨-,-,rfl⟩ | ⟨hf,rfl⟩
  · obtain rfl := (hn rfl (isNewSelectedTip_of_less hls)).1
    rw [if_neg hne] at hk
    by_cases hm : k ∈ chain
    · exact hc.key_lt hcs hm
    · rw [if_neg hm] at hk
      by_cases hkt : k = tip
      · rwa [hkt]
      · exact (ho.greatest k hk hkt).trans ht
  · obtain rfl := hsm rfl
    split at hk
    · cases hk
    · split at hk
      · next hm =>
        rw [ha rfl (some.inj hk)] at hm
        cases hm
      · exact ho.greatest k hk hne

/-! ## Steps -/

omit [AddCommGroup M] in
lemma hasInvalid_eq_false :
    st.hasInvalid = false ↔ ∀ k, st.blockStatus.get k ≠ some .statusInvalid := by
  rw [hasInvalid,FinMap.any_eq_false]
  refine forall_congr' fun k => ⟨fun h hk => ?_,fun h status hk => ?_⟩
  · simpa using h _ hk
  · exact decide_eq_false fun heq => h (heq ▸ hk)

/-- A resolution finds no block to be invalid. -/
lemma Resolution.hasInvalid_eq (h : cs.Resolution values root rootSet st tip baseStatus chain block
      st' status reversal) (hb : baseStatus.IsResolved) (hni : st.hasInvalid = false) :
    st'.hasInvalid = false := by
  rw [hasInvalid_eq_false] at hni ⊢
  intro k hk
  rw [h.statuses] at hk
  split at hk
  · rcases h.status_eq with ⟨-,-,rfl⟩ | ⟨-,rfl⟩ <;> cases hk
  · split at hk
    · rcases hb with rfl | rfl <;> cases hk
    · exact hni k hk

section
variable (cs root rootSet st)

/-- A new block may only fail verification if it is the only pending block of its
chain. -/
def SafeInsertion (block : DomainHash) : Prop :=
  ∀ base baseStatus chain, cs.PendingChain st base baseStatus chain block →
    (∀ hash ∈ chain ++ [block], cs.Fresh root rootSet hash) ∧
    (baseStatus = .statusUTXOValid → chain = [] ∨
      ∀ hash ∈ chain ++ [block], cs.Passes root rootSet hash)

/-- A processing point has to come after virtual's selected parent, and its pending
chain has to be valid. -/
def SafeResolution (processingPoint : DomainHash) : Prop :=
  (∀ tip, st.virtualSelectedParent = some tip → cs.less tip processingPoint) ∧
  ∀ base baseStatus chain, cs.PendingChain st base baseStatus chain processingPoint →
    baseStatus ≠ .statusUTXOPendingVerification →
    baseStatus = .statusUTXOValid ∧ ∀ hash ∈ chain ++ [processingPoint],
      cs.Fresh root rootSet hash ∧ cs.Passes root rootSet hash

/-- What a step has to meet so that the diffs stay sound. -/
def SafeStep : Action → Prop
  | .insertBlock block updateVirtual isViolatingFinality virtualData =>
    updateVirtual = true → st.hasInvalid = false ∧ cs.VirtualFresh root rootSet virtualData ∧
      (isViolatingFinality = false →
        cs.isCandidateToBeNextVirtualSelectedParent st block = .ok true →
        cs.SafeInsertion root rootSet (st.stageStatus block .statusUTXOPendingVerification) block)
  | .resolveVirtual isViolatingFinality maxBlocksToResolve virtualData =>
    ∀ processingPoint, cs.findProcessingPoint st isViolatingFinality maxBlocksToResolve =
        .ok (some processingPoint) →
      cs.VirtualFresh root rootSet virtualData ∧ cs.SafeResolution root rootSet st processingPoint
  | .rejectBody _ => True

end

variable {virtualData : VirtualData} {maxBlocksToResolve : UInt64} {blocks : List DomainHash}

section
variable (h : cs.Settled values root rootSet st tip)
include h

lemma Settled.of_status
    (hsn : cs.Sound values root rootSet st' tip) (hs : st'.blockStatus = st.blockStatus) :
    cs.Settled values root rootSet st' tip := by
  refine ⟨hsn,fun k hk hne => h.greatest k (hs ▸ hk) hne,h.parents.congr fun k => ?_⟩
  rw [hasBody,hasBody,hs]

lemma Settled.addTip (block : DomainHash) (parents : List DomainHash) :
    cs.Settled values root rootSet (Consensus.addTip st block parents) tip :=
  ⟨⟨h.sound.agrees,h.sound.root_stored,h.sound.root_resolved,h.sound.tip_valid,
    h.sound.restorable,h.sound.unresolved,h.sound.child⟩,h.greatest,h.parents⟩

lemma Settled.eq_tip (hni : st.hasInvalid = false)
    (hhs : cs.isVirtualSelectedParent st hash = true) : hash = tip := by
  rw [isVirtualSelectedParent,decide_eq_true_iff,hni,or_iff_right Bool.false_ne_true,
    Bool.not_eq_true',FinMap.any_eq_false] at hhs
  by_contra hne
  have hlt := h.greatest hash hhs.1 hne
  have hl : cs.less hash tip = true :=
    less_iff.2 ⟨h.sound.exists_blockData (.inl hhs.1),
      h.sound.exists_blockData h.sound.tip_resolved,hlt⟩
  have := hhs.2 tip _ h.sound.tip_valid
  simp [hl] at this

end

section
variable (cs values root rootSet st tip block)

/-- The stores after a resolution and before the reversal of its diffs. -/
structure Resolved (reversal : Option UTXODiffReversalData) : Prop where
  settled : cs.Settled values root rootSet st tip
  recorded : cs.Recorded root rootSet st
  reversing : cs.Reversing st block reversal
  reversible : ∀ data, reversal = some data → tip = block ∧
    cs.Reversible values root rootSet st block data

end

lemma Resolved.of_tracked (h : cs.Settled values root rootSet st tip)
    (htr : cs.Tracked root rootSet st) :
    cs.Resolved values root rootSet st tip block none :=
  ⟨h,htr.recorded,htr.rising,fun _ hd => by cases hd⟩

lemma Resolved.reverseIfRequired (hcs : cs.WellFormed values)
    (h : cs.Resolved values root rootSet st tip block reversal)
    (hrev : cs.reverseIfRequired st block reversal = .ok st') :
    cs.Settled values root rootSet st' tip ∧ cs.Tracked root rootSet st' ∧
      st'.virtualSelectedParent = st.virtualSelectedParent := by
  obtain ⟨hr,ha,hs'⟩ := h.reversing.reverseIfRequired hcs hrev
  have hrc := h.recorded.congr hs' fun _ _ => by rw [ha]
  cases reversal with
  | none =>
    cases hrev
    exact ⟨h.settled,⟨hrc,hr⟩,rfl⟩
  | some data =>
    obtain ⟨rfl,hd⟩ := h.reversible data rfl
    obtain ⟨_,hst'',hs,hst,hsm⟩ := reverseUTXODiffsStopped_sound hcs h.settled.sound hd _
    rw [← reverseUTXODiffs_eq_stopped hcs hd] at hst''
    obtain rfl := Except.ok.inj (hst''.symm.trans hrev)
    refine ⟨h.settled.of_status hs hst,⟨hrc,hr⟩,?_⟩
    rw [virtualSelectedParent,hsm.virtualGHOSTDAGData_eq]
    rfl

lemma Resolved.updateVirtual (hcs : cs.WellFormed values)
    (h : cs.Resolved values root rootSet st tip block reversal)
    (hp : virtualData.ghostdagData.selectedParent = some tip)
    (hf : cs.VirtualFresh root rootSet virtualData)
    (hu : cs.updateVirtualWithParents st virtualData = .ok st') :
    cs.Resolved values root rootSet st' tip block reversal ∧
      st'.virtualSelectedParent = some tip := by
  obtain ⟨hs,hst,hc,hvr,ha⟩ := updateVirtualWithParents_sound hcs h.settled.sound hp hf hu
  refine ⟨⟨h.settled.of_status hs hst,h.recorded.congr hst ha,
    h.reversing.congr hst hc,fun data hd => ?_⟩,hvr⟩
  obtain ⟨heq,hr⟩ := h.reversible data hd
  refine ⟨heq,hr.parent,?_,hr.leads⟩
  rw [hc]
  exact hr.child

omit [AddCommGroup M] in
lemma less_of_isCandidate (hcs : cs.WellFormed values) {parent : DomainHash}
    (hp : cs.IsSelectedParent parent block) (hvr : st.virtualSelectedParent = some tip)
    (h : cs.isCandidateToBeNextVirtualSelectedParent st block = .ok true) :
    cs.less tip block = true := by
  rw [isCandidateToBeNextVirtualSelectedParent,if_neg (hp.ne_genesis hcs),hvr,
    dereference,ok_bind] at h
  obtain ⟨-,-,-,-,h⟩ := bind₂_eq_ok h
  exact Except.ok.inj h

section
variable (cs values root rootSet st)

/-- A pending chain that is resolved up to a block after the tip. No block of it fails on top of
another pending block. -/
structure Advance (tip base : DomainHash) (baseStatus : BlockStatus) (chain : List DomainHash)
    (block : DomainHash) (st' : ConsensusStores M) (status : BlockStatus)
    (reversal : Option UTXODiffReversalData) : Prop where
  pending : cs.PendingChain st base baseStatus chain block
  baseStatus_eq : baseStatus = .statusDisqualifiedFromChain ∨
    baseStatus = .statusUTXOValid ∧ ∀ hash ∈ chain, cs.Passes root rootSet hash
  less : cs.less tip block
  resolve_eq : cs.resolveBlockStatus st block = .ok (st', status, reversal)
  resolution : cs.Resolution values root rootSet st tip baseStatus chain block st' status reversal
  alone : status = .statusDisqualifiedFromChain → baseStatus = .statusUTXOValid → chain = []

end

lemma Advance.resolved (hcs : cs.WellFormed values)
    (h : cs.Advance values root rootSet st tip base baseStatus chain block st' status reversal)
    (ho : cs.Settled values root rootSet st tip) (htr : cs.Tracked root rootSet st) :
    ∃ tip', cs.Resolved values root rootSet st' tip' block reversal ∧
      (status = .statusUTXOValid → tip' = block) := by
  obtain ⟨tip',hs,ht⟩ := h.resolution.settled hcs ho h.less h.pending
    (h.baseStatus_eq.elim .inr fun h => .inl h.1) h.alone
  refine ⟨tip',⟨hs,htr.recorded.resolve h.resolution h.pending h.baseStatus_eq,
    htr.rising.resolve h.resolution h.pending h.less h.alone,fun data hd => ?_⟩,ht⟩
  obtain ⟨hst,-,hr⟩ := h.resolution.reversal data hd
  exact ⟨ht hst,hr⟩

section
variable (hcs : cs.WellFormed values) (h : cs.Settled values root rootSet st tip)
  (htr : cs.Tracked root rootSet st) (hvr : st.virtualSelectedParent = some tip)
  (hpe : st.blockStatus.get block = some .statusUTXOPendingVerification)
include hcs h htr hvr hpe

lemma resolveIfCandidate_resolved {isViolatingFinality : Bool} (hsf : isViolatingFinality = false →
      cs.isCandidateToBeNextVirtualSelectedParent st block = .ok true →
      cs.SafeInsertion root rootSet st block)
    (hrs : cs.resolveIfCandidate st block isViolatingFinality = .ok (st', reversal)) :
    (∃ tip', cs.Resolved values root rootSet st' tip' block reversal) ∧
      (st.hasInvalid = false → st'.hasInvalid = false) := by
  obtain ⟨_,hc,hrs⟩ := bind_eq_ok hrs
  split at hrs
  · next hbt =>
    obtain ⟨rfl,hfn⟩ := hbt
    obtain ⟨base,baseStatus,chain,hch,hb⟩ := exists_pendingChain hcs h.sound h.parents hpe
    obtain ⟨hf,hp⟩ := hsf (by simpa using hfn) hc base baseStatus chain hch
    have hb' : baseStatus = .statusDisqualifiedFromChain ∨
        baseStatus = .statusUTXOValid ∧ ∀ hash ∈ chain, cs.Passes root rootSet hash := by
      refine hb.symm.imp_right fun hvl => ⟨hvl,fun hash hh => ?_⟩
      rcases hp hvl with rfl | hall
      · cases hh
      · exact hall hash (mem_append_left _ hh)
    obtain ⟨_,status,_,hre,hs⟩ := resolveBlockStatus_resolution hcs h.sound hvr hch hf hb'
    rw [hre] at hrs
    cases hrs
    have ha : status = .statusDisqualifiedFromChain → baseStatus = .statusUTXOValid →
        chain = [] := by
      intro hst hvl
      refine (hp hvl).resolve_right fun hall => ?_
      refine (hs.status_eq.resolve_left fun hg => ?_).1 ⟨hvl,hall block (by simp)⟩
      rw [hg.2.2] at hst
      cases hst
    obtain ⟨_,hpr⟩ := hch.exists_parent
    have hl := less_of_isCandidate hcs hpr hvr hc
    obtain ⟨tip',hr,-⟩ := Advance.resolved hcs ⟨hch,hb',hl,hre,hs,ha⟩ h htr
    exact ⟨⟨tip',hr⟩,hs.hasInvalid_eq hb⟩
  · cases hrs
    exact ⟨⟨tip,.of_tracked h htr⟩,id⟩

lemma addBlock_resolved {isViolatingFinality : Bool} {parents : List DomainHash}
    (hni : st.hasInvalid = false) (hf : cs.VirtualFresh root rootSet virtualData)
    (hsf : isViolatingFinality = false →
      cs.isCandidateToBeNextVirtualSelectedParent st block = .ok true →
      cs.SafeInsertion root rootSet st block)
    (hst : cs.addBlock st block parents isViolatingFinality virtualData = .ok (st', reversal)) :
    ∃ tip', cs.Resolved values root rootSet st' tip' block reversal ∧
      st'.virtualSelectedParent = some tip' := by
  obtain ⟨⟨st₁,reversal⟩,hr,hst⟩ := bind_eq_ok hst
  obtain ⟨⟨tip',hrs⟩,hni'⟩ := resolveIfCandidate_resolved hcs h htr hvr hpe hsf hr
  obtain ⟨selectedParent,hpr,hst⟩ := bind_eq_ok hst
  obtain ⟨hp,hst⟩ := of_ite_error hst
  have ha : cs.Resolved values root rootSet (Consensus.addTip st₁ block parents) tip' block
      reversal :=
    ⟨hrs.settled.addTip block parents,hrs.recorded.congr rfl fun _ _ => rfl,
      hrs.reversing.congr rfl rfl,fun data hd =>
        (hrs.reversible data hd).imp_right fun h => ⟨h.parent,h.child,h.leads⟩⟩
  -- no invalid block keeps virtual from the greatest valid one
  obtain rfl := ha.settled.eq_tip (hni' hni) (by simpa using hp)
  obtain ⟨_,hup,hst⟩ := bind_eq_ok hst
  cases hst
  exact ⟨selectedParent,ha.updateVirtual hcs (dereference_eq_ok.1 hpr) hf hup⟩

lemma commitResolution_resolved (hsf : cs.SafeResolution root rootSet st block)
    (hst : cs.commitResolution st block = .ok (st', reversal)) :
    cs.Resolved values root rootSet st' block block reversal := by
  obtain ⟨base,baseStatus,chain,hch,hb⟩ := exists_pendingChain hcs h.sound h.parents hpe
  obtain ⟨rfl,ha⟩ := hsf.2 base baseStatus chain hch hb.ne_pending
  have hp : BlockStatus.statusUTXOValid = .statusDisqualifiedFromChain ∨
      BlockStatus.statusUTXOValid = .statusUTXOValid ∧
        ∀ hash ∈ chain, cs.Passes root rootSet hash :=
    .inr ⟨rfl,fun hash hhs => (ha hash (mem_append_left _ hhs)).2⟩
  obtain ⟨_,status,_,hrs,hsp⟩ := resolveBlockStatus_resolution hcs h.sound
    hvr hch (fun hash hhs => (ha hash hhs).1) hp
  -- the processing point passes, so that it becomes the tip
  obtain ⟨-,-,rfl⟩ : _ ∧ _ ∧ status = .statusUTXOValid :=
    hsp.status_eq.resolve_right fun hbad => hbad.1 ⟨rfl,(ha block (by simp)).2⟩
  obtain ⟨tip',hr,ht⟩ := Advance.resolved hcs
    ⟨hch,hp,hsf.1 tip hvr,hrs,hsp,fun hbad => by cases hbad⟩ h htr
  obtain rfl := ht rfl
  rw [commitResolution,hrs,ok_bind] at hst
  cases hst
  exact hr

lemma resolveToProcessingPoint_consistent (hf : cs.VirtualFresh root rootSet virtualData)
    (hsf : cs.SafeResolution root rootSet st block)
    (hst : cs.resolveToProcessingPoint st block virtualData = .ok st') :
    cs.Consistent values root rootSet st' := by
  obtain ⟨⟨st₁,reversal⟩,hrs,hst⟩ := bind_eq_ok hst
  have hr := commitResolution_resolved hcs h htr hvr hpe hsf hrs
  obtain ⟨st₂,hre,hst⟩ := bind_eq_ok hst
  obtain ⟨hs,ht',-⟩ := hr.reverseIfRequired hcs hre
  obtain ⟨hpr,hst⟩ := of_ite_error hst
  have hrv : cs.Resolved values root rootSet st₂ block block none := .of_tracked hs ht'
  obtain ⟨hup,hv'⟩ := hrv.updateVirtual hcs (not_not.1 hpr) hf hst
  exact ⟨block,hv',hup.settled,hup.recorded,hup.reversing⟩

end

/-- A block that is inserted is new, and its selected parent has a body. -/
lemma commitBlock_cases {updateVirtual isViolatingFinality : Bool}
    (h : cs.Settled values root rootSet st tip)
    (hst : cs.commitBlock st block updateVirtual isViolatingFinality virtualData =
      .ok (st', reversal)) :
    ¬st.hasBody block ∧
      cs.Settled values root rootSet (st.stageStatus block .statusUTXOPendingVerification) tip ∧
      ∃ parents, if updateVirtual then
        cs.addBlock (st.stageStatus block .statusUTXOPendingVerification) block parents
          isViolatingFinality virtualData = .ok (st', reversal)
      else st' = addTip (st.stageStatus block .statusUTXOPendingVerification) block parents ∧
        reversal = none := by
  obtain ⟨data,hd,parent,hp,hst⟩ := bind₂_eq_ok hst
  obtain ⟨_,hch,hst⟩ := bind_eq_ok hst
  have hs : cs.IsSelectedParent parent block :=
    ⟨data,getBlockData_eq_ok.1 hd,dereference_eq_ok.1 hp⟩
  obtain ⟨-,hch⟩ := of_ite_error hch
  obtain ⟨hn,hch⟩ := of_ite_error hch
  obtain ⟨-,hch⟩ := of_ite_error hch
  obtain ⟨hb,-⟩ := of_ite_error hch
  refine ⟨hn,h.stageUnresolved hn (by decide) fun _ => ⟨parent,hs,by simpa using hb⟩,
    data.block.header.directParents,?_⟩
  split at hst
  · next hu => rwa [if_pos hu]
  · next hu =>
    cases hst
    rw [if_neg hu]
    exact ⟨rfl,rfl⟩

lemma commitBlock_resolved (hcs : cs.WellFormed values) {updateVirtual isViolatingFinality : Bool}
    (h : cs.Consistent values root rootSet st) (hsf : cs.SafeStep root rootSet st
      (.insertBlock block updateVirtual isViolatingFinality virtualData))
    (hst : cs.commitBlock st block updateVirtual isViolatingFinality virtualData =
      .ok (st', reversal)) :
    ∃ tip', cs.Resolved values root rootSet st' tip' block reversal ∧
      st'.virtualSelectedParent = some tip' := by
  obtain ⟨tip,hvr,h,htr⟩ := h
  obtain ⟨hn,hs,_,hst⟩ := commitBlock_cases h hst
  have htr : cs.Tracked root rootSet (st.stageStatus block .statusUTXOPendingVerification) :=
    htr.stageUnresolved hn (by decide)
  split at hst
  · next hu =>
    obtain ⟨hni,hf,hsf⟩ := hsf hu
    refine addBlock_resolved hcs hs htr hvr (get_insert_self _ _ _) ?_ hf hsf hst
    rw [hasInvalid_eq_false] at hni ⊢
    intro k hk
    rw [stageStatus,get_insert] at hk
    split at hk
    · cases hk
    · exact hni k hk
  · obtain ⟨rfl,rfl⟩ := hst
    exact ⟨tip,⟨hs.addTip block _,htr.recorded.congr rfl fun _ _ => rfl,
      htr.rising.congr rfl rfl,fun _ hd => by cases hd⟩,hvr⟩

section

omit [AddCommGroup M]

lemma findPendingTip_status {tips : List DomainHash}
    (h : findPendingTip st isViolatingFinality tips = .ok (some (hash, status))) :
    st.blockStatus.get hash = some status ∧
      (status = .statusUTXOValid ∨ status = .statusUTXOPendingVerification) := by
  induction tips with
  | nil => cases h
  | cons _ tips ih =>
    rw [findPendingTip] at h
    split at h
    · exact ih h
    · obtain ⟨_,ht,h⟩ := bind_eq_ok h
      split at h
      · next hs =>
        cases h
        exact ⟨fromStore_eq_ok.1 ht,hs⟩
      · exact ih h

lemma getUnverifiedChainBlocks_pending {rounds : Nat}
    (h : cs.getUnverifiedChainBlocks st rounds block = .ok blocks) :
    ∀ k ∈ blocks, st.blockStatus.get k = some .statusUTXOPendingVerification := by
  induction rounds generalizing block blocks with
  | zero => cases h
  | succ rounds ih =>
    obtain ⟨_,hs,h⟩ := bind_eq_ok h
    split at h
    · cases h
      simp
    · next hpe =>
      have hb := (fromStore_eq_ok.1 hs).trans (congrArg some (not_not.1 hpe))
      obtain ⟨data,-,h⟩ := bind_eq_ok h
      cases hp : data.ghostdagData.selectedParent with
      | none =>
        rw [hp] at h
        cases h
        simpa using hb
      | some _ =>
        rw [hp] at h
        obtain ⟨_,hr,h⟩ := bind_eq_ok h
        cases h
        rw [forall_mem_cons]
        exact ⟨hb,ih hr⟩

lemma searchProcessingPoint_mem {index : Nat}
    (h : cs.searchProcessingPoint blocks tip index = .ok hash) : hash ∈ blocks := by
  induction index with
  | zero =>
    obtain ⟨point,hpn,isNew,-,h⟩ := bind₂_eq_ok h
    split at h
    · cases h
      exact mem_of_indexSlice hpn
    · cases h
  | succ index ih =>
    obtain ⟨point,hpn,isNew,-,h⟩ := bind₂_eq_ok h
    split at h
    · cases h
      exact mem_of_indexSlice hpn
    · exact ih h

lemma findProcessingPoint_status
    (h : cs.findProcessingPoint st isViolatingFinality maxBlocksToResolve = .ok (some hash)) :
    st.blockStatus.get hash = some .statusUTXOValid ∨
      st.blockStatus.get hash = some .statusUTXOPendingVerification := by
  obtain ⟨pending,hpe,h⟩ := bind_eq_ok h
  cases pending with
  | none => cases h
  | some pending =>
    obtain ⟨hs,hc⟩ := findPendingTip_status hpe
    obtain ⟨_,-,h⟩ := bind_eq_ok h
    split at h
    · cases h
    · obtain ⟨_,hu,_,hpn,h⟩ := bind₂_eq_ok h
      cases h
      unfold chooseProcessingPoint at hpn
      split at hpn
      · exact .inr (getUnverifiedChainBlocks_pending hu _ (searchProcessingPoint_mem hpn))
      · cases hpn
        rw [hs]
        exact hc.imp (congrArg some) (congrArg some)

end

/-- The processing point is pending, as the tip is the greatest valid block. -/
lemma Settled.pending_of_findProcessingPoint (h : cs.Settled values root rootSet st tip)
    (hvr : st.virtualSelectedParent = some tip) (hsf : cs.SafeResolution root rootSet st block)
    (hp : cs.findProcessingPoint st isViolatingFinality maxBlocksToResolve = .ok (some block)) :
    st.blockStatus.get block = some .statusUTXOPendingVerification := by
  have hl := (less_iff.1 (hsf.1 tip hvr)).2.2
  refine (findProcessingPoint_status hp).resolve_left fun hv => ?_
  exact lt_asymm hl (h.greatest block hv fun heq => lt_irrefl _ (heq ▸ hl))

lemma rejectBody_consistent (h : cs.Consistent values root rootSet st)
    (hsp : cs.rejectBody st block = .ok st') : cs.Consistent values root rootSet st' := by
  obtain ⟨tip,hvr,hst,htr⟩ := h
  obtain ⟨_,-,hsp⟩ := bind_eq_ok hsp
  obtain ⟨-,hsp⟩ := of_ite_error hsp
  obtain ⟨hn,hsp⟩ := of_ite_error hsp
  cases hsp
  refine ⟨tip,hvr,hst.stageUnresolved hn (by decide) fun hb => ?_,
    htr.stageUnresolved hn (by decide)⟩
  rw [hasBody,stageStatus,get_insert_self] at hb
  cases hb

lemma step_consistent (hcs : cs.WellFormed values)
    (h : cs.Consistent values root rootSet st) (hsf : cs.SafeStep root rootSet st action)
    (hsp : cs.step st action = .ok st') : cs.Consistent values root rootSet st' := by
  cases action with
  | insertBlock _ _ isViolatingFinality virtualData =>
    obtain ⟨⟨_,_⟩,hc,hsp⟩ := bind_eq_ok hsp
    obtain ⟨tip,hr,hvr⟩ := commitBlock_resolved hcs h hsf hc
    obtain ⟨hs,htr,hsm⟩ := hr.reverseIfRequired hcs hsp
    exact ⟨tip,hsm.trans hvr,hs,htr⟩
  | resolveVirtual isViolatingFinality _ virtualData =>
    obtain ⟨tip,hvr,hst,htr⟩ := h
    obtain ⟨point,hp,hsp⟩ := bind_eq_ok hsp
    cases point with
    | none =>
      cases hsp
      exact ⟨tip,hvr,hst,htr⟩
    | some point =>
      obtain ⟨hf,hsf⟩ := hsf point hp
      have hpe := hst.pending_of_findProcessingPoint hvr hsf hp
      exact resolveToProcessingPoint_consistent hcs hst htr hvr hpe hf hsf hsp
  | rejectBody _ => exact rejectBody_consistent h hsp

/-- Where a step calls `ReverseUTXODiffs`, the diffs are sound and the reversal data fits them. -/
lemma reversalCall_resolved (hcs : cs.WellFormed values)
    (h : cs.Consistent values root rootSet st) (hsf : cs.SafeStep root rootSet st action)
    (hc : cs.reversalCall st action = .ok (st', block, reversal)) :
    ∃ tip', cs.Resolved values root rootSet st' tip' block reversal := by
  cases action with
  | insertBlock _ _ isViolatingFinality virtualData =>
    obtain ⟨⟨_,_⟩,hcm,hc⟩ := bind_eq_ok hc
    cases hc
    obtain ⟨tip,hr,-⟩ := commitBlock_resolved hcs h hsf hcm
    exact ⟨tip,hr⟩
  | resolveVirtual isViolatingFinality _ virtualData =>
    obtain ⟨tip,hvr,hst,htr⟩ := h
    obtain ⟨point,hp,hc⟩ := bind_eq_ok hc
    cases point with
    | none =>
      cases hc
      exact ⟨tip,.of_tracked hst htr⟩
    | some point =>
      obtain ⟨-,hsf⟩ := hsf point hp
      have hpe := hst.pending_of_findProcessingPoint hvr hsf hp
      obtain ⟨⟨_,_⟩,hcm,hc⟩ := bind_eq_ok hc
      cases hc
      exact ⟨_,commitResolution_resolved hcs hst htr hvr hpe hsf hcm⟩
  | rejectBody _ =>
    obtain ⟨tip,-,hst,htr⟩ := h
    cases hc
    exact ⟨tip,.of_tracked hst htr⟩

/-! ## Runs -/

section
variable (cs values root rootSet st)

/-- The stores once genesis or an imported pruning point is virtual's parent. -/
structure Initial : Prop where
  agrees : Agrees values st.utxoSet
  stored : ∃ data, cs.blockData root = some data
  statuses : ∀ hash, st.blockStatus.get hash =
    if hash = root then some .statusUTXOValid else none
  virtualSelectedParent : st.virtualSelectedParent = some root
  diff : ∃ d, st.utxoDiff.get root = some d ∧ d.Leads values st.utxoSet rootSet
  noChild : ∀ hash, st.utxoDiffChild.get hash = none
  multiset : st.multiset.get root = some (cs.multisetOf rootSet)

end

lemma Initial.consistent (h : cs.Initial values root rootSet st) :
    cs.Consistent values root rootSet st := by
  have hst : ∀ hash status, st.blockStatus.get hash = some status → hash = root := by
    intro hash status hg
    rw [h.statuses] at hg
    by_contra hne
    rw [if_neg hne] at hg
    cases hg
  have hrs : ∀ hash, st.Resolved hash → hash = root := fun hash hr =>
    hr.elim (hst hash _) (hst hash _)
  obtain ⟨_,hd,hl⟩ := h.diff
  refine ⟨root,h.virtualSelectedParent,⟨?_,fun k hk hne => ?_,fun k hk hne => ?_⟩,
    ⟨fun k hk hne => absurd (hrs k hk) hne,fun k _ hk hne _ => absurd (hrs k hk) hne,
      fun k hk hne => absurd (hrs k (.inl hk)) hne⟩,fun k _ _ _ hc => ?_⟩
  · refine .of_root h.agrees h.stored ?_ hrs hd hl h.noChild h.multiset
    rw [h.statuses,if_pos rfl]
  · exact absurd (hst k _ hk) hne
  · rcases hasBody_iff.1 hk with hr | hpe
    · exact absurd (hrs k hr) hne
    · exact absurd (hst k _ hpe) hne
  · rw [h.noChild] at hc
    cases hc

def stepOption (cs : Consensus M) (st : ConsensusStores M) (action : Action) :
    Option (ConsensusStores M) :=
  (cs.step st action).toOption

lemma run_consistent (hcs : cs.WellFormed values) {st₀ : ConsensusStores M}
    {actions : List Action} (hi : cs.Initial values root rootSet st₀)
    (hsf : run.Along cs.stepOption (cs.SafeStep root rootSet) st₀ actions)
    (hr : run cs.stepOption st₀ actions = some st) : cs.Consistent values root rootSet st := by
  have hst : ∀ st action st', cs.Consistent values root rootSet st →
      cs.SafeStep root rootSet st action → cs.stepOption st action = some st' →
      cs.Consistent values root rootSet st' := fun st action st' h hsf hst =>
    step_consistent hcs h hsf (toOption_eq_some.1 hst)
  exact run.invariant_along hst hi.consistent hsf hr

/-- The stores after genesis. -/
def genesisStores : ConsensusStores Int :=
  { chainStores with
    tips := [0]
    blockStatus := (∅ : FinMap DomainHash BlockStatus).insert 0 .statusUTXOValid }

def virtualOn (hash : DomainHash) : VirtualData :=
  ⟨⟨3,3,some hash,[hash],[],∅⟩,2⟩

lemma genesisStores_initial {utxoCommitment : DomainHash} {outputs : List DomainTransactionOutput} :
    (sampleConsensus (chainBlocks utxoCommitment outputs)).Initial twinValues 0 ∅
      genesisStores where
  agrees := fun _ _ he => by cases he
  stored := ⟨_,rfl⟩
  statuses := fun _ => by
    rfl
  virtualSelectedParent := rfl
  diff := ⟨newUTXODiff,rfl,Leads.newUTXODiff _ _⟩
  noChild := fun _ => rfl
  multiset := rfl

/-- Both blocks are inserted as pending. -/
def insertTwoBlocks : List Action :=
  [.insertBlock 1 false false (virtualOn 1),.insertBlock 2 false false (virtualOn 2)]

def resolveTwoBlocks : Action :=
  .resolveVirtual (fun _ => false) 0 (virtualOn 2)

def twoBlocks : List Action := insertTwoBlocks ++ [resolveTwoBlocks]

lemma chainBlocks_passes : (sampleConsensus payingBlocks).Passes 0 ∅ hash := by
  intro _ _ _ _ _ hc _
  rcases chainBlocks_cases hc.data_eq with ⟨rfl,-⟩ | ⟨rfl,rfl⟩ | ⟨rfl,rfl⟩
  · exact absurd rfl hc.ne_root
  · rfl
  · rfl

/-- An insertion that does not update virtual is always safe. -/
lemma insertTwoBlocks_safe : run.Along (sampleConsensus payingBlocks).stepOption
    ((sampleConsensus payingBlocks).SafeStep 0 ∅) genesisStores insertTwoBlocks :=
  ⟨fun h => absurd h (by decide),fun _ _ => ⟨fun h => absurd h (by decide),fun _ _ => trivial⟩⟩

/-- Virtual accepts the coinbase transaction of block 2, which has no outputs. -/
lemma virtualOn_fresh : (sampleConsensus payingBlocks).VirtualFresh 0 ∅ (virtualOn 2) := by
  intro _ _ _ hs
  refine ⟨fun _ hb => ?_,.inr (by decide),hasScores_of_chainBlocks (.inr rfl) hs⟩
  cases hb
  exact ⟨⟨fun _ _ _ _ _ hq => absurd hq not_mem_nil,fun _ _ _ => trivial⟩,fun _ _ _ => trivial⟩

lemma resolveTwoBlocks_safe :
    (sampleConsensus payingBlocks).SafeStep 0 ∅ chainStores resolveTwoBlocks := by
  intro point hp
  obtain rfl : 2 = point := some.inj (Except.ok.inj hp)
  refine ⟨virtualOn_fresh,fun _ ht => ?_,?_⟩
  · cases ht
    rfl
  · intro _ _ _ hc hn
    refine ⟨?_,fun _ _ => ⟨chainBlocks_fresh (.inr rfl),chainBlocks_passes⟩⟩
    have hbs := hc.base_status
    simp only [chainStores,get_insert,get_empty] at hbs
    split at hbs
    · exact absurd (some.inj hbs).symm hn
    · split at hbs
      · exact absurd (some.inj hbs).symm hn
      · split at hbs
        · exact (some.inj hbs).symm
        · cases hbs

lemma twoBlocks_safe : run.Along (sampleConsensus payingBlocks).stepOption
    ((sampleConsensus payingBlocks).SafeStep 0 ∅) genesisStores twoBlocks := by
  refine ⟨fun h => absurd h (by decide),fun st hst => ?_⟩
  cases hst
  refine ⟨fun h => absurd h (by decide),fun st hst => ?_⟩
  obtain rfl : chainStores = st := some.inj hst
  exact ⟨resolveTwoBlocks_safe,fun _ _ => trivial⟩

/-- Blocks 1, 3 and 9 stand on genesis, and block 4 on block 3. Block 1 fails verification. -/
def blocksBesideFailed : DomainHash → Option BlockData :=
  fun hash =>
    if hash = 0 then some sampleGenesisData
    else if hash = 1 then some (chainBlockData 0 1 1 [])
    else if hash = 3 then some (chainBlockData 0 1 0 [])
    else if hash = 4 then some (chainBlockData 3 2 0 [⟨5,⟨[],0⟩⟩])
    else if hash = 9 then some (chainBlockData 0 1 0 [])
    else none

def virtualMerging (selectedParent : DomainHash) (blues : List DomainHash) : VirtualData :=
  ⟨⟨3,3,some selectedParent,selectedParent :: blues,[],∅⟩,2⟩

end Consensus
end Eiyaro
