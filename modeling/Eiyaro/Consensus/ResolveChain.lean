import Eiyaro.Consensus.Resolve
import Eiyaro.Consensus.Soundness

/-!
# The statuses of a resolved chain

What `resolveBlockStatus` does to a chain of pending blocks above a resolved block.
The loop keeps the diffs sound and carries a diff to the past UTXO set of the block
before, as long as no block fails verification on top of a valid block. After such a
failure it carries nil, and the next block runs into it.
-/

namespace Eiyaro.Consensus
open List FinMap
open UTXODiff
variable {M : Type} [AddCommGroup M] {cs : Consensus M}
  {values : DomainOutpoint → UInt64 → UTXOEntry} {root : DomainHash} {rootSet : UtxoCollection}
  {st : ConsensusStores M} {tip hash selectedParent : DomainHash} {s t u : UtxoCollection}
  {diff diff' : UTXODiff}

def IsSelectedParent (cs : Consensus M) (selectedParent hash : DomainHash) : Prop :=
  ∃ data, cs.blockData hash = some data ∧ data.ghostdagData.selectedParent = some selectedParent

section
variable (cs root rootSet hash)

/-- The acceptance data of the replay of a block on the past UTXO set of its selected parent. -/
def Accepts (acceptanceData : AcceptanceData) : Prop :=
  ∃ selectedParent data s s', cs.Candidate root rootSet hash selectedParent data s ∧
    cs.NoRecreation hash data.block.header.daaScore data.ghostdagData s ∧
    cs.replayMergeSet hash data.block.header.daaScore data.ghostdagData s = .ok (s', acceptanceData)

end

omit [AddCommGroup M] in
lemma IsSelectedParent.ne_genesis (hcs : cs.WellFormed values)
    (h : cs.IsSelectedParent selectedParent hash) : hash ≠ cs.genesisHash := by
  rintro rfl
  obtain ⟨_,hd,hpar⟩ := h
  exact absurd (hpar.symm.trans (hcs.genesis hd)) (by simp)

omit [AddCommGroup M] in
lemma IsSelectedParent.unique {selectedParent' : DomainHash}
    (h : cs.IsSelectedParent selectedParent hash)
    (h' : cs.IsSelectedParent selectedParent' hash) : selectedParent = selectedParent' := by
  obtain ⟨_,hd,hpar⟩ := h
  obtain ⟨_,hd',hp'⟩ := h'
  obtain rfl := Option.some.inj (hd.symm.trans hd')
  exact Option.some.inj (hpar.symm.trans hp')

/-! ## One block -/

lemma liftDiffError_diffFrom (hs : Agrees values s) (h : diff.Leads values s t)
    (h' : diff'.Leads values s u) :
    ∃ d, liftDiffError (diff.diffFrom diff') = .ok d ∧ d.Leads values t u := by
  obtain ⟨d,hd,hl⟩ := h.diffFrom hs h'
  exact ⟨d,by rw [hd]; rfl,hl⟩

/-! ## The loop -/

/-- The parts of the stores that resolution does not touch. -/
structure SameVirtual (st st' : ConsensusStores M) : Prop where
  utxoSet_eq : st'.utxoSet = st.utxoSet
  virtualGHOSTDAGData_eq : st'.virtualGHOSTDAGData = st.virtualGHOSTDAGData
  tips_eq : st'.tips = st.tips

omit [AddCommGroup M] in
lemma SameVirtual.trans {st' st'' : ConsensusStores M} (h : SameVirtual st st')
    (h' : SameVirtual st' st'') : SameVirtual st st'' :=
  ⟨h'.utxoSet_eq.trans h.utxoSet_eq,h'.virtualGHOSTDAGData_eq.trans h.virtualGHOSTDAGData_eq,
    h'.tips_eq.trans h.tips_eq⟩

section
variable (cs values root rootSet st tip hash)

/-- What a round changes besides the diffs. -/
structure Resolves (status : BlockStatus) (st' : ConsensusStores M) : Prop where
  same : SameVirtual st st'
  blockStatus_eq : st'.blockStatus = st.blockStatus.insert hash status
  accepted : ∃ acceptanceData, st'.acceptanceData = st.acceptanceData.insert hash acceptanceData ∧
    cs.Accepts root rootSet hash acceptanceData

/-- The loop has resolved a block with a status, and carries a diff to its past
UTXO set. -/
structure Carries (status : BlockStatus) (loop : ResolveLoop M) : Prop where
  sound : cs.Sound values root rootSet loop.stores tip
  status_eq : loop.status = status
  previous_status : loop.stores.blockStatus.get loop.previousBlockHash = some status
  exists_diff : ∃ diff s, loop.previousBlockUTXOSet = some diff ∧
    cs.Replays root rootSet loop.previousBlockHash s ∧ diff.Leads values loop.stores.utxoSet s

end

variable {status : BlockStatus} {loop : ResolveLoop M} {mid st' : ConsensusStores M}
  {chain : List DomainHash}

omit [AddCommGroup M] in
lemma isNewSelectedTip_total {hash' : DomainHash} {data data' : BlockData}
    (h : cs.blockData hash = some data) (h' : cs.blockData hash' = some data') :
    ∃ b, cs.isNewSelectedTip hash hash' = .ok b := by
  rw [isNewSelectedTip,getBlockData_eq_ok.2 h,getBlockData_eq_ok.2 h']
  exact ⟨_,rfl⟩

section
variable (hcs : cs.WellFormed values) (h : cs.Carries values root rootSet tip status loop)
  (hpar : cs.IsSelectedParent loop.previousBlockHash hash)
  (hnew : ¬loop.stores.Resolved hash) (hfresh : cs.Fresh root rootSet hash)
include hcs h hpar hnew hfresh

/-- The past UTXO of the next block, and the diff to it from the block before. -/
lemma Carries.exists_past (hst : status.IsResolved) :
    ∃ data s' past utxoDiff, cs.blockData hash = some data ∧ hash ≠ cs.genesisHash ∧
      cs.Replays root rootSet hash s' ∧
      cs.calculatePastUTXO loop.stores hash data.ghostdagData data.block.header.daaScore
        loop.previousBlockUTXOSet = .ok past ∧
      cs.Accepts root rootSet hash past.acceptanceData ∧
      past.utxoDiff.Leads values loop.stores.utxoSet s' ∧ past.multiset = cs.multisetOf s' ∧
      OnlyRuleErrors (cs.verifyUTXO loop.stores.utxoSet data.block hash past) ∧
      (cs.verifyUTXO loop.stores.utxoSet data.block hash past = .ok () ↔
        cs.Passes root rootSet hash) ∧
      (∀ st : ConsensusStores M, stageDiffToSelectedParent st hash loop.previousBlockHash
        loop.previousBlockUTXOSet past.utxoDiff =
          .ok (st.stageDiff hash utxoDiff (some loop.previousBlockHash))) ∧
      ∀ status', status'.IsResolved →
        cs.Sound values root rootSet (loop.stores.stageResolved hash status' past.acceptanceData
          past.multiset utxoDiff (some loop.previousBlockHash)) tip := by
  have hr : loop.stores.Resolved loop.previousBlockHash := by
    rw [ConsensusStores.Resolved,h.previous_status]
    exact hst.imp (congrArg some) (congrArg some)
  obtain ⟨_,s,hp,hs,hdf⟩ := h.exists_diff
  have hg := hpar.ne_genesis hcs
  obtain ⟨data,hd,hpar⟩ := hpar
  have hrt : hash ≠ root := fun heq => hnew (heq ▸ h.sound.root_resolved)
  have hcn : cs.Candidate root rootSet hash loop.previousBlockHash data s := ⟨hrt,hd,hpar,hs⟩
  obtain ⟨s',past,hs',hrp,hps,hl,hm,hrl,hv⟩ := hcn.exists_past hcs h.sound.agrees hfresh hdf
  obtain ⟨utxoDiff,hud,hu⟩ := liftDiffError_diffFrom h.sound.agrees hdf hl
  refine ⟨data,s',past,utxoDiff,hd,hg,hs',?_,
    ⟨_,data,s,s',hcn,(hfresh _ _ _ hcn).noRecreation,hrp⟩,hl,hm,hrl,hv,fun st => ?_,
    fun status' hst' => ?_⟩
  · rw [hp,calculatePastUTXO,if_neg hg,hpar]
    change fromStore (loop.stores.multiset.get loop.previousBlockHash) >>= _ = _
    rw [h.sound.multiset_eq hr hs]
    exact hps
  · rw [stageDiffToSelectedParent,hp,diffFrom?,dereference,ok_bind,hud]
    rfl
  · rw [hm]
    exact h.sound.addBlock past.acceptanceData hnew hst' hr hs hs' hu

/-- One round on a block that gets the status of the block before it and is given a
diff to it: a block on top of a disqualified block, or one that passes verification
and is not the last. -/
lemma resolveNext_same_status (isResolveTip : Bool) (hst : status = .statusDisqualifiedFromChain ∨
      status = .statusUTXOValid ∧ cs.Passes root rootSet hash ∧ isResolveTip = false) :
    ∃ loop', cs.resolveNext loop hash isResolveTip = .ok loop' ∧
      cs.Carries values root rootSet tip status loop' ∧ loop'.previousBlockHash = hash ∧
      cs.Resolves root rootSet loop.stores hash status loop'.stores ∧
      loop'.stores.utxoDiffChild =
        loop.stores.utxoDiffChild.insert hash loop.previousBlockHash := by
  have hr := hst.symm.imp_left And.left
  obtain ⟨_,s',past,utxoDiff,hd,hg,hs',hp,ha,hl,-,-,hv,
    hsg,hs⟩ := h.exists_past hcs hpar hnew hfresh hr
  rcases hst with rfl | ⟨rfl,hps,rfl⟩
  · refine ⟨{ loop with stores := _, previousBlockHash := hash, previousBlockUTXOSet := _ },?_,
      ⟨hs _ hr,h.status_eq,get_insert_self _ _ _,past.utxoDiff,s',rfl,hs',hl⟩,
      rfl,⟨⟨rfl,rfl,rfl⟩,rfl,_,rfl,ha⟩,rfl⟩
    rw [resolveNext,if_pos h.status_eq,resolveDisqualified,getBlockData_eq_ok.2 hd,ok_bind,
      hp,ok_bind]
    dsimp only
    rw [hsg]
    rfl
  · refine ⟨⟨_,.statusUTXOValid,hash,_,loop.previousBlockHash,loop.previousBlockUTXOSet⟩,?_,
      ⟨hs _ hr,rfl,get_insert_self _ _ _,past.utxoDiff,s',rfl,hs',hl⟩,
      rfl,⟨⟨rfl,rfl,rfl⟩,rfl,_,rfl,ha⟩,rfl⟩
    rw [resolveNext,if_neg (by rw [h.status_eq]; decide),resolveSingleBlockStatus,
      getBlockData_eq_ok.2 hd,ok_bind,hp,ok_bind,if_neg hg]
    rw [hv.2 hps]
    dsimp only
    rw [stageVerifiedDiff,hsg]
    rfl

/-- A block that fails on top of a valid block is disqualified, and the loop has no
diff to its past UTXO set. -/
lemma resolveNext_fails (isResolveTip : Bool) (hs : status = .statusUTXOValid)
    (hf : ¬cs.Passes root rootSet hash) :
    ∃ loop', cs.resolveNext loop hash isResolveTip = .ok loop' ∧
      cs.Sound values root rootSet loop'.stores tip ∧
      loop'.status = .statusDisqualifiedFromChain ∧ loop'.previousBlockUTXOSet = none ∧
      cs.Resolves root rootSet loop.stores hash .statusDisqualifiedFromChain loop'.stores ∧
      loop'.stores.utxoDiffChild =
        loop.stores.utxoDiffChild.insert hash loop.previousBlockHash := by
  obtain ⟨_,_,_,_,hd,hg,_,hp,ha,_,-,hr,hv,hst,hsn⟩ := h.exists_past hcs hpar hnew hfresh (.inl hs)
  obtain ⟨_,_,he⟩ := hr.resolve_left fun ⟨_,hok⟩ => hf (hv.1 hok)
  refine ⟨⟨_,.statusDisqualifiedFromChain,hash,none,loop.previousBlockHash,
    loop.previousBlockUTXOSet⟩,?_,hsn _ (.inr rfl),rfl,rfl,
    ⟨⟨rfl,rfl,rfl⟩,rfl,_,rfl,ha⟩,rfl⟩
  rw [resolveNext,if_neg (by rw [h.status_eq,hs]; decide),resolveSingleBlockStatus,
    getBlockData_eq_ok.2 hd,ok_bind,hp,ok_bind,if_neg hg]
  rw [he]
  dsimp only
  rw [hst]
  rfl

/-- The last block of a chain that passes gets a diff to the UTXO set of virtual, or
to the old selected tip. -/
lemma resolveNext_tip (hs : status = .statusUTXOValid)
    (hv : loop.stores.virtualSelectedParent = some tip) (hp : cs.Passes root rootSet hash) :
    ∃ loop' tip' diff s, cs.resolveNext loop hash true = .ok loop' ∧
      cs.Sound values root rootSet loop'.stores tip' ∧
      (cs.isNewSelectedTip hash tip = .ok true →
        tip' = hash ∧ loop'.stores.utxoDiffChild.get tip = some hash) ∧
      loop'.status = .statusUTXOValid ∧
      cs.Resolves root rootSet loop.stores hash .statusUTXOValid loop'.stores ∧
      (∀ k, k ≠ hash → k ≠ tip →
        loop'.stores.utxoDiffChild.get k = loop.stores.utxoDiffChild.get k) ∧
      loop'.previousBlockUTXOSet = some diff ∧ cs.Replays root rootSet hash s ∧
      diff.Leads values loop.stores.utxoSet s ∧
      loop'.oneBeforeLastResolvedBlockHash = some loop.previousBlockHash ∧
      loop'.oneBeforeLastResolvedBlockUTXOSet = loop.previousBlockUTXOSet := by
  obtain ⟨_,s',past,-,hdt,hg,hs',hps,ha,hld,hm,-,hvr,
    -⟩ := h.exists_past hcs hpar hnew hfresh (.inl hs)
  obtain ⟨t,-,ht,-⟩ := h.sound.restorable h.sound.tip_resolved
  -- the stores are searched for the old tip after the block is staged, which is on no path
  obtain ⟨staged,hstg⟩ : ∃ staged, staged = (loop.stores.stageAcceptanceData hash
    past.acceptanceData).stageMultiset hash past.multiset := ⟨_,rfl⟩
  have hr : ∃ d, staged.restorePastUTXO tip = .ok d ∧ d.Leads values loop.stores.utxoSet t := by
    obtain ⟨n,hpt⟩ := h.sound.exists_path h.sound.tip_resolved ht
    have hpt : staged.Path values (fun _ => True) n tip t := by rw [hstg]; exact hpt
    obtain ⟨d,hd,hld⟩ := hpt.restorePastUTXO_eq (by rw [hstg]; exact h.sound.agrees)
    exact ⟨d,hd,by rw [hstg] at hld; exact hld⟩
  obtain ⟨tipDiff,htp,htl⟩ := hr
  obtain ⟨_,htd⟩ := h.sound.exists_blockData h.sound.tip_resolved
  obtain ⟨isNew,hi⟩ := isNewSelectedTip_total hdt htd
  have hn : ∀ stores, cs.stageResolveTipDiff staged hash past.utxoDiff = .ok stores →
      cs.resolveNext loop hash true = .ok ⟨stores.stageStatus hash .statusUTXOValid,
        .statusUTXOValid,hash,some past.utxoDiff,loop.previousBlockHash,
        loop.previousBlockUTXOSet⟩ := by
    intro stores hst
    rw [resolveNext,if_neg (by rw [h.status_eq,hs]; decide),resolveSingleBlockStatus,
      getBlockData_eq_ok.2 hdt,ok_bind,hps,ok_bind,if_neg hg]
    dsimp only
    rw [hvr.2 hp]
    rw [stageVerifiedDiff,if_pos rfl,← hstg,hst]
    rfl
  have hsg : cs.stageResolveTipDiff staged hash past.utxoDiff =
      if isNew then do
        let updated ← liftDiffError (past.utxoDiff.diffFrom tipDiff)
        return (staged.stageDiff tip updated hash).stageDiff hash past.utxoDiff none
      else do
        let utxoDiff ← liftDiffError (tipDiff.diffFrom past.utxoDiff)
        return staged.stageDiff hash utxoDiff tip := by
    have hv' : staged.virtualSelectedParent = some tip := by rw [hstg]; exact hv
    rw [stageResolveTipDiff,hv',dereference,ok_bind,htp,ok_bind,hi,ok_bind]
  cases isNew with
  | true =>
    obtain ⟨updated,hup,hu⟩ := liftDiffError_diffFrom h.sound.agrees hld htl
    rw [if_pos rfl,hup] at hsg
    have hsn := h.sound.addTip past.acceptanceData hnew ht hs' hu hld
    rw [← hm] at hsn
    subst hstg
    refine ⟨_,hash,past.utxoDiff,s',hn _ hsg,hsn,
      fun _ => ⟨rfl,get_insert_self _ _ _⟩,rfl,⟨⟨rfl,rfl,rfl⟩,rfl,_,rfl,ha⟩,
      fun k _ hk => get_insert_of_ne _ _ hk,rfl,hs',hld,rfl,rfl⟩
  | false =>
    obtain ⟨utxoDiff,hud,hul⟩ := liftDiffError_diffFrom h.sound.agrees htl hld
    rw [if_neg (by decide),hud] at hsg
    have hsn := h.sound.addBlock past.acceptanceData hnew (.inl rfl) h.sound.tip_resolved ht hs' hul
    rw [← hm] at hsn
    subst hstg
    refine ⟨_,tip,past.utxoDiff,s',hn _ hsg,hsn,fun hnew => ?_,rfl,
      ⟨⟨rfl,rfl,rfl⟩,rfl,_,rfl,ha⟩,fun k hk _ => get_insert_of_ne _ _ hk,rfl,
      hs',hld,rfl,rfl⟩
    exact absurd (hi.symm.trans hnew) (by simp)

end

section
variable (cs root rootSet st status chain)

/-- The blocks of a chain have one status and diffs to their selected parents. -/
structure Chained (st' : ConsensusStores M) : Prop where
  same : SameVirtual st st'
  statuses : ∀ k, st'.blockStatus.get k =
    if k ∈ chain then some status else st.blockStatus.get k
  accepted : ∀ k ∈ chain, ∃ acceptanceData, st'.acceptanceData.get k = some acceptanceData ∧
    cs.Accepts root rootSet k acceptanceData
  acceptance_eq : ∀ k ∉ chain, st'.acceptanceData.get k = st.acceptanceData.get k
  child : ∀ k ∈ chain, ∃ selectedParent, cs.IsSelectedParent selectedParent k ∧
    st'.utxoDiffChild.get k = some selectedParent
  child_eq : ∀ k ∉ chain, st'.utxoDiffChild.get k = st.utxoDiffChild.get k

end

omit [AddCommGroup M] in
lemma Chained.cons (hrn : cs.Resolves root rootSet st hash status mid)
    (hpar : cs.IsSelectedParent selectedParent hash)
    (hc : mid.utxoDiffChild = st.utxoDiffChild.insert hash selectedParent)
    (hn : hash ∉ chain) (h : cs.Chained root rootSet mid status chain st') :
    cs.Chained root rootSet st status (hash :: chain) st' := by
  obtain ⟨acceptanceData,hac,ha⟩ := hrn.accepted
  refine ⟨hrn.same.trans h.same,fun k => ?_,fun k hk => ?_,fun k hk => ?_,fun k hk => ?_,
    fun k hk => ?_⟩
  · rw [h.statuses,hrn.blockStatus_eq,get_insert]
    by_cases hk : k ∈ chain <;> by_cases hkh : k = hash <;> simp [hk,hkh]
  · obtain rfl | hk := mem_cons.1 hk
    · refine ⟨acceptanceData,?_,ha⟩
      rw [h.acceptance_eq k hn,hac,get_insert_self]
    · exact h.accepted k hk
  · rw [mem_cons,not_or] at hk
    rw [h.acceptance_eq k hk.2,hac,get_insert_of_ne _ _ hk.1]
  · obtain rfl | hk := mem_cons.1 hk
    · refine ⟨selectedParent,hpar,?_⟩
      rw [h.child_eq k hn,hc,get_insert_self]
    · exact h.child k hk
  · rw [mem_cons,not_or] at hk
    rw [h.child_eq k hk.2,hc,get_insert_of_ne _ _ hk.1]

/-- All blocks before a given one get the status of the block that the chain stands
on, if it is disqualified or they all pass. -/
lemma resolveBlocks_append (hcs : cs.WellFormed values)
    {block : DomainHash} {rest : List DomainHash}
    (h : cs.Carries values root rootSet tip status loop)
    (hch : List.IsChain cs.IsSelectedParent (loop.previousBlockHash :: (chain ++ block :: rest)))
    (hnd : (chain ++ block :: rest).Nodup)
    (hnew : ∀ hash ∈ chain ++ block :: rest, ¬loop.stores.Resolved hash)
    (hfresh : ∀ hash ∈ chain, cs.Fresh root rootSet hash)
    (hs : status = .statusDisqualifiedFromChain ∨
      status = .statusUTXOValid ∧ ∀ hash ∈ chain, cs.Passes root rootSet hash) :
    ∃ loop', cs.resolveBlocks loop (chain ++ block :: rest) = (do
        let loop ← cs.resolveNext loop' block rest.isEmpty
        cs.resolveBlocks loop rest) ∧
      cs.Carries values root rootSet tip status loop' ∧
      cs.IsSelectedParent loop'.previousBlockHash block ∧ ¬loop'.stores.Resolved block ∧
      cs.Chained root rootSet loop.stores status chain loop'.stores ∧
      (chain = [] ∧ loop' = loop ∨ loop'.previousBlockHash ∈ chain) := by
  induction chain generalizing loop with
  | nil =>
    exact ⟨loop,rfl,h,(isChain_cons_cons.1 hch).1,hnew block (by simp),
      ⟨⟨rfl,rfl,rfl⟩,by simp,by simp,fun _ _ => rfl,by simp,fun _ _ => rfl⟩,.inl ⟨rfl,rfl⟩⟩
  | cons hash chain ih =>
    rw [cons_append,isChain_cons_cons] at hch
    rw [cons_append,nodup_cons] at hnd
    rw [cons_append,forall_mem_cons] at hnew
    rw [forall_mem_cons] at hfresh
    obtain ⟨next,hn,hc,hp,hr,hcl⟩ :=
      resolveNext_same_status hcs h hch.1 hnew.1 hfresh.1 false
        (hs.imp_right fun h => ⟨h.1,h.2 hash mem_cons_self,rfl⟩)
    have hn' : ∀ k ∈ chain ++ block :: rest, ¬next.stores.Resolved k := by
      intro k hk hrs
      have hne : k ≠ hash := fun heq => hnd.1 (heq ▸ hk)
      rw [ConsensusStores.Resolved,hr.blockStatus_eq,get_insert_of_ne _ _ hne] at hrs
      exact hnew.2 k hk hrs
    obtain ⟨loop',hl',hc',hpar,hb,hcn,hls⟩ := ih hc
      (hp ▸ hch.2) hnd.2 hn' hfresh.2
      (hs.imp_right fun h => ⟨h.1,fun k hk => h.2 k (mem_cons_of_mem _ hk)⟩)
    refine ⟨loop',?_,hc',hpar,hb,.cons hr hch.1 hcl ?_ hcn,.inr ?_⟩
    · have ht : (chain ++ block :: rest).isEmpty = false := by simp
      rw [cons_append,resolveBlocks,ht,hn,ok_bind,hl']
    · exact fun hm => hnd.1 (mem_append_left _ hm)
    · obtain ⟨-,rfl⟩ | hls := hls
      · exact hp ▸ mem_cons_self
      · exact mem_cons_of_mem _ hls

/-! ## The whole chain -/

/-- Selected parents have less blue work. -/
def blueWork (cs : Consensus M) (hash : DomainHash) : Nat :=
  match cs.blockData hash with
  | some data => data.ghostdagData.blueWork
  | none => 0

section

omit [AddCommGroup M]

lemma IsSelectedParent.blueWork_lt (hcs : cs.WellFormed values)
    (h : cs.IsSelectedParent selectedParent hash) :
    cs.blueWork selectedParent < cs.blueWork hash := by
  obtain ⟨_,hd,hpar⟩ := h
  obtain ⟨_,hp,hlt⟩ := hcs.blueWork_lt hd hpar
  rw [blueWork,blueWork,hd,hp]
  exact hlt

lemma selectedChain_nodup (hcs : cs.WellFormed values)
    (h : List.IsChain cs.IsSelectedParent chain) : chain.Nodup := by
  have hw : List.IsChain (· < ·) (chain.map cs.blueWork) :=
    (isChain_map _).2 (h.imp fun _ _ hpar => hpar.blueWork_lt hcs)
  exact .of_map _ ((isChain_iff_pairwise.1 hw).imp ne_of_lt)

/-- The pending blocks are collected down to the first block that is not pending. -/
lemma getUnverifiedChainBlocks_eq {base : DomainHash}
    (hch : List.IsChain cs.IsSelectedParent (base :: chain))
    (hp : ∀ hash ∈ chain, st.blockStatus.get hash = some .statusUTXOPendingVerification)
    (hb : ∃ status, st.blockStatus.get base = some status ∧
      status ≠ .statusUTXOPendingVerification) {rounds : Nat} (hr : chain.length < rounds) :
    cs.getUnverifiedChainBlocks st rounds ((base :: chain).getLast (by simp)) =
      .ok chain.reverse := by
  induction chain using reverseRecOn generalizing rounds with
  | nil =>
    obtain ⟨status,hs,hne⟩ := hb
    obtain ⟨rounds,rfl⟩ : ∃ r, rounds = r+1 := ⟨rounds - 1,by omega⟩
    rw [getLast_singleton,getUnverifiedChainBlocks,hs,fromStore,ok_bind,if_pos hne]
    rfl
  | append_singleton chain block ih =>
    obtain ⟨rounds,rfl⟩ : ∃ r, rounds = r+1 := ⟨rounds - 1,by omega⟩
    rw [length_append,length_singleton] at hr
    obtain ⟨hch,-,hbl⟩ := isChain_append.1 (cons_append ▸ hch)
    obtain ⟨_,hd,hpar⟩ := hbl ((base :: chain).getLast (by simp))
      (by simp [getLast?_eq_some_getLast]) block (by simp)
    have ih := ih hch (fun hash hh => hp hash (mem_append_left _ hh))
      (show chain.length < rounds by omega)
    have hl : (base :: (chain ++ [block])).getLast (by simp) = block := by simp
    rw [hl,getUnverifiedChainBlocks,hp block (by simp),fromStore,ok_bind,
      getBlockData_eq_ok.2 hd,ok_bind,hpar]
    dsimp only
    rw [ih,reverse_append]
    rfl

end

/-- What `selectedParentInfo` finds below a chain on top of a resolved block. -/
lemma selectedParentInfo_eq (hcs : cs.WellFormed values)
    (h : cs.Sound values root rootSet st tip) (hpar : cs.IsSelectedParent selectedParent hash)
    (hst : st.blockStatus.get selectedParent = some status) (hr : status.IsResolved) :
    ∃ diff s, cs.selectedParentInfo st hash = .ok (selectedParent, status, some diff) ∧
      cs.Replays root rootSet selectedParent s ∧ diff.Leads values st.utxoSet s := by
  have hrs : st.Resolved selectedParent := by
    rw [ConsensusStores.Resolved,hst]
    exact hr.imp (congrArg some) (congrArg some)
  obtain ⟨s,-,hs,-⟩ := h.restorable hrs
  obtain ⟨diff,hdf,hl⟩ := h.restorePastUTXO_eq hrs hs
  have hg := hpar.ne_genesis hcs
  obtain ⟨_,hd,hpar⟩ := hpar
  refine ⟨diff,s,?_,hs,hl⟩
  rw [selectedParentInfo,if_neg hg,getBlockData_eq_ok.2 hd,ok_bind,hpar,
    dereference,ok_bind,hst,fromStore,ok_bind,if_neg (by tauto),hdf]
  rfl

section
variable (cs values root rootSet st tip)

/-- A chain of pending blocks, of which the last one is to be resolved, on top of a
block with a status. -/
structure PendingChain (base : DomainHash) (baseStatus : BlockStatus) (chain : List DomainHash)
    (block : DomainHash) : Prop where
  isChain : List.IsChain cs.IsSelectedParent (base :: (chain ++ [block]))
  pending : ∀ hash ∈ chain ++ [block], st.blockStatus.get hash = some .statusUTXOPendingVerification
  base_status : st.blockStatus.get base = some baseStatus

/-- The selected parent of a tip still has a diff to its own selected parent, and the
reversal data has a diff to it from the tip. -/
structure Reversible (data : UTXODiffReversalData) : Prop where
  parent : cs.IsSelectedParent data.selectedParentHash tip
  child : ∃ selectedParent, cs.IsSelectedParent selectedParent data.selectedParentHash ∧
    st.utxoDiffChild.get data.selectedParentHash = some selectedParent
  leads : ∃ s t, cs.Replays root rootSet tip s ∧
    cs.Replays root rootSet data.selectedParentHash t ∧
    data.selectedParentUTXODiff.Leads values s t

section
variable (baseStatus : BlockStatus) (chain : List DomainHash) (block : DomainHash)

/-- What a resolution records of a chain and its last block. -/
structure Recording (st' : ConsensusStores M) (status : BlockStatus) : Prop where
  same : SameVirtual st st'
  statuses : ∀ k, st'.blockStatus.get k = if k = block then some status
    else if k ∈ chain then some baseStatus else st.blockStatus.get k
  accepted : ∀ k ∈ chain ++ [block], ∃ acceptanceData,
    st'.acceptanceData.get k = some acceptanceData ∧ cs.Accepts root rootSet k acceptanceData
  acceptance_eq : ∀ k ∉ chain ++ [block], st'.acceptanceData.get k = st.acceptanceData.get k
  child : ∀ k ∈ chain, ∃ selectedParent, cs.IsSelectedParent selectedParent k ∧
    st'.utxoDiffChild.get k = some selectedParent
  child_eq : ∀ k ∉ chain ++ [block], k ≠ tip → st'.utxoDiffChild.get k = st.utxoDiffChild.get k

/-- What the resolution of a chain leaves behind. -/
structure Resolution
    (st' : ConsensusStores M) (status : BlockStatus) (reversal : Option UTXODiffReversalData) : Prop
    extends cs.Recording root rootSet st tip baseStatus chain block st' status where
  status_eq : baseStatus = .statusUTXOValid ∧ cs.Passes root rootSet block ∧
      status = .statusUTXOValid ∨
    ¬(baseStatus = .statusUTXOValid ∧ cs.Passes root rootSet block) ∧
      status = .statusDisqualifiedFromChain
  sound : ∃ tip', cs.Sound values root rootSet st' tip' ∧
    (status = .statusUTXOValid → cs.isNewSelectedTip block tip = .ok true →
      tip' = block ∧ st'.utxoDiffChild.get tip = some block) ∧
    (status = .statusDisqualifiedFromChain → tip' = tip)
  noReversal : reversal = none → status = .statusUTXOValid → chain = []
  reversal : ∀ data, reversal = some data → status = .statusUTXOValid ∧ chain ≠ [] ∧
    cs.Reversible values root rootSet st' block data

end
end

variable {base block : DomainHash} {baseStatus : BlockStatus}

section

omit [AddCommGroup M]
variable (h : cs.PendingChain st base baseStatus chain block)
include h

lemma PendingChain.notMem (hcs : cs.WellFormed values) :
    (chain ++ [block]).Nodup ∧ block ∉ chain := by
  have hnd := (nodup_cons.1 (selectedChain_nodup hcs h.isChain)).2
  refine ⟨hnd,fun hm => ?_⟩
  exact (nodup_append.1 hnd).2.2 block hm block (by simp) rfl

lemma PendingChain.getUnverifiedChainBlocks_eq (hcs : cs.WellFormed values)
    (hb : baseStatus ≠ .statusUTXOPendingVerification) :
    cs.getUnverifiedChainBlocks st (st.blockStatus.keys.card+1) block =
      .ok (chain ++ [block]).reverse := by
  have hs : (chain ++ [block]).toFinset ⊆ st.blockStatus.keys := by
    intro hash hh
    exact mem_keys_of_get (h.pending hash (mem_toFinset.1 hh))
  have hc := Finset.card_le_card hs
  rw [toFinset_card_of_nodup (h.notMem hcs).1] at hc
  have hl : (base :: (chain ++ [block])).getLast (by simp) = block := by simp
  rw [← Consensus.getUnverifiedChainBlocks_eq h.isChain h.pending ⟨_,h.base_status,hb⟩
    (show _ < st.blockStatus.keys.card+1 by omega),hl]

lemma PendingChain.notResolved : ∀ hash ∈ chain ++ [block], ¬st.Resolved hash := by
  intro hash hh hr
  rw [ConsensusStores.Resolved,h.pending hash hh] at hr
  simp at hr

end

omit [AddCommGroup M] in
/-- The last block, on top of a chain. -/
lemma Chained.recording (h : cs.Chained root rootSet st baseStatus chain mid)
    (hrn : cs.Resolves root rootSet mid block status st') (hb : block ∉ chain) (ht : tip ∉ chain)
    (hc : ∀ k, k ≠ block → k ≠ tip → st'.utxoDiffChild.get k = mid.utxoDiffChild.get k) :
    cs.Recording root rootSet st tip baseStatus chain block st' status := by
  obtain ⟨acceptanceData,hac,ha⟩ := hrn.accepted
  refine ⟨h.same.trans hrn.same,fun k => ?_,fun k hk => ?_,fun k hk => ?_,fun k hk => ?_,
    fun k hk hne => ?_⟩
  · rw [hrn.blockStatus_eq,get_insert,h.statuses]
  · rw [hac]
    by_cases heq : k = block
    · subst heq
      exact ⟨acceptanceData,get_insert_self _ _ _,ha⟩
    · rw [get_insert_of_ne _ _ heq]
      apply h.accepted
      simpa [heq] using hk
  · rw [mem_append,mem_singleton,not_or] at hk
    rw [hac,get_insert_of_ne _ _ hk.2,h.acceptance_eq k hk.1]
  · rw [hc k (fun heq => hb (heq ▸ hk)) fun heq => ht (heq ▸ hk)]
    exact h.child k hk
  · rw [mem_append,mem_singleton,not_or] at hk
    rw [hc k hk.2 hne,h.child_eq k hk.1]

/-- The last round and what follows it, after the loop has resolved the blocks
before the last one. -/
lemma resolveBlocks_finish (hcs : cs.WellFormed values)
    (h : cs.Carries values root rootSet tip baseStatus loop) (hba : baseStatus.IsResolved)
    (hv : loop.stores.virtualSelectedParent = some tip)
    (hpar : cs.IsSelectedParent loop.previousBlockHash block)
    (hnew : ¬loop.stores.Resolved block) (hfresh : cs.Fresh root rootSet block)
    (hcn : cs.Chained root rootSet st baseStatus chain loop.stores) (hbl : block ∉ chain)
    (htp : tip ∉ chain) (hls : chain = [] ∨ loop.previousBlockHash ∈ chain) :
    ∃ loop' reversal, cs.resolveNext loop block true = .ok loop' ∧
      reversalData loop' (chain ++ [block]).reverse = .ok reversal ∧
      cs.Resolution values root rootSet st tip baseStatus chain block loop'.stores loop'.status
        reversal := by
  by_cases hgd : baseStatus = .statusUTXOValid ∧ cs.Passes root rootSet block
  · obtain ⟨rfl,hps⟩ := hgd
    obtain ⟨loop',tip',_,s,hnx,hsn,ht',hst,hrn,hch,hp,hs,
      hl,hbf,hbs⟩ := resolveNext_tip hcs h hpar hnew hfresh rfl hv hps
    rw [← hst] at hrn
    have hr := hcn.recording hrn hbl htp hch
    have hvl : ∀ P : Prop, loop'.status = .statusDisqualifiedFromChain → P := by
      intro P heq
      rw [hst] at heq
      cases heq
    by_cases hem : chain = []
    · refine ⟨loop',none,hnx,?_,hr,.inl ⟨rfl,hps,hst⟩,⟨tip',hsn,fun _ => ht',hvl _⟩,fun _ _ => hem,
        fun data hdt => by cases hdt⟩
      rw [reversalData,if_neg (by simp [hem])]
      rfl
    · obtain ⟨_,t,hb',ht,hb⟩ := h.exists_diff
      obtain ⟨d,hd,hdl⟩ := liftDiffError_diffFrom h.sound.agrees hl hb
      refine ⟨loop',some ⟨loop.previousBlockHash,d⟩,hnx,?_,hr,
        .inl ⟨rfl,hps,hst⟩,⟨tip',hsn,fun _ => ht',hvl _⟩,
        fun hn => (by cases hn),?_⟩
      · have hln : (chain ++ [block]).reverse.length > 1 := by
          have := length_pos_of_ne_nil hem
          simp only [length_reverse,length_append,length_singleton]
          omega
        rw [reversalData,if_pos ⟨hst,hln⟩,hbs,hb',dereference,ok_bind,
          hp,diffFrom?,dereference,ok_bind,hd,ok_bind,hbf]
        rfl
      · rintro data ⟨⟩
        exact ⟨hst,hem,hpar,hr.child _ (hls.resolve_left hem),s,t,hs,ht,hdl⟩
  · -- the block is disqualified, on its own account or as its selected parent is
    obtain ⟨loop',hnx,hsn,hst,hrn,hch⟩ : ∃ loop',
        cs.resolveNext loop block true = .ok loop' ∧ cs.Sound values root rootSet loop'.stores tip ∧
        loop'.status = .statusDisqualifiedFromChain ∧
        cs.Resolves root rootSet loop.stores block .statusDisqualifiedFromChain loop'.stores ∧
        loop'.stores.utxoDiffChild =
          loop.stores.utxoDiffChild.insert block loop.previousBlockHash := by
      rcases hba with rfl | rfl
      · obtain ⟨loop',hnx,hsn,hst,-,hrn,hch⟩ :=
          resolveNext_fails hcs h hpar hnew hfresh true rfl fun hps => hgd ⟨rfl,hps⟩
        exact ⟨loop',hnx,hsn,hst,hrn,hch⟩
      · obtain ⟨loop',hnx,hc,-,hrn,hch⟩ :=
          resolveNext_same_status hcs h hpar hnew hfresh true (.inl rfl)
        exact ⟨loop',hnx,hc.sound,hc.status_eq,hrn,hch⟩
    rw [← hst] at hrn
    have hr := hcn.recording hrn hbl htp fun _ hk _ => by
      rw [hch,get_insert_of_ne _ _ hk]
    have hvl : ∀ P : Prop, loop'.status = .statusUTXOValid → P := by
      intro P heq
      rw [hst] at heq
      cases heq
    refine ⟨loop',none,hnx,?_,hr,.inr ⟨hgd,hst⟩,
      ⟨tip,hsn,hvl _,fun _ => rfl⟩,fun _ => hvl _,fun data hdt => by cases hdt⟩
    rw [reversalData,hst,if_neg (by simp)]
    rfl

/-- The loop starts with the past UTXO of the block that the chain stands on. -/
lemma resolveBlockStatus_eq (hcs : cs.WellFormed values)
    (hsn : cs.Sound values root rootSet st tip)
    (h : cs.PendingChain st base baseStatus chain block) (hrs : baseStatus.IsResolved) :
    ∃ diff, cs.Carries values root rootSet tip baseStatus
        ⟨st,baseStatus,base,some diff,none,none⟩ ∧
      cs.resolveBlockStatus st block = (do
        let loop ← cs.resolveBlocks ⟨st,baseStatus,base,some diff,none,none⟩ (chain ++ [block])
        let reversal ← reversalData loop (chain ++ [block]).reverse
        return (loop.stores, loop.status, reversal)) := by
  obtain ⟨first,rest,hfr⟩ : ∃ first rest, chain ++ [block] = first :: rest :=
    exists_cons_of_ne_nil (by simp)
  have hpar : cs.IsSelectedParent base first := (isChain_cons_cons.1 (hfr ▸ h.isChain)).1
  obtain ⟨diff,s,hi,hs,hd⟩ := selectedParentInfo_eq hcs hsn hpar h.base_status hrs
  refine ⟨diff,⟨hsn,rfl,h.base_status,diff,s,rfl,hs,hd⟩,?_⟩
  rw [resolveBlockStatus,h.getUnverifiedChainBlocks_eq hcs hrs.ne_pending,ok_bind,
    getLast?_reverse,hfr,head?_cons]
  dsimp only
  rw [hi,ok_bind,← hfr,reverse_reverse]

/-- Resolving a pending chain on top of a disqualified block, or on top of a valid
block when no block but the last one fails. -/
lemma resolveBlockStatus_resolution (hcs : cs.WellFormed values)
    (hsn : cs.Sound values root rootSet st tip) (hv : st.virtualSelectedParent = some tip)
    (h : cs.PendingChain st base baseStatus chain block)
    (hfresh : ∀ hash ∈ chain ++ [block], cs.Fresh root rootSet hash)
    (hb : baseStatus = .statusDisqualifiedFromChain ∨
      baseStatus = .statusUTXOValid ∧ ∀ hash ∈ chain, cs.Passes root rootSet hash) :
    ∃ st' status reversal, cs.resolveBlockStatus st block = .ok (st', status, reversal) ∧
      cs.Resolution values root rootSet st tip baseStatus chain block st' status reversal := by
  have hrs : baseStatus.IsResolved := hb.elim .inr fun h => .inl h.1
  obtain ⟨_,hcr,hre⟩ := resolveBlockStatus_eq hcs hsn h hrs
  obtain ⟨hnd,hbl⟩ := h.notMem hcs
  obtain ⟨loop,hlp,hc',hp',hn',hc,hl⟩ :=
    resolveBlocks_append hcs hcr h.isChain hnd h.notResolved
      (fun hash hh => hfresh hash (mem_append_left _ hh)) hb
  have hv' : loop.stores.virtualSelectedParent = some tip := by
    rw [ConsensusStores.virtualSelectedParent,hc.same.virtualGHOSTDAGData_eq]
    exact hv
  have ht : tip ∉ chain := fun hm =>
    h.notResolved tip (mem_append_left _ hm) hsn.tip_resolved
  obtain ⟨loop',reversal,hn,hr,hrn⟩ := resolveBlocks_finish hcs hc'
    hrs hv' hp' hn' (hfresh block (by simp)) hc hbl ht
    (hl.imp_left And.left)
  refine ⟨loop'.stores,loop'.status,reversal,?_,hrn⟩
  rw [hre,hlp,isEmpty_nil,hn,ok_bind,resolveBlocks]
  change (do let reversal ← reversalData loop' _; _) = _
  rw [hr]
  rfl

/-- After a block that failed, the loop has nothing to take a diff from. -/
lemma resolveDisqualified_error (h : loop.previousBlockUTXOSet = none) (block : DomainHash)
    (loop' : ResolveLoop M) : cs.resolveDisqualified loop block ≠ .ok loop' := by
  intro hr
  obtain ⟨_,-,_,-,hr⟩ := bind₂_eq_ok hr
  obtain ⟨_,hs,-⟩ := bind_eq_ok hr
  rw [h] at hs
  cases hs

/-- A block that fails on top of a valid block, with another pending block above it, is the end of
the call. -/
lemma passes_of_resolveBlockStatus_eq_ok (hcs : cs.WellFormed values)
    (hsn : cs.Sound values root rootSet st tip)
    (h : cs.PendingChain st base .statusUTXOValid chain block)
    (hfresh : ∀ hash ∈ chain ++ [block], cs.Fresh root rootSet hash)
    {result : ConsensusStores M × BlockStatus × Option UTXODiffReversalData}
    (hr : cs.resolveBlockStatus st block = .ok result) :
    ∀ hash ∈ chain, cs.Passes root rootSet hash := by
  classical
  by_contra hf
  -- the first block that fails
  obtain ⟨failed,hfl⟩ : ∃ failed, chain.find? (fun k => !decide (cs.Passes root rootSet k)) =
      some failed := by
    rw [← Option.isSome_iff_exists,find?_isSome]
    simpa using hf
  obtain ⟨hnp,before,after,rfl,hbf⟩ := find?_eq_some_iff_append.1 hfl
  obtain ⟨next,rest,hnx⟩ : ∃ next rest, after ++ [block] = next :: rest :=
    exists_cons_of_ne_nil (by simp)
  have hsplit : before ++ failed :: after ++ [block] = before ++ failed :: next :: rest := by
    rw [append_assoc,cons_append,hnx]
  have hchain := h.isChain
  have hnd := (h.notMem hcs).1
  have hnew := h.notResolved
  rw [hsplit] at hchain hnd hnew hfresh
  obtain ⟨_,hcr,hre⟩ := resolveBlockStatus_eq hcs hsn h (.inl rfl)
  obtain ⟨loop,hlp,hc,hp,hn,-,-⟩ := resolveBlocks_append hcs hcr hchain hnd hnew
    (fun hash hh => hfresh hash (mem_append_left _ hh))
    (.inr ⟨rfl,fun hash hh => by simpa using hbf hash hh⟩)
  obtain ⟨loop',hl',-,hst,hnone,-⟩ := resolveNext_fails hcs hc hp hn (hfresh failed (by simp))
    (next :: rest).isEmpty rfl (by simpa using hnp)
  rw [hre,hsplit,hlp,hl',ok_bind,resolveBlocks,resolveNext,if_pos hst] at hr
  obtain ⟨_,hr,-⟩ := bind_eq_ok hr
  obtain ⟨loop'',hr,-⟩ := bind_eq_ok hr
  exact resolveDisqualified_error hnone next loop'' hr

section
variable (cs root rootSet)

/-- Every block of a chain that passes verification with all blocks before it is valid, and the
others are disqualified. -/
def StatusesOf (chain : List DomainHash) (st : ConsensusStores M) : Prop :=
  ∀ before hash after, chain = before ++ hash :: after →
    ((∀ k ∈ before ++ [hash], cs.Passes root rootSet k) →
      st.blockStatus.get hash = some .statusUTXOValid) ∧
    ((¬∀ k ∈ before ++ [hash], cs.Passes root rootSet k) →
      st.blockStatus.get hash = some .statusDisqualifiedFromChain)

end

/-- A block on top of another block. All UTXO sets hash to 0 in the sample context,
so that a block with another commitment fails verification. -/
def chainBlockData (selectedParent : DomainHash) (blueWork : Nat) (utxoCommitment : DomainHash)
    (outputs : List DomainTransactionOutput) : BlockData :=
  let data := sampleBlockData selectedParent 1 outputs
  { data with
    block := { data.block with
      header := { data.block.header with utxoCommitment := utxoCommitment } }
    ghostdagData := { data.ghostdagData with blueWork := blueWork } }

def chainBlocks (utxoCommitment : DomainHash) (outputs : List DomainTransactionOutput) :
    DomainHash → Option BlockData :=
  fun hash =>
    if hash = 0 then some sampleGenesisData
    else if hash = 1 then some (chainBlockData 0 1 utxoCommitment outputs)
    else if hash = 2 then some (chainBlockData 1 2 0 [])
    else none

/-- The first block has a coinbase output, which the second one accepts. -/
abbrev payingBlocks : DomainHash → Option BlockData := chainBlocks 0 [⟨5,⟨[],0⟩⟩]

/-- The stores after genesis, with both blocks inserted and pending. -/
def chainStores : ConsensusStores Int where
  utxoSet := ∅
  virtualGHOSTDAGData := ⟨1,1,some 0,[0],[],∅⟩
  tips := [2]
  blockStatus := ((((∅ : FinMap DomainHash BlockStatus).insert 0 .statusUTXOValid).insert 1
    .statusUTXOPendingVerification).insert 2 .statusUTXOPendingVerification)
  utxoDiff := (∅ : FinMap DomainHash UTXODiff).insert 0 newUTXODiff
  utxoDiffChild := ∅
  acceptanceData := ∅
  multiset := (∅ : FinMap DomainHash Int).insert 0 0

variable {utxoCommitment : DomainHash} {outputs : List DomainTransactionOutput} {data : BlockData}

lemma chainBlocks_cases (h : chainBlocks utxoCommitment outputs hash = some data) :
    hash = 0 ∧ data = sampleGenesisData ∨
      hash = 1 ∧ data = chainBlockData 0 1 utxoCommitment outputs ∨
      hash = 2 ∧ data = chainBlockData 1 2 0 [] := by
  unfold chainBlocks at h
  split_ifs at h with h0 h1 h2 <;> cases h
  · exact .inl ⟨h0,rfl⟩
  · exact .inr (.inl ⟨h1,rfl⟩)
  · exact .inr (.inr ⟨h2,rfl⟩)

/-- All blocks have one coinbase transaction and nothing else. -/
lemma chainBlocks_transactions (h : chainBlocks utxoCommitment outputs hash = some data) :
    ∃ outs, data.block.transactions = [sampleCoinbase outs] ∧ (outs = [] ∨ outs = outputs) := by
  rcases chainBlocks_cases h with ⟨-,rfl⟩ | ⟨-,rfl⟩ | ⟨-,rfl⟩
  · exact ⟨[],rfl,.inl rfl⟩
  · exact ⟨outputs,rfl,.inr rfl⟩
  · exact ⟨[],rfl,.inl rfl⟩

section
variable (hot : outputs = [] ∨ outputs = [⟨5,⟨[],0⟩⟩])
include hot

lemma chainBlocks_validBodies :
    (sampleConsensus (chainBlocks utxoCommitment outputs)).ValidBodies twinValues := by
  refine validBodies_of_coinbase fun h => ?_
  obtain ⟨_,ht,rfl | rfl⟩ := chainBlocks_transactions h
  · exact .inl ht
  · rcases hot with rfl | rfl
    · exact .inl ht
    · exact .inr ht

lemma chainBlocks_wellFormed :
    (sampleConsensus (chainBlocks utxoCommitment outputs)).WellFormed twinValues where
  bodies := chainBlocks_validBodies hot
  params := ⟨show (150 : UInt8) ≤ 236 by decide,20,
    show [(20 : UInt64)][((1 : UInt16) - 1).toNat]? = some 20 by decide,by decide⟩
  validator := fun _ _ _ _ _ => .ok _
  mergeSetStored := by
    intro hash data h parent hpar
    rcases chainBlocks_cases h with ⟨-,rfl⟩ | ⟨-,rfl⟩ | ⟨-,rfl⟩
    · cases hpar
    · obtain rfl := mem_singleton.1 hpar
      exact ⟨_,rfl⟩
    · obtain rfl := mem_singleton.1 hpar
      exact ⟨_,rfl⟩
  blueWork_lt := by
    intro hash data parent h hpar
    rcases chainBlocks_cases h with ⟨-,rfl⟩ | ⟨-,rfl⟩ | ⟨-,rfl⟩
    · cases hpar
    · cases hpar
      exact ⟨_,rfl,Nat.zero_lt_one⟩
    · cases hpar
      exact ⟨_,rfl,Nat.one_lt_two⟩
  genesis := by
    intro data h
    cases h
    rfl
  virtual_ne_genesis := show virtualBlockHash ≠ 0 by decide
  virtual_notStored := rfl

end

lemma chainBlocks_isLockScore (h : chainBlocks utxoCommitment outputs hash = some data) :
    IsLockScore data.block.header.daaScore := by
  rcases chainBlocks_cases h with ⟨-,rfl⟩ | ⟨-,rfl⟩ | ⟨-,rfl⟩
  · exact .inr (by decide)
  · exact .inr (show (1 : UInt64) ≤ maxInt64 by decide)
  · exact .inr (show (1 : UInt64) ≤ maxInt64 by decide)

section
variable (hot : outputs = [] ∨ outputs = [⟨5,⟨[],0⟩⟩])
include hot

lemma hasScores_of_chainBlocks
    (h : (sampleConsensus (chainBlocks utxoCommitment outputs)).Replays 0 ∅ hash s) :
    s.HasScores :=
  h.hasScores (chainBlocks_wellFormed hot) chainBlocks_isLockScore fun _ _ he => by cases he

/-- Both blocks are accepted on an empty UTXO set. Only the second one accepts an output. -/
lemma chainBlocks_fresh :
    (sampleConsensus (chainBlocks utxoCommitment outputs)).Fresh 0 ∅ hash := by
  intro _ _ _ hc
  refine ⟨?_,chainBlocks_isLockScore hc.data_eq,hasScores_of_chainBlocks hot hc.replays⟩
  have hp := hc.parent
  have hrp := hc.replays
  rcases chainBlocks_cases hc.data_eq with ⟨rfl,-⟩ | ⟨rfl,rfl⟩ | ⟨rfl,rfl⟩
  · exact absurd rfl hc.ne_root
  · cases hp
    cases hrp.unique .root
    intro _ hb
    cases hb
    exact ⟨⟨fun _ _ _ _ _ _ => rfl,fun _ _ _ => trivial⟩,fun _ _ _ => trivial⟩
  · cases hp
    cases hrp.unique (.child (by decide) rfl rfl .root rfl)
    intro _ hb
    cases hb
    exact ⟨⟨fun _ _ _ _ _ _ => rfl,fun _ _ _ => trivial⟩,fun _ _ _ => trivial⟩

end

lemma chainStores_sound :
    (sampleConsensus (chainBlocks utxoCommitment outputs)).Sound twinValues 0 ∅ chainStores 0 := by
  refine .of_root (fun _ _ he => by cases he) ⟨_,rfl⟩ rfl (fun hash hh => ?_) rfl
    (Leads.newUTXODiff _ _) (fun _ => rfl) rfl
  by_contra hne
  have hn : ∀ status : BlockStatus, status ≠ .statusUTXOPendingVerification →
      chainStores.blockStatus.get hash ≠ some status := by
    intro status hs hg
    simp only [chainStores,get_insert,get_empty] at hg
    split at hg
    · exact hs (Option.some.inj hg).symm
    · split at hg
      · exact hs (Option.some.inj hg).symm
      · cases hg
  exact hh.elim (hn _ (by decide)) (hn _ (by decide))

lemma chainStores_pendingChain :
    (sampleConsensus (chainBlocks utxoCommitment outputs)).PendingChain chainStores 0
      .statusUTXOValid [1] 2 where
  isChain := by
    simp only [singleton_append,isChain_cons_cons,isChain_singleton,and_true]
    exact ⟨⟨_,rfl,rfl⟩,_,rfl,rfl⟩
  pending := by
    simp only [singleton_append,forall_mem_cons]
    exact ⟨rfl,rfl,by simp⟩
  base_status := rfl

end Eiyaro.Consensus
