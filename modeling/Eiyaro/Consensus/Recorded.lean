import Eiyaro.Consensus.ResolveChain
import Eiyaro.Consensus.Virtual
import Eiyaro.Ghostdag.MergeSet

/-!
# What the stores record of a chain

Two properties of the stores besides the diffs. The acceptance data of every resolved block is that
of its replay. The diff child of a UTXO-valid block is a UTXO-valid block that comes after it in the
order of blocks; a chain of blocks that is resolved at once first has diffs to selected parents, and
has this property after its diffs are reversed.
-/

namespace Eiyaro.Consensus
open List FinMap ConsensusStores
open UTXODiff
variable {M : Type} [AddCommGroup M] {cs : Consensus M}
  {values : DomainOutpoint → UInt64 → UTXOEntry} {root : DomainHash} {rootSet : UtxoCollection}
  {st st' : ConsensusStores M} {tip hash : DomainHash} {selectedParent : DomainHash}
  {except : List DomainHash} {below : List DomainHash}

/-! ## The order of blocks -/

/-- Blocks are compared by blue work and then by hash. -/
def key (cs : Consensus M) (hash : DomainHash) : Nat ×ₗ DomainHash :=
  toLex (cs.blueWork hash, hash)

section

omit [AddCommGroup M]

lemma less_iff {a b : DomainHash} :
    cs.less a b = true ↔ (∃ data, cs.blockData a = some data) ∧
      (∃ data, cs.blockData b = some data) ∧ cs.key a < cs.key b := by
  rw [less,key,key,blueWork,blueWork]
  cases ha : cs.blockData a with
  | none => simp
  | some x =>
    cases hb : cs.blockData b with
    | none => simp
    | some y =>
      simpa [StoredBlock.key] using lessData_iff ⟨a,[],0,x.ghostdagData⟩ ⟨b,[],0,y.ghostdagData⟩

lemma IsSelectedParent.key_lt (hcs : cs.WellFormed values)
    (h : cs.IsSelectedParent selectedParent hash) : cs.key selectedParent < cs.key hash :=
  Prod.Lex.lt_iff.2 (.inl (h.blueWork_lt hcs))

lemma isNewSelectedTip_of_less (h : cs.less tip hash = true) :
    cs.isNewSelectedTip hash tip = .ok true := by
  obtain ⟨⟨x,hx⟩,⟨y,hy⟩,hlt⟩ := less_iff.1 h
  have hn : lessData hash y.ghostdagData tip x.ghostdagData = false := by
    rw [← Bool.not_eq_true]
    intro hl
    have hb : cs.less hash tip = true := by rw [less,hx,hy]; exact hl
    exact lt_asymm hlt (less_iff.1 hb).2.2
  rw [isNewSelectedTip,getBlockData_eq_ok.2 hy,ok_bind,getBlockData_eq_ok.2 hx,ok_bind,hn]
  simp [pure,Except.pure]

/-- Along a chain of selected parents the last block is the least one. -/
lemma key_lt_of_isChain (hcs : cs.WellFormed values) {first : DomainHash}
    (h : List.IsChain (fun a b => cs.IsSelectedParent b a) (first :: below)) :
    ∀ k ∈ below, cs.key k < cs.key first := by
  have hk : List.IsChain (· > ·) ((first :: below).map cs.key) :=
    (isChain_map _).2 (h.imp fun _ _ hp => hp.key_lt hcs)
  exact (pairwise_cons.1 (pairwise_map.1 (isChain_iff_pairwise.1 hk))).1

lemma PendingChain.key_lt (hcs : cs.WellFormed values) {base block : DomainHash}
    {baseStatus : BlockStatus} {chain : List DomainHash}
    (h : cs.PendingChain st base baseStatus chain block) (hm : hash ∈ chain) :
    cs.key hash < cs.key block := by
  have hd := isChain_reverse.2 h.isChain
  simp only [reverse_cons,reverse_append,reverse_nil,nil_append,cons_append] at hd
  exact key_lt_of_isChain hcs hd hash (by simp [hm])

end

/-! ## The properties -/

section
variable (cs root rootSet st except)

structure Recorded : Prop where
  accepted : ∀ hash, st.Resolved hash → hash ≠ root → ∃ acceptanceData,
    st.acceptanceData.get hash = some acceptanceData ∧ cs.Accepts root rootSet hash acceptanceData
  parent : ∀ hash selectedParent, st.Resolved hash → hash ≠ root →
    cs.IsSelectedParent selectedParent hash → st.Resolved selectedParent
  passes : ∀ hash, st.blockStatus.get hash = some .statusUTXOValid → hash ≠ root →
    cs.Passes root rootSet hash

/-- The diff children of UTXO-valid blocks come after them, apart from some blocks. -/
def Rising : Prop :=
  ∀ hash child, st.blockStatus.get hash = some .statusUTXOValid → hash ∉ except →
    st.utxoDiffChild.get hash = some child →
    st.blockStatus.get child = some .statusUTXOValid ∧ cs.key hash < cs.key child

/-- What holds of the stores along a run of safe steps. -/
structure Tracked : Prop where
  recorded : cs.Recorded root rootSet st
  rising : cs.Rising st []

end

/-! ## The resolution of a chain -/

section
variable {base block previous : DomainHash} {baseStatus status : BlockStatus}
  {chain : List DomainHash} {reversal : Option UTXODiffReversalData}

omit [AddCommGroup M] in
/-- The selected parent of a block on a chain is on the chain, too. -/
lemma mem_of_isSelectedParent {blocks : List DomainHash}
    (hcn : List.IsChain cs.IsSelectedParent (base :: blocks)) (hhs : hash ∈ blocks)
    (hp : cs.IsSelectedParent selectedParent hash) : selectedParent ∈ base :: blocks := by
  induction blocks generalizing base with
  | nil => cases hhs
  | cons _ blocks ih =>
    obtain ⟨hf,hcn⟩ := isChain_cons_cons.1 hcn
    obtain rfl | hhs := mem_cons.1 hhs
    · obtain rfl := hp.unique hf
      exact mem_cons_self
    · exact mem_cons_of_mem _ (ih hcn hhs)

section
variable (cs st block)

/-- The diff children before a reversal: the chain below the block that was resolved has diffs to
selected parents, all other diff children rise. -/
def Reversing : Option UTXODiffReversalData → Prop
  | none => cs.Rising st []
  | some data => ∃ base chain, cs.Rising st (chain ++ [data.selectedParentHash]) ∧
      List.IsChain cs.IsSelectedParent (base :: (chain ++ [data.selectedParentHash]) ++ [block]) ∧
      (∀ hash ∈ base :: (chain ++ [data.selectedParentHash]) ++ [block],
        st.blockStatus.get hash = some .statusUTXOValid) ∧
      ∀ hash ∈ chain ++ [data.selectedParentHash], ∃ selectedParent,
        cs.IsSelectedParent selectedParent hash ∧ st.utxoDiffChild.get hash = some selectedParent

end

section
variable (hrl : cs.Resolution values root rootSet st tip baseStatus chain block st' status
  reversal)
include hrl

lemma Resolution.status_of_notMem (hn : hash ∉ chain ++ [block]) :
    st'.blockStatus.get hash = st.blockStatus.get hash := by
  rw [mem_append,mem_singleton,not_or] at hn
  rw [hrl.statuses,if_neg hn.2,if_neg hn.1]

section
variable (hbs : baseStatus.IsResolved)
include hbs

lemma Resolution.resolved_of_mem (hm : hash ∈ chain ++ [block]) : st'.Resolved hash := by
  have hs : status.IsResolved := hrl.status_eq.imp (fun h => h.2.2) And.right
  rw [ConsensusStores.Resolved,hrl.statuses]
  split
  · exact hs.imp (congrArg some) (congrArg some)
  · next hb =>
    rw [if_pos (by simpa [hb] using hm)]
    exact hbs.imp (congrArg some) (congrArg some)

lemma Resolution.resolved_iff : st'.Resolved hash ↔ hash ∈ chain ++ [block] ∨ st.Resolved hash := by
  by_cases hm : hash ∈ chain ++ [block]
  · exact iff_of_true (hrl.resolved_of_mem hbs hm) (.inl hm)
  · simp [ConsensusStores.Resolved,hrl.status_of_notMem,hm,false_or]

end

variable (hcn : cs.PendingChain st base baseStatus chain block)
include hcn

lemma Recorded.resolve (h : cs.Recorded root rootSet st)
    (hbs : baseStatus = .statusDisqualifiedFromChain ∨
      baseStatus = .statusUTXOValid ∧ ∀ hash ∈ chain, cs.Passes root rootSet hash) :
    cs.Recorded root rootSet st' := by
  have hr : baseStatus.IsResolved := hbs.elim .inr fun h => .inl h.1
  refine ⟨fun hash hhs hrt => ?_,fun hash selectedParent hhs hrt hp => ?_,fun hash hhs hrt => ?_⟩
  · by_cases hm : hash ∈ chain ++ [block]
    · exact hrl.accepted hash hm
    · rw [hrl.acceptance_eq hash hm]
      exact h.accepted hash (((hrl.resolved_iff hr).1 hhs).resolve_left hm) hrt
  · rw [hrl.resolved_iff hr]
    obtain hm | hhs := (hrl.resolved_iff hr).1 hhs
    · obtain rfl | hm := mem_cons.1 (mem_of_isSelectedParent hcn.isChain hm hp)
      · refine .inr ?_
        rw [ConsensusStores.Resolved,hcn.base_status]
        exact hr.imp (congrArg some) (congrArg some)
      · exact .inl hm
    · exact .inr (h.parent hash selectedParent hhs hrt hp)
  · rw [hrl.statuses] at hhs
    split at hhs
    · next hb =>
      obtain ⟨-,hps,-⟩ := hrl.status_eq.resolve_right fun hbad => by
        rw [hbad.2] at hhs
        cases hhs
      exact hb ▸ hps
    · split at hhs
      · next hm =>
        obtain ⟨-,hps⟩ := hbs.resolve_left fun hbad => by
          rw [hbad] at hhs
          cases hhs
        exact hps hash hm
      · exact h.passes hash hhs hrt

variable (h : cs.Rising st [])
include h

/-- A block that was not resolved now and is not the old tip has the diff child it had. -/
lemma Rising.resolveOther {child : DomainHash} (ht : hash ≠ tip) (hn : hash ∉ chain ++ [block])
    (hv : st'.blockStatus.get hash = some .statusUTXOValid)
    (hc : st'.utxoDiffChild.get hash = some child) :
    st'.blockStatus.get child = some .statusUTXOValid ∧ cs.key hash < cs.key child := by
  rw [hrl.status_of_notMem hn] at hv
  rw [hrl.child_eq hash hn ht] at hc
  obtain ⟨hcv,hlt⟩ := h hash child hv not_mem_nil hc
  refine ⟨(hrl.status_of_notMem fun hm => ?_).trans hcv,hlt⟩
  rw [hcn.pending child hm] at hcv
  cases hcv

/-- The rising children of the old blocks, after the block has become the tip. -/
lemma Rising.resolveValid (hl : cs.less tip block) (hs : status = .statusUTXOValid)
    : cs.Rising st' chain := by
  subst hs
  obtain ⟨tip',hsn,hnw,-⟩ := hrl.sound
  obtain ⟨rfl,hn⟩ := hnw rfl (isNewSelectedTip_of_less hl)
  have hnn : st'.utxoDiffChild.get tip' = none := (hsn.child hsn.tip_resolved).2 rfl
  intro hash child hv hnm hch
  have hb : hash ≠ tip' := by
    rintro rfl
    rw [hnn] at hch
    cases hch
  by_cases ht : hash = tip
  · subst ht
    rw [hn] at hch
    cases hch
    exact ⟨hsn.tip_valid,(less_iff.1 hl).2.2⟩
  · exact h.resolveOther hrl hcn ht (by simp [hnm,hb]) hv hch

/-- A block that is disqualified leaves the diff children of the valid blocks as they are. -/
lemma Rising.resolveDisqualified (hst : status = .statusDisqualifiedFromChain)
    (ha : baseStatus = .statusUTXOValid → chain = []) : cs.Rising st' [] := by
  subst hst
  obtain ⟨tip',hs,-,hsm⟩ := hrl.sound
  obtain rfl := hsm rfl
  intro hash child hvl _ hch
  have ht : hash ≠ tip' := by
    rintro rfl
    rw [(hs.child hs.tip_resolved).2 rfl] at hch
    cases hch
  refine h.resolveOther hrl hcn ht (fun hm => ?_) hvl hch
  rw [hrl.statuses] at hvl
  split at hvl
  · cases hvl
  · next hb =>
    have hm : hash ∈ chain := by simpa [hb] using hm
    rw [if_pos hm] at hvl
    rw [ha (Option.some.inj hvl)] at hm
    cases hm

lemma Rising.resolve (hls : cs.less tip block)
    (ha : status = .statusDisqualifiedFromChain → baseStatus = .statusUTXOValid → chain = []) :
    cs.Reversing st' block reversal := by
  obtain ⟨rfl,-,rfl⟩ | ⟨-,rfl⟩ := hrl.status_eq
  · have hrs := h.resolveValid hrl hcn hls rfl
    cases reversal with
    | none =>
      obtain rfl := hrl.noReversal rfl rfl
      exact hrs
    | some data =>
      obtain ⟨-,hne,hr⟩ := hrl.reversal data rfl
      obtain ⟨front,last,rfl⟩ := eq_nil_or_concat chain |>.resolve_left hne
      rw [concat_eq_append] at *
      -- the reversal starts at the selected parent of the block
      have hl : last = data.selectedParentHash := by
        have hi := hcn.isChain
        rw [← cons_append,← cons_append,append_assoc,isChain_append] at hi
        exact (isChain_cons_cons.1 hi.2.1).1.unique hr.parent
      subst hl
      refine ⟨base,front,hrs,hcn.isChain,?_,hrl.child⟩
      intro hash hh
      rw [hrl.statuses]
      by_cases hb : hash = block
      · rw [if_pos hb]
      · rw [if_neg hb]
        by_cases hm : hash ∈ front ++ [data.selectedParentHash]
        · rw [if_pos hm]
        · rw [if_neg hm]
          have hbs : hash = base := by
            simp only [cons_append,mem_cons,mem_append,append_assoc,not_mem_nil,or_false] at hh hm
            tauto
          rw [hbs,hcn.base_status]
  · have hn : reversal = none := by
      by_contra hne
      obtain ⟨data,hd⟩ := Option.ne_none_iff_exists'.1 hne
      cases (hrl.reversal data hd).1
    subst hn
    exact h.resolveDisqualified hrl hcn rfl (ha rfl)

end

/-! ## The reversal -/

omit [AddCommGroup M]

/-- A block gets a diff child that comes after it. -/
lemma Rising.stageDiff {current : DomainHash} (h : cs.Rising st (current :: except))
    (diff : UTXODiff) (hp : st.blockStatus.get previous = some .statusUTXOValid)
    (hlt : cs.key current < cs.key previous) :
    cs.Rising (st.stageDiff current diff (some previous)) except := by
  intro hash child hv hn hch
  change (st.utxoDiffChild.insert current previous).get hash = some child at hch
  by_cases hc : hash = current
  · subst hc
    rw [get_insert_self] at hch
    cases hch
    exact ⟨hp,hlt⟩
  · rw [get_insert_of_ne _ _ hc] at hch
    exact h hash child hv (by simp [hc,hn]) hch

lemma reverseLoop_rising (hcs : cs.WellFormed values) {previousDiff : UTXODiff} {rounds : Nat}
    (hrs : cs.Rising st below)
    (hcn : List.IsChain (fun a b => cs.IsSelectedParent b a) (previous :: (below ++ [base])))
    (hvl : ∀ hash ∈ previous :: (below ++ [base]), st.blockStatus.get hash = some .statusUTXOValid)
    (hch : ∀ hash ∈ below, ∃ selectedParent, cs.IsSelectedParent selectedParent hash ∧
      st.utxoDiffChild.get hash = some selectedParent)
    (h : cs.reverseLoop rounds st previous previousDiff = .ok st') :
    cs.Rising st' [] ∧ st'.acceptanceData = st.acceptanceData ∧
      st'.blockStatus = st.blockStatus := by
  induction rounds generalizing st previous below previousDiff with
  | zero => cases h
  | succ rounds ih =>
    obtain ⟨previousData,hpr,current,hcr,h⟩ := bind₂_eq_ok h
    obtain ⟨child,hco,currentData,hc,h⟩ := bind₂_eq_ok h
    obtain ⟨_,-,h⟩ := bind_eq_ok h
    have hpar : cs.IsSelectedParent current previous :=
      ⟨previousData,getBlockData_eq_ok.1 hpr,dereference_eq_ok.1 hcr⟩
    have hlt := hpar.key_lt hcs
    have hp := hvl previous mem_cons_self
    have hco := fromStore_eq_ok.1 hco
    cases below with
    | nil =>
      obtain rfl := (isChain_cons_cons.1 hcn).1.unique hpar
      have hr' : cs.Rising st [base] := fun hash child hvl _ hch =>
        hrs hash child hvl not_mem_nil hch
      -- at the base the diff child is above, which ends the loop
      have hs : currentData.ghostdagData.selectedParent ≠ some child := by
        intro hsel
        have hb : cs.IsSelectedParent child base := ⟨currentData,getBlockData_eq_ok.1 hc,hsel⟩
        have hup := (hrs base child (hvl base (by simp)) not_mem_nil hco).2
        exact lt_asymm hup (hb.key_lt hcs)
      rw [if_pos hs] at h
      cases h
      exact ⟨hr'.stageDiff _ hp hlt,rfl,rfl⟩
    | cons first _ =>
      obtain ⟨hf,hcn⟩ := isChain_cons_cons.1 hcn
      obtain rfl := hf.unique hpar
      obtain ⟨selectedParent,⟨_,hd,hsel⟩,hg⟩ := hch first mem_cons_self
      obtain rfl := Option.some.inj (hco.symm.trans hg)
      obtain rfl := Option.some.inj (hd.symm.trans (getBlockData_eq_ok.1 hc))
      rw [if_neg (not_not.2 hsel)] at h
      have hst := ih (hrs.stageDiff previousDiff.reversed hp hlt) hcn
        (fun hash hhs => hvl hash (mem_cons_of_mem _ hhs)) ?_ h
      · exact hst
      · intro hash hhs
        have hne : hash ≠ first := by
          rintro rfl
          exact lt_irrefl _ (key_lt_of_isChain hcs hcn hash (mem_append_left _ hhs))
        obtain ⟨selectedParent,hsel,hg⟩ := hch hash (mem_cons_of_mem _ hhs)
        exact ⟨selectedParent,hsel,(get_insert_of_ne _ _ hne).trans hg⟩

lemma Reversing.reverseIfRequired (hcs : cs.WellFormed values) (hr : cs.Reversing st block reversal)
    (h : cs.reverseIfRequired st block reversal = .ok st') :
    cs.Rising st' [] ∧ st'.acceptanceData = st.acceptanceData ∧
      st'.blockStatus = st.blockStatus := by
  cases reversal with
  | none =>
    cases h
    exact ⟨hr,rfl,rfl⟩
  | some data =>
    obtain ⟨base,chain,hrs,hcn,hvl,hch⟩ := hr
    obtain ⟨_,-,_,-,h⟩ := bind₂_eq_ok h
    -- the chain from the selected parent of the block down
    have hdw : List.IsChain (fun a b => cs.IsSelectedParent b a)
        (block :: data.selectedParentHash :: (chain.reverse ++ [base])) := by
      have hre := isChain_reverse.2 hcn
      simpa using hre
    obtain ⟨hp,hdw⟩ := isChain_cons_cons.1 hdw
    have hr' : cs.Rising st (data.selectedParentHash :: chain.reverse) := by
      intro hash child hvl hn hch
      refine hrs hash child hvl ?_ hch
      simp only [mem_cons,mem_reverse,not_or] at hn
      simp [hn]
    have hv := hvl block (by simp)
    have hrv := reverseLoop_rising hcs
      (hr'.stageDiff data.selectedParentUTXODiff hv (hp.key_lt hcs)) hdw ?_ ?_ h
    · exact hrv
    · intro hash hhs
      apply hvl
      simp only [mem_cons,mem_append,mem_reverse,not_mem_nil,or_false] at hhs
      simp only [cons_append,mem_cons,mem_append,append_assoc,not_mem_nil,or_false]
      tauto
    · intro hash hhs
      have hne : hash ≠ data.selectedParentHash := by
        rintro rfl
        exact lt_irrefl _ (key_lt_of_isChain hcs hdw _ (mem_append_left _ hhs))
      obtain ⟨selectedParent,hs,hg⟩ := hch hash (by simp [mem_reverse.1 hhs])
      exact ⟨selectedParent,hs,(get_insert_of_ne _ _ hne).trans hg⟩

end

/-! ## Other changes -/

variable {block : DomainHash}

omit [AddCommGroup M] in
lemma Rising.congr (h : cs.Rising st except) (hs : st'.blockStatus = st.blockStatus)
    (hc : st'.utxoDiffChild = st.utxoDiffChild) : cs.Rising st' except := by
  unfold Rising
  rw [hs,hc]
  exact h

omit [AddCommGroup M] in
lemma Reversing.congr {reversal : Option UTXODiffReversalData}
    (h : cs.Reversing st block reversal) (hst : st'.blockStatus = st.blockStatus)
    (hch : st'.utxoDiffChild = st.utxoDiffChild) : cs.Reversing st' block reversal := by
  cases reversal with
  | none => exact Rising.congr h hst hch
  | some _ =>
    obtain ⟨base,chain,hr,hcn,hv,hg⟩ := h
    refine ⟨base,chain,hr.congr hst hch,hcn,?_,?_⟩
    · rw [hst]
      exact hv
    · rw [hch]
      exact hg

lemma Recorded.congr (h : cs.Recorded root rootSet st) (hs : st'.blockStatus = st.blockStatus)
    (ha : ∀ hash, st.Resolved hash → st'.acceptanceData.get hash = st.acceptanceData.get hash) :
    cs.Recorded root rootSet st' := by
  have hr : ∀ hash, st'.Resolved hash ↔ st.Resolved hash := fun hash => by
    rw [ConsensusStores.Resolved,ConsensusStores.Resolved,hs]
  constructor
  case accepted =>
    intro hash hhs hrt
    rw [ha hash ((hr hash).1 hhs)]
    exact h.accepted hash ((hr hash).1 hhs) hrt
  case parent =>
    intro hash selectedParent hhs hrt hp
    exact (hr _).2 (h.parent hash selectedParent ((hr hash).1 hhs) hrt hp)
  case passes =>
    rw [hs]
    exact h.passes

omit [AddCommGroup M] in
lemma hasBody_iff : st.hasBody hash = true ↔
    st.Resolved hash ∨ st.blockStatus.get hash = some .statusUTXOPendingVerification := by
  rw [hasBody,ConsensusStores.Resolved]
  cases st.blockStatus.get hash with
  | none => simp
  | some status => cases status <;> simp

/-- A block that is not resolved has no part in what is tracked. -/
lemma Tracked.stageUnresolved (h : cs.Tracked root rootSet st) (hn : ¬st.hasBody block)
    {status : BlockStatus} (hst : ¬status.IsResolved) :
    cs.Tracked root rootSet (st.stageStatus block status) := by
  -- no block gets or loses a resolved status
  rw [not_or] at hst
  have hvl : ∀ k, (st.stageStatus block status).blockStatus.get k =
      some .statusUTXOValid ↔ st.blockStatus.get k = some .statusUTXOValid := by
    intro k
    by_cases hk : k = block
    · subst hk
      have hnot : st.blockStatus.get k ≠ some .statusUTXOValid := fun h =>
        hn (hasBody_iff.2 (.inl (.inl h)))
      simp [stageStatus,hnot,hst]
    · rw [stageStatus,get_insert_of_ne _ _ hk]
  have hres : ∀ k, (st.stageStatus block status).Resolved k ↔
      st.Resolved k := by
    intro k
    by_cases hk : k = block
    · subst hk
      refine iff_of_false ?_ fun h => hn (hasBody_iff.2 (.inl h))
      simp [ConsensusStores.Resolved,stageStatus,hst]
    · rw [ConsensusStores.Resolved,stageStatus,get_insert_of_ne _ _ hk]
      rfl
  refine ⟨⟨fun hash hhs => h.recorded.accepted hash ((hres hash).1 hhs),
    fun hash selectedParent hhs hr hp => ?_,
    fun hash hhs => h.recorded.passes hash ((hvl hash).1 hhs)⟩,
    fun hash child hhs hnot hg => ?_⟩
  · exact (hres _).2 (h.recorded.parent hash selectedParent ((hres hash).1 hhs) hr hp)
  · exact (h.rising hash child ((hvl hash).1 hhs) hnot hg).imp_left (hvl child).2

end Eiyaro.Consensus
