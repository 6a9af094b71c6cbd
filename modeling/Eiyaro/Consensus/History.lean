import Eiyaro.Consensus.Multiset
import Eiyaro.Consensus.Verify
import Eiyaro.Transaction.Failures

/-!
# The past UTXO set of every block

A block has one past UTXO set: the transactions accepted along its selected parent
chain, replayed from a root with a known UTXO set, which is genesis or an imported
pruning point. Whether a block passes UTXO verification depends on this set only.
-/

namespace Eiyaro
open List

/-! ## DAA scores -/

/-- A sequence lock can be computed from every entry. -/
def UtxoCollection.HasScores (s : UtxoCollection) : Prop :=
  ∀ o entry, s.get o = some entry → entry.HasScore

namespace UtxoCollection
variable {s : UtxoCollection} {tx tx' : DomainTransaction}

lemma HasScores.spend (h : s.HasScores) (outpoints : List DomainOutpoint) :
    (s.spend outpoints).HasScores := by
  induction outpoints generalizing s with
  | nil => exact h
  | cons outpoint outpoints ih =>
    refine ih fun o entry he => ?_
    rw [remove,FinMap.get_erase] at he
    split at he
    · cases he
    · exact h o entry he

lemma HasScores.create (h : s.HasScores) {entries : List (DomainOutpoint × UTXOEntry)}
    (he : ∀ p ∈ entries, p.2.HasScore) : (s.create entries).HasScores := by
  induction entries generalizing s with
  | nil => exact h
  | cons p entries ih =>
    rw [forall_mem_cons] at he
    refine ih (fun o entry hg => ?_) he.2
    change (s.insert p.1 p.2).get o = some entry at hg
    rw [FinMap.get_insert] at hg
    split at hg
    · cases hg
      exact he.1
    · exact h o entry hg

/-- A transaction has the entries of the set that its inputs were looked up in. -/
lemma HasScores.lookupInputs (h : s.HasScores) (hl : lookupInputs s tx = some tx') :
    tx'.Populated ∧ ∀ input ∈ tx'.inputs, ∀ entry ∈ input.utxoEntry, entry.HasScore := by
  obtain ⟨hin,rfl⟩ := lookupInputs_eq_some.1 hl
  constructor
  · intro _ hi
    obtain ⟨_,hi',rfl⟩ := mem_map.1 hi
    exact hin _ (mem_map_of_mem hi')
  · intro _ hi entry he
    obtain ⟨input,-,rfl⟩ := mem_map.1 hi
    exact h _ entry he

end UtxoCollection

namespace Consensus
variable {M : Type} [AddCommGroup M]

/-- The blocks that a block merges are stored. -/
def MergeSetStored (cs : Consensus M) (ghostdagData : BlockGHOSTDAGData) : Prop :=
  ∀ hash ∈ ghostdagData.mergeSetBlues ++ ghostdagData.mergeSetReds,
    ∃ data, cs.blockData hash = some data

/-- What other packages ensure of the stored blocks. -/
structure WellFormed (cs : Consensus M) (values : DomainOutpoint → UInt64 → UTXOEntry) : Prop where
  bodies : cs.ValidBodies values
  params : ValidCoinbaseParams cs.coinbaseParams cs.blockVersion
  validator : ∀ tx hash daaScore, tx.Populated →
    (∀ input ∈ tx.inputs, ∀ entry ∈ input.utxoEntry, entry.HasScore) →
    OnlyRuleErrors (cs.validateTransactionInContextAndPopulateFee tx hash daaScore)
  mergeSetStored : ∀ {hash data}, cs.blockData hash = some data →
    cs.MergeSetStored data.ghostdagData
  blueWork_lt : ∀ {hash data selectedParent}, cs.blockData hash = some data →
    data.ghostdagData.selectedParent = some selectedParent →
    ∃ parentData, cs.blockData selectedParent = some parentData ∧
      parentData.ghostdagData.blueWork < data.ghostdagData.blueWork
  genesis : ∀ {data}, cs.blockData cs.genesisHash = some data →
    data.ghostdagData.selectedParent = none
  virtual_ne_genesis : virtualBlockHash ≠ cs.genesisHash
  virtual_notStored : cs.blockData virtualBlockHash = none

/-! ## The replay never fails -/

section
variable {cs : Consensus M} {values : DomainOutpoint → UInt64 → UTXOEntry}
  {blockHash : DomainHash} {daaScore : UInt64} {ghostdagData : BlockGHOSTDAGData}

omit [AddCommGroup M]

lemma sortMergeSet_total {blues reds : List DomainHash} {rounds : Nat}
    (hst : ∀ hash ∈ blues ++ reds, ∃ data, cs.blockData hash = some data)
    (hr : blues.length+reds.length ≤ rounds) :
    ∃ sorted, cs.sortMergeSet rounds blues reds = .ok sorted ∧
      ∀ hash, hash ∈ sorted ↔ hash ∈ blues ++ reds := by
  induction rounds generalizing blues reds with
  | zero =>
    obtain rfl : blues = [] := eq_nil_of_length_eq_zero (by omega)
    obtain rfl : reds = [] := eq_nil_of_length_eq_zero (by omega)
    exact ⟨[],rfl,by simp⟩
  | succ rounds ih =>
    match blues, reds with
    | [], reds => exact ⟨reds,by simp [sortMergeSet,pure,Except.pure],by simp⟩
    | blue :: blues, [] => exact ⟨blue :: blues,by simp [sortMergeSet,pure,Except.pure],by simp⟩
    | blue :: blues, red :: reds =>
      obtain ⟨_,hbl⟩ := hst blue (by simp)
      obtain ⟨_,hred⟩ := hst red (by simp)
      simp only [length_cons] at hr
      rw [sortMergeSet,getBlockData_eq_ok.2 hbl,ok_bind,getBlockData_eq_ok.2 hred,ok_bind]
      have hred : ∀ hash ∈ blues ++ red :: reds, ∃ data, cs.blockData hash = some data :=
        fun hash hhs => hst hash (mem_cons_of_mem _ hhs)
      have hbl : ∀ hash ∈ (blue :: blues) ++ reds, ∃ data, cs.blockData hash = some data := by
        intro hash hhs
        refine hst hash ?_
        rw [mem_append] at hhs ⊢
        exact hhs.imp_right (mem_cons_of_mem _)
      split
      · obtain ⟨sorted,hsr,hm⟩ := ih hred (by rw [length_cons]; omega)
        refine ⟨blue :: sorted,by rw [hsr]; rfl,fun hash => ?_⟩
        simp [hm]
      · obtain ⟨sorted,hsr,hm⟩ := ih hbl (by rw [length_cons]; omega)
        refine ⟨red :: sorted,by rw [hsr]; rfl,fun hash => ?_⟩
        simp [hm]
        tauto

lemma mergeSetBlocks_total (hst : cs.MergeSetStored ghostdagData) :
    ∃ blocks, cs.mergeSetBlocks ghostdagData = .ok blocks ∧
      ∀ hash ∈ ghostdagData.mergeSetBlues, hash ∈ blocks.map Prod.fst := by
  have hsr : ∃ sorted, cs.getSortedMergeSet ghostdagData = .ok sorted ∧
      (∀ hash ∈ sorted, ∃ data, cs.blockData hash = some data) ∧
      ∀ hash ∈ ghostdagData.mergeSetBlues, hash ∈ sorted := by
    rw [MergeSetStored] at hst
    rw [getSortedMergeSet]
    cases hbl : ghostdagData.mergeSetBlues with
    | nil => exact ⟨[],rfl,by simp,by simp⟩
    | cons selectedParent _ =>
      rw [hbl,cons_append,forall_mem_cons] at hst
      obtain ⟨sorted,hsr,hm⟩ := sortMergeSet_total hst.2 le_rfl
      refine ⟨selectedParent :: sorted,by dsimp only; rw [hsr]; rfl,?_,?_⟩
      · rw [forall_mem_cons]
        exact ⟨hst.1,fun hash hhs => hst.2 hash ((hm hash).1 hhs)⟩
      · intro hash hhs
        rw [mem_cons] at hhs ⊢
        exact hhs.imp_right fun h => (hm hash).2 (mem_append_left _ h)
  obtain ⟨sorted,hsr,hdt,hbl⟩ := hsr
  have hl : ∀ hash ∈ sorted, ∃ p, (do
      let blockData ← cs.getBlockData hash
      return (hash, blockData.block)) = Except.ok p := by
    intro hash hhs
    obtain ⟨data,hdt⟩ := hdt hash hhs
    exact ⟨(hash, data.block),by rw [getBlockData_eq_ok.2 hdt]; rfl⟩
  obtain ⟨blocks,hb⟩ := mapM_eq_ok hl
  refine ⟨blocks,by rw [mergeSetBlocks,hsr]; exact hb,fun hash hhs => ?_⟩
  obtain ⟨p,hp,heq⟩ := exists_of_forall₂ (forall₂_of_mapM hb) hash (hbl hash hhs)
  obtain ⟨data,-,heq⟩ := bind_eq_ok heq
  cases heq
  exact mem_map_of_mem hp

omit [AddCommGroup M] in
lemma HasScores.applyTransaction {s : UtxoCollection} (h : s.HasScores) (hd : IsLockScore daaScore)
    (tx : DomainTransaction) : (cs.applyTransaction s tx daaScore).HasScores := by
  refine (h.spend _).create fun p hp => ?_
  obtain ⟨_,-,rfl⟩ := mem_map.1 hp
  exact hd

lemma replayTransaction_total (hcs : cs.WellFormed values) (hd : IsLockScore daaScore)
    (isSelectedParent : Bool) {s : UtxoCollection} (hs : s.HasScores) (tx : DomainTransaction) :
    ∃ r, cs.replayTransaction blockHash daaScore isSelectedParent s tx = .ok r ∧
      r.1.HasScores := by
  rw [replayTransaction]
  cases hl : lookupInputs s tx with
  | none => exact ⟨_,rfl,hs⟩
  | some tx =>
    dsimp only
    obtain ⟨hp,hsc⟩ := hs.lookupInputs hl
    split
    · split
      · exact ⟨_,rfl,HasScores.applyTransaction hs hd tx⟩
      · exact ⟨_,rfl,hs⟩
    · rcases hcs.validator tx blockHash daaScore hp hsc with ⟨fee,hf⟩ | ⟨error,message,he⟩
      · rw [hf]
        exact ⟨_,rfl,HasScores.applyTransaction hs hd tx⟩
      · rw [he]
        exact ⟨_,rfl,hs⟩

/-- The merge set of a block can always be replayed, and all its blocks have
acceptance data. -/
lemma replayMergeSet_total (blockHash : DomainHash) (hd : IsLockScore daaScore)
    (hcs : cs.WellFormed values) (hst : cs.MergeSetStored ghostdagData) {s : UtxoCollection}
    (hs : s.HasScores) :
    ∃ s' acceptanceData,
      cs.replayMergeSet blockHash daaScore ghostdagData s = .ok (s', acceptanceData) ∧
      s'.HasScores ∧
      (∀ hash ∈ ghostdagData.mergeSetBlues, ∃ data ∈ acceptanceData, data.blockHash = hash) ∧
      ∀ data ∈ acceptanceData, data.transactionAcceptanceData ≠ [] := by
  obtain ⟨blocks,hb,hbl⟩ := mergeSetBlocks_total hst
  have hblk : ∀ s : UtxoCollection, ∀ p ∈ blocks.zipIdx, s.HasScores →
      ∃ r, cs.replayBlock blockHash daaScore s p = .ok r ∧ r.1.HasScores := by
    intro s p hp hs
    have htx : ∀ s : UtxoCollection, ∀ tx ∈ p.1.2.transactions, s.HasScores →
        ∃ r, cs.replayTransaction blockHash daaScore (p.2 == 0) s tx = .ok r ∧ r.1.HasScores :=
      fun s tx _ hs => replayTransaction_total hcs hd _ hs tx
    obtain ⟨⟨s',accepted⟩,ht,hs'⟩ := mapAccum.total htx hs
    exact ⟨(s', ⟨p.1.1,accepted⟩),by rw [replayBlock,ht]; rfl,hs'⟩
  obtain ⟨⟨s',acceptanceData⟩,hr,hs'⟩ := mapAccum.total hblk hs
  refine ⟨s',acceptanceData,by rw [replayMergeSet,hb]; exact hr,hs',?_,?_⟩
  · intro hash hh
    obtain ⟨p,hp,rfl⟩ := mem_map.1 (hbl hash hh)
    obtain ⟨i,_,rfl⟩ := mem_iff_getElem.1 hp
    have hin : (blocks[i], i) ∈ blocks.zipIdx := by simp [mk_mem_zipIdx_iff_getElem?]
    obtain ⟨data,hdt,t,t',hblk⟩ := mapAccum.exists_output hr hin
    obtain ⟨_,-,hblk⟩ := bind_eq_ok hblk
    cases hblk
    exact ⟨_,hdt,rfl⟩
  · intro data hdt
    obtain ⟨p,hp,t,t',hblk⟩ := mapAccum.exists_element hr hdt
    obtain ⟨_,hst,hbd⟩ := exists_of_mem_mergeSetBlocks hb p.1 (fst_mem_of_mem_zipIdx hp)
    obtain ⟨⟨s',accepted⟩,ht,hblk⟩ := bind_eq_ok hblk
    cases hblk
    intro hn
    have hl := mapAccum.length_eq ht
    rw [← hbd] at hl
    dsimp only at hn
    rw [hn] at hl
    exact (hcs.bodies.validInIsolation hst).nonempty (eq_nil_of_length_eq_zero hl.symm)

end

/-! ## Past UTXO sets -/

/-- The past UTXO set of a block, replayed from a root. -/
inductive Replays (cs : Consensus M) (root : DomainHash) (rootSet : UtxoCollection) :
    DomainHash → UtxoCollection → Prop
  | root : Replays cs root rootSet root rootSet
  | child {hash selectedParent : DomainHash} {data : BlockData} {s s' : UtxoCollection}
      {acceptanceData : AcceptanceData} (hne : hash ≠ root) (hdata : cs.blockData hash = some data)
      (hparent : data.ghostdagData.selectedParent = some selectedParent)
      (hreplays : Replays cs root rootSet selectedParent s)
      (hmerge : cs.replayMergeSet hash data.block.header.daaScore data.ghostdagData s =
        .ok (s', acceptanceData)) : Replays cs root rootSet hash s'

variable {cs : Consensus M} {root : DomainHash} {rootSet : UtxoCollection} {hash : DomainHash}
  {s s' : UtxoCollection}

omit [AddCommGroup M] in
lemma Replays.unique (h : cs.Replays root rootSet hash s) (h' : cs.Replays root rootSet hash s') :
    s = s' := by
  induction h generalizing s' with
  | root =>
    cases h' with
    | root => rfl
    | child hne => exact absurd rfl hne
  | child hne hd hp _ hm ih =>
    cases h' with
    | root => exact absurd rfl hne
    | child _ hd' hp' hr' hm' =>
      rw [hd] at hd'
      cases hd'
      rw [hp] at hp'
      cases hp'
      obtain rfl := ih hr'
      rw [hm] at hm'
      cases hm'
      rfl

omit [AddCommGroup M] in
/-- Where the headers have small DAA scores, so have the entries that they create. -/
lemma Replays.hasScores {values : DomainOutpoint → UInt64 → UTXOEntry} (hcs : cs.WellFormed values)
    (hd : ∀ {hash data}, cs.blockData hash = some data → IsLockScore data.block.header.daaScore)
    (hr : rootSet.HasScores) (h : cs.Replays root rootSet hash s) : s.HasScores := by
  induction h with
  | root => exact hr
  | child _ hdata _ _ hm ih =>
    obtain ⟨_,_,hm',hs,-⟩ := replayMergeSet_total _ (hd hdata) hcs (hcs.mergeSetStored hdata) ih
    cases hm.symm.trans hm'
    exact hs

variable (cs : Consensus M)

section
variable (root : DomainHash) (rootSet : UtxoCollection)

/-- What accepting a merge set on top of a UTXO set needs: no accepted transaction creates an
outpoint that is unspent at that moment, and all DAA scores are small enough for sequence locks. -/
structure Acceptable (blockHash : DomainHash) (daaScore : UInt64)
    (ghostdagData : BlockGHOSTDAGData) (s : UtxoCollection) : Prop where
  noRecreation : cs.NoRecreation blockHash daaScore ghostdagData s
  daaScore : IsLockScore daaScore
  scores : s.HasScores

/-- The data of a block whose selected parent has a past UTXO set. -/
structure Candidate
    (hash selectedParent : DomainHash) (data : BlockData) (s : UtxoCollection) : Prop where
  ne_root : hash ≠ root
  data_eq : cs.blockData hash = some data
  parent : data.ghostdagData.selectedParent = some selectedParent
  replays : cs.Replays root rootSet selectedParent s

/-- The block can be resolved on the past UTXO set of its selected parent. -/
def Fresh (hash : DomainHash) : Prop :=
  ∀ selectedParent data s, cs.Candidate root rootSet hash selectedParent data s →
    cs.Acceptable hash data.block.header.daaScore data.ghostdagData s

/-- The block passes `verifyUTXO` on its past UTXO set. -/
def Passes (hash : DomainHash) : Prop :=
  ∀ selectedParent data s s' acceptanceData, cs.Candidate root rootSet hash selectedParent data s →
    cs.replayMergeSet hash data.block.header.daaScore data.ghostdagData s =
      .ok (s', acceptanceData) →
    cs.verifyUTXO s' data.block hash ⟨UTXODiff.newUTXODiff,acceptanceData,cs.multisetOf s'⟩ = .ok ()

end

section
variable {cs : Consensus M} {values : DomainOutpoint → UInt64 → UTXOEntry}
  {selectedParent : DomainHash} {data : BlockData} {utxoSet : UtxoCollection} {diff : UTXODiff}

omit [AddCommGroup M] in
lemma Candidate.unique {selectedParent' : DomainHash} {data' : BlockData}
    (h : cs.Candidate root rootSet hash selectedParent data s)
    (h' : cs.Candidate root rootSet hash selectedParent' data' s') : data = data' ∧ s = s' := by
  have hd : data = data' := Option.some.inj (h.data_eq.symm.trans h'.data_eq)
  subst hd
  have hp : selectedParent = selectedParent' := Option.some.inj (h.parent.symm.trans h'.parent)
  subst hp
  exact ⟨rfl,h.replays.unique h'.replays⟩

/-- The past UTXO of a block is calculated from any diff that leads to the past UTXO
set of its selected parent. Verification then passes or breaks a rule, and which of
the two does not depend on the diff. -/
lemma Candidate.exists_past (hcs : cs.WellFormed values) (hst : UTXODiff.Agrees values utxoSet)
    (h : cs.Candidate root rootSet hash selectedParent data s)
    (hf : cs.Fresh root rootSet hash) (hdf : diff.Leads values utxoSet s) :
    ∃ s' past, cs.Replays root rootSet hash s' ∧
      cs.replayMergeSet hash data.block.header.daaScore data.ghostdagData s =
        .ok (s', past.acceptanceData) ∧
      cs.calculatePastUTXOAndAcceptanceData utxoSet hash data.ghostdagData
        data.block.header.daaScore (some diff) (cs.multisetOf s) = .ok past ∧
      past.utxoDiff.Leads values utxoSet s' ∧ past.multiset = cs.multisetOf s' ∧
      OnlyRuleErrors (cs.verifyUTXO utxoSet data.block hash past) ∧
      (cs.verifyUTXO utxoSet data.block hash past = .ok () ↔ cs.Passes root rootSet hash) := by
  have hs := hcs.mergeSetStored h.data_eq
  have hac := hf _ _ _ h
  obtain ⟨s',acceptanceData,hr,hsc,ha,ht⟩ :=
    replayMergeSet_total hash hac.daaScore hcs hs hac.scores
  obtain ⟨diff',hps,hl⟩ := calculatePastUTXO_eq hcs.bodies hst hdf hac.noRecreation hr
  have hv := hcs.bodies.validInIsolation h.data_eq
  refine ⟨s',⟨diff',acceptanceData,cs.multisetOf s'⟩,
    .child h.ne_root h.data_eq h.parent h.replays hr,hr,hps,hl,rfl,?_,?_⟩
  · refine verifyUTXO_onlyRuleErrors hcs.params (fun tx htx => ?_)
      h.data_eq hv.nonempty ⟨fun hash hh => ?_,ha,ht⟩
    · -- the transactions of the block spend entries of its past UTXO set
      have hi := (hv.transactions tx (mem_of_mem_tail htx)).noPrefilledInputs
      rw [populateTransaction_eq hl hi]
      cases hlk : lookupInputs s' tx with
      | none => exact .ruleError _ _
      | some tx' =>
        obtain ⟨hp,hts⟩ := hsc.lookupInputs hlk
        exact (hcs.validator tx' hash _ hp hts).bind fun _ _ => .ok _
    · obtain ⟨data,hd⟩ := hs hash hh
      exact ⟨data,hd,(hcs.bodies.validInIsolation hd).nonempty⟩
  · rw [verifyUTXO_eq_of_leads hv hl]
    constructor
    · intro hvr _ _ _ _ _ h' hr'
      obtain ⟨rfl,rfl⟩ := h.unique h'
      rw [hr] at hr'
      cases hr'
      exact hvr
    · exact fun hp => hp _ _ _ _ _ h hr

end
end Consensus
end Eiyaro
