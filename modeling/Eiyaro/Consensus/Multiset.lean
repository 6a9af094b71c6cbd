import Eiyaro.Consensus.Replay

/-!
# The multiset of a UTXO set

A header commits to the multiset of the past UTXO set of its block. The code
never computes it from the set. It starts from the multiset of the selected
parent and goes over the acceptance data in a loop of its own, which takes a
transaction for a coinbase transaction by its position.
-/

namespace Eiyaro.Consensus
open List
open UTXODiff
variable {M : Type} [AddCommGroup M] {cs : Consensus M} {acceptanceData : AcceptanceData}

/-- The multiset of all entries of a UTXO set. -/
def multisetOf (cs : Consensus M) (s : UtxoCollection) : M :=
  s.sum cs.element

/-! ## One transaction -/

variable {s t : UtxoCollection} {entries : List (DomainOutpoint × UTXOEntry)}

lemma multisetOf_spend (hnd : (entries.map Prod.fst).Nodup)
    (hg : ∀ p ∈ entries, s.get p.1 = some p.2) :
    cs.multisetOf (s.spend (entries.map Prod.fst)) =
      cs.multisetOf s - (entries.map fun p => cs.element p.1 p.2).sum :=
  FinMap.sum_eraseKeys s cs.element hnd fun o e hm => hg (o, e) hm

lemma multisetOf_create (hnd : (entries.map Prod.fst).Nodup)
    (hg : ∀ p ∈ entries, s.get p.1 = none) :
    cs.multisetOf (s.create entries) =
      cs.multisetOf s+(entries.map fun p => cs.element p.1 p.2).sum :=
  FinMap.sum_insertEntries s cs.element hnd (forall_mem_map.2 hg)

variable {tx : DomainTransaction} {blockDAAScore : UInt64}

lemma addTransactionToMultiset_eq (htx : tx.ValidInIsolation)
    (hin : ∀ o ∈ tx.outpoints, s.contains o) (hfr : cs.FreshOutputs blockDAAScore s tx) :
    cs.addTransactionToMultiset (cs.multisetOf s) (tx.populatedFrom s) blockDAAScore
        (isCoinBase tx) =
      .ok (cs.multisetOf (cs.applyTransaction s (tx.populatedFrom s) blockDAAScore)) := by
  obtain ⟨spent,hs,hky,hg⟩ := spentEntries_populatedFrom hin
  have hi : checkOutputIndexes (tx.populatedFrom s) = .ok () :=
    if_neg (not_lt.2 htx.outputs_length)
  have hc : cs.createdEntries (tx.populatedFrom s) (isCoinBase tx) blockDAAScore =
      cs.createdEntries tx (isCoinBase tx) blockDAAScore :=
    createdEntries_congr (populatedFrom_unpopulated s tx) _
  have ha : cs.applyTransaction s (tx.populatedFrom s) blockDAAScore =
      (s.spend (spent.map Prod.fst)).create
        (cs.createdEntries tx (isCoinBase tx) blockDAAScore) := by
    rw [applyTransaction,populatedFrom_outpoints,hky]
    exact congrArg _ hc
  rw [addTransactionToMultiset,hs,hi,hc,ha,
    multisetOf_create (createdEntries_nodup _ htx.outputs_length) (hky ▸ hfr),
    multisetOf_spend (hky ▸ htx.noDuplicateInputs) hg]
  rfl

/-! ## The merge set -/

variable {s' : UtxoCollection} {blockHash : DomainHash}

/-- The loop over the transactions of one block, from any position on. -/
lemma addTransactionsToMultiset_eq {txs : List DomainTransaction} {isSelectedParent : Bool}
    {accepted : List TransactionAcceptanceData} {k : Nat}
    (hcb : ∀ p ∈ txs.zipIdx k, isCoinBase p.1 = (p.2 == 0)) (ht : ∀ tx ∈ txs, tx.ValidInIsolation)
    (hfr : mapAccum.Along (cs.replayTransaction blockHash blockDAAScore isSelectedParent)
      (fun s tx => ∀ s' data, cs.replayTransaction blockHash blockDAAScore isSelectedParent s tx =
        .ok (s', data) → data.isAccepted → cs.FreshOutputs blockDAAScore s tx) txs s)
    (h : mapAccum (cs.replayTransaction blockHash blockDAAScore isSelectedParent) txs s =
      .ok (s', accepted)) :
    (accepted.zipIdx k).foldlM (fun multiset (txData, i) =>
      if txData.isAccepted then
        cs.addTransactionToMultiset multiset txData.transaction blockDAAScore (i == 0)
      else
        .ok multiset) (cs.multisetOf s) = .ok (cs.multisetOf s') := by
  induction txs generalizing s accepted k with
  | nil =>
    obtain ⟨rfl,rfl⟩ := mapAccum.nil_eq_ok.1 h
    rfl
  | cons tx txs ih =>
    obtain ⟨t,data,_,htx,hr,rfl⟩ := mapAccum.cons_eq_ok.1 h
    rw [zipIdx_cons,forall_mem_cons] at hcb
    rw [forall_mem_cons] at ht
    have ih := ih hcb.2 ht.2 (hfr.2 t data htx) hr
    rw [zipIdx_cons,foldlM_cons]
    dsimp only
    rcases replayTransaction_cases htx with ⟨hrj,rfl⟩ | ⟨ha,hd,hi,rfl⟩
    · rw [hrj]
      exact ih
    · rw [if_pos ha,hd,← hcb.1,addTransactionToMultiset_eq ht.1 hi (hfr.1 _ data htx ha)]
      exact ih

/-- The multiset loop over the acceptance data of a replayed merge set. -/
lemma calculateMultiset_eq {values : DomainOutpoint → UInt64 → UTXOEntry}
    {ghostdagData : BlockGHOSTDAGData} (hbodies : cs.ValidBodies values)
    (hfr : cs.NoRecreation blockHash blockDAAScore ghostdagData s)
    (h : cs.replayMergeSet blockHash blockDAAScore ghostdagData s = .ok (s', acceptanceData)) :
    cs.calculateMultiset (cs.multisetOf s) acceptanceData blockDAAScore =
      .ok (cs.multisetOf s') := by
  obtain ⟨blocks,hb,hr⟩ := bind_eq_ok h
  have hl : ∃ multiset, acceptanceData.foldlM (fun multiset blockAcceptanceData =>
      cs.addBlockToMultiset multiset blockDAAScore blockAcceptanceData) (cs.multisetOf s) =
        .ok multiset ∧ multiset = cs.multisetOf s' := by
    refine mapAccum.foldlM_outputs (R := fun multiset s => multiset = cs.multisetOf s) ?_ rfl
      (hfr blocks hb) hr
    rintro _ s ⟨⟨_,_⟩,_⟩ hm rfl hfr s' _ hblk
    obtain ⟨_,hd,rfl⟩ := exists_of_mem_mergeSetBlocks hb _ (fst_mem_of_mem_zipIdx hm)
    have hv := hbodies.validInIsolation hd
    obtain ⟨⟨_,_⟩,ht,hblk⟩ := bind_eq_ok hblk
    cases hblk
    exact ⟨_,addTransactionsToMultiset_eq hv.coinbase hv.transactions hfr ht,rfl⟩
  obtain ⟨multiset,hf,rfl⟩ := hl
  exact hf

/-! ## The past UTXO of a block -/

variable {values : DomainOutpoint → UInt64 → UTXOEntry} {utxoSet : UtxoCollection} {diff : UTXODiff}
  {ghostdagData : BlockGHOSTDAGData} {daaScore : UInt64}

section
variable (hbodies : cs.ValidBodies values) (hset : Agrees values utxoSet)
  (hdiff : diff.Leads values utxoSet s) (hfr : cs.NoRecreation blockHash daaScore ghostdagData s)
include hbodies hset hdiff hfr

/-- The calculation on a diff computes the replayed set, as a diff, and its
multiset. -/
lemma calculatePastUTXO_eq
    (h : cs.replayMergeSet blockHash daaScore ghostdagData s = .ok (s', acceptanceData)) :
    ∃ diff', cs.calculatePastUTXOAndAcceptanceData utxoSet blockHash ghostdagData daaScore
        (some diff) (cs.multisetOf s) = .ok ⟨diff',acceptanceData,cs.multisetOf s'⟩ ∧
      diff'.Leads values utxoSet s' := by
  obtain ⟨diff',hd',hl⟩ := (applyMergeSetBlocks_matches hbodies hset hdiff hfr).exists_of_ok h
  refine ⟨diff',?_,hl⟩
  rw [calculatePastUTXOAndAcceptanceData,hd',ok_bind]
  dsimp only
  rw [calculateMultiset_eq hbodies hfr h]
  rfl

lemma exists_replay_of_calculatePastUTXO {multiset : M} {past : PastUTXO M}
    (h : cs.calculatePastUTXOAndAcceptanceData utxoSet blockHash ghostdagData daaScore
      (some diff) multiset = .ok past) :
    ∃ s', cs.replayMergeSet blockHash daaScore ghostdagData s = .ok (s', past.acceptanceData) ∧
      past.utxoDiff.Leads values utxoSet s' := by
  obtain ⟨⟨utxoDiff,acceptanceData⟩,ha,h⟩ := bind_eq_ok h
  obtain ⟨_,_,h⟩ := bind_eq_ok h
  cases h
  exact (applyMergeSetBlocks_matches hbodies hset hdiff hfr).exists_of_ok_left ha

end

/-- The past UTXO sets and multisets that are calculated for blocks, up from a root
whose set is known. The UTXO set of virtual can be another one each time, as long
as the diff of the selected parent leads from it to the selected parent's set.
Every calculation meets the condition `P`. -/
inductive PastCalculated (cs : Consensus M) (values : DomainOutpoint → UInt64 → UTXOEntry)
    (P : DomainHash → UInt64 → BlockGHOSTDAGData → UtxoCollection → Prop)
    (root : DomainHash) (rootSet : UtxoCollection) : DomainHash → UtxoCollection → M → Prop
  | root : PastCalculated cs values P root rootSet root rootSet (cs.multisetOf rootSet)
  | child {selectedParent blockHash : DomainHash} {ghostdagData : BlockGHOSTDAGData}
      {daaScore : UInt64} {s utxoSet : UtxoCollection} {diff : UTXODiff} {multiset : M}
      {past : PastUTXO M} (hparent : ghostdagData.selectedParent = some selectedParent)
      (hcalculated : PastCalculated cs values P root rootSet selectedParent s multiset)
      (hset : Agrees values utxoSet) (hdiff : diff.Leads values utxoSet s)
      (hP : P blockHash daaScore ghostdagData s)
      (hpast : cs.calculatePastUTXOAndAcceptanceData utxoSet blockHash ghostdagData daaScore
        (some diff) multiset = .ok past) :
      PastCalculated cs values P root rootSet blockHash (past.utxoDiff.applyTo utxoSet)
        past.multiset

/-- The incremental multiset of every block is the multiset of its past UTXO set,
if no accepted transaction creates an outpoint that is unspent at that moment. -/
theorem calculated_multiset_eq (cs : Consensus M) (values : DomainOutpoint → UInt64 → UTXOEntry)
    (root : DomainHash) (rootSet : UtxoCollection) (hbodies : cs.ValidBodies values)
    {blockHash : DomainHash} {s : UtxoCollection} {multiset : M}
    (h : cs.PastCalculated values cs.NoRecreation root rootSet blockHash s multiset) :
    multiset = cs.multisetOf s := by
  induction h with
  | root => rfl
  | child _ _ hset hdiff hfr hp ih =>
    subst ih
    obtain ⟨_,hr,hl⟩ := exists_replay_of_calculatePastUTXO hbodies hset hdiff hfr hp
    obtain ⟨_,hp',-⟩ := calculatePastUTXO_eq hbodies hset hdiff hfr hr
    rw [hl.applyTo_eq]
    exact congrArg PastUTXO.multiset (Except.ok.inj (hp.symm.trans hp'))

/-! ## A chain with equal coinbase transactions -/

/-- Two blocks on top of genesis with the same coinbase transaction. -/
def twinBlocks : DomainHash → Option BlockData :=
  fun hash =>
    if hash = 0 then some sampleGenesisData
    else if hash = 1 then some (sampleBlockData 0 1 [⟨5,⟨[],0⟩⟩])
    else if hash = 2 then some (sampleBlockData 1 2 [⟨5,⟨[],0⟩⟩])
    else none

def twinValues : DomainOutpoint → UInt64 → UTXOEntry :=
  fun _ daaScore => ⟨5,⟨[],0⟩,true,daaScore⟩

lemma twinBlocks_transactions {hash : DomainHash} {data : BlockData}
    (h : twinBlocks hash = some data) :
    data.block.transactions = [sampleCoinbase []] ∨
      data.block.transactions = [sampleCoinbase [⟨5,⟨[],0⟩⟩]] := by
  unfold twinBlocks at h
  split_ifs at h <;> cases h
  · exact .inl rfl
  · exact .inr rfl
  · exact .inr rfl

lemma sampleCoinbase_validInIsolation {outputs : List DomainTransactionOutput}
    (h : outputs.length ≤ 2^32) : (sampleCoinbase outputs).ValidInIsolation where
  noPrefilledInputs input hi := by cases hi
  noDuplicateInputs := nodup_nil
  outputs_length := h

/-- Blocks with nothing but a coinbase transaction, which has at most one output. -/
lemma validBodies_of_coinbase {blockData : DomainHash → Option BlockData}
    (hb : ∀ {hash data}, blockData hash = some data →
      data.block.transactions = [sampleCoinbase []] ∨
        data.block.transactions = [sampleCoinbase [⟨5,⟨[],0⟩⟩]]) :
    (sampleConsensus blockData).ValidBodies twinValues where
  validInIsolation := by
    intro hash data h
    rcases hb h with ht | ht
    all_goals
      refine ⟨by simp [ht],?_,?_⟩
      · simp [ht,isCoinBase,sampleCoinbase]
      · simpa [ht] using sampleCoinbase_validInIsolation (by decide)
  values_eq := by
    intro hash data h _ htx _ _ hp
    rcases hb h with ht | ht
    · rw [ht,mem_singleton] at htx
      subst htx
      cases hp
    · rw [ht,mem_singleton] at htx
      subst htx
      obtain rfl := mem_singleton.1 hp
      rfl

lemma twinBlocks_validBodies : (sampleConsensus twinBlocks).ValidBodies twinValues :=
  validBodies_of_coinbase twinBlocks_transactions


/-- The UTXO set after block 1, whose coinbase transaction is accepted by a block
with DAA score 2. -/
def twinSet : UtxoCollection :=
  UtxoCollection.add ∅ ⟨0,0⟩ (twinValues ⟨0,0⟩ 2)

lemma twinSet_agrees : Agrees twinValues twinSet := by
  intro _ _ he
  rw [twinSet,UtxoCollection.add,FinMap.get_insert] at he
  split at he
  · cases he
    rfl
  · cases he

/-- The calculations for the blocks 1 and 2, with any condition that they meet. -/
lemma twinSet_calculated {P : DomainHash → UInt64 → BlockGHOSTDAGData → UtxoCollection → Prop}
    (hP₁ : P 1 1 (sampleBlockData 0 1 []).ghostdagData ∅)
    (hP₂ : P 2 2 (sampleBlockData 1 2 []).ghostdagData ∅) :
    (sampleConsensus twinBlocks).PastCalculated twinValues P 0 ∅ 2 twinSet 1 := by
  have hem : Agrees twinValues ∅ := fun _ _ he => by cases he
  have hp₁ : (sampleConsensus twinBlocks).calculatePastUTXOAndAcceptanceData ∅ 1
      (sampleBlockData 0 1 []).ghostdagData 1 (some newUTXODiff) 0 = .ok _ := rfl
  have hp₂ : (sampleConsensus twinBlocks).calculatePastUTXOAndAcceptanceData ∅ 2
      (sampleBlockData 1 2 []).ghostdagData 2 (some newUTXODiff) 0 = .ok _ := rfl
  have h₁ : (sampleConsensus twinBlocks).PastCalculated twinValues P 0 ∅ 1 _ _ :=
    .child rfl .root hem (Leads.newUTXODiff _ _) hP₁ hp₁
  have hs₁ : newUTXODiff.applyTo ∅ = ∅ := (Leads.newUTXODiff twinValues ∅).applyTo_eq
  have hs₂ : (⟨twinSet,∅⟩ : UTXODiff).applyTo ∅ = twinSet := by
    ext1 o
    simp [applyTo]
  rw [← hs₂]
  exact .child rfl (hs₁ ▸ h₁) hem (Leads.newUTXODiff _ _) hP₂ hp₂

/-- Block 2 accepts the coinbase transaction of block 1, whose outpoint is new. -/
theorem calculated_multiset_eq_twinSet :
    (sampleConsensus twinBlocks).PastCalculated twinValues
        (sampleConsensus twinBlocks).NoRecreation 0 ∅ 2 twinSet 1 ∧
      (1 : Int) = (sampleConsensus twinBlocks).multisetOf twinSet := by
  -- both blocks start from the empty set, and the only transaction is the coinbase
  have hfr₁ : (sampleConsensus twinBlocks).NoRecreation 1 1 (sampleBlockData 0 1 []).ghostdagData
      ∅ := by
    intro _ hb
    cases hb
    exact ⟨⟨fun _ _ _ _ _ _ => rfl,fun _ _ _ => trivial⟩,fun _ _ _ => trivial⟩
  have hfr₂ : (sampleConsensus twinBlocks).NoRecreation 2 2 (sampleBlockData 1 2 []).ghostdagData
      ∅ := by
    intro _ hb
    cases hb
    exact ⟨⟨fun _ _ _ _ _ _ => rfl,fun _ _ _ => trivial⟩,fun _ _ _ => trivial⟩
  have hc := twinSet_calculated hfr₁ hfr₂
  exact ⟨hc,calculated_multiset_eq _ _ _ _ twinBlocks_validBodies hc⟩

/-- The coinbase transaction of block 2 creates the outpoint of the coinbase
transaction of block 1 a second time. The new entry takes the place of the old one
in the UTXO set, but the multiset has both. -/
theorem twin_coinbase_multiset_ne :
    (sampleConsensus twinBlocks).ValidBodies twinValues ∧
      ∃ s multiset, (sampleConsensus twinBlocks).PastCalculated twinValues
          (fun _ _ _ _ => True) 0 ∅ 3 s multiset ∧
        multiset ≠ (sampleConsensus twinBlocks).multisetOf s := by
  have hp : (sampleConsensus twinBlocks).calculatePastUTXOAndAcceptanceData twinSet 3
      (sampleBlockData 2 3 []).ghostdagData 3 (some newUTXODiff) 1 = .ok _ := rfl
  refine ⟨twinBlocks_validBodies,_,_,.child rfl (twinSet_calculated trivial trivial) twinSet_agrees
    (Leads.newUTXODiff _ _) trivial hp,?_⟩
  decide

end Eiyaro.Consensus
