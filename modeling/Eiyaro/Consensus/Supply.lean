import Eiyaro.Consensus.Coinbase
import Eiyaro.Consensus.Multiset
import Eiyaro.Transaction.InIsolation

/-!
# The supply

The total amount of the past UTXO set changes from a selected parent to its child by
the outputs of the selected parent's coinbase transaction and by the fees of the
accepted transactions. The fees are the ones that the acceptance data credits to the
merged blocks.
-/

namespace Eiyaro.Consensus
open List
open UTXODiff
variable {M : Type} {acceptanceData : AcceptanceData}

/-- The total amount of a UTXO set. -/
def totalAmount (s : UtxoCollection) : ℤ :=
  s.sum fun _ entry => (entry.amount.toNat : ℤ)

/-- The context with amounts for multiset elements, whose multisets are total amounts. -/
def withAmounts (cs : Consensus M) : Consensus ℤ where
  genesisHash := cs.genesisHash
  blockVersion := cs.blockVersion
  coinbaseParams := cs.coinbaseParams
  blockData := cs.blockData
  transactionID := cs.transactionID
  transactionID_unpopulated := cs.transactionID_unpopulated
  transactionHash := cs.transactionHash
  calculateIDMerkleRoot := cs.calculateIDMerkleRoot
  element _ entry := entry.amount.toNat
  multisetHash _ := 0
  validateTransactionInContextAndPopulateFee := cs.validateTransactionInContextAndPopulateFee

/-- The stored transactions passed `ValidateTransactionInIsolation`, and the context uses
the transaction validator. The concurrent checks can finish in any order. -/
structure UsesValidators (cs : Consensus M) (v : TransactionValidator)
    (params : IsolationParams) : Prop where
  inIsolation : ∀ {hash data}, cs.blockData hash = some data → ∀ tx ∈ data.block.transactions,
    params.validateTransactionInIsolation tx data.block.header.daaScore = .ok ()
  inContext : ∀ tx blockHash daaScore, ∃ arrival,
    cs.validateTransactionInContextAndPopulateFee tx blockHash daaScore =
      v.validateTransactionInContextAndPopulateFee arrival tx daaScore

/-! ## The accounts of a merge set -/

variable (data : TransactionAcceptanceData)

/-- The fee that the acceptance data credits for a transaction. -/
def creditedFee : Nat :=
  if data.isAccepted then data.fee.toNat else 0

/-- The fees that the acceptance data credits to a merged block. -/
def creditedFees (blockAcceptanceData : BlockAcceptanceData) : Nat :=
  ((acceptedFees blockAcceptanceData).map UInt64.toNat).sum

/-- The fee of a transaction that is accepted and not a coinbase transaction: what the
spent entries have above the outputs. -/
def transactionFee : ℤ :=
  if data.isAccepted && !isCoinBase data.transaction then
    ((data.transaction.inputs.map inputAmount).sum : ℕ) - (outputAmount data.transaction : ℤ)
  else
    0

/-- The fees of all accepted transactions of the merge set. -/
def feeTotal (acceptanceData : AcceptanceData) : ℤ :=
  (acceptanceData.map fun blockAcceptanceData =>
    (blockAcceptanceData.transactionAcceptanceData.map transactionFee).sum).sum

/-- The recorded fee of an accepted transaction is its fee, so that none of the sums of
the validators wrapped around. -/
def FeeExact : Prop :=
  (creditedFee data : ℤ) = transactionFee data

/-- What a transaction adds to the supply if it is accepted. -/
def minted (isSelectedParent : Bool) (tx : DomainTransaction) : Nat :=
  if isSelectedParent && isCoinBase tx then outputAmount tx else 0

/-! ## One transaction -/

section
variable {cs : Consensus M} {s s' : UtxoCollection} {tx : DomainTransaction}
  {blockDAAScore : UInt64}

lemma sum_createdEntries (isCoinbase : Bool) :
    ((cs.createdEntries tx isCoinbase blockDAAScore).map fun p => (p.2.amount.toNat : ℤ)).sum =
      outputAmount tx := by
  have hm : (cs.createdEntries tx isCoinbase blockDAAScore).map
      (fun p => (p.2.amount.toNat : ℤ)) =
        tx.outputs.map fun output => (output.value.toNat : ℤ) := by
    rw [createdEntries,map_map]
    show tx.outputs.zipIdx.map ((fun output => (output.value.toNat : ℤ)) ∘ Prod.fst) = _
    rw [← map_map,zipIdx_map_fst]
  rw [hm,outputAmount,Nat.cast_list_sum,map_map]
  rfl

lemma sum_spentEntries {populated : DomainTransaction}
    {spent : List (DomainOutpoint × UTXOEntry)} (h : spentEntries populated = .ok spent) :
    (spent.map fun p => (p.2.amount.toNat : ℤ)).sum =
      ((populated.inputs.map inputAmount).sum : ℕ) := by
  unfold spentEntries at h
  generalize populated.inputs = inputs at h
  induction inputs generalizing spent with
  | nil =>
    cases h
    rfl
  | cons input inputs ih =>
    rw [mapM_cons] at h
    obtain ⟨first,hfr,_,hr,h⟩ := bind₂_eq_ok h
    cases h
    have ha : first.2.amount.toNat = inputAmount input := by
      cases he : input.utxoEntry with
      | none => simp [he] at hfr
      | some _ =>
        rw [he] at hfr
        cases hfr
        simp [inputAmount,he]
    rw [map_cons,sum_cons,ih hr,ha]
    rfl

/-- The total amount after a transaction whose outputs are all new. -/
lemma totalAmount_applyTransaction (htx : tx.ValidInIsolation)
    (hin : ∀ o ∈ tx.outpoints, s.contains o) (hf : cs.FreshOutputs blockDAAScore s tx) :
    totalAmount (cs.applyTransaction s (tx.populatedFrom s) blockDAAScore) =
      totalAmount s - (((tx.populatedFrom s).inputs.map inputAmount).sum : ℕ) +
        outputAmount tx := by
  obtain ⟨_,hs,-,-⟩ := spentEntries_populatedFrom hin
  have hi : checkOutputIndexes (tx.populatedFrom s) = .ok () :=
    if_neg (not_lt.2 htx.outputs_length)
  have ht : cs.withAmounts.addTransactionToMultiset (totalAmount s) (tx.populatedFrom s)
      blockDAAScore (isCoinBase tx) =
        .ok (totalAmount (cs.applyTransaction s (tx.populatedFrom s) blockDAAScore)) :=
    addTransactionToMultiset_eq htx hin hf
  rw [addTransactionToMultiset,hs,hi] at ht
  rw [← Except.ok.inj ht,← sum_spentEntries hs]
  congr 1
  exact sum_createdEntries _

section
variable (s tx)

lemma isCoinBase_populatedFrom : isCoinBase (tx.populatedFrom s) = isCoinBase tx :=
  rfl

lemma outputAmount_populatedFrom : outputAmount (tx.populatedFrom s) = outputAmount tx :=
  rfl

end

variable {v : TransactionValidator} {params : IsolationParams} {blockHash : DomainHash}
  {isSelectedParent : Bool} {data : TransactionAcceptanceData} {daaScore : UInt64}

/-- A replayed transaction moves its fee out of the set and mints the coinbase outputs
of the selected parent. -/
lemma replayTransaction_conserves (htx : tx.ValidInIsolation)
    (his : params.validateTransactionInIsolation tx daaScore = .ok ()) (hc : ∀ tx, ∃ arrival,
      cs.validateTransactionInContextAndPopulateFee tx blockHash blockDAAScore =
        v.validateTransactionInContextAndPopulateFee arrival tx blockDAAScore)
    (hfr : ∀ s' data, cs.replayTransaction blockHash blockDAAScore isSelectedParent s tx =
      .ok (s', data) → data.isAccepted → cs.FreshOutputs blockDAAScore s tx)
    (h : cs.replayTransaction blockHash blockDAAScore isSelectedParent s tx = .ok (s', data)) :
    totalAmount s' + creditedFee data = totalAmount s+minted isSelectedParent tx ∧
      FeeExact data := by
  have hfr := hfr s' data h
  rw [replayTransaction] at h
  split at h
  · next hlk =>
    cases h
    -- a coinbase transaction has no inputs that could be missing
    have hmn : minted isSelectedParent tx = 0 := by
      by_cases hcb : isCoinBase tx
      · have hi := inputs_eq_nil_of_valid his hcb
        simp [lookupInputs,DomainTransaction.outpoints,hi] at hlk
      · simp [minted,hcb]
    rw [hmn]
    exact ⟨rfl,rfl⟩
  · next populated hlk =>
    obtain ⟨hi,rfl⟩ := lookupInputs_eq_some.1 hlk
    rw [isCoinBase_populatedFrom] at h
    by_cases hcb : isCoinBase tx
    · rw [if_pos hcb] at h
      split at h
      · next hsel =>
        cases h
        have hn := inputs_eq_nil_of_valid his hcb
        have hs : (tx.populatedFrom s).inputs = [] := by
          simp [DomainTransaction.populatedFrom,hn]
        refine ⟨?_,?_⟩
        · rw [totalAmount_applyTransaction htx hi (hfr rfl),hs]
          simp [creditedFee,minted,hsel,hcb]
        · simp [FeeExact,creditedFee,transactionFee,isCoinBase_populatedFrom,hcb]
      · next hsel =>
        cases h
        refine ⟨?_,rfl⟩
        simp [creditedFee,minted,hsel]
    · rw [if_neg hcb] at h
      have hmn : minted isSelectedParent tx = 0 := by simp [minted,hcb]
      rw [hmn]
      split at h
      · cases h
        exact ⟨rfl,rfl⟩
      · cases h
      · next fee hf =>
        cases h
        obtain ⟨arrival,ha⟩ := hc _
        rw [ha] at hf
        obtain ⟨_,_,_,hr,_⟩ := bind₂_eq_ok his
        have he : fee.toNat+outputAmount (tx.populatedFrom s) =
            ((tx.populatedFrom s).inputs.map inputAmount).sum := v.fee_exact hr hf
        refine ⟨?_,?_⟩
        · rw [totalAmount_applyTransaction htx hi (hfr rfl),← he,outputAmount_populatedFrom]
          simp only [creditedFee,if_true]
          omega
        · simp only [FeeExact,creditedFee,transactionFee,isCoinBase_populatedFrom,hcb,
            ← he,if_true,Bool.not_false,Bool.and_self]
          omega

end

/-! ## The merge set -/

variable {cs : Consensus M} {v : TransactionValidator} {params : IsolationParams}
  {s s' : UtxoCollection} {blockHash : DomainHash} {blockDAAScore daaScore : UInt64}
  {values : DomainOutpoint → UInt64 → UTXOEntry} {blocks : List (DomainHash × DomainBlock)}
  {ghostdagData : BlockGHOSTDAGData}

/-- Only the first transaction of a block mints anything, and only in the selected
parent. -/
lemma sum_minted {block : DomainBlock} (hb : block.ValidInIsolation) (isSelectedParent : Bool) :
    ∃ coinbase rest, block.transactions = coinbase :: rest ∧
      (block.transactions.map (minted isSelectedParent)).sum =
        if isSelectedParent then outputAmount coinbase else 0 := by
  cases ht : block.transactions with
  | nil => exact absurd ht hb.nonempty
  | cons coinbase rest =>
    have hcb := hb.coinbase
    rw [ht,zipIdx_cons,forall_mem_cons] at hcb
    have hf : isCoinBase coinbase = true := hcb.1
    have hr : ∀ n ∈ rest.map (minted isSelectedParent), n = 0 := by
      intro n hn
      rw [← zipIdx_map_fst 1 rest,map_map] at hn
      obtain ⟨p,hp,rfl⟩ := mem_map.1 hn
      have hnt := hcb.2 p hp
      have hps := le_snd_of_mem_zipIdx hp
      have hne : (p.2 == 0) = false := by
        rw [beq_eq_false_iff_ne]
        omega
      simp [minted,hnt,hne]
    refine ⟨coinbase,rest,rfl,?_⟩
    rw [map_cons,sum_cons,sum_eq_zero hr,minted,hf]
    cases isSelectedParent with
    | false => rfl
    | true => rfl

lemma creditedFees_eq (blockAcceptanceData : BlockAcceptanceData) :
    creditedFees blockAcceptanceData =
      (blockAcceptanceData.transactionAcceptanceData.map creditedFee).sum := by
  rw [creditedFees,acceptedFees]
  induction blockAcceptanceData.transactionAcceptanceData with
  | nil => rfl
  | cons data _ ih =>
    rw [map_cons,sum_cons,← ih,creditedFee]
    by_cases ha : data.isAccepted
    · rw [filter_cons_of_pos (by simpa using ha),if_pos ha]
      rfl
    · rw [filter_cons_of_neg (by simpa using ha),if_neg ha,Nat.zero_add]

/-- The loop over the blocks of the merge set. -/
lemma replayBlocks_conserves (hbd : cs.ValidBodies values)
    (hv : cs.UsesValidators v params) (hb : cs.mergeSetBlocks ghostdagData = .ok blocks)
    (hfr : cs.NoRecreation blockHash blockDAAScore ghostdagData s)
    (h : mapAccum (cs.replayBlock blockHash blockDAAScore) blocks.zipIdx s =
      .ok (s', acceptanceData)) :
    totalAmount s' + ((acceptanceData.map creditedFees).sum : ℕ) = totalAmount s +
        ((blocks.zipIdx.map fun p => (p.1.2.transactions.map (minted (p.2 == 0))).sum).sum : ℕ) ∧
      ∀ blockAcceptanceData ∈ acceptanceData,
        ∀ data ∈ blockAcceptanceData.transactionAcceptanceData, FeeExact data := by
  refine mapAccum.conserves ?_ (hfr blocks hb) h
  rintro s ⟨⟨_,_⟩,_⟩ hm hfr _ _ hblk
  obtain ⟨data,hd,rfl⟩ := exists_of_mem_mergeSetBlocks hb _ (fst_mem_of_mem_zipIdx hm)
  obtain ⟨⟨_,_⟩,ht,hblk⟩ := bind_eq_ok hblk
  cases hblk
  rw [creditedFees_eq]
  refine mapAccum.conserves (fun s tx htx hfr s' _ => ?_) hfr ht
  exact replayTransaction_conserves ((hbd.validInIsolation hd).transactions tx htx)
    (hv.inIsolation hd tx htx) (fun tx => hv.inContext tx blockHash blockDAAScore) hfr

/-- The merge set starts with the selected parent, and no other block mints anything. -/
lemma sum_minted_mergeSet (hb : cs.ValidBodies values) {selectedParent : DomainHash}
    (hsel : ghostdagData.mergeSetBlues.head? = some selectedParent)
    (hbk : cs.mergeSetBlocks ghostdagData = .ok blocks) :
    ∃ data coinbase rest, cs.blockData selectedParent = some data ∧
      data.block.transactions = coinbase :: rest ∧
      (blocks.zipIdx.map fun p => (p.1.2.transactions.map (minted (p.2 == 0))).sum).sum =
        outputAmount coinbase := by
  have hs := exists_of_mem_mergeSetBlocks hbk
  obtain ⟨_,hhs,hm⟩ := bind_eq_ok hbk
  cases hbl : ghostdagData.mergeSetBlues with
  | nil =>
    rw [hbl] at hsel
    cases hsel
  | cons _ _ =>
    rw [hbl] at hsel
    cases hsel
    rw [getSortedMergeSet,hbl] at hhs
    obtain ⟨_,-,hhs⟩ := bind_eq_ok hhs
    cases hhs
    rw [mapM_cons] at hm
    obtain ⟨_,hfr,others,-,hm⟩ := bind₂_eq_ok hm
    cases hm
    obtain ⟨data,hdt,hfr⟩ := bind_eq_ok hfr
    cases hfr
    have hdt := getBlockData_eq_ok.1 hdt
    obtain ⟨coinbase,rest,ht,hsm⟩ := sum_minted (hb.validInIsolation hdt) true
    refine ⟨data,coinbase,rest,hdt,ht,?_⟩
    have ho : ∀ n ∈ (others.zipIdx 1).map
        (fun p => (p.1.2.transactions.map (minted (p.2 == 0))).sum), n = 0 := by
      intro n hn
      obtain ⟨p,hp,rfl⟩ := mem_map.1 hn
      have hps := le_snd_of_mem_zipIdx hp
      have hne : (p.2 == 0) = false := by
        rw [beq_eq_false_iff_ne]
        omega
      obtain ⟨_,hot,hbd⟩ := hs p.1 (mem_cons_of_mem _ (fst_mem_of_mem_zipIdx hp))
      obtain ⟨_,_,_,hz⟩ := sum_minted (hb.validInIsolation hot) false
      rw [hbd] at hz
      rw [hne]
      exact hz
    rw [zipIdx_cons,map_cons,sum_cons,sum_eq_zero ho]
    exact hsm

/-! ## The past UTXO set of a block -/

/-- From the past UTXO set `s` of the selected parent to the past UTXO set `s'` of the
block: the outputs of the selected parent's coinbase transaction come in and the fees go
out. The acceptance data credits these fees, and as long as the supply fits into a
`uint64`, so do the fees of each block. -/
structure Conserves (cs : Consensus M) (selectedParent : DomainHash) (s s' : UtxoCollection)
    (acceptanceData : AcceptanceData) : Prop where
  total : ∃ data coinbase rest, cs.blockData selectedParent = some data ∧
    data.block.transactions = coinbase :: rest ∧
    totalAmount s' = totalAmount s+outputAmount coinbase - feeTotal acceptanceData ∧
    (totalAmount s+outputAmount coinbase < 2^64 →
      ∀ blockAcceptanceData ∈ acceptanceData,
        (acceptedFees blockAcceptanceData).sum.toNat = creditedFees blockAcceptanceData)
  fees_exact : ∀ blockAcceptanceData ∈ acceptanceData,
    ∀ data ∈ blockAcceptanceData.transactionAcceptanceData, FeeExact data
  credited : ((acceptanceData.map creditedFees).sum : ℕ) = feeTotal acceptanceData

lemma totalAmount_nonneg (s : UtxoCollection) : 0 ≤ totalAmount s := by
  apply Finset.sum_nonneg
  intro o _
  cases s.get o with
  | none => exact le_refl 0
  | some _ => exact Int.natCast_nonneg _

lemma credited_of_exact (he : ∀ blockAcceptanceData ∈ acceptanceData,
      ∀ data ∈ blockAcceptanceData.transactionAcceptanceData, FeeExact data) :
    ((acceptanceData.map creditedFees).sum : ℕ) = feeTotal acceptanceData := by
  have hb : ∀ blockAcceptanceData ∈ acceptanceData,
      (creditedFees blockAcceptanceData : ℤ) =
        (blockAcceptanceData.transactionAcceptanceData.map transactionFee).sum := by
    intro blockAcceptanceData hm
    rw [creditedFees_eq,Nat.cast_list_sum,map_map]
    congr 1
    exact map_congr_left (he blockAcceptanceData hm)
  rw [Nat.cast_list_sum,map_map]
  congr 1
  exact map_congr_left hb

/-- The supply is conserved wherever the past UTXO of a block is calculated, as long as
no accepted transaction creates an outpoint that is unspent at that moment. -/
theorem calculatePastUTXO_conserves [AddCommGroup M]
    {values : DomainOutpoint → UInt64 → UTXOEntry} {utxoSet s : UtxoCollection} {diff : UTXODiff}
    {blockHash selectedParent : DomainHash} {ghostdagData : BlockGHOSTDAGData} {daaScore : UInt64}
    {multiset : M} {past : PastUTXO M} (hbodies : cs.ValidBodies values)
    (hvalidators : cs.UsesValidators v params) (hset : Agrees values utxoSet)
    (hdiff : diff.Leads values utxoSet s)
    (hselected : ghostdagData.mergeSetBlues.head? = some selectedParent)
    (hfresh : cs.NoRecreation blockHash daaScore ghostdagData s)
    (hpast : cs.calculatePastUTXOAndAcceptanceData utxoSet blockHash ghostdagData daaScore
      (some diff) multiset = .ok past) :
    cs.Conserves selectedParent s (past.utxoDiff.applyTo utxoSet) past.acceptanceData := by
  obtain ⟨s',hr,hl⟩ := exists_replay_of_calculatePastUTXO hbodies hset hdiff hfresh hpast
  rw [hl.applyTo_eq]
  obtain ⟨_,hb,hrn⟩ := bind_eq_ok hr
  obtain ⟨_,he⟩ := replayBlocks_conserves hbodies hvalidators hb hfresh hrn
  obtain ⟨data,coinbase,rest,hd,ht,_⟩ := sum_minted_mergeSet hbodies hselected hb
  have hc := credited_of_exact he
  refine ⟨⟨data,coinbase,rest,hd,ht,by omega,?_⟩,he,hc⟩
  intro _ blockAcceptanceData hm
  refine (toNat_sum _).trans (Nat.mod_eq_of_lt ?_)
  -- the fees of one block are at most all that left the set
  have hle : creditedFees blockAcceptanceData ≤ (past.acceptanceData.map creditedFees).sum :=
    single_le_sum (fun _ _ => Nat.zero_le _) _ (mem_map_of_mem hm)
  have hn := totalAmount_nonneg s'
  rw [creditedFees] at hle
  omega

/-! ## Sample blocks -/

section

/-- The sample context with the transaction validator. The IDs tell coinbase
transactions from others. -/
def supplyConsensus (blockData : DomainHash → Option BlockData) : Consensus Int :=
  { sampleConsensus blockData with
    transactionID := fun tx => if isCoinBase tx then 0 else 1
    transactionID_unpopulated := fun _ => rfl
    validateTransactionInContextAndPopulateFee := fun tx _ daaScore =>
      TransactionValidator.sample.validateTransactionInContextAndPopulateFee (Equiv.refl _) tx
        daaScore }

/-- A transaction that spends 12 and pays a fee of 7. -/
def samplePayment : DomainTransaction :=
  ⟨0,[⟨⟨7,0⟩,[],sequenceLockTimeDisabled,0,none⟩],[⟨5,⟨[],0⟩⟩],0,subnetworkIDNative,0,[]⟩

/-- Block 1 on top of genesis has a coinbase output and the payment. -/
def paymentBlocks : DomainHash → Option BlockData :=
  fun hash =>
    if hash = 0 then some sampleGenesisData
    else if hash = 1 then
      some { sampleBlockData 0 1 [] with
        block := ⟨headerOn [0],[sampleCoinbase [⟨5,⟨[],0⟩⟩],samplePayment],""⟩ }
    else none

/-- The entry of the outpoint that the payment spends, and of the outputs. -/
def paymentValues : DomainOutpoint → UInt64 → UTXOEntry :=
  fun outpoint daaScore =>
    if outpoint.transactionID = 0 then ⟨5,⟨[],0⟩,true,daaScore⟩
    else if outpoint.transactionID = 1 then ⟨5,⟨[],0⟩,false,daaScore⟩
    else ⟨12,⟨[],0⟩,false,daaScore⟩

def paymentSet : UtxoCollection :=
  UtxoCollection.add ∅ ⟨7,0⟩ (paymentValues ⟨7,0⟩ 0)

variable {hash : DomainHash} {data : BlockData}

lemma paymentBlocks_transactions (h : paymentBlocks hash = some data) :
    data.block.transactions = [sampleCoinbase []] ∨
      data.block.transactions = [sampleCoinbase [⟨5,⟨[],0⟩⟩],samplePayment] := by
  unfold paymentBlocks at h
  split_ifs at h <;> cases h
  · exact .inl rfl
  · exact .inr rfl

lemma samplePayment_validInIsolation : samplePayment.ValidInIsolation where
  noPrefilledInputs := by simp [samplePayment]
  noDuplicateInputs := by simp [samplePayment,DomainTransaction.outpoints]
  outputs_length := by decide

lemma paymentBlocks_validBodies : (supplyConsensus paymentBlocks).ValidBodies paymentValues where
  validInIsolation := by
    intro hash data h
    obtain ht | ht := paymentBlocks_transactions h
    · refine ⟨by simp [ht],?_,?_⟩
      · simp [ht,isCoinBase,sampleCoinbase]
      · simpa [ht] using sampleCoinbase_validInIsolation (by decide)
    · refine ⟨by simp [ht],?_,?_⟩
      · rw [ht]
        decide
      · rw [ht,forall_mem_cons,forall_mem_singleton]
        exact ⟨sampleCoinbase_validInIsolation (by decide),samplePayment_validInIsolation⟩
  values_eq := by
    intro hash data h _ htx _ _ hp
    obtain ht | ht := paymentBlocks_transactions h
    · rw [ht,mem_singleton] at htx
      subst htx
      cases hp
    · rw [ht,mem_cons,mem_singleton] at htx
      obtain rfl | rfl := htx
      · obtain rfl := mem_singleton.1 hp
        rfl
      · obtain rfl := mem_singleton.1 hp
        rfl

/-- The transactions have no data payload, so that the score makes no difference. -/
lemma supplyConsensus_usesValidators {blockData : DomainHash → Option BlockData}
    (h : ∀ {hash data}, blockData hash = some data → ∀ tx ∈ data.block.transactions,
      tx.subnetworkID ≠ subnetworkIDData ∧
        IsolationParams.sample.validateTransactionInIsolation tx 0 = .ok ()) :
    (supplyConsensus blockData).UsesValidators .sample .sample where
  inIsolation := by
    intro hash data hd tx htx
    obtain ⟨hs,hv⟩ := h hd tx htx
    rw [validateTransactionInIsolation_score hs 0,hv]
  inContext _ _ _ := ⟨Equiv.refl _,rfl⟩

lemma paymentBlocks_usesValidators :
    (supplyConsensus paymentBlocks).UsesValidators .sample .sample := by
  refine supplyConsensus_usesValidators fun h => ?_
  unfold paymentBlocks at h
  split_ifs at h <;> cases h <;> decide

lemma paymentSet_agrees : Agrees paymentValues paymentSet := by
  intro _ _ he
  rw [paymentSet,UtxoCollection.add,FinMap.get_insert] at he
  split at he
  · next heq =>
    cases he
    rw [heq]
    rfl
  · cases he

lemma paymentSet_noRecreation : (supplyConsensus paymentBlocks).NoRecreation 2 2
    (sampleBlockData 1 2 []).ghostdagData paymentSet := by
  intro _ hb
  cases hb
  refine ⟨⟨fun s' data _ _ => ?_,fun s' data h => ⟨fun _ _ _ _ => ?_,fun _ _ _ => trivial⟩⟩,
    fun _ _ _ => trivial⟩
  · intro p hp
    obtain rfl := mem_singleton.1 hp
    rfl
  · cases h
    intro p hp
    obtain rfl := mem_singleton.1 hp
    rfl

/-- A block on top of block 1 accepts the coinbase transaction with 5 and the payment
with fee 7: a supply of 12 becomes 10. -/
theorem calculatePastUTXO_conserves_payment :
    ∃ past, (supplyConsensus paymentBlocks).calculatePastUTXOAndAcceptanceData paymentSet 2
        (sampleBlockData 1 2 []).ghostdagData 2 (some newUTXODiff) 0 = .ok past ∧
      totalAmount paymentSet = 12 ∧ totalAmount (past.utxoDiff.applyTo paymentSet) = 10 ∧
      (supplyConsensus paymentBlocks).Conserves 1 paymentSet
        (past.utxoDiff.applyTo paymentSet) past.acceptanceData := by
  refine ⟨_,rfl,by decide,by decide,?_⟩
  exact calculatePastUTXO_conserves paymentBlocks_validBodies paymentBlocks_usesValidators
    paymentSet_agrees (Leads.newUTXODiff _ _) rfl paymentSet_noRecreation rfl

/-- A block whose header and coinbase payload state the blue score 1, which is not above
the blue score of the block. -/
def lowScoreBlock (selectedParent : DomainHash) (blueScore : UInt64) : BlockData :=
  { sampleBlockData selectedParent blueScore [] with
    block := ⟨{ headerOn [selectedParent] with daaScore := blueScore, blueScore := 1 },
      [sampleCoinbase [⟨5,⟨[],0⟩⟩]],""⟩
    ghostdagData := { (sampleBlockData selectedParent 0 []).ghostdagData with
      blueScore := blueScore } }

/-- Block 1 and block 2 have the same coinbase transaction. -/
def lowScoreBlocks : DomainHash → Option BlockData :=
  fun hash =>
    if hash = 0 then some sampleGenesisData
    else if hash = 1 then some (lowScoreBlock 0 1)
    else if hash = 2 then some (lowScoreBlock 1 2)
    else none

lemma lowScoreBlocks_usesValidators :
    (supplyConsensus lowScoreBlocks).UsesValidators .sample .sample := by
  refine supplyConsensus_usesValidators fun h => ?_
  unfold lowScoreBlocks at h
  split_ifs at h <;> cases h <;> decide

/-- The past UTXO set of block 2 has the coinbase output of block 1, and a block on top
of block 2 creates it again: the set keeps the total amount 5, although another 5 are
accepted and no fee is paid. -/
theorem equal_coinbase_not_conserved :
    (supplyConsensus lowScoreBlocks).UsesValidators .sample .sample ∧
      (∃ past, (supplyConsensus lowScoreBlocks).calculatePastUTXOAndAcceptanceData ∅ 2
          (lowScoreBlock 1 2).ghostdagData 2 (some newUTXODiff) 0 = .ok past ∧
        past.utxoDiff.applyTo ∅ = twinSet) ∧
      ∃ past, (supplyConsensus lowScoreBlocks).calculatePastUTXOAndAcceptanceData twinSet 3
          (lowScoreBlock 2 3).ghostdagData 3 (some newUTXODiff) 1 = .ok past ∧
        totalAmount twinSet = 5 ∧ totalAmount (past.utxoDiff.applyTo twinSet) = 5 ∧
        feeTotal past.acceptanceData = 0 ∧
        ¬(supplyConsensus lowScoreBlocks).Conserves 2 twinSet (past.utxoDiff.applyTo twinSet)
          past.acceptanceData := by
  have hs : (⟨twinSet,∅⟩ : UTXODiff).applyTo ∅ = twinSet := by
    ext1 o
    simp [applyTo]
  refine ⟨lowScoreBlocks_usesValidators,⟨_,rfl,hs⟩,_,rfl,by decide,by decide,by decide,?_⟩
  intro hc
  obtain ⟨_,_,_,hd,htx,ht,-⟩ := hc.total
  cases hd
  cases htx
  revert ht
  decide

end
end Eiyaro.Consensus
