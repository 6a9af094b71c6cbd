import Eiyaro.Consensus.Coinbase
import Eiyaro.Consensus.Replay

/-!
# UTXO verification of a block

`verify_and_build_utxo.go`. A block that passes `verifyUTXO` gets the status
UTXOValid. The coinbase transaction is compared with the expected one by hash,
and only from a DAA score on that the header states.
-/

namespace Eiyaro
variable {blockHash : DomainHash}

namespace Consensus
variable {M : Type} (cs : Consensus M)

section
variable (block : DomainBlock) (blockHash : DomainHash) (acceptanceData : AcceptanceData)

def validateUTXOCommitment (multiset : M) : Except Failure Unit :=
  if blockHash = cs.genesisHash then
    .ok ()
  else if block.header.utxoCommitment ≠ cs.multisetHash multiset then
    .error (.ruleError .errBadUTXOCommitment "block UTXO commitment is invalid")
  else
    .ok ()

/-- The accepted transactions, sorted by their IDs below block version 5. -/
def calculateAcceptedIDMerkleRoot : DomainHash :=
  let acceptedTransactions := acceptanceData.flatMap fun blockAcceptanceData =>
    (blockAcceptanceData.transactionAcceptanceData.filter (·.isAccepted)).map
      TransactionAcceptanceData.transaction
  cs.calculateIDMerkleRoot (if cs.blockVersion < 5 then
    acceptedTransactions.insertionSort fun a b => cs.transactionID a ≤ cs.transactionID b
  else
    acceptedTransactions)

def validateAcceptedIDMerkleRoot : Except Failure Unit :=
  if block.header.acceptedIDMerkleRoot ≠ cs.calculateAcceptedIDMerkleRoot acceptanceData then
    .error (.ruleError .errBadMerkleRoot "block accepted ID merkle root is invalid")
  else
    .ok ()

def validateCoinbaseTransaction (coinbaseTransaction : DomainTransaction)
    (acceptanceData : AcceptanceData) : Except Failure Unit := do
  let (_, coinbaseData, _) ← extractCoinbaseDataBlueScoreAndSubsidy cs.coinbaseParams
    coinbaseTransaction
  let expectedCoinbaseTransaction ← expectedCoinbaseTransaction cs blockHash coinbaseData
    acceptanceData
  if cs.transactionHash coinbaseTransaction ≠ cs.transactionHash expectedCoinbaseTransaction then
    .error (.ruleError .errBadCoinbaseTransaction "coinbase transaction is not built as expected")
  else
    .ok ()

/-- The transactions after the coinbase transaction have to be valid on top of the
past UTXO of the block. The source checks them concurrently. -/
def validateBlockTransactionsAgainstPastUTXO (utxoSet : UtxoCollection) (block : DomainBlock)
    (blockHash : DomainHash) (pastUTXODiff : UTXODiff) : Except Failure Unit :=
  block.transactions.tail.forM fun tx => do
    let tx ← populateTransaction utxoSet pastUTXODiff tx
    let _ ← cs.validateTransactionInContextAndPopulateFee tx blockHash block.header.daaScore
    return ()

/-- The DAA score from which on the coinbase transaction is validated, which is
`31557600*2.2` in the source. -/
def coinbaseValidationDAAScore : UInt64 := 69426720

/-- The coinbase check of `verifyUTXO`. -/
def validateCoinbaseIfRequired : Except Failure Unit :=
  if block.header.daaScore ≥ coinbaseValidationDAAScore then do
    let coinbaseTransaction ← indexSlice block.transactions 0
    cs.validateCoinbaseTransaction blockHash coinbaseTransaction acceptanceData
  else
    .ok ()

end

def verifyUTXO (utxoSet : UtxoCollection) (block : DomainBlock) (blockHash : DomainHash)
    (past : PastUTXO M) : Except Failure Unit := do
  cs.validateUTXOCommitment block blockHash past.multiset
  cs.validateAcceptedIDMerkleRoot block past.acceptanceData
  cs.validateCoinbaseIfRequired block blockHash past.acceptanceData
  cs.validateBlockTransactionsAgainstPastUTXO utxoSet block blockHash past.utxoDiff

variable {cs} {acceptanceData : AcceptanceData} {utxoSet : UtxoCollection}

/-! ## What verification depends on -/

/-- A block with complete acceptance data passes verification or breaks a rule. -/
lemma verifyUTXO_onlyRuleErrors {blockData : BlockData} {past : PastUTXO M}
    (hp : ValidCoinbaseParams cs.coinbaseParams cs.blockVersion)
    (hv : ∀ tx ∈ blockData.block.transactions.tail, OnlyRuleErrors (do
      let tx ← populateTransaction utxoSet past.utxoDiff tx
      let _ ← cs.validateTransactionInContextAndPopulateFee tx blockHash
        blockData.block.header.daaScore
      return ()))
    (hd : cs.blockData blockHash = some blockData) (hb : blockData.block.transactions ≠ [])
    (hm : CompleteMergeSet cs blockData past.acceptanceData) :
    OnlyRuleErrors (cs.verifyUTXO utxoSet blockData.block blockHash past) := by
  refine OnlyRuleErrors.bind (.ite (fun _ => .ok _) fun _ => .ite (fun _ => .ruleError _ _)
    fun _ => .ok _) fun _ _ => OnlyRuleErrors.bind (.ite (fun _ => .ruleError _ _) fun _ => .ok _)
    fun _ _ => OnlyRuleErrors.bind (.ite (fun _ => ?_) fun _ => .ok _) fun _ _ => .forM hv
  refine (OnlyRuleErrors.indexSlice_zero hb).bind fun coinbase _ => ?_
  refine (extractCoinbaseData_onlyRuleErrors hp.maxLength coinbase).bind fun _ _ => ?_
  refine (expectedCoinbaseTransaction_onlyRuleErrors hp hd hm).bind fun _ _ => ?_
  exact .ite (fun _ => .ruleError _ _) fun _ => .ok _

/-- Verification reads the past UTXO set of a block, not the diff that leads to it. -/
lemma verifyUTXO_eq_of_leads {values : DomainOutpoint → UInt64 → UTXOEntry} {s : UtxoCollection}
    {d : UTXODiff} {block : DomainBlock} {multiset : M} (hb : block.ValidInIsolation)
    (h : d.Leads values utxoSet s) :
    cs.verifyUTXO utxoSet block blockHash ⟨d,acceptanceData,multiset⟩ =
      cs.verifyUTXO s block blockHash ⟨UTXODiff.newUTXODiff,acceptanceData,multiset⟩ := by
  have htxs : ∀ tx ∈ block.transactions.tail,
      populateTransaction utxoSet d tx = populateTransaction s UTXODiff.newUTXODiff tx := by
    intro tx htx
    have hi := (hb.transactions tx (List.mem_of_mem_tail htx)).noPrefilledInputs
    rw [populateTransaction_eq h hi,populateTransaction_eq (UTXODiff.Leads.newUTXODiff values s) hi]
  have ht : cs.validateBlockTransactionsAgainstPastUTXO utxoSet block blockHash d =
      cs.validateBlockTransactionsAgainstPastUTXO s block blockHash UTXODiff.newUTXODiff := by
    rw [validateBlockTransactionsAgainstPastUTXO,validateBlockTransactionsAgainstPastUTXO]
    generalize block.transactions.tail = txs at htxs
    induction txs with
    | nil => rfl
    | cons tx txs ih =>
      rw [List.forall_mem_cons] at htxs
      rw [List.forM,List.forM,htxs.1,ih htxs.2]
  rw [verifyUTXO,verifyUTXO,ht]

/-! ## The coinbase of a verified block -/

lemma eq_of_unpopulated_eq {tx expected : DomainTransaction} (hi : expected.inputs = [])
    (h : tx.unpopulated = expected.unpopulated) : tx = expected := by
  cases tx with
  | mk _ inputs _ _ _ _ _ =>
    cases expected with
    | mk _ _ _ _ _ _ _ =>
      simp only [DomainTransaction.unpopulated,DomainTransaction.mk.injEq] at h hi ⊢
      subst hi
      obtain ⟨h₁,h₂,h₃⟩ := h
      exact ⟨h₁,List.map_eq_nil_iff.1 h₂,h₃⟩

lemma validateCoinbaseTransaction_spec {tx : DomainTransaction}
    (hc : ∀ other, cs.transactionHash tx = cs.transactionHash other →
      tx.unpopulated = other.unpopulated)
    (h : cs.validateCoinbaseTransaction blockHash tx acceptanceData = .ok ()) :
    ∃ coinbaseData, expectedCoinbaseTransaction cs blockHash coinbaseData acceptanceData =
      .ok tx := by
  obtain ⟨⟨_,coinbaseData,_⟩,-,h⟩ := bind_eq_ok h
  obtain ⟨expected,he,h⟩ := bind_eq_ok h
  have hi : expected.inputs = [] := by
    obtain ⟨_,-,_,-,hb⟩ := bind₂_eq_ok he
    obtain ⟨_,-,_,-,hb⟩ := bind₂_eq_ok hb
    cases hb
    rfl
  obtain ⟨heq,h⟩ := of_ite_error h
  rw [eq_of_unpopulated_eq hi (hc expected (not_not.1 heq))]
  exact ⟨coinbaseData,he⟩

def childOfGenesis (daaScore : UInt64) (outputs : List DomainTransactionOutput) :
    DomainHash → Option BlockData :=
  fun hash => if hash = 1 then some (sampleBlockData 0 daaScore outputs) else none

def genesisPast : PastUTXO Int :=
  ⟨UTXODiff.newUTXODiff,[⟨0,[]⟩],0⟩

/-- A subsidy of 8 and a fee of 3. -/
def payingCoinbase : DomainTransaction :=
  sampleCoinbase [⟨11,⟨[],0⟩⟩]

/-- The block pays for block 1. -/
def payingBlockData : BlockData :=
  { sampleBlockData 1 69426720 [⟨11,⟨[],0⟩⟩] with daaAddedBlocks := [1] }

/-- The block that merges block 1, with a hash that knows its coinbase transaction. -/
def mergingConsensus : Consensus Int :=
  { sampleConsensus fun hash =>
      if hash = 1 then some (sampleBlockData 0 1 [])
      else if hash = 2 then some payingBlockData
      else none with
    transactionHash := fun tx => if tx.unpopulated = payingCoinbase then 1 else 0 }

/-- Block 2 accepts the coinbase transaction of block 1 and a transaction with a fee. -/
def mergingPast : PastUTXO Int :=
  ⟨UTXODiff.newUTXODiff,[⟨1,[⟨sampleCoinbase [],0,true,[]⟩,
    ⟨⟨0,[],[],0,0,0,[]⟩,3,true,[]⟩]⟩],0⟩

end Consensus
end Eiyaro
