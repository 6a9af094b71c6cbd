import Eiyaro.Ghostdag.Defs

/-!
# What the consensus state manager reads

The data of a stored block that UTXO resolution reads, and the functions that
other packages compute: transaction hashes, merkle roots, multiset elements and
the validation of a populated transaction. A stored block never changes.
-/

namespace Eiyaro

structure TransactionAcceptanceData where
  transaction : DomainTransaction
  fee : UInt64
  isAccepted : Bool
  transactionInputUTXOEntries : List UTXOEntry

structure BlockAcceptanceData where
  blockHash : DomainHash
  transactionAcceptanceData : List TransactionAcceptanceData

abbrev AcceptanceData := List BlockAcceptanceData

structure BlockData where
  block : DomainBlock
  ghostdagData : BlockGHOSTDAGData
  daaScore : UInt64
  daaAddedBlocks : List DomainHash

/-- The parameters of the coinbase manager. The target times are whole seconds on
every network. -/
structure CoinbaseParams where
  subsidyGenesisReward : UInt64
  preDeflationaryPhaseBaseSubsidy : UInt64
  coinbasePayloadScriptPublicKeyMaxLength : UInt8
  deflationaryPhaseDaaScore : UInt64
  targetSecondsPerBlock : List UInt64
  /-- The script of `DevFeeAddress`. -/
  devFeeScriptPublicKey : ScriptPublicKey

def virtualBlockHash : DomainHash :=
  ⟨2^256 - 1,by decide⟩

/-- The transaction as it is hashed: the populated entries are not part of it. -/
def DomainTransaction.unpopulated (tx : DomainTransaction) : DomainTransaction :=
  { tx with inputs := tx.inputs.map fun input => { input with utxoEntry := none } }

/-- The context of the consensus state manager, with multisets in `M`. -/
structure Consensus (M : Type) where
  genesisHash : DomainHash
  blockVersion : UInt16
  coinbaseParams : CoinbaseParams
  blockData : DomainHash → Option BlockData
  transactionID : DomainTransaction → DomainHash
  transactionID_unpopulated : ∀ tx, transactionID tx.unpopulated = transactionID tx
  transactionHash : DomainTransaction → DomainHash
  calculateIDMerkleRoot : List DomainTransaction → DomainHash
  /-- The multiset element of a serialized entry. -/
  element : DomainOutpoint → UTXOEntry → M
  multisetHash : M → DomainHash
  /-- The fee of a transaction with populated inputs that is valid in the context
  of a block with the given DAA score. -/
  validateTransactionInContextAndPopulateFee :
    DomainTransaction → DomainHash → UInt64 → Except Failure UInt64

def Consensus.getBlockData {M : Type} (cs : Consensus M) (hash : DomainHash) :
    Except Failure BlockData :=
  match cs.blockData hash with
  | some data => .ok data
  | none => .error (.error "not found")

lemma Consensus.getBlockData_eq_ok {M : Type} {cs : Consensus M} {hash : DomainHash}
    {data : BlockData} : cs.getBlockData hash = .ok data ↔ cs.blockData hash = some data := by
  rw [getBlockData]
  cases cs.blockData hash <;> simp

/-! ## A sample context -/

/-- A coinbase transaction with blue score 1 and the subsidy 8, for an empty
script. -/
def sampleCoinbase (outputs : List DomainTransactionOutput) : DomainTransaction :=
  ⟨0,[],outputs,0,subnetworkIDCoinbase,0,[1,0,0,0,0,0,0,0,8,0,0,0,0,0,0,0,0,0,0]⟩

/-- A multiset counts its elements and hashes to 0. The transaction hash only
recognises the coinbase transaction without outputs. -/
def sampleConsensus (blockData : DomainHash → Option BlockData) : Consensus Int where
  genesisHash := 0
  blockVersion := 1
  coinbaseParams := ⟨8,8,150,100,[20],⟨[],0⟩⟩
  blockData := blockData
  transactionID _ := 0
  transactionID_unpopulated _ := rfl
  transactionHash tx := if tx.unpopulated = sampleCoinbase [] then 1 else 0
  calculateIDMerkleRoot _ := 0
  element _ _ := 1
  multisetHash _ := 0
  validateTransactionInContextAndPopulateFee _ _ _ := .ok 0

/-- A block with one coinbase transaction on top of another block. -/
def sampleBlockData (selectedParent : DomainHash) (daaScore : UInt64)
    (outputs : List DomainTransactionOutput) : BlockData where
  block := ⟨{ headerOn [selectedParent] with daaScore := daaScore },[sampleCoinbase outputs],""⟩
  ghostdagData := ⟨1,2,some selectedParent,[selectedParent],[],
    (∅ : FinMap DomainHash UInt8).insert selectedParent 0⟩
  daaScore := 0
  daaAddedBlocks := []

def sampleGenesisData : BlockData where
  block := ⟨headerOn [],[sampleCoinbase []],""⟩
  ghostdagData := ⟨0,0,none,[],[],∅⟩
  daaScore := 0
  daaAddedBlocks := []

end Eiyaro
