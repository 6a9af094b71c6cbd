import Eiyaro.Model.Block
import Eiyaro.Util.Delimited

/-!
# The strings hashed for a transaction

`consensushashing/transaction.go` and the writers of `serialization/common.go` and
`binaryserializer`. A writer only appends, so a function that writes is modelled by the bytes
that it writes. The hash functions behind the writers are arbitrary.

The full encoding determines a transaction (`delimited_serializeTransaction`). The encoding for
the identifier of a transaction depends on whether it is a coinbase transaction, and the encoding
does not start with that, so a coinbase transaction with inputs can be read as another one.
-/

namespace Eiyaro
open DomainTransaction

/-! ## Writers -/

def putUint16 (n : UInt16) : List UInt8 := putLittleEndian 2 n.toNat

def putUint32 (n : UInt32) : List UInt8 := putLittleEndian 4 n.toNat

def putUint64 (n : UInt64) : List UInt8 := putLittleEndian 8 n.toNat

/-- `DomainHash.ByteSlice`. -/
def hashByteSlice (hash : DomainHash) : List UInt8 := (putLittleEndian 32 hash.val).reverse

def subnetworkIDBytes (id : DomainSubnetworkID) : List UInt8 := (putLittleEndian 20 id.val).reverse

def writeVarBytes (data : List UInt8) : List UInt8 := putUint64 (UInt64.ofNat data.length) ++ data

/-! ## Transactions -/

inductive TxEncoding
  | full
  | excludeSignatureScript
deriving DecidableEq

def writeOutpoint (outpoint : DomainOutpoint) : List UInt8 :=
  hashByteSlice outpoint.transactionID ++ putUint32 outpoint.index

def writeTransactionInput (encodingFlags : TxEncoding) (ti : DomainTransactionInput) : List UInt8 :=
  writeOutpoint ti.previousOutpoint ++
    (match encodingFlags with
      | .full => writeVarBytes ti.signatureScript ++ [ti.sigOpCount]
      | .excludeSignatureScript => writeVarBytes []) ++
    putUint64 ti.sequence

def writeTxOut (output : DomainTransactionOutput) : List UInt8 :=
  putUint64 output.value ++ putUint16 output.scriptPublicKey.version ++
    writeVarBytes output.scriptPublicKey.script

variable (tx : DomainTransaction)

def serializeTransaction (encodingFlags : TxEncoding) : List UInt8 :=
  putUint16 tx.version ++
    (putUint64 (UInt64.ofNat tx.inputs.length) ++
      tx.inputs.flatMap (writeTransactionInput encodingFlags)) ++
    (putUint64 (UInt64.ofNat tx.outputs.length) ++ tx.outputs.flatMap writeTxOut) ++
    putUint64 tx.lockTime ++
    subnetworkIDBytes tx.subnetworkID ++
    putUint64 tx.gas ++
    writeVarBytes tx.payload

variable (hash : List UInt8 → DomainHash)

def transactionHash (tx : DomainTransaction) : DomainHash :=
  hash (serializeTransaction tx .full)

/-- The flags that `TransactionID` serializes a transaction with. -/
def transactionIDEncoding : TxEncoding :=
  if isCoinBase tx then .full else .excludeSignatureScript

def transactionID (tx : DomainTransaction) : DomainTransactionID :=
  hash (serializeTransaction tx (transactionIDEncoding tx))

/-! ## What an encoding keeps -/

/-- The lengths of slices are of the type `int`. -/
structure DomainTransaction.IsRepresentable : Prop where
  inputs : tx.inputs.length < 2^63
  signatureScripts : ∀ input ∈ tx.inputs, input.signatureScript.length < 2^63
  entries : ∀ input ∈ tx.inputs, ∀ entry ∈ input.utxoEntry,
    entry.scriptPublicKey.script.length < 2^63
  outputs : tx.outputs.length < 2^63
  scripts : ∀ output ∈ tx.outputs, output.scriptPublicKey.script.length < 2^63
  payload : tx.payload.length < 2^63

/-- An input without the entry that was looked up for it and, if the encoding leaves them out,
without its signature script and its count of signature operations. -/
def DomainTransactionInput.encoded (encodingFlags : TxEncoding) (input : DomainTransactionInput) :
    DomainTransactionInput :=
  match encodingFlags with
  | .full => { input with utxoEntry := none }
  | .excludeSignatureScript =>
    { input with signatureScript := [], sigOpCount := 0, utxoEntry := none }

/-- All that an encoding has of a transaction. -/
def DomainTransaction.encoded (encodingFlags : TxEncoding) (tx : DomainTransaction) :
    DomainTransaction :=
  { tx with inputs := tx.inputs.map (·.encoded encodingFlags) }

/-! ## The parts are delimited -/

lemma putUint64_ofNat (n : Nat) : putUint64 (UInt64.ofNat n) = putLittleEndian 8 n := by
  exact putLittleEndian_mod 8 n

lemma delimited_putUint16 : Delimited (fun _ => True) putUint16 id :=
  ((delimited_putLittleEndian 2).comap UInt16.toNat).mono (fun n _ => n.toNat_lt)
    fun _ _ h => UInt16.toNat_inj.1 h

lemma delimited_putUint32 : Delimited (fun _ => True) putUint32 id :=
  ((delimited_putLittleEndian 4).comap UInt32.toNat).mono (fun n _ => n.toNat_lt)
    fun _ _ h => UInt32.toNat_inj.1 h

lemma delimited_putUint64 : Delimited (fun _ => True) putUint64 id :=
  ((delimited_putLittleEndian 8).comap UInt64.toNat).mono (fun n _ => n.toNat_lt)
    fun _ _ h => UInt64.toNat_inj.1 h

lemma length_hashByteSlice (hash : DomainHash) : (hashByteSlice hash).length = 32 := by
  simp [hashByteSlice]

lemma hashByteSlice_injective : Function.Injective hashByteSlice := by
  intro a b h
  exact Fin.ext (putLittleEndian_injective a.isLt b.isLt (List.reverse_injective h))

lemma delimited_hashByteSlice : Delimited (fun _ => True) hashByteSlice id :=
  .of_length 32 (fun a _ => length_hashByteSlice a) fun _ _ _ _ h => hashByteSlice_injective h

lemma delimited_subnetworkIDBytes : Delimited (fun _ => True) subnetworkIDBytes id := by
  refine .of_length 20 (fun a _ => by simp [subnetworkIDBytes]) fun a b _ _ h => ?_
  exact Fin.ext (putLittleEndian_injective a.isLt b.isLt (List.reverse_injective h))

lemma delimited_byte : Delimited (fun _ => True) (fun byte : UInt8 => [byte]) id :=
  .of_length 1 (fun _ _ => rfl) fun _ _ _ _ h => List.singleton_inj.1 h

lemma writeVarBytes_eq (data : List UInt8) :
    writeVarBytes data = putLittleEndian 8 data.length ++ data.flatMap (fun byte => [byte]) := by
  rw [writeVarBytes,putUint64_ofNat,List.flatMap_singleton']

lemma delimited_writeVarBytes : Delimited (fun data => data.length < 2^63) writeVarBytes id := by
  rw [show writeVarBytes = _ from funext writeVarBytes_eq]
  refine (delimited_byte.counted 8).mono (fun data hd => ⟨?_,by simp⟩) fun _ _ h => ?_
  · exact Nat.lt_trans hd (by decide)
  · simpa using h

lemma delimited_writeOutpoint : Delimited (fun _ => True) writeOutpoint id := by
  refine ((delimited_hashByteSlice.comap DomainOutpoint.transactionID).append
    (delimited_putUint32.comap DomainOutpoint.index)).mono (fun _ _ => ⟨trivial,trivial⟩) ?_
  rintro ⟨id,index⟩ ⟨_,_⟩ h
  simpa using h

lemma delimited_writeTxOut :
    Delimited (fun output => output.scriptPublicKey.script.length < 2^63) writeTxOut id := by
  have hv := delimited_putUint64.comap DomainTransactionOutput.value
  have hp := delimited_putUint16.comap fun output : DomainTransactionOutput =>
    output.scriptPublicKey.version
  have hs := delimited_writeVarBytes.comap fun output : DomainTransactionOutput =>
    output.scriptPublicKey.script
  refine ((hv.append hp).append hs).mono (fun _ h => ⟨⟨trivial,trivial⟩,h⟩) ?_
  rintro ⟨value,script,version⟩ ⟨_,_,_⟩ h
  simp only [id_eq,Prod.mk.injEq] at h
  obtain ⟨⟨rfl,rfl⟩,rfl⟩ := h
  rfl

lemma delimited_writeTransactionInput (encodingFlags : TxEncoding) :
    Delimited (fun input => input.signatureScript.length < 2^63)
      (writeTransactionInput encodingFlags)
      (DomainTransactionInput.encoded encodingFlags) := by
  have hop := delimited_writeOutpoint.comap DomainTransactionInput.previousOutpoint
  have hs := delimited_putUint64.comap DomainTransactionInput.sequence
  cases encodingFlags with
  | full =>
    refine ((hop.append
      ((delimited_writeVarBytes.comap DomainTransactionInput.signatureScript).append
        (delimited_byte.comap DomainTransactionInput.sigOpCount))).append hs).mono
      (fun _ h => ⟨⟨trivial,h,trivial⟩,trivial⟩) ?_
    rintro ⟨o,script,sequence,count,entry⟩ ⟨o',script',sequence',count',entry'⟩ h
    obtain ⟨⟨rfl,rfl,rfl⟩,rfl⟩ := h
    rfl
  | excludeSignatureScript =>
    have he : Delimited (fun _ => True) (fun _ : DomainTransactionInput => writeVarBytes [])
        (fun _ => ()) := .of_length 8 (fun _ _ => rfl) fun _ _ _ _ _ => rfl
    refine ((hop.append he).append hs).mono (fun _ _ => ⟨⟨trivial,trivial⟩,trivial⟩) ?_
    rintro ⟨o,script,sequence,count,entry⟩ ⟨o',script',sequence',count',entry'⟩ h
    obtain ⟨rfl,rfl⟩ := h
    rfl

lemma delimited_serializeTransaction (encodingFlags : TxEncoding) :
    Delimited DomainTransaction.IsRepresentable (serializeTransaction · encodingFlags)
      (encoded encodingFlags) := by
  have hlt : ∀ {n : Nat}, n < 2^63 → n < 256^8 := fun h => Nat.lt_trans h (by decide)
  simp only [serializeTransaction,putUint64_ofNat]
  refine (((((((delimited_putUint16.comap version).append
    (((delimited_writeTransactionInput encodingFlags).counted 8).comap inputs)).append
    ((delimited_writeTxOut.counted 8).comap outputs)).append
    (delimited_putUint64.comap lockTime)).append
    (delimited_subnetworkIDBytes.comap subnetworkID)).append
    (delimited_putUint64.comap gas)).append
    (delimited_writeVarBytes.comap payload)).mono (fun _ h => ?_) ?_
  · exact ⟨⟨⟨⟨⟨⟨trivial,hlt h.inputs,h.signatureScripts⟩,hlt h.outputs,h.scripts⟩,trivial⟩,
      trivial⟩,trivial⟩,h.payload⟩
  · rintro ⟨version,inputs,outputs,lockTime,subnetworkID,gas,payload⟩
      ⟨version',inputs',outputs',lockTime',subnetworkID',gas',payload'⟩ h
    simp only [id_eq,List.map_id,Prod.mk.injEq] at h
    obtain ⟨⟨⟨⟨⟨⟨rfl,hi⟩,rfl⟩,rfl⟩,rfl⟩,rfl⟩,rfl⟩ := h
    simp [encoded,hi]

/-! ## Identifiers -/

lemma encoded_subnetworkID (encodingFlags : TxEncoding) (tx : DomainTransaction) :
    (tx.encoded encodingFlags).subnetworkID = tx.subnetworkID :=
  rfl

variable {t u : DomainTransaction}

lemma transactionIDEncoding_eq_of_subnetworkID_eq (h : t.subnetworkID = u.subnetworkID) :
    transactionIDEncoding t = transactionIDEncoding u := by
  rw [transactionIDEncoding,transactionIDEncoding,isCoinBase,isCoinBase,h]

/-- If no coinbase transaction has inputs, then the string for the identifier tells whether the
transaction is a coinbase transaction. -/
lemma transactionIDEncoding_eq (ht : t.IsRepresentable)
    (hu : u.IsRepresentable) (htc : isCoinBase t → t.inputs = [])
    (huc : isCoinBase u → u.inputs = []) (heq : serializeTransaction t (transactionIDEncoding t) =
      serializeTransaction u (transactionIDEncoding u)) :
    transactionIDEncoding t = transactionIDEncoding u := by
  -- both strings are also those without signature scripts
  have he : ∀ w : DomainTransaction, (isCoinBase w → w.inputs = []) →
      serializeTransaction w (transactionIDEncoding w) =
        serializeTransaction w .excludeSignatureScript := by
    intro w hw
    by_cases hcb : isCoinBase w
    · simp [serializeTransaction,hw hcb]
    · rw [transactionIDEncoding,if_neg hcb]
  rw [he t htc,he u huc] at heq
  have hen := (delimited_serializeTransaction .excludeSignatureScript).view_eq ht hu heq
  have hs := congrArg subnetworkID hen
  exact transactionIDEncoding_eq_of_subnetworkID_eq hs

/-- The string for `TransactionHash` determines the transaction. The string for `TransactionID`
determines it up to the signature scripts and counts of signature operations of transactions
other than coinbase transactions, for two transactions of one kind and if coinbase
transactions have no inputs. -/
theorem serializeTransaction_determines (t u : DomainTransaction) (ht : t.IsRepresentable)
    (hu : u.IsRepresentable) :
    (serializeTransaction t .full = serializeTransaction u .full →
      t.encoded .full = u.encoded .full) ∧
    ((isCoinBase t = isCoinBase u ∨
        (isCoinBase t → t.inputs = []) ∧ (isCoinBase u → u.inputs = [])) →
      serializeTransaction t (transactionIDEncoding t) =
        serializeTransaction u (transactionIDEncoding u) →
      isCoinBase t = isCoinBase u ∧
        t.encoded (transactionIDEncoding t) = u.encoded (transactionIDEncoding u)) := by
  refine ⟨(delimited_serializeTransaction .full).view_eq ht hu,fun hk heq => ?_⟩
  have hf : transactionIDEncoding t = transactionIDEncoding u := by
    obtain hsm | ⟨htc,huc⟩ := hk
    · rw [transactionIDEncoding,transactionIDEncoding,hsm]
    · exact transactionIDEncoding_eq ht hu htc huc heq
  rw [hf] at heq
  have he := (delimited_serializeTransaction _).view_eq ht hu heq
  have hs := congrArg subnetworkID he
  simp only [encoded_subnetworkID] at hs
  exact ⟨by rw [isCoinBase,isCoinBase,hs],by rw [hf,he]⟩

/-- A transaction that spends one outpoint without outputs. -/
private def spending (script : List UInt8) (subnetworkID : DomainSubnetworkID) (gas : UInt64)
    (payload : List UInt8) : DomainTransaction :=
  ⟨0,[⟨⟨7,0⟩,script,0,0,none⟩],[],0,subnetworkID,gas,payload⟩

private lemma spending_isRepresentable (script : List UInt8) (subnetworkID : DomainSubnetworkID)
    (gas : UInt64) (payload : List UInt8) (hs : script.length < 2^63) (hp : payload.length < 2^63) :
    (spending script subnetworkID gas payload).IsRepresentable := by
  constructor <;> simp [spending] <;> assumption

/-- Two transactions with different signature scripts. -/
theorem serializeTransaction_determines_signed :
    (spending [1,2] 0 0 []).encoded .excludeSignatureScript =
      (spending [] 0 0 []).encoded .excludeSignatureScript := by
  have h := (serializeTransaction_determines _ (spending [] 0 0 [])
    (spending_isRepresentable _ _ _ _ (by decide) (by decide))
    (spending_isRepresentable _ _ _ _ (by decide) (by decide))).2 (.inl rfl)
    (by decide)
  exact h.2

/-- The byte for the signature operations of the input of a coinbase transaction shifts all that
follows by one. The gas of the coinbase transaction below is read as the length of a payload. -/
theorem transactionID_string_ambiguous :
    ∃ t u : DomainTransaction, t.IsRepresentable ∧ u.IsRepresentable ∧
      serializeTransaction t (transactionIDEncoding t) =
        serializeTransaction u (transactionIDEncoding u) ∧
      isCoinBase t = true ∧ isCoinBase u = false ∧
      t.gas ≠ u.gas ∧ t.subnetworkID ≠ u.subnetworkID ∧ t.payload ≠ u.payload := by
  refine ⟨spending [] subnetworkIDCoinbase (2^56) [],spending [] ⟨2^144,by decide⟩ 0 [0],
    spending_isRepresentable _ _ _ _ (by decide) (by decide),
    spending_isRepresentable _ _ _ _ (by decide) (by decide),?_⟩
  decide +kernel

end Eiyaro
