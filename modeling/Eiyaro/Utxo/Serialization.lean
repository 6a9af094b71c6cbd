import Eiyaro.Model.Failure
import Eiyaro.Model.Outpoint
import Eiyaro.Util.LittleEndian

/-!
# The bytes of a UTXO

`utxo/serialization.go`, with the elements of `serialization/common.go` that it writes and
reads. Writing to a buffer cannot fail, and the state of a reader is what is left to read.
-/

namespace Eiyaro.UTXOEntry
open List

def serializeOutpoint (outpoint : DomainOutpoint) : Bytes :=
  (putLittleEndian 32 outpoint.transactionID.val).reverse ++ putLittleEndian 4 outpoint.index.toNat

def serializeUTXOEntry (entry : UTXOEntry) : Bytes :=
  putLittleEndian 8 entry.blockDAAScore.toNat ++ (putLittleEndian 8 entry.amount.toNat ++
    (putLittleEndian 1 entry.isCoinbase.toNat ++
      (putLittleEndian 2 entry.scriptPublicKey.version.toNat ++
        (putLittleEndian 8 entry.scriptPublicKey.script.length ++ entry.scriptPublicKey.script))))

def serializeUTXO (entry : UTXOEntry) (outpoint : DomainOutpoint) : Bytes :=
  serializeOutpoint outpoint ++ serializeUTXOEntry entry

abbrev Reader := StateT Bytes (Except Failure)

/-- `io.ReadFull` into a buffer of the given length. -/
def readFull (length : Nat) : Reader Bytes := fun bytes =>
  if length ≤ bytes.length then .ok (bytes.take length, bytes.drop length)
  else .error (.error (if bytes = [] then "EOF" else "unexpected EOF"))

def readUint (width : Nat) : Reader Nat := do
  return littleEndian (← readFull width)

def readBool : Reader Bool := do
  match ← readUint 1 with
  | 0 => return false
  | 1 => return true
  | _ =>
    throw (.error
      "in order to keep serialization canonical, true has to always be 0x01: errMalformed")

/-- The buffer is made before it is known whether there are as many bytes. -/
def makeAndReadFull (length : Nat) : Reader Bytes :=
  if 2^63 ≤ length then throw (.panic "makeslice: len out of range") else readFull length

def deserializeOutpoint : Reader DomainOutpoint := do
  let transactionID ← readFull 32
  return ⟨.ofNat _ (littleEndian transactionID.reverse),.ofNat (← readUint 4)⟩

def deserializeUTXOEntry : Reader UTXOEntry := do
  let blockDAAScore ← readUint 8
  let amount ← readUint 8
  let isCoinbase ← readBool
  let version ← readUint 2
  let scriptPubKeyLen ← readUint 8
  let script ← makeAndReadFull scriptPubKeyLen
  return ⟨.ofNat amount,⟨script,.ofNat version⟩,isCoinbase,.ofNat blockDAAScore⟩

/-- Bytes after the entry are not looked at. -/
def deserializeUTXO (utxoBytes : Bytes) : Except Failure (UTXOEntry × DomainOutpoint) :=
  do
    let (outpoint, bytes) ← deserializeOutpoint utxoBytes
    let (entry, _) ← deserializeUTXOEntry bytes
    return (entry, outpoint)

/-- The reader takes exactly these bytes for the value, whatever follows them. -/
def Reads (reader : Reader α) (value : α) (bytes : Bytes) : Prop :=
  ∀ rest, reader (bytes ++ rest) = .ok (value, rest)

namespace Reads
variable {reader : Reader α} {bytes bytes' : Bytes} {width n : Nat}

lemma bind {next : α → Reader β} (h : Reads reader a bytes) (hn : Reads (next a) b bytes') :
    Reads (reader >>= next) b (bytes ++ bytes') := by
  intro _
  show (reader _ >>= fun p => next p.1 p.2) = _
  rw [append_assoc,h,ok_bind,hn]

lemma bind_pure {f : α → β} (h : Reads reader a bytes) (hf : f a = b) :
    Reads (reader >>= fun a => pure (f a)) b bytes := by
  rw [← append_nil bytes,← hf]
  exact h.bind fun _ => rfl

lemma readFull (h : bytes.length = n) : Reads (readFull n) bytes bytes := by
  intro _
  simp [UTXOEntry.readFull,← h]

lemma readUint (h : n < 256^width) : Reads (readUint width) n (putLittleEndian width n) :=
  (readFull (length_putLittleEndian width n)).bind_pure (littleEndian_putLittleEndian_of_lt h)

lemma readBool (b : Bool) : Reads readBool b (putLittleEndian 1 b.toNat) := by
  cases b <;> exact fun _ => rfl

lemma makeAndReadFull (h : bytes.length < 2^63) :
    Reads (makeAndReadFull bytes.length) bytes bytes := by
  rw [UTXOEntry.makeAndReadFull,if_neg (by omega)]
  exact readFull rfl

lemma deserializeOutpoint (outpoint : DomainOutpoint) :
    Reads deserializeOutpoint outpoint (serializeOutpoint outpoint) := by
  obtain ⟨id,index⟩ := outpoint
  refine (readFull (by simp)).bind ((readUint index.toNat_lt).bind_pure ?_)
  rw [reverse_reverse,littleEndian_putLittleEndian_of_lt id.isLt]
  simp

lemma deserializeUTXOEntry (entry : UTXOEntry) (h : entry.scriptPublicKey.script.length < 2^63) :
    Reads deserializeUTXOEntry entry (serializeUTXOEntry entry) := by
  obtain ⟨amount,⟨script,version⟩,isCoinbase,blockDAAScore⟩ := entry
  refine (readUint blockDAAScore.toNat_lt).bind ((readUint amount.toNat_lt).bind
    ((readBool isCoinbase).bind ((readUint version.toNat_lt).bind ((readUint ?_).bind
      ((makeAndReadFull h).bind_pure ?_)))))
  · exact h.trans (by decide)
  · simp

end Reads

lemma deserializeUTXO_of_serializeUTXO (entry : UTXOEntry) (outpoint : DomainOutpoint)
    (h : entry.scriptPublicKey.script.length < 2^63) :
    deserializeUTXO (serializeUTXO entry outpoint) = .ok (entry, outpoint) := by
  have he := Reads.deserializeUTXOEntry entry h []
  rw [append_nil] at he
  rw [deserializeUTXO,serializeUTXO,Reads.deserializeOutpoint,ok_bind]
  dsimp only
  rw [he]
  rfl

/-- What is read back is what was serialized, so that two pairs never have the same bytes. The
length of a script is an `int`. -/
theorem serializeUTXO_roundTrip (entry entry' : UTXOEntry) (outpoint outpoint' : DomainOutpoint)
    (h : entry.scriptPublicKey.script.length < 2^63)
    (h' : entry'.scriptPublicKey.script.length < 2^63) :
    deserializeUTXO (serializeUTXO entry outpoint) = .ok (entry, outpoint) ∧
      ((entry, outpoint) ≠ (entry', outpoint') →
        serializeUTXO entry outpoint ≠ serializeUTXO entry' outpoint') := by
  have hrd := deserializeUTXO_of_serializeUTXO entry outpoint h
  refine ⟨hrd,fun hne heq => hne ?_⟩
  rw [heq,deserializeUTXO_of_serializeUTXO entry' outpoint' h'] at hrd
  exact (Except.ok.inj hrd).symm

theorem serializeUTXO_roundTrip_sample :
    deserializeUTXO (serializeUTXO ⟨5,⟨[1,2],3⟩,true,7⟩ ⟨9,1⟩) = .ok (⟨5,⟨[1,2],3⟩,true,7⟩, ⟨9,1⟩) ∧
      serializeUTXO ⟨5,⟨[1,2],3⟩,true,7⟩ ⟨9,1⟩ ≠ serializeUTXO ⟨5,⟨[1],3⟩,true,7⟩ ⟨9,1⟩ :=
  (serializeUTXO_roundTrip ⟨5,⟨[1,2],3⟩,true,7⟩ ⟨5,⟨[1],3⟩,true,7⟩ ⟨9,1⟩ ⟨9,1⟩
    (by decide) (by decide)).imp_right fun h => h (by decide)

end Eiyaro.UTXOEntry
