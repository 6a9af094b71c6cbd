import Eiyaro.Address.Bech32

/-!
# Addresses

`util/address.go`. The five types of addresses differ in the byte that stands for the type and in
the length of their payload, which is a public key or a hash.
-/

namespace Eiyaro
open Bech32

/-! ## Networks -/

inductive Bech32Prefix
  | unknown
  | eiyaro
  | eiyaroDev
  | eiyaroTest
  | eiyaroSim
deriving DecidableEq

def stringsToBech32Prefixes : List (Bytes × Bech32Prefix) :=
  [(asciiBytes "eiyaro", .eiyaro),(asciiBytes "eydev", .eiyaroDev),
    (asciiBytes "eiyarotest", .eiyaroTest),(asciiBytes "eiyarosim", .eiyaroSim)]

def parsePrefix (prefixString : Bytes) : Except Failure Bech32Prefix :=
  match stringsToBech32Prefixes.lookup prefixString with
  | some networkPrefix => .ok networkPrefix
  | none => .error (.error ("could not parse prefix " ++ textOf prefixString))

/-- `Bech32Prefix.String`. -/
def Bech32Prefix.string (networkPrefix : Bech32Prefix) : Bytes :=
  match stringsToBech32Prefixes.find? (·.2 = networkPrefix) with
  | some (prefixString, _) => prefixString
  | none => []

/-! ## Addresses -/

inductive AddressType
  | publicKey
  | publicKeyECDSA
  | publicKeyHash
  | publicKeyHashECDSA
  | scriptHash
deriving DecidableEq

def pubKeyAddrID : UInt8 := 0x00

def pubKeyECDSAAddrID : UInt8 := 0x01

def pubKeyHashAddrID : UInt8 := 0x02

def pubKeyHashECDSAAddrID : UInt8 := 0x03

def scriptHashAddrID : UInt8 := 0x08

def publicKeySize : Nat := 32

def publicKeySizeECDSA : Nat := 33

/-- `blake2b.Size256`. -/
def hashSize : Nat := 32

namespace AddressType

/-- The version byte. -/
def addrID : AddressType → UInt8
  | publicKey => pubKeyAddrID
  | publicKeyECDSA => pubKeyECDSAAddrID
  | publicKeyHash => pubKeyHashAddrID
  | publicKeyHashECDSA => pubKeyHashECDSAAddrID
  | scriptHash => scriptHashAddrID

/-- The length of the payload. -/
def size : AddressType → Nat
  | publicKey => publicKeySize
  | publicKeyECDSA => publicKeySizeECDSA
  | publicKeyHash => hashSize
  | publicKeyHashECDSA => hashSize
  | scriptHash => hashSize

/-- The payload in an error. -/
def payloadName : AddressType → String
  | publicKey => "publicKey"
  | publicKeyECDSA => "publicKey"
  | publicKeyHash => "pubKeyHash"
  | publicKeyHashECDSA => "pubKeyHash"
  | scriptHash => "scriptHash"

end AddressType

/-- An address of one of the types, with a payload of the length of the type. -/
structure Address where
  type : AddressType
  networkPrefix : Bech32Prefix
  payload : Bytes
  length : payload.length = type.size
deriving DecidableEq

/-- The constructor of a type, which checks the length of the payload. -/
def newAddress (type : AddressType) (networkPrefix : Bech32Prefix) (payload : Bytes) :
    Except Failure Address :=
  if h : payload.length = type.size then
    .ok ⟨type,networkPrefix,payload,h⟩
  else
    .error (.error (type.payloadName ++ " must be " ++ toString type.size ++ " bytes"))

def newAddressPubKey : Bech32Prefix → Bytes → Except Failure Address :=
  newAddress .publicKey

def newAddressPubKeyECDSA : Bech32Prefix → Bytes → Except Failure Address :=
  newAddress .publicKeyECDSA

def newAddressPubKeyHashFromHash : Bech32Prefix → Bytes → Except Failure Address :=
  newAddress .publicKeyHash

def newAddressPubKeyHashECDSAFromHash : Bech32Prefix → Bytes → Except Failure Address :=
  newAddress .publicKeyHashECDSA

def newAddressScriptHashFromHash : Bech32Prefix → Bytes → Except Failure Address :=
  newAddress .scriptHash

/-- `EncodeAddress` of all types. -/
def Address.encodeAddress (a : Address) : Bytes :=
  encodeVersioned a.networkPrefix.string a.payload a.type.addrID

/-- Puts a text before the message of an error. -/
def wrapError {α : Type} (text : String) (x : Except Failure α) : Except Failure α :=
  match x with
  | .error (.error message) => .error (.error (text ++ message))
  | x => x

def decodeAddress (addr : Bytes) (expectedPrefix : Bech32Prefix) : Except Failure Address := do
  let (prefixString, decoded, version) ←
    wrapError "decoded address is of unknown format: " (decodeVersioned addr)
  let networkPrefix ←
    wrapError "decoded address's prefix could not be parsed: " (parsePrefix prefixString)
  if expectedPrefix ≠ .unknown ∧ expectedPrefix ≠ networkPrefix then
    .error (.error ("decoded address is of wrong network. Expected " ++
      textOf expectedPrefix.string ++ " but got " ++ textOf networkPrefix.string))
  else if version = pubKeyAddrID then newAddressPubKey networkPrefix decoded
  else if version = pubKeyECDSAAddrID then newAddressPubKeyECDSA networkPrefix decoded
  else if version = pubKeyHashAddrID then newAddressPubKeyHashFromHash networkPrefix decoded
  else if version = pubKeyHashECDSAAddrID then
    newAddressPubKeyHashECDSAFromHash networkPrefix decoded
  else if version = scriptHashAddrID then newAddressScriptHashFromHash networkPrefix decoded
  else .error (.error "unknown address type")

/-! ## Decoding an encoded address -/

lemma newAddress_payload (a : Address) : newAddress a.type a.networkPrefix a.payload = .ok a :=
  dif_pos a.length

variable {networkPrefix : Bech32Prefix}

lemma isPrefix_string (h : networkPrefix ≠ .unknown) : IsPrefix networkPrefix.string := by
  cases networkPrefix with
  | unknown => exact absurd rfl h
  | eiyaro | eiyaroDev | eiyaroTest | eiyaroSim =>
    exact ⟨by decide +kernel,by decide +kernel,by decide +kernel⟩

lemma parsePrefix_string (h : networkPrefix ≠ .unknown) :
    parsePrefix networkPrefix.string = .ok networkPrefix := by
  cases networkPrefix with
  | unknown => exact absurd rfl h
  | eiyaro | eiyaroDev | eiyaroTest | eiyaroSim => decide +kernel

lemma decodeAddress_encodeAddress {a : Address} (h : a.networkPrefix ≠ .unknown)
    {expectedPrefix : Bech32Prefix}
    (he : expectedPrefix = .unknown ∨ expectedPrefix = a.networkPrefix) :
    decodeAddress a.encodeAddress expectedPrefix = .ok a := by
  have hn : ¬(expectedPrefix ≠ .unknown ∧ expectedPrefix ≠ a.networkPrefix) := by
    obtain rfl | rfl := he <;> simp
  rw [decodeAddress,Address.encodeAddress,
    decodeVersioned_encodeVersioned (isPrefix_string h) a.payload a.type.addrID]
  simp only [wrapError,ok_bind,parsePrefix_string h]
  rw [if_neg hn]
  have hp := newAddress_payload a
  -- the version bytes of the types differ
  cases ht : a.type <;> rw [ht] at hp <;> exact hp

/-! ## Failures -/

lemma noPanic_newAddress (type : AddressType) (networkPrefix : Bech32Prefix) (payload : Bytes) :
    NoPanic (newAddress type networkPrefix payload) := by
  unfold newAddress
  split
  · exact .ok _
  · exact .error _

lemma NoPanic.wrapError {α : Type} {x : Except Failure α} (h : NoPanic x) (text : String) :
    NoPanic (wrapError text x) := by
  unfold Eiyaro.wrapError
  split
  · exact .error _
  · exact h

lemma noPanic_decodeAddress {addr : Bytes} (h : NoPanic (decodeVersioned addr))
    (expectedPrefix : Bech32Prefix) : NoPanic (decodeAddress addr expectedPrefix) := by
  refine (h.wrapError _).bind fun ⟨prefixString,_,_⟩ => ?_
  have hp : NoPanic (parsePrefix prefixString) := by
    unfold parsePrefix
    split
    · exact .ok _
    · exact .error _
  refine (hp.wrapError _).bind fun _ => ?_
  split
  · exact .error _
  split
  · exact noPanic_newAddress _ _ _
  split
  · exact noPanic_newAddress _ _ _
  split
  · exact noPanic_newAddress _ _ _
  split
  · exact noPanic_newAddress _ _ _
  split
  · exact noPanic_newAddress _ _ _
  · exact .error _

/-- `Decode` and `DecodeAddress` do not panic exactly if a string with a right checksum has at least
two symbols of data. -/
theorem decodeAddress_total (encoded : Bytes) :
    (NoPanic (decodeVersioned encoded) ∧
      ∀ expectedPrefix, NoPanic (decodeAddress encoded expectedPrefix)) ↔
    ∀ prefixString data, decode encoded = .ok (prefixString, data) → 2 ≤ data.length := by
  rw [← noPanic_decodeVersioned_iff encoded]
  exact ⟨And.left,fun hd => ⟨hd,noPanic_decodeAddress hd⟩⟩

theorem decodeAddress_total_short :
    NoPanic (decodeVersioned (asciiBytes "a:qqeq69uvrh")) ∧
      ∀ expectedPrefix, NoPanic (decodeAddress (asciiBytes "a:qqeq69uvrh") expectedPrefix) := by
  refine (decodeAddress_total _).2 fun _ _ h => ?_
  cases h
  decide

/-- The prefix of the main network and the checksum of no data. -/
theorem decodeAddress_panics :
    decodeVersioned (asciiBytes "eiyaro:yq4khrax") = .error (.panic "index out of range") ∧
      decodeAddress (asciiBytes "eiyaro:yq4khrax") .eiyaro =
        .error (.panic "index out of range") := by
  decide +kernel

end Eiyaro
