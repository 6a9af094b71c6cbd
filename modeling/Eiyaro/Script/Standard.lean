import Eiyaro.Address.Encoding
import Eiyaro.Script.Engine
import Eiyaro.Script.Parse

/-!
# Scripts that pay to an address

`scriptbuilder.go` and `standard.go`. A script is built from opcodes and pushes of data and is
recognised by the opcodes that it parses to. Of the parameters of the network only the prefix is
read. Addresses are not `nil` and of one of the five types.

Opcodes of the table with data of the right length are parsed from their bytes
(`parseScript_flatMap_bytes`), so a built script parses to what it was built from.
-/

namespace Eiyaro.TxScript
open List

def opDup : UInt8 := 0x76

def opEqualVerify : UInt8 := 0x88

def opData1 : UInt8 := 0x01

def opData33 : UInt8 := 0x21

/-! ## Building scripts -/

structure ScriptBuilder where
  script : List UInt8
  err : Option String

def newScriptBuilder : ScriptBuilder := ⟨[],none⟩

namespace ScriptBuilder
variable (b : ScriptBuilder)

/-- `AddOp`. -/
def addOp (opcode : UInt8) : ScriptBuilder :=
  if b.err.isSome then
    b
  else if b.script.length+1 > maxScriptSize then
    { b with err := some ("adding an opcode would exceed the maximum allowed canonical script " ++
      "length of " ++ toString maxScriptSize) }
  else
    { b with script := b.script ++ [opcode] }

/-- `canonicalDataSize`. -/
def canonicalDataSize (data : List UInt8) : Nat :=
  let dataLen := data.length
  let push :=
    if dataLen < opPushData1.toNat then 1+dataLen
    else if dataLen ≤ 0xff then 2+dataLen
    else if dataLen ≤ 0xffff then 3+dataLen
    else 5+dataLen
  match data with
  | [] => 1
  | [byte] => if byte ≤ 16 ∨ byte = 0x81 then 1 else push
  | _ => push

/-- The push of data that is not a small number. -/
def pushData (data : List UInt8) : ScriptBuilder :=
  let dataLen := data.length
  if dataLen < opPushData1.toNat then
    { b with script := b.script ++ [UInt8.ofNat (opData1.toNat - 1+dataLen)] ++ data }
  else if dataLen ≤ 0xff then
    { b with script := b.script ++ [opPushData1,UInt8.ofNat dataLen] ++ data }
  else if dataLen ≤ 0xffff then
    { b with script := b.script ++ [opPushData2] ++ putLittleEndian 2 dataLen ++ data }
  else if dataLen > maxScriptSize then
    { b with err := some ("data size " ++ toString dataLen ++ " is larger than max script size " ++
      toString maxScriptSize) }
  else
    { b with script := b.script ++ [opPushData4] ++ putLittleEndian 4 dataLen ++ data }

/-- `addData`. -/
def addDataUnlimited (data : List UInt8) : ScriptBuilder :=
  match data with
  | [] => { b with script := b.script ++ [op0] }
  | [byte] =>
    if byte = 0 then { b with script := b.script ++ [op0] }
    else if byte ≤ 16 then { b with script := b.script ++ [op1 - 1+byte] }
    else if byte = 0x81 then { b with script := b.script ++ [op1Negate] }
    else b.pushData data
  | _ => b.pushData data

/-- `AddData`. -/
def addData (b : ScriptBuilder) (data : List UInt8) : ScriptBuilder :=
  if b.err.isSome then
    b
  else if b.script.length+canonicalDataSize data > maxScriptSize then
    { b with err := some ("adding " ++ toString (canonicalDataSize data) ++
      " bytes of data would exceed the maximum allowed canonical script length of " ++
      toString maxScriptSize) }
  else if data.length > maxScriptElementSize then
    { b with err := some ("adding a data element of " ++ toString data.length ++
      " bytes would exceed the maximum allowed script element size of " ++
      toString maxScriptElementSize) }
  else
    b.addDataUnlimited data

/-- `Script`. -/
def build : Except ScriptFailure (List UInt8) :=
  match b.err with
  | some message => .error (.error message)
  | none => .ok b.script

end ScriptBuilder

def payToPubKeyScript (pubKey : List UInt8) : Except ScriptFailure (List UInt8) :=
  ((newScriptBuilder.addData pubKey).addOp opCheckSig).build

def payToPubKeyScriptECDSA (pubKey : List UInt8) : Except ScriptFailure (List UInt8) :=
  ((newScriptBuilder.addData pubKey).addOp opCheckSigECDSA).build

def payToPubKeyHashScript (pubKeyHash : List UInt8) : Except ScriptFailure (List UInt8) :=
  (((((newScriptBuilder.addOp opDup).addOp opBlake2b).addData pubKeyHash).addOp
    opEqualVerify).addOp opCheckSig).build

def payToPubKeyHashScriptECDSA (pubKeyHash : List UInt8) : Except ScriptFailure (List UInt8) :=
  (((((newScriptBuilder.addOp opDup).addOp opBlake2b).addData pubKeyHash).addOp
    opEqualVerify).addOp opCheckSigECDSA).build

def payToScriptHashScript (scriptHash : List UInt8) : Except ScriptFailure (List UInt8) :=
  (((newScriptBuilder.addOp opBlake2b).addData scriptHash).addOp opEqual).build

/-- All types have the script version 0. -/
def payToAddrScript (addr : Address) : Except ScriptFailure ScriptPublicKey := do
  let script ←
    match addr.type with
    | .publicKey => payToPubKeyScript addr.payload
    | .publicKeyECDSA => payToPubKeyScriptECDSA addr.payload
    | .publicKeyHash => payToPubKeyHashScript addr.payload
    | .publicKeyHashECDSA => payToPubKeyHashScriptECDSA addr.payload
    | .scriptHash => payToScriptHashScript addr.payload
  .ok ⟨script,0⟩

/-! ## Recognising scripts -/

inductive ScriptClass
  | nonStandardTy
  | pubKeyTy
  | pubKeyECDSATy
  | pubKeyHashTy
  | pubKeyHashECDSATy
  | scriptHashTy
deriving DecidableEq

variable (pops : List ParsedOpcode)

def isPayToPubkey : Bool :=
  pops.map (·.opcode.value) = [opData32,opCheckSig]

def isPayToPubkeyECDSA : Bool :=
  pops.map (·.opcode.value) = [opData33,opCheckSigECDSA]

def isPayToPubkeyHash : Bool :=
  pops.map (·.opcode.value) = [opDup,opBlake2b,opData32,opEqualVerify,opCheckSig]

def isPayToPubkeyHashECDSA : Bool :=
  pops.map (·.opcode.value) = [opDup,opBlake2b,opData32,opEqualVerify,opCheckSigECDSA]

def typeOfScript : ScriptClass :=
  if isPayToPubkey pops then .pubKeyTy
  else if isPayToPubkeyECDSA pops then .pubKeyECDSATy
  else if isPayToPubkeyHash pops then .pubKeyHashTy
  else if isPayToPubkeyHashECDSA pops then .pubKeyHashECDSATy
  else if isScriptHash pops then .scriptHashTy
  else .nonStandardTy

/-- Data of the wrong length gives a `nil` address. -/
def extractScriptPubKeyAddress (scriptPubKey : ScriptPublicKey) (networkPrefix : Bech32Prefix) :
    Except ScriptFailure (ScriptClass × Option Address) :=
  if scriptPubKey.version > maxScriptPublicKeyVersion then
    .ok (.nonStandardTy, none)
  else do
    let pops ← parseScript scriptPubKey.script
    let scriptClass := typeOfScript pops
    match scriptClass with
    | .pubKeyTy =>
      let pop ← indexAt pops 0
      .ok (scriptClass, (newAddressPubKey networkPrefix pop.data).toOption)
    | .pubKeyHashTy =>
      let pop ← indexAt pops 2
      .ok (scriptClass, (newAddressPubKeyHashFromHash networkPrefix pop.data).toOption)
    | .pubKeyHashECDSATy =>
      let pop ← indexAt pops 2
      .ok (scriptClass, (newAddressPubKeyHashECDSAFromHash networkPrefix pop.data).toOption)
    | .pubKeyECDSATy =>
      let pop ← indexAt pops 0
      .ok (scriptClass, (newAddressPubKeyECDSA networkPrefix pop.data).toOption)
    | .scriptHashTy =>
      let pop ← indexAt pops 1
      .ok (scriptClass, (newAddressScriptHashFromHash networkPrefix pop.data).toOption)
    | .nonStandardTy => .ok (.nonStandardTy, none)

/-! ## Parsing the bytes of opcodes -/

/-- The bytes of an opcode that tells the length of its data. -/
def ParsedOpcode.bytes (pop : ParsedOpcode) : List UInt8 :=
  pop.opcode.value :: pop.data

/-- An entry of the table with as much data as it tells. -/
structure ParsedOpcode.IsDirect (pop : ParsedOpcode) : Prop where
  listed : opcodeArray pop.opcode.value = pop.opcode
  length : pop.opcode.length = pop.data.length+1

lemma parseOpcode_bytes {pop : ParsedOpcode} (h : pop.IsDirect) (before after : List UInt8) :
    parseOpcode (before ++ pop.bytes ++ after) before.length pop.opcode =
      .ok (pop, before.length+pop.bytes.length) := by
  obtain ⟨op,data⟩ := pop
  have hl : op.length = data.length+1 := h.length
  simp only [ParsedOpcode.bytes,length_cons]
  unfold parseOpcode
  cases data with
  | nil =>
    rw [if_pos (by simpa using hl)]
    rfl
  | cons byte data =>
    rw [length_cons] at hl
    have ht : op.length.toNat = data.length+2 := by omega
    have htt : (before ++ op.value :: byte :: data ++ after).length =
        before.length+(data.length+2)+after.length := by
      simp only [length_append,length_cons]
    rw [if_neg (by omega),if_pos (by omega)]
    rw [sliceAt_length (by omega),ok_bind,length_drop,if_neg (by omega),
      sliceAt_eq_ok (by omega) (by omega),ht]
    -- the data is what follows the opcode
    have hd : ((before ++ op.value :: byte :: data ++ after).take
        (before.length+(data.length+2))).drop (before.length+1) = byte :: data := by
      rw [take_left' (by simp),← drop_drop,drop_left,drop_one,tail_cons]
    rw [hd]
    rfl

variable {pops : List ParsedOpcode} {b : ScriptBuilder}

lemma parseLoop_flatMap_bytes (h : ∀ pop ∈ pops, pop.IsDirect)
    {fuel : Nat} (hf : pops.length < fuel) (before : List UInt8) (retScript : List ParsedOpcode) :
    parseLoop (before ++ pops.flatMap ParsedOpcode.bytes) fuel before.length retScript =
      .ok (retScript ++ pops, none) := by
  induction pops generalizing fuel before retScript with
  | nil =>
    obtain ⟨fuel,rfl⟩ : ∃ n, fuel = n+1 := ⟨fuel - 1,by omega⟩
    rw [parseLoop]
    simp
  | cons pop pops ih =>
    rw [forall_mem_cons] at h
    obtain ⟨fuel,rfl⟩ : ∃ n, fuel = n+1 := ⟨fuel - 1,by omega⟩
    have hi : (before ++ (pop :: pops).flatMap ParsedOpcode.bytes)[before.length]? =
        some pop.opcode.value := by
      simp [ParsedOpcode.bytes]
    have hs : before ++ (pop :: pops).flatMap ParsedOpcode.bytes =
        before ++ pop.bytes ++ pops.flatMap ParsedOpcode.bytes := by
      rw [flatMap_cons,append_assoc]
    have hn := ih h.2 (by simpa using hf) (before ++ pop.bytes) (retScript ++ [pop])
    rw [length_append] at hn
    rw [parseLoop,hi]
    simp only [h.1.listed,hs,parseOpcode_bytes h.1 before]
    rw [hn,append_assoc]
    rfl

lemma parseScript_flatMap_bytes (h : ∀ pop ∈ pops, pop.IsDirect) :
    parseScript (pops.flatMap ParsedOpcode.bytes) = .ok pops := by
  have hln : pops.length ≤ (pops.flatMap ParsedOpcode.bytes).length := by
    rw [length_flatMap,← length_map]
    refine length_le_sum_of_one_le _ fun _ hn => ?_
    obtain ⟨pop,-,rfl⟩ := mem_map.1 hn
    simp [ParsedOpcode.bytes]
  have hl := parseLoop_flatMap_bytes h (Nat.lt_succ_of_le hln) [] []
  rw [parseScript,parseScriptTemplate]
  simp only [nil_append,length_nil] at hl
  rw [hl]
  rfl

/-! ## Scripts of addresses -/

/-- The opcodes of the script for a payload. -/
def opcodesFor (type : AddressType) (payload : List UInt8) : List ParsedOpcode :=
  let op (instr : UInt8) : ParsedOpcode := ⟨opcodeArray instr,[]⟩
  match type with
  | .publicKey => [⟨opcodeArray opData32,payload⟩,op opCheckSig]
  | .publicKeyECDSA => [⟨opcodeArray opData33,payload⟩,op opCheckSigECDSA]
  | .publicKeyHash => [op opDup,op opBlake2b,⟨opcodeArray opData32,payload⟩,op opEqualVerify,
      op opCheckSig]
  | .publicKeyHashECDSA => [op opDup,op opBlake2b,⟨opcodeArray opData32,payload⟩,
      op opEqualVerify,op opCheckSigECDSA]
  | .scriptHash => [op opBlake2b,⟨opcodeArray opData32,payload⟩,op opEqual]

def scriptClassOf : AddressType → ScriptClass
  | .publicKey => .pubKeyTy
  | .publicKeyECDSA => .pubKeyECDSATy
  | .publicKeyHash => .pubKeyHashTy
  | .publicKeyHashECDSA => .pubKeyHashECDSATy
  | .scriptHash => .scriptHashTy

lemma ScriptBuilder.addOp_eq (hb : b.err = none) (hl : b.script.length < 100) (opcode : UInt8) :
    b.addOp opcode = ⟨b.script ++ [opcode],none⟩ := by
  have hs : ¬b.script.length+1 > maxScriptSize := by
    rw [maxScriptSize]
    omega
  rw [addOp,if_neg (by simp [hb]),if_neg hs,hb]

/-- Data of the length of a key or a hash is pushed by an opcode of its own. -/
lemma ScriptBuilder.addData_eq (hb : b.err = none)
    (hln : b.script.length < 100) {data : List UInt8} (hs : 2 ≤ data.length)
    (hl : data.length < 76) :
    b.addData data = ⟨b.script ++ [UInt8.ofNat data.length] ++ data,none⟩ := by
  have hp : opPushData1.toNat = 76 := rfl
  have hc : canonicalDataSize data = 1+data.length := by
    match data, hs with
    | first :: second :: rest, _ =>
      show (if (first :: second :: rest).length < opPushData1.toNat then _ else _) = _
      rw [if_pos (by omega)]
  have hsz : ¬b.script.length+canonicalDataSize data > maxScriptSize := by
    rw [maxScriptSize]
    omega
  have he : ¬data.length > maxScriptElementSize := by
    rw [maxScriptElementSize]
    omega
  have hu : b.addDataUnlimited data = b.pushData data := by
    match data, hs with
    | first :: second :: rest, _ => rfl
  have ho : opData1.toNat - 1+data.length = data.length := Nat.zero_add _
  rw [addData,if_neg (by simp [hb]),if_neg hsz,if_neg he,hu,pushData,
    if_pos (by omega),ho,hb]

lemma payToAddrScript_eq (a : Address) :
    payToAddrScript a = .ok ⟨(opcodesFor a.type a.payload).flatMap ParsedOpcode.bytes,0⟩ := by
  obtain ⟨type,_,payload,hl⟩ := a
  have hsz : 2 ≤ type.size ∧ type.size ≤ 33 := by cases type <;> decide
  have hd : ∀ script : List UInt8, script.length < 3 →
      ScriptBuilder.addData ⟨script,none⟩ payload =
        ⟨script ++ [UInt8.ofNat type.size] ++ payload,none⟩ := by
    intro script hscr
    have hs : script.length < 100 := Nat.lt_trans hscr (by decide)
    rw [ScriptBuilder.addData_eq rfl hs (by omega) (by omega),hl]
  have hop : ∀ (script : List UInt8) (opcode : UInt8), script.length < 100 →
      ScriptBuilder.addOp ⟨script,none⟩ opcode = ⟨script ++ [opcode],none⟩ :=
    fun script opcode hscr => ScriptBuilder.addOp_eq rfl hscr opcode
  cases type <;>
    simp (disch := simp; try omega) only [payToAddrScript,payToPubKeyScript,
      payToPubKeyScriptECDSA,payToPubKeyHashScript,payToPubKeyHashScriptECDSA,
      payToScriptHashScript,newScriptBuilder,hd,hop,ScriptBuilder.build,ok_bind,
      Except.ok.injEq,ScriptPublicKey.mk.injEq,and_true] <;>
    simp [opcodesFor,ParsedOpcode.bytes] <;> decide

lemma isDirect_opcodesFor {type : AddressType} {payload : List UInt8}
    (h : payload.length = type.size) : ∀ pop ∈ opcodesFor type payload, pop.IsDirect := by
  have hop : ∀ instr ∈ [opCheckSig,opCheckSigECDSA,opDup,opBlake2b,opEqualVerify,opEqual],
      ParsedOpcode.IsDirect ⟨opcodeArray instr,[]⟩ := by
    intro instr hin
    simp only [mem_cons,not_mem_nil,or_false] at hin
    obtain rfl | rfl | rfl | rfl | rfl | rfl := hin <;> exact ⟨rfl,rfl⟩
  have hdt : ∀ instr ∈ [opData32,opData33], payload.length = instr.toNat →
      ParsedOpcode.IsDirect ⟨opcodeArray instr,payload⟩ := by
    intro instr hin hl
    simp only [mem_cons,not_mem_nil,or_false] at hin
    refine ⟨?_,?_⟩
    · obtain rfl | rfl := hin <;> rfl
    · rw [hl]
      obtain rfl | rfl := hin <;> rfl
  cases type <;> simp only [opcodesFor,forall_mem_cons,not_mem_nil,false_implies,
    implies_true,and_true]
  case publicKey => exact ⟨hdt _ (by simp) h,hop _ (by simp)⟩
  case publicKeyECDSA => exact ⟨hdt _ (by simp) h,hop _ (by simp)⟩
  case publicKeyHash =>
    exact ⟨hop _ (by simp),hop _ (by simp),hdt _ (by simp) h,hop _ (by simp),hop _ (by simp)⟩
  case publicKeyHashECDSA =>
    exact ⟨hop _ (by simp),hop _ (by simp),hdt _ (by simp) h,hop _ (by simp),hop _ (by simp)⟩
  case scriptHash => exact ⟨hop _ (by simp),hdt _ (by simp) h,hop _ (by simp)⟩

lemma extractScriptPubKeyAddress_opcodesFor (a : Address) :
    extractScriptPubKeyAddress ⟨(opcodesFor a.type a.payload).flatMap ParsedOpcode.bytes,0⟩
      a.networkPrefix = .ok (scriptClassOf a.type, some a) := by
  have hv : ¬(0 : UInt16) > maxScriptPublicKeyVersion := by decide
  have ha := newAddress_payload a
  rw [extractScriptPubKeyAddress]
  rw [parseScript_flatMap_bytes (isDirect_opcodesFor a.length),ok_bind]
  obtain ⟨type,networkPrefix,payload,hl⟩ := a
  have ho : (newAddress type networkPrefix payload).toOption =
      some ⟨type,networkPrefix,payload,hl⟩ := by
    rw [ha]
    rfl
  cases type <;> exact congrArg (fun _ => Except.ok _) ho

/-- An address is decoded from its text and extracted from the script that pays to it. -/
theorem address_roundTrip (a : Address) (hknown : a.networkPrefix ≠ .unknown) :
    (∀ expectedPrefix, expectedPrefix = .unknown ∨ expectedPrefix = a.networkPrefix →
      decodeAddress a.encodeAddress expectedPrefix = .ok a) ∧
    ∃ scriptPubKey, payToAddrScript a = .ok scriptPubKey ∧
      extractScriptPubKeyAddress scriptPubKey a.networkPrefix =
        .ok (scriptClassOf a.type, some a) :=
  ⟨fun _ he => decodeAddress_encodeAddress hknown he,
    _,payToAddrScript_eq a,extractScriptPubKeyAddress_opcodesFor a⟩

/-- An address of the test network for an ECDSA key. -/
private def sampleAddress : Address :=
  ⟨.publicKeyECDSA,.eiyaroTest,List.replicate 33 7,rfl⟩

theorem address_roundTrip_sample :
    decodeAddress sampleAddress.encodeAddress .eiyaroTest = .ok sampleAddress :=
  (address_roundTrip sampleAddress (by decide)).1 .eiyaroTest (.inr rfl)

end Eiyaro.TxScript
