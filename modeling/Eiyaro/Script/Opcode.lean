import Eiyaro.Script.ScriptNum
import Eiyaro.Model.Outpoint

/-!
# Opcodes and parsed scripts

The table of `opcode.go`, and `script.go`: how the bytes of a script become opcodes with their
data, and how many signature operations a script is counted with.
-/

namespace Eiyaro.TxScript

/-! ## The opcodes -/

/-- The functions that the table refers to. -/
inductive OpFunc
  | opcodeFalse
  | opcodePushData
  | opcode1Negate
  | opcodeReserved
  | opcodeN
  | opcodeNop
  | opcodeIf
  | opcodeNotIf
  | opcodeElse
  | opcodeEndif
  | opcodeVerify
  | opcodeReturn
  | opcodeCheckLockTimeVerify
  | opcodeCheckSequenceVerify
  | opcodeToAltStack
  | opcodeFromAltStack
  | opcode2Drop
  | opcode2Dup
  | opcode3Dup
  | opcode2Over
  | opcode2Rot
  | opcode2Swap
  | opcodeIfDup
  | opcodeDepth
  | opcodeDrop
  | opcodeDup
  | opcodeNip
  | opcodeOver
  | opcodePick
  | opcodeRoll
  | opcodeRot
  | opcodeSwap
  | opcodeTuck
  | opcodeDisabled
  | opcodeSize
  | opcodeEqual
  | opcodeEqualVerify
  | opcode1Add
  | opcode1Sub
  | opcodeNegate
  | opcodeAbs
  | opcodeNot
  | opcode0NotEqual
  | opcodeAdd
  | opcodeSub
  | opcodeBoolAnd
  | opcodeBoolOr
  | opcodeNumEqual
  | opcodeNumEqualVerify
  | opcodeNumNotEqual
  | opcodeLessThan
  | opcodeGreaterThan
  | opcodeLessThanOrEqual
  | opcodeGreaterThanOrEqual
  | opcodeMin
  | opcodeMax
  | opcodeWithin
  | opcodeCheckMultiSigECDSA
  | opcodeSha256
  | opcodeBlake2b
  | opcodeCheckSigECDSA
  | opcodeCheckSig
  | opcodeCheckSigVerify
  | opcodeCheckMultiSig
  | opcodeCheckMultiSigVerify
  | opcodeInvalid
deriving DecidableEq

structure Opcode where
  value : UInt8
  name : String
  /-- The number of bytes with the data, or minus the number of bytes of its length. -/
  length : Int
  opfunc : OpFunc

def op0 : UInt8 := 0x00

def opData32 : UInt8 := 0x20

def opPushData1 : UInt8 := 0x4c

def opPushData2 : UInt8 := 0x4d

def opPushData4 : UInt8 := 0x4e

def op1Negate : UInt8 := 0x4f

def op1 : UInt8 := 0x51

def op16 : UInt8 := 0x60

def opIf : UInt8 := 0x63

def opNotIf : UInt8 := 0x64

def opVerIf : UInt8 := 0x65

def opVerNotIf : UInt8 := 0x66

def opElse : UInt8 := 0x67

def opEndIf : UInt8 := 0x68

def opEqual : UInt8 := 0x87

def opCheckMultiSigECDSA : UInt8 := 0xa9

def opBlake2b : UInt8 := 0xaa

def opCheckSigECDSA : UInt8 := 0xab

def opCheckSig : UInt8 := 0xac

def opCheckSigVerify : UInt8 := 0xad

def opCheckMultiSig : UInt8 := 0xae

def opCheckMultiSigVerify : UInt8 := 0xaf

/-- The opcodes of one byte that have a meaning or a name of their own. -/
def opcodeTable : List (UInt8 × String × OpFunc) :=
  [(0x00, "OP_0", .opcodeFalse),(0x4f, "OP_1NEGATE", .opcode1Negate),
  (0x50, "OP_RESERVED", .opcodeReserved),(0x51, "OP_1", .opcodeN),(0x52, "OP_2", .opcodeN),
  (0x53, "OP_3", .opcodeN),(0x54, "OP_4", .opcodeN),(0x55, "OP_5", .opcodeN),
  (0x56, "OP_6", .opcodeN),(0x57, "OP_7", .opcodeN),(0x58, "OP_8", .opcodeN),
  (0x59, "OP_9", .opcodeN),(0x5a, "OP_10", .opcodeN),(0x5b, "OP_11", .opcodeN),
  (0x5c, "OP_12", .opcodeN),(0x5d, "OP_13", .opcodeN),(0x5e, "OP_14", .opcodeN),
  (0x5f, "OP_15", .opcodeN),(0x60, "OP_16", .opcodeN),(0x61, "OP_NOP", .opcodeNop),
  (0x62, "OP_VER", .opcodeReserved),(0x63, "OP_IF", .opcodeIf),(0x64, "OP_NOTIF", .opcodeNotIf),
  (0x65, "OP_VERIF", .opcodeReserved),(0x66, "OP_VERNOTIF", .opcodeReserved),
  (0x67, "OP_ELSE", .opcodeElse),(0x68, "OP_ENDIF", .opcodeEndif),
  (0x69, "OP_VERIFY", .opcodeVerify),(0x6a, "OP_RETURN", .opcodeReturn),
  (0x6b, "OP_TOALTSTACK", .opcodeToAltStack),(0x6c, "OP_FROMALTSTACK", .opcodeFromAltStack),
  (0x6d, "OP_2DROP", .opcode2Drop),(0x6e, "OP_2DUP", .opcode2Dup),
  (0x6f, "OP_3DUP", .opcode3Dup),(0x70, "OP_2OVER", .opcode2Over),
  (0x71, "OP_2ROT", .opcode2Rot),(0x72, "OP_2SWAP", .opcode2Swap),
  (0x73, "OP_IFDUP", .opcodeIfDup),(0x74, "OP_DEPTH", .opcodeDepth),
  (0x75, "OP_DROP", .opcodeDrop),(0x76, "OP_DUP", .opcodeDup),(0x77, "OP_NIP", .opcodeNip),
  (0x78, "OP_OVER", .opcodeOver),(0x79, "OP_PICK", .opcodePick),(0x7a, "OP_ROLL", .opcodeRoll),
  (0x7b, "OP_ROT", .opcodeRot),(0x7c, "OP_SWAP", .opcodeSwap),(0x7d, "OP_TUCK", .opcodeTuck),
  (0x7e, "OP_CAT", .opcodeDisabled),(0x7f, "OP_SUBSTR", .opcodeDisabled),
  (0x80, "OP_LEFT", .opcodeDisabled),(0x81, "OP_RIGHT", .opcodeDisabled),
  (0x82, "OP_SIZE", .opcodeSize),(0x83, "OP_INVERT", .opcodeDisabled),
  (0x84, "OP_AND", .opcodeDisabled),(0x85, "OP_OR", .opcodeDisabled),
  (0x86, "OP_XOR", .opcodeDisabled),(0x87, "OP_EQUAL", .opcodeEqual),
  (0x88, "OP_EQUALVERIFY", .opcodeEqualVerify),(0x89, "OP_RESERVED1", .opcodeReserved),
  (0x8a, "OP_RESERVED2", .opcodeReserved),(0x8b, "OP_1ADD", .opcode1Add),
  (0x8c, "OP_1SUB", .opcode1Sub),(0x8d, "OP_2MUL", .opcodeDisabled),
  (0x8e, "OP_2DIV", .opcodeDisabled),(0x8f, "OP_NEGATE", .opcodeNegate),
  (0x90, "OP_ABS", .opcodeAbs),(0x91, "OP_NOT", .opcodeNot),
  (0x92, "OP_0NOTEQUAL", .opcode0NotEqual),(0x93, "OP_ADD", .opcodeAdd),
  (0x94, "OP_SUB", .opcodeSub),(0x95, "OP_MUL", .opcodeDisabled),
  (0x96, "OP_DIV", .opcodeDisabled),(0x97, "OP_MOD", .opcodeDisabled),
  (0x98, "OP_LSHIFT", .opcodeDisabled),(0x99, "OP_RSHIFT", .opcodeDisabled),
  (0x9a, "OP_BOOLAND", .opcodeBoolAnd),(0x9b, "OP_BOOLOR", .opcodeBoolOr),
  (0x9c, "OP_NUMEQUAL", .opcodeNumEqual),(0x9d, "OP_NUMEQUALVERIFY", .opcodeNumEqualVerify),
  (0x9e, "OP_NUMNOTEQUAL", .opcodeNumNotEqual),(0x9f, "OP_LESSTHAN", .opcodeLessThan),
  (0xa0, "OP_GREATERTHAN", .opcodeGreaterThan),
  (0xa1, "OP_LESSTHANOREQUAL", .opcodeLessThanOrEqual),
  (0xa2, "OP_GREATERTHANOREQUAL", .opcodeGreaterThanOrEqual),(0xa3, "OP_MIN", .opcodeMin),
  (0xa4, "OP_MAX", .opcodeMax),(0xa5, "OP_WITHIN", .opcodeWithin),
  (0xa8, "OP_SHA256", .opcodeSha256),(0xa9, "OP_CHECKMULTISIGECDSA", .opcodeCheckMultiSigECDSA),
  (0xaa, "OP_BLAKE2B", .opcodeBlake2b),(0xab, "OP_CHECKSIGECDSA", .opcodeCheckSigECDSA),
  (0xac, "OP_CHECKSIG", .opcodeCheckSig),(0xad, "OP_CHECKSIGVERIFY", .opcodeCheckSigVerify),
  (0xae, "OP_CHECKMULTISIG", .opcodeCheckMultiSig),
  (0xaf, "OP_CHECKMULTISIGVERIFY", .opcodeCheckMultiSigVerify),
  (0xb0, "OP_CHECKLOCKTIMEVERIFY", .opcodeCheckLockTimeVerify),
  (0xb1, "OP_CHECKSEQUENCEVERIFY", .opcodeCheckSequenceVerify),
  (0xfa, "OP_SMALLINTEGER", .opcodeInvalid),(0xfb, "OP_PUBKEYS", .opcodeInvalid),
  (0xfd, "OP_PUBKEYHASH", .opcodeInvalid),(0xfe, "OP_PUBKEY", .opcodeInvalid),
  (0xff, "OP_INVALIDOPCODE", .opcodeInvalid)]

/-- `opcodeArray`. The entries of the unknown opcodes 178 to 187 hold the values of others. -/
def opcodeArray (instr : UInt8) : Opcode :=
  if 0x01 ≤ instr ∧ instr ≤ 0x4b then
    ⟨instr,"OP_DATA_" ++ toString instr,instr.toNat+1,.opcodePushData⟩
  else if instr = opPushData1 then
    ⟨instr,"OP_PUSHDATA1",-1,.opcodePushData⟩
  else if instr = opPushData2 then
    ⟨instr,"OP_PUSHDATA2",-2,.opcodePushData⟩
  else if instr = opPushData4 then
    ⟨instr,"OP_PUSHDATA4",-4,.opcodePushData⟩
  else
    match opcodeTable.lookup instr with
    | some (name, opfunc) => ⟨instr,name,1,opfunc⟩
    | none =>
      ⟨if 178 ≤ instr ∧ instr ≤ 187 then instr+10 else instr,
        "OP_UNKNOWN" ++ toString instr,1,.opcodeInvalid⟩

structure ParsedOpcode where
  opcode : Opcode
  data : List UInt8

namespace ParsedOpcode
variable (pop : ParsedOpcode)

/-- `OP_CAT`, `OP_SUBSTR`, `OP_LEFT`, `OP_RIGHT`, `OP_INVERT`, `OP_AND`, `OP_OR`, `OP_XOR`,
`OP_2MUL`, `OP_2DIV`, `OP_MUL`, `OP_DIV`, `OP_MOD`, `OP_LSHIFT` and `OP_RSHIFT`. -/
def isDisabled : Bool :=
  pop.opcode.value ∈ ([0x7e,0x7f,0x80,0x81,0x83,0x84,0x85,0x86,0x8d,0x8e,0x95,0x96,
    0x97,0x98,0x99] : List UInt8)

def alwaysIllegal : Bool :=
  pop.opcode.value ∈ [opVerIf,opVerNotIf]

def isConditional : Bool :=
  pop.opcode.value ∈ [opIf,opNotIf,opElse,opEndIf]

/-- The push has to use the shortest encoding of its data. -/
def checkMinimalDataPush : Except ScriptFailure Unit :=
  let value := pop.opcode.value
  let dataLen := pop.data.length
  let mismatch (what shortest : String) : Except ScriptFailure Unit :=
    scriptError .errMinimalData (what ++ " encoded with opcode " ++ pop.opcode.name ++
      " instead of " ++ shortest)
  let pushOf := "data push of " ++ toString dataLen ++ " bytes"
  let direct : Except ScriptFailure Unit :=
    if dataLen ≤ 75 then
      if value.toNat ≠ dataLen then mismatch pushOf ("OP_DATA_" ++ toString dataLen) else .ok ()
    else if dataLen ≤ 255 then
      if value ≠ opPushData1 then mismatch pushOf "OP_PUSHDATA1" else .ok ()
    else if dataLen ≤ 65535 then
      if value ≠ opPushData2 then mismatch pushOf "OP_PUSHDATA2" else .ok ()
    else
      .ok ()
  match pop.data with
  | [] => if value ≠ op0 then mismatch "zero length data push is" "OP_0" else direct
  | [byte] =>
    if 1 ≤ byte ∧ byte ≤ 16 then
      if value ≠ op1+byte - 1 then
        mismatch ("data push of the value " ++ toString byte) ("OP_" ++ toString byte)
      else
        .ok ()
    else if byte = 0x81 then
      if value ≠ op1Negate then mismatch "data push of the value -1" "OP_1NEGATE" else .ok ()
    else
      direct
  | _ => direct

end ParsedOpcode

/-! ## Parsing -/

variable (script : List UInt8)

/-- `script[low:high]`. -/
def sliceAt (low high : Nat) : Except ScriptFailure (List UInt8) :=
  if low ≤ high ∧ high ≤ script.length then
    .ok ((script.take high).drop low)
  else
    .error (.panic "slice bounds out of range")

def malformedPush {α : Type} (op : Opcode) (verb : String) (needed remaining : Nat) :
    Except ScriptFailure α :=
  scriptError .errMalformedPush ("opcode " ++ op.name ++ " " ++ verb ++ " " ++ toString needed ++
    " bytes, but script only has " ++ toString remaining ++ " remaining")

/-- The opcode at a position, with its data, and the position after it. An opcode of length 0
would not advance. -/
def parseOpcode (i : Nat) (op : Opcode) : Except ScriptFailure (ParsedOpcode × Nat) := do
  if op.length = 1 then
    return (⟨op,[]⟩, i+1)
  else if op.length > 1 then
    let length := op.length.toNat
    let rest ← sliceAt script i script.length
    if rest.length < length then
      malformedPush op "requires" length rest.length
    else
      let data ← sliceAt script (i+1) (i+length)
      return (⟨op,data⟩, i+length)
  else if op.length < 0 then
    let width := (-op.length).toNat
    let off := i+1
    let rest ← sliceAt script off script.length
    if rest.length < width then
      malformedPush op "requires" width rest.length
    else if op.length ≠ -1 ∧ op.length ≠ -2 ∧ op.length ≠ -4 then
      scriptError .errMalformedPush ("invalid opcode length " ++ toString op.length)
    else
      let dataLen := littleEndian (rest.take width)
      let off := off+width
      let rest ← sliceAt script off script.length
      if dataLen > rest.length then
        malformedPush op "pushes" dataLen rest.length
      else
        let data ← sliceAt script off (off+dataLen)
        return (⟨op,data⟩, i+1+width+dataLen)
  else
    return (⟨op,[]⟩, i)

/-- The loop of `parseScriptTemplate`. -/
def parseLoop (script : List UInt8) : Nat → Nat → List ParsedOpcode →
    Except ScriptFailure (List ParsedOpcode × Option ScriptFailure)
  | 0, _, _ => .error (.panic "parseScriptTemplate does not end")
  | fuel+1, i, retScript =>
    match script[i]? with
    | none => .ok (retScript, none)
    | some instr =>
      match parseOpcode script i (opcodeArray instr) with
      | .ok (pop, next) => parseLoop script fuel next (retScript ++ [pop])
      | .error (.panic message) => .error (.panic message)
      | .error failure => .ok (retScript, some failure)

/-- `parseScriptTemplate` with `opcodeArray`: the opcodes up to the first error, and that
error. -/
def parseScriptTemplate : Except ScriptFailure (List ParsedOpcode × Option ScriptFailure) :=
  parseLoop script (script.length+1) 0 []

def parseScript : Except ScriptFailure (List ParsedOpcode) := do
  match ← parseScriptTemplate script with
  | (pops, none) => return pops
  | (_, some failure) => throw failure

/-! ## Unparsing -/

/-- `parsedOpcode.bytes`. The data comes after its length where the opcode does not tell it. -/
def ParsedOpcode.scriptBytes (pop : ParsedOpcode) : Except ScriptFailure (List UInt8) :=
  let op := pop.opcode
  let unexpected (length : Nat) (expected : Int) : Except ScriptFailure (List UInt8) :=
    scriptError .errInternal ("internal consistency error - parsed opcode " ++ op.name ++
      " has data length " ++ toString length ++ " when " ++ toString expected ++ " was expected")
  if op.length = 1 then
    if pop.data.length ≠ 0 then unexpected pop.data.length 0 else .ok [op.value]
  else
    let lengthBytes :=
      if op.length ∈ [-1,-2,-4] then putLittleEndian (-op.length).toNat pop.data.length else []
    let nbytes : Int :=
      if op.length ∈ [-1,-2,-4] then littleEndian lengthBytes+1+lengthBytes.length else op.length
    let retbytes := op.value :: lengthBytes ++ pop.data
    if retbytes.length ≠ nbytes then unexpected retbytes.length nbytes else .ok retbytes

def unparseScript : List ParsedOpcode → Except ScriptFailure (List UInt8)
  | [] => .ok []
  | pop :: pops => do
    let b ← pop.scriptBytes
    let script ← unparseScript pops
    return b ++ script

/-! ## Kinds of scripts -/

def maxOpsPerScript : Nat := 201

def maxPubKeysPerMultiSig : Nat := 20

def maxScriptElementSize : Nat := 520

section
variable (pops : List ParsedOpcode) (precise : Bool)

/-- `OP_BLAKE2B`, 32 bytes of data, `OP_EQUAL`. -/
def isScriptHash : Bool :=
  pops.map (·.opcode.value) = [opBlake2b,opData32,opEqual]

def isPushOnly : Bool :=
  pops.all fun pop => pop.opcode.value ≤ op16

/-! ## Counting signature operations -/

def isSmallIntPush (pop : ParsedOpcode) : Bool :=
  op1 ≤ pop.opcode.value && pop.opcode.value ≤ op16

def asSmallInt (op : Opcode) : Nat :=
  if op.value = op0 then 0 else (op.value - (op1 - 1)).toNat

/-- What an opcode adds to the count, given the opcode before it. -/
def sigOpsOf (previous : Option ParsedOpcode) (pop : ParsedOpcode) : Nat :=
  if pop.opcode.value ∈ [opCheckSig,opCheckSigVerify,opCheckSigECDSA] then
    1
  else if pop.opcode.value ∈ [opCheckMultiSig,opCheckMultiSigVerify,opCheckMultiSigECDSA] then
    match previous with
    | none => maxPubKeysPerMultiSig
    | some previous =>
      if precise && isSmallIntPush previous then
        asSmallInt previous.opcode
      else
        maxPubKeysPerMultiSig
  else
    0

def sigOpCountLoop : Option ParsedOpcode → Nat → List ParsedOpcode → Nat
  | _, nSigs, [] => nSigs
  | previous, nSigs, pop :: pops =>
    sigOpCountLoop (some pop) (nSigs+sigOpsOf precise previous pop) pops

def getSigOpCount : Nat :=
  sigOpCountLoop precise none 0 pops

end

def getPreciseSigOpCountFromParsedScript (scriptSig : List UInt8) (pops : List ParsedOpcode) :
    Except ScriptFailure Nat := do
  if !isScriptHash pops then
    return getSigOpCount pops true
  else
    let (sigPops, failure) ← parseScriptTemplate scriptSig
    if failure.isSome then
      return 0
    else
      match sigPops.getLast? with
      | none => return 0
      | some last =>
        if !isPushOnly sigPops || last.data.isEmpty then
          return 0
        else
          let (shPops, _) ← parseScriptTemplate last.data
          return getSigOpCount shPops true

def getPreciseSigOpCount (scriptSig : List UInt8) (scriptPubKey : ScriptPublicKey) :
    Except ScriptFailure Nat := do
  let (pops, _) ← parseScriptTemplate scriptPubKey.script
  getPreciseSigOpCountFromParsedScript scriptSig pops

end Eiyaro.TxScript
