import Eiyaro.Script.Stack
import Eiyaro.Transaction.InContext

/-!
# The script engine

`engine.go`, the functions of `opcode.go` and `sigcache.go`. Hashes and the checks of keys and
signatures are those of other packages and are arbitrary here. The engine counts how often it
has verified a signature, which nothing in it depends on.
-/

namespace Eiyaro.TxScript
open MonadExcept
open EStateM

def maxScriptSize : Nat := 10000

def maxScriptPublicKeyVersion : UInt16 := 0

def lockTimeThreshold : UInt64 := 500000000000

def maxTxInSequenceNum : UInt64 := 0xffffffffffffffff

/-! ## Signatures -/

/-- The two kinds of signatures, which have opcodes of their own. -/
inductive Scheme
  | schnorr
  | ecdsa
deriving DecidableEq

/-- The verified signatures, each with the public key that it was verified for. -/
structure SigCache where
  validSigs : FinMap DomainHash (List UInt8 × List UInt8)
  maxEntries : Nat

/-- What other packages compute. A key or a signature stands for its bytes. -/
structure ScriptEnv where
  sha256 : List UInt8 → List UInt8
  blake2b : List UInt8 → List UInt8
  signatureHash : Scheme → DomainTransaction → Nat → UInt8 → DomainHash
  isPubKey : Scheme → List UInt8 → Bool
  isSignature : Scheme → List UInt8 → Bool
  verify : Scheme → DomainHash → List UInt8 → List UInt8 → Bool
  /-- The entry that a full cache drops. -/
  evicted : SigCache → Option DomainHash

/-- `SigHashType.IsStandardSigHashType`. -/
def isStandardSigHashType (hashType : UInt8) : Bool :=
  hashType ∈ ([0x01,0x02,0x04,0x81,0x82,0x84] : List UInt8)

namespace SigCache

/-- `SigCache.Exists`. -/
def contains (cache : SigCache) (sigHash : DomainHash) (signature pubKey : List UInt8) : Bool :=
  cache.validSigs.get sigHash = some (signature, pubKey)

def add (env : ScriptEnv) (cache : SigCache) (sigHash : DomainHash)
    (signature pubKey : List UInt8) : SigCache :=
  if cache.maxEntries = 0 then
    cache
  else
    let validSigs :=
      if cache.validSigs.keys.card+1 > cache.maxEntries then
        match env.evicted cache with
        | none => cache.validSigs
        | some sigEntry => cache.validSigs.erase sigEntry
      else
        cache.validSigs
    { cache with validSigs := validSigs.insert sigHash (signature, pubKey) }

end SigCache

/-! ## The state -/

/-- What an `OP_IF` has found. A conditional in a branch that is not executed is skipped. -/
inductive CondValue
  | opCondFalse
  | opCondTrue
  | opCondSkip
deriving DecidableEq

structure Engine where
  scriptVersion : UInt16
  scripts : List (List ParsedOpcode)
  scriptIdx : Nat
  scriptOff : Nat
  dstack : Stack
  astack : Stack
  tx : DomainTransaction
  txIdx : Nat
  condStack : List CondValue
  numOps : Nat
  sigCache : Scheme → Option SigCache
  isP2SH : Bool
  savedFirstStack : List (List UInt8)
  /-- How many signatures were verified. -/
  verifications : Nat

abbrev ScriptM := EStateM ScriptFailure Engine

def onDataStack {α : Type} (x : StackM α) : ScriptM α := fun vm =>
  match x vm.dstack with
  | .ok a stk => .ok a { vm with dstack := stk }
  | .error e stk => .error e { vm with dstack := stk }

def onAltStack {α : Type} (x : StackM α) : ScriptM α := fun vm =>
  match x vm.astack with
  | .ok a stk => .ok a { vm with astack := stk }
  | .error e stk => .error e { vm with astack := stk }

def failWith {α : Type} (code : ErrorCode) (description : String) : ScriptM α :=
  ofExcept (scriptError code description)

def isBranchExecuting (vm : Engine) : Bool :=
  match vm.condStack.getLast? with
  | none => true
  | some condVal => condVal = .opCondTrue

/-! ## Conditionals -/

def popIfBool : ScriptM Bool := do
  let so ← onDataStack Stack.popByteArray
  match so with
  | [] => return false
  | [0x01] => return true
  | _ => failWith .errMinimalIf ("with OP_IF or OP_NOTIF top stack item MUST be an empty byte " ++
      "array or 0x01, and is instead: " ++ hexString so)

/-- The branch that follows is executed if the top item is `expected`. -/
def beginConditional (expected : Bool) : ScriptM Unit := do
  let vm ← get
  if isBranchExecuting vm then do
    let ok ← popIfBool
    let condVal := if ok = expected then CondValue.opCondTrue else CondValue.opCondFalse
    modify fun vm => { vm with condStack := vm.condStack ++ [condVal] }
  else
    set { vm with condStack := vm.condStack ++ [CondValue.opCondSkip] }

def opcodeIf : ScriptM Unit :=
  beginConditional true

def opcodeNotIf : ScriptM Unit :=
  beginConditional false

def CondValue.invert : CondValue → CondValue
  | opCondTrue => opCondFalse
  | opCondFalse => opCondTrue
  | opCondSkip => opCondSkip

def noMatchingIf {α : Type} (op : ParsedOpcode) : ScriptM α :=
  failWith .errUnbalancedConditional ("encountered opcode " ++ op.opcode.name ++
    " with no matching opcode to begin conditional execution")

def opcodeElse (op : ParsedOpcode) : ScriptM Unit := do
  let vm ← get
  match vm.condStack.getLast? with
  | none => noMatchingIf op
  | some condVal => set { vm with condStack := vm.condStack.dropLast ++ [condVal.invert] }

def opcodeEndif (op : ParsedOpcode) : ScriptM Unit := do
  let vm ← get
  if vm.condStack = [] then
    noMatchingIf op
  else
    set { vm with condStack := vm.condStack.dropLast }

/-! ## Verification and lock times -/

def abstractVerify (op : ParsedOpcode) (code : ErrorCode) : ScriptM Unit := do
  let verified ← onDataStack Stack.popBool
  if verified then return else failWith code (op.opcode.name ++ " failed")

/-- `vm.tx.Inputs[vm.txIdx]`. -/
def currentInput : ScriptM DomainTransactionInput := do
  let vm ← get
  ofExcept (indexAt vm.tx.inputs vm.txIdx)

def verifyLockTime (txLockTime lockTime : UInt64) : ScriptM Unit :=
  if lockTime > txLockTime then
    failWith .errUnsatisfiedLockTime ("locktime requirement not satisfied -- locktime is " ++
      "greater than the transaction locktime: " ++ toString lockTime ++ " > " ++
      toString txLockTime)
  else
    return

def verifyLockTimeThreshold (txLockTime threshold lockTime : UInt64) : ScriptM Unit :=
  if (txLockTime < threshold ∧ lockTime < threshold) ∨
      (txLockTime ≥ threshold ∧ lockTime ≥ threshold) then
    return
  else
    failWith .errUnsatisfiedLockTime ("mismatched locktime types -- tx locktime " ++
      toString txLockTime ++ ", stack locktime " ++ toString lockTime)

/-- The top item as an unsigned number of up to eight bytes. -/
def popUint64 (name : String) : ScriptM UInt64 := do
  let bytes ← onDataStack Stack.popByteArray
  if bytes.length > 8 then
    failWith .errNumberTooBig (name ++ " value represented as " ++ hexString bytes ++
      " is longer then 8 bytes")
  else
    return UInt64.ofNat (littleEndian bytes)

def opcodeCheckLockTimeVerify : ScriptM Unit := do
  let stackLockTime ← popUint64 "lockTime"
  let vm ← get
  verifyLockTimeThreshold vm.tx.lockTime lockTimeThreshold stackLockTime
  verifyLockTime vm.tx.lockTime stackLockTime
  let input ← currentInput
  if input.sequence = maxTxInSequenceNum then
    failWith .errUnsatisfiedLockTime "transaction input is finalized"
  else
    return

def opcodeCheckSequenceVerify : ScriptM Unit := do
  let stackSequence ← popUint64 "sequence"
  if stackSequence &&& sequenceLockTimeDisabled ≠ 0 then
    return
  else do
    let input ← currentInput
    if input.sequence &&& sequenceLockTimeDisabled ≠ 0 then
      failWith .errUnsatisfiedLockTime ("transaction sequence has sequence locktime disabled " ++
        "bit set: 0x" ++ String.ofList (Nat.toDigits 16 input.sequence.toNat))
    else
      verifyLockTime (input.sequence &&& sequenceLockTimeMask)
        (stackSequence &&& sequenceLockTimeMask)

/-! ## Stacks and numbers -/

def opcodeToAltStack : ScriptM Unit := do
  let so ← onDataStack Stack.popByteArray
  onAltStack (Stack.pushByteArray so)

def opcodeFromAltStack : ScriptM Unit := do
  let so ← onAltStack Stack.popByteArray
  onDataStack (Stack.pushByteArray so)

def opcodeIfDup : StackM Unit := do
  let so ← Stack.peekByteArray 0
  if asBool so then Stack.pushByteArray so else return

def opcodeDepth : StackM Unit := do
  let size ← Stack.depth
  Stack.pushInt size

def opcodePick : StackM Unit := do
  let val ← Stack.popInt
  Stack.pickN (scriptNumInt32 val)

def opcodeRoll : StackM Unit := do
  let val ← Stack.popInt
  Stack.rollN (scriptNumInt32 val)

def opcodeSize : StackM Unit := do
  let so ← Stack.peekByteArray 0
  Stack.pushInt so.length

def opcodeEqual : StackM Unit := do
  let a ← Stack.popByteArray
  let b ← Stack.popByteArray
  Stack.pushBool (a = b)

/-- Replaces the top number. -/
def unaryNumeric (f : Int → Int) : StackM Unit := do
  let m ← Stack.popInt
  Stack.pushInt (f m)

/-- Replaces the top two numbers, of which `v0` is the top one. -/
def binaryNumeric (f : Int → Int → Int) : StackM Unit := do
  let v0 ← Stack.popInt
  let v1 ← Stack.popInt
  Stack.pushInt (f v0 v1)

def boolToInt (b : Bool) : Int :=
  if b then 1 else 0

def opcodeWithin : StackM Unit := do
  let maxVal ← Stack.popInt
  let minVal ← Stack.popInt
  let x ← Stack.popInt
  Stack.pushInt (boolToInt (x ≥ minVal ∧ x < maxVal))

/-- Replaces the top item by its hash. -/
def hashTop (hash : List UInt8 → List UInt8) : StackM Unit := do
  let buf ← Stack.popByteArray
  Stack.pushByteArray (hash buf)

/-! ## Checking signatures -/

section
variable (env : ScriptEnv)
variable (scheme : Scheme)

def checkPubKeyEncoding (pubKey : List UInt8) : ScriptM Unit :=
  let length := match scheme with
    | .schnorr => 32
    | .ecdsa => 33
  if pubKey.length = length then
    return
  else
    failWith .errPubKeyFormat "unsupported public key type"

def checkSignatureLength (signature : List UInt8) : ScriptM Unit :=
  if signature.length ≠ 64 then
    failWith .errSigLength ("invalid signature length " ++ toString signature.length)
  else
    return

def checkSigHashType (hashType : UInt8) : ScriptM Unit :=
  if isStandardSigHashType hashType then
    return
  else
    failWith .errInvalidSigHashType ("invalid hash type 0x" ++
      String.ofList (Nat.toDigits 16 hashType.toNat))

/-- `CalculateSignatureHashSchnorr` and `CalculateSignatureHashECDSA`. Both read the entry of
the input. -/
def calculateSignatureHash (vm : Engine) (scheme : Scheme) (hashType : UInt8) :
    Except ScriptFailure DomainHash :=
  if isStandardSigHashType hashType then do
    let input ← indexAt vm.tx.inputs vm.txIdx
    match input.utxoEntry with
    | none => .error (.panic "invalid memory address or nil pointer dereference")
    | some _ => .ok (env.signatureHash scheme vm.tx vm.txIdx hashType)
  else
    .error (.error ("SigHashType " ++ toString hashType ++ " is not a valid SigHash type"))

/-- `SchnorrVerify` or `ECDSAVerify`. -/
def verifySignature (sigHash : DomainHash) (signature pubKey : List UInt8) : ScriptM Bool := do
  modify fun vm => { vm with verifications := vm.verifications+1 }
  return env.verify scheme sigHash signature pubKey

/-- The verification, unless the cache has its result. -/
def verifyWithCache (sigHash : DomainHash) (signature pubKey : List UInt8) : ScriptM Bool := do
  let vm ← get
  match vm.sigCache scheme with
  | none => verifySignature env scheme sigHash signature pubKey
  | some cache =>
    if cache.contains sigHash signature pubKey then
      return true
    else do
      let valid ← verifySignature env scheme sigHash signature pubKey
      if valid then do
        modify fun vm => { vm with
          sigCache := fun s =>
            if s = scheme then some (cache.add env sigHash signature pubKey) else vm.sigCache s }
        return true
      else
        return false

/-- `opcodeCheckSig` and `opcodeCheckSigECDSA`. -/
def checkSig : ScriptM Unit := do
  let pkBytes ← onDataStack Stack.popByteArray
  let fullSigBytes ← onDataStack Stack.popByteArray
  match fullSigBytes.getLast? with
  | none => onDataStack (Stack.pushBool false)
  | some hashType => do
    let sigBytes := fullSigBytes.dropLast
    checkSigHashType hashType
    checkSignatureLength sigBytes
    checkPubKeyEncoding scheme pkBytes
    let vm ← get
    match calculateSignatureHash env vm scheme hashType with
    | .error (.panic message) => throw (.panic message)
    | .error _ => onDataStack (Stack.pushBool false)
    | .ok sigHash =>
      if !env.isPubKey scheme pkBytes || !env.isSignature scheme sigBytes then
        onDataStack (Stack.pushBool false)
      else do
        let valid ← verifyWithCache env scheme sigHash sigBytes pkBytes
        if !valid && decide (sigBytes.length > 0) then
          failWith .errNullFail "signature not empty on failed checksig"
        else
          onDataStack (Stack.pushBool valid)

/-- A signature that is parsed when it is first needed. -/
structure ParsedSigInfo where
  signature : List UInt8
  parsedSignature : Option (List UInt8)
  parsed : Bool

/-- Parses and checks a signature once. -/
def parseSigInfo (sigInfo : ParsedSigInfo) (hashType : UInt8)
    (signature : List UInt8) : ScriptM ParsedSigInfo :=
  if sigInfo.parsed then
    return sigInfo
  else do
    checkSigHashType hashType
    checkSignatureLength signature
    return { sigInfo with
      parsedSignature := if env.isSignature scheme signature then some signature else none
      parsed := true }

/-- One signature against one key: the body of the loop up to the result. -/
def checkSigInfo (sigInfo : ParsedSigInfo) (pubKey : List UInt8) :
    ScriptM (ParsedSigInfo × Bool) := do
  match sigInfo.signature.getLast? with
  | none => return (sigInfo, false)
  | some hashType => do
    let sigInfo ← parseSigInfo env scheme sigInfo hashType sigInfo.signature.dropLast
    match sigInfo.parsedSignature with
    | none => return (sigInfo, false)
    | some parsedSig => do
      checkPubKeyEncoding scheme pubKey
      if !env.isPubKey scheme pubKey then
        return (sigInfo, false)
      else do
        let vm ← get
        let sigHash ← ofExcept (calculateSignatureHash env vm scheme hashType)
        let valid ← verifyWithCache env scheme sigHash parsedSig pubKey
        return (sigInfo, valid)

structure MultiSigState where
  signatures : List ParsedSigInfo
  signatureIdx : Int
  numSignatures : Int
  pubKeyIdx : Int
  numPubKeys : Int

/-- The loop of the multisig opcodes. It ends without success when there are more signatures
than keys left, which is a matter of as many rounds as there are keys. -/
def multiSigLoop (scheme : Scheme) (pubKeys : List (List UInt8)) : Nat → MultiSigState →
    ScriptM Bool
  | 0, _ => throw (.panic "opcodeCheckMultiSig does not end")
  | fuel+1, state =>
    if state.numSignatures > 0 then
      let state := { state with
        pubKeyIdx := state.pubKeyIdx+1
        numPubKeys := state.numPubKeys - 1 }
      if state.numSignatures > state.numPubKeys then
        return false
      else do
        let sigInfo ← ofExcept (indexAt state.signatures state.signatureIdx)
        let pubKey ← ofExcept (indexAt pubKeys state.pubKeyIdx)
        let (sigInfo, valid) ← checkSigInfo env scheme sigInfo pubKey
        let state := { state with
          signatures := state.signatures.set state.signatureIdx.toNat sigInfo }
        if valid then
          multiSigLoop scheme pubKeys fuel { state with
            signatureIdx := state.signatureIdx+1
            numSignatures := state.numSignatures - 1 }
        else
          multiSigLoop scheme pubKeys fuel state
    else
      return true

/-- The number of keys counts as operations. -/
def countMultiSigKeys (numPubKeys : Int) : ScriptM Unit := do
  if numPubKeys < 0 then
    failWith .errInvalidPubKeyCount ("number of pubkeys " ++ toString numPubKeys ++ " is negative")
  else if numPubKeys > maxPubKeysPerMultiSig then
    failWith .errInvalidPubKeyCount ("too many pubkeys: " ++ toString numPubKeys ++ " > " ++
      toString maxPubKeysPerMultiSig)
  else do
    modify fun vm => { vm with numOps := vm.numOps+numPubKeys.toNat }
    let vm ← get
    if vm.numOps > maxOpsPerScript then
      failWith .errTooManyOperations ("exceeded max operation limit of " ++
        toString maxOpsPerScript)
    else
      return

def checkMultiSigSignatureCount (numSignatures numPubKeys : Int) : ScriptM Unit :=
  if numSignatures < 0 then
    failWith .errInvalidSignatureCount ("number of signatures " ++ toString numSignatures ++
      " is negative")
  else if numSignatures > numPubKeys then
    failWith .errInvalidSignatureCount ("more signatures than pubkeys: " ++
      toString numSignatures ++ " > " ++ toString numPubKeys)
  else
    return

/-- A multisig opcode, once it knows the number of keys. -/
def checkMultiSigOf (numPubKeys : Int) : ScriptM Unit := do
  countMultiSigKeys numPubKeys
  let pubKeys ← onDataStack (Stack.popMany numPubKeys.toNat)
  let numSigs ← onDataStack Stack.popInt
  let numSignatures := scriptNumInt32 numSigs
  checkMultiSigSignatureCount numSignatures numPubKeys
  let signatures ← onDataStack (Stack.popMany numSignatures.toNat)
  let success ← multiSigLoop env scheme pubKeys (pubKeys.length+2)
    ⟨signatures.map fun signature => ⟨signature,none,false⟩,0,numSignatures,-1,numPubKeys+1⟩
  if !success && signatures.any (·.length > 0) then
    failWith .errNullFail "not all signatures empty on failed checkmultisig"
  else
    onDataStack (Stack.pushBool success)

/-- `opcodeCheckMultiSig` and `opcodeCheckMultiSigECDSA`. -/
def checkMultiSig : ScriptM Unit := do
  let numKeys ← onDataStack Stack.popInt
  checkMultiSigOf env scheme (scriptNumInt32 numKeys)

end

/-! ## Executing an opcode -/

section
variable (env : ScriptEnv)

/-- The function of the table, applied to the opcode. -/
def OpFunc.exec (op : ParsedOpcode) : OpFunc → ScriptM Unit
  | opcodeFalse => onDataStack (Stack.pushByteArray [])
  | opcodePushData => onDataStack (Stack.pushByteArray op.data)
  | opcode1Negate => onDataStack (Stack.pushInt (-1))
  | opcodeReserved =>
    failWith .errReservedOpcode ("attempt to execute reserved opcode " ++ op.opcode.name)
  | opcodeN => onDataStack (Stack.pushInt (op.opcode.value - (op1 - 1)).toNat)
  | opcodeNop => return
  | opcodeIf => TxScript.opcodeIf
  | opcodeNotIf => TxScript.opcodeNotIf
  | opcodeElse => TxScript.opcodeElse op
  | opcodeEndif => TxScript.opcodeEndif op
  | opcodeVerify => abstractVerify op .errVerify
  | opcodeReturn => failWith .errEarlyReturn "script returned early"
  | opcodeCheckLockTimeVerify => TxScript.opcodeCheckLockTimeVerify
  | opcodeCheckSequenceVerify => TxScript.opcodeCheckSequenceVerify
  | opcodeToAltStack => TxScript.opcodeToAltStack
  | opcodeFromAltStack => TxScript.opcodeFromAltStack
  | opcode2Drop => onDataStack (Stack.dropN 2)
  | opcode2Dup => onDataStack (Stack.dupN 2)
  | opcode3Dup => onDataStack (Stack.dupN 3)
  | opcode2Over => onDataStack (Stack.overN 2)
  | opcode2Rot => onDataStack (Stack.rotN 2)
  | opcode2Swap => onDataStack (Stack.swapN 2)
  | opcodeIfDup => onDataStack TxScript.opcodeIfDup
  | opcodeDepth => onDataStack TxScript.opcodeDepth
  | opcodeDrop => onDataStack (Stack.dropN 1)
  | opcodeDup => onDataStack (Stack.dupN 1)
  | opcodeNip => onDataStack (Stack.dropNth 1)
  | opcodeOver => onDataStack (Stack.overN 1)
  | opcodePick => onDataStack TxScript.opcodePick
  | opcodeRoll => onDataStack TxScript.opcodeRoll
  | opcodeRot => onDataStack (Stack.rotN 1)
  | opcodeSwap => onDataStack (Stack.swapN 1)
  | opcodeTuck => onDataStack Stack.tuck
  | opcodeDisabled =>
    failWith .errDisabledOpcode ("attempt to execute disabled opcode " ++ op.opcode.name)
  | opcodeSize => onDataStack TxScript.opcodeSize
  | opcodeEqual => onDataStack TxScript.opcodeEqual
  | opcodeEqualVerify => do
    onDataStack TxScript.opcodeEqual
    abstractVerify op .errEqualVerify
  | opcode1Add => onDataStack (unaryNumeric fun m => m+1)
  | opcode1Sub => onDataStack (unaryNumeric fun m => m - 1)
  | opcodeNegate => onDataStack (unaryNumeric fun m => -m)
  | opcodeAbs => onDataStack (unaryNumeric fun m => if m < 0 then -m else m)
  | opcodeNot => onDataStack (unaryNumeric fun m => boolToInt (m = 0))
  | opcode0NotEqual => onDataStack (unaryNumeric fun m => boolToInt (m ≠ 0))
  | opcodeAdd => onDataStack (binaryNumeric fun v0 v1 => v0+v1)
  | opcodeSub => onDataStack (binaryNumeric fun v0 v1 => v1 - v0)
  | opcodeBoolAnd => onDataStack (binaryNumeric fun v0 v1 => boolToInt (v0 ≠ 0 ∧ v1 ≠ 0))
  | opcodeBoolOr => onDataStack (binaryNumeric fun v0 v1 => boolToInt (v0 ≠ 0 ∨ v1 ≠ 0))
  | opcodeNumEqual => onDataStack (binaryNumeric fun v0 v1 => boolToInt (v0 = v1))
  | opcodeNumEqualVerify => do
    onDataStack (binaryNumeric fun v0 v1 => boolToInt (v0 = v1))
    abstractVerify op .errNumEqualVerify
  | opcodeNumNotEqual => onDataStack (binaryNumeric fun v0 v1 => boolToInt (v0 ≠ v1))
  | opcodeLessThan => onDataStack (binaryNumeric fun v0 v1 => boolToInt (v1 < v0))
  | opcodeGreaterThan => onDataStack (binaryNumeric fun v0 v1 => boolToInt (v1 > v0))
  | opcodeLessThanOrEqual => onDataStack (binaryNumeric fun v0 v1 => boolToInt (v1 ≤ v0))
  | opcodeGreaterThanOrEqual => onDataStack (binaryNumeric fun v0 v1 => boolToInt (v1 ≥ v0))
  | opcodeMin => onDataStack (binaryNumeric fun v0 v1 => if v1 < v0 then v1 else v0)
  | opcodeMax => onDataStack (binaryNumeric fun v0 v1 => if v1 > v0 then v1 else v0)
  | opcodeWithin => onDataStack TxScript.opcodeWithin
  | opcodeCheckMultiSigECDSA => checkMultiSig env .ecdsa
  | opcodeSha256 => onDataStack (hashTop env.sha256)
  | opcodeBlake2b => onDataStack (hashTop env.blake2b)
  | opcodeCheckSigECDSA => checkSig env .ecdsa
  | opcodeCheckSig => checkSig env .schnorr
  | opcodeCheckSigVerify => do
    checkSig env .schnorr
    abstractVerify op .errCheckSigVerify
  | opcodeCheckMultiSig => checkMultiSig env .schnorr
  | opcodeCheckMultiSigVerify => do
    checkMultiSig env .schnorr
    abstractVerify op .errCheckMultiSigVerify
  | opcodeInvalid =>
    failWith .errReservedOpcode ("attempt to execute invalid opcode " ++ op.opcode.name)

/-- Counts an operation, or checks the size of what is pushed. -/
def checkLimits (pop : ParsedOpcode) : ScriptM Unit := do
  if pop.opcode.value > op16 then do
    modify fun vm => { vm with numOps := vm.numOps+1 }
    let vm ← get
    if vm.numOps > maxOpsPerScript then
      failWith .errTooManyOperations ("exceeded max operation limit of " ++
        toString maxOpsPerScript)
    else
      return
  else if pop.data.length > maxScriptElementSize then
    failWith .errElementTooBig ("element size " ++ toString pop.data.length ++
      " exceeds max allowed size " ++ toString maxScriptElementSize)
  else
    return

/-- An executed push of data has to be minimal. -/
def checkPushEncoding (vm : Engine) (pop : ParsedOpcode) : ScriptM Unit :=
  if isBranchExecuting vm && decide (pop.opcode.value ≠ 0 ∧ pop.opcode.value ≤ opPushData4) then
    ofExcept pop.checkMinimalDataPush
  else
    return

def executeOpcode (pop : ParsedOpcode) : ScriptM Unit := do
  if pop.isDisabled then
    failWith .errDisabledOpcode ("attempt to execute disabled opcode " ++ pop.opcode.name)
  else if pop.alwaysIllegal then
    failWith .errReservedOpcode ("attempt to execute reserved opcode " ++ pop.opcode.name)
  else do
    checkLimits pop
    let vm ← get
    if !isBranchExecuting vm && !pop.isConditional then
      return
    else do
      checkPushEncoding vm pop
      pop.opcode.opfunc.exec env pop

end

/-! ## Running scripts -/

section
variable (env : ScriptEnv)

/-- The opcode at the program counter. -/
def validPC : ScriptM ParsedOpcode := do
  let vm ← get
  match vm.scripts[vm.scriptIdx]? with
  | none =>
    failWith .errInvalidProgramCounter ("past input scripts " ++ toString vm.scriptIdx ++ ":" ++
      toString vm.scriptOff ++ " " ++ toString vm.scripts.length ++ ":xxxx")
  | some script =>
    match script[vm.scriptOff]? with
    | none =>
      failWith .errInvalidProgramCounter ("past input scripts " ++ toString vm.scriptIdx ++ ":" ++
        toString vm.scriptOff ++ " " ++ toString vm.scriptIdx ++ ":" ++
        String.ofList (List.replicate (4 - (toString script.length).length) '0') ++
        toString script.length)
    | some pop => return pop

/-- The final stack holds a single item. -/
def checkCleanStack : ScriptM Unit := do
  let size ← onDataStack Stack.depth
  if size > 1 then
    failWith .errCleanStack ("stack contains " ++ toString (size - 1) ++ " unexpected items")
  else if size < 1 then
    failWith .errEmptyStack "stack empty at end of script execution"
  else
    return

def checkErrorCondition (finalScript : Bool) : ScriptM Unit := do
  let vm ← get
  if vm.scriptIdx < vm.scripts.length then
    failWith .errScriptUnfinished "error check when script unfinished"
  else do
    if finalScript then checkCleanStack else pure ()
    let v ← onDataStack Stack.popBool
    if v then
      return
    else
      failWith .errEvalFalse "false stack entry at end of script execution"

/-- Takes the redeem script from the stack of the signature script. -/
def loadRedeemScript : ScriptM Unit := do
  let vm ← get
  let script ← ofExcept (indexAt vm.savedFirstStack (vm.savedFirstStack.length - 1))
  let pops ← ofExcept (parseScript script)
  set { vm with scripts := vm.scripts ++ [pops] }
  onDataStack (Stack.setStack vm.savedFirstStack.dropLast)

/-- The `switch` at the end of a script. -/
def nextScript : ScriptM Unit := do
  let vm ← get
  set { vm with scriptIdx := vm.scriptIdx+1 }
  if vm.isP2SH ∧ vm.scriptIdx = 0 then do
    let saved ← onDataStack Stack.getStack
    modify fun vm => { vm with savedFirstStack := saved }
  else if vm.isP2SH ∧ vm.scriptIdx = 1 then do
    checkErrorCondition false
    loadRedeemScript
  else
    return

/-- A script without opcodes is left at once. -/
def skipEmptyScript : ScriptM Unit :=
  modify fun vm =>
    match vm.scripts[vm.scriptIdx]? with
    | none => vm
    | some script =>
      if vm.scriptOff ≥ script.length then { vm with scriptIdx := vm.scriptIdx+1 } else vm

/-- What follows after the last opcode of a script: whether it was the last script. -/
def endOfScript : ScriptM Bool := do
  let vm ← get
  if vm.condStack ≠ [] then
    failWith .errUnbalancedConditional "end of script reached in conditional execution"
  else do
    let size ← onAltStack Stack.depth
    let _ ← tolerate (onAltStack (Stack.dropN size))
    modify fun vm => { vm with numOps := 0, scriptOff := 0 }
    nextScript
    skipEmptyScript
    let vm ← get
    return decide (vm.scriptIdx ≥ vm.scripts.length)

def checkStackSize : ScriptM Unit := do
  let dataSize ← onDataStack Stack.depth
  let altSize ← onAltStack Stack.depth
  if dataSize+altSize > maxStackSize then
    failWith .errStackOverflow ("combined stack size " ++ toString (dataSize+altSize) ++
      " > max allowed " ++ toString maxStackSize)
  else
    return

/-- `Step`. -/
def step : ScriptM Bool := do
  let opcode ← validPC
  modify fun vm => { vm with scriptOff := vm.scriptOff+1 }
  executeOpcode env opcode
  checkStackSize
  let vm ← get
  let script ← ofExcept (indexAt vm.scripts vm.scriptIdx)
  if vm.scriptOff ≥ script.length then endOfScript else return false

/-- The loop of `Execute`. -/
def executeLoop : Nat → ScriptM Unit
  | 0 => throw (.panic "Execute does not end")
  | fuel+1 => do
    let done ← step env
    if done then return else executeLoop fuel

/-- A redeem script has at most as many opcodes as an element can have bytes. -/
def stepLimit (vm : Engine) : Nat :=
  (vm.scripts.map List.length).sum+maxScriptElementSize+1

def execute : ScriptM Unit := do
  let vm ← get
  if vm.scriptVersion > maxScriptPublicKeyVersion then
    return
  else do
    executeLoop env (stepLimit vm)
    checkErrorCondition true

end

/-! ## Building the engine -/

def parseScriptAndVerifySize (script : List UInt8) : Except ScriptFailure (List ParsedOpcode) :=
  if script.length > maxScriptSize then
    scriptError .errScriptTooBig ("script size " ++ toString script.length ++
      " is larger than max allowed size " ++ toString maxScriptSize)
  else
    parseScript script

/-- An engine that `Init` has not been called on. -/
def Engine.empty : Engine where
  scriptVersion := 0
  scripts := []
  scriptIdx := 0
  scriptOff := 0
  dstack := []
  astack := []
  tx := ⟨0,[],[],0,0,0,[]⟩
  txIdx := 0
  condStack := []
  numOps := 0
  sigCache := fun _ => none
  isP2SH := false
  savedFirstStack := []
  verifications := 0

/-- `NewEngine`, and `Init` of an engine that was reset. -/
def newEngine (scriptPubKey : ScriptPublicKey) (tx : DomainTransaction) (txIdx : Int)
    (sigCache : Scheme → Option SigCache) : Except ScriptFailure Engine := do
  if txIdx < 0 ∨ txIdx ≥ tx.inputs.length then
    scriptError .errInvalidIndex ("transaction input index " ++ toString txIdx ++
      " is negative or >= " ++ toString tx.inputs.length)
  else do
    let input ← indexAt tx.inputs txIdx
    let scriptSig := input.signatureScript
    if scriptSig.length = 0 ∧ scriptPubKey.script.length = 0 then
      scriptError .errEvalFalse "false stack entry at end of script execution"
    else if scriptPubKey.version > maxScriptPublicKeyVersion then
      return { Engine.empty with scriptVersion := scriptPubKey.version, sigCache := sigCache }
    else do
      let parsedScriptSig ← parseScriptAndVerifySize scriptSig
      if !isPushOnly parsedScriptSig then
        scriptError .errNotPushOnly "signature script is not push only"
      else do
        let parsedScriptPubKey ← parseScriptAndVerifySize scriptPubKey.script
        -- the second test for pushes, of scripts with a script hash, repeats the first one
        return { Engine.empty with
          scriptVersion := scriptPubKey.version
          scripts := [parsedScriptSig,parsedScriptPubKey]
          scriptIdx := if scriptSig.length = 0 then 1 else 0
          tx := tx
          txIdx := txIdx.toNat
          sigCache := sigCache
          isP2SH := isScriptHash parsedScriptPubKey }

end Eiyaro.TxScript
