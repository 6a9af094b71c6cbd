import Eiyaro.Hashing.Transaction
import Eiyaro.Script.Engine
import Eiyaro.Transaction.InIsolation

/-!
# Signature hashes

`consensushashing/calculate_signature_hash.go`. What is hashed for a signature contains hashes
of lists that are the same for all inputs of the transaction. They are computed at most once and
kept in the reused values, which all calls for the transaction share.

Reused values that only hold what was computed for the transaction change no result
(`gives_getParts`). The hash for `SigHashAll` binds the whole transaction, apart from the
signature scripts and from the payload of a native transaction, which is not hashed.
-/

namespace Eiyaro
open List
variable {hash : DomainHash} {tx : DomainTransaction} {txIn : DomainTransactionInput}
  {scheme : Scheme} {entry : UTXOEntry} {t u : DomainTransaction}

open TxScript (Scheme isStandardSigHashType)

/-! ## Hash types -/

abbrev SigHashType := UInt8

def sigHashAll : SigHashType := 0b00000001

def sigHashNone : SigHashType := 0b00000010

def sigHashSingle : SigHashType := 0b00000100

def sigHashAnyOneCanPay : SigHashType := 0b10000000

def sigHashMask : SigHashType := 0b00000111

section
variable (hashType : SigHashType) (tx : DomainTransaction)

def isSigHashNone : Bool :=
  hashType &&& sigHashMask == sigHashNone

def isSigHashSingle : Bool :=
  hashType &&& sigHashMask == sigHashSingle

def isSigHashAnyOneCanPay : Bool :=
  hashType &&& sigHashAnyOneCanPay == sigHashAnyOneCanPay

/-! ## The parts -/

/-- The hash functions of the two writers for signatures. -/
structure SigningHashes where
  transactionSigning : List UInt8 → DomainHash
  transactionSigningECDSA : List UInt8 → DomainHash

def zeroHash : DomainHash := 0

def hashOutpoint (outpoint : DomainOutpoint) : List UInt8 :=
  hashByteSlice outpoint.transactionID ++ putUint32 outpoint.index

def hashTxOut (txOut : DomainTransactionOutput) : List UInt8 :=
  putUint64 txOut.value ++ putUint16 txOut.scriptPublicKey.version ++
    writeVarBytes txOut.scriptPublicKey.script

def previousOutputsString : List UInt8 :=
  tx.inputs.flatMap fun txIn => hashOutpoint txIn.previousOutpoint

def sequencesString : List UInt8 :=
  tx.inputs.flatMap fun txIn => putUint64 txIn.sequence

def sigOpCountsString : List UInt8 :=
  tx.inputs.flatMap fun txIn => [txIn.sigOpCount]

def outputsString : List UInt8 :=
  tx.outputs.flatMap hashTxOut

end

/-- `nil` for what was not computed yet. -/
structure SighashReusedValues where
  previousOutputsHash : Option DomainHash
  sequencesHash : Option DomainHash
  sigOpCountsHash : Option DomainHash
  outputsHash : Option DomainHash
  payloadHash : Option DomainHash
deriving DecidableEq

/-- `&SighashReusedValues{}`. -/
def SighashReusedValues.empty : SighashReusedValues := ⟨none,none,none,none,none⟩

section
variable (hashes : SigningHashes) {σ α : Type} {P : σ → Prop}

section
variable (tx : DomainTransaction) (inputIndex : Nat) (hashType : SigHashType)

def precomputeSighashReusedValues : SighashReusedValues where
  previousOutputsHash := some (hashes.transactionSigning (previousOutputsString tx))
  sequencesHash := some (hashes.transactionSigning (sequencesString tx))
  sigOpCountsHash := some (hashes.transactionSigning (sigOpCountsString tx))
  outputsHash := some (hashes.transactionSigning (outputsString tx))
  payloadHash :=
    if tx.subnetworkID = subnetworkIDNative then some zeroHash
    else some (hashes.transactionSigning (writeVarBytes tx.payload))

/-- Returns the value of a field, which is first set if it is `nil`. -/
def reuse (field : SighashReusedValues → Option DomainHash)
    (set : DomainHash → SighashReusedValues → SighashReusedValues) (string : List UInt8) :
    StateM SighashReusedValues DomainHash := do
  match field (← get) with
  | some hash => return hash
  | none =>
    modify (set (hashes.transactionSigning string))
    return hashes.transactionSigning string

def getPreviousOutputsHash : StateM SighashReusedValues DomainHash :=
  if isSigHashAnyOneCanPay hashType then return zeroHash
  else reuse hashes (·.previousOutputsHash)
    (fun hash reused => { reused with previousOutputsHash := some hash }) (previousOutputsString tx)

def getSequencesHash : StateM SighashReusedValues DomainHash :=
  if isSigHashSingle hashType || isSigHashAnyOneCanPay hashType || isSigHashNone hashType then
    return zeroHash
  else reuse hashes (·.sequencesHash)
    (fun hash reused => { reused with sequencesHash := some hash }) (sequencesString tx)

def getSigOpCountsHash : StateM SighashReusedValues DomainHash :=
  if isSigHashAnyOneCanPay hashType then return zeroHash
  else reuse hashes (·.sigOpCountsHash)
    (fun hash reused => { reused with sigOpCountsHash := some hash }) (sigOpCountsString tx)

def getOutputsHash : StateM SighashReusedValues DomainHash :=
  if isSigHashNone hashType then return zeroHash
  else if isSigHashSingle hashType then
    match tx.outputs[inputIndex]? with
    | none => return zeroHash
    | some output => return hashes.transactionSigning (hashTxOut output)
  else reuse hashes (·.outputsHash)
    (fun hash reused => { reused with outputsHash := some hash }) (outputsString tx)

def getPayloadHash : StateM SighashReusedValues DomainHash :=
  if tx.subnetworkID = subnetworkIDNative then return zeroHash
  else reuse hashes (·.payloadHash)
    (fun hash reused => { reused with payloadHash := some hash }) (writeVarBytes tx.payload)

/-- The hashes of lists that are hashed again. -/
structure SighashParts where
  previousOutputsHash : DomainHash
  sequencesHash : DomainHash
  sigOpCountsHash : DomainHash
  outputsHash : DomainHash
  payloadHash : DomainHash

def getParts : StateM SighashReusedValues SighashParts := do
  let previousOutputsHash ← getPreviousOutputsHash hashes tx hashType
  let sequencesHash ← getSequencesHash hashes tx hashType
  let sigOpCountsHash ← getSigOpCountsHash hashes tx hashType
  let outputsHash ← getOutputsHash hashes tx inputIndex hashType
  let payloadHash ← getPayloadHash hashes tx
  return ⟨previousOutputsHash,sequencesHash,sigOpCountsHash,outputsHash,payloadHash⟩

/-! ## The signature hash -/

/-- All that `calculateSignatureHash` writes. -/
def signatureString (txIn : DomainTransactionInput) (entry : UTXOEntry)
    (hashType : SigHashType) (parts : SighashParts) : List UInt8 :=
  putUint16 tx.version ++
    hashByteSlice parts.previousOutputsHash ++
    hashByteSlice parts.sequencesHash ++
    hashByteSlice parts.sigOpCountsHash ++
    hashOutpoint txIn.previousOutpoint ++
    putUint16 entry.scriptPublicKey.version ++
    writeVarBytes entry.scriptPublicKey.script ++
    putUint64 entry.amount ++
    putUint64 txIn.sequence ++
    [txIn.sigOpCount] ++
    hashByteSlice parts.outputsHash ++
    putUint64 tx.lockTime ++
    subnetworkIDBytes tx.subnetworkID ++
    putUint64 tx.gas ++
    hashByteSlice parts.payloadHash ++
    [hashType]

def calculateSignatureHash
    (txIn : DomainTransactionInput) (entry : UTXOEntry) (hashType : SigHashType) :
    StateM SighashReusedValues DomainHash := do
  let parts ← getParts hashes tx inputIndex hashType
  return hashes.transactionSigning (signatureString tx txIn entry hashType parts)

/-- The input that is signed and the entry that it spends. -/
def signedInput : Except Failure (DomainTransactionInput × UTXOEntry) := do
  let txIn ← indexSlice tx.inputs inputIndex
  match txIn.utxoEntry with
  | none => .error (.panic "invalid memory address or nil pointer dereference")
  | some entry => .ok (txIn, entry)

/-- Returns the hash and the reused values after the call. -/
def calculateSignatureHashSchnorr (reusedValues : SighashReusedValues) :
    Except Failure (DomainHash × SighashReusedValues) :=
  if isStandardSigHashType hashType then do
    let (txIn, entry) ← signedInput tx inputIndex
    .ok (calculateSignatureHash hashes tx inputIndex txIn entry hashType reusedValues)
  else
    .error (.error ("SigHashType " ++ toString hashType ++ " is not a valid SigHash type"))

def calculateSignatureHashECDSA (reusedValues : SighashReusedValues) :
    Except Failure (DomainHash × SighashReusedValues) := do
  let (hash, reusedValues) ←
    calculateSignatureHashSchnorr hashes tx inputIndex hashType reusedValues
  .ok (hashes.transactionSigningECDSA (hashByteSlice hash), reusedValues)

end

/-- The signature hash of one of the two schemes. -/
def signatureHash (scheme : Scheme) (tx : DomainTransaction) (inputIndex : Nat)
    (hashType : SigHashType) (reusedValues : SighashReusedValues) :
    Except Failure (DomainHash × SighashReusedValues) :=
  match scheme with
  | .schnorr => calculateSignatureHashSchnorr hashes tx inputIndex hashType reusedValues
  | .ecdsa => calculateSignatureHashECDSA hashes tx inputIndex hashType reusedValues

/-- A call for an input of the transaction. -/
structure SighashCall where
  scheme : Scheme
  inputIndex : Nat
  hashType : SigHashType

/-- The reused values after a call. A call that fails has not set any. -/
def reusedAfter (tx : DomainTransaction) (reusedValues : SighashReusedValues) (call : SighashCall) :
    SighashReusedValues :=
  match signatureHash hashes call.scheme tx call.inputIndex call.hashType reusedValues with
  | .ok (_, reusedValues) => reusedValues
  | .error _ => reusedValues

/-! ## Reused values change nothing -/

/-- What is kept is what would be computed. -/
structure SighashReusedValues.Of (tx : DomainTransaction) (reused : SighashReusedValues) :
    Prop where
  previousOutputs : ∀ hash ∈ reused.previousOutputsHash,
    hash = hashes.transactionSigning (previousOutputsString tx)
  sequences : ∀ hash ∈ reused.sequencesHash, hash = hashes.transactionSigning (sequencesString tx)
  sigOpCounts : ∀ hash ∈ reused.sigOpCountsHash,
    hash = hashes.transactionSigning (sigOpCountsString tx)
  outputs : ∀ hash ∈ reused.outputsHash, hash = hashes.transactionSigning (outputsString tx)
  payload : tx.subnetworkID ≠ subnetworkIDNative → ∀ hash ∈ reused.payloadHash,
    hash = hashes.transactionSigning (writeVarBytes tx.payload)

/-- From every state with the invariant a computation returns the value and keeps the invariant. -/
def Gives {σ α : Type} (P : σ → Prop) (m : StateM σ α) (value : α) : Prop :=
  ∀ s, P s → (m s).1 = value ∧ P (m s).2

lemma Gives.pure (value : α) : Gives P (Pure.pure value : StateM σ α) value :=
  fun _ hs => ⟨rfl,hs⟩

lemma Gives.bind {β : Type} {m : StateM σ α} {a : α} {f : α → StateM σ β} {b : β}
    (hm : Gives P m a) (hf : Gives P (f a) b) : Gives P (m >>= f) b := by
  intro s hs
  obtain ⟨hv,hk⟩ := hm s hs
  show (f (m s).1 (m s).2).1 = b ∧ P (f (m s).1 (m s).2).2
  rw [hv]
  exact hf _ hk

lemma Gives.ite {c : Prop} [Decidable c] {m m' : StateM σ α} {a a' : α} (hm : c → Gives P m a)
    (hm' : ¬c → Gives P m' a') :
    Gives P (if c then m else m') (if c then a else a') := by
  split
  · next hc => exact hm hc
  · next hc => exact hm' hc

variable {hashes}

/-- A field that holds the right value if any, and setting it keeps the invariant. -/
lemma gives_reuse {P : SighashReusedValues → Prop}
    {field : SighashReusedValues → Option DomainHash}
    {set : DomainHash → SighashReusedValues → SighashReusedValues} {string : List UInt8}
    (hf : ∀ reused, P reused → ∀ hash ∈ field reused, hash = hashes.transactionSigning string)
    (hs : ∀ reused, P reused → P (set (hashes.transactionSigning string) reused)) :
    Gives P (reuse hashes field set string) (hashes.transactionSigning string) := by
  intro reused hrs
  have hr : reuse hashes field set string reused = (match field reused with
      | some hash => pure hash
      | none => _ : StateM SighashReusedValues DomainHash) reused := rfl
  rw [hr]
  cases hh : field reused with
  | none => exact ⟨rfl,hs reused hrs⟩
  | some hash => exact ⟨hf reused hrs hash hh,hrs⟩

variable (hashes)

/-- The parts without reuse. -/
def freshParts (tx : DomainTransaction) (inputIndex : Nat) (hashType : SigHashType) :
    SighashParts where
  previousOutputsHash :=
    if isSigHashAnyOneCanPay hashType then zeroHash
    else hashes.transactionSigning (previousOutputsString tx)
  sequencesHash :=
    if isSigHashSingle hashType || isSigHashAnyOneCanPay hashType || isSigHashNone hashType then
      zeroHash
    else hashes.transactionSigning (sequencesString tx)
  sigOpCountsHash :=
    if isSigHashAnyOneCanPay hashType then zeroHash
    else hashes.transactionSigning (sigOpCountsString tx)
  outputsHash :=
    if isSigHashNone hashType then zeroHash
    else if isSigHashSingle hashType then
      match tx.outputs[inputIndex]? with
      | none => zeroHash
      | some output => hashes.transactionSigning (hashTxOut output)
    else hashes.transactionSigning (outputsString tx)
  payloadHash :=
    if tx.subnetworkID = subnetworkIDNative then zeroHash
    else hashes.transactionSigning (writeVarBytes tx.payload)

/-- Hashes a string for a signature. -/
def SigningHashes.ofScheme (scheme : Scheme) (string : List UInt8) : DomainHash :=
  match scheme with
  | .schnorr => hashes.transactionSigning string
  | .ecdsa => hashes.transactionSigningECDSA (hashByteSlice (hashes.transactionSigning string))

/-- The signature hash without reuse. -/
def freshSignatureHash (scheme : Scheme) (tx : DomainTransaction) (inputIndex : Nat)
    (hashType : SigHashType) : Except Failure DomainHash :=
  if isStandardSigHashType hashType then do
    let (txIn, entry) ← signedInput tx inputIndex
    .ok (hashes.ofScheme scheme
      (signatureString tx txIn entry hashType (freshParts hashes tx inputIndex hashType)))
  else
    .error (.error ("SigHashType " ++ toString hashType ++ " is not a valid SigHash type"))

variable {hashes} {reused : SighashReusedValues}

lemma SighashReusedValues.Of.empty : SighashReusedValues.empty.Of hashes tx := by
  constructor <;> simp [SighashReusedValues.empty]

lemma precomputeSighashReusedValues_of :
    (precomputeSighashReusedValues hashes tx).Of hashes tx := by
  constructor
  case payload =>
    intro hn _ hh
    rw [precomputeSighashReusedValues,if_neg hn] at hh
    exact (Option.some.inj hh).symm
  all_goals simp [precomputeSighashReusedValues]

section
variable (inputIndex : Nat) (hashType : SigHashType)
include inputIndex hashType

lemma gives_getPreviousOutputsHash :
    Gives (·.Of hashes tx) (getPreviousOutputsHash hashes tx hashType)
      (freshParts hashes tx inputIndex hashType).previousOutputsHash := by
  refine .ite (fun _ => .pure _) fun _ => ?_
  refine gives_reuse (fun reused h => h.previousOutputs) fun reused h => { h with
    previousOutputs := fun _ hh => (Option.some.inj hh).symm }

lemma gives_getSequencesHash :
    Gives (·.Of hashes tx) (getSequencesHash hashes tx hashType)
      (freshParts hashes tx inputIndex hashType).sequencesHash := by
  refine .ite (fun _ => .pure _) fun _ => ?_
  refine gives_reuse (fun reused h => h.sequences) fun reused h => { h with
    sequences := fun _ hh => (Option.some.inj hh).symm }

lemma gives_getSigOpCountsHash :
    Gives (·.Of hashes tx) (getSigOpCountsHash hashes tx hashType)
      (freshParts hashes tx inputIndex hashType).sigOpCountsHash := by
  refine .ite (fun _ => .pure _) fun _ => ?_
  refine gives_reuse (fun reused h => h.sigOpCounts) fun reused h => { h with
    sigOpCounts := fun _ hh => (Option.some.inj hh).symm }

lemma gives_getOutputsHash :
    Gives (·.Of hashes tx) (getOutputsHash hashes tx inputIndex hashType)
      (freshParts hashes tx inputIndex hashType).outputsHash := by
  refine .ite (fun _ => .pure _) fun _ => .ite (fun _ => ?_) fun _ => ?_
  · cases tx.outputs[inputIndex]? with
    | none => exact .pure _
    | some _ => exact .pure _
  · refine gives_reuse (fun reused h => h.outputs) fun reused h => { h with
      outputs := fun _ hh => (Option.some.inj hh).symm }

lemma gives_getPayloadHash :
    Gives (·.Of hashes tx) (getPayloadHash hashes tx)
      (freshParts hashes tx inputIndex hashType).payloadHash := by
  refine .ite (fun _ => .pure _) fun hn => ?_
  refine gives_reuse (fun reused h => h.payload hn) fun reused h => { h with
    payload := fun _ _ hh => (Option.some.inj hh).symm }

lemma gives_getParts :
    Gives (·.Of hashes tx) (getParts hashes tx inputIndex hashType)
      (freshParts hashes tx inputIndex hashType) :=
  (gives_getPreviousOutputsHash inputIndex hashType).bind <|
    (gives_getSequencesHash inputIndex hashType).bind <|
    (gives_getSigOpCountsHash inputIndex hashType).bind <|
    (gives_getOutputsHash inputIndex hashType).bind <|
    (gives_getPayloadHash inputIndex hashType).bind (.pure _)

end

section
variable (h : reused.Of hashes tx)
include h

/-- A call with reused values of the transaction returns the fresh hash, or fails as the fresh
computation does, and leaves reused values of the transaction. -/
lemma signatureHash_eq_fresh (scheme : Scheme) (inputIndex : Nat) (hashType : SigHashType) :
    ∃ after : SighashReusedValues, after.Of hashes tx ∧
      signatureHash hashes scheme tx inputIndex hashType reused =
        (freshSignatureHash hashes scheme tx inputIndex hashType).map (·, after) := by
  obtain ⟨after,ha,heq⟩ : ∃ after : SighashReusedValues, after.Of hashes tx ∧
      calculateSignatureHashSchnorr hashes tx inputIndex hashType reused =
        (freshSignatureHash hashes .schnorr tx inputIndex hashType).map (·, after) := by
    rw [calculateSignatureHashSchnorr,freshSignatureHash]
    split
    · cases signedInput tx inputIndex with
      | error _ => exact ⟨reused,h,rfl⟩
      | ok signed =>
        obtain ⟨hv,hk⟩ := (gives_getParts inputIndex hashType).bind
          (f := fun parts => pure (hashes.transactionSigning
            (signatureString tx signed.1 signed.2 hashType parts))) (.pure _) reused h
        exact ⟨_,hk,congrArg Except.ok (Prod.ext hv rfl)⟩
    · exact ⟨reused,h,rfl⟩
  refine ⟨after,ha,?_⟩
  cases scheme with
  | schnorr => exact heq
  | ecdsa =>
    rw [signatureHash,calculateSignatureHashECDSA,heq,freshSignatureHash,freshSignatureHash]
    split
    · cases signedInput tx inputIndex <;> rfl
    · rfl

lemma reusedAfter_of (call : SighashCall) : (reusedAfter hashes tx reused call).Of hashes tx := by
  obtain ⟨_,ha,heq⟩ := signatureHash_eq_fresh h call.scheme call.inputIndex call.hashType
  rw [reusedAfter,heq]
  cases freshSignatureHash hashes call.scheme tx call.inputIndex call.hashType with
  | error _ => exact h
  | ok _ => exact ha

lemma foldl_reusedAfter_of
    (calls : List SighashCall) : (calls.foldl (reusedAfter hashes tx) reused).Of hashes tx := by
  induction calls generalizing reused with
  | nil => exact h
  | cons call calls ih => exact ih (reusedAfter_of h call)

lemma map_fst_signatureHash (scheme : Scheme) (inputIndex : Nat) (hashType : SigHashType) :
    (signatureHash hashes scheme tx inputIndex hashType reused).map Prod.fst =
      freshSignatureHash hashes scheme tx inputIndex hashType := by
  obtain ⟨_,-,heq⟩ := signatureHash_eq_fresh h scheme inputIndex hashType
  rw [heq]
  cases freshSignatureHash hashes scheme tx inputIndex hashType <;> rfl

end
end

/-! ## What the hash binds -/

/-- The values that the string for a signature is made of. -/
private structure Signing where
  tx : DomainTransaction
  txIn : DomainTransactionInput
  entry : UTXOEntry
  hashType : SigHashType
  parts : SighashParts

private lemma delimited_signatureString :
    Delimited (fun s : Signing => s.entry.scriptPublicKey.script.length < 2^63)
      (fun s => signatureString s.tx s.txIn s.entry s.hashType s.parts)
      (fun s => (s.tx.version, s.parts, s.txIn.previousOutpoint, s.entry.scriptPublicKey,
        s.entry.amount, s.txIn.sequence, s.txIn.sigOpCount, s.tx.lockTime, s.tx.subnetworkID,
        s.tx.gas)) := by
  have hpr : ∀ part : SighashParts → DomainHash,
      Delimited (fun _ => True) (fun s : Signing => hashByteSlice (part s.parts))
        (fun s => part s.parts) := fun part =>
    delimited_hashByteSlice.comap fun s : Signing => part s.parts
  refine ((((((((((((((((delimited_putUint16.comap fun s : Signing => s.tx.version).append
    (hpr (·.previousOutputsHash))).append (hpr (·.sequencesHash))).append
    (hpr (·.sigOpCountsHash))).append
    (delimited_writeOutpoint.comap fun s : Signing => s.txIn.previousOutpoint)).append
    (delimited_putUint16.comap fun s : Signing => s.entry.scriptPublicKey.version)).append
    (delimited_writeVarBytes.comap fun s : Signing => s.entry.scriptPublicKey.script)).append
    (delimited_putUint64.comap fun s : Signing => s.entry.amount)).append
    (delimited_putUint64.comap fun s : Signing => s.txIn.sequence)).append
    (delimited_byte.comap fun s : Signing => s.txIn.sigOpCount)).append
    (hpr (·.outputsHash))).append
    (delimited_putUint64.comap fun s : Signing => s.tx.lockTime)).append
    (delimited_subnetworkIDBytes.comap fun s : Signing => s.tx.subnetworkID)).append
    (delimited_putUint64.comap fun s : Signing => s.tx.gas)).append
    (hpr (·.payloadHash))).append
    (delimited_byte.comap fun s : Signing => s.hashType)).mono (fun s h => ?_) ?_
  · simpa using h
  · rintro ⟨tx,txIn,entry,hashType,parts⟩ ⟨_,_,_,_,_⟩ h
    obtain ⟨_,_,_,_,_⟩ := parts
    obtain ⟨amount,⟨script,version⟩,_,_⟩ := entry
    simp_all

lemma previousOutpoints_eq (h : previousOutputsString t = previousOutputsString u) :
    t.inputs.map (·.previousOutpoint) = u.inputs.map (·.previousOutpoint) := by
  refine (delimited_writeOutpoint.comap DomainTransactionInput.previousOutpoint).flatMap_view_eq
    (fun _ hn => ?_) (by simp) (by simp) h
  have hl := congrArg length hn
  simp [writeOutpoint,length_hashByteSlice] at hl

lemma sequences_eq (h : sequencesString t = sequencesString u) :
    t.inputs.map (·.sequence) = u.inputs.map (·.sequence) := by
  refine (delimited_putUint64.comap DomainTransactionInput.sequence).flatMap_view_eq
    (fun _ hn => ?_) (by simp) (by simp) h
  have hl := congrArg length hn
  simp [putUint64] at hl

lemma sigOpCounts_eq (h : sigOpCountsString t = sigOpCountsString u) :
    t.inputs.map (·.sigOpCount) = u.inputs.map (·.sigOpCount) :=
  (delimited_byte.comap DomainTransactionInput.sigOpCount).flatMap_view_eq
    (fun _ => cons_ne_nil _ _) (by simp) (by simp) h

lemma outputs_eq (ht : t.IsRepresentable) (hu : u.IsRepresentable)
    (h : outputsString t = outputsString u) : t.outputs = u.outputs := by
  have hv := delimited_writeTxOut.flatMap_view_eq (fun _ hn => ?_) ht.scripts hu.scripts h
  · simpa using hv
  · have hl := congrArg length hn
    simp [writeTxOut,putUint64] at hl

/-- What two signatures for `SigHashAll` agree on. -/
structure SignedAlike (t : DomainTransaction) (i : Nat) (u : DomainTransaction) (j : Nat) :
    Prop where
  version : t.version = u.version
  previousOutpoints : t.inputs.map (·.previousOutpoint) = u.inputs.map (·.previousOutpoint)
  sequences : t.inputs.map (·.sequence) = u.inputs.map (·.sequence)
  sigOpCounts : t.inputs.map (·.sigOpCount) = u.inputs.map (·.sigOpCount)
  outputs : t.outputs = u.outputs
  lockTime : t.lockTime = u.lockTime
  subnetworkID : t.subnetworkID = u.subnetworkID
  gas : t.gas = u.gas
  payload : t.subnetworkID ≠ subnetworkIDNative → t.payload = u.payload
  signed : ∃ txIn entry txIn' entry', signedInput t i = .ok (txIn, entry) ∧
    signedInput u j = .ok (txIn', entry') ∧
    txIn.previousOutpoint = txIn'.previousOutpoint ∧ txIn.sequence = txIn'.sequence ∧
    txIn.sigOpCount = txIn'.sigOpCount ∧ entry.amount = entry'.amount ∧
    entry.scriptPublicKey = entry'.scriptPublicKey

section
variable (hashes : SigningHashes)

/-- The strings hashed for `SigHashAll`, the string for the signature last. -/
def hashedStrings (tx : DomainTransaction) (inputIndex : Nat) : List (List UInt8) :=
  [previousOutputsString tx,sequencesString tx,sigOpCountsString tx,outputsString tx] ++
    (if tx.subnetworkID = subnetworkIDNative then [] else [writeVarBytes tx.payload]) ++
    match signedInput tx inputIndex with
    | .ok (txIn, entry) =>
      [signatureString tx txIn entry sigHashAll (freshParts hashes tx inputIndex sigHashAll)]
    | .error _ => []

/-- The string hashed for an ECDSA signature after that. -/
def hashedStringsECDSA (tx : DomainTransaction) (inputIndex : Nat) : List (List UInt8) :=
  match freshSignatureHash hashes .schnorr tx inputIndex sigHashAll with
  | .ok hash => [hashByteSlice hash]
  | .error _ => []

/-- The hash functions are injective on the strings that are hashed for two signatures. No
function from all strings to hashes is injective. -/
structure SigningHashes.InjectiveOn (t : DomainTransaction) (i : Nat) (u : DomainTransaction)
    (j : Nat) : Prop where
  transactionSigning : Set.InjOn hashes.transactionSigning
    {string | string ∈ hashedStrings hashes t i ++ hashedStrings hashes u j}
  transactionSigningECDSA : Set.InjOn hashes.transactionSigningECDSA
    {string | string ∈ hashedStringsECDSA hashes t i ++ hashedStringsECDSA hashes u j}

variable {hashes} {i j : Nat}

lemma freshParts_sigHashAll (tx : DomainTransaction) (inputIndex : Nat) :
    freshParts hashes tx inputIndex sigHashAll =
      ⟨hashes.transactionSigning (previousOutputsString tx),
        hashes.transactionSigning (sequencesString tx),
        hashes.transactionSigning (sigOpCountsString tx),
        hashes.transactionSigning (outputsString tx),
        if tx.subnetworkID = subnetworkIDNative then zeroHash
        else hashes.transactionSigning (writeVarBytes tx.payload)⟩ :=
  rfl

lemma signatureString_mem_hashedStrings (h : signedInput tx i = .ok (txIn, entry)) :
    signatureString tx txIn entry sigHashAll (freshParts hashes tx i sigHashAll) ∈
      hashedStrings hashes tx i := by
  simp [hashedStrings,h]

lemma hashByteSlice_mem_hashedStringsECDSA (h : signedInput tx i = .ok (txIn, entry)) :
    hashByteSlice (hashes.transactionSigning
        (signatureString tx txIn entry sigHashAll (freshParts hashes tx i sigHashAll))) ∈
      hashedStringsECDSA hashes tx i := by
  rw [hashedStringsECDSA,freshSignatureHash,h]
  exact mem_singleton.2 rfl

/-- Equal signature hashes come from equal strings. -/
lemma signatureString_eq (hi : hashes.InjectiveOn t i u j)
    (ht : freshSignatureHash hashes scheme t i sigHashAll = .ok hash)
    (hu : freshSignatureHash hashes scheme u j sigHashAll = .ok hash) :
    ∃ txIn entry txIn' entry', signedInput t i = .ok (txIn, entry) ∧
      signedInput u j = .ok (txIn', entry') ∧
      signatureString t txIn entry sigHashAll (freshParts hashes t i sigHashAll) =
        signatureString u txIn' entry' sigHashAll (freshParts hashes u j sigHashAll) := by
  obtain ⟨⟨txIn,entry⟩,hin,ht⟩ := bind_eq_ok ht
  obtain ⟨⟨txIn',entry'⟩,hin',hu⟩ := bind_eq_ok hu
  have heq := Except.ok.inj (ht.trans hu.symm)
  refine ⟨txIn,entry,txIn',entry',hin,hin',?_⟩
  have hs := hi.transactionSigning
    (mem_append_left _ (signatureString_mem_hashedStrings hin))
    (mem_append_right _ (signatureString_mem_hashedStrings hin'))
  cases scheme with
  | schnorr => exact hs heq
  | ecdsa =>
    have hb := hi.transactionSigningECDSA
      (mem_append_left _ (hashByteSlice_mem_hashedStringsECDSA hin))
      (mem_append_right _ (hashByteSlice_mem_hashedStringsECDSA hin')) heq
    exact hs (hashByteSlice_injective hb)

lemma signedInput_eq_ok (h : signedInput tx i = .ok (txIn, entry)) :
    txIn ∈ tx.inputs ∧ txIn.utxoEntry = some entry := by
  obtain ⟨input,hi,h⟩ := bind_eq_ok h
  cases he : input.utxoEntry with
  | none => simp [he] at h
  | some _ =>
    simp only [he,Except.ok.injEq,Prod.mk.injEq] at h
    obtain ⟨rfl,rfl⟩ := h
    exact ⟨mem_of_indexSlice hi,he⟩

lemma signedAlike_of_signatureHash_eq (htu : t.IsRepresentable ∧ u.IsRepresentable)
    (hi : hashes.InjectiveOn t i u j)
    (ht : freshSignatureHash hashes scheme t i sigHashAll = .ok hash)
    (hu : freshSignatureHash hashes scheme u j sigHashAll = .ok hash) : SignedAlike t i u j := by
  obtain ⟨txIn,entry,txIn',entry',hin,hi',hst⟩ := signatureString_eq hi ht hu
  obtain ⟨hm,he⟩ := signedInput_eq_ok hin
  obtain ⟨hm',he'⟩ := signedInput_eq_ok hi'
  have hv := delimited_signatureString.view_eq
    (a := ⟨t,txIn,entry,sigHashAll,freshParts hashes t i sigHashAll⟩)
    (b := ⟨u,txIn',entry',sigHashAll,freshParts hashes u j sigHashAll⟩)
    (htu.1.entries txIn hm entry he) (htu.2.entries txIn' hm' entry' he') hst
  simp only [freshParts_sigHashAll,Prod.mk.injEq,SighashParts.mk.injEq] at hv
  obtain ⟨_,⟨hp,hsq,hs,ho,hpy⟩,hop,hsc,ham,hse,hso,_,hsi,_⟩ := hv
  -- the hashed lists are equal as well
  have hinj : ∀ {a b}, hashes.transactionSigning a = hashes.transactionSigning b →
      a ∈ hashedStrings hashes t i → b ∈ hashedStrings hashes u j → a = b := fun heq ha hb =>
    hi.transactionSigning (mem_append_left _ ha) (mem_append_right _ hb) heq
  constructor
  case previousOutpoints =>
    apply previousOutpoints_eq (hinj hp _ _) <;> simp [hashedStrings]
  case sequences =>
    apply sequences_eq (hinj hsq _ _) <;> simp [hashedStrings]
  case sigOpCounts =>
    apply sigOpCounts_eq (hinj hs _ _) <;> simp [hashedStrings]
  case outputs =>
    apply outputs_eq htu.1 htu.2 (hinj ho _ _) <;> simp [hashedStrings]
  case payload =>
    intro hnt
    have hn' : u.subnetworkID ≠ subnetworkIDNative := hsi ▸ hnt
    rw [if_neg hnt,if_neg hn'] at hpy
    apply delimited_writeVarBytes.view_eq htu.1.payload htu.2.payload (hinj hpy _ _) <;>
      simp [hashedStrings,hnt,hn']
  case signed =>
    exact ⟨txIn,entry,txIn',entry',hin,hi',hop,hse,hso,ham,hsc⟩
  all_goals assumption

end

/-- Signatures for `SigHashAll` with the same hash are for transactions that agree on all but the
signature scripts and the payload of native transactions. Values reused from earlier calls for
the transaction, or precomputed ones, change no signature hash. -/
theorem signatureHash_binding (hashes : SigningHashes) (scheme : Scheme) :
    (∀ t u i j hash, t.IsRepresentable ∧ u.IsRepresentable → hashes.InjectiveOn t i u j →
      (signatureHash hashes scheme t i sigHashAll .empty).map Prod.fst = .ok hash →
      (signatureHash hashes scheme u j sigHashAll .empty).map Prod.fst = .ok hash →
      SignedAlike t i u j) ∧
    ∀ tx start (calls : List SighashCall) i hashType,
      start = .empty ∨ start = precomputeSighashReusedValues hashes tx →
      (signatureHash hashes scheme tx i hashType
        (calls.foldl (reusedAfter hashes tx) start)).map Prod.fst =
      (signatureHash hashes scheme tx i hashType .empty).map Prod.fst := by
  constructor
  · intro t u i j hash htu hi ht hu
    rw [map_fst_signatureHash .empty] at ht hu
    exact signedAlike_of_signatureHash_eq htu hi ht hu
  · intro tx start calls i hashType hs
    have hof : start.Of hashes tx := by
      obtain rfl | rfl := hs
      · exact .empty
      · exact precomputeSighashReusedValues_of
    rw [map_fst_signatureHash (foldl_reusedAfter_of hof calls),map_fst_signatureHash .empty]

/-- A native transaction that spends one output. -/
private def nativeTx (script payload : List UInt8) : DomainTransaction :=
  ⟨0,[⟨⟨7,0⟩,script,3,1,some ⟨5,⟨[0x51],0⟩,false,9⟩⟩],[⟨4,⟨[0x52],0⟩⟩],0,
    subnetworkIDNative,0,payload⟩

private lemma nativeTx_isRepresentable (script payload : List UInt8)
    (hs : script.length < 2^63) (hp : payload.length < 2^63) :
    (nativeTx script payload).IsRepresentable := by
  constructor <;> simp [nativeTx] <;> assumption

/-- The length of a string, which is injective on the few strings of the sample. -/
private def lengthHashes : SigningHashes where
  transactionSigning := fun string => Fin.ofNat _ string.length
  transactionSigningECDSA := fun string => Fin.ofNat _ string.length

private lemma injOn_of_forall_mem {α β : Type} {f : α → β} {as : List α}
    (h : ∀ a ∈ as, ∀ b ∈ as, f a = f b → a = b) : Set.InjOn f {a | a ∈ as} :=
  fun a ha b hb => h a ha b hb

/-- A transaction without and with a signature script. -/
theorem signatureHash_binding_signed : SignedAlike (nativeTx [] []) 0 (nativeTx [1,2] []) 0 := by
  refine (signatureHash_binding lengthHashes .ecdsa).1 _ _ 0 0 32
    ⟨nativeTx_isRepresentable _ _ (by decide) (by decide),
      nativeTx_isRepresentable _ _ (by decide) (by decide)⟩ ⟨?_,?_⟩ (by decide +kernel)
    (by decide +kernel)
  · exact injOn_of_forall_mem (by decide +kernel)
  · exact injOn_of_forall_mem (by decide +kernel)

/-- Whatever the hash functions are, the payload of a native transaction is not bound. -/
theorem signatureHash_ignores_native_payload :
    ∃ t u : DomainTransaction, t.IsRepresentable ∧ u.IsRepresentable ∧ t.payload ≠ u.payload ∧
      ∀ hashes scheme, ∃ hash,
        (signatureHash hashes scheme t 0 sigHashAll .empty).map Prod.fst = .ok hash ∧
        (signatureHash hashes scheme u 0 sigHashAll .empty).map Prod.fst = .ok hash := by
  refine ⟨nativeTx [] [],nativeTx [] [1],nativeTx_isRepresentable _ _ (by decide) (by decide),
    nativeTx_isRepresentable _ _ (by decide) (by decide),by decide,fun hashes scheme => ?_⟩
  rw [map_fst_signatureHash .empty,map_fst_signatureHash .empty]
  exact ⟨_,rfl,rfl⟩

end Eiyaro
