import Eiyaro.Script.Engine
import Eiyaro.Script.Parse

/-!
# What an opcode does to the engine

An opcode leaves the scripts, the program counter and the transaction alone, makes the stacks
grow by at most three items and verifies a bounded number of signatures. It only panics where a
signature hash needs the entry of the spent output and the transaction does not have it.
-/

namespace Eiyaro.TxScript
open EStateM Stack Nat
variable {E : ScriptFailure → Engine → Prop} {e : ScriptFailure} {vm : Engine} {α : Type}
  {Q : α → Engine → Prop}

lemma wp_onDataStack {x : StackM α} : wp (onDataStack x) Q E vm ↔
      wp x (fun a stk => Q a { vm with dstack := stk })
        (fun e stk => E e { vm with dstack := stk }) vm.dstack := by
  unfold wp onDataStack
  cases x vm.dstack with
  | ok a stk => exact Iff.rfl
  | error e stk => exact Iff.rfl

lemma wp_onAltStack {x : StackM α} : wp (onAltStack x) Q E vm ↔
      wp x (fun a stk => Q a { vm with astack := stk })
        (fun e stk => E e { vm with astack := stk }) vm.astack := by
  unfold wp onAltStack
  cases x vm.astack with
  | ok a stk => exact Iff.rfl
  | error e stk => exact Iff.rfl

namespace Engine

def depth (vm : Engine) : Nat :=
  vm.dstack.length+vm.astack.length

/-- The engine runs for an input of its transaction that has its entry. -/
def Spends (vm : Engine) : Prop :=
  ∃ input, vm.tx.inputs[vm.txIdx]? = some input ∧ input.utxoEntry.isSome

end Engine

/-- At most `k` items and `v` verifications more, and nothing else that outlives an opcode. -/
structure Effect (k v : Nat) (vm vm' : Engine) : Prop where
  scriptVersion : vm'.scriptVersion = vm.scriptVersion
  scripts : vm'.scripts = vm.scripts
  scriptIdx : vm'.scriptIdx = vm.scriptIdx
  scriptOff : vm'.scriptOff = vm.scriptOff
  tx : vm'.tx = vm.tx
  txIdx : vm'.txIdx = vm.txIdx
  isP2SH : vm'.isP2SH = vm.isP2SH
  savedFirstStack : vm'.savedFirstStack = vm.savedFirstStack
  depth : vm'.depth ≤ vm.depth+k
  verifications : vm'.verifications ≤ vm.verifications+v

namespace Effect
variable {j k u v : Nat} {vm' vm'' : Engine}

lemma refl (vm : Engine) : Effect 0 0 vm vm :=
  ⟨rfl,rfl,rfl,rfl,rfl,rfl,rfl,rfl,le_refl _,le_refl _⟩

lemma trans (h : Effect j u vm vm') (h' : Effect k v vm' vm'') : Effect (j+k) (u+v) vm vm'' where
  scriptVersion := h'.scriptVersion.trans h.scriptVersion
  scripts := h'.scripts.trans h.scripts
  scriptIdx := h'.scriptIdx.trans h.scriptIdx
  scriptOff := h'.scriptOff.trans h.scriptOff
  tx := h'.tx.trans h.tx
  txIdx := h'.txIdx.trans h.txIdx
  isP2SH := h'.isP2SH.trans h.isP2SH
  savedFirstStack := h'.savedFirstStack.trans h.savedFirstStack
  depth := by
    have := h.depth
    have := h'.depth
    omega
  verifications := by
    have := h.verifications
    have := h'.verifications
    omega

lemma mono (h : Effect j u vm vm') (hjk : j ≤ k) (huv : u ≤ v) : Effect k v vm vm' :=
  { h with
    depth := Nat.le_trans h.depth (Nat.add_le_add_left hjk _)
    verifications := Nat.le_trans h.verifications (Nat.add_le_add_left huv _) }

lemma spends (h : Effect k v vm vm') : vm'.Spends ↔ vm.Spends := by
  unfold Engine.Spends
  rw [h.tx,h.txIdx]

end Effect

/-- The engine counterpart of `StackTame`. -/
def Tame {α : Type} (k v : Nat) (P : α → Prop) (x : ScriptM α) : Prop :=
  ∀ vm : Engine, (vm.depth+k : Nat) ≤ maxInt32 →
    wp x (fun a vm' => P a ∧ Effect k v vm vm') (fun e _ => vm.Spends → e.isPanic = false) vm

/-- `Tame` with any result. -/
abbrev Grows {α : Type} (k v : Nat) (x : ScriptM α) : Prop :=
  Tame k v (fun _ => True) x

namespace Tame
variable {β : Type} {j k u v : Nat} {P : α → Prop} {R : β → Prop} {f : α → ScriptM β}
  {x : ScriptM α}

lemma pure {a : α} (h : P a) : Tame 0 0 P (pure a) :=
  fun vm _ => ⟨h,.refl vm⟩

lemma bind (hx : Tame j u P x)
    (hf : ∀ a, P a → Tame k v R (f a)) : Tame (j+k) (u+v) R (x >>= f) := by
  intro vm _
  rw [wp_bind]
  refine (hx vm (by omega)).imp (fun a vm' h => ?_)
  have hd := h.2.depth
  refine (hf a h.1 vm' (by omega)).mono (fun _ _ h' => ⟨h'.1,h.2.trans h'.2⟩) ?_
  intro _ _ he hs
  exact he (h.2.spends.2 hs)

/-- What comes first adds and verifies nothing. -/
lemma seq (hx : Tame 0 0 P x) (hf : ∀ a, P a → Tame k v R (f a)) : Tame k v R (x >>= f) := by
  have h := hx.bind hf
  rwa [zero_add,zero_add] at h

lemma mono {P' : α → Prop} (hx : Tame j u P x) (hjk : j ≤ k) (huv : u ≤ v)
    (hP : ∀ a, P a → P' a) : Tame k v P' x := by
  intro vm _
  exact (hx vm (by omega)).imp (fun a _ h => ⟨hP a h.1,h.2.mono hjk huv⟩)

/-- `bind` with the sums written by the caller. -/
lemma bind_le {k' v' : Nat} (hx : Tame j u P x)
    (hf : ∀ a, P a → Tame k v R (f a)) (hk : j+k ≤ k') (hv : u+v ≤ v') :
    Tame k' v' R (x >>= f) :=
  (hx.bind hf).mono hk hv fun _ h => h

lemma ite {c : Prop} [Decidable c] {y : ScriptM α} (hx : c → Tame k v P x) (hy : ¬c → Tame k v P y)
    : Tame k v P (if c then x else y) :=
  fun vm hvm => wp_ite (fun h => hx h vm hvm) fun h => hy h vm hvm

lemma failWith (code : ErrorCode) (description : String) :
    Tame k v P (failWith code description : ScriptM α) :=
  fun _ _ _ => rfl

/-- The state is read first. -/
lemma get {f : Engine → ScriptM α} (h : ∀ vm, Tame k v P (f vm)) : Tame k v P (get >>= f) := by
  intro vm hvm
  exact h vm vm hvm

lemma modify {f : Engine → Engine} (h : ∀ vm, Effect k v vm (f vm)) :
    Grows k v (modify f : ScriptM PUnit) :=
  fun vm _ => ⟨trivial,h vm⟩

lemma onDataStack {x : StackM α} (hx : StackTame k P x) : Tame k 0 P (onDataStack x) := by
  intro vm _
  have hd : vm.depth = vm.dstack.length+vm.astack.length := rfl
  rw [wp_onDataStack]
  refine (hx vm.dstack (by omega)).mono (fun _ stk h => ⟨h.1,rfl,rfl,rfl,rfl,rfl,rfl,rfl,rfl,
    ?_,le_refl _⟩) fun _ _ he _ => he
  show stk.length+vm.astack.length ≤ vm.depth+k
  omega

lemma onAltStack {x : StackM α} (hx : StackTame k P x) : Tame k 0 P (onAltStack x) := by
  intro vm _
  have hd : vm.depth = vm.dstack.length+vm.astack.length := rfl
  rw [wp_onAltStack]
  refine (hx vm.astack (by omega)).mono (fun _ stk h => ⟨h.1,rfl,rfl,rfl,rfl,rfl,rfl,rfl,rfl,
    ?_,le_refl _⟩) fun _ _ he _ => he
  show vm.dstack.length+stk.length ≤ vm.depth+k
  omega

end Tame

/-- Computations that add no item and verify nothing. -/
abbrev Quiet {α : Type} (P : α → Prop) (x : ScriptM α) : Prop :=
  Tame 0 0 P x

/-! ## Opcodes without signatures -/

/-- Only the stack of conditionals changes. -/
lemma setCondStack_effect (vm : Engine) (condStack : List CondValue) :
    Effect 0 0 vm { vm with condStack := condStack } :=
  { Effect.refl vm with }

lemma setNumOps_effect (vm : Engine) (numOps : Nat) : Effect 0 0 vm { vm with numOps := numOps } :=
  { Effect.refl vm with }

lemma popIfBool_quiet : Grows 0 0 popIfBool := by
  refine (Tame.onDataStack popByteArray_tame).seq fun _ _ => ?_
  split
  · exact .pure trivial
  · exact .pure trivial
  · exact .failWith _ _

lemma beginConditional_quiet (expected : Bool) : Grows 0 0 (beginConditional expected) := by
  intro vm hvm
  refine wp_ite (fun _ => ?_) fun _ => ⟨trivial,setCondStack_effect vm _⟩
  exact (popIfBool_quiet.seq fun _ _ => Tame.modify fun vm => setCondStack_effect vm _) vm hvm

lemma opcodeElse_quiet (op : ParsedOpcode) : Grows 0 0 (opcodeElse op) := by
  intro vm _
  rw [opcodeElse,wp_bind,wp_get]
  cases vm.condStack.getLast? with
  | none => exact fun _ => rfl
  | some _ => exact ⟨trivial,setCondStack_effect vm _⟩

lemma opcodeEndif_quiet (op : ParsedOpcode) : Grows 0 0 (opcodeEndif op) := by
  intro vm _
  exact wp_ite (fun _ _ => rfl) fun _ => ⟨trivial,setCondStack_effect vm _⟩

lemma abstractVerify_quiet (op : ParsedOpcode) (code : ErrorCode) :
    Grows 0 0 (abstractVerify op code) :=
  (Tame.onDataStack popBool_tame).seq fun _ _ =>
    .ite (fun _ => .pure trivial) fun _ => .failWith _ _

lemma currentInput_wp : wp currentInput
    (fun input vm' => vm' = vm ∧ vm.tx.inputs[vm.txIdx]? = some input)
    (fun e _ => vm.Spends → e.isPanic = false) vm := by
  refine wp_ofExcept (fun input h => ⟨rfl,?_⟩) fun e h hs => ?_
  · simpa using (indexAt_eq_ok h).2
  · obtain ⟨input,hi,-⟩ := hs
    have hn : ¬(vm.txIdx : Int) < 0 := by omega
    simp [indexAt,hi,hn] at h

lemma currentInput_quiet : Grows 0 0 currentInput := by
  intro vm _
  refine currentInput_wp.imp (fun _ _ h => ⟨trivial,?_⟩)
  rw [h.1]
  exact .refl vm

lemma verifyLockTime_quiet (txLockTime lockTime : UInt64) :
    Grows 0 0 (verifyLockTime txLockTime lockTime) :=
  .ite (fun _ => .failWith _ _) fun _ => .pure trivial

lemma popUint64_quiet (name : String) : Grows 0 0 (popUint64 name) :=
  (Tame.onDataStack popByteArray_tame).seq fun _ _ =>
    .ite (fun _ => .failWith _ _) fun _ => .pure trivial

lemma opcodeCheckLockTimeVerify_quiet : Grows 0 0 opcodeCheckLockTimeVerify := by
  refine (popUint64_quiet "lockTime").seq fun stackLockTime _ => .get fun vm => ?_
  have ht : Grows 0 0 (verifyLockTimeThreshold vm.tx.lockTime lockTimeThreshold stackLockTime) :=
    .ite (fun _ => .pure trivial) fun _ => .failWith _ _
  exact ht.seq fun _ _ => (verifyLockTime_quiet _ _).seq fun _ _ =>
    currentInput_quiet.seq fun _ _ => .ite (fun _ => .failWith _ _) fun _ => .pure trivial

lemma opcodeCheckSequenceVerify_quiet : Grows 0 0 opcodeCheckSequenceVerify :=
  (popUint64_quiet "sequence").seq fun _ _ => .ite (fun _ => .pure trivial) fun _ =>
    currentInput_quiet.seq fun _ _ => .ite (fun _ => .failWith _ _) fun _ =>
      verifyLockTime_quiet _ _

lemma opcodeIfDup_tame : StackGrows 1 opcodeIfDup := by
  refine (peekByteArray_tame 0).seq fun so _ => ?_
  split
  · exact pushByteArray_tame so
  · exact (StackTame.pure trivial).mono (by decide) fun _ h => h

lemma opcodeEqual_tame : StackGrows 1 opcodeEqual :=
  popByteArray_tame.seq fun _ _ => popByteArray_tame.seq fun _ _ =>
    pushBool_tame _

lemma unaryNumeric_tame {f : Int → Int} (hf : ∀ m : Int, m.natAbs < 2^32 → -2^63 < f m) :
    StackGrows 1 (unaryNumeric f) :=
  popInt_tame.seq fun m hm => pushInt_tame (hf m hm)

lemma binaryNumeric_tame {f : Int → Int → Int}
    (hf : ∀ v0 v1 : Int, v0.natAbs < 2^32 → v1.natAbs < 2^32 → -2^63 < f v0 v1) :
    StackGrows 1 (binaryNumeric f) :=
  popInt_tame.seq fun v0 h0 => popInt_tame.seq fun v1 h1 =>
    pushInt_tame (hf v0 v1 h0 h1)

lemma lt_boolToInt (b : Bool) : -2^63 < boolToInt b := by
  cases b <;> decide

/-- The result of a comparison is a number. -/
lemma comparison_tame (f : Int → Int → Bool) :
    StackGrows 1 (binaryNumeric fun v0 v1 => boolToInt (f v0 v1)) :=
  binaryNumeric_tame fun _ _ _ _ => lt_boolToInt _

lemma opcodeWithin_tame : StackGrows 1 opcodeWithin :=
  popInt_tame.seq fun _ _ => popInt_tame.seq fun _ _ =>
    popInt_tame.seq fun _ _ => pushInt_tame (lt_boolToInt _)

/-! ## Checking signatures -/

section
variable (env : ScriptEnv) (scheme : Scheme)

lemma checkPubKeyEncoding_quiet (pubKey : List UInt8) :
    Grows 0 0 (checkPubKeyEncoding scheme pubKey) :=
  .ite (fun _ => .pure trivial) fun _ => .failWith _ _

lemma checkSignatureLength_quiet (signature : List UInt8) :
    Grows 0 0 (checkSignatureLength signature) :=
  .ite (fun _ => .failWith _ _) fun _ => .pure trivial

lemma checkSigHashType_quiet (hashType : UInt8) : Grows 0 0 (checkSigHashType hashType) :=
  .ite (fun _ => .pure trivial) fun _ => .failWith _ _

lemma calculateSignatureHash_error {hashType : UInt8}
    (h : calculateSignatureHash env vm scheme hashType = .error e) (hs : vm.Spends) :
    e.isPanic = false := by
  obtain ⟨_,hi,he⟩ := hs
  obtain ⟨_,he⟩ := Option.isSome_iff_exists.1 he
  have hn : ¬(vm.txIdx : Int) < 0 := by omega
  unfold calculateSignatureHash at h
  split at h
  · simp [indexAt,hn,hi,he] at h
  · cases h
    rfl

lemma addVerification_effect (vm : Engine) :
    Effect 0 1 vm { vm with verifications := vm.verifications+1 } :=
  { Effect.refl vm with verifications := le_refl _ }

lemma setSigCache_effect (vm : Engine) (sigCache : Scheme → Option SigCache) :
    Effect 0 0 vm { vm with sigCache := sigCache } :=
  { Effect.refl vm with }

lemma verifySignature_tame (sigHash : DomainHash) (signature pubKey : List UInt8) :
    Grows 0 1 (verifySignature env scheme sigHash signature pubKey) :=
  (Tame.modify addVerification_effect).bind fun _ _ => .pure trivial

lemma verifyWithCache_tame (sigHash : DomainHash) (signature pubKey : List UInt8) :
    Grows 0 1 (verifyWithCache env scheme sigHash signature pubKey) := by
  refine .get fun vm => ?_
  cases vm.sigCache scheme with
  | none => exact verifySignature_tame env scheme sigHash signature pubKey
  | some _ =>
    refine .ite (fun _ => (Tame.pure trivial).mono (by decide) (by decide) fun _ h => h) fun _ => ?_
    refine Tame.bind_le (k := 0) (v := 0)
      (verifySignature_tame env scheme sigHash signature pubKey) (fun _ _ => ?_)
      (le_refl 0) (le_refl 1)
    refine .ite (fun _ => ?_) fun _ => .pure trivial
    exact (Tame.modify fun vm => setSigCache_effect vm _).seq fun _ _ => .pure trivial

lemma pushBool_tame (val : Bool) : Grows 1 0 (onDataStack (Stack.pushBool val)) :=
  Tame.onDataStack (Stack.pushBool_tame val)

lemma checkSig_tame : Grows 1 1 (checkSig env scheme) := by
  have hps : ∀ val, Grows 1 1 (onDataStack (pushBool val)) := fun val =>
    (pushBool_tame val).mono (by decide) (by decide) fun _ h => h
  refine (Tame.onDataStack popByteArray_tame).seq fun pkBytes _ =>
    (Tame.onDataStack popByteArray_tame).seq fun fullSigBytes _ => ?_
  cases fullSigBytes.getLast? with
  | none => exact hps false
  | some hashType =>
    refine (checkSigHashType_quiet hashType).seq fun _ _ =>
      (checkSignatureLength_quiet _).seq fun _ _ =>
        (checkPubKeyEncoding_quiet scheme pkBytes).seq fun _ _ => ?_
    intro vm hvm
    rw [wp_bind,wp_get]
    cases hh : calculateSignatureHash env vm scheme hashType with
    | error e =>
      have hp := calculateSignatureHash_error env scheme hh
      cases e with
      | panic message => exact hp
      | scriptError _ _ => exact hps false vm hvm
      | error message => exact hps false vm hvm
    | ok sigHash =>
      refine Tame.ite (k := 1) (v := 1) (fun _ => hps false) (fun _ => ?_) vm hvm
      refine Tame.bind_le (k := 1) (v := 0) (verifyWithCache_tame env scheme sigHash _ pkBytes)
        (fun valid _ => ?_) (le_refl 1) (le_refl 1)
      exact .ite (fun _ => .failWith _ _) fun _ => pushBool_tame valid

lemma checkSigInfo_tame (sigInfo : ParsedSigInfo) (pubKey : List UInt8) :
    Grows 0 1 (checkSigInfo env scheme sigInfo pubKey) := by
  have hpr : ∀ r : ParsedSigInfo × Bool, Grows 0 1 (Pure.pure r : ScriptM _) :=
    fun r => (Tame.pure trivial).mono (by decide) (by decide) fun _ h => h
  unfold checkSigInfo
  cases sigInfo.signature.getLast? with
  | none => exact hpr _
  | some hashType =>
    have hp : Grows 0 0 (parseSigInfo env scheme sigInfo hashType sigInfo.signature.dropLast) :=
      .ite (fun _ => .pure trivial) fun _ => (checkSigHashType_quiet hashType).seq fun _ _ =>
        (checkSignatureLength_quiet _).seq fun _ _ => .pure trivial
    refine hp.seq fun sigInfo _ => ?_
    cases sigInfo.parsedSignature with
    | none => exact hpr _
    | some parsedSig =>
      refine (checkPubKeyEncoding_quiet scheme pubKey).seq fun _ _ =>
        .ite (fun _ => hpr _) fun _ => ?_
      intro vm hvm
      rw [wp_bind,wp_get,wp_bind]
      refine wp_ofExcept (fun sigHash _ => ?_) fun _ h hs =>
        calculateSignatureHash_error env scheme h hs
      exact ((verifyWithCache_tame env scheme sigHash parsedSig pubKey).bind
        fun _ _ => .pure trivial) vm hvm

/-- The loop has `rest` keys to go. -/
structure MultiSigState.Inv (pubKeys : List (List UInt8)) (rest : Nat) (state : MultiSigState) :
    Prop where
  signatureIdx : 0 ≤ state.signatureIdx
  numSignatures : state.signatureIdx+state.numSignatures = state.signatures.length
  pubKeyIdx : -1 ≤ state.pubKeyIdx
  rest_eq : state.pubKeyIdx+1+rest = pubKeys.length
  numPubKeys : state.numPubKeys = rest+1

lemma multiSigLoop_tame (pubKeys : List (List UInt8)) (fuel rest : Nat) (state : MultiSigState)
    (hin : state.Inv pubKeys rest) (hf : rest < fuel) :
    Grows 0 rest (multiSigLoop env scheme pubKeys fuel state) := by
  induction fuel generalizing rest state with
  | zero => omega
  | succ fuel ih =>
    obtain ⟨hi,_,_,_,_⟩ := hin
    have hp : ∀ b : Bool, Grows 0 rest (Pure.pure b : ScriptM Bool) :=
      fun b => (Tame.pure trivial).mono (le_refl _) (zero_le _) fun _ h => h
    refine .ite (fun _ => ?_) fun _ => hp true
    refine .ite (fun _ => hp false) fun he => ?_
    dsimp only at he ⊢
    obtain ⟨sigInfo,hs⟩ := indexAt_of_lt hi
      (by omega : state.signatureIdx < state.signatures.length)
    obtain ⟨pubKey,hpk⟩ := indexAt_of_lt (by omega : 0 ≤ state.pubKeyIdx+1)
      (by omega : state.pubKeyIdx+1 < pubKeys.length)
    rw [hs,hpk]
    -- one key and at most one verification less
    have hl : 1+(rest - 1) ≤ rest := by omega
    change Tame 0 rest _ (checkSigInfo env scheme sigInfo pubKey >>= _)
    refine Tame.bind_le (j := 0) (k := 0) (checkSigInfo_tame env scheme sigInfo pubKey)
      (fun _ _ => ?_) (le_refl 0) hl
    refine .ite (fun _ => ih _ _ ⟨?_,?_,?_,?_,?_⟩ (by omega))
      fun _ => ih (rest - 1) _ ⟨?_,?_,?_,?_,?_⟩ (by omega)
    all_goals
      dsimp only
      try rw [List.length_set]
      omega

lemma countMultiSigKeys_quiet (numPubKeys : Int) :
    Quiet (fun _ => 0 ≤ numPubKeys ∧ numPubKeys ≤ 20) (countMultiSigKeys numPubKeys) := by
  refine .ite (fun _ => .failWith _ _) fun _ => .ite (fun _ => .failWith _ _) fun _ => ?_
  have hmx : (maxPubKeysPerMultiSig : Int) = 20 := rfl
  exact (Tame.modify fun vm => setNumOps_effect vm _).seq fun _ _ => .get fun vm =>
    .ite (fun _ => .failWith _ _) fun _ => .pure ⟨by omega,by omega⟩

/-- A multisig opcode verifies at most one signature for each of its keys. -/
lemma checkMultiSigOf_tame {numPubKeys : Int} {v : Nat}
    (hv : 0 ≤ numPubKeys → numPubKeys ≤ 20 → numPubKeys.toNat ≤ v) :
    Grows 1 v (checkMultiSigOf env scheme numPubKeys) := by
  refine (countMultiSigKeys_quiet numPubKeys).seq fun _ _ =>
    (Tame.onDataStack (popMany_tame numPubKeys.toNat)).seq fun pubKeys _ =>
      (Tame.onDataStack popInt_tame).seq fun numSigs _ => ?_
  have hc : Quiet (fun _ => 0 ≤ scriptNumInt32 numSigs)
      (checkMultiSigSignatureCount (scriptNumInt32 numSigs) numPubKeys) :=
    .ite (fun _ => .failWith _ _) fun _ => .ite (fun _ => .failWith _ _) fun _ =>
      .pure (by omega)
  refine hc.seq fun _ _ =>
    (Tame.onDataStack (popMany_tame _)).seq fun signatures _ => ?_
  have hi : MultiSigState.Inv pubKeys pubKeys.length
      ⟨signatures.map fun signature => ⟨signature,none,false⟩,0,scriptNumInt32 numSigs,-1,
        numPubKeys+1⟩ := by
    refine ⟨?_,?_,?_,?_,?_⟩
    · exact Int.le_refl 0
    · show 0+scriptNumInt32 numSigs = ((signatures.map _).length : Int)
      rw [List.length_map]
      omega
    · exact Int.le_refl (-1)
    · show (-1 : Int)+1+_ = _
      omega
    · show numPubKeys+1 = _
      omega
  have hl := multiSigLoop_tame env scheme pubKeys (pubKeys.length+2) pubKeys.length _ hi (by omega)
  refine ((hl.bind fun success _ => Tame.ite (k := 1) (v := 0) (fun _ => .failWith _ _)
    fun _ => pushBool_tame success)).mono (by decide) ?_ fun _ h => h
  omega

lemma checkMultiSig_tame : Grows 1 20 (checkMultiSig env scheme) :=
  (Tame.onDataStack popInt_tame).seq fun _ _ =>
    checkMultiSigOf_tame env scheme fun _ _ => by omega

end

/-! ## All opcodes -/

section
variable (env : ScriptEnv)

def OpFunc.maxVerifications : OpFunc → Nat
  | opcodeCheckSig => 1
  | opcodeCheckSigVerify => 1
  | opcodeCheckSigECDSA => 1
  | opcodeCheckMultiSig => 20
  | opcodeCheckMultiSigVerify => 20
  | opcodeCheckMultiSigECDSA => 20
  | _ => 0

/-- An opcode that only works on the data stack. -/
lemma onDataStack_tame {x : StackM Unit} {k : Nat} (hx : StackGrows k x)
    (hk : k ≤ 3 := by decide) : Grows 3 0 (onDataStack x) :=
  (Tame.onDataStack hx).mono hk (le_refl _) fun _ h => h

open Stack in
lemma exec_tame (op : ParsedOpcode) (opfunc : OpFunc) :
    Grows 3 opfunc.maxVerifications (opfunc.exec env op) := by
  have hqt : ∀ {v : Nat} {x : ScriptM Unit}, Grows 0 0 x →
      Grows 3 v x := fun h => h.mono (by decide) (zero_le _) fun _ h => h
  have hs : ∀ {v : Nat} {x : ScriptM Unit}, Grows 1 v x →
      Grows 3 v x := fun h => h.mono (by decide) (le_refl _) fun _ h => h
  have hv : ∀ {v : Nat} {x : ScriptM Unit} (code : ErrorCode),
      Grows 1 v x → Grows 3 v (x >>= fun _ => abstractVerify op code) :=
    fun code h => (h.bind fun _ _ => abstractVerify_quiet op code).mono (by decide) (le_refl _)
      fun _ h => h
  -- only `OP_3DUP` adds three entries, and only the signature checks verify
  cases opfunc with
  | opcodeFalse | opcodePushData => exact onDataStack_tame (pushByteArray_tame _)
  | opcode1Negate =>
    exact onDataStack_tame (pushInt_tame (show (-2^63 : Int) < -1 by decide))
  | opcodeN => exact onDataStack_tame (pushInt_tame (by omega))
  | opcodeReserved | opcodeReturn | opcodeDisabled | opcodeInvalid => exact .failWith _ _
  | opcodeNop => exact hqt (.pure trivial)
  | opcodeIf => exact hqt (beginConditional_quiet true)
  | opcodeNotIf => exact hqt (beginConditional_quiet false)
  | opcodeElse => exact hqt (opcodeElse_quiet op)
  | opcodeEndif => exact hqt (opcodeEndif_quiet op)
  | opcodeVerify => exact hqt (abstractVerify_quiet op _)
  | opcodeCheckLockTimeVerify => exact hqt opcodeCheckLockTimeVerify_quiet
  | opcodeCheckSequenceVerify => exact hqt opcodeCheckSequenceVerify_quiet
  | opcodeToAltStack => exact hs ((Tame.onDataStack popByteArray_tame).seq fun so _ =>
    Tame.onAltStack (pushByteArray_tame so))
  | opcodeFromAltStack => exact hs ((Tame.onAltStack popByteArray_tame).seq fun so _ =>
    Tame.onDataStack (pushByteArray_tame so))
  | opcodeDrop => exact onDataStack_tame (forN_tame (dropNth_tame 0) _ 1)
  | opcode2Drop => exact onDataStack_tame (forN_tame (dropNth_tame 0) _ 2)
  | opcodeDup | opcodeOver => exact onDataStack_tame (forN_tame (pickN_tame _) _ 1)
  | opcode2Dup | opcode2Over => exact onDataStack_tame (forN_tame (pickN_tame _) _ 2)
  | opcode3Dup => exact onDataStack_tame (forN_tame (pickN_tame _) _ 3)
  | opcodeRot | opcodeSwap => exact onDataStack_tame (forN_tame (rollN_tame _) _ 1)
  | opcode2Rot | opcode2Swap => exact onDataStack_tame (forN_tame (rollN_tame _) _ 2)
  | opcodeIfDup => exact onDataStack_tame opcodeIfDup_tame
  | opcodeDepth => exact onDataStack_tame (depth_tame.seq fun _ h => pushInt_tame (by omega))
  | opcodeNip => exact onDataStack_tame (dropNth_tame 1)
  | opcodePick => exact onDataStack_tame (popInt_tame.seq fun _ _ => pickN_tame _)
  | opcodeRoll => exact onDataStack_tame (popInt_tame.seq fun _ _ => rollN_tame _)
  | opcodeTuck => exact onDataStack_tame tuck_tame
  | opcodeSize =>
    exact onDataStack_tame ((peekByteArray_tame 0).seq fun _ _ => pushInt_tame (by omega))
  | opcodeEqual => exact onDataStack_tame opcodeEqual_tame
  | opcodeEqualVerify => exact hv _ (Tame.onDataStack opcodeEqual_tame)
  | opcode1Add | opcode1Sub | opcodeNegate =>
    exact onDataStack_tame (unaryNumeric_tame fun m hm => by omega)
  | opcodeAbs =>
    refine onDataStack_tame (unaryNumeric_tame fun m hm => ?_)
    split
    · omega
    · omega
  | opcodeNot | opcode0NotEqual =>
    exact onDataStack_tame (unaryNumeric_tame fun _ _ => lt_boolToInt _)
  | opcodeAdd | opcodeSub =>
    exact onDataStack_tame (binaryNumeric_tame fun _ _ _ _ => by omega)
  | opcodeBoolAnd | opcodeBoolOr | opcodeNumEqual | opcodeNumNotEqual | opcodeLessThan
  | opcodeGreaterThan | opcodeLessThanOrEqual | opcodeGreaterThanOrEqual =>
    exact onDataStack_tame (comparison_tame _)
  | opcodeNumEqualVerify => exact hv _ (Tame.onDataStack (comparison_tame _))
  | opcodeMin | opcodeMax =>
    refine onDataStack_tame (binaryNumeric_tame fun _ _ _ _ => ?_)
    split
    · omega
    · omega
  | opcodeWithin => exact onDataStack_tame opcodeWithin_tame
  | opcodeSha256 | opcodeBlake2b => exact onDataStack_tame (popByteArray_tame.seq fun _ _ =>
    pushByteArray_tame _)
  | opcodeCheckSig => exact hs (checkSig_tame env .schnorr)
  | opcodeCheckSigVerify => exact hv _ (checkSig_tame env .schnorr)
  | opcodeCheckSigECDSA => exact hs (checkSig_tame env .ecdsa)
  | opcodeCheckMultiSig => exact hs (checkMultiSig_tame env .schnorr)
  | opcodeCheckMultiSigVerify => exact hv _ (checkMultiSig_tame env .schnorr)
  | opcodeCheckMultiSigECDSA => exact hs (checkMultiSig_tame env .ecdsa)

lemma checkLimits_quiet (pop : ParsedOpcode) : Grows 0 0 (checkLimits pop) :=
  .ite (fun _ => (Tame.modify fun vm => setNumOps_effect vm _).seq fun _ _ => .get fun _ =>
      .ite (fun _ => .failWith _ _) fun _ => .pure trivial)
    fun _ => .ite (fun _ => .failWith _ _) fun _ => .pure trivial

lemma checkMinimalDataPush_error {pop : ParsedOpcode}
    (h : pop.checkMinimalDataPush = .error e) : e.isPanic = false := by
  unfold ParsedOpcode.checkMinimalDataPush at h
  dsimp only at h
  repeat' split at h
  all_goals first
    | rfl
    | cases h
  all_goals rfl

lemma checkPushEncoding_quiet (vm : Engine) (pop : ParsedOpcode) :
    Grows 0 0 (checkPushEncoding vm pop) :=
  .ite (fun _ vm _ => wp_ofExcept (fun _ _ => ⟨trivial,.refl vm⟩) fun _ h _ =>
    checkMinimalDataPush_error h) fun _ => .pure trivial

/-- A skipped opcode verifies nothing, and an executed one what its function may. -/
lemma executeOpcode_tame (pop : ParsedOpcode) :
    Grows 3 pop.opcode.opfunc.maxVerifications (executeOpcode env pop) := by
  refine .ite (fun _ => .failWith _ _) fun _ => .ite (fun _ => .failWith _ _) fun _ => ?_
  refine (checkLimits_quiet pop).seq fun _ _ => .get fun vm => ?_
  refine .ite (fun _ => (Tame.pure trivial).mono (by decide) (zero_le _) fun _ h => h) fun _ => ?_
  exact (checkPushEncoding_quiet vm pop).seq fun _ _ => exec_tame env pop pop.opcode.opfunc

end
end Eiyaro.TxScript
