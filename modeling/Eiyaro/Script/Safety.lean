import Eiyaro.Script.Phases

/-!
# Running scripts is safe

From an engine that was built for an input, every run ends, without a panic if the input has its
entry, and with bounded stacks after every step.
-/

namespace Eiyaro.TxScript
open EStateM

section
variable (env : ScriptEnv) {sig pk : List ParsedOpcode} {vm : Engine}

/-- The loop ends as there is less to execute after every round. -/
lemma executeLoop_wp (hsg : ∀ pop ∈ sig, pop.WellParsed) (hpk : ∀ pop ∈ pk, pop.WellParsed)
    (hp : isPushOnly sig = true) (fuel : Nat) (h : Running sig pk vm) (hf : remaining vm < fuel) :
    wp (executeLoop env fuel)
      (fun _ vm' => Running sig pk vm' ∧ vm'.scripts.length ≤ vm'.scriptIdx)
      (fun e _ => vm.Spends → e.isPanic = false) vm := by
  induction fuel generalizing vm with
  | zero => omega
  | succ fuel ih =>
    rw [executeLoop,wp_bind]
    refine (step_running env hsg hpk hp h).imp (fun _ vm' hst => ?_)
    obtain ⟨hpr,_⟩ := hst
    refine wp_ite (fun hd => ⟨hpr.running,hpr.finished hd⟩) fun _ => ?_
    refine (ih hpr.running (by omega)).mono (fun _ _ hen => hen) fun e _ he hs => ?_
    exact he (hpr.spends.2 hs)

lemma Running.finished (h : Running sig pk vm) (hi : vm.scripts.length ≤ vm.scriptIdx) :
    Finished sig pk vm := by
  cases h.phase with
  | signature hph =>
    rw [hph.scripts,hph.scriptIdx] at hi
    cases hi
  | publicKey hph =>
    rw [hph.scripts,hph.scriptIdx] at hi
    exact absurd hi (Nat.lt_irrefl 1)
  | redeem redeem hph =>
    rw [hph.scripts,hph.scriptIdx] at hi
    exact absurd hi (Nat.lt_irrefl 2)
  | finished hph => exact hph

/-- What was verified is counted in the end. -/
lemma execute_wp (hs : ∀ pop ∈ sig, pop.WellParsed) (hpk : ∀ pop ∈ pk, pop.WellParsed)
    (hp : isPushOnly sig = true) (h : Running sig pk vm)
    (hv : ¬vm.scriptVersion > maxScriptPublicKeyVersion) (hl : remaining vm < stepLimit vm) :
    wp (execute env)
      (fun _ vm' => ∃ last, Finished sig pk last ∧ vm'.verifications = last.verifications)
      (fun e _ => vm.Spends → e.isPanic = false) vm := by
  refine wp_ite (fun hn => absurd hn hv) fun _ => ?_
  rw [wp_bind]
  refine (executeLoop_wp env hs hpk hp _ h hl).imp (fun _ vm' hen => ?_)
  obtain ⟨hr,hi⟩ := hen
  refine checkErrorCondition_wp hr.depth (fun _ _ => ?_) fun _ _ he _ => he
  exact ⟨vm',hr.finished hi,rfl⟩

/-- A successful call of `Step`. -/
def StepsTo (vm vm' : Engine) : Prop :=
  ∃ done, step env vm = .ok done vm'

lemma StepsTo.running (hsg : ∀ pop ∈ sig, pop.WellParsed) (hpk : ∀ pop ∈ pk, pop.WellParsed)
    (hp : isPushOnly sig = true) {vm' : Engine} (hs : StepsTo env vm vm')
    (h : Running sig pk vm) : Running sig pk vm' ∧ remaining vm' < remaining vm := by
  obtain ⟨_,hd⟩ := hs
  have hwp := step_running env hsg hpk hp h
  unfold wp at hwp
  rw [hd] at hwp
  exact ⟨hwp.1.running,hwp.2⟩

end

/-! ## Building the engine -/

variable {scriptPubKey : ScriptPublicKey} {tx : DomainTransaction} {txIdx : Int}
  {sigCache : Scheme → Option SigCache} {vm : Engine} {script : List UInt8} {e : ScriptFailure}

lemma parseScriptAndVerifySize_error
    (h : parseScriptAndVerifySize script = .error e) : e.isPanic = false := by
  unfold parseScriptAndVerifySize at h
  split at h
  · cases h
    rfl
  · exact parseScript_error h

/-- A run starts with the signature script, or with the script public key if that is empty. -/
lemma phase_start {sig pk : List ParsedOpcode} (hsc : vm.scripts = [sig,pk])
    (hi : vm.scriptIdx = 0 ∨ vm.scriptIdx = 1) (ho : vm.scriptOff = 0)
    (hc : vm.condStack = []) (hds : vm.dstack = []) (hsv : vm.savedFirstStack = [])
    (hv : vm.verifications = 0) :
    Phase sig pk vm ∧ remaining vm < stepLimit vm := by
  have hl : stepLimit vm = sig.length+pk.length+maxScriptElementSize+1 := by
    unfold stepLimit
    rw [hsc]
    simp
  have he : (if vm.isP2SH then maxScriptElementSize else 0) ≤ maxScriptElementSize := by
    split
    · exact Nat.le_refl _
    · exact Nat.zero_le _
  obtain hi | hi := hi
  · rw [remaining_signature hsc hi]
    refine ⟨.signature ⟨hsc,hi,hc,?_,?_,hv⟩,by omega⟩
    · rw [hds,ho]
      rfl
    · rw [hds]
      simp
  · rw [remaining_publicKey hsc hi]
    refine ⟨.publicKey ⟨hsc,hi,fun _ => ⟨fun _ => ⟨hc,?_⟩,?_,?_,?_,?_⟩,?_,?_⟩,by omega⟩
    · rw [hds,hsv]
    · omega
    · exact absurd hsv
    · rw [hsv]
      simp
    · rw [hsv]
      exact Nat.zero_le _
    · rw [hv]
      exact Nat.zero_le _
    · rw [ho]
      simp

/-- The scripts of an engine that runs them. -/
structure Built (scriptPubKey : ScriptPublicKey) (tx : DomainTransaction) (txIdx : Int)
    (input : DomainTransactionInput) (sig pk : List ParsedOpcode) (vm : Engine) : Prop where
  parsedScriptSig : parseScript input.signatureScript = .ok sig
  parsedScriptPubKey : parseScript scriptPubKey.script = .ok pk
  isPushOnly : isPushOnly sig = true
  running : Running sig pk vm
  scriptVersion : ¬vm.scriptVersion > maxScriptPublicKeyVersion
  limit : remaining vm < stepLimit vm
  tx : vm.tx = tx
  txIdx : vm.txIdx = txIdx.toNat

/-- An engine of a version to come has no scripts. -/
lemma newEngine_eq_ok {input : DomainTransactionInput} (hin : tx.inputs[txIdx.toNat]? = some input)
    (h : newEngine scriptPubKey tx txIdx sigCache = .ok vm) :
    (vm.scriptVersion > maxScriptPublicKeyVersion ∧ vm.scripts = [] ∧ vm.depth = 0 ∧
      vm.verifications = 0) ∨
    ∃ sig pk, Built scriptPubKey tx txIdx input sig pk vm := by
  unfold newEngine at h
  split at h
  · cases h
  next hidx =>
    have hi : indexAt tx.inputs txIdx = .ok input := by
      rw [indexAt,if_neg (by omega),hin]
    rw [hi] at h
    obtain ⟨-,h⟩ := of_ite_error h
    split at h
    next hv =>
      cases h
      exact .inl ⟨hv,rfl,rfl,rfl⟩
    next hv =>
      obtain ⟨sig,hsg,h⟩ := bind_eq_ok h
      split at h
      · cases h
      next hps =>
        obtain ⟨pk,hpk,h⟩ := bind_eq_ok h
        cases h
        have hs : ∀ idx, idx = (if input.signatureScript.length = 0 then 1 else 0) →
            idx = 0 ∨ idx = 1 := by
          intro idx hidx
          split at hidx
          · exact .inr hidx
          · exact .inl hidx
        have hsc : ({ Engine.empty with
            scriptVersion := scriptPubKey.version
            scripts := [sig,pk]
            scriptIdx := if input.signatureScript.length = 0 then 1 else 0
            tx := tx
            txIdx := txIdx.toNat
            sigCache := sigCache
            isP2SH := isScriptHash pk } : Engine).scripts = [sig,pk] := rfl
        obtain ⟨hp,hl⟩ := phase_start hsc (hs _ rfl) rfl rfl rfl rfl rfl
        exact .inr ⟨sig,pk,⟨(of_ite_error hsg).2,(of_ite_error hpk).2,
          by simpa using hps,⟨Nat.zero_le _,rfl,hp⟩,
          hv,hl,rfl,rfl⟩⟩

lemma newEngine_error
    (h : newEngine scriptPubKey tx txIdx sigCache = .error e) : e.isPanic = false := by
  unfold newEngine at h
  split at h
  · cases h
    rfl
  next hid =>
    obtain ⟨input,hi⟩ := indexAt_of_lt (by omega : 0 ≤ txIdx) (by omega : txIdx < tx.inputs.length)
    rw [hi,ok_bind] at h
    dsimp only at h
    split at h
    · cases h
      rfl
    split at h
    · cases h
    cases hs : parseScriptAndVerifySize input.signatureScript with
    | error failure =>
      rw [hs] at h
      cases h
      exact parseScriptAndVerifySize_error hs
    | ok _ =>
      rw [hs,ok_bind] at h
      split at h
      · cases h
        rfl
      cases hpk : parseScriptAndVerifySize scriptPubKey.script with
      | error failure =>
        rw [hpk] at h
        cases h
        exact parseScriptAndVerifySize_error hpk
      | ok _ =>
        rw [hpk] at h
        cases h

/-! ## Safety -/

/-- The only data that executing scripts may miss is the entry of the input. -/
lemma execute_error (env : ScriptEnv) {input : DomainTransactionInput}
    (hin : tx.inputs[txIdx.toNat]? = some input) (hentry : input.utxoEntry.isSome = true)
    (hvm : newEngine scriptPubKey tx txIdx sigCache = .ok vm) {vm' : Engine}
    (hex : execute env vm = .error e vm') : e.isPanic = false := by
  obtain ⟨hv,-⟩ | ⟨_,_,hbl⟩ := newEngine_eq_ok hin hvm
  · have hwp : wp (execute env) (fun _ _ => True) (fun _ _ => False) vm := by
      exact wp_ite (fun _ => trivial) fun hn => absurd hv hn
    unfold wp at hwp
    rw [hex] at hwp
    exact hwp.elim
  · have hsp : vm.Spends := by
      refine ⟨input,?_,hentry⟩
      rw [hbl.tx,hbl.txIdx]
      exact hin
    have hwp := execute_wp env (parseScript_eq_ok hbl.parsedScriptSig).2
      (parseScript_eq_ok hbl.parsedScriptPubKey).2 hbl.isPushOnly hbl.running
      hbl.scriptVersion hbl.limit
    unfold wp at hwp
    rw [hex] at hwp
    exact hwp hsp

/-- Whatever the scripts are: for an input with its entry neither building the engine nor
executing it panics, which includes that the loop of `Execute` ends; no sequence of steps goes
on forever; and the stacks are bounded after every step. -/
theorem execute_safe (env : ScriptEnv) (scriptPubKey : ScriptPublicKey) (tx : DomainTransaction)
    (txIdx : Int) (sigCache : Scheme → Option SigCache) (input : DomainTransactionInput)
    (hinput : tx.inputs[txIdx.toNat]? = some input) (hentry : input.utxoEntry.isSome = true) :
    (∀ e, newEngine scriptPubKey tx txIdx sigCache = .error e → e.isPanic = false) ∧
    ∀ vm, newEngine scriptPubKey tx txIdx sigCache = .ok vm →
      (∀ e vm', execute env vm = .error e vm' → e.isPanic = false) ∧
      (∀ run : Nat → Engine, run 0 = vm → ∃ n, ¬StepsTo env (run n) (run (n+1))) ∧
      ∀ vm', Relation.ReflTransGen (StepsTo env) vm vm' → vm'.depth ≤ maxStackSize := by
  refine ⟨fun e => newEngine_error,
    fun vm hvm => ⟨fun e vm' => execute_error env hinput hentry hvm,?_⟩⟩
  obtain ⟨-,hsr,hd,-⟩ | ⟨sig,pk,hbl⟩ := newEngine_eq_ok hinput hvm
  · have hsc : ∀ vm', ¬StepsTo env vm vm' := by
      rintro vm' ⟨_,hst⟩
      have hwp : wp (step env) (fun _ _ => False) (fun _ _ => True) vm := by
        rw [step,wp_bind,validPC,wp_bind,wp_get,hsr]
        exact trivial
      unfold wp at hwp
      rw [hst] at hwp
      exact hwp
    refine ⟨fun run hr => ⟨0,?_⟩,fun vm' hr => ?_⟩
    · rw [hr]
      exact hsc _
    · obtain rfl | ⟨vm'',hst,-⟩ := Relation.ReflTransGen.cases_head hr
      · rw [hd]
        exact Nat.zero_le _
      · exact absurd hst (hsc vm'')
  · have hsg := (parseScript_eq_ok hbl.parsedScriptSig).2
    have hpk := (parseScript_eq_ok hbl.parsedScriptPubKey).2
    have hs : ∀ {vm vm'}, StepsTo env vm vm' → Running sig pk vm →
        Running sig pk vm' ∧ remaining vm' < remaining vm :=
      fun hst => hst.running env hsg hpk hbl.isPushOnly
    refine ⟨fun run hr => ?_,fun vm' hr => ?_⟩
    -- otherwise every step would leave less to execute than the one before
    · by_contra ha
      simp only [not_exists,not_not] at ha
      have hl : ∀ n, Running sig pk (run n) ∧ remaining (run n)+n ≤ remaining vm := by
        intro n
        induction n with
        | zero =>
          rw [hr]
          exact ⟨hbl.running,Nat.le_refl _⟩
        | succ n ih =>
          obtain ⟨hrn,_⟩ := hs (ha n) ih.1
          refine ⟨hrn,?_⟩
          omega
      have hle := (hl (remaining vm+1)).2
      omega
    · have hrn : Running sig pk vm' := by
        induction hr with
        | refl => exact hbl.running
        | tail _ hst ih => exact (hs hst ih).1
      exact hrn.depth

/-- Hashes and signatures of which nothing matters here but their lengths. -/
def sampleEnv : ScriptEnv where
  sha256 := fun _ => List.replicate 32 1
  blake2b := fun _ => List.replicate 32 2
  signatureHash := fun _ _ _ _ => 5
  isPubKey := fun _ _ => true
  isSignature := fun _ _ => true
  verify := fun _ _ _ _ => true
  evicted := fun _ => none

/-- A public key and `OP_CHECKSIG`. -/
def samplePayToPubKey : ScriptPublicKey :=
  ⟨[opData32] ++ List.replicate 32 9 ++ [opCheckSig],0⟩

/-- A spending transaction with a signature of the standard type. -/
def sampleSpend (utxoEntry : Option UTXOEntry) : DomainTransaction :=
  ⟨0,[⟨⟨1,0⟩,[65] ++ List.replicate 64 7 ++ [0x01],0,1,utxoEntry⟩],[],0,0,0,[]⟩

def panics {α : Type} : Except ScriptFailure Engine → ScriptM α → Bool
  | .error e, _ => e.isPanic
  | .ok vm, x =>
    match x vm with
    | .ok _ _ => false
    | .error e _ => e.isPanic

theorem execute_safe_payToPubKey :
    panics (newEngine samplePayToPubKey
      (sampleSpend (some ⟨5,samplePayToPubKey,false,0⟩)) 0 fun _ => none)
      (execute sampleEnv) = false := by
  have h := execute_safe sampleEnv samplePayToPubKey
    (sampleSpend (some ⟨5,samplePayToPubKey,false,0⟩)) 0 (fun _ => none) _ rfl rfl
  unfold panics
  split
  · next e he => exact h.1 e he
  · next vm hvm =>
    split
    · rfl
    · next e vm' hex => exact (h.2 vm hvm).1 e vm' hex

/-- Without the entry the signature hash cannot be computed. -/
theorem execute_panics_without_entry :
    panics (newEngine samplePayToPubKey (sampleSpend none) 0 fun _ => none)
      (execute sampleEnv) = true := by
  decide +kernel

end Eiyaro.TxScript
