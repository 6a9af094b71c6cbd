import Eiyaro.Script.Safety

/-!
# Signatures are counted before they are verified

The count of an input does not execute its scripts. It takes the redeem script from the data of
the last opcode of the signature script, and the number of keys from the opcode before a multisig
opcode. An execution that succeeds never verifies more signatures than that.
-/

namespace Eiyaro.TxScript
open EStateM

/-- The count of a script that may not parse. -/
def redeemCount (script : List UInt8) : Nat :=
  match parseScript script with
  | .ok pops => getSigOpCount pops true
  | .error _ => 0

lemma redeemCount_of_ok {script : List UInt8} {pops : List ParsedOpcode}
    (h : parseScript script = .ok pops) : redeemCount script = getSigOpCount pops true := by
  unfold redeemCount
  rw [h]

/-- `OP_1` to `OP_16` push a byte that would need more bytes after it. -/
lemma redeemCount_smallInt {byte : UInt8} (h : 1 ≤ byte ∧ byte ≤ 16) : redeemCount [byte] = 0 := by
  have ha : ∀ byte : UInt8, 1 ≤ byte ∧ byte ≤ 16 → redeemCount [byte] = 0 :=
    forall_byte (by decide +kernel)
  exact ha byte h

/-- A push without data is no redeem script with signatures. -/
lemma redeemCount_pushedBytes {pop : ParsedOpcode} (hp : pop.WellParsed)
    (hv : pop.opcode.value ≤ op16) (hd : pop.data = []) :
    redeemCount (pushedBytes pop) = 0 := by
  have hl := hp.listed
  have hps := hl.push hv
  have hs := hl.smallInt
  unfold pushedBytes
  generalize pop.opcode.opfunc = opfunc at hps hs ⊢
  simp only [List.mem_cons,List.not_mem_nil,or_false] at hps
  obtain rfl | rfl | rfl | rfl | rfl := hps
  · rfl
  · rw [hd]
    rfl
  · show redeemCount [0x81] = 0
    decide +kernel
  · rfl
  · refine redeemCount_smallInt ?_
    have hr : ∀ value : UInt8, op1 ≤ value ∧ value ≤ op16 →
        1 ≤ value - (op1 - 1) ∧ value - (op1 - 1) ≤ 16 := forall_byte (by decide +kernel)
    exact hr _ (hs.1 rfl)

variable {scriptPubKey : ScriptPublicKey} {tx : DomainTransaction} {txIdx : Int}
  {input : DomainTransactionInput} {sig pk : List ParsedOpcode} {vm last : Engine}

lemma Finished.le_getPreciseSigOpCount (hbl : Built scriptPubKey tx txIdx input sig pk vm)
    (h : Finished sig pk last) : ∃ count,
      getPreciseSigOpCount input.signatureScript scriptPubKey = .ok count ∧
        last.verifications ≤ count := by
  rw [getPreciseSigOpCount,parseScriptTemplate_of_parseScript hbl.parsedScriptPubKey,ok_bind]
  dsimp only
  unfold getPreciseSigOpCountFromParsedScript
  cases hh : isScriptHash pk with
  | false =>
    exact ⟨_,rfl,h.direct hh⟩
  | true =>
    obtain ⟨_,hr,hle⟩ := h.viaRedeem hh
    obtain ⟨pop,hp,hpr⟩ := hr.pushed
    have hm := List.mem_of_getLast? hp
    have hw := (parseScript_eq_ok hbl.parsedScriptSig).2 pop hm
    have hv : pop.opcode.value ≤ op16 := by
      simpa using List.all_eq_true.1 hbl.isPushOnly pop hm
    rw [parseScriptTemplate_of_parseScript hbl.parsedScriptSig]
    simp only [Bool.not_true,Bool.false_eq_true,if_false,ok_bind,Option.isSome_none,hp,
      hbl.isPushOnly,Bool.false_or]
    by_cases hdt : pop.data = []
    · rw [hdt]
      refine ⟨0,rfl,?_⟩
      rwa [← redeemCount_of_ok hpr,redeemCount_pushedBytes hw hv hdt] at hle
    · -- only pushes of data have data, and it is what they push
      have hf : pop.opcode.opfunc = .opcodePushData := by
        by_contra hne
        exact hdt (hw.data hne)
      have hb : pushedBytes pop = pop.data := by
        unfold pushedBytes
        rw [hf]
      rw [hb] at hpr
      rw [if_neg (by simpa using hdt),parseScriptTemplate_of_parseScript hpr]
      exact ⟨_,rfl,hle⟩

/-- Scripts that do not parse are counted as well. -/
lemma getPreciseSigOpCount_eq_ok (scriptSig : List UInt8) (scriptPubKey : ScriptPublicKey) :
    ∃ count, getPreciseSigOpCount scriptSig scriptPubKey = .ok count := by
  obtain ⟨_,_,hp,-⟩ := parseScriptTemplate_eq_ok scriptPubKey.script
  obtain ⟨_,_,hs,-⟩ := parseScriptTemplate_eq_ok scriptSig
  rw [getPreciseSigOpCount,hp,ok_bind]
  dsimp only
  unfold getPreciseSigOpCountFromParsedScript
  split
  · exact ⟨_,rfl⟩
  · rw [hs,ok_bind]
    dsimp only
    split
    · exact ⟨_,rfl⟩
    · split
      · exact ⟨_,rfl⟩
      next last _ =>
        split
        · exact ⟨_,rfl⟩
        · obtain ⟨_,_,hsp,-⟩ := parseScriptTemplate_eq_ok last.data
          rw [hsp]
          exact ⟨_,rfl⟩

/-- If the scripts of an input are executed with success, then no more signatures were verified
than the count with which the transaction validator compares the declared one. -/
theorem verifications_le_getPreciseSigOpCount (env : ScriptEnv) {scriptPubKey : ScriptPublicKey}
    {tx : DomainTransaction} {txIdx : Int} {sigCache : Scheme → Option SigCache}
    {input : DomainTransactionInput} {vm vm' : Engine}
    (hinput : tx.inputs[txIdx.toNat]? = some input)
    (hnew : newEngine scriptPubKey tx txIdx sigCache = .ok vm)
    (hexec : execute env vm = .ok () vm') : ∃ count,
      getPreciseSigOpCount input.signatureScript scriptPubKey = .ok count ∧
        vm'.verifications ≤ count := by
  obtain ⟨hvr,-,-,hv⟩ | ⟨_,_,hbl⟩ := newEngine_eq_ok hinput hnew
  · -- a version to come is not executed
    obtain ⟨count,hcn⟩ := getPreciseSigOpCount_eq_ok input.signatureScript scriptPubKey
    refine ⟨count,hcn,?_⟩
    have hwp : wp (execute env) (fun _ vm' => vm'.verifications = 0) (fun _ _ => True) vm := by
      exact wp_ite (fun _ => hv) fun hn => absurd hvr hn
    unfold wp at hwp
    rw [hexec] at hwp
    rw [show vm'.verifications = 0 from hwp]
    exact Nat.zero_le _
  · have hwp := execute_wp env (parseScript_eq_ok hbl.parsedScriptSig).2
      (parseScript_eq_ok hbl.parsedScriptPubKey).2 hbl.isPushOnly hbl.running
      hbl.scriptVersion hbl.limit
    unfold wp at hwp
    rw [hexec] at hwp
    obtain ⟨_,hf,heq⟩ := hwp
    obtain ⟨count,hcn,hle⟩ := hf.le_getPreciseSigOpCount hbl
    exact ⟨count,hcn,heq ▸ hle⟩

/-- One of one keys, behind a script hash. -/
def sampleMultiSig : List UInt8 :=
  [op1,opData32] ++ List.replicate 32 9 ++ [op1,opCheckMultiSig]

def sampleScriptHash : ScriptPublicKey :=
  ⟨[opBlake2b,opData32] ++ List.replicate 32 2 ++ [opEqual],0⟩

/-- The signature, and the redeem script. -/
def sampleSigScript : List UInt8 :=
  [65] ++ List.replicate 64 7 ++ [0x01] ++ [36] ++ sampleMultiSig

def sampleRedeem : DomainTransaction :=
  ⟨0,[⟨⟨1,0⟩,sampleSigScript,0,1,some ⟨5,sampleScriptHash,false,0⟩⟩],[],0,0,0,[]⟩

def executed (scriptPubKey : ScriptPublicKey) (tx : DomainTransaction) : Option Engine :=
  match newEngine scriptPubKey tx 0 fun _ => none with
  | .error _ => none
  | .ok vm =>
    match execute sampleEnv vm with
    | .error _ _ => none
    | .ok _ vm' => some vm'

theorem verifications_le_scriptHash : ∃ vm', executed sampleScriptHash sampleRedeem = some vm' ∧
    vm'.verifications = 1 ∧ ∃ count,
      getPreciseSigOpCount sampleSigScript sampleScriptHash = .ok count ∧
        vm'.verifications ≤ count := by
  have hr : (executed sampleScriptHash sampleRedeem).any
      (fun vm' => decide (vm'.verifications = 1)) = true := by decide +kernel
  obtain ⟨vm',hvm',ho⟩ := (Option.any_eq_true _ _).1 hr
  refine ⟨vm',hvm',of_decide_eq_true ho,?_⟩
  unfold executed at hvm'
  split at hvm'
  · cases hvm'
  next vm hn =>
    split at hvm'
    · cases hvm'
    next he =>
      cases hvm'
      exact verifications_le_getPreciseSigOpCount sampleEnv rfl hn he

end Eiyaro.TxScript
