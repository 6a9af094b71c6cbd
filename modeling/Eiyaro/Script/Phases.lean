import Eiyaro.Script.OpcodeStep

/-!
# The scripts of a run

A run goes through the signature script, which only pushes, through the script public key, and,
where that is a script hash, through the redeem script that the signature script has pushed last.
Each of the three has its invariant; an opcode keeps it, and the end of a script leads to the
next one. What is left to execute gets less with every step.
-/

namespace Eiyaro
open List Nat
variable {redeem : List ParsedOpcode}

namespace TxScript
open EStateM

/-! ## Invariants -/

/-- The signatures verified so far are counted in the opcodes before the program counter. -/
structure Counted (script : List ParsedOpcode) (vm : Engine) : Prop where
  verifications : vm.verifications ≤ getSigOpCount (script.take vm.scriptOff) true
  keys : ∀ prev ∈ (script.take vm.scriptOff).getLast?, prev.opcode.opfunc = .opcodeN →
    isBranchExecuting vm = true → vm.dstack.getLast? = some (pushedBytes prev)

/-- The stack of the signature script is kept while the script hash is checked. -/
structure Saved (sig : List ParsedOpcode) (vm : Engine) : Prop where
  start : vm.scriptOff = 0 → vm.condStack = [] ∧ vm.dstack = vm.savedFirstStack
  later : 0 < vm.scriptOff → vm.savedFirstStack ≠ []
  pushed : vm.savedFirstStack ≠ [] → vm.savedFirstStack = sig.map pushedBytes
  bounded : ∀ so ∈ vm.savedFirstStack, so.length ≤ maxScriptElementSize
  length : vm.savedFirstStack.length ≤ maxStackSize

variable (sig pk : List ParsedOpcode)

structure InSignature (vm : Engine) : Prop where
  scripts : vm.scripts = [sig,pk]
  scriptIdx : vm.scriptIdx = 0
  condStack : vm.condStack = []
  dstack : vm.dstack = (sig.take vm.scriptOff).map pushedBytes
  bounded : ∀ so ∈ vm.dstack, so.length ≤ maxScriptElementSize
  verifications : vm.verifications = 0

structure InPublicKey (vm : Engine) : Prop where
  scripts : vm.scripts = [sig,pk]
  scriptIdx : vm.scriptIdx = 1
  saved : vm.isP2SH = true → Saved sig vm
  counted : Counted pk vm

/-- `redeem` is what the signature script has pushed last. -/
structure IsRedeem (sig redeem : List ParsedOpcode) : Prop where
  pushed : ∃ last, sig.getLast? = some last ∧ parseScript (pushedBytes last) = .ok redeem
  length : redeem.length ≤ maxScriptElementSize
  wellParsed : ∀ pop ∈ redeem, pop.WellParsed

structure InRedeem (sig pk redeem : List ParsedOpcode) (vm : Engine) : Prop where
  scripts : vm.scripts = [sig,pk,redeem]
  scriptIdx : vm.scriptIdx = 2
  scriptHash : isScriptHash pk = true
  isRedeem : IsRedeem sig redeem
  counted : Counted redeem vm

/-- All scripts are done, and the verified signatures were counted. -/
structure Finished (vm : Engine) : Prop where
  scriptIdx : vm.scripts.length ≤ vm.scriptIdx
  direct : isScriptHash pk = false → vm.verifications ≤ getSigOpCount pk true
  viaRedeem : isScriptHash pk = true → ∃ redeem, IsRedeem sig redeem ∧
    vm.verifications ≤ getSigOpCount redeem true

inductive Phase (sig pk : List ParsedOpcode) (vm : Engine) : Prop
  | signature (h : InSignature sig pk vm)
  | publicKey (h : InPublicKey sig pk vm)
  | redeem (redeem : List ParsedOpcode) (h : InRedeem sig pk redeem vm)
  | finished (h : Finished sig pk vm)

structure Running (vm : Engine) : Prop where
  depth : vm.depth ≤ maxStackSize
  isP2SH : vm.isP2SH = isScriptHash pk
  phase : Phase sig pk vm

/-- How many opcodes may still follow. -/
def remaining (vm : Engine) : Nat :=
  ((vm.scripts.drop vm.scriptIdx).map List.length).sum +
    (if vm.isP2SH ∧ vm.scriptIdx ≤ 1 then maxScriptElementSize else 0) - vm.scriptOff

variable {sig pk : List ParsedOpcode} {script : List ParsedOpcode} {vm : Engine}

lemma remaining_signature (hs : vm.scripts = [sig,pk]) (hi : vm.scriptIdx = 0) : remaining vm =
      sig.length+pk.length+(if vm.isP2SH then maxScriptElementSize else 0) - vm.scriptOff := by
  simp [remaining,hs,hi]

lemma remaining_publicKey (hs : vm.scripts = [sig,pk]) (hi : vm.scriptIdx = 1) : remaining vm =
      pk.length+(if vm.isP2SH then maxScriptElementSize else 0) - vm.scriptOff := by
  simp [remaining,hs,hi]

lemma remaining_redeem (hs : vm.scripts = [sig,pk,redeem]) (hi : vm.scriptIdx = 2) :
    remaining vm = redeem.length - vm.scriptOff := by
  simp [remaining,hs,hi]

lemma remaining_finished (hi : vm.scripts.length ≤ vm.scriptIdx)
    (ht : 2 ≤ vm.scriptIdx) : remaining vm = 0 := by
  have hl : ¬vm.scriptIdx ≤ 1 := by omega
  simp [remaining,drop_eq_nil_of_le hi,hl]

/-- The run goes on, unless it is done, with no more to do than before. -/
structure Progress (sig pk : List ParsedOpcode) (vm : Engine) (done : Bool) (vm' : Engine) :
    Prop where
  running : Running sig pk vm'
  remaining : remaining vm' ≤ remaining vm
  finished : done = true → vm'.scripts.length ≤ vm'.scriptIdx
  spends : vm'.Spends ↔ vm.Spends

/-! ## Script hashes -/

lemma isScriptHash_cases (h : isScriptHash pk = true) : ∃ hash data equal,
    pk = [hash,data,equal] ∧ hash.opcode.value = opBlake2b ∧ data.opcode.value = opData32 ∧
      equal.opcode.value = opEqual := by
  have hvl : pk.map (·.opcode.value) = [opBlake2b,opData32,opEqual] := of_decide_eq_true h
  have hl : pk.length = 3 := by simpa using congrArg length hvl
  obtain ⟨hash,data,equal,rfl⟩ := length_eq_three.1 hl
  simp only [map_cons,map_nil,cons.injEq,and_true] at hvl
  exact ⟨hash,data,equal,rfl,hvl⟩

/-- A script hash is compared without a signature. -/
lemma getSigOpCount_scriptHash (h : isScriptHash pk = true) (precise : Bool) :
    getSigOpCount pk precise = 0 := by
  obtain ⟨hash,data,equal,rfl,hh,hdt,he⟩ := isScriptHash_cases h
  have hzr : ∀ (prev : Option ParsedOpcode) (pop : ParsedOpcode),
      pop.opcode.value ∈ [opBlake2b,opData32,opEqual] → sigOpsOf precise prev pop = 0 := by
    intro prev pop hp
    have hd : ∀ value ∈ [opBlake2b,opData32,opEqual],
        value ∉ [opCheckSig,opCheckSigVerify,opCheckSigECDSA] ∧
          value ∉ [opCheckMultiSig,opCheckMultiSigVerify,opCheckMultiSigECDSA] := by
      rw [forall_mem_cons,forall_mem_cons,forall_mem_singleton]
      decide
    unfold sigOpsOf
    rw [if_neg (hd _ hp).1,if_neg (hd _ hp).2]
  simp only [getSigOpCount,sigOpCountLoop]
  rw [hzr _ hash (by simp [hh]),hzr _ data (by simp [hdt]),hzr _ equal (by simp [he])]

/-! ## One opcode -/

variable {pop : ParsedOpcode} {vm' : Engine}

lemma isBranchExecuting_of_nil (h : vm.condStack = []) : isBranchExecuting vm = true := by
  unfold isBranchExecuting
  rw [h]
  rfl

/-- The engine that `executeOpcode` is called on. -/
def Engine.advance (vm : Engine) : Engine :=
  { vm with scriptOff := vm.scriptOff+1 }

lemma Counted.opcode (h : Counted script vm) (hw : ∀ pop ∈ script, pop.WellParsed)
    (hpop : script[vm.scriptOff]? = some pop)
    (hst : OpcodeStep (script.take vm.scriptOff).getLast? pop vm.advance vm') :
    Counted script vm' := by
  have ho : vm'.scriptOff = vm.scriptOff+1 := hst.effect.scriptOff
  refine ⟨?_,fun prev hp hN hb => ?_⟩
  · rw [ho,getSigOpCount_take_succ hpop]
    exact Nat.le_trans (hst.verifications h.keys) (Nat.add_le_add_right h.verifications _)
  · rw [ho,take_add_one,hpop] at hp
    obtain rfl : pop = prev := by simpa using hp
    have hl := (hw pop (mem_of_getElem? hpop)).listed
    obtain ⟨hc,-,hps⟩ := hst.push (hl.smallInt.1 hN).2
    rw [isBranchExecuting,hc] at hb
    rw [(hps hb).1]
    simp

lemma InSignature.opcode (h : InSignature sig pk vm)
    (hp : pop.opcode.value ≤ op16) (hpp : sig[vm.scriptOff]? = some pop)
    (hst : OpcodeStep (sig.take vm.scriptOff).getLast? pop vm.advance vm') :
    InSignature sig pk vm' := by
  have ho : vm'.scriptOff = vm.scriptOff+1 := hst.effect.scriptOff
  obtain ⟨hc,hv,hds⟩ := hst.push hp
  obtain ⟨hds,hl⟩ := hds (isBranchExecuting_of_nil h.condStack)
  have hs : vm'.dstack = vm.dstack ++ [pushedBytes pop] := hds
  refine ⟨hst.effect.scripts.trans h.scripts,hst.effect.scriptIdx.trans h.scriptIdx,
    hc.trans h.condStack,?_,fun so hso => ?_,hv.trans h.verifications⟩
  · rw [hs,h.dstack,ho,take_add_one,hpp,map_append]
    rfl
  · rw [hs,mem_append,mem_singleton] at hso
    obtain hso | rfl := hso
    · exact h.bounded so hso
    · exact hl

lemma Saved.opcode (h : Saved sig vm) (hh : isScriptHash pk = true)
    (hw : ∀ pop ∈ pk, pop.WellParsed) (hp : pk[vm.scriptOff]? = some pop)
    {prev : Option ParsedOpcode} (hst : OpcodeStep prev pop vm.advance vm') :
    Saved sig vm' := by
  have ho : vm'.scriptOff = vm.scriptOff+1 := hst.effect.scriptOff
  have hsv : vm'.savedFirstStack = vm.savedFirstStack := hst.effect.savedFirstStack
  refine ⟨fun hzr => by omega,fun _ => ?_,?_,?_,?_⟩
  · rw [hsv]
    by_cases hzr : vm.scriptOff = 0
    · -- the first opcode hashes the top of the stack that was saved
      obtain ⟨hash,_,_,rfl,hv,-⟩ := isScriptHash_cases hh
      rw [hzr] at hp
      obtain rfl : hash = pop := by simpa using hp
      have hl := (hw hash mem_cons_self).listed
      obtain ⟨hc,hd⟩ := h.start hzr
      have hne := hst.hash (hl.blake2b hv)
        (isBranchExecuting_of_nil (show vm.advance.condStack = [] from hc))
      exact hd ▸ hne
    · exact h.later (by omega)
  · rw [hsv]
    exact h.pushed
  · rw [hsv]
    exact h.bounded
  · rw [hsv]
    exact h.length

lemma InPublicKey.opcode (h : InPublicKey sig pk vm) (hp2sh : vm.isP2SH = isScriptHash pk)
    (hw : ∀ pop ∈ pk, pop.WellParsed) (hp : pk[vm.scriptOff]? = some pop)
    (hst : OpcodeStep (pk.take vm.scriptOff).getLast? pop vm.advance vm') :
    InPublicKey sig pk vm' := by
  have hisP2SH : vm'.isP2SH = vm.isP2SH := hst.effect.isP2SH
  refine ⟨hst.effect.scripts.trans h.scripts,hst.effect.scriptIdx.trans h.scriptIdx,
    fun hsv => ?_,h.counted.opcode hw hp hst⟩
  rw [hisP2SH] at hsv
  exact (h.saved hsv).opcode (hp2sh.symm.trans hsv) hw hp hst

lemma InRedeem.opcode (h : InRedeem sig pk redeem vm) (hp : redeem[vm.scriptOff]? = some pop)
    (hst : OpcodeStep (redeem.take vm.scriptOff).getLast? pop vm.advance vm') :
    InRedeem sig pk redeem vm' :=
  ⟨hst.effect.scripts.trans h.scripts,hst.effect.scriptIdx.trans h.scriptIdx,h.scriptHash,
    h.isRedeem,h.counted.opcode h.isRedeem.wellParsed hp hst⟩

/-! ## The end of a script -/

variable {Q : Bool → Engine → Prop} {E : ScriptFailure → Engine → Prop}

lemma depth_bounds (h : vm.depth ≤ maxStackSize) :
    vm.depth = vm.dstack.length+vm.astack.length ∧ (vm.depth+3 : Nat) ≤ maxInt32 := by
  have hs : maxStackSize = 244 := rfl
  have hi : maxInt32 = 2147483647 := rfl
  exact ⟨rfl,by omega⟩

/-- The engine with which `nextScript` is called. -/
def Engine.rewind (vm : Engine) : Engine :=
  { vm with astack := [], numOps := 0, scriptOff := 0 }

/-- An empty script is skipped. -/
def Engine.skip (vm : Engine) : Engine :=
  match vm.scripts[vm.scriptIdx]? with
  | none => vm
  | some script =>
    if vm.scriptOff ≥ script.length then { vm with scriptIdx := vm.scriptIdx+1 } else vm

lemma endOfScript_wp (hd : vm.depth ≤ maxStackSize) (hn : vm.condStack = [] → wp nextScript
      (fun _ vm' => Q (decide (vm'.skip.scriptIdx ≥ vm'.skip.scripts.length)) vm'.skip) E vm.rewind)
    (her : ∀ e vm', e.isPanic = false → E e vm') : wp endOfScript Q E vm := by
  obtain ⟨_,_⟩ := depth_bounds hd
  have ha : (vm.astack.length : Int) ≤ maxInt32 := by omega
  refine wp_ite (fun _ => her _ _ rfl) fun hc => ?_
  rw [wp_bind,wp_onAltStack,Stack.depth,wp_bind,wp_get,Stack.checkedStackSize_eq ha]
  show wp (tolerate (onAltStack _) >>= _) _ _ vm
  rw [wp_bind]
  have hr : wp (do
      modify fun vm => { vm with numOps := 0, scriptOff := 0 }
      nextScript
      skipEmptyScript
      let vm ← get
      return decide (vm.scriptIdx ≥ vm.scripts.length) : ScriptM Bool) Q E
        { vm with astack := [] } := by
    rw [wp_bind,wp_modify,wp_bind]
    exact hn (by simpa using hc)
  exact wp_tolerate (wp_onAltStack.2 (Stack.dropAll_wp ha hr fun e he => ⟨he,hr⟩))

lemma skip_of_ne_nil (ho : vm.scriptOff = 0)
    (hs : vm.scripts[vm.scriptIdx]? = some script) (hne : script ≠ []) : vm.skip = vm := by
  have hl : 0 < script.length := length_pos_iff.2 hne
  unfold Engine.skip
  rw [hs]
  exact if_neg (by omega)

lemma skip_of_nil (hs : vm.scripts[vm.scriptIdx]? = some []) :
    vm.skip = { vm with scriptIdx := vm.scriptIdx+1 } := by
  unfold Engine.skip
  rw [hs]
  exact if_pos (zero_le _)

lemma skip_of_none (hs : vm.scripts[vm.scriptIdx]? = none) : vm.skip = vm := by
  unfold Engine.skip
  rw [hs]

/-- The start of the last script. An empty one is not entered. -/
lemma enter_last (hsc : vm'.scripts[vm'.scriptIdx]? = some script)
    (hls : vm'.scripts.length ≤ vm'.scriptIdx+1) (hi : 1 ≤ vm'.scriptIdx)
    (ho : vm'.scriptOff = 0) (hd : vm'.depth ≤ maxStackSize)
    (hisP2SH : vm'.isP2SH = isScriptHash pk) (hv : vm'.verifications = 0)
    (hp : Counted script vm' → Phase sig pk vm')
    (hrd : script = [] → isScriptHash pk = true → ∃ redeem, IsRedeem sig redeem)
    (hr : remaining vm' ≤ remaining vm) (hs : vm'.Spends ↔ vm.Spends) :
    Progress sig pk vm (decide (vm'.skip.scriptIdx ≥ vm'.skip.scripts.length)) vm'.skip := by
  by_cases hn : script = []
  · subst hn
    have hz : ∀ n, vm'.verifications ≤ n := by omega
    rw [skip_of_nil hsc]
    refine ⟨⟨hd,hisP2SH,.finished ⟨hls,fun _ => hz _,fun hh => ?_⟩⟩,?_,fun _ => hls,hs⟩
    · obtain ⟨redeem,hrd⟩ := hrd rfl hh
      exact ⟨redeem,hrd,hz _⟩
    · rw [remaining_finished hls (succ_le_succ hi)]
      exact zero_le _
  · rw [skip_of_ne_nil ho hsc hn]
    refine ⟨⟨hd,hisP2SH,hp ⟨?_,?_⟩⟩,hr,fun hdn => of_decide_eq_true hdn,hs⟩
    · rw [hv]
      exact zero_le _
    · rw [ho]
      intro _ hpr
      cases hpr

/-- The engine at the start of the next script. -/
def Engine.next (vm : Engine) (saved : List (List UInt8)) : Engine :=
  { vm.rewind with scriptIdx := vm.scriptIdx+1, savedFirstStack := saved }

variable {Q : Unit → Engine → Prop}

lemma checkErrorCondition_wp {finalScript : Bool} (hdp : vm.depth ≤ maxStackSize)
    (hQ : ∀ stk : Stack, stk.length ≤ vm.dstack.length → Q () { vm with dstack := stk })
    (herr : ∀ e vm', e.isPanic = false → E e vm') :
    wp (checkErrorCondition finalScript) Q E vm := by
  obtain ⟨_,_⟩ := depth_bounds hdp
  have hd : (vm.dstack.length : Int) ≤ maxInt32 := by omega
  have hp : wp (do
      let v ← onDataStack Stack.popBool
      if v then return else
        failWith .errEvalFalse "false stack entry at end of script execution" : ScriptM Unit)
        Q E vm := by
    rw [wp_bind,wp_onDataStack,Stack.popBool,wp_bind]
    refine Stack.popByteArray_wp hd (fun e _ he => herr e _ he) fun rest _ hc => ?_
    refine wp_ite (fun _ => hQ rest ?_) fun _ => herr _ _ rfl
    simp [hc]
  refine wp_ite (fun _ => herr _ _ rfl) fun _ => ?_
  cases finalScript with
  | false => exact hp
  | true =>
    show wp (checkCleanStack >>= _) _ _ vm
    rw [wp_bind,checkCleanStack,wp_bind,wp_onDataStack,Stack.depth,wp_bind,wp_get,
      Stack.checkedStackSize_eq hd]
    exact wp_ite (fun _ => herr _ _ rfl) fun _ => wp_ite (fun _ => herr _ _ rfl) fun _ => hp

lemma loadRedeemScript_wp (hd : vm.depth ≤ maxStackSize) (hs : vm.savedFirstStack ≠ [])
    (hQ : ∀ rest script redeem, vm.savedFirstStack = rest ++ [script] →
      parseScript script = .ok redeem →
      Q () { vm with scripts := vm.scripts ++ [redeem], dstack := rest })
    (her : ∀ e vm', e.isPanic = false → E e vm') : wp loadRedeemScript Q E vm := by
  obtain ⟨_,_⟩ := depth_bounds hd
  obtain hn | ⟨rest,script,hcn⟩ := eq_nil_or_concat' vm.savedFirstStack
  · exact absurd hn hs
  have hi : indexAt vm.savedFirstStack ((vm.savedFirstStack.length : Int) - 1) = .ok script := by
    have hl : ((rest ++ [script]).length : Int) - 1 = (rest.length : Nat) := by simp
    rw [hcn,indexAt]
    simp
  rw [loadRedeemScript,wp_bind,wp_get,wp_bind,hi]
  refine (wp_bind _ _).2 (wp_ofExcept (fun redeem hr => ?_) fun e he =>
    her e _ (parseScript_error he))
  rw [wp_bind,wp_set,wp_onDataStack]
  refine Stack.setStack_wp (s := vm.dstack) (by omega) ?_
  rw [hcn,dropLast_concat,← hcn]
  exact hQ rest script redeem hcn hr

lemma nextScript_wp (hdp : vm.depth ≤ maxStackSize)
    (hs : vm.isP2SH = true → vm.scriptIdx = 1 → vm.savedFirstStack ≠ [])
    (hf : vm.isP2SH = true → vm.scriptIdx = 0 → Q () (vm.next vm.dstack))
    (hr : vm.isP2SH = true → vm.scriptIdx = 1 → ∀ rest script redeem,
      vm.savedFirstStack = rest ++ [script] → parseScript script = .ok redeem →
      Q () { vm.next vm.savedFirstStack with scripts := vm.scripts ++ [redeem], dstack := rest })
    (ho : (vm.isP2SH = true → 1 < vm.scriptIdx) → Q () (vm.next vm.savedFirstStack))
    (he : ∀ e vm', e.isPanic = false → E e vm') : wp nextScript Q E vm.rewind := by
  obtain ⟨_,_⟩ := depth_bounds hdp
  have hd : vm.dstack.length ≤ maxStackSize := by omega
  refine wp_ite (fun h => ?_) fun hn => wp_ite (fun h => ?_) fun hn' => ?_
  · rw [wp_bind,wp_onDataStack]
    exact Stack.getStack_wp (s := vm.dstack) (by omega) (hf h.1 h.2)
  · rw [wp_bind]
    refine checkErrorCondition_wp hd (fun _ hst => ?_) he
    refine loadRedeemScript_wp ?_ (hs h.1 h.2) (hr h.1 h.2) he
    exact le_trans hst hd
  · refine ho fun hp2sh => ?_
    have h0 : vm.scriptIdx ≠ 0 := fun h => hn ⟨hp2sh,h⟩
    have h1 : vm.scriptIdx ≠ 1 := fun h => hn' ⟨hp2sh,h⟩
    omega

lemma InSignature.finish (h : InSignature sig pk vm) (ho : vm.scriptOff = sig.length)
    (hdp : vm.depth ≤ maxStackSize) (hisP2SH : vm.isP2SH = isScriptHash pk) :
    wp endOfScript (Progress sig pk vm) (fun e _ => e.isPanic = false) vm := by
  have hp : vm.dstack = sig.map pushedBytes := by
    rw [h.dstack,ho,take_length]
  have hd : vm.dstack.length ≤ maxStackSize := le_trans (le_add_right _ _) hdp
  have hi := h.scriptIdx
  -- both ways lead to the script public key, with what was saved or without
  have hen : ∀ saved, vm.condStack = [] → (vm.isP2SH = true → saved = vm.dstack) →
      Progress sig pk vm (decide ((vm.next saved).skip.scriptIdx ≥
        (vm.next saved).skip.scripts.length)) (vm.next saved).skip := by
    intro saved hcn hs
    have hk : vm.isP2SH = true → Saved sig (vm.next saved) := by
      intro hp2sh
      obtain rfl := hs hp2sh
      exact ⟨fun _ => ⟨hcn,rfl⟩,fun hlt => absurd hlt (lt_irrefl 0),fun _ => hp,h.bounded,hd⟩
    have hsc : (vm.next saved).scripts = [sig,pk] := h.scripts
    have hi' : (vm.next saved).scriptIdx = 1 := congrArg _ hi
    refine enter_last (show _ = some pk by rw [hsc,hi']; rfl)
      (by rw [hsc,hi']; rfl) hi'.ge rfl hd hisP2SH h.verifications
      (fun hc => .publicKey ⟨hsc,hi',hk,hc⟩) ?_ ?_ Iff.rfl
    · rintro rfl hh
      cases hh
    · rw [remaining_publicKey hsc hi',remaining_signature h.scripts hi]
      show pk.length+(if vm.isP2SH then maxScriptElementSize else 0) - 0 ≤ _
      omega
  refine endOfScript_wp hdp (fun hcn => nextScript_wp hdp ?_ ?_ ?_ ?_ fun _ _ he => he)
    fun _ _ he => he
  · omega
  · intro _ _
    exact hen _ hcn fun _ => rfl
  · omega
  · intro hlt
    refine hen _ hcn fun hp2sh => ?_
    have := hlt hp2sh
    omega

lemma Counted.finish (h : Counted script vm)
    (ho : vm.scriptOff = script.length) : vm.verifications ≤ getSigOpCount script true := by
  have hv := h.verifications
  rwa [ho,take_length] at hv

/-- What was saved last is the redeem script. -/
lemma Saved.isRedeem (h : Saved sig vm) {rest : List (List UInt8)} {script : List UInt8}
    (hcn : vm.savedFirstStack = rest ++ [script])
    (hpr : parseScript script = .ok redeem) : IsRedeem sig redeem := by
  have hp := h.pushed (by simp [hcn])
  rw [hcn] at hp
  obtain ⟨_,hw⟩ := parseScript_eq_ok hpr
  have hs : script.length ≤ maxScriptElementSize := h.bounded script (by simp [hcn])
  refine ⟨?_,by omega,hw⟩
  have hls : (sig.map pushedBytes).getLast? = some script := by
    rw [← hp]
    simp
  rw [getLast?_map,Option.map_eq_some_iff] at hls
  obtain ⟨last,hls,rfl⟩ := hls
  exact ⟨last,hls,hpr⟩

/-- After the last script nothing is left to execute. -/
lemma progress_of_finished (h : Finished sig pk (vm.next vm.savedFirstStack))
    (hi : 1 ≤ vm.scriptIdx) (hd : vm.depth ≤ maxStackSize) (hisP2SH : vm.isP2SH = isScriptHash pk) :
    Progress sig pk vm
      (decide ((vm.next vm.savedFirstStack).skip.scriptIdx ≥
        (vm.next vm.savedFirstStack).skip.scripts.length))
      (vm.next vm.savedFirstStack).skip := by
  rw [skip_of_none (getElem?_eq_none h.scriptIdx)]
  refine ⟨⟨le_trans (le_add_right _ _) hd,hisP2SH,.finished h⟩,?_,fun _ => h.scriptIdx,Iff.rfl⟩
  rw [remaining_finished h.scriptIdx (succ_le_succ hi)]
  exact zero_le _

lemma InPublicKey.finish (h : InPublicKey sig pk vm) (ho : vm.scriptOff = pk.length)
    (hdp : vm.depth ≤ maxStackSize) (hisP2SH : vm.isP2SH = isScriptHash pk) :
    wp endOfScript (Progress sig pk vm) (fun e _ => e.isPanic = false) vm := by
  have hi := h.scriptIdx
  have hcn := h.counted.finish ho
  have hps : vm.isP2SH = true → 0 < vm.scriptOff := by
    intro hp2sh
    obtain ⟨_,_,_,rfl,-⟩ := isScriptHash_cases (hisP2SH.symm.trans hp2sh)
    rw [ho]
    exact zero_lt_succ _
  refine endOfScript_wp hdp (fun _ => nextScript_wp hdp ?_ ?_ ?_ ?_ fun _ _ he => he)
    fun _ _ he => he
  · intro hp2sh _
    exact (h.saved hp2sh).later (hps hp2sh)
  · omega
  -- the redeem script is the last one that is run
  · intro hp2sh _ rest _ redeem hc hp
    have hhs : isScriptHash pk = true := hisP2SH.symm.trans hp2sh
    have hrd := (h.saved hp2sh).isRedeem hc hp
    have hs := (h.saved hp2sh).length
    have hr : rest.length ≤ maxStackSize := by
      rw [hc,length_append] at hs
      omega
    rw [getSigOpCount_scriptHash hhs] at hcn
    have hsc : ({ vm.next vm.savedFirstStack with
        scripts := vm.scripts ++ [redeem]
        dstack := rest } : Engine).scripts = [sig,pk,redeem] := by
      rw [h.scripts]
      rfl
    have hi' : (vm.next vm.savedFirstStack).scriptIdx = 2 := congrArg _ hi
    refine enter_last (show _ = some redeem by rw [hsc,hi']; rfl)
      (by rw [hsc,hi']; rfl) (le_add_left _ _) rfl hr hisP2SH (le_zero.1 hcn)
      (fun hct => .redeem redeem ⟨hsc,hi',hhs,hrd,hct⟩)
      (fun _ _ => ⟨redeem,hrd⟩) ?_ Iff.rfl
    rw [remaining_redeem hsc hi',remaining_publicKey h.scripts hi,hp2sh]
    have hl := hrd.length
    simp only [if_true]
    omega
  · intro hlt
    have hn : vm.isP2SH = false := by
      cases hp2sh : vm.isP2SH with
      | false => rfl
      | true =>
        have := hlt hp2sh
        omega
    refine progress_of_finished ⟨?_,fun _ => hcn,fun hhs => ?_⟩ hi.ge hdp hisP2SH
    · show vm.scripts.length ≤ vm.scriptIdx+1
      rw [h.scripts,hi]
      exact le_refl _
    · rw [← hisP2SH,hn] at hhs
      cases hhs

lemma InRedeem.finish (h : InRedeem sig pk redeem vm)
    (ho : vm.scriptOff = redeem.length) (hdp : vm.depth ≤ maxStackSize)
    (hisP2SH : vm.isP2SH = isScriptHash pk) :
    wp endOfScript (Progress sig pk vm) (fun e _ => e.isPanic = false) vm := by
  have hi := h.scriptIdx
  have hc := h.counted.finish ho
  refine endOfScript_wp hdp (fun _ => nextScript_wp hdp ?_ ?_ ?_ ?_ fun _ _ he => he)
    fun _ _ he => he
  · omega
  · omega
  · omega
  · intro _
    refine progress_of_finished ⟨?_,fun hn => ?_,fun _ => ⟨redeem,h.isRedeem,hc⟩⟩
      (by omega) hdp hisP2SH
    · show vm.scripts.length ≤ vm.scriptIdx+1
      rw [h.scripts,hi]
      exact le_refl _
    · rw [h.scriptHash] at hn
      cases hn

/-! ## Steps -/

section
variable (env : ScriptEnv)

lemma remaining_opcode (hsc : vm.scripts[vm.scriptIdx]? = some script)
    (hlt : vm.scriptOff < script.length) (hs : vm'.scripts = vm.scripts)
    (hi : vm'.scriptIdx = vm.scriptIdx) (ho : vm'.scriptOff = vm.scriptOff+1)
    (hisP2SH : vm'.isP2SH = vm.isP2SH) :
    remaining vm' < remaining vm := by
  obtain ⟨hb,hg⟩ := List.getElem?_eq_some_iff.1 hsc
  have hsm : script.length ≤ ((vm.scripts.drop vm.scriptIdx).map length).sum := by
    rw [drop_eq_getElem_cons hb,hg]
    exact le_add_right _ _
  unfold remaining
  rw [hs,hi,hisP2SH]
  omega

/-- A step executes an opcode of the current script, and may end the script. -/
lemma step_wp {Q : Bool → Engine → Prop} (hs : vm.scripts[vm.scriptIdx]? = some script)
    (hw : ∀ pop ∈ script, pop.WellParsed) (hd : vm.depth ≤ maxStackSize)
    (hQ : ∀ pop vm', script[vm.scriptOff]? = some pop →
      OpcodeStep (script.take vm.scriptOff).getLast? pop vm.advance vm' →
      vm'.depth ≤ maxStackSize →
      wp (if vm'.scriptOff ≥ script.length then endOfScript else pure false) Q
        (fun e _ => vm.Spends → e.isPanic = false) vm') :
    wp (step env) Q (fun e _ => vm.Spends → e.isPanic = false) vm := by
  have hr := (depth_bounds hd).2
  rw [step,wp_bind,validPC,wp_bind,wp_get,hs]
  dsimp only
  cases hpp : script[vm.scriptOff]? with
  | none => exact fun _ => rfl
  | some pop =>
    show wp (modify _ >>= _) _ _ vm
    rw [wp_bind,wp_modify,wp_bind]
    have hpr : ∀ p ∈ (script.take vm.scriptOff).getLast?, p.WellParsed := fun p hp =>
      hw p (mem_of_mem_take (mem_of_getLast? hp))
    refine (executeOpcode_step env vm.advance (hw pop (mem_of_getElem? hpp))
      hpr hr).imp (fun _ vm' hst => ?_)
    have hg : vm'.depth ≤ vm.depth+3 := hst.effect.depth
    have hd' : vm'.depth = vm'.dstack.length+vm'.astack.length := rfl
    rw [wp_bind,checkStackSize,wp_bind,wp_onDataStack,Stack.depth,wp_bind,wp_get,
      Stack.checkedStackSize_eq (by omega)]
    show wp (onAltStack _ >>= _) _ _ vm'
    rw [wp_bind,wp_onAltStack,wp_bind,wp_get,Stack.checkedStackSize_eq (by omega)]
    refine wp_ite (fun _ _ => rfl) fun _ => ?_
    have hs' : vm'.scripts[vm'.scriptIdx]? = some script := by
      rw [hst.effect.scripts,hst.effect.scriptIdx]
      exact hs
    have hi : indexAt vm'.scripts (vm'.scriptIdx : Int) = .ok script := by
      rw [indexAt,if_neg (by omega),Int.toNat_natCast,hs']
    rw [wp_pure,wp_bind,wp_get]
    rw [hi]
    exact hQ pop vm' hpp hst (by omega)

/-- Either the script goes on, in the same phase `P`, or it ends. -/
lemma step_phase {P : Engine → Prop} (hp : ∀ vm', P vm' → Phase sig pk vm')
    (hsc : vm.scripts[vm.scriptIdx]? = some script)
    (hw : ∀ pop ∈ script, pop.WellParsed) (hr : Running sig pk vm)
    (ho : ∀ pop vm', script[vm.scriptOff]? = some pop →
      OpcodeStep (script.take vm.scriptOff).getLast? pop vm.advance vm' → P vm')
    (hf : ∀ vm', P vm' → vm'.scriptOff = script.length → Running sig pk vm' →
      wp endOfScript (Progress sig pk vm') (fun e _ => e.isPanic = false) vm') :
    wp (step env) (fun done vm' => Progress sig pk vm done vm' ∧ remaining vm' < remaining vm)
      (fun e _ => vm.Spends → e.isPanic = false) vm := by
  refine step_wp env hsc hw hr.depth fun pop vm' hpp hst hd => ?_
  have hlt : vm.scriptOff < script.length := (List.getElem?_eq_some_iff.1 hpp).1
  have hof : vm'.scriptOff = vm.scriptOff+1 := hst.effect.scriptOff
  have hs : vm'.Spends ↔ vm.Spends := hst.effect.spends
  have hP := ho pop vm' hpp hst
  have hr' : Running sig pk vm' := ⟨hd,hst.effect.isP2SH.trans hr.isP2SH,hp vm' hP⟩
  have hls := remaining_opcode hsc hlt hst.effect.scripts hst.effect.scriptIdx hof hst.effect.isP2SH
  refine wp_ite (fun _ => ?_) fun _ => ?_
  · refine (hf vm' hP (by omega) hr').mono (fun done _ h => ?_) fun _ _ he _ => he
    exact ⟨⟨h.running,le_trans h.remaining (le_of_lt hls),h.finished,
      h.spends.trans hs⟩,lt_of_le_of_lt h.remaining hls⟩
  · refine ⟨⟨hr',le_of_lt hls,fun hdn => ?_,hs⟩,hls⟩
    cases hdn

lemma step_running (hs : ∀ pop ∈ sig, pop.WellParsed) (hpk : ∀ pop ∈ pk, pop.WellParsed)
    (hp : isPushOnly sig = true) (h : Running sig pk vm) :
    wp (step env) (fun done vm' => Progress sig pk vm done vm' ∧ remaining vm' < remaining vm)
      (fun e _ => vm.Spends → e.isPanic = false) vm := by
  cases h.phase with
  | signature hph =>
    have hscr : vm.scripts[vm.scriptIdx]? = some sig := by
      rw [hph.scripts,hph.scriptIdx]
      rfl
    refine step_phase env (fun _ => .signature) hscr hs h (fun pop vm' hpop hst => ?_)
      fun vm' hph' ho h' => hph'.finish ho h'.depth h'.isP2SH
    have hv := all_eq_true.1 hp pop (mem_of_getElem? hpop)
    exact hph.opcode (by simpa using hv) hpop hst
  | publicKey hph =>
    have hscr : vm.scripts[vm.scriptIdx]? = some pk := by
      rw [hph.scripts,hph.scriptIdx]
      rfl
    exact step_phase env (fun _ => .publicKey) hscr hpk h
      (fun pop vm' hpop hst => hph.opcode h.isP2SH hpk hpop hst)
      fun vm' hph' ho h' => hph'.finish ho h'.depth h'.isP2SH
  | redeem redeem hph =>
    have hscr : vm.scripts[vm.scriptIdx]? = some redeem := by
      rw [hph.scripts,hph.scriptIdx]
      rfl
    exact step_phase env (fun _ => .redeem redeem) hscr hph.isRedeem.wellParsed h
      (fun pop vm' hpop hst => hph.opcode hpop hst)
      fun vm' hph' ho h' => hph'.finish ho h'.depth h'.isP2SH
  | finished hph =>
    -- there is no opcode left
    have hn : vm.scripts[vm.scriptIdx]? = none := getElem?_eq_none hph.scriptIdx
    rw [step,wp_bind,validPC,wp_bind,wp_get,hn]
    exact fun _ => rfl

end
end TxScript
end Eiyaro
