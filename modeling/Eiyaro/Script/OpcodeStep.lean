import Eiyaro.Script.Effect

/-!
# What a run needs to know about an opcode

Beyond the frame of `Effect`: what a push leaves on the stack, that a hash needs an item, and
that the signatures an opcode verifies are those that it is counted with. The count of a multisig
opcode reads the opcode before it, whose number is on top of the stack when both are executed.
-/

namespace Eiyaro.TxScript
open List
open EStateM

/-- The bytes that a push leaves on the stack. -/
def pushedBytes (pop : ParsedOpcode) : List UInt8 :=
  match pop.opcode.opfunc with
  | .opcodePushData => pop.data
  | .opcode1Negate => [0x81]
  | .opcodeN => [pop.opcode.value - (op1 - 1)]
  | _ => []

section
variable (env : ScriptEnv) {pop : ParsedOpcode} {vm : Engine} {E : ScriptFailure → Engine → Prop}
  {prev : Option ParsedOpcode} {top : List UInt8} {opfunc : OpFunc} {keys : Nat}

lemma checkLimits_wp : wp (checkLimits pop) (fun _ vm' => (∃ n, vm' = { vm with numOps := n }) ∧
      (pop.opcode.value ≤ op16 → pop.data.length ≤ maxScriptElementSize))
    (fun e _ => e.isPanic = false) vm := by
  refine wp_ite (fun hv => ?_) fun _ => wp_ite (fun _ => rfl) fun _ => ?_
  · refine wp_ite (fun _ => rfl) fun _ => ⟨⟨_,rfl⟩,fun hle => ?_⟩
    exact absurd hv (UInt8.not_lt.2 hle)
  · exact ⟨⟨vm.numOps,rfl⟩,fun _ => by omega⟩

/-- An opcode is refused, skipped or executed. -/
lemma executeOpcode_wp {Q : Unit → Engine → Prop}
    (hsk : ∀ n, isBranchExecuting vm = false → Q () { vm with numOps := n })
    (hec : ∀ n, (pop.opcode.value ≤ op16 → pop.data.length ≤ maxScriptElementSize) →
      isBranchExecuting vm = true ∨ pop.isConditional = true →
      wp (pop.opcode.opfunc.exec env pop) Q E { vm with numOps := n })
    (herr : ∀ e vm', e.isPanic = false → E e vm') : wp (executeOpcode env pop) Q E vm := by
  refine wp_ite (fun _ => herr _ _ rfl) fun _ => wp_ite (fun _ => herr _ _ rfl) fun _ => ?_
  rw [wp_bind]
  refine checkLimits_wp.mono (fun _ vm' h => ?_) fun e vm' he => herr e vm' he
  obtain ⟨⟨n,rfl⟩,hd⟩ := h
  refine wp_ite (fun hs => hsk n ?_) fun hex => ?_
  · simp only [Bool.and_eq_true,Bool.not_eq_true'] at hs
    exact hs.1
  · have hb : isBranchExecuting vm = true ∨ pop.isConditional = true := by
      rw [Bool.and_eq_true,Bool.not_eq_true',Bool.not_eq_true'] at hex
      cases hvm : isBranchExecuting vm with
      | true => exact .inl rfl
      | false =>
        refine .inr ?_
        cases hp : pop.isConditional with
        | true => rfl
        | false => exact absurd ⟨hvm,hp⟩ hex
    rw [wp_bind]
    refine wp_ite (fun _ => ?_) fun _ => hec n hd hb
    exact wp_ofExcept (fun _ _ => hec n hd hb) fun e he =>
      herr e _ (checkMinimalDataPush_error he)

/-! ## Pushes -/

lemma exec_push_wp (hp : pop.WellParsed)
    (hv : pop.opcode.value ≤ op16) (he : ∀ e vm', e.isPanic = false → E e vm') :
    wp (pop.opcode.opfunc.exec env pop)
      (fun _ vm' => vm' = { vm with dstack := vm.dstack ++ [pushedBytes pop] }) E vm := by
  have hl := hp.listed
  have hps := hl.push hv
  have hb := hl.smallInt_bytes
  unfold pushedBytes
  generalize hf : pop.opcode.opfunc = opfunc at hps hb ⊢
  simp only [mem_cons,not_mem_nil,or_false] at hps
  obtain rfl | rfl | rfl | rfl | rfl := hps
  · rfl
  · rfl
  · rfl
  · exact he _ _ rfl
  · show wp (onDataStack (Stack.pushInt _)) _ _ vm
    rw [Stack.pushInt,(hb rfl).1]
    rfl

/-- A push that is not skipped leaves its bytes, and one that is leaves nothing. -/
lemma executeOpcode_push_wp (vm : Engine) (hp : pop.WellParsed) (hv : pop.opcode.value ≤ op16) :
    wp (executeOpcode env pop)
      (fun _ vm' => vm'.condStack = vm.condStack ∧ vm'.verifications = vm.verifications ∧
        (isBranchExecuting vm = true → vm'.dstack = vm.dstack ++ [pushedBytes pop] ∧
          (pushedBytes pop).length ≤ maxScriptElementSize))
      (fun e _ => e.isPanic = false) vm := by
  have hl : pop.data.length ≤ maxScriptElementSize →
      (pushedBytes pop).length ≤ maxScriptElementSize := by
    intro hdt
    unfold pushedBytes
    split
    · exact hdt
    all_goals exact Nat.le_of_ble_eq_true rfl
  refine executeOpcode_wp env (fun n hs => ⟨rfl,rfl,fun hex => ?_⟩) (fun n hdt _ => ?_)
    fun _ _ he => he
  · rw [hs] at hex
    cases hex
  · refine (exec_push_wp env hp hv fun _ _ he => he).imp (fun _ vm' h => ?_)
    rw [h]
    exact ⟨rfl,rfl,fun _ => ⟨rfl,hl (hdt hv)⟩⟩

/-! ## Hashes -/

lemma executeOpcode_hash_wp (pop : ParsedOpcode) (vm : Engine)
    (hp : pop.opcode.opfunc = .opcodeBlake2b)
    (hb : isBranchExecuting vm = true) (hd : (vm.dstack.length : Int) ≤ maxInt32) :
    wp (executeOpcode env pop) (fun _ _ => vm.dstack ≠ []) (fun _ _ => True) vm := by
  refine executeOpcode_wp env (fun _ hs => ?_) (fun _ _ _ => ?_) fun _ _ _ => trivial
  · rw [hb] at hs
    cases hs
  · rw [hp]
    show wp (onDataStack (hashTop env.blake2b)) _ _ _
    rw [wp_onDataStack,hashTop,wp_bind]
    refine Stack.popByteArray_wp hd (fun _ _ _ => trivial) fun rest so hc => ?_
    intro hn
    rw [show vm.dstack = rest ++ [so] from hc] at hn
    simp at hn

/-! ## Signatures -/

/-- A number of keys on top of the stack bounds the signatures that are verified. -/
lemma checkMultiSig_counted {scheme : Scheme}
    (hd : (vm.depth+1 : Nat) ≤ maxInt32) (ht : vm.dstack.getLast? = some top)
    (hk : makeScriptNum top defaultScriptNumLen = .ok (keys : Int)) :
    wp (checkMultiSig env scheme) (fun _ vm' => vm'.verifications ≤ vm.verifications+keys)
      (fun _ _ => True) vm := by
  have hvm : vm.depth = vm.dstack.length+vm.astack.length := rfl
  rw [checkMultiSig,wp_bind,wp_onDataStack,Stack.popInt,wp_bind]
  refine Stack.popByteArray_wp (by omega) (fun _ _ _ => trivial) fun rest so hc => ?_
  obtain rfl : so = top := by simpa [hc] using ht
  rw [hk]
  have hr : rest.length ≤ vm.dstack.length := by simp [hc]
  have hcn : (0 : Int) ≤ scriptNumInt32 keys → scriptNumInt32 keys ≤ 20 →
      (scriptNumInt32 keys).toNat ≤ keys := by
    unfold scriptNumInt32 maxInt32 minInt32
    split
    · omega
    · split
      · omega
      · omega
  refine (checkMultiSigOf_tame env scheme hcn { vm with dstack := rest } ?_).mono
    (fun _ vm' h => h.2.verifications) fun _ _ _ => trivial
  show ((rest.length+vm.astack.length+1 : Nat) : Int) ≤ maxInt32
  omega

lemma abstractVerify_counted {code : ErrorCode} {bound : Nat}
    (hvm : vm.verifications ≤ bound) : wp (abstractVerify pop code)
      (fun _ vm' => vm'.verifications ≤ bound) (fun _ _ => True) vm := by
  rw [abstractVerify,wp_bind,wp_onDataStack]
  unfold wp
  cases Stack.popBool vm.dstack with
  | ok _ stk => exact wp_ite (fun _ => hvm) fun _ => trivial
  | error _ stk => trivial

lemma exec_multiSig_counted (vm : Engine) (hp : pop.opcode.opfunc ∈
      [OpFunc.opcodeCheckMultiSig,.opcodeCheckMultiSigVerify,.opcodeCheckMultiSigECDSA])
    (hdp : (vm.depth+1 : Nat) ≤ maxInt32) (ht : vm.dstack.getLast? = some top)
    (hky : makeScriptNum top defaultScriptNumLen = .ok (keys : Int)) :
    wp (pop.opcode.opfunc.exec env pop)
      (fun _ vm' => vm'.verifications ≤ vm.verifications+keys) (fun _ _ => True) vm := by
  generalize hf : pop.opcode.opfunc = opfunc at hp ⊢
  simp only [mem_cons,not_mem_nil,or_false] at hp
  obtain rfl | rfl | rfl := hp
  · exact checkMultiSig_counted env hdp ht hky
  · show wp (checkMultiSig env .schnorr >>= fun _ => abstractVerify pop _) _ _ vm
    rw [wp_bind]
    exact (checkMultiSig_counted env hdp ht hky).mono
      (fun _ vm' h => abstractVerify_counted h) fun _ _ _ => trivial
  · exact checkMultiSig_counted env hdp ht hky

lemma OpFunc.maxVerifications_eq_zero
    (hs : opfunc ∉ [opcodeCheckSig,opcodeCheckSigVerify,opcodeCheckSigECDSA])
    (hm : opfunc ∉ [opcodeCheckMultiSig,opcodeCheckMultiSigVerify,opcodeCheckMultiSigECDSA]) :
    opfunc.maxVerifications = 0 := by
  cases opfunc
  all_goals first
    | rfl
    | exact absurd (by decide) hs
    | exact absurd (by decide) hm

lemma OpFunc.maxVerifications_le_one
    (hs : opfunc ∈ [opcodeCheckSig,opcodeCheckSigVerify,opcodeCheckSigECDSA]) :
    opfunc.maxVerifications = 1 := by
  simp only [mem_cons,not_mem_nil,or_false] at hs
  obtain rfl | rfl | rfl := hs
  all_goals rfl

lemma OpFunc.maxVerifications_le (opfunc : OpFunc) : opfunc.maxVerifications ≤ 20 := by
  cases opfunc
  all_goals decide

/-- The verified signatures are counted, where `prev` is the opcode before. -/
lemma executeOpcode_counted (hpp : pop.WellParsed)
    (hp : ∀ p ∈ prev, p.WellParsed) (hd : (vm.depth+3 : Nat) ≤ maxInt32)
    (ht : ∀ p ∈ prev, p.opcode.opfunc = .opcodeN → isBranchExecuting vm = true →
      vm.dstack.getLast? = some (pushedBytes p)) :
    wp (executeOpcode env pop)
      (fun _ vm' => vm'.verifications ≤ vm.verifications+sigOpsOf true prev pop)
      (fun _ _ => True) vm := by
  have htm : ∀ bound, pop.opcode.opfunc.maxVerifications ≤ bound → wp (executeOpcode env pop)
      (fun _ vm' => vm'.verifications ≤ vm.verifications+bound) (fun _ _ => True) vm :=
    fun bound hbn => (executeOpcode_tame env pop vm hd).mono
      (fun _ vm' h => Nat.le_trans h.2.verifications (Nat.add_le_add_left hbn _))
      fun _ _ _ => trivial
  have hl := hpp.listed
  by_cases hs : pop.opcode.opfunc ∈
      [OpFunc.opcodeCheckSig,.opcodeCheckSigVerify,.opcodeCheckSigECDSA]
  · have hc : sigOpsOf true prev pop = 1 := if_pos (hl.checkSig hs)
    rw [hc]
    exact htm 1 (Nat.le_of_eq (OpFunc.maxVerifications_le_one hs))
  by_cases hml : pop.opcode.opfunc ∈
      [OpFunc.opcodeCheckMultiSig,.opcodeCheckMultiSigVerify,.opcodeCheckMultiSigECDSA]
  · obtain ⟨hv,hv'⟩ := hl.checkMultiSig hml
    unfold sigOpsOf
    rw [if_neg hv',if_pos hv]
    cases prev with
    | none => exact htm 20 (OpFunc.maxVerifications_le _)
    | some p =>
      dsimp only
      by_cases hsm : isSmallIntPush p = true
      · rw [hsm]
        have hl' := (hp p rfl).listed
        have hN : p.opcode.opfunc = .opcodeN := hl'.smallInt.2 (by simpa [isSmallIntPush] using hsm)
        -- the number of keys is what the opcode before has pushed
        refine executeOpcode_wp env (fun n _ => Nat.le_add_right _ _) (fun n _ hb => ?_)
          fun _ _ _ => trivial
        have he : isBranchExecuting vm = true := by
          refine hb.resolve_right fun hcn => ?_
          have hds : ∀ value ∈ [opCheckMultiSig,opCheckMultiSigVerify,
              opCheckMultiSigECDSA], value ∉ [opIf,opNotIf,opElse,opEndIf] := by
            rw [forall_mem_cons,forall_mem_cons,forall_mem_singleton]
            decide
          exact hds _ hv (of_decide_eq_true hcn)
        refine exec_multiSig_counted env { vm with numOps := n } hml ?_ (ht p rfl hN he) ?_
        · show ((vm.depth+1 : Nat) : Int) ≤ maxInt32
          omega
        · unfold pushedBytes
          rw [hN]
          exact (hl'.smallInt_bytes hN).2.1
      · rw [Bool.true_and,if_neg hsm]
        exact htm 20 (OpFunc.maxVerifications_le _)
  · exact htm _ (by rw [OpFunc.maxVerifications_eq_zero hs hml]; exact Nat.zero_le _)

/-- What is known of a successful opcode that follows `prev`. -/
structure OpcodeStep (prev : Option ParsedOpcode) (pop : ParsedOpcode) (vm vm' : Engine) :
    Prop where
  effect : Effect 3 pop.opcode.opfunc.maxVerifications vm vm'
  push : pop.opcode.value ≤ op16 → vm'.condStack = vm.condStack ∧
    vm'.verifications = vm.verifications ∧
    (isBranchExecuting vm = true → vm'.dstack = vm.dstack ++ [pushedBytes pop] ∧
      (pushedBytes pop).length ≤ maxScriptElementSize)
  hash : pop.opcode.opfunc = .opcodeBlake2b → isBranchExecuting vm = true → vm.dstack ≠ []
  verifications : (∀ p ∈ prev, p.opcode.opfunc = .opcodeN → isBranchExecuting vm = true →
      vm.dstack.getLast? = some (pushedBytes p)) →
    vm'.verifications ≤ vm.verifications+sigOpsOf true prev pop

lemma executeOpcode_step (vm : Engine) (hp : pop.WellParsed)
    (hpr : ∀ p ∈ prev, p.WellParsed) (hd : (vm.depth+3 : Nat) ≤ maxInt32) :
    wp (executeOpcode env pop) (fun _ vm' => OpcodeStep prev pop vm vm')
      (fun e _ => vm.Spends → e.isPanic = false) vm := by
  have hs : (vm.dstack.length : Int) ≤ maxInt32 := by
    have hvm : vm.depth = vm.dstack.length+vm.astack.length := rfl
    omega
  have ht := executeOpcode_tame env pop vm hd
  have hps := wp_imp fun hv => executeOpcode_push_wp env vm hp hv
  have hh := wp_imp fun hf => wp_imp fun hb =>
    executeOpcode_hash_wp env pop vm hf hb hs
  have hc := wp_imp fun htp => executeOpcode_counted env hp hpr hd htp
  refine ((ht.and hps).and (hh.and hc)).mono (fun _ vm' h => ?_) fun e _ he => ?_
  · exact ⟨h.1.1.2,h.1.2,h.2.1,h.2.2⟩
  · exact he.1.1

end
end Eiyaro.TxScript
