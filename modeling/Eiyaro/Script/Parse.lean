import Eiyaro.Script.Opcode

/-!
# What parsing yields

Parsing never leaves the script, whatever lengths it declares, and every opcode takes at least
one byte. The opcodes are entries of the table, which has as many entries as a byte has values;
facts about all of them are decided one by one.
-/

namespace Eiyaro
open List
variable {pops : List ParsedOpcode} {script : List UInt8} {i : Nat}

namespace TxScript

/-! ## The table -/

/-- The facts about the entries of the table. -/
@[mk_iff]
structure Opcode.Listed (op : Opcode) : Prop where
  /-- No entry has length 0, on which the loop would not advance. -/
  length : op.length = 1 ∨ 1 < op.length ∨ op.length = -1 ∨ op.length = -2 ∨ op.length = -4
  /-- Only pushes of data have data. -/
  pushData : op.length ≠ 1 → op.opfunc = .opcodePushData
  push : op.value ≤ op16 → op.opfunc ∈
    [OpFunc.opcodeFalse,.opcodePushData,.opcode1Negate,.opcodeReserved,.opcodeN]
  smallInt : op.opfunc = .opcodeN ↔ op1 ≤ op.value ∧ op.value ≤ op16
  /-- `OP_1` to `OP_16` push a byte that is read back as the number they are counted with. -/
  smallInt_bytes : op.opfunc = .opcodeN →
    scriptNumBytes (op.value - (op1 - 1)).toNat = .ok [op.value - (op1 - 1)] ∧
      makeScriptNum [op.value - (op1 - 1)] defaultScriptNumLen = .ok (asSmallInt op) ∧
      asSmallInt op ≤ 16
  blake2b : op.value = opBlake2b → op.opfunc = .opcodeBlake2b
  checkSig : op.opfunc ∈ [OpFunc.opcodeCheckSig,.opcodeCheckSigVerify,.opcodeCheckSigECDSA] →
    op.value ∈ [opCheckSig,opCheckSigVerify,opCheckSigECDSA]
  checkMultiSig : op.opfunc ∈
    [OpFunc.opcodeCheckMultiSig,.opcodeCheckMultiSigVerify,.opcodeCheckMultiSigECDSA] →
      op.value ∈ [opCheckMultiSig,opCheckMultiSigVerify,opCheckMultiSigECDSA] ∧
      op.value ∉ [opCheckSig,opCheckSigVerify,opCheckSigECDSA]

instance (op : Opcode) : Decidable op.Listed :=
  decidable_of_iff' _ (Opcode.listed_iff op)

lemma opcodeArray_listed (instr : UInt8) : (opcodeArray instr).Listed := by
  revert instr
  exact forall_byte (by decide +kernel)

/-- An opcode of the table, with data only where it pushes it. -/
structure ParsedOpcode.WellParsed (pop : ParsedOpcode) : Prop where
  opcode : ∃ instr, pop.opcode = opcodeArray instr
  data : pop.opcode.opfunc ≠ .opcodePushData → pop.data = []

lemma ParsedOpcode.WellParsed.listed {pop : ParsedOpcode} (hp : pop.WellParsed) :
    pop.opcode.Listed := by
  obtain ⟨instr,hi⟩ := hp.opcode
  exact hi ▸ opcodeArray_listed instr

/-! ## One opcode -/

lemma sliceAt_eq_ok {low high : Nat} (h : low ≤ high) (hh : high ≤ script.length) :
    sliceAt script low high = .ok ((script.take high).drop low) :=
  if_pos ⟨h,hh⟩

lemma sliceAt_length (h : i ≤ script.length) :
    sliceAt script i script.length = .ok (script.drop i) := by
  rw [sliceAt_eq_ok h (Nat.le_refl _),take_length]

/-- None of the opcodes whose entries hold the values of others. -/
def Opcode.HasOwnValue (op : Opcode) : Prop :=
  ∀ instr, op = opcodeArray instr → ¬(178 ≤ instr ∧ instr ≤ 187)

lemma opcodeArray_value_iff (instr : UInt8) :
    (opcodeArray instr).value = instr ↔ ¬(178 ≤ instr ∧ instr ≤ 187) := by
  revert instr
  exact forall_byte (by decide +kernel)

/-- An entry with the value of another one differs from it in its name. -/
lemma opcodeArray_name_ne (instr : UInt8) : 178 ≤ instr ∧ instr ≤ 187 →
    (opcodeArray (opcodeArray instr).value).name ≠ (opcodeArray instr).name := by
  revert instr
  exact forall_byte (by decide +kernel)

lemma hasOwnValue_opcodeArray_iff (instr : UInt8) :
    (opcodeArray instr).HasOwnValue ↔ (opcodeArray instr).value = instr := by
  refine ⟨fun h => (opcodeArray_value_iff instr).2 (h instr rfl),fun h other heq hother => ?_⟩
  refine opcodeArray_name_ne other hother ?_
  rw [← heq,h]

lemma drop_take_eq_cons {instr : UInt8} {next : Nat} (hi : script[i]? = some instr)
    (hn : i < next) :
    (script.take next).drop i = instr :: (script.take next).drop (i+1) := by
  obtain ⟨_,rfl⟩ := List.getElem?_eq_some_iff.1 hi
  rw [drop_eq_getElem_cons (by simp; omega),getElem_take]

/-- The data after its length. -/
lemma take_add_littleEndian {width : Nat} (h : width ≤ script.length) :
    script.take (width+littleEndian (script.take width)) =
      putLittleEndian width (littleEndian (script.take width)) ++
        (script.drop width).take (littleEndian (script.take width)) := by
  have hp := putLittleEndian_littleEndian (script.take width)
  rw [length_take,min_eq_left h] at hp
  rw [take_add,hp]

lemma ParsedOpcode.scriptBytes_pushData {op : Opcode} {data : List UInt8}
    (hkn : op.length ∈ [-1,-2,-4]) (hlt : data.length < 256^(-op.length).toNat) :
    scriptBytes ⟨op,data⟩ =
      .ok (op.value :: putLittleEndian (-op.length).toNat data.length ++ data) := by
  have ho : op.length ≠ 1 := fun h => by simp [h] at hkn
  unfold scriptBytes
  dsimp only
  rw [if_neg ho,if_pos hkn,if_pos hkn,littleEndian_putLittleEndian_of_lt hlt]
  simp
  omega

lemma parseOpcode_cases {instr : UInt8} (hin : script[i]? = some instr) :
    (∃ pop next, parseOpcode script i (opcodeArray instr) = .ok (pop, next) ∧
      pop.WellParsed ∧ i < next ∧ next ≤ script.length ∧ pop.opcode = opcodeArray instr ∧
      pop.scriptBytes = .ok (pop.opcode.value :: (script.take next).drop (i+1))) ∨
    ∃ failure, parseOpcode script i (opcodeArray instr) = .error failure ∧
      failure.isPanic = false := by
  have hi : i < script.length := (List.getElem?_eq_some_iff.1 hin).1
  have hl := (opcodeArray_listed instr).length
  have hdt : ∀ data : List UInt8, (opcodeArray instr).length ≠ 1 →
      ParsedOpcode.WellParsed ⟨opcodeArray instr,data⟩ := fun data hl =>
    ⟨⟨instr,rfl⟩,fun hne => absurd ((opcodeArray_listed instr).pushData hl) hne⟩
  unfold parseOpcode
  by_cases ho : (opcodeArray instr).length = 1
  · rw [if_pos ho]
    refine .inl ⟨_,_,rfl,⟨⟨instr,rfl⟩,fun _ => rfl⟩,by omega,by omega,rfl,?_⟩
    simp [ParsedOpcode.scriptBytes,ho]
  rw [if_neg ho]
  by_cases hp : (opcodeArray instr).length > 1
  · rw [if_pos hp]
    rw [sliceAt_length (by omega),ok_bind,length_drop]
    by_cases hsh : script.length - i < (opcodeArray instr).length.toNat
    · rw [if_pos hsh]
      exact .inr ⟨_,rfl,rfl⟩
    · rw [if_neg hsh,sliceAt_eq_ok (by omega) (by omega)]
      refine .inl ⟨_,_,rfl,hdt _ ho,by omega,by omega,rfl,?_⟩
      have hkn : (opcodeArray instr).length ∉ [-1,-2,-4] := by
        simp
        omega
      unfold ParsedOpcode.scriptBytes
      dsimp only
      rw [if_neg ho,if_neg hkn]
      simp
      omega
  · have hn : (opcodeArray instr).length < 0 := by omega
    have hk : ¬((opcodeArray instr).length ≠ -1 ∧ (opcodeArray instr).length ≠ -2 ∧
        (opcodeArray instr).length ≠ -4) := by
      omega
    rw [if_neg hp,if_pos hn]
    dsimp only
    rw [sliceAt_length (by omega),ok_bind,length_drop]
    by_cases hsh : script.length - (i+1) < (-(opcodeArray instr).length).toNat
    · rw [if_pos hsh]
      exact .inr ⟨_,rfl,rfl⟩
    · rw [if_neg hsh,if_neg hk,sliceAt_length (by omega),ok_bind,length_drop]
      -- the declared length is compared with what is left before it is used
      split
      · exact .inr ⟨_,rfl,rfl⟩
      · rw [sliceAt_eq_ok (by omega) (by omega)]
        refine .inl ⟨_,_,rfl,hdt _ ho,by omega,by omega,rfl,?_⟩
        generalize hw : (-(opcodeArray instr).length).toNat = width at *
        have hlt := littleEndian_lt ((script.drop (i+1)).take width)
        have hr := take_add_littleEndian
          (by rw [length_drop]; omega : width ≤ (script.drop (i+1)).length)
        rw [length_take,length_drop,min_eq_left (by omega)] at hlt
        generalize littleEndian ((script.drop (i+1)).take width) = dataLen at *
        have hd : ((script.take (i+1+width+dataLen)).drop (i+1+width)).length = dataLen := by
          simp
          omega
        refine (ParsedOpcode.scriptBytes_pushData (by simp; omega) (by rwa [hd,hw])).trans ?_
        rw [hd,hw,drop_take,drop_take,
          Nat.add_assoc (i+1),Nat.add_sub_cancel_left,hr,drop_drop,← Nat.add_assoc (i+1),
          Nat.add_sub_cancel_left]
        rfl

/-! ## Whole scripts -/

lemma parseLoop_eq_ok (script : List UInt8) (fuel i : Nat) (retScript : List ParsedOpcode)
    (hi : i ≤ script.length) (hfl : script.length - i < fuel) :
    ∃ pops failure, parseLoop script fuel i retScript = .ok (retScript ++ pops, failure) ∧
      pops.length ≤ script.length - i ∧ (∀ pop ∈ pops, pop.WellParsed) ∧
      (∀ e ∈ failure, e.isPanic = false) ∧
      (failure = none → ∃ bytes, unparseScript pops = .ok bytes ∧
        (bytes = script.drop i ↔ ∀ pop ∈ pops, pop.opcode.HasOwnValue)) := by
  induction fuel generalizing i retScript with
  | zero => omega
  | succ fuel ih =>
    rw [parseLoop]
    cases hin : script[i]? with
    | none =>
      refine ⟨[],none,by simp,by simp,by simp,nofun,fun _ => ⟨[],rfl,?_⟩⟩
      simp [getElem?_eq_none_iff.1 hin]
    | some instr =>
      obtain ⟨pop,next,heq,hpo,hlt,hle,hop,hb⟩ | ⟨failure,heq,hp⟩ := parseOpcode_cases hin
      · obtain ⟨pops,failure,hpp,_,hw,hf,hu⟩ := ih next (retScript ++ [pop]) hle (by omega)
        refine ⟨pop :: pops,failure,?_,?_,?_,hf,fun hn => ?_⟩
        · simp only [heq]
          rw [hpp,append_assoc]
          rfl
        · rw [length_cons]
          omega
        · rw [forall_mem_cons]
          exact ⟨hpo,hw⟩
        · obtain ⟨bytes,hub,hiff⟩ := hu hn
          refine ⟨_,by rw [unparseScript,hb,hub]; rfl,?_⟩
          -- what is written differs from what was read in the values of the opcodes only
          have hsp : script.drop i =
              instr :: ((script.take next).drop (i+1) ++ script.drop next) := by
            rw [← cons_append,← drop_take_eq_cons hin hlt,
              ← drop_append_of_le_length (by simp; omega),take_append_drop]
          rw [hsp,forall_mem_cons,cons_append,cons.injEq,append_right_inj,hiff,hop,
            hasOwnValue_opcodeArray_iff]
      · refine ⟨[],some failure,?_,by simp,by simp,fun e he => ?_,nofun⟩
        · simp only [heq,append_nil]
          cases failure with
          | panic message => cases hp
          | scriptError _ _ => rfl
          | error message => rfl
        · cases he
          exact hp

lemma parseScriptTemplate_eq_ok (script : List UInt8) :
    ∃ pops failure, parseScriptTemplate script = .ok (pops, failure) ∧
      pops.length ≤ script.length ∧ (∀ pop ∈ pops, pop.WellParsed) ∧
      (∀ e ∈ failure, e.isPanic = false) ∧
      (failure = none → ∃ bytes, unparseScript pops = .ok bytes ∧
        (bytes = script ↔ ∀ pop ∈ pops, pop.opcode.HasOwnValue)) :=
  parseLoop_eq_ok script (script.length+1) 0 [] (Nat.zero_le _) (by omega)

/-- A script that parses is parsed to the end. -/
lemma parseScriptTemplate_of_parseScript
    (h : parseScript script = .ok pops) : parseScriptTemplate script = .ok (pops, none) := by
  obtain ⟨⟨_,failure⟩,hp,h⟩ := bind_eq_ok h
  cases failure with
  | none =>
    cases h
    exact hp
  | some failure => cases h

lemma parseScript_eq_ok (h : parseScript script = .ok pops) :
    pops.length ≤ script.length ∧ ∀ pop ∈ pops, pop.WellParsed := by
  obtain ⟨_,_,hp,hl,hw,-⟩ := parseScriptTemplate_eq_ok script
  rw [parseScriptTemplate_of_parseScript h] at hp
  cases hp
  exact ⟨hl,hw⟩

lemma parseScript_error {e : ScriptFailure}
    (h : parseScript script = .error e) : e.isPanic = false := by
  obtain ⟨_,failure,hp,-,-,hf,-⟩ := parseScriptTemplate_eq_ok script
  rw [parseScript,hp] at h
  cases failure with
  | none => cases h
  | some failure =>
    cases h
    exact hf _ rfl

/-- A script is read within its bounds, its opcodes can be written, and they are written as they
were read if and only if none of them has an entry in the table with the value of another. -/
theorem unparseScript_parseScript (script : List UInt8) :
    (∀ pops, parseScript script = .ok pops → ∃ bytes, unparseScript pops = .ok bytes ∧
      (bytes = script ↔ ∀ pop ∈ pops, pop.opcode.HasOwnValue)) ∧
    ∀ e, parseScript script = .error e → e.isPanic = false := by
  refine ⟨fun pops h => ?_,fun e => parseScript_error⟩
  obtain ⟨_,_,hp,-,-,-,hu⟩ := parseScriptTemplate_eq_ok script
  rw [parseScriptTemplate_of_parseScript h] at hp
  cases hp
  exact hu rfl

theorem unparseScript_parseScript_op1 : ∃ bytes,
    unparseScript [⟨opcodeArray 0x51,[]⟩] = .ok bytes ∧
      (bytes = [0x51] ↔ ∀ pop ∈ [(⟨opcodeArray 0x51,[]⟩ : ParsedOpcode)],
        pop.opcode.HasOwnValue) :=
  (unparseScript_parseScript [0x51]).1 _ rfl

/-- `OP_UNKNOWN178` is written as `OP_UNKNOWN188`. -/
theorem unparseScript_unknown178 :
    ∃ pops, parseScript [178] = .ok pops ∧ unparseScript pops = .ok [188] :=
  ⟨[⟨opcodeArray 178,[]⟩],rfl,rfl⟩

/-! ## Counting -/

lemma sigOpCountLoop_append (precise : Bool) (previous : Option ParsedOpcode) (nSigs : Nat)
    (pops : List ParsedOpcode) (pop : ParsedOpcode) :
    sigOpCountLoop precise previous nSigs (pops ++ [pop]) =
      sigOpCountLoop precise previous nSigs pops +
        sigOpsOf precise (pops.getLast?.or previous) pop := by
  induction pops generalizing previous nSigs with
  | nil => rfl
  | cons _ pops ih =>
    rw [cons_append,sigOpCountLoop,ih]
    cases pops with
    | nil => rfl
    | cons _ pops =>
      rfl

/-- The opcodes are counted one after the other. -/
lemma getSigOpCount_take_succ {precise : Bool} {pop : ParsedOpcode} (h : pops[i]? = some pop) :
    getSigOpCount (pops.take (i+1)) precise =
      getSigOpCount (pops.take i) precise+sigOpsOf precise (pops.take i).getLast? pop := by
  rw [take_add_one,h]
  show sigOpCountLoop precise none 0 (pops.take i ++ [pop]) = _
  rw [sigOpCountLoop_append,Option.or_none]
  rfl

end TxScript
end Eiyaro
