import Eiyaro.Model.Failure
import Eiyaro.Util.LittleEndian

/-!
# Errors and numbers of the script engine

`error.go` and `scriptnum.go` of `domain/consensus/utils/txscript`. A number is stored on the
stack with its least significant byte first and the sign in the highest bit. The operands of
the numeric opcodes have at most four bytes, their results can be longer.
-/

namespace Eiyaro.TxScript
open Nat List UInt8

/-! ## Errors -/

inductive ErrorCode
  | errInternal
  | errInvalidIndex
  | errEarlyReturn
  | errEmptyStack
  | errEvalFalse
  | errScriptUnfinished
  | errInvalidProgramCounter
  | errScriptTooBig
  | errElementTooBig
  | errTooManyOperations
  | errStackOverflow
  | errInvalidPubKeyCount
  | errInvalidSignatureCount
  | errNumberTooBig
  | errVerify
  | errEqualVerify
  | errNumEqualVerify
  | errCheckSigVerify
  | errCheckMultiSigVerify
  | errDisabledOpcode
  | errReservedOpcode
  | errMalformedPush
  | errInvalidStackOperation
  | errUnbalancedConditional
  | errMinimalData
  | errInvalidSigHashType
  | errSigLength
  | errNotPushOnly
  | errPubKeyFormat
  | errCleanStack
  | errNullFail
  | errUnsatisfiedLockTime
  | errMinimalIf
deriving DecidableEq

inductive ScriptFailure
  | scriptError (code : ErrorCode) (description : String)
  /-- An error of another package. -/
  | error (message : String)
  | panic (message : String)
deriving DecidableEq

def ScriptFailure.isPanic : ScriptFailure → Bool
  | panic _ => true
  | _ => false

def scriptError {α : Type} (code : ErrorCode) (description : String) : Except ScriptFailure α :=
  .error (.scriptError code description)

/-- Bytes as `%x` prints them. -/
def hexString (bytes : List UInt8) : String :=
  String.ofList (bytes.flatMap fun byte =>
    [Nat.digitChar (byte.toNat / 16),Nat.digitChar (byte.toNat % 16)])

/-- An index into a slice. -/
def indexAt {α : Type} (slice : List α) (i : Int) : Except ScriptFailure α :=
  if i < 0 then
    .error (.panic "index out of range")
  else
    match slice[i.toNat]? with
    | none => .error (.panic "index out of range")
    | some a => .ok a

lemma indexAt_eq_ok {α : Type} {slice : List α} {i : Int} {a : α}
    (h : indexAt slice i = .ok a) : 0 ≤ i ∧ slice[i.toNat]? = some a := by
  unfold indexAt at h
  by_cases hn : i < 0
  · rw [if_pos hn] at h
    cases h
  · rw [if_neg hn] at h
    refine ⟨by omega,?_⟩
    cases hg : slice[i.toNat]? with
    | none =>
      rw [hg] at h
      cases h
    | some _ =>
      rw [hg] at h
      cases h
      rfl

lemma indexAt_of_lt {α : Type} {slice : List α} {i : Int} (h0 : 0 ≤ i)
    (hlt : i < slice.length) : ∃ a, indexAt slice i = .ok a := by
  have hn : i.toNat < slice.length := by omega
  refine ⟨slice.get ⟨i.toNat,hn⟩,?_⟩
  rw [indexAt,if_neg (by omega),getElem?_eq_getElem hn]
  rfl

/-! ## Numbers -/

def defaultScriptNumLen : Nat := 4

def maxInt32 : Int := 2^31 - 1

def minInt32 : Int := -2^31

/-- The value of an `int64`. -/
def wrapInt64 (n : Int) : Int :=
  n.bmod (2^64)

def checkMinimalDataEncoding (v : List UInt8) : Except ScriptFailure Unit :=
  let notMinimal := scriptError .errMinimalData
    ("numeric value encoded as " ++ hexString v ++ " is not minimally encoded")
  match v.reverse with
  | [] => .ok ()
  | last :: rest =>
    if last &&& 0x7f = 0 then
      match rest with
      | [] => notMinimal
      | secondLast :: _ => if secondLast &&& 0x80 = 0 then notMinimal else .ok ()
    else
      .ok ()

/-- The bytes of a positive `int64`, least significant byte first. -/
def magnitudeBytes : Nat → Nat → List UInt8
  | 0, _ => []
  | fuel+1, n =>
    if n = 0 then [] else UInt8.ofNat (n % 256) :: magnitudeBytes fuel (n / 256)

/-- `scriptNum.Bytes`. The smallest `int64` is its own negation, so that no byte is written
for it and the access to the last one fails. -/
def scriptNumBytes (n : Int) : Except ScriptFailure (List UInt8) :=
  if n = 0 then
    .ok []
  else
    let isNegative := decide (n < 0)
    let n := if isNegative then wrapInt64 (-n) else n
    let result := magnitudeBytes 8 n.toNat
    match result.reverse with
    | [] => .error (.panic "index out of range")
    | last :: rest =>
      if last &&& 0x80 ≠ 0 then
        .ok (result ++ [if isNegative then 0x80 else 0x00])
      else if isNegative then
        .ok ((last ||| 0x80) :: rest).reverse
      else
        .ok result

/-- `scriptNum.Int32`. -/
def scriptNumInt32 (n : Int) : Int :=
  if n > maxInt32 then maxInt32 else if n < minInt32 then minInt32 else n

def makeScriptNum (v : List UInt8) (scriptNumLen : Nat) : Except ScriptFailure Int := do
  if v.length > scriptNumLen then
    scriptError .errNumberTooBig ("numeric value encoded as " ++ hexString v ++ " is " ++
      toString v.length ++ " bytes which exceeds the max allowed of " ++ toString scriptNumLen)
  else if v.length > 8 then
    scriptError .errNumberTooBig ("numeric value encoded as " ++ hexString v ++
      " is longer than 8 bytes")
  else do
    checkMinimalDataEncoding v
    match v.reverse with
    | [] => return 0
    | last :: _ =>
      -- the highest bit is the sign, and not a part of the number
      if last &&& 0x80 ≠ 0 then
        return -(littleEndian v - 0x80*256^(v.length - 1) : Nat)
      else
        return littleEndian v

/-! ## Ranges -/

variable {v : List UInt8} {len : Nat} {n : Int}

/-- The number without its sign. -/
lemma natAbs_makeScriptNum_lt (h : makeScriptNum v len = .ok n) : n.natAbs < 256^len := by
  obtain ⟨_,h⟩ := of_ite_error h
  obtain ⟨-,h⟩ := of_ite_error h
  have hp : 256^v.length ≤ 256^len := Nat.pow_le_pow_right (by decide) (by omega)
  have hlt := littleEndian_lt v
  obtain ⟨_,-,h⟩ := bind_eq_ok h
  split at h
  · cases h
    exact Nat.pow_pos (by decide)
  · split at h
    · cases h
      omega
    · cases h
      omega

lemma makeScriptNum_error {e : ScriptFailure}
    (h : makeScriptNum v len = .error e) : e.isPanic = false := by
  unfold makeScriptNum checkMinimalDataEncoding at h
  split at h
  · cases h
    rfl
  · split at h
    · cases h
      rfl
    · split at h
      · cases h
      · split at h
        · split at h
          · cases h
            rfl
          · split at h
            · cases h
              rfl
            · split at h
              · cases h
              · cases h
        · split at h
          · cases h
          · cases h

/-- Every number but the smallest one has bytes. -/
lemma scriptNumBytes_eq_ok (h : -2^63 < n) : ∃ bytes, scriptNumBytes n = .ok bytes := by
  unfold scriptNumBytes
  by_cases hz : n = 0
  · rw [if_pos hz]
    exact ⟨[],rfl⟩
  · rw [if_neg hz]
    dsimp only
    have hm : (if decide (n < 0) = true then wrapInt64 (-n) else n).toNat ≠ 0 := by
      by_cases hn : n < 0
      · rw [if_pos (decide_eq_true hn),wrapInt64,Int.bmod_eq_of_le (by omega) (by omega)]
        omega
      · rw [if_neg (by simpa using hn)]
        omega
    split
    · next hnl =>
      rw [magnitudeBytes,if_neg hm] at hnl
      exact absurd (reverse_eq_nil_iff.1 hnl) (cons_ne_nil _ _)
    · split
      · exact ⟨_,rfl⟩
      · split
        · exact ⟨_,rfl⟩
        · exact ⟨_,rfl⟩

lemma forall_byte {P : UInt8 → Prop} (h : ∀ n < 256, P (ofNat n)) (byte : UInt8) : P byte := by
  have hb := h byte.toNat byte.toNat_lt
  rwa [UInt8.ofNat_toNat] at hb

/-! ## Reading back -/

/-- The last byte of a number: seven bits of the magnitude and the sign. -/
def signByte (isNegative : Bool) (b : UInt8) : UInt8 :=
  if isNegative then b ||| 0x80 else b

/-- The bytes of a number: those of its magnitude, of which the last one is not zero, with the
sign in the highest bit or in a byte of its own. -/
def signedBytes (isNegative : Bool) (rest : List UInt8) (last : UInt8) : List UInt8 :=
  if last &&& 0x80 ≠ 0 then
    rest ++ [last] ++ [signByte isNegative 0]
  else
    rest ++ [signByte isNegative last]

def signedValue (isNegative : Bool) (magnitude : Nat) : Int :=
  if isNegative then -magnitude else magnitude

lemma littleEndian_append (low high : List UInt8) :
    littleEndian (low ++ high) = littleEndian low+256^low.length*littleEndian high := by
  induction low with
  | nil => simp [littleEndian]
  | cons byte low ih =>
    show byte.toNat+256*littleEndian (low ++ high) = byte.toNat+256*littleEndian low+_
    rw [ih,length_cons]
    ring

lemma littleEndian_pos {l : List UInt8} {last : UInt8} (hls : last ≠ 0) :
    0 < littleEndian (l ++ [last]) := by
  have hp : 0 < last.toNat := pos_of_ne_zero fun h => hls (UInt8.toNat_inj.1 h)
  have hpw : 0 < 256^l.length*last.toNat := Nat.mul_pos (Nat.pow_pos (by decide)) hp
  rw [littleEndian_append]
  exact lt_of_lt_of_le hpw (le_add_left _ _)

lemma magnitudeBytes_littleEndian {rest : List UInt8} {last : UInt8} {fuel : Nat}
    (hls : last ≠ 0) (hl : rest.length < fuel) :
    magnitudeBytes fuel (littleEndian (rest ++ [last])) = rest ++ [last] := by
  induction rest generalizing fuel with
  | nil =>
    obtain ⟨fuel,rfl⟩ : ∃ k, fuel = k+1 := ⟨fuel - 1,by omega⟩
    have hz : magnitudeBytes fuel 0 = [] := by cases fuel <;> rfl
    have hby := last.toNat_lt
    have hne : last.toNat ≠ 0 := fun h => hls (UInt8.toNat_inj.1 h)
    show magnitudeBytes (fuel+1) last.toNat = [last]
    rw [magnitudeBytes,if_neg hne,mod_eq_of_lt hby,div_eq_of_lt hby,hz,UInt8.ofNat_toNat]
  | cons byte rest ih =>
    obtain ⟨fuel,rfl⟩ : ∃ k, fuel = k+1 := ⟨fuel - 1,by omega⟩
    have hp := littleEndian_pos (l := rest) hls
    have hby := byte.toNat_lt
    show magnitudeBytes (fuel+1) (byte.toNat+256*littleEndian (rest ++ [last])) = _
    rw [magnitudeBytes,if_neg (by omega),add_mul_mod_self_left,mod_eq_of_lt hby,
      add_mul_div_left _ _ (by decide),div_eq_of_lt hby,zero_add,
      ih (lt_of_succ_lt_succ hl),UInt8.ofNat_toNat]
    rfl

lemma exists_magnitude {fuel m : Nat} (hm : m ≠ 0) (hlt : m < 256^fuel) :
    ∃ rest last, last ≠ 0 ∧ rest.length < fuel ∧ littleEndian (rest ++ [last]) = m := by
  induction fuel generalizing m with
  | zero => omega
  | succ fuel ih =>
    by_cases hb : m < 256
    · refine ⟨[],ofNat m,fun h => hm ?_,succ_pos _,?_⟩
      · rw [← UInt8.toNat_inj,UInt8.toNat_ofNat_of_lt' hb] at h
        exact h
      · exact toNat_ofNat_of_lt' hb
    · obtain ⟨rest,last,hls,hl,hr⟩ := ih (m := m / 256) (by omega) (by omega)
      refine ⟨ofNat (m % 256) :: rest,last,hls,by simpa using hl,?_⟩
      show (ofNat (m % 256)).toNat+256*littleEndian (rest ++ [last]) = m
      rw [hr,toNat_ofNat_of_lt' (mod_lt _ (by decide)),mod_add_div]

lemma signByte_spec (b : UInt8) : b &&& 0x80 = 0 → ∀ isNegative,
    signByte isNegative b &&& 0x7f = b ∧ (isNegative → signByte isNegative b &&& 0x80 ≠ 0) ∧
    (signByte isNegative b).toNat = b.toNat+if isNegative then 0x80 else 0 := by
  revert b
  exact forall_byte (by decide +kernel)

lemma exists_signByte (top : UInt8) :
    ∃ isNegative, top = signByte isNegative (top &&& 0x7f) ∧ (top &&& 0x7f) &&& 0x80 = 0 := by
  revert top
  exact forall_byte (by decide +kernel)

/-- What is read of bytes that are minimal. -/
lemma readSigned {isNegative : Bool} {body : List UInt8} {b : UInt8} (hb : b &&& 0x80 = 0) :
    (match (body ++ [signByte isNegative b]).reverse with
    | [] => return 0
    | last :: _ =>
      if last &&& 0x80 ≠ 0 then
        return -(littleEndian (body ++ [signByte isNegative b]) -
          0x80*256^((body ++ [signByte isNegative b]).length - 1) : Nat)
      else
        return littleEndian (body ++ [signByte isNegative b]) : Except ScriptFailure Int) =
      .ok (signedValue isNegative (littleEndian (body ++ [b]))) := by
  obtain ⟨-,hbt,hv⟩ := signByte_spec b hb isNegative
  rw [reverse_concat]
  cases isNegative with
  | false => exact if_neg (not_not.2 hb)
  | true =>
    refine (if_pos (hbt rfl)).trans ?_
    rw [littleEndian_append,littleEndian_append,length_append]
    show Except.ok (-((_+256^_*(signByte true b).toNat - _ : Nat) : Int)) =
      .ok (-((_+256^body.length*b.toNat : Nat) : Int))
    rw [hv,length_singleton,Nat.add_sub_cancel,if_pos rfl,Nat.mul_add,← Nat.add_assoc,
      Nat.mul_comm 0x80,Nat.add_sub_cancel]

variable {isNegative : Bool} {rest : List UInt8} {last : UInt8}

/-- The sign fits into eight bytes where it leaves the number an `int64`. -/
lemma length_signedBytes_le (hl : rest.length < 8) :
    (signedBytes isNegative rest last).length ≤ 8 ↔ littleEndian (rest ++ [last]) < 2^63 := by
  have hr := littleEndian_lt rest
  have hb := last.toNat_lt
  have hs : last &&& 0x80 = 0 ↔ last.toNat < 128 :=
    forall_byte (P := fun b => b &&& 0x80 = 0 ↔ b.toNat < 128) (by decide +kernel) last
  have hv : littleEndian (rest ++ [last]) = littleEndian rest+256^rest.length*last.toNat :=
    littleEndian_append rest [last]
  by_cases hbit : last &&& 0x80 = 0
  · have hlt := hs.1 hbit
    rw [signedBytes,if_neg (not_not.2 hbit),length_append,length_singleton,hv]
    generalize rest.length = r at *
    interval_cases r <;> omega
  · have hge := mt hs.2 hbit
    rw [signedBytes,if_pos hbit,length_append,length_append,length_singleton,hv]
    generalize rest.length = r at *
    interval_cases r <;> simp <;> omega

section
variable (hls : last ≠ 0)
include hls

lemma scriptNumBytes_signedValue (hsz : (signedBytes isNegative rest last).length ≤ 8) :
    scriptNumBytes (signedValue isNegative (littleEndian (rest ++ [last]))) =
      .ok (signedBytes isNegative rest last) := by
  have hl : rest.length < 8 := by
    unfold signedBytes at hsz
    split at hsz <;>
    · simp at hsz
      omega
  have hp := littleEndian_pos (l := rest) hls
  have hlt := (length_signedBytes_le hl).1 hsz
  have hb := magnitudeBytes_littleEndian hls hl
  generalize littleEndian (rest ++ [last]) = m at *
  cases isNegative with
  | false =>
    have hn : ¬(m : Int) < 0 := by omega
    unfold scriptNumBytes signedBytes
    simp only [signedValue,Bool.false_eq_true,if_false,hn,decide_false,Int.toNat_natCast,hb,
      reverse_concat,if_neg (show ¬(m : Int) = 0 by omega)]
    split
    · rfl
    · rfl
  | true =>
    have hn : (-m : Int) < 0 := by omega
    have hw : wrapInt64 (- -(m : Int)) = m := by
      rw [wrapInt64,Int.bmod_eq_of_le (by omega) (by omega),Int.neg_neg]
    unfold scriptNumBytes signedBytes
    simp only [signedValue,if_true,hn,decide_true,hw,Int.toNat_natCast,hb,
      reverse_concat,if_neg (show ¬(-m : Int) = 0 by omega)]
    split
    · rfl
    · rw [reverse_cons,reverse_reverse]
      rfl

lemma makeScriptNum_signedBytes (hl : (signedBytes isNegative rest last).length ≤ len)
    (hl' : (signedBytes isNegative rest last).length ≤ 8) :
    makeScriptNum (signedBytes isNegative rest last) len =
      .ok (signedValue isNegative (littleEndian (rest ++ [last]))) := by
  unfold makeScriptNum
  rw [if_neg (not_lt.2 hl),if_neg (not_lt.2 hl')]
  by_cases hb : last &&& 0x80 = 0
  · have hm : checkMinimalDataEncoding (signedBytes isNegative rest last) = .ok () := by
      rw [signedBytes,if_neg (not_not.2 hb),checkMinimalDataEncoding,reverse_concat]
      exact if_neg ((signByte_spec last hb isNegative).1.symm ▸ hls)
    rw [hm,signedBytes,if_neg (not_not.2 hb)]
    exact readSigned hb
  · have hm : checkMinimalDataEncoding (signedBytes isNegative rest last) = .ok () := by
      rw [signedBytes,if_pos hb,checkMinimalDataEncoding,reverse_concat,reverse_concat]
      show (if _ then if _ then _ else _ else _) = _
      rw [if_pos (signByte_spec 0 rfl isNegative).1,if_neg hb]
    rw [hm,signedBytes,if_pos hb]
    refine (readSigned rfl).trans ?_
    rw [littleEndian_append _ [0]]
    rfl

end

lemma exists_signedBytes (h : makeScriptNum v len = .ok n) :
    v = [] ∨ ∃ isNegative rest last, last ≠ 0 ∧ v = signedBytes isNegative rest last := by
  obtain ⟨-,h⟩ := of_ite_error h
  obtain ⟨-,h⟩ := of_ite_error h
  obtain ⟨_,hm,-⟩ := bind_eq_ok h
  obtain rfl | ⟨body,top,rfl⟩ := v.eq_nil_or_concat'
  · exact .inl rfl
  obtain ⟨isNegative,ht,hb⟩ := exists_signByte top
  rw [checkMinimalDataEncoding,reverse_concat] at hm
  refine .inr ⟨isNegative,?_⟩
  by_cases hl : top &&& 0x7f = 0
  · rw [hl] at ht
    dsimp only at hm
    rw [if_pos hl] at hm
    obtain rfl | ⟨rest,last,rfl⟩ := body.eq_nil_or_concat'
    · cases hm
    · rw [reverse_concat] at hm
      obtain ⟨hls,-⟩ := of_ite_error hm
      refine ⟨rest,last,?_,?_⟩
      · rintro rfl
        exact hls rfl
      · rw [signedBytes,if_pos hls,← ht]
  · exact ⟨body,_,hl,by rw [signedBytes,if_neg (not_not.2 hb),← ht]⟩

/-- The bytes and the number they are read as determine each other. The smallest `int64` has no
bytes. -/
theorem scriptNumBytes_makeScriptNum :
    (∀ n : Int, -2^63 < n → n < 2^63 → ∃ v, scriptNumBytes n = .ok v ∧
      ∀ len, v.length ≤ len → makeScriptNum v len = .ok n) ∧
    ∀ (v : List UInt8) (len : Nat) (n : Int), makeScriptNum v len = .ok n →
      scriptNumBytes n = .ok v := by
  refine ⟨fun n _ _ => ?_,fun v len n h => ?_⟩
  · by_cases hz : n = 0
    · subst hz
      exact ⟨[],rfl,fun _ _ => rfl⟩
    obtain ⟨rest,last,hls,hl,hv⟩ :=
      exists_magnitude (m := n.natAbs) (by omega) (by omega : n.natAbs < 256^8)
    obtain ⟨isNegative,hs⟩ : ∃ isNegative, signedValue isNegative n.natAbs = n := by
      obtain h | h := Int.natAbs_eq n
      · exact ⟨false,h.symm⟩
      · exact ⟨true,h.symm⟩
    have hsz : (signedBytes isNegative rest last).length ≤ 8 :=
      (length_signedBytes_le hl).2 (by omega)
    rw [← hs,← hv]
    exact ⟨_,scriptNumBytes_signedValue hls hsz,
      fun len hlen => makeScriptNum_signedBytes hls hlen hsz⟩
  · obtain rfl | ⟨isNegative,rest,last,hls,rfl⟩ := exists_signedBytes h
    · cases h
      rfl
    · obtain ⟨hl,h'⟩ := of_ite_error h
      obtain ⟨_,-⟩ := of_ite_error h'
      rw [makeScriptNum_signedBytes hls (by omega) (by omega)] at h
      cases h
      exact scriptNumBytes_signedValue hls (by omega)

theorem scriptNumBytes_makeScriptNum_three : ∃ v, scriptNumBytes 3 = .ok v ∧
    ∀ len, v.length ≤ len → makeScriptNum v len = .ok 3 :=
  scriptNumBytes_makeScriptNum.1 3 (by decide) (by decide)

end Eiyaro.TxScript
