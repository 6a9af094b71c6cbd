import Mathlib

/-!
# Texts and numbers as bytes

Numbers are spelled with their least significant byte first.
-/

namespace Eiyaro
open Nat

abbrev Bytes := List UInt8

/-- The bytes of a text in ASCII. -/
def asciiBytes (text : String) : Bytes :=
  text.toList.map fun c => UInt8.ofNat c.toNat

section
variable (bytes : List UInt8) (width n : Nat)

/-- The number that bytes spell, least significant byte first. -/
def littleEndian : Nat :=
  bytes.foldr (fun byte n => byte.toNat+256*n) 0

lemma littleEndian_lt : littleEndian bytes < 256^bytes.length := by
  induction bytes with
  | nil => simp [littleEndian]
  | cons byte bytes _ =>
    have hb := byte.toNat_lt
    rw [List.length_cons]
    show byte.toNat+256*littleEndian bytes < _
    omega

def putLittleEndian (width : Nat) (n : Nat) : List UInt8 :=
  (List.range width).map fun i => UInt8.ofNat (n / 256^i)

@[simp] lemma length_putLittleEndian : (putLittleEndian width n).length = width := by
  simp [putLittleEndian]

lemma putLittleEndian_succ :
    putLittleEndian (width+1) n = UInt8.ofNat n :: putLittleEndian width (n / 256) := by
  rw [putLittleEndian,List.range_succ_eq_map,List.map_cons,List.map_map]
  refine congrArg₂ _ (by simp) (List.map_congr_left fun i _ => ?_)
  show UInt8.ofNat (n / 256^(i+1)) = UInt8.ofNat (n / 256 / 256^i)
  rw [Nat.pow_succ,Nat.mul_comm,Nat.div_div_eq_div_mul]

/-- Reading back what was put keeps the number up to the width. -/
lemma littleEndian_putLittleEndian : littleEndian (putLittleEndian width n) = n % 256^width := by
  induction width generalizing n with
  | zero => simp [putLittleEndian,littleEndian,mod_one]
  | succ width ih =>
    have hs : littleEndian (putLittleEndian (width+1) n) =
        (UInt8.ofNat n).toNat+256*littleEndian (putLittleEndian width (n / 256)) := by
      rw [putLittleEndian_succ]
      rfl
    rw [hs,ih,pow_succ,mul_comm (256^width),mod_mul,UInt8.toNat_ofNat']

lemma littleEndian_putLittleEndian_of_lt {width n : Nat} (h : n < 256^width) :
    littleEndian (putLittleEndian width n) = n := by
  rw [littleEndian_putLittleEndian,mod_eq_of_lt h]

/-- Putting what was read restores the bytes. -/
lemma putLittleEndian_littleEndian : putLittleEndian bytes.length (littleEndian bytes) = bytes := by
  induction bytes with
  | nil => rfl
  | cons byte bytes ih =>
    have hb := byte.toNat_lt
    show putLittleEndian (bytes.length+1) (byte.toNat+256*littleEndian bytes) = _
    rw [putLittleEndian_succ,add_mul_div_left _ _ (by decide),div_eq_of_lt hb,zero_add,ih]
    simp

/-- Only the lowest bytes are put. -/
lemma putLittleEndian_mod : putLittleEndian width (n % 256^width) = putLittleEndian width n := by
  induction width generalizing n with
  | zero => rfl
  | succ width ih =>
    have hb : UInt8.ofNat (n % 256^(width+1)) = UInt8.ofNat n := by
      rw [← UInt8.toNat_inj,pow_succ,mul_comm]
      exact mod_mul_right_mod n 256 _
    have hr : n % 256^(width+1) / 256 = n / 256 % 256^width := by
      rw [pow_succ,mul_comm,mod_mul_right_div_self]
    rw [putLittleEndian_succ,putLittleEndian_succ,hb,hr,ih]

end

lemma putLittleEndian_injective {width m n : Nat} (hm : m < 256^width) (hn : n < 256^width)
    (h : putLittleEndian width m = putLittleEndian width n) : m = n := by
  have hr := congrArg littleEndian h
  rwa [littleEndian_putLittleEndian_of_lt hm,littleEndian_putLittleEndian_of_lt hn] at hr

end Eiyaro
