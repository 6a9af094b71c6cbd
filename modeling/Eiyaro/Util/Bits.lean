import Eiyaro.Util.Delimited

/-!
# Numbers as bits, most significant bit first
-/

namespace Eiyaro
open List Nat

/-- The lowest `k` bits of a number. -/
def bitsOf (k n : Nat) : List Bool :=
  (List.range k).map fun i => n.testBit (k - 1 - i)

@[simp] lemma length_bitsOf (k n : Nat) : (bitsOf k n).length = k := by
  simp [bitsOf]

lemma getElem_bitsOf {k n i : Nat} (h : i < (bitsOf k n).length) :
    (bitsOf k n)[i] = n.testBit (k - 1 - i) := by
  simp [bitsOf]

lemma testBit_eq_of_bitsOf_eq {k m n i : Nat} (h : bitsOf k m = bitsOf k n) (hi : i < k) :
    m.testBit i = n.testBit i := by
  have hg : (bitsOf k m)[k - 1 - i]? = (bitsOf k n)[k - 1 - i]? := by rw [h]
  rw [getElem?_eq_getElem (by simp; omega),getElem?_eq_getElem (by simp; omega),
    getElem_bitsOf,getElem_bitsOf,show k - 1 - (k - 1 - i) = i by omega] at hg
  exact Option.some.inj hg

lemma bitsOf_injective {k m n : Nat} (hm : m < 2^k) (hn : n < 2^k)
    (h : bitsOf k m = bitsOf k n) : m = n := by
  refine eq_of_testBit_eq fun i => ?_
  by_cases hi : i < k
  · exact testBit_eq_of_bitsOf_eq h hi
  · have hle : 2^k ≤ 2^i := Nat.pow_le_pow_right (by decide) (by omega)
    rw [testBit_lt_two_pow (lt_of_lt_of_le hm hle),testBit_lt_two_pow (lt_of_lt_of_le hn hle)]

/-- Shifting in more bits appends them. -/
lemma bitsOf_shiftLeft_or (f k x y : Nat) (hy : y < 2^k) :
    bitsOf (f+k) (x <<< k ||| y) = bitsOf f x ++ bitsOf k y := by
  refine ext_getElem (by simp) fun i hi _ => ?_
  rw [length_bitsOf] at hi
  rw [getElem_bitsOf,testBit_or,testBit_shiftLeft]
  by_cases hlt : i < f
  · have hh : y.testBit (f+k - 1 - i) = false :=
      Nat.testBit_lt_two_pow (Nat.lt_of_lt_of_le hy (Nat.pow_le_pow_right (by decide) (by omega)))
    rw [getElem_append_left (by simpa using hlt),getElem_bitsOf,hh,Bool.or_false,
      decide_eq_true (by omega),Bool.true_and,show f+k - 1 - i - k = f - 1 - i by omega]
  · rw [getElem_append_right (by simp; omega),getElem_bitsOf,decide_eq_false (by omega),
      Bool.false_and,Bool.false_or,length_bitsOf,show f+k - 1 - i = k - 1 - (i - f) by omega]

/-- The upper bits of a word, and after a shift those that follow them. -/
lemma bitsOf_shiftRight_split (w : Nat) {k r : Nat} (b : Nat) (hk : k ≤ r) (hr : r ≤ w) :
    bitsOf r (b >>> (w - r)) =
      bitsOf k (b >>> (w - k)) ++ bitsOf (r - k) ((b <<< k % 2^w) >>> (w - (r - k))) := by
  refine ext_getElem (by simp; omega) fun i hi _ => ?_
  rw [length_bitsOf] at hi
  rw [getElem_bitsOf,testBit_shiftRight]
  by_cases hlt : i < k
  · rw [getElem_append_left (by simpa using hlt),getElem_bitsOf,testBit_shiftRight,
      show w - r+(r - 1 - i) = w - k+(k - 1 - i) by omega]
  · rw [getElem_append_right (by simp; omega),getElem_bitsOf,testBit_shiftRight,testBit_mod_two_pow,
      testBit_shiftLeft,length_bitsOf,decide_eq_true (by omega),decide_eq_true (by omega)]
    exact congrArg b.testBit (by omega)

/-- The lowest bits, shifted to the top of a word. -/
lemma bitsOf_shiftLeft_shiftRight (w : Nat) {k : Nat} (b : Nat) (hk : k ≤ w) :
    bitsOf k ((b <<< (w - k) % 2^w) >>> (w - k)) = bitsOf k b := by
  refine ext_getElem (by simp) fun _ hi _ => ?_
  rw [length_bitsOf] at hi
  rw [getElem_bitsOf,getElem_bitsOf,testBit_shiftRight,testBit_mod_two_pow,testBit_shiftLeft,
    decide_eq_true (by omega),decide_eq_true (by omega)]
  exact congrArg b.testBit (by omega)

lemma delimited_bitsOf (k : Nat) : Delimited (fun n => n < 2^k) (bitsOf k) id :=
  .of_length k (fun n _ => length_bitsOf k n) fun _ _ hm hn h => bitsOf_injective hm hn h

lemma length_flatMap_bitsOf (k : Nat) (ns : List Nat) :
    (ns.flatMap (bitsOf k)).length = k*ns.length := by
  induction ns with
  | nil => rfl
  | cons _ ns ih =>
    rw [flatMap_cons,length_append,length_bitsOf,ih,length_cons]
    rw [mul_succ,add_comm]

end Eiyaro
