import Mathlib

/-!
# Rounding to binary64

The value of a natural number as a 64-bit floating point number. The significand
has 53 bits, and a tie goes to the even significand. The numbers here stay far
below the overflow threshold, so the exponent is not bounded.
-/

namespace Binary64

def round (n : ℕ) : ℕ :=
  let shift := n.log2+1 - 53
  let quotient := n / 2^shift
  let remainder := n % 2^shift
  if 2^shift < 2*remainder ∨ (2^shift = 2*remainder ∧ quotient % 2 = 1) then
    (quotient+1)*2^shift
  else
    quotient*2^shift

lemma round_le (n : ℕ) : round n ≤ 2*n := by
  by_cases hn : n = 0
  · subst hn
    decide
  · have hs : 2^(n.log2+1 - 53) ≤ n :=
      (Nat.pow_le_pow_right (by decide) (by omega)).trans (Nat.log2_self_le hn)
    have hd : n / 2^(n.log2+1 - 53)*2^(n.log2+1 - 53) ≤ n := Nat.div_mul_le_self _ _
    rw [round]
    split
    · rw [Nat.add_mul]
      omega
    · omega

example : round (2^53+1) = 2^53 := by decide

/-- The product of an integer with the number closest to `1 / 20`, rounded down
to an integer. -/
def mulTwentieth (n : ℕ) : ℕ :=
  round (round n*7205759403792794) / 2^57

lemma mulTwentieth_le (n : ℕ) : mulTwentieth n ≤ n := by
  have h₁ := round_le n
  have h₂ := round_le (round n*7205759403792794)
  rw [mulTwentieth]
  omega

lemma mulTwentieth_lt {n : ℕ} (h : 0 < n) : mulTwentieth n < n := by
  have h₁ := round_le n
  have h₂ := round_le (round n*7205759403792794)
  rw [mulTwentieth]
  omega

end Binary64
