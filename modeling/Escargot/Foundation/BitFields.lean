/-
# Bit fields of natural numbers

A mask of consecutive ones selects a field, which is a quotient followed by a
remainder; setting bits above a number is an addition. With these, tests on
masks become linear arithmetic.
-/

import Mathlib

namespace Escargot.Foundation

theorem and_fieldMask (n k s : Nat) :
    n &&& (2 ^ k - 1) * 2 ^ s = n / 2 ^ s % 2 ^ k * 2 ^ s := by
  apply Nat.eq_of_testBit_eq
  intro i
  simp only [Nat.testBit_and, Nat.testBit_mul_two_pow, Nat.testBit_two_pow_sub_one,
    Nat.testBit_mod_two_pow, Nat.testBit_div_two_pow]
  by_cases h : s ≤ i
  · have hi : i - s + s = i := by omega
    simp [h, hi, Bool.and_comm]
  · simp [h]

theorem and_or_fieldMask (n k s l t : Nat) :
    n &&& ((2 ^ k - 1) * 2 ^ s ||| (2 ^ l - 1) * 2 ^ t) =
      n / 2 ^ s % 2 ^ k * 2 ^ s ||| n / 2 ^ t % 2 ^ l * 2 ^ t := by
  rw [Nat.and_or_distrib_left, and_fieldMask, and_fieldMask]

theorem or_eq_add {n s : Nat} (m : Nat) (h : n < 2 ^ s) : m * 2 ^ s ||| n = m * 2 ^ s + n := by
  rw [Nat.mul_comm, ← Nat.two_pow_add_eq_or_of_lt h]

end Escargot.Foundation
