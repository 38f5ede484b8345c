/-
# Rounding to a binary floating-point format

Magnitudes are natural numbers, in units small enough that every number of the
formats at hand is a whole number of them. A format is the width of its fraction
field and the weight of its least subnormal; rounding is to the nearest number of
the format, and to the one with the even fraction when two are equally near.
-/

import Mathlib

namespace Escargot.Foundation

/-- The quotient `n / d` rounded to the nearest integer, ties to the even one. -/
def roundHalfEven (n d : Nat) : Nat :=
  if 2 * (n % d) < d ∨ (2 * (n % d) = d ∧ n / d % 2 = 0) then n / d else n / d + 1

section RoundHalfEven

variable {d : Nat}

theorem roundHalfEven_mul (hd : 0 < d) (q : Nat) : roundHalfEven (q * d) d = q := by
  simp [roundHalfEven, Nat.mul_mod_left, Nat.mul_div_cancel _ hd, hd]

theorem roundHalfEven_even_add (hd : 0 < d) (a n : Nat) :
    roundHalfEven (2 * a * d + n) d = 2 * a + roundHalfEven n d := by
  have hmod : (2 * a * d + n) % d = n % d := by rw [Nat.add_comm, Nat.add_mul_mod_self_right]
  have hdiv : (2 * a * d + n) / d = 2 * a + n / d := by
    rw [Nat.add_comm, Nat.add_mul_div_right _ _ hd, Nat.add_comm]
  have heven : (2 * a + n / d) % 2 = n / d % 2 := by omega
  unfold roundHalfEven
  rw [hmod, hdiv, heven]
  split <;> omega

theorem roundHalfEven_scale {c : Nat} (hc : 0 < c) (n d : Nat) :
    roundHalfEven (n * c) (d * c) = roundHalfEven n d := by
  have hdiv : n * c / (d * c) = n / d := Nat.mul_div_mul_right n d hc
  have hmod : n * c % (d * c) = n % d * c := Nat.mul_mod_mul_right c n d
  have hlt : 2 * (n % d * c) < d * c ↔ 2 * (n % d) < d := by
    rw [← Nat.mul_assoc]
    exact Nat.mul_lt_mul_right hc
  have heq : 2 * (n % d * c) = d * c ↔ 2 * (n % d) = d := by
    rw [← Nat.mul_assoc]
    exact Nat.mul_left_inj (Nat.ne_of_gt hc)
  simp only [roundHalfEven, hdiv, hmod, hlt, heq]

theorem roundHalfEven_bounds (n d : Nat) :
    n / d ≤ roundHalfEven n d ∧ roundHalfEven n d ≤ n / d + 1 := by
  unfold roundHalfEven
  split <;> omega

theorem roundHalfEven_le (hd : 0 < d) {n m : Nat} (h : n ≤ m * d) : roundHalfEven n d ≤ m := by
  rcases Nat.lt_or_ge n (m * d) with hlt | hge
  · have hdiv : n / d < m := (Nat.div_lt_iff_lt_mul hd).mpr hlt
    have hbound := (roundHalfEven_bounds n d).2
    omega
  · rw [Nat.le_antisymm h hge, roundHalfEven_mul hd]

theorem le_roundHalfEven (hd : 0 < d) {n m : Nat} (h : m * d ≤ n) : m ≤ roundHalfEven n d :=
  Nat.le_trans ((Nat.le_div_iff_mul_le hd).mpr h) (roundHalfEven_bounds n d).1

/-- Rounding by addition: half a unit less one, and one more when the quotient is odd. -/
theorem roundHalfEven_eq_add_div {h : Nat} (hh : 0 < h) (n : Nat) :
    roundHalfEven n (2 * h) = (n + (h - 1) + n / (2 * h) % 2) / (2 * h) := by
  have hn := Nat.div_add_mod n (2 * h)
  have hr := Nat.mod_lt n (show 0 < 2 * h by omega)
  generalize n / (2 * h) = q at hn ⊢
  generalize hrem : n % (2 * h) = r at hn hr ⊢
  have hdiv : n / (2 * h) = q := by
    rw [← hn, Nat.mul_add_div (by omega), Nat.div_eq_of_lt hr, Nat.add_zero]
  have hsum : n + (h - 1) + q % 2 = 2 * h * q + (r + (h - 1) + q % 2) := by omega
  rw [hsum, Nat.mul_add_div (by omega), roundHalfEven, hrem, hdiv]
  by_cases hround : 2 * r < 2 * h ∨ (2 * r = 2 * h ∧ q % 2 = 0)
  · rw [if_pos hround, Nat.div_eq_of_lt (by omega), Nat.add_zero]
  · rw [if_neg hround, Nat.add_left_cancel_iff]
    exact (Nat.div_eq_of_lt_le (by omega) (by omega)).symm

end RoundHalfEven

/-- A binary format: `2 ^ leastUnit` is the weight of its least subnormal, and
`infinity` the exponent and fraction fields of an infinity. -/
structure FloatFormat where
  fractionBits : Nat
  leastUnit : Nat
  infinity : Nat

namespace FloatFormat

/-- The magnitude that exponent and fraction fields stand for. -/
def decode (format : FloatFormat) (fields : Nat) : Nat :=
  if fields / 2 ^ format.fractionBits = 0 then fields * 2 ^ format.leastUnit
  else (2 ^ format.fractionBits + fields % 2 ^ format.fractionBits) *
    2 ^ (fields / 2 ^ format.fractionBits - 1 + format.leastUnit)

/-- The exponent of the unit in the last place of a magnitude. -/
def unitOf (format : FloatFormat) (n : Nat) : Nat :=
  max format.leastUnit (n.log2 - format.fractionBits)

/-- The fields of the number nearest to a magnitude; too large a one is infinite. -/
def round (format : FloatFormat) (n : Nat) : Nat :=
  min (roundHalfEven n (2 ^ format.unitOf n) +
    (format.unitOf n - format.leastUnit) * 2 ^ format.fractionBits) format.infinity

variable {format : FloatFormat} {n : Nat}

theorem round_eq {u : Nat} (hu : format.unitOf n = u) :
    format.round n = min (roundHalfEven n (2 ^ u) +
      (u - format.leastUnit) * 2 ^ format.fractionBits) format.infinity := by
  rw [round, hu]

theorem unitOf_eq {u : Nat} (hu : format.leastUnit ≤ u) (hlow : 2 ^ (u + format.fractionBits) ≤ n)
    (hhigh : n < 2 ^ (u + format.fractionBits + 1)) :
    format.unitOf n = u := by
  have hlog : n.log2 = u + format.fractionBits := by
    rw [Nat.log2_eq_iff (by have := Nat.two_pow_pos (u + format.fractionBits); omega)]
    exact ⟨hlow, hhigh⟩
  rw [unitOf, hlog]
  omega

/-- The subnormals, and the first binade above them, have the least unit. -/
theorem unitOf_of_lt (h : n < 2 ^ (format.leastUnit + format.fractionBits + 1)) :
    format.unitOf n = format.leastUnit := by
  rcases Nat.eq_zero_or_pos n with rfl | hpos
  · simp [unitOf]
  · have hlog : n.log2 < format.leastUnit + format.fractionBits + 1 :=
      (Nat.log2_lt (by omega)).mpr h
    rw [unitOf]
    omega

theorem round_of_lt (h : n < 2 ^ (format.leastUnit + format.fractionBits + 1)) :
    format.round n = min (roundHalfEven n (2 ^ format.leastUnit)) format.infinity := by
  rw [round_eq (unitOf_of_lt h), Nat.sub_self, Nat.zero_mul, Nat.add_zero]

/-- Adding a large power of two aligns a small magnitude, rounded, at the lowest bits. -/
theorem round_add_magic {u : Nat} (hu : format.leastUnit ≤ u) (hp : 0 < format.fractionBits)
    (hn : n < 2 ^ (u + format.fractionBits)) :
    format.round (2 ^ (u + format.fractionBits) + n) =
      min (2 ^ format.fractionBits + roundHalfEven n (2 ^ u) +
        (u - format.leastUnit) * 2 ^ format.fractionBits) format.infinity := by
  have hunit : format.unitOf (2 ^ (u + format.fractionBits) + n) = u := by
    apply unitOf_eq hu (Nat.le_add_right _ _)
    omega
  have heven : 2 ^ format.fractionBits = 2 * 2 ^ (format.fractionBits - 1) := by
    rw [← Nat.pow_succ', Nat.succ_eq_add_one, Nat.sub_add_cancel hp]
  have halign : 2 ^ (u + format.fractionBits) + n =
      2 * 2 ^ (format.fractionBits - 1) * 2 ^ u + n := by
    rw [← heven, ← Nat.pow_add, Nat.add_comm u]
  rw [round_eq hunit]
  nth_rewrite 1 [halign]
  rw [roundHalfEven_even_add (Nat.two_pow_pos u), ← heven]

/-- Fields above those of a number decode to at least its magnitude. -/
theorem decode_mono {a b : Nat} (h : a ≤ b) : format.decode a ≤ format.decode b := by
  have hpos : 0 < 2 ^ format.fractionBits := Nat.two_pow_pos _
  have hexp : a / 2 ^ format.fractionBits ≤ b / 2 ^ format.fractionBits := Nat.div_le_div_right h
  have ha := Nat.div_add_mod a (2 ^ format.fractionBits)
  have hb := Nat.div_add_mod b (2 ^ format.fractionBits)
  have hra := Nat.mod_lt a hpos
  unfold decode
  generalize 2 ^ format.fractionBits = scale at *
  generalize a / scale = ea at *
  generalize b / scale = eb at *
  generalize a % scale = fa at *
  generalize b % scale = fb at *
  by_cases hzero : ea = 0
  · by_cases hzero' : eb = 0
    · rw [if_pos hzero, if_pos hzero']
      exact Nat.mul_le_mul_right _ h
    · rw [if_pos hzero, if_neg hzero']
      rw [hzero, Nat.mul_zero, Nat.zero_add] at ha
      exact Nat.mul_le_mul (by omega) (Nat.pow_le_pow_right (by omega) (by omega))
  · rw [if_neg hzero, if_neg (by omega)]
    rcases Nat.lt_or_ge ea eb with hlt | hge
    · -- One binade is worth at most the next one's least number.
      calc
        (scale + fa) * 2 ^ (ea - 1 + format.leastUnit)
            ≤ scale * 2 * 2 ^ (ea - 1 + format.leastUnit) := Nat.mul_le_mul_right _ (by omega)
        _ = scale * 2 ^ (ea - 1 + format.leastUnit + 1) := by rw [Nat.mul_assoc, Nat.pow_succ']
        _ ≤ (scale + fb) * 2 ^ (eb - 1 + format.leastUnit) :=
          Nat.mul_le_mul (by omega) (Nat.pow_le_pow_right (by omega) (by omega))
    · have heq : ea = eb := by omega
      subst heq
      exact Nat.mul_le_mul_right _ (by omega)

end FloatFormat

end Escargot.Foundation
