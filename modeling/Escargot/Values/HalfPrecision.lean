/-
# Half-precision numbers

The exact value of half-precision bits, and what the two conversions do with it: a double is
converted to the bits of the nearest number, and these bits are converted back to a double of
exactly their value. The conversion to a `float` in between scales by a power of two, or takes the
difference of two numbers of one binade, without an error.
-/

import Escargot.Runtime.NumberConversion
import Escargot.Values.NearestRounding

namespace Escargot.Runtime.Double

open Foundation

/-- The exact value of half-precision bits, by their exponent and fraction fields. Those of an
infinity are read as the number that would follow the largest one. -/
def halfValue (h : Nat) : ℚ :=
  let exponent : Nat := h / 2 ^ 10 % 2 ^ 5
  let fraction : ℚ := (h % 2 ^ 10 : Nat)
  (if 2 ^ 15 ≤ h then -1 else 1) *
    (if exponent = 0 then fraction * 2 ^ (-24 : ℤ)
      else (2 ^ 10 + fraction) * 2 ^ ((exponent : ℤ) - 25))

/-- The bits are those of the number that is nearest to a double, with its sign, and are even where
another number is as near. -/
structure NearestHalf (d : Double) (h : Nat) : Prop where
  lt : h < 2 ^ 16
  number : h % 2 ^ 15 ≤ 0x7c00
  sign : 2 ^ 15 ≤ h ↔ d.signbit = true
  nearest : ∀ other < 2 ^ 16, other % 2 ^ 15 ≤ 0x7c00 →
    |halfValue h - d.value| ≤ |halfValue other - d.value|
  even : ∀ other < 2 ^ 16, other % 2 ^ 15 ≤ 0x7c00 →
    |halfValue h - d.value| = |halfValue other - d.value| → halfValue other ≠ halfValue h →
      h % 2 = 0

theorem halfValue_eq (h : Nat) : halfValue h = (if 2 ^ 15 ≤ h then -1 else 1) *
      ((binary16.decode (h % 2 ^ 15) : ℚ) / (one : ℕ)) := by
  have hexponent : h % 2 ^ 15 / 2 ^ 10 = h / 2 ^ 10 % 2 ^ 5 := by omega
  have hfraction : h % 2 ^ 15 % 2 ^ 10 = h % 2 ^ 10 := by omega
  have hone : ((one : ℕ) : ℚ) = 2 ^ (1074 : ℤ) := by
    rw [one, Nat.cast_pow, Nat.cast_ofNat, ← zpow_natCast]
    rfl
  rw [halfValue, FloatFormat.decode, hone]
  simp only [binary16, hexponent, hfraction]
  congr 1
  split_ifs with hzero
  · have hsmall : h % 2 ^ 15 = h % 2 ^ 10 := by omega
    rw [hsmall, Nat.cast_mul, Nat.cast_pow, Nat.cast_ofNat, mul_div_assoc, ← zpow_natCast,
      ← zpow_sub₀ two_ne_zero]
    rfl
  · have hunit : ((h / 2 ^ 10 % 2 ^ 5 : Nat) : ℤ) - 25 =
        ((h / 2 ^ 10 % 2 ^ 5 - 1 + 1050 : Nat) : ℤ) - 1074 := by omega
    rw [hunit, zpow_sub₀ two_ne_zero, zpow_natCast, Nat.cast_mul, Nat.cast_pow, Nat.cast_add,
      Nat.cast_pow, Nat.cast_ofNat, mul_div_assoc]

/-- Numbers of one sign are as far apart as their magnitudes; others have zero between them. -/
theorem abs_signed_sub (negative negative' : Prop) [Decidable negative] [Decidable negative']
    {x y : ℚ} (hx : 0 ≤ x) (hy : 0 ≤ y) :
    |(if negative' then -1 else 1) * x - (if negative then -1 else 1) * y| =
      if negative' ↔ negative then |x - y| else x + y := by
  by_cases hnegative : negative
  · by_cases hnegative' : negative'
    · rw [if_pos hnegative, if_pos hnegative', if_pos (iff_of_true hnegative' hnegative),
        ← mul_sub, abs_mul, abs_neg, abs_one, one_mul]
    · rw [if_pos hnegative, if_neg hnegative', if_neg fun h => hnegative' (h.mpr hnegative),
        one_mul, neg_one_mul, sub_neg_eq_add, abs_of_nonneg (add_nonneg hx hy)]
  · by_cases hnegative' : negative'
    · rw [if_neg hnegative, if_pos hnegative', if_neg fun h => hnegative (h.mp hnegative'),
        one_mul, neg_one_mul, ← neg_add', abs_neg, abs_of_nonneg (add_nonneg hx hy)]
    · rw [if_neg hnegative, if_neg hnegative', if_pos (iff_of_false hnegative' hnegative),
        one_mul, one_mul]

theorem one_pos_rat : (0 : ℚ) < (one : ℕ) := Nat.cast_pos.mpr one_pos

theorem abs_units_sub (a n : Nat) :
    |(a : ℚ) / (one : ℕ) - (n : ℚ) / (one : ℕ)| = ((|(a : ℤ) - n| : ℤ) : ℚ) / (one : ℕ) := by
  rw [← sub_div, abs_div, abs_of_pos one_pos_rat]
  push_cast
  rfl

variable {fields : Nat}

theorem withSign_half (negative : Bool) (hfields : fields < 2 ^ 15) :
    withSign negative 16 fields < 2 ^ 16 ∧ withSign negative 16 fields % 2 ^ 15 = fields ∧
      (2 ^ 15 ≤ withSign negative 16 fields ↔ negative = true) ∧
      withSign negative 16 fields % 2 = fields % 2 := by
  rw [withSign]
  cases negative with
  | true =>
    rw [if_pos rfl]
    exact ⟨by omega, by omega, iff_of_true (by omega) rfl, by omega⟩
  | false =>
    rw [if_neg Bool.false_ne_true]
    exact ⟨by omega, by omega, iff_of_false (by omega) Bool.false_ne_true, by omega⟩

theorem nearestHalf_withSign (d : Double) :
    NearestHalf d (withSign d.signbit 16 (binary16.round d.scaled)) := by
  have hround : binary16.round d.scaled ≤ 0x7c00 := Nat.min_le_right _ _
  have hnearest : ∀ other ≤ 0x7c00, binary16.Nearest d.scaled (binary16.round d.scaled) other :=
    fun other hother => FloatFormat.round_nearest (show 0 < 10 by decide) d.scaled hother
  generalize binary16.round d.scaled = fields at hround hnearest ⊢
  obtain ⟨hlt, hfields, hsign, hparity⟩ := withSign_half d.signbit (show fields < 2 ^ 15 by omega)
  have hnonneg : ∀ n : Nat, (0 : ℚ) ≤ (n : ℚ) / (one : ℕ) :=
    fun n => div_nonneg (Nat.cast_nonneg n) one_pos_rat.le
  have hvalue : halfValue (withSign d.signbit 16 fields) =
      (if d.signbit = true then -1 else 1) * ((binary16.decode fields : ℚ) / (one : ℕ)) := by
    rw [halfValue_eq, hfields]
    simp only [hsign]
  have hdistance : |halfValue (withSign d.signbit 16 fields) - d.value| =
      |(binary16.decode fields : ℚ) / (one : ℕ) - (d.scaled : ℚ) / (one : ℕ)| := by
    rw [hvalue, value_eq, abs_signed_sub _ _ (hnonneg _) (hnonneg _), if_pos Iff.rfl]
  have hother : ∀ other, |halfValue other - d.value| = if (2 ^ 15 ≤ other ↔ d.signbit = true) then
        |(binary16.decode (other % 2 ^ 15) : ℚ) / (one : ℕ) - (d.scaled : ℚ) / (one : ℕ)|
      else (binary16.decode (other % 2 ^ 15) : ℚ) / (one : ℕ) + (d.scaled : ℚ) / (one : ℕ) := by
    intro other
    rw [halfValue_eq, value_eq, abs_signed_sub _ _ (hnonneg _) (hnonneg _)]
  have hle : ∀ other ≤ 0x7c00,
      |(binary16.decode fields : ℚ) / (one : ℕ) - (d.scaled : ℚ) / (one : ℕ)| ≤
        |(binary16.decode other : ℚ) / (one : ℕ) - (d.scaled : ℚ) / (one : ℕ)| := by
    intro other hother
    rw [abs_units_sub, abs_units_sub, div_le_div_iff_of_pos_right one_pos_rat]
    exact_mod_cast (hnearest other hother).le
  have htriangle : ∀ other : Nat,
      |(binary16.decode other : ℚ) / (one : ℕ) - (d.scaled : ℚ) / (one : ℕ)| ≤
        (binary16.decode other : ℚ) / (one : ℕ) + (d.scaled : ℚ) / (one : ℕ) := by
    intro other
    have hx := hnonneg (binary16.decode other)
    have hy := hnonneg d.scaled
    rw [abs_le]
    constructor
    · linarith
    · linarith
  refine ⟨hlt, hfields.trans_le hround, hsign, fun other _ hnumber => ?_,
    fun other _ hnumber htie hne => ?_⟩
  · rw [hdistance, hother other]
    split_ifs with hsame
    · exact hle _ hnumber
    · exact (hle _ hnumber).trans (htriangle _)
  · rw [hdistance, hother other] at htie
    have htie' : |(binary16.decode fields : ℚ) / (one : ℕ) - (d.scaled : ℚ) / (one : ℕ)| =
        |(binary16.decode (other % 2 ^ 15) : ℚ) / (one : ℕ) - (d.scaled : ℚ) / (one : ℕ)| := by
      split_ifs at htie with hsame
      · exact htie
      · exact le_antisymm (hle _ hnumber) (htie ▸ htriangle _)
    rw [hparity]
    refine (hnearest _ hnumber).even ?_ fun heq => hne ?_
    · rw [abs_units_sub, abs_units_sub, div_left_inj' one_pos_rat.ne'] at htie'
      exact_mod_cast htie'
    · -- The same magnitude on the other side of zero is as far away only when it is zero.
      rw [hvalue, halfValue_eq, heq]
      split_ifs at htie with hsame
      · simp only [hsame]
      · have hzero := hle 0 (Nat.zero_le _)
        have hdecode : binary16.decode 0 = 0 := Nat.zero_mul _
        rw [htie, heq, hdecode, Nat.cast_zero, zero_div, zero_sub, abs_neg,
          abs_of_nonneg (hnonneg _), add_le_iff_nonpos_left] at hzero
        rw [le_antisymm hzero (hnonneg _), mul_zero, mul_zero]

variable {h : Nat}

theorem sign_field (hh : h < 2 ^ 16) : h * 2 ^ 16 &&& 0x80000000 = h / 2 ^ 15 * 2 ^ 31 := by
  have hfield : h * 2 ^ 16 / 2 ^ 31 % 2 = h / 2 ^ 15 := by omega
  rw [show 0x80000000 = 2 ^ 31 by rfl, Nat.and_two_pow, Nat.testBit_eq_decide_div_mod_eq, hfield]
  rcases Nat.lt_or_ge h (2 ^ 15) with hpos | hneg
  · rw [Nat.div_eq_of_lt hpos]
    rfl
  · rw [show h / 2 ^ 15 = 1 by omega]
    rfl

theorem or_fields {i : Nat} (hfields : fields < 2 ^ i) (upper : Nat) :
    upper * 2 ^ i ||| fields = upper * 2 ^ i + fields := by
  rw [Nat.mul_comm, Nat.two_pow_add_eq_or_of_lt hfields]

/-- The fields of a `float` for those of a half-precision number. -/
def floatFields (m : Nat) : Nat :=
  if m < 2 ^ 10 then
    binary32.round (binary32.decode (m ||| 126 * 2 ^ 23) - binary32.decode 0x3f000000)
  else scaleFloat32 (m * 2 ^ 13 + 0xe0 * 2 ^ 23)

theorem convertFloat16ToFloat32_eq (hh : h < 2 ^ 16) :
    convertFloat16ToFloat32 h = h / 2 ^ 15 * 2 ^ 31 ||| floatFields (h % 2 ^ 15) := by
  have hdouble : (h * 2 ^ 16 + h * 2 ^ 16) % 2 ^ 32 = h % 2 ^ 15 * 2 ^ 17 := by omega
  have hlow : h % 2 ^ 15 * 2 ^ 17 / 2 ^ 17 = h % 2 ^ 15 := by omega
  have hhigh : h % 2 ^ 15 * 2 ^ 17 / 2 ^ 4 = h % 2 ^ 15 * 2 ^ 13 := by omega
  have hcutoff : h % 2 ^ 15 * 2 ^ 17 < 2 ^ 27 ↔ h % 2 ^ 15 < 2 ^ 10 := by omega
  rw [convertFloat16ToFloat32, floatFields]
  simp only [hdouble, hlow, hhigh, hcutoff, sign_field hh]

variable {m : Nat}

theorem decode_subnormal16 (hm : m < 2 ^ 10) : binary16.decode m = m * 2 ^ binary16.leastUnit := by
  have hdecode := @FloatFormat.decode_add binary16 m 0 (show m ≤ 2 ^ 11 by omega) (Or.inr rfl)
  rwa [Nat.zero_mul, Nat.add_zero, Nat.zero_add] at hdecode

theorem decode_normal16 (hm : 2 ^ 10 ≤ m) :
    binary16.decode m = (2 ^ 10 + m % 2 ^ 10) * 2 ^ (m / 2 ^ 10 - 1 + binary16.leastUnit) := by
  have hdecode := @FloatFormat.decode_add binary16 (2 ^ 10 + m % 2 ^ 10) (m / 2 ^ 10 - 1)
    (show 2 ^ 10 + m % 2 ^ 10 ≤ 2 ^ 11 by omega) (Or.inl (Nat.le_add_right _ _))
  have hfields : 2 ^ 10 + m % 2 ^ 10 + (m / 2 ^ 10 - 1) * 2 ^ 10 = m := by omega
  rwa [show binary16.fractionBits = 10 by rfl, hfields] at hdecode

/-- A half-precision number has eleven bits, in a range of thirty places. -/
theorem decode_binary16 (hm : m < 0x7c00) :
    ∃ c t, c < 2 ^ 11 ∧ binary16.leastUnit ≤ t ∧ t < binary16.leastUnit + 30 ∧
      binary16.decode m = c * 2 ^ t := by
  rcases Nat.lt_or_ge m (2 ^ 10) with hsub | hnormal
  · exact ⟨m, binary16.leastUnit, by omega, le_rfl, by omega, decode_subnormal16 hsub⟩
  · exact ⟨2 ^ 10 + m % 2 ^ 10, m / 2 ^ 10 - 1 + binary16.leastUnit, by omega, by omega, by omega,
      decode_normal16 hnormal⟩

/-- The format has more bits, and the range of the half-precision numbers. -/
structure ContainsHalf (format : FloatFormat) : Prop where
  bits : 10 ≤ format.fractionBits
  unit : format.leastUnit ≤ binary16.leastUnit
  range : ∀ t < binary16.leastUnit + 30, 2 ^ (11 + t) ≤ format.decode format.infinity

theorem decode_round_binary16 {format : FloatFormat} (hformat : ContainsHalf format)
    (hm : m < 0x7c00) :
    format.decode (format.round (binary16.decode m)) = binary16.decode m ∧
      format.round (binary16.decode m) < format.infinity := by
  obtain ⟨c, t, hc, ht, ht', hdecode⟩ := decode_binary16 hm
  rw [hdecode]
  apply FloatFormat.decode_round_mul
  · exact hc.trans_le (Nat.pow_le_pow_right Nat.two_pos (Nat.succ_le_succ hformat.bits))
  · exact hformat.unit.trans ht
  · calc
      c * 2 ^ t < 2 ^ 11 * 2 ^ t := Nat.mul_lt_mul_of_pos_right hc (Nat.two_pow_pos t)
      _ = 2 ^ (11 + t) := (Nat.pow_add 2 11 t).symm
      _ ≤ _ := hformat.range t ht'

theorem decode_binary32_add {q k : Nat} (hq : q ≤ 2 ^ 24) (hlow : 2 ^ 23 ≤ q) :
    binary32.decode (q + k * 2 ^ 23) = q * 2 ^ (k + binary32.leastUnit) :=
  @FloatFormat.decode_add binary32 q k hq (Or.inl hlow)

theorem containsHalf_binary32 : ContainsHalf binary32 where
  bits := by decide
  unit := by decide
  range t ht := by
    have hinfinity : binary32.infinity = 2 ^ 23 + 254 * 2 ^ 23 := rfl
    have hunits : binary16.leastUnit = binary32.leastUnit + 125 := rfl
    rw [hinfinity, decode_binary32_add (by decide) le_rfl, ← Nat.pow_add]
    exact Nat.pow_le_pow_right Nat.two_pos (by omega)

theorem containsHalf_binary64 : ContainsHalf binary64 where
  bits := by decide
  unit := by decide
  range t ht := by
    have hinfinity : binary64.infinity = 2 ^ 52 + 2046 * 2 ^ binary64.fractionBits := rfl
    have hunits : binary16.leastUnit = binary64.leastUnit + 1050 := rfl
    have hdecode := @FloatFormat.decode_add binary64 (2 ^ 52) 2046
      (show 2 ^ 52 ≤ 2 ^ 53 by decide) (Or.inl le_rfl)
    rw [hinfinity, hdecode, ← Nat.pow_add]
    exact Nat.pow_le_pow_right Nat.two_pos (by omega)

theorem floatFields_number (hm : m < 0x7c00) :
    floatFields m = binary32.round (binary16.decode m) := by
  rw [floatFields]
  split_ifs with hsub
  · -- In the binade of one half a unit is the least subnormal.
    have hor : m ||| 126 * 2 ^ 23 = 2 ^ 23 + m + 125 * 2 ^ 23 := by
      rw [Nat.or_comm, or_fields (by omega)]
      omega
    have hhalf : 0x3f000000 = 2 ^ 23 + 125 * 2 ^ 23 := rfl
    have hunits : 125 + binary32.leastUnit = binary16.leastUnit := rfl
    rw [hor, hhalf, decode_binary32_add (by omega) (by omega),
      decode_binary32_add (by decide) le_rfl, hunits, decode_subnormal16 hsub, Nat.add_mul,
      Nat.add_sub_cancel_left]
  · -- The exponent has been moved too far, and the product moves it back.
    have hfields : m * 2 ^ 13 + 0xe0 * 2 ^ 23 =
        (2 ^ 10 + m % 2 ^ 10) * 2 ^ 13 + (m / 2 ^ 10 - 1 + 224) * 2 ^ 23 := by omega
    have hunits : binary16.leastUnit = binary32.leastUnit + 125 := rfl
    have hshift : (2 ^ 10 + m % 2 ^ 10) * 2 ^ 13 *
        2 ^ (m / 2 ^ 10 - 1 + 224 + binary32.leastUnit) =
        (2 ^ 10 + m % 2 ^ 10) * 2 ^ (m / 2 ^ 10 - 1 + binary16.leastUnit) * 2 ^ 112 := by
      have hexponent : 13 + (m / 2 ^ 10 - 1 + 224 + binary32.leastUnit) =
          m / 2 ^ 10 - 1 + binary16.leastUnit + 112 := by omega
      rw [Nat.mul_assoc, Nat.mul_assoc, ← Nat.pow_add, ← Nat.pow_add, hexponent]
    have hproduct := (@decode_binary32_add ((2 ^ 10 + m % 2 ^ 10) * 2 ^ 13)
      (m / 2 ^ 10 - 1 + 224) (by omega) (by omega)).trans hshift
    rw [scaleFloat32, if_pos (by omega), hfields, hproduct, Nat.mul_div_cancel _
      (Nat.two_pow_pos 112), decode_normal16 (by omega)]

theorem ofNat_withSign (negative : Bool) (hfields : fields < 2 ^ 63) :
    signbit (.ofNat (withSign negative 64 fields)) = negative ∧
      (magnitude (.ofNat (withSign negative 64 fields))).toNat = fields := by
  have hsign := signbit_iff (.ofNat (withSign negative 64 fields))
  rw [toNat_magnitude]
  rw [UInt64.toNat_ofNat', withSign] at hsign ⊢
  cases negative with
  | true =>
    rw [if_pos rfl] at hsign ⊢
    exact ⟨hsign.mpr (by omega), by omega⟩
  | false =>
    rw [if_neg Bool.false_ne_true] at hsign ⊢
    exact ⟨Bool.eq_false_iff.mpr fun h => absurd (hsign.mp h) (by omega), by omega⟩

theorem ofFloat32_fields {sign : Nat} (hsign : sign < 2) (hfields : fields < 2 ^ 31) :
    ofFloat32 (sign * 2 ^ 31 ||| fields) = .ofNat (withSign (decide (sign = 1)) 64
        (if fields < 0x7f800000 then binary64.round (binary32.decode fields)
          else if fields = 0x7f800000 then 0x7ff0000000000000
          else 0x7ff8000000000000 ||| (0x7ff0000000000000 + fields % 2 ^ 23 * 2 ^ 29))) := by
  have hnegative : 2 ^ 31 ≤ sign * 2 ^ 31 + fields ↔ sign = 1 := by omega
  have hrest : (sign * 2 ^ 31 + fields) % 2 ^ 31 = fields := by omega
  rw [or_fields hfields, ofFloat32]
  simp only [hnegative, hrest]

theorem ofFloat16_number (hh : h < 2 ^ 16) (hnumber : h % 2 ^ 15 < 0x7c00) :
    signbit (ofFloat16 h) = decide (h / 2 ^ 15 = 1) ∧
      (ofFloat16 h).magnitude.toNat < 0x7ff0000000000000 ∧
      scaled (ofFloat16 h) = binary16.decode (h % 2 ^ 15) := by
  obtain ⟨hfloat, hfloatLt⟩ := decode_round_binary16 containsHalf_binary32 hnumber
  obtain ⟨hdouble, hdoubleLt⟩ := decode_round_binary16 containsHalf_binary64 hnumber
  rw [show binary32.infinity = 0x7f800000 by rfl] at hfloatLt
  rw [show binary64.infinity = 0x7ff0000000000000 by rfl] at hdoubleLt
  obtain ⟨hsign, hmagnitude⟩ := ofNat_withSign (decide (h / 2 ^ 15 = 1))
    (show binary64.round (binary16.decode (h % 2 ^ 15)) < 2 ^ 63 by omega)
  rw [ofFloat16, convertFloat16ToFloat32_eq hh, floatFields_number hnumber,
    ofFloat32_fields (by omega) (by omega), if_pos hfloatLt, hfloat]
  refine ⟨hsign, hmagnitude.trans_lt hdoubleLt, ?_⟩
  rw [scaled, hmagnitude, hdouble]

theorem ofFloat16_infinity (hh : h < 2 ^ 16) (hinfinity : h % 2 ^ 15 = 0x7c00) :
    signbit (ofFloat16 h) = decide (h / 2 ^ 15 = 1) ∧
      (ofFloat16 h).magnitude.toNat = 0x7ff0000000000000 := by
  have hfields : floatFields 0x7c00 = 0x7f800000 := by decide
  rw [ofFloat16, convertFloat16ToFloat32_eq hh, hinfinity, hfields,
    ofFloat32_fields (by omega) (by omega), if_neg (by omega), if_pos rfl]
  exact ofNat_withSign _ (by omega)

theorem ofFloat16_nan (hh : h < 2 ^ 16) (hnan : 0x7c00 < h % 2 ^ 15) :
    signbit (ofFloat16 h) = decide (h / 2 ^ 15 = 1) ∧
      0x7ff0000000000000 < (ofFloat16 h).magnitude.toNat := by
  have hfields : floatFields (h % 2 ^ 15) = (h % 2 ^ 15 * 2 ^ 13 + 0xe0 * 2 ^ 23) ||| 0x400000 := by
    rw [floatFields, if_neg (by omega), scaleFloat32, if_neg (by omega), if_neg (by omega)]
  have hge : h % 2 ^ 15 * 2 ^ 13 + 0xe0 * 2 ^ 23 ≤ floatFields (h % 2 ^ 15) :=
    hfields ▸ Nat.left_le_or
  have hlt : floatFields (h % 2 ^ 15) < 2 ^ 31 := hfields ▸ Nat.or_lt_two_pow (by omega) (by omega)
  rw [ofFloat16, convertFloat16ToFloat32_eq hh]
  generalize floatFields (h % 2 ^ 15) = fields at hge hlt ⊢
  rw [ofFloat32_fields (by omega) hlt, if_neg (by omega), if_neg (by omega)]
  have hquiet : 0x7ff8000000000000 ≤
      0x7ff8000000000000 ||| (0x7ff0000000000000 + fields % 2 ^ 23 * 2 ^ 29) := Nat.left_le_or
  have hrange : 0x7ff8000000000000 ||| (0x7ff0000000000000 + fields % 2 ^ 23 * 2 ^ 29) < 2 ^ 63 :=
    Nat.or_lt_two_pow (by omega) (by omega)
  generalize 0x7ff8000000000000 ||| (0x7ff0000000000000 + fields % 2 ^ 23 * 2 ^ 29) = payload
    at hquiet hrange ⊢
  obtain ⟨hsign, hmagnitude⟩ := ofNat_withSign (decide (h / 2 ^ 15 = 1)) hrange
  exact ⟨hsign, by rw [hmagnitude]; omega⟩

variable {d : Double}

theorem isnan_of_magnitude_le (h : d.magnitude.toNat ≤ 0x7ff0000000000000) : d.isnan = false :=
  Bool.eq_false_iff.mpr fun hnan => absurd ((isnan_iff d).mp hnan) (by omega)

theorem withSign_halfFields (hh : h < 2 ^ 16) :
    withSign (decide (h / 2 ^ 15 = 1)) 16 (h % 2 ^ 15) = h := by
  rw [withSign]
  simp only [decide_eq_true_eq]
  split <;> omega

theorem toFloat16_infinity (h : d.magnitude.toNat = 0x7ff0000000000000) :
    toFloat16 d = withSign d.signbit 16 0x7c00 := by
  rw [toFloat16]
  rw [if_pos (by omega), if_neg (by omega)]

theorem toFloat16_nan (h : d.isnan = true) : toFloat16 d = withSign d.signbit 16 0x7e00 := by
  rw [toFloat16_eq, nearestFloat16, if_pos h]

/-- What is converted from half precision is converted back to the same bits. -/
theorem toFloat16_ofFloat16 (hh : h < 2 ^ 16) (hnumber : h % 2 ^ 15 ≤ 0x7c00) :
    toFloat16 (ofFloat16 h) = h := by
  rcases Nat.eq_or_lt_of_le hnumber with hinfinity | hlt
  · obtain ⟨hsign, hmagnitude⟩ := ofFloat16_infinity hh hinfinity
    rw [toFloat16_infinity hmagnitude, hsign, ← hinfinity]
    exact withSign_halfFields hh
  · obtain ⟨hsign, hmagnitude, hscaled⟩ := ofFloat16_number hh hlt
    rw [toFloat16_eq, nearestFloat16, isnan_of_magnitude_le hmagnitude.le, hsign, hscaled,
      if_neg Bool.false_ne_true, FloatFormat.round_decode (show 0 < 10 by decide) hnumber]
    exact withSign_halfFields hh

theorem value_ofFloat16 (hh : h < 2 ^ 16) (hnumber : h % 2 ^ 15 < 0x7c00) :
    (ofFloat16 h).value = halfValue h := by
  obtain ⟨hsign, -, hscaled⟩ := ofFloat16_number hh hnumber
  have hnegative : h / 2 ^ 15 = 1 ↔ 2 ^ 15 ≤ h := by omega
  rw [value_eq, halfValue_eq, hsign, hscaled]
  simp only [decide_eq_true_eq, hnegative]

/-- The conversions between half precision and double precision. -/
structure ConvertsHalf : Prop where
  nearest : ∀ d : Double, d.isnan = false → NearestHalf d (toFloat16 d)
  nan : ∀ d : Double, d.isnan = true → 0x7c00 < toFloat16 d % 2 ^ 15
  exact : ∀ h < 2 ^ 16, h % 2 ^ 15 < 0x7c00 → (ofFloat16 h).value = halfValue h
  back : ∀ h < 2 ^ 16, h % 2 ^ 15 ≤ 0x7c00 → toFloat16 (ofFloat16 h) = h
  back_nan : ∀ h < 2 ^ 16, 0x7c00 < h % 2 ^ 15 →
    0x7c00 < toFloat16 (ofFloat16 h) % 2 ^ 15 ∧ (2 ^ 15 ≤ toFloat16 (ofFloat16 h) ↔ 2 ^ 15 ≤ h)

/-- Conversions round to nearest and read back. -/
theorem convertsHalf : ConvertsHalf where
  nearest d hnumber := by
    rw [toFloat16_eq, nearestFloat16, hnumber, if_neg Bool.false_ne_true]
    exact nearestHalf_withSign d
  nan d hnan := by
    rw [toFloat16_nan hnan, (withSign_half d.signbit (by omega)).2.1]
    omega
  exact _ hh hnumber := value_ofFloat16 hh hnumber
  back _ hh hnumber := toFloat16_ofFloat16 hh hnumber
  back_nan h hh hnan := by
    obtain ⟨hsign, hmagnitude⟩ := ofFloat16_nan hh hnan
    obtain ⟨-, hfields, hnegative, -⟩ :=
      withSign_half (signbit (ofFloat16 h)) (show 0x7e00 < 2 ^ 15 by omega)
    rw [toFloat16_nan ((isnan_iff _).mpr hmagnitude), hfields, hnegative, hsign, decide_eq_true_eq]
    omega

/-- The least subnormal is rounded to when more than half of it is there. -/
example : toFloat16 0x3e60000000000001 = 1 ∧ toFloat16 0x3e60000000000000 = 0 := by
  rw [toFloat16_eq, toFloat16_eq]
  decide +kernel

end Escargot.Runtime.Double
