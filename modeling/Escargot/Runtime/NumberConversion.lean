/-
# Number conversions

What the conversions of a double compute. A finite double is a whole number of
units of `2 ^ (-1074)`, so truncation, rounding and comparison are arithmetic on
natural numbers. The conversions that the source writes on bit patterns,
`toInt32SlowCase` and `convertFloat64ToFloat16`, are embedded as written and
proved to compute the modular truncation and the rounding to nearest.
-/

import Escargot.Foundation.BinaryFloat
import Escargot.Runtime.NanBoxing

namespace Escargot.Runtime

open Option Foundation

def binary64 : FloatFormat := ⟨52, 0, 0x7ff0000000000000⟩

def binary32 : FloatFormat := ⟨23, 925, 0x7f800000⟩

def binary16 : FloatFormat := ⟨10, 1050, 0x7c00⟩

namespace Double

variable (width : Nat) (d : Double)

/-- The magnitude of a finite double, in units of `2 ^ (-1074)`. -/
def scaled : Nat := binary64.decode d.magnitude.toNat

def unitExponent : Nat := 1074

def one : Nat := 2 ^ unitExponent

def isfinite : Bool := d.magnitude.toNat < 0x7ff0000000000000

/-- The mathematical truncation of a finite double; NaN and infinities have none. -/
def truncated : Option Int :=
  if d.isfinite then
    some (if d.signbit then -((d.scaled / one : Nat) : Int) else ((d.scaled / one : Nat) : Int))
  else none

/-- The position of a double in the order of `<`, which both zeros share. -/
def ordinal : Int := if d.signbit then -(d.magnitude.toNat : Int) else (d.magnitude.toNat : Int)

/-- The comparison `a < b` of two doubles. -/
def lt (a b : Double) : Bool := !a.isnan && !b.isnan && decide (a.ordinal < b.ordinal)

/-- `lrint`, in the default rounding mode. -/
def lrint : Int :=
  let n : Nat := roundHalfEven d.scaled one
  if d.signbit then -(n : Int) else (n : Int)

/-- `Value::toInt32SlowCase` of a double. -/
def toInt32SlowCase (num : Double) : UInt32 :=
  let bits : Int := num.toInt64.toInt
  let exp : Int := (num.toNat / 2 ^ 52 % 2 ^ 11 : Nat) - 0x3ff
  if exp < 0 ∨ exp > 83 then 0
  else
    let result : Nat :=
      if exp > 52 then (num.toNat * 2 ^ (exp - 52).toNat % 2 ^ 64) % 2 ^ 32
      else (bits / 2 ^ (52 - exp).toNat % 2 ^ 32).toNat
    let result : Nat := if exp < 32 then result % 2 ^ exp.toNat + 2 ^ exp.toNat else result
    if bits < 0 then -UInt32.ofNat result else UInt32.ofNat result

/-- The bits of a `float`, with its sign. -/
def withSign (negative : Bool) (width : Nat) (fields : Nat) : Nat :=
  (if negative then 2 ^ (width - 1) else 0) + fields

/-- `static_cast<float>(d)`: a NaN keeps the upper bits of its payload and is quiet. -/
def toFloat32 : Nat :=
  withSign d.signbit 32
    (if d.isnan then 0x7fc00000 ||| (0x7f800000 + d.toNat / 2 ^ 29 % 2 ^ 23)
      else binary32.round d.scaled)

/-- `static_cast<float>(i)` of an int32. -/
def float32OfInt32 (i : Int32) : Nat :=
  withSign (decide (i.toInt < 0)) 32 (binary32.round (i.toInt.natAbs * one))

/-- The sum of two non-negative finite doubles. -/
def addMagnitudes (a b : Double) : Double := .ofNat (binary64.round (a.scaled + b.scaled))

/-- `convertFloat64ToFloat16`. -/
def toFloat16 (value : Double) : Nat :=
  let kFP16InfinityAndNaNInfimum : Nat := (1023 + 16) * 2 ^ 52
  let kFP16MinExponent : Nat := 1023 - 14
  let kFP16DenormalThreshold : Nat := kFP16MinExponent * 2 ^ 52
  let kFP64To16RoundingAddend : Nat := 2 ^ (52 - 10 - 1) - 1
  let kFP64To16RebiasExponentAndRound : Nat :=
    (2 ^ 64 + 15 * 2 ^ 52 - 1023 * 2 ^ 52) + kFP64To16RoundingAddend
  let kFP64To16DenormalMagic : Nat := (kFP16MinExponent + (52 - 10)) * 2 ^ 52
  -- The absolute value of the input.
  let input : Nat := value.magnitude.toNat
  let out : Nat :=
    if input ≥ kFP16InfinityAndNaNInfimum then
      if input > 0x7ff0000000000000 then 0x7e00 else 0x7c00
    else if input < kFP16DenormalThreshold then
      let temp := addMagnitudes (.ofNat input) (.ofNat kFP64To16DenormalMagic)
      (temp.toNat + 2 ^ 64 - kFP64To16DenormalMagic) % 2 ^ 16
    else
      let mantOdd := input / 2 ^ (52 - 10) % 2
      ((input + kFP64To16RebiasExponentAndRound + mantOdd) % 2 ^ 64) / 2 ^ (52 - 10) % 2 ^ 16
  withSign value.signbit 16 out

/-- The product of a `float` without its sign and `2 ^ (-112)`, exact for the
exponents it is formed with. -/
def scaleFloat32 (fields : Nat) : Nat :=
  if fields < 0x7f800000 then binary32.round (binary32.decode fields / 2 ^ 112)
  else if fields = 0x7f800000 then fields
  else fields ||| 0x400000

def convertFloat16ToFloat32 (h : Nat) : Nat :=
  let w := h * 2 ^ 16
  let sign := w &&& 0x80000000
  let twoW := (w + w) % 2 ^ 32
  let normalizedValue := scaleFloat32 (twoW / 2 ^ 4 + 0xe0 * 2 ^ 23)
  let denormalizedValue := binary32.round
    (binary32.decode (twoW / 2 ^ 17 ||| 126 * 2 ^ 23) - binary32.decode 0x3f000000)
  sign ||| (if twoW < 2 ^ 27 then denormalizedValue else normalizedValue)

/-- `static_cast<double>(f)` of a `float`, which is exact. -/
def ofFloat32 (bits : Nat) : Double :=
  let fields := bits % 2 ^ 31
  .ofNat (withSign (decide (2 ^ 31 ≤ bits)) 64
    (if fields < 0x7f800000 then binary64.round (binary32.decode fields)
      else if fields = 0x7f800000 then 0x7ff0000000000000
      else 0x7ff8000000000000 ||| (0x7ff0000000000000 + fields % 2 ^ 23 * 2 ^ 29)))

/-- `convertFloat16ToFloat64`. -/
def ofFloat16 (h : Nat) : Double := ofFloat32 (convertFloat16ToFloat32 h)

/-- An integer modulo `2 ^ width`, as the bits that represent it. -/
def wrap (t : Int) : Nat := (t % 2 ^ width).toNat

/-- `ToInt8` to `ToUint32`: truncation modulo `2 ^ width`, and zero for what has none. -/
def modular : Nat := wrap width (d.truncated.getD 0)

/-- `ToUint8Clamp`. -/
def clamped : Nat := if d.isnan || d.signbit then 0 else min (roundHalfEven d.scaled one) 255

/-- The nearest half-precision number, with the one NaN the source uses. -/
def nearestFloat16 : Nat :=
  withSign d.signbit 16 (if d.isnan then 0x7e00 else binary16.round d.scaled)

section Fields

variable (d : Double)

theorem magnitude_lt : d.magnitude.toNat < 2 ^ 63 := by
  rw [toNat_magnitude]
  omega

theorem toNat_eq : d.toNat = (if d.signbit then 2 ^ 63 else 0) + d.magnitude.toNat := by
  have hlt := d.toNat_lt
  have hiff := signbit_iff d
  rw [toNat_magnitude]
  split
  case isTrue h =>
      have := hiff.mp h
      omega
  case isFalse h =>
      have : ¬ 2 ^ 63 ≤ d.toNat := fun hle => h (hiff.mpr hle)
      omega

theorem isnan_iff : d.isnan = true ↔ 0x7ff0000000000000 < d.magnitude.toNat := by
  rw [isnan, decide_eq_true_eq, UInt64.lt_iff_toNat_lt]
  rfl

theorem scaled_normal (h : 2 ^ 52 ≤ d.magnitude.toNat) :
    d.scaled = (2 ^ 52 + d.magnitude.toNat % 2 ^ 52) * 2 ^ (d.magnitude.toNat / 2 ^ 52 - 1) := by
  have hne : d.magnitude.toNat / 2 ^ binary64.fractionBits ≠ 0 := by
    simp only [binary64]
    omega
  rw [scaled, FloatFormat.decode, if_neg hne]
  rfl

theorem scaled_subnormal (h : d.magnitude.toNat < 2 ^ 52) : d.scaled = d.magnitude.toNat := by
  have hzero : d.magnitude.toNat / 2 ^ binary64.fractionBits = 0 := Nat.div_eq_of_lt h
  rw [scaled, FloatFormat.decode, if_pos hzero]
  exact Nat.mul_one _

theorem scaled_le_of_magnitude_le {e : Double} (h : d.magnitude.toNat ≤ e.magnitude.toNat) :
    d.scaled ≤ e.scaled :=
  FloatFormat.decode_mono h

end Fields

section OfInt32

theorem magnitude_ofInt32_zero : (ofInt32 0).magnitude.toNat = 0 := by decide

variable (i : Int32)

theorem signbit_ofInt32 : (ofInt32 i).signbit = decide (i.toInt < 0) := by
  by_cases hi : i = 0
  · subst hi
    decide
  · obtain ⟨hne, hsmall⟩ := natAbs_bounds hi
    obtain ⟨hlow, hhigh⟩ := magnitudeOfNat_bounds hne hsmall
    rw [Bool.eq_iff_iff, signbit_iff, decide_eq_true_eq, toNat_ofInt32 hi]
    split <;> omega

/-- The double of a natural number below `2 ^ 32` stands for that number. -/
theorem scaled_of_magnitudeOfNat {d : Double} {m : Nat} (hm : m ≠ 0) (hsmall : m < 2 ^ 32)
    (h : d.magnitude.toNat = magnitudeOfNat m) : d.scaled = m * one := by
  have hlog : m.log2 < 32 := (Nat.log2_lt hm).mpr hsmall
  obtain ⟨hlow, hhigh⟩ := scaled_bounds hm (by omega)
  have hdiv := magnitudeOfNat_div hm (by omega)
  have hmod : 2 ^ 52 + magnitudeOfNat m % 2 ^ 52 = m * 2 ^ (52 - m.log2) := by
    unfold magnitudeOfNat
    omega
  have hnormal : 2 ^ 52 ≤ d.magnitude.toNat := by
    have hbound := (magnitudeOfNat_bounds hm hsmall).1
    omega
  have hexp : 52 - m.log2 + (1023 + m.log2 - 1) = unitExponent := by
    unfold unitExponent
    omega
  rw [scaled_normal _ hnormal, h, hdiv, hmod, Nat.mul_assoc, ← Nat.pow_add, hexp, one]

theorem scaled_ofInt32 : (ofInt32 i).scaled = i.toInt.natAbs * one := by
  by_cases hi : i = 0
  · subst hi
    rw [scaled, magnitude_ofInt32_zero, Int32.toInt_zero, Int.natAbs_zero, Nat.zero_mul]
    rfl
  · obtain ⟨hne, hsmall⟩ := natAbs_bounds hi
    exact scaled_of_magnitudeOfNat hne hsmall (magnitude_ofInt32 hi)

theorem isfinite_ofInt32 : (ofInt32 i).isfinite = true := by
  by_cases hi : i = 0
  · subst hi
    rw [isfinite, decide_eq_true_eq, magnitude_ofInt32_zero]
    omega
  · obtain ⟨hne, hsmall⟩ := natAbs_bounds hi
    have hhigh := (magnitudeOfNat_bounds hne hsmall).2
    rw [isfinite, decide_eq_true_eq, magnitude_ofInt32 hi]
    omega

theorem one_pos : 0 < one := Nat.two_pow_pos _

theorem truncated_ofInt32 : (ofInt32 i).truncated = some i.toInt := by
  rw [truncated, if_pos (isfinite_ofInt32 i), scaled_ofInt32, Nat.mul_div_cancel _ one_pos,
    signbit_ofInt32]
  simp only [decide_eq_true_eq, Option.some.injEq]
  split <;> omega

end OfInt32

section Truncation

variable {d : Double}

theorem scaled_lt_one (h : d.magnitude.toNat < 1023 * 2 ^ 52) : d.scaled < one := by
  rcases Nat.lt_or_ge d.magnitude.toNat (2 ^ 52) with hsub | hnormal
  · rw [scaled_subnormal d hsub]
    exact Nat.lt_of_lt_of_le hsub
      (Nat.pow_le_pow_right (by omega) (by unfold unitExponent; omega))
  · rw [scaled_normal d hnormal]
    calc
      (2 ^ 52 + d.magnitude.toNat % 2 ^ 52) * 2 ^ (d.magnitude.toNat / 2 ^ 52 - 1)
          < 2 ^ 53 * 2 ^ (d.magnitude.toNat / 2 ^ 52 - 1) :=
        Nat.mul_lt_mul_of_pos_right (by omega) (Nat.two_pow_pos _)
      _ = 2 ^ (53 + (d.magnitude.toNat / 2 ^ 52 - 1)) := (Nat.pow_add _ _ _).symm
      _ ≤ one := Nat.pow_le_pow_right (by omega) (by unfold unitExponent; omega)

theorem scaled_div_one {exp : Nat} (hle : exp ≤ 52)
    (hexp : d.magnitude.toNat / 2 ^ 52 = 1023 + exp) :
    d.scaled / one = 2 ^ exp + d.magnitude.toNat % 2 ^ 52 / 2 ^ (52 - exp) := by
  have hone : one = 2 ^ (52 - exp) * 2 ^ (1023 + exp - 1) := by
    rw [one, ← Nat.pow_add, unitExponent]
    congr 1
    omega
  have hsplit : 2 ^ 52 = 2 ^ (52 - exp) * 2 ^ exp := by rw [← Nat.pow_add, Nat.sub_add_cancel hle]
  rw [scaled_normal d (by omega), hexp, hone, Nat.mul_div_mul_right _ _ (Nat.two_pow_pos _)]
  nth_rewrite 1 [hsplit]
  rw [Nat.mul_add_div (Nat.two_pow_pos _)]

theorem scaled_div_one_large {exp : Nat} (hle : 52 ≤ exp)
    (hexp : d.magnitude.toNat / 2 ^ 52 = 1023 + exp) :
    d.scaled / one = (2 ^ 52 + d.magnitude.toNat % 2 ^ 52) * 2 ^ (exp - 52) := by
  have hpow : 2 ^ (1023 + exp - 1) = 2 ^ (exp - 52) * one := by
    rw [one, ← Nat.pow_add, unitExponent]
    congr 1
    omega
  rw [scaled_normal d (by omega), hexp, hpow, ← Nat.mul_assoc, Nat.mul_div_cancel _ one_pos]

end Truncation

section ToInt32

variable (d : Double)

theorem exponent_field : d.toNat / 2 ^ 52 % 2 ^ 11 = d.magnitude.toNat / 2 ^ 52 := by
  rw [toNat_magnitude]
  omega

theorem toInt_toInt64 : d.toInt64.toInt = (d.toNat : Int) - (if d.signbit then 2 ^ 64 else 0) := by
  have hiff := signbit_iff d
  have hval : d.toInt64.toInt = d.toBitVec.toInt := rfl
  have hnat : d.toBitVec.toNat = d.toNat := rfl
  rw [hval, BitVec.toInt_eq_toNat_cond, hnat]
  by_cases hs : d.signbit = true
  · have := hiff.mp hs
    rw [if_neg (by omega), if_pos hs]
    rfl
  · have : ¬ 2 ^ 63 ≤ d.toNat := fun hle => hs (hiff.mpr hle)
    rw [if_pos (by omega), if_neg hs, Int.sub_zero]

/-- The word as a signed number: the exponent field with the sign above it, and the fraction. -/
theorem toInt_fields : d.toInt64.toInt =
    ((d.magnitude.toNat / 2 ^ 52 : Nat) - (if d.signbit then 2 ^ 11 else 0) : Int) * 2 ^ 52 +
      (d.magnitude.toNat % 2 ^ 52 : Nat) := by
  rw [toInt_toInt64, toNat_eq]
  split <;> push_cast <;> omega

theorem toInt_neg_iff : d.toInt64.toInt < 0 ↔ d.signbit = true := by
  have hlt := magnitude_lt d
  rw [toInt_fields]
  split <;> rename_i hs <;> simp only [hs, iff_true, Bool.false_eq_true, iff_false] <;> omega

theorem fields_div (a : Int) (f : Nat) {exp : Nat} (hexp : exp ≤ 52) :
    (a * 2 ^ 52 + f) / 2 ^ (52 - exp) = a * 2 ^ exp + (f / 2 ^ (52 - exp) : Nat) := by
  have hsplit : (2 : Int) ^ 52 = 2 ^ exp * 2 ^ (52 - exp) := by
    rw [← Int.pow_add, Nat.add_sub_cancel' hexp]
  have hne : (2 : Int) ^ (52 - exp) ≠ 0 := Int.pow_ne_zero (by omega)
  rw [hsplit, ← Int.mul_assoc, Int.add_comm, Int.add_mul_ediv_right _ _ hne, Int.add_comm]
  rfl

/-- The exponent bits, shifted right, are masked out or cut off; the missing one is put back. -/
theorem shift_right (a : Int) {f exp : Nat} (hexp : exp ≤ 52) (hf : f < 2 ^ 52) :
    (if (exp : Int) < 32 then
      (((a * 2 ^ 52 + f) / 2 ^ (52 - exp) % 2 ^ 32).toNat) % 2 ^ exp + 2 ^ exp
    else ((a * 2 ^ 52 + f) / 2 ^ (52 - exp) % 2 ^ 32).toNat) % 2 ^ 32 =
      (2 ^ exp + f / 2 ^ (52 - exp)) % 2 ^ 32 := by
  have hg : f / 2 ^ (52 - exp) < 2 ^ exp := by
    rw [Nat.div_lt_iff_lt_mul (Nat.two_pow_pos _), ← Nat.pow_add, Nat.add_sub_cancel' hexp]
    exact hf
  rw [fields_div a f hexp]
  generalize f / 2 ^ (52 - exp) = g at hg ⊢
  have hnonneg : 0 ≤ (a * 2 ^ exp + g) % 2 ^ 32 := Int.emod_nonneg _ (by omega)
  split
  case isTrue hlt =>
      have hdvd : (2 : Int) ^ exp ∣ 2 ^ 32 := pow_dvd_pow 2 (by omega)
      have hmod : ((a * 2 ^ exp + g) % 2 ^ 32).toNat % 2 ^ exp = g := by
        rw [← Int.natCast_inj, Int.natCast_emod, Int.toNat_of_nonneg hnonneg, Int.natCast_pow,
          Nat.cast_ofNat, Int.emod_emod_of_dvd _ hdvd, Int.add_comm, Int.add_mul_emod_self_right]
        exact Int.emod_eq_of_lt (Int.natCast_nonneg g) (by exact_mod_cast hg)
      rw [hmod, Nat.add_comm]
  case isFalse hge =>
      have hsplit : 2 ^ exp = 2 ^ (exp - 32) * 2 ^ 32 := by
        rw [← Nat.pow_add, Nat.sub_add_cancel (by omega)]
      have hcut : ((a * 2 ^ exp + g) % 2 ^ 32).toNat = g % 2 ^ 32 := by
        rw [← Int.natCast_inj, Int.toNat_of_nonneg hnonneg, Int.natCast_emod]
        have hsplit' : (2 : Int) ^ exp = 2 ^ (exp - 32) * 2 ^ 32 := by exact_mod_cast hsplit
        rw [hsplit', ← Int.mul_assoc, Int.add_comm, Int.add_mul_emod_self_right]
        rfl
      rw [hcut, Nat.mod_mod, hsplit, Nat.add_comm, Nat.add_mul_mod_self_right]

/-- A shift to the left pushes everything above the fraction out of the low word. -/
theorem shift_left {m c : Nat} : m * c % 2 ^ 64 % 2 ^ 32 = (2 ^ 52 + m % 2 ^ 52) * c % 2 ^ 32 := by
  have hdvd : 2 ^ 32 ∣ 2 ^ 64 := Nat.pow_dvd_pow 2 (by omega)
  have hm : m * c = m % 2 ^ 52 * c + m / 2 ^ 52 * 2 ^ 20 * c * 2 ^ 32 := by
    have hsplit : m / 2 ^ 52 * 2 ^ 20 * c * 2 ^ 32 = 2 ^ 52 * (m / 2 ^ 52) * c := by ring
    rw [hsplit, ← Nat.add_mul, Nat.mod_add_div]
  have hone : (2 ^ 52 + m % 2 ^ 52) * c = m % 2 ^ 52 * c + 2 ^ 20 * c * 2 ^ 32 := by ring
  rw [Nat.mod_mod_of_dvd _ hdvd, hm, hone, Nat.add_mul_mod_self_right, Nat.add_mul_mod_self_right]

theorem toNat_signed {r q : Nat} (h : r % 2 ^ 32 = q % 2 ^ 32) (negative : Bool) :
    (if negative then -UInt32.ofNat r else UInt32.ofNat r).toNat =
      wrap 32 (if negative then -(q : Int) else (q : Int)) := by
  cases negative with
  | false =>
    simp only [Bool.false_eq_true, if_false, UInt32.toNat_ofNat', h, wrap]
    omega
  | true =>
    simp only [if_true, UInt32.toNat_neg, UInt32.toNat_ofNat', h, wrap, UInt32.size]
    omega

/-- `ToInt32` as the source computes it is the truncation modulo `2 ^ 32`. -/
theorem toNat_toInt32SlowCase : (toInt32SlowCase d).toNat = modular 32 d := by
  have hmag := magnitude_lt d
  have hquot : d.magnitude.toNat / 2 ^ 52 < 2 ^ 11 := by omega
  simp only [toInt32SlowCase, exponent_field]
  by_cases hsmall : d.magnitude.toNat / 2 ^ 52 < 1023
  · have hzero : d.scaled / one = 0 := Nat.div_eq_of_lt (scaled_lt_one (by omega))
    have hfin : d.isfinite = true := by
      rw [isfinite, decide_eq_true_eq]
      omega
    rw [if_pos (by omega), modular, truncated, if_pos hfin, hzero]
    split <;> rfl
  · obtain ⟨exp, hexp⟩ : ∃ exp, d.magnitude.toNat / 2 ^ 52 = 1023 + exp :=
      ⟨_, (Nat.add_sub_of_le (Nat.le_of_not_lt hsmall)).symm⟩
    have hcast : ((d.magnitude.toNat / 2 ^ 52 : Nat) : Int) - 0x3ff = exp := by omega
    rw [hcast]
    by_cases hbig : exp > 83
    · rw [if_pos (by omega), modular, truncated]
      split
      case isTrue hfin =>
          have hsplit : 2 ^ (exp - 52) = 2 ^ (exp - 84) * 2 ^ 32 := by
            rw [← Nat.pow_add]
            congr 1
            omega
          rw [scaled_div_one_large (by omega) hexp, hsplit, ← Nat.mul_assoc]
          simp only [getD_some, wrap]
          split <;> push_cast <;> simp
      case isFalse => rfl
    · have hfin : d.isfinite = true := by
        rw [isfinite, decide_eq_true_eq]
        omega
      rw [if_neg (by omega), modular, truncated, if_pos hfin, getD_some]
      simp only [toInt_neg_iff]
      apply toNat_signed
      rcases Nat.lt_or_ge 52 exp with hleft | hright
      · have hshift : ((exp : Int) - 52).toNat = exp - 52 := by omega
        have hlow : d.toNat % 2 ^ 52 = d.magnitude.toNat % 2 ^ 52 := by
          rw [toNat_magnitude]
          omega
        rw [scaled_div_one_large (by omega) hexp, if_neg (show ¬(exp : Int) < 32 by omega),
          if_pos (show (exp : Int) > 52 by omega), hshift, ← hlow, ← shift_left, Nat.mod_mod]
      · have hshift : (52 - (exp : Int)).toNat = 52 - exp := by omega
        rw [scaled_div_one hright hexp, if_neg (show ¬(exp : Int) > 52 by omega), hshift,
          toInt_fields, Int.toNat_natCast]
        exact shift_right _ hright (Nat.mod_lt _ (by omega))

end ToInt32

section ExactValue

variable (d : Double)

/-- The exact value of a finite double, by its exponent and fraction fields. -/
def value : ℚ :=
  let exponent : Nat := d.toNat / 2 ^ 52 % 2 ^ 11
  let fraction : ℚ := (d.toNat % 2 ^ 52 : Nat)
  (if d.signbit then -1 else 1) *
    (if exponent = 0 then fraction * 2 ^ (-1074 : ℤ)
      else (2 ^ 52 + fraction) * 2 ^ ((exponent : ℤ) - 1075))

/-- Truncation toward zero. -/
def truncation (q : ℚ) : Int := if q < 0 then ⌈q⌉ else ⌊q⌋

theorem value_eq : d.value = (if d.signbit then -1 else 1) * ((d.scaled : ℚ) / (one : ℕ)) := by
  have hfraction : d.toNat % 2 ^ 52 = d.magnitude.toNat % 2 ^ 52 := by
    rw [toNat_magnitude]
    omega
  have hone : ((one : ℕ) : ℚ) = 2 ^ (1074 : ℤ) := by
    rw [one, Nat.cast_pow, Nat.cast_ofNat, ← zpow_natCast]
    rfl
  rw [value, exponent_field, hfraction, hone]
  congr 1
  split
  case isTrue hsub =>
      have hlt : d.magnitude.toNat < 2 ^ 52 := by omega
      rw [scaled_subnormal d hlt, Nat.mod_eq_of_lt hlt, zpow_neg, div_eq_mul_inv]
  case isFalse hnormal =>
      have hge : 2 ^ 52 ≤ d.magnitude.toNat := by omega
      have hexp : ((d.magnitude.toNat / 2 ^ 52 : Nat) : ℤ) - 1075 =
          ((d.magnitude.toNat / 2 ^ 52 - 1 : Nat) : ℤ) - 1074 := by omega
      rw [scaled_normal d hge, hexp, zpow_sub₀ two_ne_zero, zpow_natCast, Nat.cast_mul,
        Nat.cast_pow, Nat.cast_add, Nat.cast_pow, Nat.cast_ofNat, mul_div_assoc]

theorem truncation_value : truncation d.value =
    if d.signbit then -((d.scaled / one : Nat) : Int) else ((d.scaled / one : Nat) : Int) := by
  have hfloor : ⌊(d.scaled : ℚ) / (one : ℕ)⌋ = ((d.scaled / one : Nat) : Int) :=
    Rat.floor_natCast_div_natCast _ _
  have hpos : (0 : ℚ) ≤ (d.scaled : ℚ) / (one : ℕ) := div_nonneg (Nat.cast_nonneg _) (Nat.cast_nonneg _)
  rw [truncation, value_eq]
  by_cases hsign : d.signbit = true
  · rw [if_pos hsign, if_pos hsign, neg_one_mul]
    by_cases hneg : -((d.scaled : ℚ) / (one : ℕ)) < 0
    · rw [if_pos hneg, Int.ceil_neg, hfloor]
    · have hzero : (d.scaled : ℚ) / (one : ℕ) = 0 := le_antisymm (by linarith) hpos
      rw [if_neg hneg, ← hfloor, hzero]
      simp
  · rw [if_neg hsign, if_neg hsign, one_mul, if_neg (not_lt.mpr hpos), hfloor]

/-- `ToInt32` of any double: a finite one gives the number of 32 bits with a sign that is congruent
to its truncation, and what has none or is below one in magnitude gives zero. -/
theorem toInt32SlowCase_congr_truncation :
    (d.isfinite = true → d.toInt32SlowCase.toInt32.toInt ≡ truncation d.value [ZMOD 2 ^ 32]) ∧
      (d.isfinite = false → d.toInt32SlowCase.toInt32.toInt = 0) ∧
      (d.isfinite = true → |d.value| < 1 → d.toInt32SlowCase.toInt32.toInt = 0) := by
  have hsigned : d.toInt32SlowCase.toInt32.toInt = (modular 32 d : Int).bmod (2 ^ 32) := by
    rw [← toNat_toInt32SlowCase, Int32.toInt, BitVec.toInt_eq_toNat_bmod]
    rfl
  have hfinite : d.isfinite = true → (modular 32 d : Int) = truncation d.value % 2 ^ 32 := by
    intro hfin
    rw [modular, truncated, if_pos hfin, getD_some, truncation_value, wrap,
      Int.toNat_of_nonneg (Int.emod_nonneg _ (by norm_num))]
  refine ⟨fun hfin => ?_, fun hinf => ?_, fun hfin hsmall => ?_⟩
  · have hmod := Int.bmod_emod (x := truncation d.value % 2 ^ 32) (m := 2 ^ 32)
    rw [hsigned, hfinite hfin, Int.ModEq]
    omega
  · rw [hsigned, modular, truncated, hinf, if_neg Bool.false_ne_true]
    rfl
  · have hscaled : d.scaled / one = 0 := by
      have hpos : (0 : ℚ) ≤ (d.scaled : ℚ) / (one : ℕ) :=
        div_nonneg (Nat.cast_nonneg _) (Nat.cast_nonneg _)
      have habs : |d.value| = (d.scaled : ℚ) / (one : ℕ) := by
        rw [value_eq, abs_mul, abs_of_nonneg hpos]
        split
        · rw [abs_neg, abs_one, one_mul]
        · rw [abs_one, one_mul]
      rw [habs, div_lt_one (by exact_mod_cast one_pos)] at hsmall
      exact Nat.div_eq_of_lt (by exact_mod_cast hsmall)
    rw [hsigned, hfinite hfin, truncation_value, hscaled]
    split <;> rfl

end ExactValue

section ToFloat16

variable {d : Double}

theorem magnitude_ofNat {n : Nat} (h : n < 2 ^ 63) : (magnitude (.ofNat n)).toNat = n := by
  rw [toNat_magnitude, UInt64.toNat_ofNat']
  omega

theorem scaled_bounds_normal {e : Nat} (he : 0 < e) (hexp : d.magnitude.toNat / 2 ^ 52 = e) :
    2 ^ (e + 51) ≤ d.scaled ∧ d.scaled < 2 ^ (e + 52) := by
  have hlow : 2 ^ (e + 51) = 2 ^ 52 * 2 ^ (e - 1) := by
    rw [← Nat.pow_add, show 52 + (e - 1) = e + 51 by omega]
  have hhigh : 2 ^ (e + 52) = 2 ^ 53 * 2 ^ (e - 1) := by
    rw [← Nat.pow_add, show 53 + (e - 1) = e + 52 by omega]
  rw [scaled_normal d (by omega), hexp, hlow, hhigh]
  exact ⟨Nat.mul_le_mul_right _ (by omega),
    Nat.mul_lt_mul_of_pos_right (by omega) (Nat.two_pow_pos _)⟩

/-- From the least normal half-precision number on, the fraction is cut to ten bits. -/
theorem round_binary16_normal {e : Nat} (he : 1009 ≤ e) (hexp : d.magnitude.toNat / 2 ^ 52 = e) :
    binary16.round d.scaled =
      min (roundHalfEven (2 ^ 52 + d.magnitude.toNat % 2 ^ 52) (2 ^ 42) + (e - 1009) * 2 ^ 10)
        0x7c00 := by
  obtain ⟨hlow, hhigh⟩ := scaled_bounds_normal (by omega) hexp
  have hunit : binary16.unitOf d.scaled = e + 41 := by
    apply FloatFormat.unitOf_eq
    · simp only [binary16]
      omega
    · exact hlow
    · exact hhigh
  have hpow : 2 ^ (e + 41) = 2 ^ 42 * 2 ^ (e - 1) := by
    rw [← Nat.pow_add, show 42 + (e - 1) = e + 41 by omega]
  have hexcess : e + 41 - binary16.leastUnit = e - 1009 := by
    simp only [binary16]
    omega
  rw [FloatFormat.round_eq hunit, scaled_normal d (by omega), hexp, hpow,
    roundHalfEven_scale (Nat.two_pow_pos _), hexcess]
  rfl

/-- Rebiasing the exponent and rounding in one addition, which wraps around. -/
theorem rebias_eq {e f : Nat} (he : 1009 ≤ e) (he' : e < 1039) (hf : f < 2 ^ 52) :
    ((e * 2 ^ 52 + f + ((2 ^ 64 + 15 * 2 ^ 52 - 1023 * 2 ^ 52) + (2 ^ (52 - 10 - 1) - 1)) +
      (e * 2 ^ 52 + f) / 2 ^ (52 - 10) % 2) % 2 ^ 64) / 2 ^ (52 - 10) =
      roundHalfEven (2 ^ 52 + f) (2 ^ 42) + (e - 1009) * 2 ^ 10 := by
  have hhalf := roundHalfEven_eq_add_div (show 0 < 2 ^ 41 by omega) (2 ^ 52 + f)
  rw [show 2 * 2 ^ 41 = 2 ^ 42 by omega] at hhalf
  have hodd : (e * 2 ^ 52 + f) / 2 ^ (52 - 10) % 2 = (2 ^ 52 + f) / 2 ^ 42 % 2 := by omega
  have hbit : (2 ^ 52 + f) / 2 ^ 42 % 2 < 2 := Nat.mod_lt _ (by omega)
  generalize (2 ^ 52 + f) / 2 ^ 42 % 2 = odd at hbit ⊢
  omega

theorem scaled_lt_normal16 (h : d.magnitude.toNat < 1009 * 2 ^ 52) :
    d.scaled < 2 ^ (binary16.leastUnit + 10) := by
  rcases Nat.lt_or_ge d.magnitude.toNat (2 ^ 52) with htiny | hnormal
  · rw [scaled_subnormal d htiny]
    exact Nat.lt_of_lt_of_le htiny
      (Nat.pow_le_pow_right (by omega) (by simp only [binary16]; omega))
  · have hhigh := (scaled_bounds_normal (d := d) (by omega) rfl).2
    exact Nat.lt_of_lt_of_le hhigh
      (Nat.pow_le_pow_right (by omega) (by simp only [binary16]; omega))

theorem aligned_sum {r : Nat} (hr : r ≤ 2 ^ 10) :
    min (2 ^ binary64.fractionBits + r + 1050 * 2 ^ binary64.fractionBits) binary64.infinity =
      1051 * 2 ^ 52 + r := by
  simp only [binary64]
  omega

/-- The magic value aligns a subnormal half-precision number at the lowest bits. -/
theorem addMagnitudes_magic (h : d.magnitude.toNat < 1009 * 2 ^ 52) :
    (addMagnitudes (.ofNat d.magnitude.toNat) (.ofNat (1051 * 2 ^ 52))).toNat =
      1051 * 2 ^ 52 + roundHalfEven d.scaled (2 ^ binary16.leastUnit) ∧
    roundHalfEven d.scaled (2 ^ binary16.leastUnit) ≤ 2 ^ 10 := by
  have hsmall := scaled_lt_normal16 h
  obtain ⟨limit, hlimit⟩ : ∃ limit, limit = binary16.leastUnit := ⟨_, rfl⟩
  rw [← hlimit] at hsmall ⊢
  have hmagic : scaled (.ofNat (1051 * 2 ^ 52)) = 2 ^ (limit + 52) := by
    have hmag := magnitude_ofNat (show 1051 * 2 ^ 52 < 2 ^ 63 by omega)
    rw [scaled_normal _ (by omega), hmag, show 1051 * 2 ^ 52 % 2 ^ 52 = 0 by omega,
      show 1051 * 2 ^ 52 / 2 ^ 52 - 1 = limit by rw [hlimit]; rfl, Nat.add_zero, ← Nat.pow_add,
      Nat.add_comm]
  have hself : scaled (.ofNat d.magnitude.toNat) = d.scaled := by
    rw [scaled, magnitude_ofNat (magnitude_lt d), scaled]
  have hbound : roundHalfEven d.scaled (2 ^ limit) ≤ 2 ^ 10 := by
    apply roundHalfEven_le (Nat.two_pow_pos _)
    rw [← Nat.pow_add, Nat.add_comm]
    exact Nat.le_of_lt hsmall
  have hround : binary64.round (2 ^ (limit + 52) + d.scaled) =
      1051 * 2 ^ 52 + roundHalfEven d.scaled (2 ^ limit) := by
    have hlt : d.scaled < 2 ^ (limit + binary64.fractionBits) :=
      Nat.lt_of_lt_of_le hsmall
        (Nat.pow_le_pow_right (by omega) (by simp only [binary64]; omega))
    have hsum := FloatFormat.round_add_magic (Nat.zero_le limit)
      (show 0 < binary64.fractionBits by simp only [binary64]; omega) hlt
    have hunit : limit - binary64.leastUnit = 1050 := by rw [hlimit]; rfl
    rw [hunit] at hsum
    exact hsum.trans (aligned_sum hbound)
  refine ⟨?_, hbound⟩
  rw [addMagnitudes, hself, hmagic, Nat.add_comm, hround, UInt64.toNat_ofNat']
  omega

theorem toFloat16_eq (d : Double) : toFloat16 d = nearestFloat16 d := by
  have hmag := magnitude_lt d
  have hnan := isnan_iff d
  simp only [toFloat16, nearestFloat16]
  congr 1
  rcases Nat.lt_or_ge d.magnitude.toNat (1009 * 2 ^ 52) with hsub | hnormal
  · obtain ⟨hadd, hbound⟩ := addMagnitudes_magic hsub
    have hlt : d.scaled < 2 ^ (binary16.leastUnit + binary16.fractionBits + 1) :=
      Nat.lt_of_lt_of_le (scaled_lt_normal16 hsub)
        (Nat.pow_le_pow_right (by omega) (Nat.le_add_right _ 1))
    have hmagic : (1023 - 14 + (52 - 10)) * 2 ^ 52 = 1051 * 2 ^ 52 := by omega
    have hfinite : ¬ d.isnan = true := fun h => by
      have := hnan.mp h
      omega
    rw [if_neg (by omega), if_pos hsub, if_neg hfinite, FloatFormat.round_of_lt hlt, hmagic, hadd]
    have hinfinity : binary16.infinity = 0x7c00 := rfl
    generalize roundHalfEven d.scaled (2 ^ binary16.leastUnit) = r at hbound ⊢
    omega
  · obtain ⟨e, he⟩ : ∃ e, d.magnitude.toNat / 2 ^ 52 = e := ⟨_, rfl⟩
    have hround := round_binary16_normal (by omega) he
    have hlow : 2 ^ 10 ≤ roundHalfEven (2 ^ 52 + d.magnitude.toNat % 2 ^ 52) (2 ^ 42) :=
      le_roundHalfEven (by omega) (by omega)
    have hhigh : roundHalfEven (2 ^ 52 + d.magnitude.toNat % 2 ^ 52) (2 ^ 42) ≤ 2 ^ 11 :=
      roundHalfEven_le (by omega) (by omega)
    rcases Nat.lt_or_ge d.magnitude.toNat (1039 * 2 ^ 52) with hrange | hlarge
    · have hsplit : d.magnitude.toNat = e * 2 ^ 52 + d.magnitude.toNat % 2 ^ 52 := by omega
      have hbias := rebias_eq (e := e) (by omega) (by omega)
        (show d.magnitude.toNat % 2 ^ 52 < 2 ^ 52 from Nat.mod_lt _ (by omega))
      rw [← hsplit] at hbias
      have hfinite : ¬ d.isnan = true := fun h => by
        have := hnan.mp h
        omega
      rw [if_neg (by omega), if_neg (by omega), if_neg hfinite, hround, hbias]
      omega
    · rw [if_pos hlarge, hround]
      by_cases h : d.isnan = true
      · rw [if_pos (hnan.mp h), if_pos h]
      · rw [if_neg (fun hgt => h (hnan.mpr hgt)), if_neg h]
        omega

end ToFloat16

theorem toFloat32_ofInt32 (i : Int32) : toFloat32 (ofInt32 i) = float32OfInt32 i := by
  simp [toFloat32, float32OfInt32, isnan_ofInt32, signbit_ofInt32, scaled_ofInt32]

theorem modular_ofInt32 (width : Nat) (i : Int32) :
    modular width (ofInt32 i) = wrap width i.toInt := by
  rw [modular, truncated_ofInt32, getD_some]

theorem clamped_ofInt32 (i : Int32) :
    clamped (ofInt32 i) = if i.toInt < 0 then 0 else min i.toInt.natAbs 255 := by
  rw [clamped, isnan_ofInt32, signbit_ofInt32, scaled_ofInt32, roundHalfEven_mul one_pos]
  simp

/-- The double of a natural number below `2 ^ 32` truncates to it. -/
theorem truncated_magnitudeOfNat {n : Nat} (hn : n ≠ 0) (hsmall : n < 2 ^ 32) :
    truncated (.ofNat (magnitudeOfNat n)) = some (n : Int) := by
  have hhigh := (magnitudeOfNat_bounds hn hsmall).2
  have hmag : (magnitude (.ofNat (magnitudeOfNat n))).toNat = magnitudeOfNat n :=
    magnitude_ofNat (by omega)
  have hsign : signbit (.ofNat (magnitudeOfNat n)) = false := by
    rw [Bool.eq_false_iff, ne_eq, signbit_iff, UInt64.toNat_ofNat']
    omega
  have hfin : isfinite (.ofNat (magnitudeOfNat n)) = true := by
    rw [isfinite, decide_eq_true_eq, hmag]
    omega
  rw [truncated, if_pos hfin, scaled_of_magnitudeOfNat hn hsmall hmag,
    Nat.mul_div_cancel _ one_pos, hsign]
  rfl

theorem lt_iff {a b : Double} (ha : a.isnan = false) (hb : b.isnan = false)
    (ha' : a.signbit = false) (hb' : b.signbit = false) :
    a.lt b = true ↔ a.magnitude.toNat < b.magnitude.toNat := by
  simp [lt, ha, hb, ordinal, ha', hb']

theorem wrap_wrap {width width' : Nat} (h : width ≤ width') (t : Int) :
    wrap width (wrap width' t : Nat) = wrap width t := by
  have hnonneg : 0 ≤ t % 2 ^ width' := Int.emod_nonneg _ (Int.pow_ne_zero (by omega))
  rw [wrap, wrap, Int.toNat_of_nonneg hnonneg, Int.emod_emod_of_dvd _ (pow_dvd_pow 2 h), wrap]

theorem wrap_lt (width : Nat) (t : Int) : wrap width t < 2 ^ width := by
  have hlt := Int.emod_lt_of_pos t (show (0 : Int) < 2 ^ width from Int.pow_pos (by omega))
  have hnonneg : 0 ≤ t % 2 ^ width := Int.emod_nonneg _ (Int.pow_ne_zero (by omega))
  rw [wrap, ← Int.ofNat_lt, Int.toNat_of_nonneg hnonneg]
  exact_mod_cast hlt

end Double

end Escargot.Runtime
