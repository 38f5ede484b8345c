/-
# Rounding is to nearest

The fields that `FloatFormat.round` gives are those of a nearest number of the format, and even
where two are equally near. The fields of an infinity stand for the number that would follow the
largest one, so that what rounds to it overflows.
-/

import Escargot.Foundation.BinaryFloat

namespace Escargot.Foundation

section Multiples

variable {d : Nat}

theorem roundHalfEven_cases (hd : 0 < d) (n : Nat) :
    (roundHalfEven n d * d ≤ n ∧ 2 * (n - roundHalfEven n d * d) ≤ d ∧
        (2 * (n - roundHalfEven n d * d) = d → roundHalfEven n d % 2 = 0)) ∨
      (n < roundHalfEven n d * d ∧ 2 * (roundHalfEven n d * d - n) ≤ d ∧
        (2 * (roundHalfEven n d * d - n) = d → roundHalfEven n d % 2 = 0)) := by
  have hn := Nat.div_add_mod n d
  have hr := Nat.mod_lt n hd
  rw [roundHalfEven]
  generalize n / d = q at hn ⊢
  generalize n % d = r at hn hr ⊢
  have hnext : (q + 1) * d = d * q + d := by ring
  have hthis : q * d = d * q := Nat.mul_comm q d
  split_ifs with hround
  · rw [hthis]
    refine Or.inl ⟨?_, ?_, ?_⟩
    all_goals omega
  · rw [hnext]
    refine Or.inr ⟨?_, ?_, ?_⟩
    all_goals omega

theorem roundHalfEven_nearest (hd : 0 < d) (n m : Nat) :
    |((roundHalfEven n d * d : Nat) : ℤ) - n| ≤ |((m * d : Nat) : ℤ) - n| ∧
      (|((roundHalfEven n d * d : Nat) : ℤ) - n| = |((m * d : Nat) : ℤ) - n| →
        m * d ≠ roundHalfEven n d * d → roundHalfEven n d % 2 = 0) := by
  have hcases := roundHalfEven_cases hd n
  generalize roundHalfEven n d = q at hcases ⊢
  have hapart : m = q ∨ m * d + d ≤ q * d ∨ q * d + d ≤ m * d := by
    rcases Nat.lt_trichotomy m q with hlt | heq | hgt
    · have hle := Nat.mul_le_mul_right d hlt
      rw [Nat.succ_mul] at hle
      exact Or.inr (Or.inl hle)
    · exact Or.inl heq
    · have hle := Nat.mul_le_mul_right d hgt
      rw [Nat.succ_mul] at hle
      exact Or.inr (Or.inr hle)
  rcases hapart with rfl | hapart
  · exact ⟨le_rfl, fun _ hne => absurd rfl hne⟩
  · generalize m * d = other at hapart ⊢
    generalize q * d = this at hcases hapart ⊢
    constructor
    · rw [abs_le]
      rcases abs_cases ((other : ℤ) - n) with ⟨habs, hsign⟩ | ⟨habs, hsign⟩
      · rw [habs]
        omega
      · rw [habs]
        omega
    · intro htie _
      rcases abs_cases ((other : ℤ) - n) with ⟨habs, hsign⟩ | ⟨habs, hsign⟩
      · rw [habs] at htie
        rcases abs_cases ((this : ℤ) - n) with ⟨habs', hsign'⟩ | ⟨habs', hsign'⟩
        · omega
        · omega
      · rw [habs] at htie
        rcases abs_cases ((this : ℤ) - n) with ⟨habs', hsign'⟩ | ⟨habs', hsign'⟩
        · omega
        · omega

end Multiples

namespace FloatFormat

variable {format : FloatFormat}

theorem decode_add {q k : Nat} (hq : q ≤ 2 ^ (format.fractionBits + 1))
    (hlow : 2 ^ format.fractionBits ≤ q ∨ k = 0) :
    format.decode (q + k * 2 ^ format.fractionBits) = q * 2 ^ (k + format.leastUnit) := by
  have hpos : 0 < 2 ^ format.fractionBits := Nat.two_pow_pos _
  have hdiv : (q + k * 2 ^ format.fractionBits) / 2 ^ format.fractionBits =
      q / 2 ^ format.fractionBits + k := Nat.add_mul_div_right q k hpos
  have hmod : (q + k * 2 ^ format.fractionBits) % 2 ^ format.fractionBits =
      q % 2 ^ format.fractionBits := Nat.add_mul_mod_self_right q k _
  rw [Nat.pow_succ] at hq
  rw [decode, hdiv, hmod]
  generalize 2 ^ format.fractionBits = scale at *
  rcases Nat.lt_or_ge q scale with hsmall | hlarge
  · obtain rfl : k = 0 := hlow.resolve_left (Nat.not_le.mpr hsmall)
    rw [Nat.div_eq_of_lt hsmall, if_pos rfl, Nat.zero_mul, Nat.add_zero, Nat.zero_add]
  · rcases Nat.lt_or_ge q (2 * scale) with hnormal | hcarry
    · have hone : q / scale = 1 := Nat.div_eq_of_lt_le (by omega) (by omega)
      have hrest : q % scale = q - scale := by
        rw [Nat.mod_eq_sub_mod hlarge, Nat.mod_eq_of_lt (by omega)]
      rw [hone, hrest, if_neg (by omega), Nat.add_sub_cancel' hlarge, Nat.add_sub_cancel_left]
    · obtain rfl : q = 2 * scale := by omega
      have htwo : 2 * scale / scale = 2 := Nat.mul_div_cancel 2 hpos
      rw [htwo, Nat.mul_mod_left, if_neg (by omega), Nat.add_zero,
        show 2 + k - 1 + format.leastUnit = k + format.leastUnit + 1 by omega, Nat.pow_succ]
      ring

theorem decode_lt_decode_succ (a : Nat) : format.decode a < format.decode (a + 1) := by
  have hpos : 0 < 2 ^ format.fractionBits := Nat.two_pow_pos _
  have hsplit := Nat.div_add_mod a (2 ^ format.fractionBits)
  have hrest := Nat.mod_lt a hpos
  rcases Nat.eq_zero_or_pos (a / 2 ^ format.fractionBits) with hzero | hnormal
  · rw [hzero, Nat.mul_zero, Nat.zero_add] at hsplit
    have hthis := @decode_add format a 0 (by rw [Nat.pow_succ]; omega) (Or.inr rfl)
    have hnext := @decode_add format (a + 1) 0 (by rw [Nat.pow_succ]; omega) (Or.inr rfl)
    rw [Nat.zero_mul, Nat.add_zero] at hthis hnext
    rw [hthis, hnext]
    exact Nat.mul_lt_mul_of_pos_right (Nat.lt_succ_self a) (Nat.two_pow_pos _)
  · obtain ⟨k, hk⟩ := Nat.exists_eq_succ_of_ne_zero (Nat.pos_iff_ne_zero.mp hnormal)
    have hfields : a = 2 ^ format.fractionBits + a % 2 ^ format.fractionBits +
        k * 2 ^ format.fractionBits := by
      rw [hk, Nat.mul_succ, Nat.mul_comm] at hsplit
      omega
    generalize a % 2 ^ format.fractionBits = fraction at hfields hrest
    have hthis := @decode_add format (2 ^ format.fractionBits + fraction) k
      (by rw [Nat.pow_succ]; omega) (Or.inl (Nat.le_add_right _ _))
    have hnext := @decode_add format (2 ^ format.fractionBits + fraction + 1) k
      (by rw [Nat.pow_succ]; omega) (Or.inl (by omega))
    rw [hfields, hthis, show 2 ^ format.fractionBits + fraction + k * 2 ^ format.fractionBits + 1 =
        2 ^ format.fractionBits + fraction + 1 + k * 2 ^ format.fractionBits by omega, hnext]
    exact Nat.mul_lt_mul_of_pos_right (Nat.lt_succ_self _) (Nat.two_pow_pos _)

theorem decode_strictMono (format : FloatFormat) : StrictMono format.decode :=
  strictMono_nat_of_lt_succ decode_lt_decode_succ

theorem decode_multiple_or_lt (fields : Nat) {u : Nat} (hu : format.leastUnit ≤ u) :
    (∃ m, format.decode fields = m * 2 ^ u) ∨
      (format.decode fields < 2 ^ (u + format.fractionBits) ∧ format.leastUnit < u) := by
  have hpos : 0 < 2 ^ format.fractionBits := Nat.two_pow_pos _
  have hsplit := Nat.div_add_mod fields (2 ^ format.fractionBits)
  have hrest := Nat.mod_lt fields hpos
  rw [decode]
  split_ifs with hzero
  · rcases Nat.eq_or_lt_of_le hu with rfl | hlt
    · exact Or.inl ⟨fields, rfl⟩
    · refine Or.inr ⟨?_, hlt⟩
      rw [hzero, Nat.mul_zero, Nat.zero_add] at hsplit
      rw [hsplit] at hrest
      calc
        fields * 2 ^ format.leastUnit
            < 2 ^ format.fractionBits * 2 ^ format.leastUnit :=
          Nat.mul_lt_mul_of_pos_right hrest (Nat.two_pow_pos _)
        _ = 2 ^ (format.leastUnit + format.fractionBits) := by rw [← Nat.pow_add, Nat.add_comm]
        _ ≤ 2 ^ (u + format.fractionBits) := Nat.pow_le_pow_right Nat.two_pos (by omega)
  · have hunit := Nat.le_add_left format.leastUnit (fields / 2 ^ format.fractionBits - 1)
    generalize fields / 2 ^ format.fractionBits - 1 + format.leastUnit = unit at hunit ⊢
    generalize hfraction : 2 ^ format.fractionBits + fields % 2 ^ format.fractionBits = fraction
    rcases Nat.lt_or_ge unit u with hlt | hge
    · refine Or.inr ⟨?_, hunit.trans_lt hlt⟩
      calc
        fraction * 2 ^ unit < 2 ^ (format.fractionBits + 1) * 2 ^ unit := by
          refine Nat.mul_lt_mul_of_pos_right ?_ (Nat.two_pow_pos _)
          omega
        _ = 2 ^ (unit + 1 + format.fractionBits) := by
          rw [← Nat.pow_add]
          congr 1
          omega
        _ ≤ 2 ^ (u + format.fractionBits) := Nat.pow_le_pow_right Nat.two_pos (by omega)
    · refine Or.inl ⟨fraction * 2 ^ (unit - u), ?_⟩
      rw [Nat.mul_assoc, ← Nat.pow_add, Nat.sub_add_cancel hge]

theorem leastUnit_le_unitOf (format : FloatFormat) (n : Nat) : format.leastUnit ≤ format.unitOf n :=
  Nat.le_max_left _ _

theorem pow_le_of_unitOf {n : Nat} (h : format.leastUnit < format.unitOf n) :
    2 ^ (format.unitOf n + format.fractionBits) ≤ n := by
  rw [unitOf] at h ⊢
  have hlog : max format.leastUnit (n.log2 - format.fractionBits) = n.log2 - format.fractionBits := by
    omega
  have hsum : n.log2 - format.fractionBits + format.fractionBits = n.log2 := by omega
  rw [hlog, hsum]
  apply Nat.log2_self_le
  rintro rfl
  rw [Nat.log2_zero] at h
  omega

variable (format) (n : Nat)

theorem lt_pow_of_unitOf : n < 2 ^ (format.unitOf n + format.fractionBits + 1) := by
  refine Nat.lt_log2_self.trans_le (Nat.pow_le_pow_right Nat.two_pos ?_)
  rw [unitOf]
  omega

theorem roundHalfEven_unitOf :
    roundHalfEven n (2 ^ format.unitOf n) ≤ 2 ^ (format.fractionBits + 1) ∧
      (2 ^ format.fractionBits ≤ roundHalfEven n (2 ^ format.unitOf n) ∨
        format.unitOf n - format.leastUnit = 0) := by
  have hpos := Nat.two_pow_pos (format.unitOf n)
  constructor
  · apply roundHalfEven_le hpos
    rw [← Nat.pow_add, show format.fractionBits + 1 + format.unitOf n =
      format.unitOf n + format.fractionBits + 1 by omega]
    exact (format.lt_pow_of_unitOf n).le
  · rcases Nat.eq_or_lt_of_le (format.leastUnit_le_unitOf n) with heq | hlt
    · exact Or.inr (by omega)
    · refine Or.inl (le_roundHalfEven hpos ?_)
      rw [← Nat.pow_add, Nat.add_comm]
      exact pow_le_of_unitOf hlt

/-- The fields without regard to infinity. -/
def roundUnbounded : Nat :=
  roundHalfEven n (2 ^ format.unitOf n) +
    (format.unitOf n - format.leastUnit) * 2 ^ format.fractionBits

theorem decode_roundUnbounded : format.decode (format.roundUnbounded n) =
      roundHalfEven n (2 ^ format.unitOf n) * 2 ^ format.unitOf n := by
  obtain ⟨hle, hlow⟩ := format.roundHalfEven_unitOf n
  rw [roundUnbounded, decode_add hle hlow, Nat.sub_add_cancel (format.leastUnit_le_unitOf n)]

variable {format}

/-- The number is nearest, and even where another one is as near. -/
structure Nearest (format : FloatFormat) (n this other : Nat) : Prop where
  le : |(format.decode this : ℤ) - n| ≤ |(format.decode other : ℤ) - n|
  even : |(format.decode this : ℤ) - n| = |(format.decode other : ℤ) - n| → other ≠ this →
    this % 2 = 0

theorem roundUnbounded_nearest (hp : 0 < format.fractionBits) (n other : Nat) :
    format.Nearest n (format.roundUnbounded n) other := by
  have hpos := Nat.two_pow_pos (format.unitOf n)
  have hparity : format.roundUnbounded n % 2 = roundHalfEven n (2 ^ format.unitOf n) % 2 := by
    rw [roundUnbounded, show format.fractionBits = format.fractionBits - 1 + 1 by omega,
      Nat.pow_succ, ← Nat.mul_assoc, Nat.add_mul_mod_self_right]
  rcases decode_multiple_or_lt other (format.leastUnit_le_unitOf n) with ⟨m, hm⟩ | ⟨hlt, hunit⟩
  · obtain ⟨hle, heven⟩ := roundHalfEven_nearest hpos n m
    rw [← hm, ← decode_roundUnbounded] at hle heven
    refine ⟨hle, fun htie hne => ?_⟩
    rw [hparity]
    exact heven htie fun h => hne ((decode_strictMono format).injective h)
  · -- The least number of the binade is a multiple, and nearer.
    have hlow := pow_le_of_unitOf hunit
    have hnear := (roundHalfEven_nearest hpos n (2 ^ format.fractionBits)).1
    rw [← decode_roundUnbounded, ← Nat.pow_add, Nat.add_comm] at hnear
    generalize 2 ^ (format.unitOf n + format.fractionBits) = least at hlt hlow hnear
    rw [abs_of_nonpos (by omega : (least : ℤ) - n ≤ 0)] at hnear
    have hfar : |(format.decode other : ℤ) - n| = n - format.decode other := by
      rw [abs_of_nonpos (by omega)]
      ring
    refine ⟨?_, fun htie _ => ?_⟩
    · rw [hfar]
      omega
    · rw [hfar] at htie
      omega

theorem round_nearest (hp : 0 < format.fractionBits) (n : Nat) {other : Nat}
    (hother : other ≤ format.infinity) : format.Nearest n (format.round n) other := by
  have hround : format.round n = min (format.roundUnbounded n) format.infinity := rfl
  rcases le_or_gt (format.roundUnbounded n) format.infinity with hle | hgt
  · rw [hround, Nat.min_eq_left hle]
    exact roundUnbounded_nearest hp n other
  · -- What is rounded past the infinity is nearer to it than to any number.
    rw [hround, Nat.min_eq_right hgt.le]
    have hfar := (roundUnbounded_nearest hp n format.infinity).le
    have hinfinity := decode_strictMono format hgt
    have hmono : format.decode other ≤ format.decode format.infinity := decode_mono hother
    have hpast : (format.decode format.infinity : ℤ) < n := by
      rcases abs_cases ((format.decode (format.roundUnbounded n) : ℤ) - n) with
        ⟨habs, hsign⟩ | ⟨habs, hsign⟩
      · rcases abs_cases ((format.decode format.infinity : ℤ) - n) with
          ⟨habs', hsign'⟩ | ⟨habs', hsign'⟩
        · omega
        · omega
      · omega
    refine ⟨?_, fun htie hne => ?_⟩
    · rw [abs_of_nonpos (by omega), abs_of_nonpos (by omega)]
      omega
    · rw [abs_of_nonpos (by omega), abs_of_nonpos (by omega)] at htie
      exact absurd ((decode_strictMono format).injective (by omega)) hne

theorem round_decode (hp : 0 < format.fractionBits) {fields : Nat}
    (hfields : fields ≤ format.infinity) : format.round (format.decode fields) = fields := by
  have hnear := (round_nearest hp (format.decode fields) hfields).le
  rw [sub_self, abs_zero, abs_nonpos_iff, sub_eq_zero] at hnear
  exact (decode_strictMono format).injective (by exact_mod_cast hnear)

theorem decode_round_mul {m t : Nat} (hm : m < 2 ^ (format.fractionBits + 1))
    (ht : format.leastUnit ≤ t) (hlt : m * 2 ^ t < format.decode format.infinity) :
    format.decode (format.round (m * 2 ^ t)) = m * 2 ^ t ∧
      format.round (m * 2 ^ t) < format.infinity := by
  have hunit : format.unitOf (m * 2 ^ t) ≤ t := by
    have hn : m * 2 ^ t < 2 ^ (format.fractionBits + t + 1) := by
      calc
        m * 2 ^ t < 2 ^ (format.fractionBits + 1) * 2 ^ t :=
          Nat.mul_lt_mul_of_pos_right hm (Nat.two_pow_pos t)
        _ = 2 ^ (format.fractionBits + t + 1) := by
          rw [← Nat.pow_add]
          congr 1
          omega
    rw [unitOf]
    rcases Nat.eq_zero_or_pos (m * 2 ^ t) with hzero | hpos
    · rw [hzero, Nat.log2_zero]
      omega
    · have hlog := (Nat.log2_lt (Nat.pos_iff_ne_zero.mp hpos)).mpr hn
      omega
  obtain ⟨c, hc⟩ : ∃ c, m * 2 ^ t = c * 2 ^ format.unitOf (m * 2 ^ t) := by
    refine ⟨m * 2 ^ (t - format.unitOf (m * 2 ^ t)), ?_⟩
    rw [Nat.mul_assoc, ← Nat.pow_add, Nat.sub_add_cancel hunit]
  have hexact : format.decode (format.roundUnbounded (m * 2 ^ t)) = m * 2 ^ t := by
    rw [decode_roundUnbounded]
    generalize format.unitOf (m * 2 ^ t) = u at hc ⊢
    rw [hc, roundHalfEven_mul (Nat.two_pow_pos u)]
  have hbelow : format.roundUnbounded (m * 2 ^ t) < format.infinity := by
    rw [← (decode_strictMono format).lt_iff_lt, hexact]
    exact hlt
  have hround : format.round (m * 2 ^ t) = format.roundUnbounded (m * 2 ^ t) :=
    Nat.min_eq_left hbelow.le
  rw [hround]
  exact ⟨hexact, hbelow⟩

end FloatFormat

end Escargot.Foundation
