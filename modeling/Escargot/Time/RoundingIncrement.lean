/-
# Rounding to an increment

Temporal rounds 128-bit numbers of nanoseconds by truncating division. The numbers are integers
here, whose products are in range. Both routines turn out to go to the floor of the quotient or
one above it, and differ only in how a mode reads.
-/

import Mathlib.Tactic.Linarith
import Mathlib.Tactic.Ring

namespace Escargot.Runtime.Rounding

inductive RoundingMode
  | ceil | floor | expand | trunc | halfCeil | halfFloor | halfExpand | halfTrunc | halfEven
  deriving DecidableEq

inductive UnsignedRoundingMode
  | infinity | zero | halfInfinity | halfZero | halfEven
  deriving DecidableEq

def getUnsignedRoundingMode : RoundingMode → Bool → UnsignedRoundingMode
  | .ceil, isNegative => if isNegative then .zero else .infinity
  | .floor, isNegative => if isNegative then .infinity else .zero
  | .expand, _ => .infinity
  | .trunc, _ => .zero
  | .halfCeil, isNegative => if isNegative then .halfZero else .halfInfinity
  | .halfFloor, isNegative => if isNegative then .halfInfinity else .halfZero
  | .halfExpand, _ => .halfInfinity
  | .halfTrunc, _ => .halfZero
  | .halfEven, _ => .halfEven

/-- What both routines inline: `r1` or `r2`, by what is above `r1`, doubled. -/
def applyUnsignedRoundingMode (r1 r2 doubleRemainder increment : Int)
    (mode : UnsignedRoundingMode) : Int :=
  if mode = .zero then r1
  else if mode = .infinity then r2
  else if doubleRemainder < increment then r1
  else if doubleRemainder > increment then r2
  else if mode = .halfZero then r1
  else if mode = .halfInfinity then r2
  else if r1.tmod 2 = 0 then r1 else r2

variable (x increment : Int) (mode : RoundingMode)

def roundNumberToIncrement : Int :=
  let r1 := |x.tdiv increment|
  let rounded :=
    if |x| = r1 * increment then r1
    else applyUnsignedRoundingMode r1 (r1 + 1) |x.tmod increment * 2| increment
      (getUnsignedRoundingMode mode (x < 0))
  (if x < 0 then -rounded else rounded) * increment

/-- The copy of `roundNumberToIncrement` that `TemporalObject.cpp` has. -/
def roundNumberToIncrementInt128 : Int := roundNumberToIncrement x increment mode

def roundNumberToIncrementAsIfPositive : Int :=
  let quotient := x.tdiv increment
  let r1 := if x < 0 then quotient - 1 else quotient
  let r2 := if x < 0 then quotient else quotient + 1
  if quotient * increment = x then x
  else applyUnsignedRoundingMode r1 r2 ((x - r1 * increment) * 2) increment
    (getUnsignedRoundingMode mode false) * increment

def negateRoundingMode : RoundingMode → RoundingMode
  | .ceil => .floor
  | .floor => .ceil
  | .halfCeil => .halfFloor
  | .halfFloor => .halfCeil
  | mode => mode

/-- Whether a mode goes up from a floor, wherever it chooses. -/
def RoundingMode.GoesUp (floor : Int) : RoundingMode → Prop
  | ceil | halfCeil => True
  | .floor | halfFloor => False
  | expand | halfExpand => 0 ≤ floor
  | trunc | halfTrunc => floor < 0
  | halfEven => floor % 2 = 1

def RoundingMode.IsHalf (mode : RoundingMode) : Prop :=
  mode ∉ [ceil, .floor, expand, trunc]

/-- Whether a mode goes up from a floor by what is above it. -/
def RoundsUp (floor remainder : Int) : Prop :=
  0 < remainder ∧ (mode.IsHalf ∧ increment < 2 * remainder ∨
    (mode.IsHalf → 2 * remainder = increment) ∧ mode.GoesUp floor)

instance : Decidable (RoundsUp increment mode floor remainder) := by
  unfold RoundsUp RoundingMode.IsHalf
  have : Decidable (mode.GoesUp floor) := by
    cases mode <;> unfold RoundingMode.GoesUp <;> infer_instance
  infer_instance

/-- The floor of the quotient, or one above. -/
def nextMultiple : Int :=
  (x / increment + if RoundsUp increment mode (x / increment) (x % increment) then 1 else 0) *
    increment

variable {x increment mode}

/-- How `roundNumberToIncrementAsIfPositive` reads a mode. -/
def RoundingMode.asIfPositive : RoundingMode → RoundingMode
  | expand => ceil
  | trunc => .floor
  | halfExpand => halfCeil
  | halfTrunc => halfFloor
  | mode => mode

variable {floor remainder : Int}

theorem roundsUp_asIfPositive (hfloor : 0 ≤ floor) :
    RoundsUp increment mode.asIfPositive floor remainder ↔
      RoundsUp increment mode floor remainder := by
  unfold RoundsUp
  cases mode <;>
    simp [RoundingMode.asIfPositive, RoundingMode.IsHalf, RoundingMode.GoesUp, hfloor]

theorem tmod_two {n : Int} : n.tmod 2 = 0 ↔ n % 2 = 0 := by
  rw [← Int.dvd_iff_emod_eq_zero, Int.dvd_iff_tmod_eq_zero]

/-- The choice between a floor and the number above it. -/
theorem applyUnsignedRoundingMode_floor (hpos : 0 < remainder) :
    applyUnsignedRoundingMode floor (floor + 1) (remainder * 2) increment
        (getUnsignedRoundingMode mode false) =
      floor + if RoundsUp increment mode.asIfPositive floor remainder then 1 else 0 := by
  unfold applyUnsignedRoundingMode RoundsUp
  cases mode <;> simp [getUnsignedRoundingMode, RoundingMode.asIfPositive, RoundingMode.IsHalf,
    RoundingMode.GoesUp, tmod_two, hpos] <;> split_ifs <;> omega

/-- The same choice of magnitudes, of a negative number. -/
theorem neg_applyUnsignedRoundingMode (hpos : 0 < remainder) (hfloor : floor < 0) :
    -applyUnsignedRoundingMode (-(floor + 1)) (-(floor + 1) + 1) ((increment - remainder) * 2)
        increment (getUnsignedRoundingMode mode true) =
      floor + if RoundsUp increment mode floor remainder then 1 else 0 := by
  unfold applyUnsignedRoundingMode RoundsUp
  cases mode <;> simp [getUnsignedRoundingMode, RoundingMode.IsHalf, RoundingMode.GoesUp,
    tmod_two, hpos, hfloor] <;> split_ifs <;> omega

/-- Truncation is one above the floor, below zero, where something is above the floor. -/
theorem truncated (h : 0 < increment) :
    x.tdiv increment = x / increment + (if x < 0 ∧ 0 < x % increment then 1 else 0) ∧
      x.tmod increment = x % increment - (if x < 0 ∧ 0 < x % increment then increment else 0) := by
  have hnonneg := Int.emod_nonneg x h.ne'
  have hdvd : increment ∣ x ↔ x % increment = 0 := Int.dvd_iff_emod_eq_zero
  rw [Int.tdiv_eq_ediv, Int.tmod_eq_emod, Int.sign_eq_one_of_pos h]
  simp only [hdvd]
  split_ifs <;> omega

theorem nextMultiple_of_not_pos (hx : x / increment * increment + x % increment = x)
    (hnonneg : 0 ≤ x % increment) (hpos : ¬0 < x % increment) :
    nextMultiple x increment mode = x := by
  rw [nextMultiple, if_neg fun hup => hpos hup.1, add_zero]
  omega

theorem roundNumberToIncrement_eq (h : 0 < increment) :
    roundNumberToIncrement x increment mode = nextMultiple x increment mode := by
  obtain ⟨htdiv, htmod⟩ := truncated (x := x) h
  have hnonneg := Int.emod_nonneg x h.ne'
  have hlt := Int.emod_lt_of_pos x h
  have hx := Int.ediv_mul_add_emod x increment
  unfold roundNumberToIncrement nextMultiple
  refine congrArg (· * increment) ?_
  by_cases hneg : x < 0
  · have hfloor : x / increment < 0 := Int.ediv_neg_of_neg_of_pos hneg h
    by_cases hpos : 0 < x % increment
    · rw [if_pos ⟨hneg, hpos⟩] at htdiv htmod
      have habs : |x / increment + 1| = -(x / increment + 1) := abs_of_nonpos (by omega)
      have hmore : -x ≠ -(x / increment + 1) * increment := by
        intro heq
        linarith
      have hrest : |(x % increment - increment) * 2| = (increment - x % increment) * 2 := by
        rw [abs_of_nonpos (by omega)]
        ring
      rw [htdiv, htmod, abs_of_neg hneg, if_pos hneg, habs, if_neg hmore, hrest,
        decide_eq_true hneg, neg_applyUnsignedRoundingMode hpos hfloor]
    · rw [if_neg fun hboth => hpos hboth.2, add_zero] at htdiv
      rw [htdiv, abs_of_neg hneg, abs_of_neg hfloor, if_pos hneg, if_pos (by linarith),
        if_neg fun hup => hpos hup.1, neg_neg, add_zero]
  · have hfloor : 0 ≤ x / increment := Int.ediv_nonneg (not_lt.mp hneg) h.le
    rw [if_neg fun hboth => hneg hboth.1] at htdiv htmod
    rw [add_zero] at htdiv
    rw [sub_zero] at htmod
    rw [htdiv, htmod, if_neg hneg, abs_of_nonneg hfloor, abs_of_nonneg (not_lt.mp hneg)]
    by_cases hpos : 0 < x % increment
    · rw [if_neg (by linarith), abs_of_nonneg (by omega), decide_eq_false hneg,
        applyUnsignedRoundingMode_floor hpos]
      simp only [roundsUp_asIfPositive hfloor]
    · rw [if_pos (by linarith), if_neg fun hup => hpos hup.1, add_zero]

theorem roundNumberToIncrementAsIfPositive_eq (h : 0 < increment) :
    roundNumberToIncrementAsIfPositive x increment mode =
      nextMultiple x increment mode.asIfPositive := by
  obtain ⟨htdiv, -⟩ := truncated (x := x) h
  have hnonneg := Int.emod_nonneg x h.ne'
  have hlt := Int.emod_lt_of_pos x h
  have hx := Int.ediv_mul_add_emod x increment
  unfold roundNumberToIncrementAsIfPositive
  dsimp only
  by_cases hpos : 0 < x % increment
  · have hr1 : (if x < 0 then x.tdiv increment - 1 else x.tdiv increment) = x / increment := by
      rw [htdiv]
      split_ifs <;> omega
    have hr2 : (if x < 0 then x.tdiv increment else x.tdiv increment + 1) =
        x / increment + 1 := by
      rw [htdiv]
      split_ifs <;> omega
    have hrest : x - x / increment * increment = x % increment := by omega
    have hmore : x.tdiv increment * increment ≠ x := by
      rw [htdiv]
      split_ifs
      · rw [add_mul]
        omega
      · rw [add_zero]
        omega
    rw [if_neg hmore, hr1, hr2, hrest, applyUnsignedRoundingMode_floor hpos, nextMultiple]
  · rw [if_neg fun hboth => hpos hboth.2, add_zero] at htdiv
    rw [htdiv, if_pos (by omega), nextMultiple_of_not_pos hx hnonneg hpos]

/-- On which side of a number a mode stays wherever it chooses. -/
def RoundingMode.OnSide (x increment rounded : Int) : RoundingMode → Prop
  | ceil | halfCeil => x ≤ rounded
  | .floor | halfFloor => rounded ≤ x
  | expand | halfExpand => |x| ≤ |rounded|
  | trunc | halfTrunc => |rounded| ≤ |x|
  | halfEven => rounded / increment % 2 = 0

/-- A multiple less than an increment away: the one nearer than all others where a mode asks for
that, or the one on its side, in a tie if it asks for the nearest. -/
structure IsRounded (x increment : Int) (mode : RoundingMode) (rounded : Int) : Prop where
  multiple : increment ∣ rounded
  close : |x - rounded| < increment
  chosen : mode.IsHalf ∧ 2 * |x - rounded| < increment ∨
    (mode.IsHalf → 2 * |x - rounded| = increment) ∧ mode.OnSide x increment rounded

/-- Above zero the neighbours of a number are not below zero, and below it not above. -/
theorem neighbours_sign (h : 0 < increment) :
    (0 ≤ x / increment → 0 ≤ x ∧ 0 ≤ x / increment * increment) ∧
      (x / increment < 0 → x < 0 ∧ (x / increment + 1) * increment ≤ 0) := by
  have hx := Int.ediv_mul_add_emod x increment
  have hnonneg := Int.emod_nonneg x h.ne'
  have hlt := Int.emod_lt_of_pos x h
  refine ⟨fun hfloor => ?_, fun hfloor => ?_⟩
  · have hlower := Int.mul_nonneg hfloor h.le
    omega
  · have hupper := Int.mul_nonneg (show 0 ≤ -(x / increment + 1) by omega) h.le
    rw [neg_mul, add_mul, one_mul] at hupper
    rw [add_mul, one_mul]
    omega

theorem onSide_above {rounded : Int} (h : 0 < increment) (hx : x ≤ rounded)
    (hrounded : rounded = (x / increment + 1) * increment) (hup : mode.GoesUp (x / increment)) :
    mode.OnSide x increment rounded := by
  obtain ⟨habove, hbelow⟩ := neighbours_sign (x := x) h
  have heven : rounded / increment = x / increment + 1 := by
    rw [hrounded, Int.mul_ediv_cancel _ h.ne']
  cases mode with
  | ceil | halfCeil => exact hx
  | floor | halfFloor => exact hup.elim
  | expand | halfExpand => exact abs_le_abs_of_nonneg (habove hup).1 hx
  | trunc | halfTrunc => exact abs_le_abs_of_nonpos (hrounded ▸ (hbelow hup).2) hx
  | halfEven =>
    change x / increment % 2 = 1 at hup
    change rounded / increment % 2 = 0
    omega

theorem onSide_below {rounded : Int} (h : 0 < increment) (hx : rounded ≤ x)
    (hrounded : rounded = x / increment * increment) (hup : ¬mode.GoesUp (x / increment)) :
    mode.OnSide x increment rounded := by
  obtain ⟨habove, hbelow⟩ := neighbours_sign (x := x) h
  have heven : rounded / increment = x / increment := by
    rw [hrounded, Int.mul_ediv_cancel _ h.ne']
  cases mode with
  | ceil | halfCeil => exact absurd trivial hup
  | floor | halfFloor => exact hx
  | expand | halfExpand =>
    exact abs_le_abs_of_nonpos (hbelow (not_le.mp hup)).1.le hx
  | trunc | halfTrunc =>
    exact abs_le_abs_of_nonneg (hrounded ▸ (habove (not_lt.mp hup)).2) hx
  | halfEven =>
    change ¬x / increment % 2 = 1 at hup
    change rounded / increment % 2 = 0
    omega

theorem onSide_self (hhalf : ¬mode.IsHalf) : mode.OnSide x increment x := by
  cases mode <;> simp [RoundingMode.IsHalf, RoundingMode.OnSide] at *

theorem isRounded_nextMultiple (h : 0 < increment) :
    IsRounded x increment mode (nextMultiple x increment mode) := by
  have hx := Int.ediv_mul_add_emod x increment
  have hnonneg := Int.emod_nonneg x h.ne'
  have hlt := Int.emod_lt_of_pos x h
  have hdvd : increment ∣ nextMultiple x increment mode := dvd_mul_left _ _
  by_cases hup : RoundsUp increment mode (x / increment) (x % increment)
  · have hrounded : nextMultiple x increment mode = (x / increment + 1) * increment := by
      rw [nextMultiple, if_pos hup]
    generalize nextMultiple x increment mode = rounded at *
    have hupper : rounded = x - x % increment + increment := by
      rw [hrounded, add_mul]
      omega
    have hdist : |x - rounded| = increment - x % increment := by
      rw [abs_of_neg (by omega)]
      omega
    have hpos := hup.1
    have hside : _ → mode.OnSide x increment rounded := onSide_above h (by omega) hrounded
    refine ⟨hdvd, by omega, hup.2.imp (fun ⟨hhalf, hmore⟩ => ⟨hhalf, by omega⟩) fun h => ?_⟩
    refine ⟨fun hhalf => ?_, hside h.2⟩
    have htie := h.1 hhalf
    omega
  · have hrounded : nextMultiple x increment mode = x / increment * increment := by
      rw [nextMultiple, if_neg hup, add_zero]
    generalize nextMultiple x increment mode = rounded at *
    have hdist : |x - rounded| = x % increment := by
      rw [abs_of_nonneg (by omega)]
      omega
    have hside : _ → mode.OnSide x increment rounded := onSide_below h (by omega) hrounded
    refine ⟨hdvd, by omega, or_iff_not_imp_left.mpr fun hfar => ?_⟩
    by_cases hpos : 0 < x % increment
    · have hnot := not_or.mp (not_and.mp hup hpos)
      have htie : mode.IsHalf → 2 * (x % increment) = increment := by
        intro hhalf
        have hmore := not_and.mp hnot.1 hhalf
        have hless := not_and.mp hfar hhalf
        omega
      exact ⟨hdist ▸ htie, hside fun hgoes => hnot.2 ⟨htie, hgoes⟩⟩
    · have hhalf : ¬mode.IsHalf := fun hhalf => hfar ⟨hhalf, by omega⟩
      obtain rfl : rounded = x := by omega
      exact ⟨fun h => absurd h hhalf, onSide_self hhalf⟩

theorem nextMultiple_mono (h : 0 < increment) {y : Int} (hxy : x ≤ y) :
    nextMultiple x increment mode ≤ nextMultiple y increment mode := by
  refine Int.mul_le_mul_of_nonneg_right ?_ h.le
  have hfloor : x / increment ≤ y / increment := Int.ediv_le_ediv h hxy
  by_cases heq : x / increment = y / increment
  · rw [heq]
    have hx := Int.ediv_mul_add_emod x increment
    have hy := Int.ediv_mul_add_emod y increment
    rw [heq] at hx
    have hmono : RoundsUp increment mode (y / increment) (x % increment) →
        RoundsUp increment mode (y / increment) (y % increment) := by
      rintro ⟨hpos, ⟨hhalf, hmore⟩ | ⟨htie, hgoes⟩⟩
      · exact ⟨by omega, .inl ⟨hhalf, by omega⟩⟩
      · refine ⟨by omega, ?_⟩
        by_cases hmore : mode.IsHalf ∧ increment < 2 * (y % increment)
        · exact .inl hmore
        · refine .inr ⟨fun hhalf => ?_, hgoes⟩
          have htie := htie hhalf
          have hless := mt (And.intro hhalf) hmore
          omega
    split_ifs <;> grind
  · split_ifs <;> omega

theorem getUnsignedRoundingMode_negate (isNegative : Bool) :
    getUnsignedRoundingMode (negateRoundingMode mode) (!isNegative) =
      getUnsignedRoundingMode mode isNegative := by
  cases mode <;> cases isNegative <;> rfl

theorem roundNumberToIncrement_neg :
    roundNumberToIncrement (-x) increment (negateRoundingMode mode) =
      -roundNumberToIncrement x increment mode := by
  by_cases hzero : x = 0
  · subst hzero
    rw [neg_zero]
    simp [roundNumberToIncrement]
  · have hsign : decide (-x < 0) = !decide (x < 0) := by
      rw [← decide_not]
      exact decide_eq_decide.mpr (by omega)
    unfold roundNumberToIncrement
    rw [Int.neg_tdiv, Int.neg_tmod, abs_neg, abs_neg, neg_mul, abs_neg, hsign,
      getUnsignedRoundingMode_negate, ← neg_mul]
    refine congrArg (· * increment) ?_
    split_ifs <;> grind

/-- What rounding to an increment comes to. -/
structure RoundsToIncrement (increment : Int) : Prop where
  rounded : ∀ x mode, IsRounded x increment mode (roundNumberToIncrement x increment mode)
  exact : ∀ x mode, increment ∣ x → roundNumberToIncrement x increment mode = x
  monotone : ∀ x y mode, x ≤ y →
    roundNumberToIncrement x increment mode ≤ roundNumberToIncrement y increment mode
  asIfPositive : ∀ x mode, roundNumberToIncrementAsIfPositive x increment mode =
    roundNumberToIncrement x increment mode.asIfPositive
  nonneg : ∀ x mode, 0 ≤ x → roundNumberToIncrementAsIfPositive x increment mode =
    roundNumberToIncrement x increment mode
  negated : ∀ x mode, roundNumberToIncrement (-x) increment (negateRoundingMode mode) =
    -roundNumberToIncrement x increment mode

/-- Every mode rounds to a multiple. -/
theorem roundsToIncrement (h : 0 < increment) : RoundsToIncrement increment where
  rounded _ _ := roundNumberToIncrement_eq h ▸ isRounded_nextMultiple h
  exact x mode hdvd := by
    have hrest := Int.emod_eq_zero_of_dvd hdvd
    rw [roundNumberToIncrement_eq h, nextMultiple, if_neg fun hup => by have := hup.1; omega,
      add_zero, Int.ediv_mul_cancel hdvd]
  monotone x y mode hxy := by
    rw [roundNumberToIncrement_eq h, roundNumberToIncrement_eq h]
    exact nextMultiple_mono h hxy
  asIfPositive x mode := by
    rw [roundNumberToIncrementAsIfPositive_eq h, roundNumberToIncrement_eq h]
  nonneg x mode hx := by
    rw [roundNumberToIncrementAsIfPositive_eq h, roundNumberToIncrement_eq h, nextMultiple,
      nextMultiple]
    simp only [roundsUp_asIfPositive (Int.ediv_nonneg hx h.le)]
  negated _ _ := roundNumberToIncrement_neg

theorem roundsToIncrement_ten : RoundsToIncrement 10 := roundsToIncrement (by decide)

theorem asIfPositive_halfExpand : roundNumberToIncrementAsIfPositive (-5) 10 .halfExpand = 0 ∧
    roundNumberToIncrement (-5) 10 .halfExpand = -10 := by decide

end Escargot.Runtime.Rounding
