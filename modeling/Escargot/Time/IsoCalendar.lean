/-
# The civil calendar of Temporal

Temporal counts days with its own leap year rules, finds the year of a day by an estimate
with one correction, and takes the date of an instant from the Date object. Numbers of days
are integers that doubles hold; the quotient by `365.2425` is exact here.
-/

import Escargot.Time.DateFields

namespace Escargot.Runtime.IsoCalendar

open DateObject

def isLeapYear (year : Int) : Bool :=
  if year.tmod 4 ≠ 0 then false
  else if year.tmod 400 = 0 then true
  else if year.tmod 100 = 0 then false
  else true

def daysInMonths (leap : Bool) : List Int :=
  if leap then [31, 29, 31, 30, 31, 30, 31, 31, 30, 31, 30, 31]
  else [31, 28, 31, 30, 31, 30, 31, 31, 30, 31, 30, 31]

/-- `ISO8601::daysInMonth`; without a year, the year is a leap year. -/
def daysInMonth (leap : Bool) (month : Nat) : Int := (daysInMonths leap).getD (month - 1) 0

def daysFrom1970ToYear (year : Int) : Int :=
  365 * (year - 1970) + ((year - 1) / 4 - 1970 / 4) - ((year - 1) / 100 - 1970 / 100) +
    ((year - 1) / 400 - 1970 / 400)

def dayInYear (year : Int) (month : Nat) (day : Int) : Int :=
  (if isLeapYear year then [0, 31, 60, 91, 121, 152, 182, 213, 244, 274, 305, 335]
    else [0, 31, 59, 90, 120, 151, 181, 212, 243, 273, 304, 334]).getD month 0 + day - 1

def dateToDaysFrom1970 (year month day : Int) : Int :=
  let year := year + month.tdiv 12
  let month := month.tmod 12
  let year := if month < 0 then year - 1 else year
  let month := if month < 0 then month + 12 else month
  daysFrom1970ToYear year + dayInYear year month.toNat day

def isYearWithinLimits (year : Int) : Bool := -271821 ≤ year && year ≤ 275760

def daysInYear (year : Int) : Int := 365 + if isLeapYear year then 1 else 0

structure PlainDate where
  year : Int
  month : Int
  day : Int

def monthLoop (year dayInYear : Int) : Nat → Nat → Int → Nat × Int
  | 0, balancedMonth, daysUntilMonth => (balancedMonth, daysUntilMonth)
  | rounds + 1, balancedMonth, daysUntilMonth =>
    let monthDays := daysInMonth (if balancedMonth ≠ 2 then true else isLeapYear year) balancedMonth
    if dayInYear ≤ daysUntilMonth + monthDays then (balancedMonth, daysUntilMonth)
    else monthLoop year dayInYear rounds (balancedMonth + 1) (daysUntilMonth + monthDays)

/-- The estimated year of a day, corrected once, and the days until it. -/
def balancedYear (daysFrom1970 estimate : Int) : Int × Int :=
  let daysUntilYear := daysFrom1970ToYear estimate
  if daysFrom1970 < daysUntilYear then
    (estimate - 1, daysUntilYear - daysInYear (estimate - 1))
  else
    let daysUntilFollowingYear := daysUntilYear + daysInYear estimate
    if daysUntilFollowingYear ≤ daysFrom1970 then (estimate + 1, daysUntilFollowingYear)
    else (estimate, daysUntilYear)

/-- `Temporal::balanceISODate`; nothing is the RangeError. -/
def balanceISODate (year month day : Int) (allowOutOfRange : Bool) : Option PlainDate :=
  if !allowOutOfRange && !isYearWithinLimits year then none
  else
    let daysFrom1970 := day + dateToDaysFrom1970 year (month - 1) 1 - 1
    let estimate := daysFrom1970 * 10000 / 3652425 + 1970
    if !allowOutOfRange && !isYearWithinLimits estimate then none
    else
      let (year, daysUntilYear) := balancedYear daysFrom1970 estimate
      let dayInYear := daysFrom1970 - daysUntilYear + 1
      let (month, daysUntilMonth) := monthLoop year dayInYear 11 1 0
      some ⟨year, month, dayInYear - daysUntilMonth⟩

structure PlainTime where
  hour : Int
  minute : Int
  second : Int
  millisecond : Int
  microsecond : Int
  nanosecond : Int

@[ext]
structure PlainDateTime where
  plainDate : PlainDate
  plainTime : PlainTime

def nsPerDay : Int := 86400000000000

def fromISOPartsAndOffset (date : PlainDate) (time : PlainTime) (offset : Int) : Int :=
  dateToDaysFrom1970 date.year (date.month - 1) date.day * nsPerDay +
    time.hour * 3600000000000 + time.minute * 60000000000 + time.second * 1000000000 +
    time.millisecond * 1000000 + time.microsecond * 1000 + time.nanosecond - offset

def fromPlainDateTime (src : PlainDateTime) : Int :=
  fromISOPartsAndOffset src.plainDate src.plainTime 0

def isoDateTimeWithinLimits (nanoseconds : Int) : Bool :=
  -8640000000000000000000 - nsPerDay < nanoseconds &&
    nanoseconds < 8640000000000000000000 + nsPerDay

variable (epochNanoseconds : Int)

def floorEpochMilliseconds : Int :=
  let div := epochNanoseconds.tdiv 1000000
  if epochNanoseconds.tmod 1000000 ≠ 0 ∧ epochNanoseconds < 0 then div - 1 else div

def nonNegativeModulo (x y : Int) : Int :=
  let result := x.tmod y
  if result = 0 then 0 else if result < 0 then result + y else result

def intFloor (x y : Int) : Int :=
  if 0 < x then x.tdiv y else if x.tmod y ≠ 0 then x.tdiv y - 1 else x.tdiv y

/-- `Temporal::balanceTime` of 128-bit integers: the days and the time. -/
def balanceTime (hour minute second millisecond microsecond nanosecond : Int) : Int × PlainTime :=
  let microsecond := microsecond + intFloor nanosecond 1000
  let millisecond := millisecond + intFloor microsecond 1000
  let second := second + intFloor millisecond 1000
  let minute := minute + intFloor second 60
  let hour := hour + intFloor minute 60
  (intFloor hour 24,
    { hour := nonNegativeModulo hour 24
      minute := nonNegativeModulo minute 60
      second := nonNegativeModulo second 60
      millisecond := nonNegativeModulo millisecond 1000
      microsecond := nonNegativeModulo microsecond 1000
      nanosecond := nonNegativeModulo nanosecond 1000 })

def toPlainDateTime : PlainDateTime :=
  let timeInfo := computeTimeInfoFromEpoch (floorEpochMilliseconds epochNanoseconds) 0 0
  ⟨⟨timeInfo.year, timeInfo.month + 1, timeInfo.mday⟩,
    (balanceTime 0 0 0 0 0 (epochNanoseconds.tmod nsPerDay)).2⟩

variable {year : Int}

theorem isLeapYear_eq (year : Int) : isLeapYear year = decide (IsLeapYear year) := by
  simp only [isLeapYear, IsLeapYear, ne_eq, ← Int.dvd_iff_tmod_eq_zero]
  split_ifs <;> simp_all

theorem daysFrom1970ToYear_eq (year : Int) : daysFrom1970ToYear year = daysFromYear year := by
  rw [daysFrom1970ToYear, daysFromYear]
  omega

theorem daysFromYear_add_daysInYear (year : Int) :
    daysFromYear year + daysInYear year = daysFromYear (year + 1) := by
  rw [daysFromYear_succ, daysInYear, isLeapYear_eq]
  by_cases hleap : IsLeapYear year <;> simp [hleap]

theorem daysInMonth_eq (year : Int) {month : Nat} (hmonth : month < 12) :
    daysInMonth (if month + 1 ≠ 2 then true else isLeapYear year) (month + 1) =
      monthLength year month := by
  rw [isLeapYear_eq]
  by_cases hleap : IsLeapYear year
  · interval_cases month <;> simp [daysInMonth, daysInMonths, monthLength, hleap]
  · interval_cases month <;> simp [daysInMonth, daysInMonths, monthLength, hleap]

theorem dateToDaysFrom1970_eq (year day : Int) {month : Nat} (hmonth : month < 12) :
    dateToDaysFrom1970 year month day = dayNumber year month day := by
  have hdays : dayInYear year month day = daysBeforeMonth year month + (day - 1) := by
    rw [dayInYear, isLeapYear_eq]
    by_cases hleap : IsLeapYear year
    · interval_cases month <;> simp [hleap, daysBeforeMonth, monthLength] <;> omega
    · interval_cases month <;> simp [hleap, daysBeforeMonth, monthLength] <;> omega
  have hdiv : (month : Int).tdiv 12 = 0 := Int.tdiv_eq_zero_of_lt (by omega) (by omega)
  have hmod : (month : Int).tmod 12 = month := Int.tmod_eq_of_lt (by omega) (by omega)
  simp only [dateToDaysFrom1970, hdiv, hmod, show ¬(month : Int) < 0 by omega, if_false, add_zero,
    Int.toNat_natCast, hdays, daysFrom1970ToYear_eq, dayNumber]
  omega

/-- The estimate is at most a year off, and the correction finds the year of the day. -/
theorem balancedYear_spec (day : Int) : let found := balancedYear day (day * 10000 / 3652425 + 1970)
    found.2 = daysFromYear found.1 ∧ daysFromYear found.1 ≤ day ∧
      day < daysFromYear (found.1 + 1) := by
  have hlow : daysFromYear (day * 10000 / 3652425 + 1970 - 1) ≤ day := by
    rw [daysFromYear]
    omega
  have hhigh : day < daysFromYear (day * 10000 / 3652425 + 1970 + 1 + 1) := by
    rw [daysFromYear]
    omega
  generalize day * 10000 / 3652425 + 1970 = estimate at *
  have hbefore := daysFromYear_add_daysInYear (estimate - 1)
  rw [sub_add_cancel] at hbefore
  simp only [balancedYear, daysFrom1970ToYear_eq, daysFromYear_add_daysInYear]
  split_ifs with hless hmore
  · refine ⟨?_, hlow, by rwa [sub_add_cancel]⟩
    dsimp only
    omega
  · exact ⟨rfl, hmore, hhigh⟩
  · exact ⟨rfl, not_lt.mp hless, not_le.mp hmore⟩

theorem monthLoop_spec {dayInYear : Int} : ∀ (rounds month : Nat), month + rounds = 11 →
    daysBeforeMonth year month < dayInYear → dayInYear ≤ daysBeforeMonth year 12 →
    ∃ found < 12, monthLoop year dayInYear rounds (month + 1) (daysBeforeMonth year month) =
      (found + 1, daysBeforeMonth year found) ∧ daysBeforeMonth year found < dayInYear ∧
        dayInYear ≤ daysBeforeMonth year (found + 1) := by
  intro rounds
  induction rounds with
  | zero =>
    intro month hmonth hlow hhigh
    obtain rfl : month = 11 := hmonth
    exact ⟨11, by decide, rfl, hlow, hhigh⟩
  | succ rounds ih =>
    intro month hmonth hlow hhigh
    simp only [monthLoop, daysInMonth_eq year (show month < 12 by omega)]
    split_ifs with hfound
    · exact ⟨month, by omega, rfl, hlow, hfound⟩
    · exact ih (month + 1) (by omega) (not_le.mp hfound) hhigh

/-- A day of the proleptic Gregorian calendar. -/
structure PlainDate.IsCivil (date : PlainDate) : Prop where
  month : 1 ≤ date.month ∧ date.month ≤ 12
  day : 1 ≤ date.day ∧ date.day ≤ monthLength date.year (date.month - 1)

def PlainDate.dayNumber (date : PlainDate) : Int :=
  DateObject.dayNumber date.year (date.month - 1) date.day

theorem PlainDate.IsCivil.unique {date other : PlainDate} (hdate : date.IsCivil)
    (hother : other.IsCivil) (hday : other.dayNumber = date.dayNumber) : other = date := by
  obtain ⟨year, month, day⟩ := date
  obtain ⟨year', month', day'⟩ := other
  obtain ⟨hmonth, hdate⟩ := hdate
  obtain ⟨hmonth', hother⟩ := hother
  dsimp only at hmonth hmonth' hdate hother
  obtain ⟨index, hindex⟩ := Int.eq_ofNat_of_zero_le (show 0 ≤ month - 1 by omega)
  obtain ⟨index', hindex'⟩ := Int.eq_ofNat_of_zero_le (show 0 ≤ month' - 1 by omega)
  simp only [PlainDate.dayNumber, hindex, hindex'] at hdate hother hday
  obtain ⟨rfl, rfl, rfl⟩ := dayNumber_injective (by omega) hdate.1 hdate.2 (by omega) hother.1
    hother.2 hday
  rw [show month' = month by omega]

/-- The day that `balanceISODate` counts to. -/
def targetDay (year month day : Int) : Int := dateToDaysFrom1970 year (month - 1) 1 + day - 1

/-- `isoDateTimeWithinLimits` of the date of a day, at noon. -/
def isDayWithinLimits (day : Int) : Bool :=
  isoDateTimeWithinLimits (day * nsPerDay + 43200000000000)

theorem isDayWithinLimits_iff (day : Int) :
    isDayWithinLimits day = true ↔ -100000001 ≤ day ∧ day ≤ 100000000 := by
  rw [isDayWithinLimits, isoDateTimeWithinLimits, Bool.and_eq_true, decide_eq_true_eq,
    decide_eq_true_eq, nsPerDay]
  omega

theorem balanceISODate_spec {month day : Int} (hyear : isYearWithinLimits year = true)
    (hlimits : isDayWithinLimits (targetDay year month day) = true) (allowOutOfRange : Bool) :
    ∃ date, balanceISODate year month day allowOutOfRange = some date ∧ date.IsCivil ∧
      date.dayNumber = targetDay year month day := by
  have hday : day + dateToDaysFrom1970 year (month - 1) 1 - 1 = targetDay year month day := by
    rw [targetDay]
    omega
  obtain ⟨hleast, hgreatest⟩ := (isDayWithinLimits_iff _).mp hlimits
  simp only [balanceISODate, hday]
  generalize targetDay year month day = target at *
  have hestimate : isYearWithinLimits (target * 10000 / 3652425 + 1970) = true := by
    rw [isYearWithinLimits, Bool.and_eq_true, decide_eq_true_eq, decide_eq_true_eq]
    omega
  obtain ⟨hfirst, hlow, hhigh⟩ := balancedYear_spec target
  simp only [hyear, hestimate, Bool.not_true, Bool.and_false, Bool.false_eq_true, if_false]
  generalize balancedYear target (target * 10000 / 3652425 + 1970) = found at *
  obtain ⟨year, first⟩ := found
  dsimp only at *
  subst hfirst
  obtain ⟨month, hmonth, hloop, hbefore, hafter⟩ := monthLoop_spec 11 0 rfl
    (show daysBeforeMonth year 0 < target - daysFromYear year + 1 by rw [daysBeforeMonth]; omega)
    (by rw [daysBeforeMonth_twelve]; omega)
  rw [daysBeforeMonth, zero_add] at hloop
  rw [daysBeforeMonth] at hafter
  rw [hloop]
  refine ⟨_, rfl, ⟨⟨by dsimp only; omega, by dsimp only; omega⟩, ?_, ?_⟩, ?_⟩
  · dsimp only
    omega
  · dsimp only
    rw [Nat.cast_succ, add_sub_cancel_right]
    omega
  · rw [PlainDate.dayNumber, Nat.cast_succ, add_sub_cancel_right, DateObject.dayNumber,
      Int.toNat_natCast]
    dsimp only
    omega

structure PlainTime.IsTime (time : PlainTime) : Prop where
  hour : 0 ≤ time.hour ∧ time.hour < 24
  minute : 0 ≤ time.minute ∧ time.minute < 60
  second : 0 ≤ time.second ∧ time.second < 60
  millisecond : 0 ≤ time.millisecond ∧ time.millisecond < 1000
  microsecond : 0 ≤ time.microsecond ∧ time.microsecond < 1000
  nanosecond : 0 ≤ time.nanosecond ∧ time.nanosecond < 1000

variable (x : Int) {y : Int}

/-- Towards zero and one less where that is above the quotient. -/
theorem tdiv_floor (hy : 0 < y) : x.tdiv y - (if x.tmod y ≠ 0 ∧ x < 0 then 1 else 0) = x / y := by
  have hhigh := Int.emod_lt_of_pos x hy
  rw [Int.tdiv_eq_ediv, Int.tmod_eq_emod]
  by_cases hexact : 0 ≤ x ∨ y ∣ x
  · have hzero : ¬(x % y - 0 ≠ 0 ∧ x < 0) := by
      rintro ⟨hmod, hneg⟩
      exact hmod (by rw [Int.emod_eq_zero_of_dvd (hexact.resolve_left (not_le.mpr hneg)), sub_zero])
    rw [if_pos hexact, if_pos hexact, if_neg (by exact_mod_cast hzero), add_zero, sub_zero]
  · obtain ⟨hneg, -⟩ := not_or.mp hexact
    rw [if_neg hexact, if_neg hexact, if_pos ⟨by omega, not_le.mp hneg⟩, Int.sign_eq_one_of_pos hy,
      add_sub_cancel_right]

theorem intFloor_eq (hy : 0 < y) : intFloor x y = x / y := by
  rw [intFloor, ← tdiv_floor x hy]
  rcases lt_trichotomy x 0 with hneg | rfl | hpos
  · rw [if_neg (by omega)]
    split_ifs <;> simp_all
  · simp
  · rw [if_pos hpos, if_neg fun h => (h.2.trans hpos).false, sub_zero]

theorem nonNegativeModulo_eq (hy : 0 < y) : nonNegativeModulo x y = x % y := by
  have hlow := Int.emod_nonneg x hy.ne'
  have hhigh := Int.emod_lt_of_pos x hy
  rw [nonNegativeModulo, Int.tmod_eq_emod]
  by_cases hdvd : 0 ≤ x ∨ y ∣ x
  · simp only [if_pos hdvd]
    split_ifs <;> omega
  · have hne : x % y ≠ 0 := fun h => hdvd (.inr (Int.dvd_of_emod_eq_zero h))
    split_ifs <;> omega

theorem floorEpochMilliseconds_eq (t : Int) : floorEpochMilliseconds t = t / 1000000 := by
  rw [floorEpochMilliseconds, ← tdiv_floor t (by decide)]
  split_ifs <;> simp

def PlainTime.nanoseconds (time : PlainTime) : Int :=
  time.hour * 3600000000000 + time.minute * 60000000000 + time.second * 1000000000 +
    time.millisecond * 1000000 + time.microsecond * 1000 + time.nanosecond

theorem PlainTime.IsTime.bounds {time : PlainTime} (h : time.IsTime) :
    0 ≤ time.nanoseconds ∧ time.nanoseconds < nsPerDay := by
  obtain ⟨hhour, hminute, hsecond, hmillisecond, hmicrosecond, hnanosecond⟩ := h
  rw [PlainTime.nanoseconds, nsPerDay]
  omega

theorem PlainTime.IsTime.unique {time other : PlainTime} (htime : time.IsTime)
    (hother : other.IsTime) (h : other.nanoseconds = time.nanoseconds) : other = time := by
  obtain ⟨hour, minute, second, millisecond, microsecond, nanosecond⟩ := time
  obtain ⟨hour', minute', second', millisecond', microsecond', nanosecond'⟩ := other
  obtain ⟨h1, h2, h3, h4, h5, h6⟩ := htime
  obtain ⟨h1', h2', h3', h4', h5', h6'⟩ := hother
  simp only [PlainTime.nanoseconds, PlainTime.mk.injEq] at *
  omega

theorem balanceTime_spec : (balanceTime 0 0 0 0 0 x).2.IsTime ∧
    (balanceTime 0 0 0 0 0 x).2.nanoseconds = x % nsPerDay := by
  have hthousand : (0 : Int) < 1000 := by decide
  have hsixty : (0 : Int) < 60 := by decide
  simp only [balanceTime, intFloor_eq _ hthousand, intFloor_eq _ hsixty, zero_add,
    nonNegativeModulo_eq _ hthousand, nonNegativeModulo_eq _ hsixty,
    nonNegativeModulo_eq _ (show (0 : Int) < 24 by decide)]
  refine ⟨⟨?_, ?_, ?_, ?_, ?_, ?_⟩, ?_⟩
  all_goals
    simp only [PlainTime.nanoseconds, nsPerDay]
    omega

theorem fromPlainDateTime_eq {src : PlainDateTime} (hdate : src.plainDate.IsCivil) :
    fromPlainDateTime src = src.plainDate.dayNumber * nsPerDay + src.plainTime.nanoseconds := by
  obtain ⟨hlow, hhigh⟩ := hdate.month
  obtain ⟨month, hmonth⟩ := Int.eq_ofNat_of_zero_le (show 0 ≤ src.plainDate.month - 1 by omega)
  rw [fromPlainDateTime, fromISOPartsAndOffset, PlainDate.dayNumber, PlainTime.nanoseconds, hmonth,
    dateToDaysFrom1970_eq _ _ (by omega)]
  ring

structure PlainDateTime.IsValid (src : PlainDateTime) : Prop where
  date : src.plainDate.IsCivil
  time : src.plainTime.IsTime

theorem toPlainDateTime_spec {t : Int} (ht : isoDateTimeWithinLimits t = true) :
    (toPlainDateTime t).IsValid ∧ fromPlainDateTime (toPlainDateTime t) = t := by
  rw [isoDateTimeWithinLimits, Bool.and_eq_true, decide_eq_true_eq, decide_eq_true_eq,
    nsPerDay] at ht
  obtain ⟨htime, hfields⟩ := balanceTime_spec (t.tmod nsPerDay)
  have hrange : InRange (t / 1000000) := by
    rw [InRange, abs_le, maximumDatePrimitiveValue, msPerDay]
    omega
  have hgregorian := computeTimeInfoFromEpoch_isGregorian hrange 0 0
  rw [← floorEpochMilliseconds_eq] at hgregorian
  have hmonth := hgregorian.month
  have hdate : (toPlainDateTime t).plainDate.IsCivil := by
    refine ⟨?_, ?_⟩
    · simp only [UtcGetter.field] at hmonth
      simp only [toPlainDateTime]
      omega
    · simp only [toPlainDateTime, add_sub_cancel_right]
      exact hgregorian.date
  refine ⟨⟨hdate, htime⟩, ?_⟩
  have hday : (toPlainDateTime t).plainDate.dayNumber = t / nsPerDay := by
    simp only [PlainDate.dayNumber, toPlainDateTime, add_sub_cancel_right]
    obtain ⟨-, -, hhours, hminutes, hseconds, hmilliseconds, htime, -⟩ := hgregorian
    simp only [UtcGetter.field, msPerDay, msPerHour, msPerMinute, nsPerDay] at *
    rw [floorEpochMilliseconds_eq] at *
    omega
  have hmod : t.tmod nsPerDay % nsPerDay = t % nsPerDay := by
    have hsplit := Int.mul_tdiv_add_tmod t nsPerDay
    rw [nsPerDay] at *
    omega
  rw [fromPlainDateTime_eq hdate, hday]
  refine (congrArg _ (hfields.trans hmod)).trans ?_
  rw [mul_comm, Int.mul_ediv_add_emod]

theorem toPlainDateTime_fromPlainDateTime {src : PlainDateTime} (hsrc : src.IsValid)
    (ht : isoDateTimeWithinLimits (fromPlainDateTime src) = true) :
    toPlainDateTime (fromPlainDateTime src) = src := by
  obtain ⟨hvalid, hback⟩ := toPlainDateTime_spec ht
  generalize toPlainDateTime (fromPlainDateTime src) = found at *
  rw [fromPlainDateTime_eq hvalid.date, fromPlainDateTime_eq hsrc.date] at hback
  have hbounds := hvalid.time.bounds
  have hbounds' := hsrc.time.bounds
  simp only [nsPerDay] at hback hbounds hbounds'
  have hdate := hsrc.date.unique hvalid.date (by omega)
  have htime := hsrc.time.unique hvalid.time (by omega)
  exact PlainDateTime.ext hdate htime

/-- The ways to count days agree: a balanced date is the one date of its day, and instants and
date-times are converted back and forth. -/
structure CalendarsAgree : Prop where
  balanced : ∀ (year month day : Int) (allowOutOfRange : Bool), isYearWithinLimits year = true →
    1 ≤ month → month ≤ 12 → isDayWithinLimits (targetDay year month day) = true →
    ∃ date, balanceISODate year month day allowOutOfRange = some date ∧ date.IsCivil ∧
      date.dayNumber = targetDay year month day ∧
      ∀ other : PlainDate, other.IsCivil → other.dayNumber = targetDay year month day →
        other = date
  back : ∀ src : PlainDateTime, src.IsValid →
    isoDateTimeWithinLimits (fromPlainDateTime src) = true →
    toPlainDateTime (fromPlainDateTime src) = src
  forth : ∀ t, isoDateTimeWithinLimits t = true → fromPlainDateTime (toPlainDateTime t) = t

/-- Both conversions follow the calendar. -/
theorem calendarsAgree : CalendarsAgree := by
  refine ⟨?_, fun src => toPlainDateTime_fromPlainDateTime,
    fun t ht => (toPlainDateTime_spec ht).2⟩
  intro year month day allowOutOfRange hyear _ _ hlimits
  obtain ⟨date, hresult, hdate, hday⟩ := balanceISODate_spec hyear hlimits allowOutOfRange
  exact ⟨date, hresult, hdate, hday, fun _ hother h => hdate.unique hother (h.trans hday.symm)⟩

end Escargot.Runtime.IsoCalendar
