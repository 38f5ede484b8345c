/-
# Setting the time value of a Date object from its fields

The fields are whole numbers that `isInValidRange` admits. They are converted to the
types of the parameters, the months are carried into the year, and the milliseconds
are added up. Every conversion and every operation has a width, and one whose result
does not fit has no value here.
-/

import Escargot.Runtime.DateObject

namespace Escargot.Runtime

def FitsWidth (width : Nat) (value : Int) : Prop :=
  -2 ^ (width - 1) ≤ value ∧ value < 2 ^ (width - 1)

instance (width : Nat) (value : Int) : Decidable (FitsWidth width value) :=
  inferInstanceAs (Decidable (_ ∧ _))

/-- A result of the signed type of a width. -/
def ofWidth (width : Nat) (value : Int) : Option Int :=
  if FitsWidth width value then some value else none

variable {value : Int} {width : Nat} {result : Int}

theorem ofWidth_eq_some :
    ofWidth width value = some result ↔ FitsWidth width value ∧ value = result := by
  rw [ofWidth]
  split_ifs with hfits
  · simp [hfits]
  · simp [hfits]

theorem ofWidth_of_fits (hfits : FitsWidth width value) :
    ofWidth width value = some value := if_pos hfits

theorem ofWidth_bind_eq_some {next : Int → Option Int} :
    (ofWidth width value).bind next = some result ↔
      FitsWidth width value ∧ next value = some result := by
  rw [ofWidth]
  split_ifs with hfits
  · simp [hfits]
  · simp [hfits]

theorem fitsWidth_32 : FitsWidth 32 value ↔ -2147483648 ≤ value ∧ value < 2147483648 := Iff.rfl

theorem fitsWidth_64 :
    FitsWidth 64 value ↔ -9223372036854775808 ≤ value ∧ value < 9223372036854775808 := Iff.rfl

namespace DateObject

/-- The arguments of `setTimeValue`, before they are converted. -/
structure TimeFields where
  year : Int
  month : Int
  date : Int
  hour : Int
  minute : Int
  second : Int
  millisecond : Int
  deriving DecidableEq

variable (applyLocalTimezoneOffset : Int → Int) (fields : TimeFields) (convertToUTC : Bool)

/-- `isInValidRange`, of whole numbers. The limits are compared as doubles, and the double nearest
to the greatest `int64_t` is `2 ^ 63`. -/
def isInValidRange : Bool :=
  |fields.year| ≤ 2 ^ 31 - 1 ∧ |fields.month| ≤ 2 ^ 31 - 1 ∧ |fields.date| ≤ 2 ^ 31 - 1 ∧
    |fields.hour| ≤ 2 ^ 31 - 1 ∧ |fields.minute| ≤ 2 ^ 31 - 1 ∧
    |fields.second| ≤ 2 ^ 63 ∧ |fields.millisecond| ≤ 2 ^ 63

def daysFromMonth (year : Int) (month : Nat) : Int := firstDayOfMonth (inLeapYear year) month

def daysToMs (year : Int) (month : Nat) (date : Int) : Option Int :=
  let t := timeFromYear year
  if t = time64Nan then some time64Nan
  else
    (ofWidth 64 (daysFromMonth year month * msPerDay)).bind fun monthMs =>
    (ofWidth 64 (t + monthMs)).bind fun t =>
    (ofWidth 32 (date - 1)).bind fun days =>
    (ofWidth 64 (days * msPerDay)).bind fun dateMs =>
    ofWidth 64 (t + dateMs)

def timeinfoToMs (year : Int) (mon : Nat) (day hour minute second millisecond : Int) : Option Int :=
  (daysToMs year mon day).bind fun daysMs =>
    if daysMs = time64Nan then some time64Nan
    else
      (ofWidth 64 (hour * msPerHour)).bind fun hourMs =>
      (ofWidth 64 (daysMs + hourMs)).bind fun t =>
      (ofWidth 64 (minute * msPerMinute)).bind fun minuteMs =>
      (ofWidth 64 (t + minuteMs)).bind fun t =>
      (ofWidth 64 (second * 1000)).bind fun secondMs =>
      (ofWidth 64 (t + secondMs)).bind fun t =>
      ofWidth 64 (t + millisecond)

/-- The part of `DateObject::setTimeValue` after the arguments are converted: what is stored. The
sum of the years is a double, converted to an `int`. -/
def setTimeValueOf : Option Int :=
  (ofWidth 32 (fields.year + fields.month / 12)).bind fun yearComputed =>
    let monthComputed := fields.month.tmod 12
    let monthComputed := if monthComputed < 0 then (monthComputed + 12).tmod 12 else monthComputed
    (timeinfoToMs yearComputed monthComputed.toNat fields.date fields.hour fields.minute
        fields.second fields.millisecond).bind fun primitiveValue =>
      let primitiveValue :=
        if convertToUTC then applyLocalTimezoneOffset primitiveValue else primitiveValue
      if primitiveValue ≠ time64Nan ∧ primitiveValue ≤ maximumDatePrimitiveValue ∧
          -maximumDatePrimitiveValue ≤ primitiveValue then some primitiveValue
      else some time64Nan

/-- A call of `DateObject::setTimeValue`, the conversions of its arguments included. -/
def setTimeValue : Option Int :=
  (ofWidth 32 fields.year).bind fun year =>
  (ofWidth 32 fields.month).bind fun month =>
  (ofWidth 32 fields.date).bind fun date =>
  (ofWidth 32 fields.hour).bind fun hour =>
  (ofWidth 32 fields.minute).bind fun minute =>
  (ofWidth 64 fields.second).bind fun second =>
  (ofWidth 64 fields.millisecond).bind fun millisecond =>
  setTimeValueOf applyLocalTimezoneOffset
    ⟨year, month, date, hour, minute, second, millisecond⟩ convertToUTC

def makeDay (year month date : Int) : Int := dayNumber (year + month / 12) (month % 12) date

def makeTime (hour minute second millisecond : Int) : Int :=
  hour * msPerHour + minute * msPerMinute + second * 1000 + millisecond

def makeDate (day time : Int) : Int := day * msPerDay + time

def TimeFields.instant : Int :=
  makeDate (makeDay fields.year fields.month fields.date)
    (makeTime fields.hour fields.minute fields.second fields.millisecond)

def TimeFields.IsYearSupported : Prop :=
  |fields.year + fields.month / 12 - 1970| ≤ 1000000

instance (fields : TimeFields) : Decidable fields.IsYearSupported :=
  inferInstanceAs (Decidable (_ ≤ _))

def TimeFields.timeValue : Int :=
  if |fields.instant| ≤ maximumDatePrimitiveValue ∧ fields.IsYearSupported then fields.instant
  else time64Nan

def TimeFields.minuteMs : Int :=
  makeDate (makeDay fields.year fields.month fields.date)
    (makeTime fields.hour fields.minute 0 0)

/-- The year with its carry is an `int`; the seconds and the milliseconds are less than the limit
of the range check; and in a supported year the seconds, in milliseconds, and both sums that they
are in are `int64_t`s. -/
structure TimeFields.Fits (fields : TimeFields) : Prop where
  year : FitsWidth 32 (fields.year + fields.month / 12)
  second : FitsWidth 64 fields.second
  millisecond : FitsWidth 64 fields.millisecond
  secondMs : fields.IsYearSupported → FitsWidth 64 (fields.second * 1000)
  minuteSum : fields.IsYearSupported → FitsWidth 64 (fields.minuteMs + fields.second * 1000)
  sum : fields.IsYearSupported →
    FitsWidth 64 (fields.minuteMs + fields.second * 1000 + fields.millisecond)

theorem monthLength_bounds (year month : Int) :
    28 ≤ monthLength year month ∧ monthLength year month ≤ 31 := by
  rw [monthLength]
  split_ifs <;> omega

theorem daysBeforeMonth_bounds (year : Int) (month : Nat) :
    0 ≤ daysBeforeMonth year month ∧ daysBeforeMonth year month ≤ 31 * month := by
  induction month with
  | zero => exact ⟨le_refl _, le_refl _⟩
  | succ month ih =>
    have hlength := monthLength_bounds year month
    rw [daysBeforeMonth]
    omega

variable {year : Int}

/-- In a supported year the first of January is less than a million years away. -/
theorem daysFromYear_bounds (hyear : |year - 1970| ≤ 1000000) :
    -365242500 ≤ daysFromYear year ∧ daysFromYear year ≤ 365242500 := by
  rw [abs_le] at hyear
  rw [daysFromYear]
  omega

theorem daysToMs_eq {date : Int} {month : Nat} (hyear : |year - 1970| ≤ 1000000)
    (hmonth : month < 12) (hdate : |date| ≤ 2 ^ 31 - 1) :
    daysToMs year month date = some (dayNumber year month date * msPerDay) := by
  have hdays := daysFromYear_bounds hyear
  have hbefore := daysBeforeMonth_bounds year month
  have hfirst : daysFromMonth year month = daysBeforeMonth year month :=
    firstDayOfMonth_eq year (by omega)
  rw [abs_le] at hdate
  have hvalid : msPerDay * daysFromYear year ≠ time64Nan := by
    simp only [msPerDay, time64Nan]
    omega
  have hdayNumber : dayNumber year month date * msPerDay =
      msPerDay * daysFromYear year + daysBeforeMonth year month * msPerDay +
        (date - 1) * msPerDay := by
    rw [dayNumber, Int.toNat_natCast]
    ring
  rw [daysToMs, timeFromYear_of_near hyear, hfirst, hdayNumber]
  simp only [if_neg hvalid]
  simp only [ofWidth_bind_eq_some, ofWidth_eq_some, fitsWidth_32, fitsWidth_64, msPerDay, and_true]
  omega

theorem timeinfoToMs_of_far (hyear : ¬|year - 1970| ≤ 1000000) (mon : Nat)
    (day hour minute second millisecond : Int) :
    timeinfoToMs year mon day hour minute second millisecond = some time64Nan := by
  have hfar : timeFromYear year = time64Nan := if_pos (not_le.mp hyear)
  simp [timeinfoToMs, daysToMs, hfar]

theorem timeinfoToMs_eq_some {day hour minute second millisecond result : Int} {mon : Nat}
    (hyear : |year - 1970| ≤ 1000000) (hmon : mon < 12) (hday : |day| ≤ 2 ^ 31 - 1)
    (hhour : |hour| ≤ 2 ^ 31 - 1) (hminute : |minute| ≤ 2 ^ 31 - 1) :
    timeinfoToMs year mon day hour minute second millisecond = some result ↔
      FitsWidth 64 (second * 1000) ∧
      FitsWidth 64 (makeDate (dayNumber year mon day) (makeTime hour minute 0 0) + second * 1000) ∧
      FitsWidth 64 (makeDate (dayNumber year mon day) (makeTime hour minute 0 0) +
        second * 1000 + millisecond) ∧
      makeDate (dayNumber year mon day) (makeTime hour minute second millisecond) = result := by
  have hdays := daysFromYear_bounds hyear
  have hbefore := daysBeforeMonth_bounds year mon
  rw [timeinfoToMs, daysToMs_eq hyear hmon hday]
  rw [abs_le] at hday hhour hminute
  have hnumber : -2512726149 ≤ dayNumber year mon day ∧ dayNumber year mon day ≤ 2512727000 := by
    rw [dayNumber, Int.toNat_natCast]
    omega
  have hvalid : dayNumber year mon day * msPerDay ≠ time64Nan := by
    simp only [msPerDay, time64Nan]
    omega
  simp only [Option.bind_some, if_neg hvalid, makeDate, makeTime]
  simp only [ofWidth_bind_eq_some, ofWidth_eq_some, fitsWidth_64, msPerDay, msPerHour, msPerMinute]
  omega

theorem monthComputed_eq (month : Int) :
    (if month.tmod 12 < 0 then (month.tmod 12 + 12).tmod 12 else month.tmod 12) = month % 12 := by
  have hdiv := Int.mul_tdiv_add_tmod month 12
  have hlow := Int.lt_tmod_of_pos month (show (0 : Int) < 12 by decide)
  have hhigh := Int.tmod_lt_of_pos month (show (0 : Int) < 12 by decide)
  split_ifs with hneg
  · rw [Int.tmod_eq_emod_of_nonneg (by omega)]
    omega
  · omega

section Stored

variable {fields : TimeFields} {applyLocalTimezoneOffset : Int → Int}

theorem isInValidRange_iff : isInValidRange fields = true ↔
    |fields.year| ≤ 2 ^ 31 - 1 ∧ |fields.month| ≤ 2 ^ 31 - 1 ∧ |fields.date| ≤ 2 ^ 31 - 1 ∧
      |fields.hour| ≤ 2 ^ 31 - 1 ∧ |fields.minute| ≤ 2 ^ 31 - 1 ∧
      |fields.second| ≤ 2 ^ 63 ∧ |fields.millisecond| ≤ 2 ^ 63 := by
  rw [isInValidRange, decide_eq_true_iff]

/-- Fields that are admitted have no overflow in the conversions but for the largest seconds and
milliseconds. -/
theorem setTimeValue_eq_some (hvalid : isInValidRange fields = true) (convertToUTC : Bool)
    (result : Int) :
    setTimeValue applyLocalTimezoneOffset fields convertToUTC = some result ↔
      FitsWidth 64 fields.second ∧ FitsWidth 64 fields.millisecond ∧
        setTimeValueOf applyLocalTimezoneOffset fields convertToUTC = some result := by
  obtain ⟨hyear, hmonth, hdate, hhour, hminute, -, -⟩ := isInValidRange_iff.mp hvalid
  have hfits : ∀ value : Int, |value| ≤ 2 ^ 31 - 1 → FitsWidth 32 value := by
    intro value hvalue
    rw [abs_le] at hvalue
    rw [fitsWidth_32]
    omega
  simp only [setTimeValue, ofWidth_bind_eq_some, hfits _ hyear, hfits _ hmonth, hfits _ hdate,
    hfits _ hhour, hfits _ hminute, true_and]

theorem setTimeValueOf_eq_some (result : Int) :
    setTimeValueOf applyLocalTimezoneOffset fields false = some result ↔
      FitsWidth 32 (fields.year + fields.month / 12) ∧
      ∃ primitiveValue, timeinfoToMs (fields.year + fields.month / 12) (fields.month % 12).toNat
          fields.date fields.hour fields.minute fields.second fields.millisecond =
            some primitiveValue ∧
        (if |primitiveValue| ≤ maximumDatePrimitiveValue then primitiveValue else time64Nan) =
          result := by
  have hstored : ∀ primitiveValue : Int,
      (primitiveValue ≠ time64Nan ∧ primitiveValue ≤ maximumDatePrimitiveValue ∧
        -maximumDatePrimitiveValue ≤ primitiveValue) ↔
        |primitiveValue| ≤ maximumDatePrimitiveValue := by
    intro primitiveValue
    rw [abs_le]
    simp only [time64Nan, maximumDatePrimitiveValue]
    omega
  rw [setTimeValueOf, ofWidth_bind_eq_some]
  simp only [monthComputed_eq, Option.bind_eq_some_iff, hstored, Bool.false_eq_true, if_false]
  simp only [← apply_ite some, Option.some.injEq]

/-- Fields that are admitted are stored as their time value, without an overflow, exactly when
they fit. -/
theorem setTimeValue_eq_timeValue_iff (hvalid : isInValidRange fields = true) :
    setTimeValue applyLocalTimezoneOffset fields false = some fields.timeValue ↔ fields.Fits := by
  obtain ⟨-, -, hdate, hhour, hminute, -, -⟩ := isInValidRange_iff.mp hvalid
  have hmonth : (fields.month % 12).toNat < 12 := by omega
  rw [setTimeValue_eq_some hvalid, setTimeValueOf_eq_some]
  by_cases hsupported : fields.IsYearSupported
  · have hinstant : fields.instant = makeDate (dayNumber (fields.year + fields.month / 12)
        ((fields.month % 12).toNat : Int) fields.date)
          (makeTime fields.hour fields.minute fields.second fields.millisecond) := by
      rw [TimeFields.instant, makeDay, Int.toNat_of_nonneg (by omega)]
    have hminuteMs : fields.minuteMs = makeDate (dayNumber (fields.year + fields.month / 12)
        ((fields.month % 12).toNat : Int) fields.date)
          (makeTime fields.hour fields.minute 0 0) := by
      rw [TimeFields.minuteMs, makeDay, Int.toNat_of_nonneg (by omega)]
    simp only [timeinfoToMs_eq_some hsupported hmonth hdate hhour hminute, ← hinstant,
      ← hminuteMs, TimeFields.timeValue, hsupported, and_true]
    constructor
    · rintro ⟨hsecond, hmillisecond, hyear, t, ⟨hsecondMs, hminuteSum, hsum, -⟩, -⟩
      exact ⟨hyear, hsecond, hmillisecond, fun _ => hsecondMs, fun _ => hminuteSum, fun _ => hsum⟩
    · intro hfits
      exact ⟨hfits.second, hfits.millisecond, hfits.year, fields.instant,
        ⟨hfits.secondMs hsupported, hfits.minuteSum hsupported, hfits.sum hsupported, rfl⟩, rfl⟩
  · have hnan : (if |time64Nan| ≤ maximumDatePrimitiveValue then time64Nan else time64Nan) =
        time64Nan := ite_self _
    simp only [timeinfoToMs_of_far hsupported, TimeFields.timeValue, hsupported, and_false,
      if_false, Option.some.injEq, exists_eq_left', hnan, and_true]
    constructor
    · rintro ⟨hsecond, hmillisecond, hyear⟩
      exact ⟨hyear, hsecond, hmillisecond, fun h => absurd h hsupported,
        fun h => absurd h hsupported, fun h => absurd h hsupported⟩
    · exact fun hfits => ⟨hfits.second, hfits.millisecond, hfits.year⟩

def lastSecond : TimeFields := ⟨275760, 8, 12, 23, 59, 59, 999⟩

theorem lastSecond_fits : lastSecond.Fits :=
  ⟨by decide, by decide, by decide, fun _ => by decide, fun _ => by decide, fun _ => by decide⟩

theorem setTimeValue_lastSecond : setTimeValue id lastSecond false = some 8639999999999999 :=
  (setTimeValue_eq_timeValue_iff (show isInValidRange lastSecond = true by decide)).mpr
    lastSecond_fits

/-- Seconds whose milliseconds are `2 ^ 64 + 384`. -/
def manySeconds : TimeFields := ⟨1970, 0, 1, 0, 0, 18446744073709552, 0⟩

/-- The product has no place in 64 bits. -/
theorem seconds_overflow : ¬∀ (applyLocalTimezoneOffset : Int → Int) (fields : TimeFields),
    isInValidRange fields = true →
      setTimeValue applyLocalTimezoneOffset fields false = some fields.timeValue := by
  intro hstored
  have hmany := hstored id manySeconds (by decide)
  revert hmany
  decide

end Stored

end DateObject

end Escargot.Runtime
