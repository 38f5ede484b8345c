/-
# UTC getters of Date objects

A UTC getter shifts the time value by the offset of the local time zone, resolves
the result as a local time, and tries once more if the offset there is another
one. The fields are kept on the VM instance, under the shifted value.

Times are milliseconds since the epoch. The zone is any function from instants to
a standard and a daylight saving offset in minutes.
-/

import Escargot.Foundation.BinaryFloat

namespace Escargot.Runtime

open List Escargot.Foundation

variable (n d : Nat)

/-- The places after the binary point that a double as large as `n / d` has; below one it has
more, which no integer part depends on. -/
def quotientPlaces : Nat := 52 - (n / d).log2

/-- The double nearest to `n / d`, in units of its last place. -/
def nearestQuotient : Nat := roundHalfEven (n * 2 ^ quotientPlaces n d) d

/-- The integer part of the double nearest to `n / d`. -/
def floorQuotient : Nat := nearestQuotient n d / 2 ^ quotientPlaces n d

/-- The least integer that is not below the double nearest to `n / d`. -/
def ceilQuotient : Nat :=
  (nearestQuotient n d + (2 ^ quotientPlaces n d - 1)) / 2 ^ quotientPlaces n d

section Quotients

variable {n d : Nat}

/-- The nearest double is at most half a unit above the quotient. -/
theorem nearestQuotient_mul_le (n d : Nat) :
    2 * (nearestQuotient n d * d) ≤ 2 * (n * 2 ^ quotientPlaces n d) + d := by
  rw [nearestQuotient, roundHalfEven]
  generalize n * 2 ^ quotientPlaces n d = m
  have hm := Nat.div_add_mod m d
  rw [Nat.mul_comm] at hm
  split
  · omega
  · next h =>
    rw [Nat.add_mul]
    omega

theorem mul_le_nearestQuotient (hd : 0 < d) (n : Nat) :
    2 * (n * 2 ^ quotientPlaces n d) ≤ 2 * (nearestQuotient n d * d) + d := by
  rw [nearestQuotient, roundHalfEven]
  generalize n * 2 ^ quotientPlaces n d = m
  have hm := Nat.div_add_mod m d
  have hlt := Nat.mod_lt m hd
  rw [Nat.mul_comm] at hm
  split
  · next h =>
    omega
  · rw [Nat.add_mul]
    omega

theorem div_le_floorQuotient (hd : 0 < d) (n : Nat) : n / d ≤ floorQuotient n d := by
  rw [floorQuotient, Nat.le_div_iff_mul_le (Nat.two_pow_pos _)]
  refine le_roundHalfEven hd ?_
  calc n / d * 2 ^ quotientPlaces n d * d = n / d * d * 2 ^ quotientPlaces n d := by ring
    _ ≤ n * 2 ^ quotientPlaces n d := Nat.mul_le_mul_right _ (Nat.div_mul_le_self n d)

variable {places : Nat}

theorem slack_le (hplaces : places ≤ quotientPlaces n d) (slack : Nat) :
    2 ^ (places + 1) * slack ≤ 2 * (slack * 2 ^ quotientPlaces n d) := by
  have hpow := Nat.mul_le_mul_left slack (Nat.pow_le_pow_right (show 0 < 2 by omega) hplaces)
  calc 2 ^ (places + 1) * slack = 2 * (slack * 2 ^ places) := by ring
    _ ≤ 2 * (slack * 2 ^ quotientPlaces n d) := by omega

theorem floorQuotient_near (n d : Nat) : floorQuotient n d * d * (2 * 2 ^ quotientPlaces n d) ≤
      n * (2 * 2 ^ quotientPlaces n d) + d := by
  have hfloor : floorQuotient n d * 2 ^ quotientPlaces n d ≤ nearestQuotient n d :=
    Nat.div_mul_le_self _ _
  have hnear := nearestQuotient_mul_le n d
  calc floorQuotient n d * d * (2 * 2 ^ quotientPlaces n d)
      = 2 * (floorQuotient n d * 2 ^ quotientPlaces n d * d) := by ring
    _ ≤ 2 * (nearestQuotient n d * d) := by
        have := Nat.mul_le_mul_right d hfloor
        omega
    _ ≤ 2 * (n * 2 ^ quotientPlaces n d) + d := hnear
    _ = n * (2 * 2 ^ quotientPlaces n d) + d := by ring

/-- With enough places the rounding adds little: a divisor up to `2 ^ (places + 1)` units leaves
no more than the slack. -/
theorem floorQuotient_mul_le {slack : Nat} (hplaces : places ≤ quotientPlaces n d)
    (hd : d ≤ 2 ^ (places + 1) * slack) : floorQuotient n d * d ≤ n + slack := by
  have hpow := slack_le hplaces slack
  refine Nat.le_of_mul_le_mul_right (c := 2 * 2 ^ quotientPlaces n d) ?_ (by positivity)
  calc floorQuotient n d * d * (2 * 2 ^ quotientPlaces n d)
      ≤ n * (2 * 2 ^ quotientPlaces n d) + d := floorQuotient_near n d
    _ ≤ n * (2 * 2 ^ quotientPlaces n d) + 2 * (slack * 2 ^ quotientPlaces n d) := by omega
    _ = (n + slack) * (2 * 2 ^ quotientPlaces n d) := by ring

theorem floorQuotient_eq_div (hpos : 0 < d) (hplaces : places ≤ quotientPlaces n d)
    (hd : d < 2 ^ (places + 1)) : floorQuotient n d = n / d := by
  refine Nat.le_antisymm ((Nat.le_div_iff_mul_le hpos).mpr ?_) (div_le_floorQuotient hpos n)
  have hnear := floorQuotient_near n d
  have hpow := slack_le hplaces 1
  by_contra hlt
  have hmul := Nat.mul_le_mul_right (2 * 2 ^ quotientPlaces n d) (Nat.lt_of_not_le hlt)
  rw [Nat.succ_mul] at hmul
  omega

theorem ceilQuotient_le (hd : 0 < d) {m : Nat} (h : n ≤ m * d) : ceilQuotient n d ≤ m := by
  have hnear : nearestQuotient n d ≤ m * 2 ^ quotientPlaces n d := by
    refine roundHalfEven_le hd ?_
    calc n * 2 ^ quotientPlaces n d ≤ m * d * 2 ^ quotientPlaces n d := Nat.mul_le_mul_right _ h
      _ = m * 2 ^ quotientPlaces n d * d := by ring
  have hpos := Nat.two_pow_pos (quotientPlaces n d)
  rw [ceilQuotient, ← Nat.lt_succ_iff, Nat.div_lt_iff_lt_mul hpos, Nat.succ_mul]
  omega

theorem le_ceilQuotient_mul {slack : Nat} (hpos : 0 < d) (hplaces : places ≤ quotientPlaces n d)
    (hd : d ≤ 2 ^ (places + 1) * slack) :
    n ≤ ceilQuotient n d * d + slack := by
  have hceil : nearestQuotient n d ≤ ceilQuotient n d * 2 ^ quotientPlaces n d := by
    have hdiv := Nat.div_add_mod (nearestQuotient n d + (2 ^ quotientPlaces n d - 1))
      (2 ^ quotientPlaces n d)
    rw [Nat.mul_comm, ← ceilQuotient] at hdiv
    omega
  have hnear := mul_le_nearestQuotient hpos n
  have hpow := slack_le hplaces slack
  refine Nat.le_of_mul_le_mul_right (c := 2 * 2 ^ quotientPlaces n d) ?_ (by positivity)
  calc n * (2 * 2 ^ quotientPlaces n d) = 2 * (n * 2 ^ quotientPlaces n d) := by ring
    _ ≤ 2 * (nearestQuotient n d * d) + d := hnear
    _ ≤ 2 * (ceilQuotient n d * 2 ^ quotientPlaces n d * d)
          + 2 * (slack * 2 ^ quotientPlaces n d) := by
        have := Nat.mul_le_mul_right d hceil
        omega
    _ = (ceilQuotient n d * d + slack) * (2 * 2 ^ quotientPlaces n d) := by ring

/-- A quotient below a power of two has the other places behind the point. -/
theorem le_quotientPlaces {bits : Nat} (h : n < 2 ^ (bits + 1) * d) :
    52 - bits ≤ quotientPlaces n d := by
  have hdiv : n / d < 2 ^ (bits + 1) := Nat.div_lt_of_lt_mul (by rw [Nat.mul_comm]; exact h)
  have hlog : (n / d).log2 < bits + 1 := by
    rcases Nat.eq_zero_or_pos (n / d) with hzero | hpos
    · rw [hzero]
      simp
    · exact (Nat.log2_lt (by omega)).mpr hdiv
  rw [quotientPlaces]
  omega

end Quotients

namespace DateObject

def msPerMinute : Int := 60000

def msPerHour : Int := 3600000

def msPerDay : Int := 86400000

def maximumDatePrimitiveValue : Int := 8640000000000000

def time64Nan : Int := -(2 ^ 63)

/-- The double `365.2425` is this number of units of `2 ^ (-44)`. -/
def daysInYearUnits : Nat := 6425414011327611

variable (year : Int)

def daysInYear : Int :=
  if year % 4 ≠ 0 then 365
  else if year % 100 ≠ 0 then 366
  else if year % 400 ≠ 0 then 365
  else 366

def inLeapYear : Bool := daysInYear year - 365 ≠ 0

/-- `DateObject::daysFromYear`. The quotients of doubles have few digits, so that their integer
parts are those of the exact quotients. -/
def daysFromYear : Int :=
  365 * (year - 1970) + (year - 1969) / 4 - (year - 1901) / 100 + (year - 1601) / 400

example : daysFromYear 1970 = 0 := rfl

def timeFromYear : Int :=
  if 1000000 < |year - 1970| then time64Nan else msPerDay * daysFromYear year

/-- `floor(days / 365.2425)`. -/
def yearQuotient (days : Int) : Int :=
  if 0 ≤ days then floorQuotient (days.natAbs * 2 ^ 44) daysInYearUnits
  else -ceilQuotient (days.natAbs * 2 ^ 44) daysInYearUnits

variable (zone : TimeZone) (t : Int)

/-- `DateObject::yearFromTime`, and the year in `computeTimeInfoFromEpoch`. -/
def yearFromTime : Int :=
  let estimate := yearQuotient (t.tdiv msPerDay) + 1970
  let yearAsMs := timeFromYear estimate
  let estimate := if t < yearAsMs then estimate - 1 else estimate
  if yearAsMs + daysInYear estimate * msPerDay ≤ t then estimate + 1 else estimate

/-- `DateObject::daysFromTime`: the quotient of doubles is truncated. -/
def daysFromTime : Int :=
  let t := if t < 0 then t - (msPerDay - 1) else t
  if 0 ≤ t then floorQuotient t.natAbs 86400000 else -floorQuotient t.natAbs 86400000

def firstDayOfMonth (leap : Bool) (month : Nat) : Int :=
  let first := [0, 31, 59, 90, 120, 151, 181, 212, 243, 273, 304, 334, 365].getD month 0
  if leap && decide (2 ≤ month) then first + 1 else first

structure DateTimeInfo where
  year : Int
  month : Int
  mday : Int
  hour : Int
  min : Int
  sec : Int
  millisec : Int
  wday : Int
  gmtoff : Int
  isdst : Int

def monthOfDay (leap : Bool) (dayWithinYear : Int) : Nat → Nat → Nat
  | 0, i => i - 1
  | rounds + 1, i =>
    if dayWithinYear < firstDayOfMonth leap i then i - 1
    else monthOfDay leap dayWithinYear rounds (i + 1)

/-- `DateObject::computeTimeInfoFromEpoch`; the offset and the daylight saving flag are the
caller's. -/
def computeTimeInfoFromEpoch (t gmtoff isdst : Int) : DateTimeInfo :=
  let year := yearFromTime t
  let dayWithinYear := daysFromTime t - daysFromYear year
  let leap := inLeapYear year
  let month := monthOfDay leap dayWithinYear 12 1
  let days := daysFromTime t
  let timeInDay := t - days * msPerDay
  let weekday := (days + 4).tmod 7
  { year := year
    month := month
    mday := dayWithinYear + 1 - firstDayOfMonth leap month
    hour := timeInDay.tdiv msPerHour
    min := (timeInDay.tdiv msPerMinute).tmod 60
    sec := (timeInDay.tdiv 1000).tmod 60
    millisec := timeInDay.tmod 1000
    wday := if 0 ≤ weekday then weekday else weekday + 7
    gmtoff := gmtoff
    isdst := isdst }

/-- The standard and the daylight saving offset at an instant, in minutes. -/
abbrev TimeZone := Int → Int × Int

def equivalentYearForDST : Int :=
  if 2037 < year then year + (2010 - year).tdiv 28 * 28
  else if year < 2010 then year + (2037 - year).tdiv 28 * 28
  else year

def msBetweenYears : Int :=
  let realYear := yearFromTime t
  let equivalentYear := equivalentYearForDST realYear
  if realYear ≠ equivalentYear then timeFromYear equivalentYear - timeFromYear realYear else 0

/-- The offset in use at an instant, in milliseconds. -/
def offset : Int :=
  let offsets := zone (t + msBetweenYears t)
  (offsets.1 + offsets.2) * msPerMinute

def resolveLocalTimeInfo (primitiveValue : Int) : DateTimeInfo :=
  let t := primitiveValue + msBetweenYears primitiveValue
  let stdOffset := (zone t).1 * msPerMinute
  let dstOffset := (zone t).2 * msPerMinute
  let isdst := if dstOffset = 0 then 0 else 1
  let gmtoff := (-1 * (stdOffset + dstOffset)).tdiv msPerMinute
  let t := t + (stdOffset + dstOffset)
  let t := t - msBetweenYears primitiveValue
  computeTimeInfoFromEpoch t gmtoff isdst

end DateObject

open DateObject in
/-- A Date object with a valid time value. Its local fields are there unless the cache is dirty. -/
structure DateObject where
  primitiveValue : { t : Int // |t| ≤ maximumDatePrimitiveValue }
  cachedLocal : Option DateTimeInfo

namespace DateObject

inductive UtcGetter
  | date
  | day
  | fullYear
  | hours
  | milliseconds
  | minutes
  | month
  | seconds

def UtcGetter.field : UtcGetter → DateTimeInfo → Int
  | date => DateTimeInfo.mday
  | day => DateTimeInfo.wday
  | fullYear => DateTimeInfo.year
  | hours => DateTimeInfo.hour
  | milliseconds => DateTimeInfo.millisec
  | minutes => DateTimeInfo.min
  | month => DateTimeInfo.month
  | seconds => DateTimeInfo.sec

structure CachedUTCDateTimeInfo where
  primitiveValueUTC : Int
  info : DateTimeInfo

/-- The Date objects, and the cache of the VM instance if it is valid. -/
structure DateState where
  dates : List DateObject
  cachedUTC : Option CachedUTCDateTimeInfo

variable (zone : TimeZone) (state : DateState) (date : DateObject)

/-- `resolveCache`, unless the cache is clean. -/
def localInfo : DateTimeInfo :=
  date.cachedLocal.getD (resolveLocalTimeInfo zone date.primitiveValue)

/-- What the cache holds after a miss. -/
def resolveUTC : CachedUTCDateTimeInfo :=
  let timezoneOffset := (date.localInfo zone).gmtoff
  let primitiveValueUTC := date.primitiveValue + timezoneOffset * msPerMinute
  let info := resolveLocalTimeInfo zone primitiveValueUTC
  if info.gmtoff ≠ timezoneOffset then
    let primitiveValueUTC := date.primitiveValue + info.gmtoff * msPerMinute
    ⟨primitiveValueUTC, resolveLocalTimeInfo zone primitiveValueUTC⟩
  else ⟨primitiveValueUTC, info⟩

def cacheUTC (cachedUTC : Option CachedUTCDateTimeInfo) (date : DateObject) :
    CachedUTCDateTimeInfo :=
  let primitiveValueUTC := date.primitiveValue + (date.localInfo zone).gmtoff * msPerMinute
  match cachedUTC with
  | some cache =>
    if cache.primitiveValueUTC ≠ primitiveValueUTC then date.resolveUTC zone else cache
  | none => date.resolveUTC zone

def getUTC (getter : UtcGetter) : Int := getter.field (date.cacheUTC zone state.cachedUTC).info

/-- What is done with Date objects; a getter is called on the object at a position. -/
inductive DateOperation
  | newDate (t : { t : Int // |t| ≤ maximumDatePrimitiveValue })
  | setTime (position : Nat) (t : { t : Int // |t| ≤ maximumDatePrimitiveValue })
  | getUTC (position : Nat) (getter : UtcGetter)

/-- The state after an operation. A getter resolves the local cache of its object. -/
def DateState.step : DateOperation → DateState
  | .newDate t => { state with dates := state.dates ++ [⟨t, none⟩] }
  | .setTime position t => { state with dates := state.dates.set position ⟨t, none⟩ }
  | .getUTC position _ =>
    match state.dates[position]? with
    | none => state
    | some date =>
      { dates := state.dates.set position
          { date with cachedLocal := some (date.localInfo zone) }
        cachedUTC := some (date.cacheUTC zone state.cachedUTC) }

theorem lt_of_tdiv {d : Int} (hd : 0 < d) (t : Int) :
    d * t.tdiv d - d < t ∧ t < d * t.tdiv d + d := by
  have hdiv := Int.mul_tdiv_add_tmod t d
  have hlow := Int.lt_tmod_of_pos t hd
  have hhigh := Int.tmod_lt_of_pos t hd
  omega

theorem yearQuotient_bounds {days : Int} (hdays : |days| ≤ 100000100) :
    yearQuotient days * daysInYearUnits ≤ days * 2 ^ 44 + 2 ^ 18 ∧
      days * 2 ^ 44 < (yearQuotient days + 1) * daysInYearUnits := by
  have hn : days.natAbs ≤ 100000100 := by rw [abs_le] at hdays; omega
  have hplaces : 34 ≤ quotientPlaces (days.natAbs * 2 ^ 44) daysInYearUnits :=
    le_quotientPlaces (show days.natAbs * 2 ^ 44 < 2 ^ (18 + 1) * daysInYearUnits by
      simp only [daysInYearUnits]
      omega)
  have hslack : daysInYearUnits ≤ 2 ^ (34 + 1) * 2 ^ 18 := by decide
  rw [yearQuotient]
  split
  · have hfloor := floorQuotient_mul_le hplaces hslack
    have hdiv := div_le_floorQuotient (show 0 < daysInYearUnits by decide) (days.natAbs * 2 ^ 44)
    simp only [daysInYearUnits] at hfloor hdiv ⊢
    omega
  · have hceil := le_ceilQuotient_mul (by decide) hplaces hslack
    have hle := ceilQuotient_le (n := days.natAbs * 2 ^ 44)
      (m := (days.natAbs * 2 ^ 44 + (daysInYearUnits - 1)) / daysInYearUnits)
      (show 0 < daysInYearUnits by decide) (by simp only [daysInYearUnits]; omega)
    simp only [daysInYearUnits] at hceil hle ⊢
    omega

variable (year : Int)

theorem daysInYear_eq : daysInYear year = daysFromYear (year + 1) - daysFromYear year := by
  simp only [daysInYear, daysFromYear]
  split_ifs <;> omega

theorem daysFromYear_lt : daysFromYear year < daysFromYear (year + 1) := by
  simp only [daysFromYear]
  omega

theorem timeFromYear_of_near {year : Int} (h : |year - 1970| ≤ 1000000) :
    timeFromYear year = msPerDay * daysFromYear year := if_neg (by omega)

/-- The times whose fields are computed: the valid ones, shifted by offsets. -/
def InRange (t : Int) : Prop := |t| ≤ maximumDatePrimitiveValue + 4 * msPerDay

variable {t : Int}

theorem yearFromTime_bounds (ht : InRange t) : msPerDay * daysFromYear (yearFromTime t) ≤ t ∧
      t < msPerDay * daysFromYear (yearFromTime t + 1) := by
  have ht : |t| ≤ 8640000345600000 := ht
  rw [abs_le] at ht
  have htrunc := lt_of_tdiv (show 0 < msPerDay by decide) t
  have hdays : |t.tdiv msPerDay| ≤ 100000100 := by
    rw [abs_le]
    simp only [msPerDay] at htrunc ⊢
    omega
  obtain ⟨hlow, hhigh⟩ := yearQuotient_bounds hdays
  rw [abs_le] at hdays
  rw [yearFromTime]
  generalize t.tdiv msPerDay = days at *
  generalize yearQuotient days = k at *
  have hk : |k + 1970 - 1970| ≤ 1000000 := by
    rw [abs_le]; simp only [daysInYearUnits] at hlow hhigh; omega
  have hbefore : daysFromYear (k + 1970 - 1) ≤ days - 1 := by
    simp only [daysFromYear, daysInYearUnits] at *; omega
  have hafter : days + 1 ≤ daysFromYear (k + 1970 + 2) := by
    simp only [daysFromYear, daysInYearUnits] at *; omega
  simp only [timeFromYear_of_near hk, daysInYear_eq]
  have hnext : k + 1970 + 1 + 1 = k + 1970 + 2 := by ring
  have hprev : k + 1970 - 1 + 1 = k + 1970 := by ring
  by_cases hbelow : t < msPerDay * daysFromYear (k + 1970)
  · have hsum := daysFromYear_lt (k + 1970 - 1)
    rw [hprev] at hsum
    simp only [if_pos hbelow, hprev]
    split_ifs with habove
    · simp only [msPerDay] at *
      omega
    · rw [hprev]
      simp only [msPerDay] at *
      omega
  · simp only [if_neg hbelow]
    split_ifs with habove
    · rw [hnext]
      simp only [msPerDay] at *
      omega
    · simp only [msPerDay] at *
      omega

theorem daysFromTime_eq (ht : InRange t) : daysFromTime t = t / msPerDay := by
  have ht : |t| ≤ 8640000345600000 := ht
  rw [abs_le] at ht
  have hfloor : ∀ n : Nat, n ≤ 8640000432000000 → floorQuotient n 86400000 = n / 86400000 := by
    intro n hn
    have hplaces : 26 ≤ quotientPlaces n 86400000 :=
      le_quotientPlaces (show n < 2 ^ (26 + 1) * 86400000 by omega)
    exact floorQuotient_eq_div (by decide) hplaces (by decide)
  rw [daysFromTime]
  simp only [msPerDay]
  split_ifs
  · omega
  · rw [hfloor _ (by omega)]
    omega
  · rw [hfloor _ (by omega)]
    omega
  · omega

/-- Every fourth year, of the centuries every fourth one. -/
def IsLeapYear (year : Int) : Prop := 4 ∣ year ∧ (100 ∣ year → 400 ∣ year)

instance (year : Int) : Decidable (IsLeapYear year) := inferInstanceAs (Decidable (_ ∧ _))

def monthLength (year month : Int) : Int :=
  if month = 1 then if IsLeapYear year then 29 else 28
  else if month ∈ [3, 5, 8, 10] then 30
  else 31

def daysBeforeMonth (year : Int) : Nat → Int
  | 0 => 0
  | month + 1 => daysBeforeMonth year month + monthLength year month

/-- The days since the first of January 1970. -/
def dayNumber (year month mday : Int) : Int :=
  daysFromYear year + daysBeforeMonth year month.toNat + (mday - 1)

/-- The answers of the getters are the fields of a time in the proleptic Gregorian calendar. The
first day of 1970 was a Thursday. -/
structure IsGregorian (t : Int) (get : UtcGetter → Int) : Prop where
  month : 0 ≤ get .month ∧ get .month < 12
  date : 1 ≤ get .date ∧ get .date ≤ monthLength (get .fullYear) (get .month)
  hours : 0 ≤ get .hours ∧ get .hours < 24
  minutes : 0 ≤ get .minutes ∧ get .minutes < 60
  seconds : 0 ≤ get .seconds ∧ get .seconds < 60
  milliseconds : 0 ≤ get .milliseconds ∧ get .milliseconds < 1000
  time : t = msPerDay * dayNumber (get .fullYear) (get .month) (get .date) +
    msPerHour * get .hours + msPerMinute * get .minutes + 1000 * get .seconds + get .milliseconds
  day : 0 ≤ get .day ∧ get .day < 7 ∧
    7 ∣ dayNumber (get .fullYear) (get .month) (get .date) + 4 - get .day

theorem daysFromYear_succ :
    daysFromYear (year + 1) = daysFromYear year + if IsLeapYear year then 366 else 365 := by
  simp only [daysFromYear, IsLeapYear]
  split_ifs <;> omega

theorem inLeapYear_eq : inLeapYear year = decide (IsLeapYear year) := by
  have hdays : daysInYear year = if IsLeapYear year then 366 else 365 := by
    rw [daysInYear_eq, daysFromYear_succ]
    omega
  rw [inLeapYear, hdays]
  split_ifs with h <;> simp [h]

theorem firstDayOfMonth_eq {month : Nat} (h : month ≤ 12) :
    firstDayOfMonth (inLeapYear year) month = daysBeforeMonth year month := by
  rw [inLeapYear_eq]
  by_cases hleap : IsLeapYear year
  · interval_cases month <;>
      simp [firstDayOfMonth, daysBeforeMonth, monthLength, hleap]
  · interval_cases month <;>
      simp [firstDayOfMonth, daysBeforeMonth, monthLength, hleap]

theorem daysBeforeMonth_twelve :
    daysBeforeMonth year 12 = daysFromYear (year + 1) - daysFromYear year := by
  rw [daysFromYear_succ]
  by_cases hleap : IsLeapYear year
  · simp [daysBeforeMonth, monthLength, hleap]
  · simp [daysBeforeMonth, monthLength, hleap]

theorem monthOfDay_spec {leap : Bool} {dayWithinYear : Int} : ∀ {rounds i : Nat},
    firstDayOfMonth leap i ≤ dayWithinYear → dayWithinYear < firstDayOfMonth leap (i + rounds) →
    i ≤ monthOfDay leap dayWithinYear rounds (i + 1) ∧
      monthOfDay leap dayWithinYear rounds (i + 1) < i + rounds ∧
      firstDayOfMonth leap (monthOfDay leap dayWithinYear rounds (i + 1)) ≤ dayWithinYear ∧
      dayWithinYear < firstDayOfMonth leap (monthOfDay leap dayWithinYear rounds (i + 1) + 1)
  | 0, i, hlow, hhigh => absurd hhigh (not_lt.mpr hlow)
  | rounds + 1, i, hlow, hhigh => by
      rw [monthOfDay]
      split_ifs with hfound
      · exact ⟨le_refl i, by omega, hlow, hfound⟩
      · rw [show i + (rounds + 1) = i + 1 + rounds by omega] at hhigh
        obtain ⟨hge, hlt, hin⟩ := monthOfDay_spec (not_lt.mp hfound) hhigh
        exact ⟨by omega, by omega, hin⟩

theorem timeInDay_fields {timeInDay : Int} (hlow : 0 ≤ timeInDay) :
    timeInDay.tdiv msPerHour = timeInDay / 3600000 ∧
      (timeInDay.tdiv msPerMinute).tmod 60 = timeInDay / 60000 % 60 ∧
      (timeInDay.tdiv 1000).tmod 60 = timeInDay / 1000 % 60 ∧
      timeInDay.tmod 1000 = timeInDay % 1000 := by
  simp only [msPerHour, msPerMinute, Int.tdiv_eq_ediv_of_nonneg hlow,
    Int.tmod_eq_emod_of_nonneg hlow]
  refine ⟨trivial, ?_, ?_, trivial⟩
  · rw [Int.tmod_eq_emod_of_nonneg (by omega)]
  · rw [Int.tmod_eq_emod_of_nonneg (by omega)]

theorem weekday_spec (days : Int) : let weekday := (days + 4).tmod 7
    (if 0 ≤ weekday then weekday else weekday + 7) = (days + 4) % 7 := by
  have hdiv := Int.mul_tdiv_add_tmod (days + 4) 7
  have hlow := Int.lt_tmod_of_pos (days + 4) (show (0 : Int) < 7 by decide)
  have hhigh := Int.tmod_lt_of_pos (days + 4) (show (0 : Int) < 7 by decide)
  simp only
  split_ifs <;> omega

theorem computeTimeInfoFromEpoch_eq (ht : InRange t) (gmtoff isdst : Int) :
    ∃ (month : Nat) (dayWithinYear timeInDay : Int), month < 12 ∧
      daysBeforeMonth (yearFromTime t) month ≤ dayWithinYear ∧
      dayWithinYear < daysBeforeMonth (yearFromTime t) month + monthLength (yearFromTime t) month ∧
      0 ≤ timeInDay ∧ timeInDay < msPerDay ∧
      t = msPerDay * (daysFromYear (yearFromTime t) + dayWithinYear) + timeInDay ∧
      computeTimeInfoFromEpoch t gmtoff isdst =
        { year := yearFromTime t
          month := month
          mday := dayWithinYear + 1 - daysBeforeMonth (yearFromTime t) month
          hour := timeInDay / 3600000
          min := timeInDay / 60000 % 60
          sec := timeInDay / 1000 % 60
          millisec := timeInDay % 1000
          wday := (daysFromYear (yearFromTime t) + dayWithinYear + 4) % 7
          gmtoff := gmtoff
          isdst := isdst } := by
  obtain ⟨hlow, hhigh⟩ := yearFromTime_bounds ht
  have hdays := daysFromTime_eq ht
  have hwithin : firstDayOfMonth (inLeapYear (yearFromTime t)) 0 ≤
        t / msPerDay - daysFromYear (yearFromTime t) ∧
      t / msPerDay - daysFromYear (yearFromTime t) <
        firstDayOfMonth (inLeapYear (yearFromTime t)) (0 + 12) := by
    rw [firstDayOfMonth_eq _ (by omega), firstDayOfMonth_eq _ (by omega),
      daysBeforeMonth_twelve, daysBeforeMonth]
    simp only [msPerDay] at *
    omega
  obtain ⟨-, hmonth, hfirst, hnext⟩ := monthOfDay_spec hwithin.1 hwithin.2
  have hclock : 0 ≤ t - t / msPerDay * msPerDay ∧ t - t / msPerDay * msPerDay < msPerDay := by
    simp only [msPerDay]
    omega
  obtain ⟨hhour, hmin, hsec, hmilli⟩ := timeInDay_fields hclock.1
  have hweekday := weekday_spec (t / msPerDay)
  have hday : daysFromYear (yearFromTime t) + (t / msPerDay - daysFromYear (yearFromTime t)) =
      t / msPerDay := by omega
  rw [firstDayOfMonth_eq _ (by omega)] at hfirst hnext
  rw [daysBeforeMonth] at hnext
  refine ⟨_, _, _, by omega, hfirst, hnext, hclock.1, hclock.2, ?_, ?_⟩
  · rw [hday]
    simp only [msPerDay]
    omega
  · rw [hday, ← firstDayOfMonth_eq _ (by omega)]
    simp only [computeTimeInfoFromEpoch, hdays, hhour, hmin, hsec, hmilli, hweekday]

theorem computeTimeInfoFromEpoch_isGregorian (ht : InRange t) (gmtoff isdst : Int) :
    IsGregorian t fun getter => getter.field (computeTimeInfoFromEpoch t gmtoff isdst) := by
  obtain ⟨month, dayWithinYear, timeInDay, hmonth, hfirst, hnext, hlow, hhigh, htime, hinfo⟩ :=
    computeTimeInfoFromEpoch_eq ht gmtoff isdst
  rw [hinfo]
  have hday : dayNumber (yearFromTime t) month
      (dayWithinYear + 1 - daysBeforeMonth (yearFromTime t) month) =
      daysFromYear (yearFromTime t) + dayWithinYear := by
    rw [dayNumber, Int.toNat_natCast]
    omega
  have hhigh : timeInDay < 86400000 := hhigh
  exact {
    month := by simp only [UtcGetter.field]; omega
    date := by simp only [UtcGetter.field]; omega
    hours := by simp only [UtcGetter.field]; omega
    minutes := by simp only [UtcGetter.field]; omega
    seconds := by simp only [UtcGetter.field]; omega
    milliseconds := by simp only [UtcGetter.field]; omega
    time := by
      simp only [UtcGetter.field]
      simp only [msPerDay, msPerHour, msPerMinute] at htime ⊢
      omega
    day := by
      simp only [UtcGetter.field]
      rw [hday]
      omega }

/-- The offsets are at most a day. -/
def WithinDay : Prop := ∀ t, |(zone t).1| ≤ 1440 ∧ |(zone t).2| ≤ 1440

theorem IsGregorian.unique {v : Int} {get : UtcGetter → Int} (ht : IsGregorian t get)
    (hv : IsGregorian v get) : t = v := ht.time.trans hv.time.symm

section Resolve

variable {zone : TimeZone} {t : Int}

theorem gmtoff_resolveLocalTimeInfo (zone : TimeZone) (t : Int) :
    (resolveLocalTimeInfo zone t).gmtoff * msPerMinute = -offset zone t := by
  simp only [resolveLocalTimeInfo, computeTimeInfoFromEpoch, offset]
  generalize zone (t + msBetweenYears t) = offsets
  rw [show -1 * (offsets.1 * msPerMinute + offsets.2 * msPerMinute) =
    -(offsets.1 + offsets.2) * msPerMinute by ring, Int.mul_tdiv_cancel _ (by decide)]
  ring

theorem resolveLocalTimeInfo_isGregorian (ht : InRange (t + offset zone t)) :
    IsGregorian (t + offset zone t) fun getter => getter.field (resolveLocalTimeInfo zone t) := by
  have hsum : t + msBetweenYears t + ((zone (t + msBetweenYears t)).1 * msPerMinute +
        (zone (t + msBetweenYears t)).2 * msPerMinute) - msBetweenYears t =
      t + offset zone t := by
    rw [offset]
    ring
  simp only [resolveLocalTimeInfo]
  rw [hsum]
  exact computeTimeInfoFromEpoch_isGregorian ht _ _

theorem offset_le (hzone : WithinDay zone) (t : Int) : |offset zone t| ≤ 2 * msPerDay := by
  obtain ⟨hstd, hdst⟩ := hzone (t + msBetweenYears t)
  rw [offset]
  rw [abs_le] at *
  simp only [msPerMinute, msPerDay]
  omega

/-- A valid time stays in range when it is shifted by two offsets. -/
theorem inRange_add_sub (hzone : WithinDay zone) (ht : |t| ≤ maximumDatePrimitiveValue)
    (t₁ t₂ : Int) : InRange (t - offset zone t₁ + offset zone t₂) := by
  have hsub := offset_le hzone t₁
  have hadd := offset_le hzone t₂
  rw [InRange]
  rw [abs_le] at *
  omega

end Resolve

/-- What is cached was resolved from its key. -/
structure Resolved (zone : TimeZone) (state : DateState) : Prop where
  dates : ∀ date ∈ state.dates, ∀ info ∈ date.cachedLocal,
    info = resolveLocalTimeInfo zone date.primitiveValue
  cachedUTC : ∀ cache ∈ state.cachedUTC,
    cache.info = resolveLocalTimeInfo zone cache.primitiveValueUTC

section Cache

variable {zone : TimeZone} {state : DateState} {date : DateObject}

theorem localInfo_eq (hresolved : ∀ info ∈ date.cachedLocal,
      info = resolveLocalTimeInfo zone date.primitiveValue) :
    date.localInfo zone = resolveLocalTimeInfo zone date.primitiveValue := by
  rw [localInfo]
  cases hcached : date.cachedLocal with
  | none => rfl
  | some info => exact hresolved info hcached

theorem resolveUTC_info (zone : TimeZone) (date : DateObject) : (date.resolveUTC zone).info =
      resolveLocalTimeInfo zone (date.resolveUTC zone).primitiveValueUTC := by
  simp only [resolveUTC]
  split <;> rfl

theorem cacheUTC_info {cachedUTC : Option CachedUTCDateTimeInfo} (hresolved : ∀ cache ∈ cachedUTC,
      cache.info = resolveLocalTimeInfo zone cache.primitiveValueUTC) :
    (date.cacheUTC zone cachedUTC).info =
      resolveLocalTimeInfo zone (date.cacheUTC zone cachedUTC).primitiveValueUTC := by
  cases cachedUTC with
  | none => exact resolveUTC_info zone date
  | some cache =>
    simp only [cacheUTC]
    split
    · exact resolveUTC_info zone date
    · exact hresolved cache rfl

theorem Resolved.step (hresolved : Resolved zone state) (operation : DateOperation) :
    Resolved zone (state.step zone operation) := by
  cases operation with
  | newDate t =>
    refine ⟨fun date hdate info hinfo => ?_, hresolved.cachedUTC⟩
    rcases List.mem_append.mp hdate with hold | hnew
    · exact hresolved.dates date hold info hinfo
    · cases List.mem_singleton.mp hnew
      cases hinfo
  | setTime position t =>
    refine ⟨fun date hdate info hinfo => ?_, hresolved.cachedUTC⟩
    rcases mem_or_eq_of_mem_set hdate with hold | rfl
    · exact hresolved.dates date hold info hinfo
    · cases hinfo
  | getUTC position getter =>
    rw [DateState.step]
    cases hposition : state.dates[position]? with
    | none => exact hresolved
    | some found =>
      have hfound := mem_of_getElem? hposition
      refine ⟨fun date hdate info hinfo => ?_, fun cache hcache => ?_⟩
      · rcases mem_or_eq_of_mem_set hdate with hold | rfl
        · exact hresolved.dates date hold info hinfo
        · cases hinfo
          exact localInfo_eq (hresolved.dates found hfound)
      · cases hcache
        exact cacheUTC_info hresolved.cachedUTC

def DateState.run (zone : TimeZone) (history : List DateOperation) : DateState :=
  history.foldl (DateState.step zone) ⟨[], none⟩

theorem resolved_run (zone : TimeZone) (history : List DateOperation) :
    Resolved zone (DateState.run zone history) := by
  apply List.foldlRecOn history
  · exact ⟨fun _ hdate => absurd hdate not_mem_nil, fun _ hcache => by cases hcache⟩
  · exact fun _ hresolved operation _ => hresolved.step operation

/-- The offset is found: it is the same one offset away from the time, or the cache does not
have that instant and the offset is the same one further offset away. -/
def OffsetFound (zone : TimeZone) (cachedUTC : Option CachedUTCDateTimeInfo) (t : Int) : Prop :=
  let shifted := t - offset zone t
  offset zone shifted = offset zone t ∨
    (cachedUTC.map CachedUTCDateTimeInfo.primitiveValueUTC ≠ some shifted ∧
      offset zone (t - offset zone shifted) = offset zone shifted)

/-- The key after a getter: the shifted time, or on a miss where the offset is another one, the
time shifted by that. -/
theorem primitiveValueUTC_cacheUTC (cachedUTC : Option CachedUTCDateTimeInfo)
    (hlocal : date.localInfo zone = resolveLocalTimeInfo zone date.primitiveValue) :
    let t : Int := date.primitiveValue
    let shifted := t - offset zone t
    (date.cacheUTC zone cachedUTC).primitiveValueUTC =
      if cachedUTC.map CachedUTCDateTimeInfo.primitiveValueUTC = some shifted ∨
          offset zone shifted = offset zone t then shifted
      else t - offset zone shifted := by
  have hshift : ∀ v : Int, (date.primitiveValue : Int) +
      (resolveLocalTimeInfo zone v).gmtoff * msPerMinute = date.primitiveValue - offset zone v := by
    intro v
    rw [gmtoff_resolveLocalTimeInfo]
    ring
  have hgmtoff : ∀ v w : Int, (resolveLocalTimeInfo zone v).gmtoff =
      (resolveLocalTimeInfo zone w).gmtoff ↔ offset zone v = offset zone w := by
    intro v w
    have hv := gmtoff_resolveLocalTimeInfo zone v
    have hw := gmtoff_resolveLocalTimeInfo zone w
    simp only [msPerMinute] at hv hw
    omega
  have hmiss : (date.resolveUTC zone).primitiveValueUTC =
      if offset zone (date.primitiveValue - offset zone date.primitiveValue) =
        offset zone date.primitiveValue then date.primitiveValue - offset zone date.primitiveValue
      else date.primitiveValue -
        offset zone (date.primitiveValue - offset zone date.primitiveValue) := by
    simp only [resolveUTC, hlocal, hshift, ne_eq, hgmtoff]
    split_ifs <;> rfl
  simp only [cacheUTC, hlocal, hshift]
  cases cachedUTC with
  | none => simpa using hmiss
  | some cache =>
    by_cases hhit : cache.primitiveValueUTC = date.primitiveValue - offset zone date.primitiveValue
    · simp [hhit]
    · simpa [hhit] using hmiss

/-- After every history and for every date, the getters answer the fields of its time exactly
when the offset is found. -/
theorem getUTC_isGregorian_iff (hzone : WithinDay zone) (history : List DateOperation)
    (hdate : date ∈ (DateState.run zone history).dates) :
    IsGregorian date.primitiveValue (date.getUTC zone (DateState.run zone history)) ↔
      OffsetFound zone (DateState.run zone history).cachedUTC date.primitiveValue := by
  have hresolved := resolved_run zone history
  generalize DateState.run zone history = state at *
  have hlocal := localInfo_eq (hresolved.dates date hdate)
  have hinfo : (date.cacheUTC zone state.cachedUTC).info =
      resolveLocalTimeInfo zone (date.cacheUTC zone state.cachedUTC).primitiveValueUTC :=
    cacheUTC_info hresolved.cachedUTC
  have hkey := primitiveValueUTC_cacheUTC state.cachedUTC hlocal
  have hget : date.getUTC zone state = fun getter =>
      getter.field (date.cacheUTC zone state.cachedUTC).info := rfl
  obtain ⟨key, hkeyDef⟩ : ∃ key, key = (date.cacheUTC zone state.cachedUTC).primitiveValueUTC :=
    ⟨_, rfl⟩
  rw [← hkeyDef] at hkey hinfo
  simp only at hkey
  have hrange : InRange (key + offset zone key) := by
    rw [hkey]
    split <;> exact inRange_add_sub hzone date.primitiveValue.2 _ _
  have hanswer := resolveLocalTimeInfo_isGregorian hrange
  rw [hget, hinfo]
  have hfound : OffsetFound zone state.cachedUTC date.primitiveValue ↔
      key + offset zone key = date.primitiveValue := by
    simp only [OffsetFound]
    split_ifs at hkey with hcond
    · rw [hkey]
      rcases hcond with hhit | hsame
      · simp only [hhit, ne_eq, not_true_eq_false, false_and, or_false]
        omega
      · simp only [hsame, true_or, true_iff]
        omega
    · rw [not_or] at hcond
      rw [hkey]
      simp only [ne_eq, hcond.1, hcond.2, not_false_eq_true, true_and, false_or]
      omega
  rw [hfound]
  constructor
  · exact fun hgregorian => hanswer.unique hgregorian
  · intro heq
    rw [← heq]
    exact hanswer

/-- The first date of the epoch, an hour east, after its hours were asked for. -/
theorem getUTC_isGregorian_epoch : IsGregorian 0 (getUTC (fun _ => (60, 0))
      (DateState.run (fun _ => (60, 0)) [.newDate ⟨0, by decide⟩, .getUTC 0 .hours])
      ⟨⟨0, by decide⟩, some (resolveLocalTimeInfo (fun _ => (60, 0)) 0)⟩) :=
  (getUTC_isGregorian_iff (fun _ => by decide) [.newDate ⟨0, by decide⟩, .getUTC 0 .hours]
    (List.mem_singleton.mpr rfl)).mpr (Or.inl rfl)

/-- New York around the night of March 2021 in which the clock springs forward. -/
def springForward : TimeZone := fun t => if t < 1615705200000 then (-300, 0) else (-300, 60)

/-- Half past two in the morning, UTC. -/
def springNight : { t : Int // |t| ≤ maximumDatePrimitiveValue } := ⟨1615689000000, by decide⟩

theorem springForward_withinDay : WithinDay springForward := by
  intro t
  rw [springForward]
  split <;> decide

/-- The offset five hours later is another one, so that the hour is that of an hour before. -/
theorem spring_night_is_an_hour_early :
    ¬ ∀ zone, WithinDay zone → ∀ history, ∀ date ∈ (DateState.run zone history).dates,
      IsGregorian date.primitiveValue (date.getUTC zone (DateState.run zone history)) := by
  intro hgregorian
  have hnight := hgregorian springForward springForward_withinDay [.newDate springNight]
    ⟨springNight, none⟩ (List.mem_singleton.mpr rfl)
  have htime := hnight.time
  revert htime
  decide +kernel

end Cache

end DateObject

end Escargot.Runtime
