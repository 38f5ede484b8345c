/-
# The fields of a time value, one by one

`yearFromTime`, `monthFromTime`, `dateFromTime` and the functions for the time of day
find one field each. The month is searched for in a table of the days up to its end,
by halving; a read outside of the table has no value here.
-/

import Escargot.Time.SetTimeValue

namespace Escargot.Runtime.DateObject

open Option

def monthNumberHelper : List Int := [31, 59, 90, 120, 151, 181, 212, 243, 273, 304, 334, 365]

def monthNumberAt (index : Int) : Option Int :=
  if 0 ≤ index then monthNumberHelper[index.toNat]? else none

/-- The search of `DateObject::monthFromTime`, for a number of rounds at most. -/
def monthSearch (day : Int) : Nat → Int → Int → Option Int
  | 0, _, _ => none
  | rounds + 1, l, r =>
    let m := l + (r - l).tdiv 2
    (monthNumberAt m).bind fun last =>
      if day ≤ last then
        (monthNumberAt (m - 1)).bind fun before =>
          if before < day then some (if last = day then m + 1 else m)
          else monthSearch day rounds l (m - 1)
      else monthSearch day rounds (m + 1) r

variable (t : Int)

/-- `daysFromTime(t) - daysFromYear(year)`. -/
def dayWithinYear : Int := daysFromTime t - daysFromYear (yearFromTime t)

def monthFromTime : Option Int :=
  let day := dayWithinYear t
  let leap := inLeapYear (yearFromTime t)
  if day < 31 then some 0
  else monthSearch (day - if leap then 1 else 0) 12 0 10

def dateFromTime : Option Int :=
  let leap := inLeapYear (yearFromTime t)
  (monthFromTime t).bind fun monthNumber =>
    if monthNumber = 0 then some (dayWithinYear t + 1)
    else if monthNumber = 1 then
      (monthNumberAt 0).map fun last => dayWithinYear t - (last - 1)
    else
      (monthNumberAt (monthNumber - 1)).map fun last =>
        dayWithinYear t - (last - 1) - if leap then 1 else 0

def fieldFromTime (unit count t : Int) : Int :=
  if 0 ≤ t then (t.tdiv unit).tmod count
  else
    let field := ((t - (unit - 1)).tdiv unit).tmod count
    if field = 0 then 0 else count + field

def hourFromTime : Int := fieldFromTime msPerHour 24 t

def minFromTime : Int := fieldFromTime msPerMinute 60 t

/-- `DateObject::secFromTime`. For a negative time the number of seconds becomes an `int` before
the remainder is taken. -/
def secFromTime : Int :=
  if 0 ≤ t then (t.tdiv 1000).tmod 60
  else
    let seconds := (((t - (1000 - 1)).tdiv 1000).bmod (2 ^ 32)).tmod 60
    if seconds = 0 then 0 else 60 + seconds

def msFromTime : Int :=
  let milliseconds := t.tmod 1000
  if 0 ≤ milliseconds then milliseconds else 1000 + milliseconds

def fieldsFromTime : Option TimeFields :=
  (monthFromTime t).bind fun month =>
  (dateFromTime t).map fun date =>
    { year := yearFromTime t
      month := month
      date := date
      hour := hourFromTime t
      minute := minFromTime t
      second := secFromTime t
      millisecond := msFromTime t }

def DateTimeInfo.fields (info : DateTimeInfo) : TimeFields where
  year := info.year
  month := info.month
  date := info.mday
  hour := info.hour
  minute := info.min
  second := info.sec
  millisecond := info.millisec

/-- A day of the proleptic Gregorian calendar and a time of day. -/
structure TimeFields.IsCivil (fields : TimeFields) : Prop where
  month : 0 ≤ fields.month ∧ fields.month < 12
  date : 1 ≤ fields.date ∧ fields.date ≤ monthLength fields.year fields.month
  hour : 0 ≤ fields.hour ∧ fields.hour < 24
  minute : 0 ≤ fields.minute ∧ fields.minute < 60
  second : 0 ≤ fields.second ∧ fields.second < 60
  millisecond : 0 ≤ fields.millisecond ∧ fields.millisecond < 1000

def TimeFields.toMs (fields : TimeFields) : Option Int :=
  timeinfoToMs fields.year fields.month.toNat fields.date fields.hour fields.minute fields.second
    fields.millisecond

/-- Fields are those of a time: they are civil, their milliseconds are the time, and no others are
so. -/
structure TimeFields.IsOf (fields : TimeFields) (t : Int) : Prop where
  civil : fields.IsCivil
  toMs : fields.toMs = some t
  unique : ∀ other : TimeFields, other.IsCivil → other.toMs = some t → other = fields

theorem daysFromYear_strictMono : StrictMono daysFromYear :=
  strictMono_int_of_lt_succ daysFromYear_lt

theorem daysBeforeMonth_strictMono (year : Int) : StrictMono (daysBeforeMonth year) := by
  apply strictMono_nat_of_lt_succ
  intro month
  have hlength := monthLength_bounds year month
  rw [daysBeforeMonth]
  omega

theorem year_unique (day : Int) {year other : Int} (hlow : daysFromYear year ≤ day)
    (hhigh : day < daysFromYear (year + 1)) (hlow' : daysFromYear other ≤ day)
    (hhigh' : day < daysFromYear (other + 1)) : other = year := by
  have hle := daysFromYear_strictMono.lt_iff_lt.mp (hlow.trans_lt hhigh')
  have hge := daysFromYear_strictMono.lt_iff_lt.mp (hlow'.trans_lt hhigh)
  omega

theorem month_unique (year day : Int) {month other : Nat} (hlow : daysBeforeMonth year month ≤ day)
    (hhigh : day < daysBeforeMonth year (month + 1)) (hlow' : daysBeforeMonth year other ≤ day)
    (hhigh' : day < daysBeforeMonth year (other + 1)) : other = month := by
  have hle := (daysBeforeMonth_strictMono year).lt_iff_lt.mp (hlow.trans_lt hhigh')
  have hge := (daysBeforeMonth_strictMono year).lt_iff_lt.mp (hlow'.trans_lt hhigh)
  omega

theorem dayNumber_bounds {year date : Int} {month : Nat} (hmonth : month < 12) (hlow : 1 ≤ date)
    (hhigh : date ≤ monthLength year month) :
    daysFromYear year ≤ dayNumber year month date ∧
      dayNumber year month date < daysFromYear (year + 1) := by
  have hbefore := daysBeforeMonth_bounds year month
  have hnext : daysBeforeMonth year (month + 1) ≤ daysBeforeMonth year 12 :=
    (daysBeforeMonth_strictMono year).monotone hmonth
  rw [daysBeforeMonth_twelve, daysBeforeMonth] at hnext
  rw [dayNumber, Int.toNat_natCast]
  omega

theorem dayNumber_injective {year year' date date' : Int} {month month' : Nat}
    (hmonth : month < 12) (hlow : 1 ≤ date) (hhigh : date ≤ monthLength year month)
    (hmonth' : month' < 12) (hlow' : 1 ≤ date') (hhigh' : date' ≤ monthLength year' month')
    (hday : dayNumber year' month' date' = dayNumber year month date) :
    year' = year ∧ month' = month ∧ date' = date := by
  have hbounds := dayNumber_bounds hmonth hlow hhigh
  have hbounds' := dayNumber_bounds hmonth' hlow' hhigh'
  rw [hday] at hbounds'
  obtain rfl := year_unique _ hbounds.1 hbounds.2 hbounds'.1 hbounds'.2
  simp only [dayNumber, Int.toNat_natCast] at hday
  have hsame : month' = month := by
    refine month_unique year' (daysBeforeMonth year' month + (date - 1)) ?_ ?_ ?_ ?_
    · omega
    · rw [daysBeforeMonth]; omega
    · omega
    · rw [daysBeforeMonth]; omega
  subst hsame
  exact ⟨rfl, rfl, by omega⟩

theorem TimeFields.IsCivil.toMs_eq_some {fields : TimeFields} (hcivil : fields.IsCivil) {t : Int}
    (ht : t ≠ time64Nan) : fields.toMs = some t ↔ |fields.year - 1970| ≤ 1000000 ∧
        makeDate (dayNumber fields.year fields.month fields.date)
          (makeTime fields.hour fields.minute fields.second fields.millisecond) = t := by
  have hmonth := hcivil.month
  have hdate := hcivil.date
  have hhour := hcivil.hour
  have hminute := hcivil.minute
  have hsecond := hcivil.second
  have hmillisecond := hcivil.millisecond
  have hlength := monthLength_bounds fields.year fields.month
  rw [TimeFields.toMs]
  by_cases hyear : |fields.year - 1970| ≤ 1000000
  · have hcast : ((fields.month.toNat : Nat) : Int) = fields.month := Int.toNat_of_nonneg hmonth.1
    have hdays := daysFromYear_bounds hyear
    have hbefore := daysBeforeMonth_bounds fields.year fields.month.toNat
    have hnumber : -365242531 ≤ dayNumber fields.year fields.month fields.date ∧
        dayNumber fields.year fields.month fields.date ≤ 365242900 := by
      rw [dayNumber]
      omega
    rw [timeinfoToMs_eq_some hyear (by omega) (by rw [abs_le]; omega) (by rw [abs_le]; omega)
      (by rw [abs_le]; omega), hcast]
    simp only [makeDate, makeTime, msPerDay, msPerHour, msPerMinute, fitsWidth_64, hyear, true_and]
    omega
  · rw [timeinfoToMs_of_far hyear]
    simp only [hyear, false_and, Option.some.injEq, iff_false]
    exact fun hnan => ht hnan.symm

/-- Civil fields of one time are the same. -/
theorem TimeFields.IsCivil.eq_of_time {fields other : TimeFields} (hcivil : fields.IsCivil)
    (hother : other.IsCivil) (hother' : makeDate (dayNumber other.year other.month other.date)
        (makeTime other.hour other.minute other.second other.millisecond) =
      makeDate (dayNumber fields.year fields.month fields.date)
        (makeTime fields.hour fields.minute fields.second fields.millisecond)) :
    other = fields := by
  have hhour := hcivil.hour
  have hminute := hcivil.minute
  have hsecond := hcivil.second
  have hmillisecond := hcivil.millisecond
  have hhour' := hother.hour
  have hminute' := hother.minute
  have hsecond' := hother.second
  have hmillisecond' := hother.millisecond
  simp only [makeDate, makeTime, msPerDay, msPerHour, msPerMinute] at hother'
  have hday : dayNumber other.year other.month other.date =
      dayNumber fields.year fields.month fields.date := by omega
  have hmonth : ((fields.month.toNat : Nat) : Int) = fields.month :=
    Int.toNat_of_nonneg hcivil.month.1
  have hmonth' : ((other.month.toNat : Nat) : Int) = other.month :=
    Int.toNat_of_nonneg hother.month.1
  have hdate := hcivil.date
  have hdate' := hother.date
  have hlimit := hcivil.month
  have hlimit' := hother.month
  rw [← hmonth, ← hmonth'] at hday
  rw [← hmonth] at hdate
  rw [← hmonth'] at hdate'
  obtain ⟨hyear, hsame, hmday⟩ := dayNumber_injective (by omega) hdate.1 hdate.2 (by omega)
    hdate'.1 hdate'.2 hday
  cases fields
  cases other
  simp only [TimeFields.mk.injEq] at *
  omega

theorem TimeFields.IsCivil.isOf {fields : TimeFields} (hcivil : fields.IsCivil) {t : Int}
    (ht : t ≠ time64Nan) (htoMs : fields.toMs = some t) : fields.IsOf t := by
  refine ⟨hcivil, htoMs, fun other hother hothertoMs => hcivil.eq_of_time hother ?_⟩
  obtain ⟨-, hinstant⟩ := (hcivil.toMs_eq_some ht).mp htoMs
  obtain ⟨-, hother'⟩ := (hother.toMs_eq_some ht).mp hothertoMs
  rw [hinstant, hother']

theorem monthNumberAt_eq {m : Int} (hlow : 0 ≤ m) (hhigh : m < 12) :
    monthNumberAt m = some (firstDayOfMonth false (m.toNat + 1)) := by
  interval_cases m <;> rfl

/-- Where the answer is when the search has come to a range. -/
structure Enclosed (day l r : Int) : Prop where
  low : 0 ≤ l
  high : r ≤ 10
  ordered : l ≤ r + 1
  before : firstDayOfMonth false l.toNat < day
  last : day ≤ firstDayOfMonth false (r + 2).toNat

/-- The range gets smaller until the month is found, and the days before the first month are never
asked for. -/
theorem monthSearch_spec {day : Int} (hday : 31 < day) : ∀ {rounds : Nat} {l r : Int},
    Enclosed day l r → r - l + 1 < rounds →
    ∃ m : Nat, m < 12 ∧ firstDayOfMonth false m < day ∧ day ≤ firstDayOfMonth false (m + 1) ∧
      monthSearch day rounds l r =
        some (if firstDayOfMonth false (m + 1) = day then (m : Int) + 1 else m)
  | 0, l, r, hrange, hrounds => by
      have hordered := hrange.ordered
      omega
  | rounds + 1, l, r, hrange, hrounds => by
      obtain ⟨hlow, hhigh, hordered, hbefore, hlast⟩ := hrange
      have hmiddle : 0 ≤ l + (r - l).tdiv 2 ∧ l ≤ l + (r - l).tdiv 2 ∧
          l + (r - l).tdiv 2 ≤ r + 1 ∧ (l ≤ r → l + (r - l).tdiv 2 ≤ r) := by
        obtain hempty | hnonneg : r - l = -1 ∨ 0 ≤ r - l := by omega
        · rw [hempty, show Int.tdiv (-1) 2 = 0 from rfl]
          omega
        · rw [Int.tdiv_eq_ediv_of_nonneg hnonneg]
          omega
      rw [monthSearch]
      generalize l + (r - l).tdiv 2 = m at hmiddle ⊢
      obtain ⟨m, rfl⟩ := Int.eq_ofNat_of_zero_le hmiddle.1
      obtain ⟨-, hl, hr, hinside⟩ := hmiddle
      simp only [monthNumberAt_eq (Int.natCast_nonneg m) (by omega), bind_some, Int.toNat_natCast]
      by_cases hfound : day ≤ firstDayOfMonth false (m + 1)
      · have hpos : 1 ≤ m := by
          by_contra hzero
          obtain rfl : m = 0 := by omega
          exact absurd (hday.trans_le hfound) (lt_irrefl 31)
        have hpred : ((m : Int) - 1).toNat + 1 = m := by omega
        rw [if_pos hfound, monthNumberAt_eq (by omega) (by omega), hpred, bind_some]
        by_cases habove : firstDayOfMonth false m < day
        · refine ⟨m, by omega, habove, hfound, ?_⟩
          rw [if_pos habove]
        · rw [if_neg habove]
          have hlm : l ≤ (m : Int) - 1 := by
            by_contra hfirst
            obtain rfl : l = m := by omega
            exact habove hbefore
          refine monthSearch_spec hday ⟨hlow, by omega, by omega, hbefore, ?_⟩ (by omega)
          rw [show ((m : Int) - 1 + 2).toNat = m + 1 by omega]
          exact hfound
      · rw [if_neg hfound]
        have hmr : (m : Int) ≤ r := by
          by_contra hlastMonth
          rw [show (r + 2).toNat = m + 1 by omega] at hlast
          exact hfound hlast
        refine monthSearch_spec hday ⟨by omega, hhigh, by omega, ?_, hlast⟩ (by omega)
        rw [show ((m : Int) + 1).toNat = m + 1 by omega]
        exact not_le.mp hfound

/-- The days around the end of January are looked up before the table. -/
theorem monthSearch_outside {day : Int} (hlow : 30 ≤ day) (hhigh : day ≤ 31) :
    monthSearch day 12 0 10 = none := by
  obtain rfl | rfl : day = 30 ∨ day = 31 := by omega
  · rfl
  · rfl

/-- The search leaves the table on the first of February, and on the second in a leap year. -/
def SearchStaysInside : Prop :=
  ∀ year, t / msPerDay ≠ dayNumber year 1 1 ∧ (IsLeapYear year → t / msPerDay ≠ dayNumber year 1 2)

section Fields

variable {t : Int}

theorem dayWithinYear_bounds (ht : InRange t) :
    0 ≤ dayWithinYear t ∧ dayWithinYear t < daysBeforeMonth (yearFromTime t) 12 ∧
      t / msPerDay = daysFromYear (yearFromTime t) + dayWithinYear t := by
  obtain ⟨hlow, hhigh⟩ := yearFromTime_bounds ht
  rw [dayWithinYear, daysFromTime_eq ht, daysBeforeMonth_twelve]
  simp only [msPerDay] at *
  omega

theorem searchStaysInside_iff (ht : InRange t) : SearchStaysInside t ↔ dayWithinYear t ≠ 31 ∧
      (IsLeapYear (yearFromTime t) → dayWithinYear t ≠ 32) := by
  obtain ⟨hlow, hhigh, hday⟩ := dayWithinYear_bounds ht
  rw [daysBeforeMonth_twelve] at hhigh
  have hnumber : ∀ year date, dayNumber year 1 date = daysFromYear year + 31 + (date - 1) :=
    fun _ _ => rfl
  have hyear : ∀ year k, 0 ≤ k → k < 60 → t / msPerDay = daysFromYear year + k →
      year = yearFromTime t := by
    intro year k hk hlimit hsame
    have hlength : daysFromYear year + 60 ≤ daysFromYear (year + 1) := by
      rw [daysFromYear_succ]
      split_ifs <;> omega
    exact year_unique (t / msPerDay) (by omega) (by omega) (by omega) (by omega)
  simp only [SearchStaysInside, hnumber]
  constructor
  · intro hinside
    obtain ⟨hfirst, hsecond⟩ := hinside (yearFromTime t)
    refine ⟨by omega, fun hleap => ?_⟩
    have := hsecond hleap
    omega
  · rintro ⟨hfirst, hsecond⟩ year
    refine ⟨fun hsame => ?_, fun hleap hsame => ?_⟩
    · have hthis := hyear year 31 (by omega) (by omega) (by omega)
      subst hthis
      omega
    · have hthis := hyear year 32 (by omega) (by omega) (by omega)
      subst hthis
      have := hsecond hleap
      omega

theorem daysBeforeMonth_of_two_le (year : Int) {month : Nat} (htwo : 2 ≤ month)
    (htwelve : month ≤ 12) : daysBeforeMonth year month =
      firstDayOfMonth false month + if inLeapYear year then 1 else 0 := by
  rw [← firstDayOfMonth_eq year htwelve, firstDayOfMonth, firstDayOfMonth]
  cases inLeapYear year with
  | false => simp
  | true => simp [htwo]

theorem monthFromTime_eq (ht : InRange t) (hinside : SearchStaysInside t) :
    ∃ month : Nat, month < 12 ∧ daysBeforeMonth (yearFromTime t) month ≤ dayWithinYear t ∧
      dayWithinYear t < daysBeforeMonth (yearFromTime t) (month + 1) ∧
      monthFromTime t = some (month : Int) := by
  obtain ⟨hlow, hhigh, -⟩ := dayWithinYear_bounds ht
  obtain ⟨hfirst, hsecond⟩ := (searchStaysInside_iff ht).mp hinside
  have hmonths : ∀ month : Nat, 2 ≤ month → month ≤ 12 → daysBeforeMonth (yearFromTime t) month =
        firstDayOfMonth false month + if inLeapYear (yearFromTime t) then 1 else 0 :=
    fun month => daysBeforeMonth_of_two_le (yearFromTime t)
  have hjanuary : daysBeforeMonth (yearFromTime t) 1 = 31 := rfl
  have hyear : firstDayOfMonth false 12 = 365 := rfl
  have hlater : dayWithinYear t < 31 ∨
      31 < dayWithinYear t - if inLeapYear (yearFromTime t) then 1 else 0 := by
    rw [inLeapYear_eq]
    by_cases hleap : IsLeapYear (yearFromTime t)
    · have := hsecond hleap
      simp only [hleap, decide_true, if_true]
      omega
    · simp only [hleap, decide_false, Bool.false_eq_true, if_false]
      omega
  rw [hmonths 12 (by omega) (by omega), hyear] at hhigh
  simp only [monthFromTime]
  by_cases hearly : dayWithinYear t < 31
  · refine ⟨0, by omega, hlow, by rw [hjanuary]; exact hearly, ?_⟩
    rw [if_pos hearly]
    rfl
  · rw [if_neg hearly]
    have hextra : (0 : Int) ≤ (if inLeapYear (yearFromTime t) then 1 else 0) := by split <;> decide
    generalize (if inLeapYear (yearFromTime t) then (1 : Int) else 0) = extra at *
    have hday : 31 < dayWithinYear t - extra := hlater.resolve_left hearly
    have hrange : Enclosed (dayWithinYear t - extra) 0 10 := by
      refine ⟨by omega, by omega, by omega, ?_, ?_⟩
      · exact lt_trans (show (0 : Int) < 31 by decide) hday
      · rw [show ((10 : Int) + 2).toNat = 12 from rfl, hyear]
        omega
    obtain ⟨m, hm, hbefore, hlast, hsearch⟩ := monthSearch_spec hday hrange
      (show (10 : Int) - 0 + 1 < (12 : Nat) by decide)
    rw [hsearch]
    have hpos : 1 ≤ m := by
      by_contra hzero
      obtain rfl : m = 0 := by omega
      exact absurd (hday.trans_le hlast) (lt_irrefl 31)
    split_ifs with hend
    · -- the first day of the next month
      have hnext : m + 1 < 12 := by
        by_contra hyearEnd
        rw [show m + 1 = 12 by omega, hyear] at hend
        omega
      have hstart := hmonths (m + 1) (by omega) (by omega)
      have hmono := daysBeforeMonth_strictMono (yearFromTime t) (Nat.lt_add_one (m + 1))
      refine ⟨m + 1, hnext, by omega, by omega, by push_cast; rfl⟩
    · have hstop := hmonths (m + 1) (by omega) (by omega)
      refine ⟨m, hm, ?_, by omega, rfl⟩
      obtain rfl | htwo : m = 1 ∨ 2 ≤ m := by omega
      · omega
      · rw [hmonths m htwo (by omega)]
        omega

theorem monthFromTime_outside (ht : InRange t) (houtside : ¬SearchStaysInside t) :
    monthFromTime t = none := by
  rw [searchStaysInside_iff ht] at houtside
  have hleap := inLeapYear_eq (yearFromTime t)
  by_cases hyear : IsLeapYear (yearFromTime t)
  · have hday : dayWithinYear t = 31 ∨ dayWithinYear t = 32 := by
      by_contra hother
      exact houtside ⟨fun h => hother (Or.inl h), fun _ h => hother (Or.inr h)⟩
    simp only [monthFromTime, hleap, hyear, decide_true, if_true]
    rw [if_neg (by omega)]
    exact monthSearch_outside (by omega) (by omega)
  · have hday : dayWithinYear t = 31 := by
      by_contra hother
      exact houtside ⟨hother, fun h => absurd h hyear⟩
    simp only [monthFromTime, hleap, hyear, decide_false, Bool.false_eq_true, if_false]
    rw [if_neg (by omega)]
    exact monthSearch_outside (by omega) (by omega)

theorem dateFromTime_eq {month : Nat} (hmonth : month < 12)
    (hfound : monthFromTime t = some (month : Int)) :
    dateFromTime t = some (dayWithinYear t + 1 - daysBeforeMonth (yearFromTime t) month) := by
  rw [dateFromTime, hfound]
  simp only [bind_some]
  obtain rfl | rfl | htwo : month = 0 ∨ month = 1 ∨ 2 ≤ month := by omega
  · simp [daysBeforeMonth]
  · simp only [Nat.cast_one, one_ne_zero, if_false, if_true]
    rw [monthNumberAt_eq (by decide) (by decide), map_some, Option.some.injEq]
    simp only [firstDayOfMonth, daysBeforeMonth, monthLength]
    simp
    omega
  · rw [if_neg (by omega), if_neg (by omega), monthNumberAt_eq (by omega) (by omega), map_some,
      Option.some.injEq, show ((month : Int) - 1).toNat + 1 = month by omega,
      daysBeforeMonth_of_two_le _ htwo (by omega)]
    ring

theorem tdiv_sub_eq {unit : Int} (hunit : 0 < unit) (ht : t < 0) :
    (t - (unit - 1)).tdiv unit = t / unit := by
  have hdiv := Int.mul_tdiv_add_tmod (t - (unit - 1)) unit
  have hmin := Int.lt_tmod_of_pos (t - (unit - 1)) hunit
  have hnonpos : (t - (unit - 1)).tmod unit ≤ 0 := by
    have hneg := Int.tmod_nonneg unit (show 0 ≤ -(t - (unit - 1)) by omega)
    rw [Int.neg_tmod] at hneg
    omega
  symm
  rw [Int.ediv_eq_iff_of_pos hunit, Int.mul_comm]
  omega

theorem tmod_add_eq {count field : Int} (hcount : 0 < count) (hfield : field ≤ 0) :
    (if field.tmod count = 0 then 0 else count + field.tmod count) = field % count := by
  have hdiv := Int.mul_tdiv_add_tmod field count
  have hmin := Int.lt_tmod_of_pos field hcount
  have hnonpos : field.tmod count ≤ 0 := by
    have hneg := Int.tmod_nonneg count (show 0 ≤ -field by omega)
    rw [Int.neg_tmod] at hneg
    omega
  symm
  split_ifs with hzero
  · exact ((Int.ediv_emod_unique hcount).mpr
      ⟨show 0 + count * field.tdiv count = field by omega, le_refl _, hcount⟩).2
  · refine ((Int.ediv_emod_unique (q := field.tdiv count - 1) hcount).mpr ⟨?_, ?_, ?_⟩).2
    · rw [mul_sub, mul_one]
      omega
    · omega
    · omega

theorem fieldFromTime_eq {unit count : Int} (hunit : 0 < unit) (hcount : 0 < count) (t : Int) :
    fieldFromTime unit count t = t / unit % count := by
  rw [fieldFromTime]
  split_ifs with hnonneg
  · rw [Int.tdiv_eq_ediv_of_nonneg hnonneg,
      Int.tmod_eq_emod_of_nonneg (Int.ediv_nonneg hnonneg hunit.le)]
  · have hneg : t / unit < 0 := Int.ediv_neg_of_neg_of_pos (by omega) hunit
    rw [tdiv_sub_eq hunit (by omega)]
    exact tmod_add_eq hcount hneg.le

theorem msFromTime_eq (t : Int) : msFromTime t = t % 1000 := by
  simp only [msFromTime]
  by_cases hnonneg : 0 ≤ t
  · rw [Int.tmod_eq_emod_of_nonneg hnonneg, if_pos (Int.emod_nonneg t (by decide))]
  · have hmod := tmod_add_eq (show (0 : Int) < 1000 by decide) (show t ≤ 0 by omega)
    split_ifs <;> omega

/-- How often `2 ^ 32` is added to the seconds until they are an `int`. -/
def secondsWraps (t : Int) : Int := (2 ^ 31 - 1 - t / 1000) / 2 ^ 32

/-- The time is not negative, or what is added to the seconds is a multiple of a minute and the sum
is not positive, or is a whole minute. -/
def SecondsKept (t : Int) : Prop :=
  0 ≤ t ∨ 15 ∣ secondsWraps t ∧
    (t / 1000 + secondsWraps t * 2 ^ 32 ≤ 0 ∨ 60 ∣ t / 1000 + secondsWraps t * 2 ^ 32)

theorem bmod_eq_secondsWraps (t : Int) :
    (t / 1000).bmod (2 ^ 32) = t / 1000 + secondsWraps t * 2 ^ 32 := by
  rw [Int.bmod_def, secondsWraps]
  split_ifs <;> omega

/-- The seconds are right exactly when the conversion keeps them. -/
theorem secFromTime_eq_iff (t : Int) : secFromTime t = t / 1000 % 60 ↔ SecondsKept t := by
  rw [secFromTime, SecondsKept]
  split_ifs with hnonneg
  · rw [Int.tdiv_eq_ediv_of_nonneg hnonneg, Int.tmod_eq_emod_of_nonneg (by omega)]
    simp [hnonneg]
  · rw [tdiv_sub_eq (by decide) (by omega), bmod_eq_secondsWraps]
    generalize secondsWraps t = wraps
    generalize t / 1000 = seconds
    have hkept : (seconds + wraps * 2 ^ 32) % 60 = seconds % 60 ↔ 15 ∣ wraps := by
      omega
    simp only [hnonneg, false_or, ← hkept]
    generalize seconds + wraps * 2 ^ 32 = narrowed
    by_cases hnonpos : narrowed ≤ 0
    · rw [tmod_add_eq (by decide) hnonpos]
      simp only [hnonpos, true_or, and_true]
    · rw [Int.tmod_eq_emod_of_nonneg (by omega)]
      split_ifs with hminute
      · rw [hminute, Int.dvd_iff_emod_eq_zero, hminute]
        simp
      · rw [Int.dvd_iff_emod_eq_zero]
        omega

/-- The fields found one by one are those of `computeTimeInfoFromEpoch`, and the fields of the
time. -/
structure Decomposes (t gmtoff isdst : Int) : Prop where
  fields : fieldsFromTime t = some (computeTimeInfoFromEpoch t gmtoff isdst).fields
  isOf : (computeTimeInfoFromEpoch t gmtoff isdst).fields.IsOf t

theorem inRange_of_valid (ht : |t| ≤ maximumDatePrimitiveValue) : InRange t := by
  rw [InRange]
  simp only [msPerDay]
  omega

theorem yearFromTime_near (ht : |t| ≤ maximumDatePrimitiveValue) :
    |yearFromTime t - 1970| ≤ 1000000 := by
  obtain ⟨hlow, hhigh⟩ := yearFromTime_bounds (inRange_of_valid ht)
  rw [abs_le] at *
  simp only [daysFromYear, msPerDay, maximumDatePrimitiveValue] at *
  omega

theorem computeTimeInfoFromEpoch_isOf (ht : |t| ≤ maximumDatePrimitiveValue)
    (gmtoff isdst : Int) : (computeTimeInfoFromEpoch t gmtoff isdst).fields.IsOf t := by
  have hgregorian := computeTimeInfoFromEpoch_isGregorian (inRange_of_valid ht) gmtoff isdst
  have hcivil : (computeTimeInfoFromEpoch t gmtoff isdst).fields.IsCivil :=
    ⟨hgregorian.month, hgregorian.date, hgregorian.hours, hgregorian.minutes,
      hgregorian.seconds, hgregorian.milliseconds⟩
  have hvalid : t ≠ time64Nan := by
    rw [abs_le] at ht
    simp only [maximumDatePrimitiveValue, time64Nan] at *
    omega
  refine hcivil.isOf hvalid ((hcivil.toMs_eq_some hvalid).mpr ⟨yearFromTime_near ht, ?_⟩)
  have htime := hgregorian.time
  simp only [UtcGetter.field] at htime
  simp only [makeDate, makeTime, DateTimeInfo.fields]
  conv_rhs => rw [htime]
  ring

/-- The decompositions agree exactly when the search stays inside of the table and the conversion
of the seconds keeps them. -/
theorem decomposes_iff (ht : |t| ≤ maximumDatePrimitiveValue) (gmtoff isdst : Int) :
    Decomposes t gmtoff isdst ↔ SearchStaysInside t ∧ SecondsKept t := by
  have hrange := inRange_of_valid ht
  obtain ⟨month, day, timeInDay, hmonth, hfirst, hnext, hlow, hhigh, htime, hinfo⟩ :=
    computeTimeInfoFromEpoch_eq hrange gmtoff isdst
  obtain ⟨-, -, hday⟩ := dayWithinYear_bounds hrange
  have hsec : secFromTime t = timeInDay / 1000 % 60 ↔ SecondsKept t := by
    rw [← secFromTime_eq_iff]
    simp only [msPerDay] at htime
    omega
  obtain rfl : dayWithinYear t = day := by
    simp only [msPerDay] at *
    omega
  have hclock : hourFromTime t = timeInDay / 3600000 ∧
      minFromTime t = timeInDay / 60000 % 60 ∧ msFromTime t = timeInDay % 1000 := by
    rw [hourFromTime, minFromTime, fieldFromTime_eq (by decide) (by decide),
      fieldFromTime_eq (by decide) (by decide), msFromTime_eq]
    simp only [msPerDay, msPerHour, msPerMinute] at *
    omega
  constructor
  · intro hdecomposes
    have hfields := hdecomposes.fields
    rw [fieldsFromTime] at hfields
    refine ⟨?_, hsec.mp ?_⟩
    · by_contra houtside
      rw [monthFromTime_outside hrange houtside] at hfields
      cases hfields
    · simp only [bind_eq_some_iff, map_eq_some_iff] at hfields
      obtain ⟨_, _, _, _, hsame⟩ := hfields
      have hsecond := congrArg TimeFields.second hsame
      rw [hinfo] at hsecond
      exact hsecond
  · rintro ⟨hinside, hkept⟩
    refine ⟨?_, computeTimeInfoFromEpoch_isOf ht gmtoff isdst⟩
    obtain ⟨found, hfoundLt, hfoundLow, hfoundHigh, hfound⟩ := monthFromTime_eq hrange hinside
    obtain rfl := month_unique _ _ hfirst hnext hfoundLow hfoundHigh
    rw [fieldsFromTime, hfound, dateFromTime_eq hfoundLt hfound, hinfo]
    simp only [bind_some, map_some, DateTimeInfo.fields, hclock, hsec.mpr hkept]

/-- The last millisecond of the year 9999 and a day of 1950. -/
theorem decomposes_late_and_early :
    Decomposes 253402300799999 0 0 ∧ Decomposes (-620000000000) (-18000000) 1 :=
  ⟨(decomposes_iff (by decide) 0 0).mpr
      ⟨(searchStaysInside_iff (inRange_of_valid (by decide))).mpr
        ⟨by decide +kernel, fun _ => by decide +kernel⟩, Or.inl (by decide)⟩,
    (decomposes_iff (by decide) (-18000000) 1).mpr
      ⟨(searchStaysInside_iff (inRange_of_valid (by decide))).mpr
        ⟨by decide +kernel, fun _ => by decide +kernel⟩, Or.inr (by decide)⟩⟩

/-- On the first of February 1970 the search reads before the table. -/
theorem first_of_february_is_outside :
    ¬∀ t, |t| ≤ maximumDatePrimitiveValue → ∀ gmtoff isdst, Decomposes t gmtoff isdst := by
  intro hdecomposes
  have hfields := (hdecomposes 2678400000 (by decide) 0 0).fields
  revert hfields
  decide +kernel

end Fields

end Escargot.Runtime.DateObject
