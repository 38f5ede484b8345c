/-
# The order of dates and adding to them

Dates and times are compared field by field, and dates are added to by months first, where a day
that the month does not have becomes its last one. Both are read off the days since 1970.
-/

import Escargot.Time.IsoCalendar

namespace Escargot.Runtime.IsoCalendar

open DateObject

/-- The comparisons of `compare`, which `PLAIN_TIME_UNITS` writes out for a time. -/
def compareFields : List (Int × Int) → Int
  | [] => 0
  | (one, two) :: rest => if two < one then 1 else if one < two then -1 else compareFields rest

def PlainDate.compare (one two : PlainDate) : Int :=
  compareFields [(one.year, two.year), (one.month, two.month), (one.day, two.day)]

def PlainTime.compare (one two : PlainTime) : Int :=
  compareFields [(one.hour, two.hour), (one.minute, two.minute), (one.second, two.second),
    (one.millisecond, two.millisecond), (one.microsecond, two.microsecond),
    (one.nanosecond, two.nanosecond)]

/-- `TemporalPlainDateTimeObject::compare`. -/
def PlainDateTime.compare (one two : PlainDateTime) : Int :=
  let ret := one.plainDate.compare two.plainDate
  if ret ≠ 0 then ret else one.plainTime.compare two.plainTime

def balanceISOYearMonth (year month : Int) : Int × Int :=
  let balanced := (month - 1).tmod 12 + 1
  (year + (month - 1) / 12, if balanced < 1 then balanced + 12 else balanced)

/-- `regulateISODate`, which constrains. -/
def regulateISODate (year month day : Int) : PlainDate :=
  let month := if month < 1 then 1 else month
  let month := if 12 < month then 12 else month
  let daysInMonth := daysInMonth (isLeapYear year) month.toNat
  let day := if day < 1 then 1 else day
  ⟨year, month, if daysInMonth < day then daysInMonth else day⟩

structure DateDuration where
  years : Int
  months : Int
  weeks : Int
  days : Int

/-- The date in the month that `isoDateAdd` comes to. -/
def intermediateDate (plainDate : PlainDate) (duration : DateDuration) : PlainDate :=
  let intermediate := balanceISOYearMonth (plainDate.year + duration.years)
    (plainDate.month + duration.months)
  regulateISODate intermediate.1 intermediate.2 plainDate.day

def isoDateAdd (plainDate : PlainDate) (duration : DateDuration) (allowOutOfRange : Bool) :
    Option PlainDate :=
  let intermediate := intermediateDate plainDate duration
  balanceISODate intermediate.year intermediate.month
    (intermediate.day + duration.days + 7 * duration.weeks) allowOutOfRange

variable {one two : PlainDate}

theorem compareFields_eq {first second : Int} {rest : List (Int × Int)} {difference : Int}
    (hless : first < second → difference < 0) (hmore : second < first → 0 < difference)
    (hequal : first = second → compareFields rest = difference.sign) :
    compareFields ((first, second) :: rest) = difference.sign := by
  rw [compareFields]
  split_ifs with hfirst hsecond
  · exact (Int.sign_eq_one_of_pos (hmore hfirst)).symm
  · exact (Int.sign_eq_neg_one_of_neg (hless hsecond)).symm
  · exact hequal (by omega)

theorem PlainDate.IsCivil.bounds (h : one.IsCivil) :
    one.dayNumber = daysFromYear one.year + daysBeforeMonth one.year (one.month - 1).toNat +
        (one.day - 1) ∧
      daysFromYear one.year ≤ one.dayNumber ∧ one.dayNumber < daysFromYear (one.year + 1) := by
  obtain ⟨year, month, day⟩ := one
  obtain ⟨hmonth, hday⟩ := h
  dsimp only at hmonth hday
  obtain ⟨index, hindex⟩ := Int.eq_ofNat_of_zero_le (show 0 ≤ month - 1 by omega)
  simp only [PlainDate.dayNumber, hindex] at hday ⊢
  exact ⟨rfl, dayNumber_bounds (by omega) hday.1 hday.2⟩

theorem PlainDate.IsCivil.lt_of_year (hone : one.IsCivil) (htwo : two.IsCivil)
    (hyear : one.year < two.year) : one.dayNumber < two.dayNumber :=
  hone.bounds.2.2.trans_le ((daysFromYear_strictMono.monotone hyear).trans htwo.bounds.2.1)

theorem PlainDate.IsCivil.lt_of_month (hone : one.IsCivil) (htwo : two.IsCivil)
    (hyear : one.year = two.year) (hmonth : one.month < two.month) :
    one.dayNumber < two.dayNumber := by
  obtain ⟨hnumber, -⟩ := hone.bounds
  obtain ⟨hnumber', -⟩ := htwo.bounds
  have hfirst := hone.month
  have hindex : (((one.month - 1).toNat : Nat) : Int) = one.month - 1 :=
    Int.toNat_of_nonneg (by omega)
  have hnext := (daysBeforeMonth_strictMono two.year).monotone
    (show (one.month - 1).toNat + 1 ≤ (two.month - 1).toNat by omega)
  have hday := hone.day
  have hday' := htwo.day
  rw [daysBeforeMonth, hindex] at hnext
  rw [hyear] at hnumber hday
  omega

theorem PlainDate.IsCivil.compare_eq (hone : one.IsCivil) (htwo : two.IsCivil) :
    one.compare two = (one.dayNumber - two.dayNumber).sign := by
  refine compareFields_eq (fun hyear => sub_neg.mpr (hone.lt_of_year htwo hyear))
    (fun hyear => sub_pos.mpr (htwo.lt_of_year hone hyear)) fun hyear => ?_
  refine compareFields_eq (fun hmonth => sub_neg.mpr (hone.lt_of_month htwo hyear hmonth))
    (fun hmonth => sub_pos.mpr (htwo.lt_of_month hone hyear.symm hmonth)) fun hmonth => ?_
  have hdays : one.dayNumber - two.dayNumber = one.day - two.day := by
    rw [hone.bounds.1, htwo.bounds.1, hyear, hmonth]
    omega
  rw [hdays]
  refine compareFields_eq (by omega) (by omega) fun hday => ?_
  rw [hday, sub_self]
  rfl

theorem PlainTime.compare_eq {one two : PlainTime} (hone : one.IsTime) (htwo : two.IsTime) :
    one.compare two = (one.nanoseconds - two.nanoseconds).sign := by
  obtain ⟨h1, h2, h3, h4, h5, h6⟩ := hone
  obtain ⟨h1', h2', h3', h4', h5', h6'⟩ := htwo
  simp only [PlainTime.nanoseconds]
  refine compareFields_eq (by omega) (by omega) fun hhour => ?_
  refine compareFields_eq (by omega) (by omega) fun hminute => ?_
  refine compareFields_eq (by omega) (by omega) fun hsecond => ?_
  refine compareFields_eq (by omega) (by omega) fun hmillisecond => ?_
  refine compareFields_eq (by omega) (by omega) fun hmicrosecond => ?_
  refine compareFields_eq (by omega) (by omega) fun hnanosecond => ?_
  rw [hhour, hminute, hsecond, hmillisecond, hmicrosecond, hnanosecond, sub_self]
  rfl

theorem PlainDateTime.IsValid.compare_eq {one two : PlainDateTime} (hone : one.IsValid)
    (htwo : two.IsValid) :
    one.compare two = (fromPlainDateTime one - fromPlainDateTime two).sign := by
  have hbounds := hone.time.bounds
  have hbounds' := htwo.time.bounds
  rw [fromPlainDateTime_eq hone.date, fromPlainDateTime_eq htwo.date, PlainDateTime.compare,
    hone.date.compare_eq htwo.date, PlainTime.compare_eq hone.time htwo.time, nsPerDay]
  rw [nsPerDay] at hbounds hbounds'
  generalize one.plainDate.dayNumber = day at *
  generalize two.plainDate.dayNumber = day' at *
  rcases lt_trichotomy day day' with hless | rfl | hmore
  · rw [Int.sign_eq_neg_one_of_neg (sub_neg.mpr hless), if_pos (by decide),
      Int.sign_eq_neg_one_of_neg (by omega)]
  · rw [sub_self, add_sub_add_left_eq_sub]
    rfl
  · rw [Int.sign_eq_one_of_pos (sub_pos.mpr hmore), if_pos (by decide),
      Int.sign_eq_one_of_pos (by omega)]

/-- Date-times are in the order of their instants, and instants in that of their date-times. -/
theorem compare_ordered : (∀ one two : PlainDateTime, one.IsValid → two.IsValid →
      one.compare two = (fromPlainDateTime one - fromPlainDateTime two).sign) ∧
    ∀ s t, isoDateTimeWithinLimits s = true → isoDateTimeWithinLimits t = true →
      (toPlainDateTime s).compare (toPlainDateTime t) = (s - t).sign := by
  refine ⟨fun one two hone htwo => hone.compare_eq htwo, fun s t hs ht => ?_⟩
  obtain ⟨hone, hback⟩ := toPlainDateTime_spec hs
  obtain ⟨htwo, hback'⟩ := toPlainDateTime_spec ht
  rw [hone.compare_eq htwo, hback, hback']

/-- The limits of a date that is added to. -/
structure DateDuration.Fits (duration : DateDuration) (plainDate : PlainDate) : Prop where
  year : isYearWithinLimits (intermediateDate plainDate duration).year = true
  day : isDayWithinLimits ((intermediateDate plainDate duration).dayNumber + duration.days +
    7 * duration.weeks) = true

variable {duration : DateDuration} {plainDate : PlainDate}

/-- Months are counted on from the month of the date, and the day is at most the last one. -/
theorem intermediateDate_spec (h : plainDate.IsCivil) (duration : DateDuration) :
    let date := intermediateDate plainDate duration
    date.IsCivil ∧ 12 * date.year + date.month =
        12 * (plainDate.year + duration.years) + plainDate.month + duration.months ∧
      date.day = min plainDate.day (monthLength date.year (date.month - 1)) := by
  have hday := h.day.1
  generalize hyear : plainDate.year + duration.years + (plainDate.month + duration.months - 1) / 12
    = year
  generalize hmonth : (plainDate.month + duration.months - 1) % 12 = month
  have hbalanced : balanceISOYearMonth (plainDate.year + duration.years)
      (plainDate.month + duration.months) = (year, month + 1) := by
    rw [balanceISOYearMonth, hyear, Int.tmod_eq_emod, hmonth]
    split_ifs <;> congr 1 <;> omega
  obtain ⟨index, rfl⟩ := Int.eq_ofNat_of_zero_le (show 0 ≤ month by omega)
  have hlength := daysInMonth_eq year (show index < 12 by omega)
  have hbounds := monthLength_bounds year index
  have hdays : daysInMonth (isLeapYear year) (index + 1) = monthLength year index := by
    rw [← hlength]
    by_cases hfebruary : index + 1 = 2
    · rw [if_neg (not_not.mpr hfebruary)]
    · rw [if_pos hfebruary]
      have hindex : index < 12 := by omega
      cases isLeapYear year
      · interval_cases index <;> first | rfl | exact absurd rfl hfebruary
      · rfl
  have hdate : intermediateDate plainDate duration =
      ⟨year, index + 1, min plainDate.day (monthLength year index)⟩ := by
    rw [intermediateDate, hbalanced, regulateISODate]
    simp only [if_neg (show ¬((index : Int) + 1 < 1) by omega),
      if_neg (show ¬(12 < (index : Int) + 1) by omega), if_neg (not_lt.mpr hday),
      show ((index : Int) + 1).toNat = index + 1 by omega, hdays, min_def]
    split_ifs <;> congr 1 <;> omega
  rw [hdate]
  dsimp only
  rw [add_sub_cancel_right]
  refine ⟨⟨by dsimp only; omega, ?_⟩, by omega, rfl⟩
  dsimp only
  rw [add_sub_cancel_right]
  omega

/-- Dates are in the order of their months, and within one month of their days. -/
theorem PlainDate.IsCivil.le_iff (hone : one.IsCivil) (htwo : two.IsCivil) :
    one.dayNumber ≤ two.dayNumber ↔ 12 * one.year + one.month < 12 * two.year + two.month ∨
      one.year = two.year ∧ one.month = two.month ∧ one.day ≤ two.day := by
  have hmonth := hone.month
  have hmonth' := htwo.month
  rcases lt_trichotomy one.year two.year with hless | hequal | hmore
  · exact iff_of_true (hone.lt_of_year htwo hless).le (.inl (by omega))
  · rcases lt_trichotomy one.month two.month with hless | hsame | hmore
    · exact iff_of_true (hone.lt_of_month htwo hequal hless).le (.inl (by omega))
    · rw [hone.bounds.1, htwo.bounds.1, hequal, hsame]
      omega
    · have hlt := htwo.lt_of_month hone hequal.symm hmore
      exact iff_of_false (not_le.mpr hlt) (by omega)
  · exact iff_of_false (not_le.mpr (htwo.lt_of_year hone hmore)) (by omega)

theorem isoDateAdd_spec (h : plainDate.IsCivil) (hfits : duration.Fits plainDate)
    (allowOutOfRange : Bool) : ∃ result,
      isoDateAdd plainDate duration allowOutOfRange = some result ∧ result.IsCivil ∧
        result.dayNumber =
          (intermediateDate plainDate duration).dayNumber + duration.days + 7 * duration.weeks := by
  obtain ⟨hdate, -⟩ := intermediateDate_spec h duration
  obtain ⟨hyear, hday⟩ := hfits
  rw [isoDateAdd]
  generalize intermediateDate plainDate duration = date at *
  obtain ⟨index, hindex⟩ := Int.eq_ofNat_of_zero_le (show 0 ≤ date.month - 1 by
    have := hdate.month
    omega)
  have htarget : targetDay date.year date.month (date.day + duration.days + 7 * duration.weeks) =
      date.dayNumber + duration.days + 7 * duration.weeks := by
    have hmonth := hdate.month
    rw [targetDay, PlainDate.dayNumber, hindex, dateToDaysFrom1970_eq _ _ (by omega),
      DateObject.dayNumber, DateObject.dayNumber]
    omega
  obtain ⟨result, hresult, hcivil, hnumber⟩ :=
    balanceISODate_spec hyear (by rwa [htarget]) allowOutOfRange
  exact ⟨result, hresult, hcivil, hnumber.trans htarget⟩

/-- Adding to two dates keeps their order, and days alone keep them apart. -/
theorem isoDateAdd_compare (hone : one.IsCivil) (htwo : two.IsCivil) (hfits : duration.Fits one)
    (hfits' : duration.Fits two) (allowOutOfRange : Bool) : ∃ one' two',
      isoDateAdd one duration allowOutOfRange = some one' ∧
      isoDateAdd two duration allowOutOfRange = some two' ∧
      (one.compare two ≤ 0 → one'.compare two' ≤ 0) ∧
      (duration.years = 0 → duration.months = 0 → one'.compare two' = one.compare two) := by
  obtain ⟨one', hadd, hcivil, hnumber⟩ := isoDateAdd_spec hone hfits allowOutOfRange
  obtain ⟨two', hadd', hcivil', hnumber'⟩ := isoDateAdd_spec htwo hfits' allowOutOfRange
  obtain ⟨hdate, hmonths, hday⟩ := intermediateDate_spec hone duration
  obtain ⟨hdate', hmonths', hday'⟩ := intermediateDate_spec htwo duration
  have hmonth := hdate.month
  have hmonth' := hdate'.month
  have hfirst := hone.month
  have hfirst' := htwo.month
  refine ⟨one', two', hadd, hadd', ?_, ?_⟩
  · rw [hone.compare_eq htwo, hcivil.compare_eq hcivil', Int.sign_nonpos_iff, Int.sign_nonpos_iff,
      sub_nonpos, sub_nonpos, hone.le_iff htwo, hnumber, hnumber', add_le_add_iff_right,
      add_le_add_iff_right, hdate.le_iff hdate']
    intro hle
    by_cases hless : 12 * one.year + one.month < 12 * two.year + two.month
    · exact .inl (by omega)
    · obtain ⟨hyear, hsame, hle⟩ := hle.resolve_left hless
      generalize intermediateDate one duration = date at *
      generalize intermediateDate two duration = date' at *
      have hyears : date.year = date'.year := by omega
      have hsames : date.month = date'.month := by omega
      refine .inr ⟨hyears, hsames, ?_⟩
      rw [hday, hday', hyears, hsames]
      exact min_le_min_right _ hle
  · intro hyears hmonths0
    have hself : ∀ {date : PlainDate}, date.IsCivil →
        (intermediateDate date duration).dayNumber = date.dayNumber := by
      intro date h
      obtain ⟨hdate, hmonths, hday⟩ := intermediateDate_spec h duration
      have hmonth := hdate.month
      have hfirst := h.month
      have hyear : (intermediateDate date duration).year = date.year := by omega
      have hsame : (intermediateDate date duration).month = date.month := by omega
      rw [hyear, hsame, min_eq_left h.day.2] at hday
      rw [PlainDate.dayNumber, PlainDate.dayNumber, hyear, hsame, hday]
    rw [hone.compare_eq htwo, hcivil.compare_eq hcivil', hnumber, hnumber', hself hone, hself htwo]
    congr 1
    omega

/-- A month after the last two days of January 2024. -/
theorem isoDateAdd_compare_january :
    ∃ one' two', isoDateAdd ⟨2024, 1, 30⟩ ⟨0, 1, 0, 0⟩ false = some one' ∧
      isoDateAdd ⟨2024, 1, 31⟩ ⟨0, 1, 0, 0⟩ false = some two' ∧
      (PlainDate.compare ⟨2024, 1, 30⟩ ⟨2024, 1, 31⟩ ≤ 0 → one'.compare two' ≤ 0) ∧
      ((0 : Int) = 0 → (1 : Int) = 0 →
        one'.compare two' = PlainDate.compare ⟨2024, 1, 30⟩ ⟨2024, 1, 31⟩) :=
  isoDateAdd_compare ⟨by decide, by decide⟩ ⟨by decide, by decide⟩ ⟨by decide, by decide⟩
    ⟨by decide, by decide⟩ false

end Escargot.Runtime.IsoCalendar
