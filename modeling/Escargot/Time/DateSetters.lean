/-
# The setters of Date objects

`builtinDateSetHelper` serves fourteen setters. It reads the fields of the time value,
converts the arguments, and stores the time value of the fields that result. A conversion
may throw. A year is also set on a date that is not valid: then the fields of the epoch
are meant, but a time value is stored for them before the arguments are converted.

The getters and the offsets are those of `DateObject`. What a setter is for is said of the
Gregorian fields of a time, and of no function of the code.
-/

import Escargot.Time.DateFields

namespace Escargot.Runtime.DateSetters

open DateObject

/-- The local variables of `builtinDateSetHelper`, as indices. -/
inductive Field
  | year
  | month
  | date
  | hour
  | minute
  | second
  | millisecond
  deriving DecidableEq

/-- The values of the variables. `NaN` and the infinities are `none`. -/
abbrev Numbers := Field → Option ℚ

/-- What `toNumber` does with an argument. -/
inductive Conversion
  | threw
  | number (value : Option ℚ)

inductive DateSetterType
  | time
  | day
  deriving DecidableEq

/-- The names in `FOR_EACH_DATE_VALUES`. Each of them is there for local time and for UTC. -/
inductive SetterName
  | milliseconds
  | seconds
  | minutes
  | hours
  | date
  | month
  | fullYear
  deriving DecidableEq

def SetterName.values : SetterName → DateSetterType × Nat
  | milliseconds => (.time, 1)
  | seconds => (.time, 2)
  | minutes => (.time, 3)
  | hours => (.time, 4)
  | date => (.day, 1)
  | month => (.day, 2)
  | fullYear => (.day, 3)

/-- A time zone of ICU. Its offsets are at most a day. -/
structure LocalZone where
  offsets : TimeZone
  withinDay : WithinDay offsets

/-- `DateObject::applyLocalTimezoneOffset`, of a local time. -/
def applyLocalTimezoneOffset (zone : TimeZone) (t : Int) : Int :=
  if |t - (zone t).1 * msPerMinute| ≤ maximumDatePrimitiveValue then t - offset zone t
  else time64Nan

section Reads

variable (zone : TimeZone) (cachedUTC : Option CachedUTCDateTimeInfo) (utc : Bool)
  (date : DateObject)

/-- What the UTC getters answer that the helper calls one after another. Each of them leaves its
cache for the next. -/
def utcFields : TimeFields :=
  let forYear := date.cacheUTC zone cachedUTC
  let forMonth := date.cacheUTC zone (some forYear)
  let forDate := date.cacheUTC zone (some forMonth)
  let forHour := date.cacheUTC zone (some forDate)
  let forMinute := date.cacheUTC zone (some forHour)
  let forSecond := date.cacheUTC zone (some forMinute)
  let forMillisecond := date.cacheUTC zone (some forSecond)
  { year := forYear.info.year
    month := forMonth.info.month
    date := forDate.info.mday
    hour := forHour.info.hour
    minute := forMinute.info.min
    second := forSecond.info.sec
    millisecond := forMillisecond.info.millisec }

def readFields : TimeFields :=
  if utc then utcFields zone cachedUTC date else (date.localInfo zone).fields

end Reads

/-- The greatest magnitude that `isInValidRange` admits. The limits are compared as doubles. -/
def Field.limit : Field → Int
  | second | millisecond => 2 ^ 63
  | _ => 2 ^ 31 - 1

def Field.all : List Field := [year, month, date, hour, minute, second, millisecond]

def isInValidRange (numbers : Numbers) : Bool :=
  Field.all.all fun field => (numbers field).any fun value : ℚ => |value| ≤ field.limit

/-- A double that is converted to an integer. -/
def truncate (value : Option ℚ) : Int :=
  value.elim 0 fun value => if 0 ≤ value then ⌊value⌋ else ⌈value⌉

def truncateAll (numbers : Numbers) : TimeFields :=
  ⟨truncate (numbers .year), truncate (numbers .month), truncate (numbers .date),
    truncate (numbers .hour), truncate (numbers .minute), truncate (numbers .second),
    truncate (numbers .millisecond)⟩

/-- The doubles that fields are assigned to. -/
def numbersOf (fields : TimeFields) : Numbers
  | .year => some fields.year
  | .month => some fields.month
  | .date => some fields.date
  | .hour => some fields.hour
  | .minute => some fields.minute
  | .second => some fields.second
  | .millisecond => some fields.millisecond

/-- The variables before the arguments are converted. -/
def startNumbers (zone : TimeZone) (cachedUTC : Option CachedUTCDateTimeInfo) (utc : Bool) :
    Option DateObject → Numbers
  | some date => numbersOf (readFields zone cachedUTC utc date)
  | none => fun _ => some 0

/-- The end of `builtinDateSetHelper`: the time value that is stored for the variables. It is
`none` where an operation on integers overflows. -/
def store (zone : TimeZone) (utc : Bool) (numbers : Numbers) : Option Int :=
  if isInValidRange numbers then
    setTimeValue (applyLocalTimezoneOffset zone) (truncateAll numbers) !utc
  else some time64Nan

/-- The `switch` over the setter type, of the variables that are left: the last of them takes the
last argument of the length, if it is there. -/
def convert (length : Nat) (argv : List Conversion) : List Field → Numbers → Option Numbers
  | [], numbers => some numbers
  | field :: rest, numbers =>
    if rest.length + 1 ≤ length ∧ length - (rest.length + 1) < argv.length then
      match argv[length - (rest.length + 1)]? with
      | some (.number value) => convert length argv rest (Function.update numbers field value)
      | _ => none
    else convert length argv rest numbers

/-- The variables that the arguments of a setter type are converted to. -/
def DateSetterType.fields : DateSetterType → List Field
  | time => [.hour, .minute, .second, .millisecond]
  | day => [.year, .month, .date]

/-- How a call ends, and the time value that the Date object has then. -/
structure Outcome where
  threw : Bool
  stored : Option Int
  deriving DecidableEq

theorem provisional_valid (zone : LocalZone) :
    |(resolveLocalTimeInfo zone.offsets 0).gmtoff * msPerMinute| ≤ maximumDatePrimitiveValue := by
  rw [gmtoff_resolveLocalTimeInfo, abs_neg]
  exact (offset_le zone.withinDay 0).trans (by decide)

/-- The Date object that a year is set on if it was not valid: its time value is the offset at the
epoch. -/
def provisional (zone : LocalZone) : DateObject :=
  ⟨⟨(resolveLocalTimeInfo zone.offsets 0).gmtoff * msPerMinute, provisional_valid zone⟩, none⟩

/-- The time value of a Date object, which is `none` if it is not valid. -/
def timeOf (date : Option DateObject) : Int := date.elim time64Nan fun date => date.primitiveValue

def builtinDateSetHelper (zone : LocalZone) (cachedUTC : Option CachedUTCDateTimeInfo)
    (setterType : DateSetterType) (length : Nat) (utc : Bool) (date : Option DateObject)
    (argv : List Conversion) : Outcome :=
  let original :=
    if setterType = .day ∧ length = 3 ∧ date.isNone then some (provisional zone) else date
  if argv.length < 1 then ⟨false, some time64Nan⟩
  else
    match convert length argv setterType.fields
      (startNumbers zone.offsets cachedUTC utc original) with
    | none => ⟨true, some (timeOf original)⟩
    | some numbers =>
      if original.isNone then ⟨false, some time64Nan⟩
      else ⟨false, store zone.offsets utc numbers⟩

def builtinDateSet (zone : LocalZone) (cachedUTC : Option CachedUTCDateTimeInfo) (name : SetterName)
    (utc : Bool) (date : Option DateObject) (argv : List Conversion) : Outcome :=
  builtinDateSetHelper zone cachedUTC name.values.1 name.values.2 utc date argv

def SetterName.parameters : SetterName → List Field
  | milliseconds => [.millisecond]
  | seconds => [.second, .millisecond]
  | minutes => [.minute, .second, .millisecond]
  | hours => [.hour, .minute, .second, .millisecond]
  | date => [.date]
  | month => [.month, .date]
  | fullYear => [.year, .month, .date]

def replace : List (Field × Conversion) → Numbers → Option Numbers
  | [], numbers => some numbers
  | (_, .threw) :: _, _ => none
  | (field, .number value) :: rest, numbers => replace rest (Function.update numbers field value)

/-- The fields of the time value `+0`. -/
def epochFields : TimeFields := ⟨1970, 0, 1, 0, 0, 0, 0⟩

/-- The Gregorian fields that a setter starts from: those of the local or the UTC time, or of `+0`
if the date is not valid. -/
def IsStart (zone : TimeZone) (utc : Bool) (date : Option DateObject) (fields : TimeFields) : Prop :=
  match date with
  | none => fields = epochFields
  | some date => fields.IsCivil ∧
      fields.instant = if utc then (date.primitiveValue : Int)
        else date.primitiveValue + offset zone date.primitiveValue

/-- A time value for fields: that of the instant, or of a time whose local time it is. -/
def IsTimeValue (zone : TimeZone) (utc : Bool) (fields : TimeFields) (stored : Int) : Prop :=
  if fields.IsYearSupported then
    ∃ t : Int, (if utc then t = fields.instant else t + offset zone t = fields.instant) ∧
      stored = if |t| ≤ maximumDatePrimitiveValue then t else time64Nan
  else stored = time64Nan

/-- The whole numbers in the variables, unless one of them is no number. -/
def wholeFields (numbers : Numbers) : Option TimeFields :=
  if Field.all.all fun field => (numbers field).isSome then some (truncateAll numbers) else none

/-- What a setter does. The first argument is converted even if it is not there: `undefined` is
converted to `NaN`. -/
def Specified (zone : TimeZone) (name : SetterName) (utc : Bool) (date : Option DateObject)
    (argv : List Conversion) (outcome : Outcome) : Prop :=
  ∃ fields, IsStart zone utc date fields ∧
    match replace (name.parameters.zip (if argv = [] then [.number none] else argv))
      (numbersOf fields) with
    | none => outcome = ⟨true, some (timeOf date)⟩
    | some numbers => ∃ stored, outcome = ⟨false, some stored⟩ ∧
        match wholeFields numbers with
        | none => stored = time64Nan
        | some fields =>
          if date = none ∧ name ≠ .fullYear then stored = time64Nan
          else IsTimeValue zone utc fields stored

/-- The offset at a local time, read as an instant, is that of the time it stands for, and the
first check of the range, which leaves daylight saving time out, rejects no valid time. -/
def OffsetKept (zone : TimeZone) (t : Int) : Prop :=
  offset zone (t - offset zone t) = offset zone t ∧
    (|t - (zone t).1 * msPerMinute| ≤ maximumDatePrimitiveValue ∨
      maximumDatePrimitiveValue < |t - offset zone t|)

/-- The fields can be stored: the operations on admitted ones have no overflow and a local time
has its offset, and ones that are not admitted have no valid time value. -/
def Storable (zone : TimeZone) (utc : Bool) (numbers : Numbers) (fields : TimeFields) : Prop :=
  if isInValidRange numbers then
    fields.Fits ∧ (utc = false → fields.IsYearSupported → OffsetKept zone fields.instant)
  else IsTimeValue zone utc fields time64Nan

/-- What is read is right: the getters find the offset, or for a year on a date that is not valid
the provisional time value has the fields of the epoch where no argument replaces them. -/
def ReadsRight (zone : LocalZone) (cachedUTC : Option CachedUTCDateTimeInfo) (utc : Bool)
    (supplied : List Field) : Option DateObject → Prop
  | some date => utc = true → OffsetFound zone.offsets cachedUTC date.primitiveValue
  | none => ∀ field ∉ supplied,
      numbersOf (readFields zone.offsets cachedUTC utc (provisional zone)) field =
        numbersOf epochFields field

/-- The condition of a setter with arguments on a valid date, and of `setFullYear`. -/
def Condition (zone : LocalZone) (cachedUTC : Option CachedUTCDateTimeInfo) (name : SetterName)
    (utc : Bool) (date : Option DateObject) (argv : List Conversion) : Prop :=
  argv ≠ [] → date ≠ none ∨ name = .fullYear → ∀ fields, IsStart zone.offsets utc date fields →
    match replace (name.parameters.zip argv) (numbersOf fields) with
    | none => date ≠ none
    | some numbers =>
      ReadsRight zone cachedUTC utc ((name.parameters.zip argv).map Prod.fst) date ∧
        ∀ whole ∈ wholeFields numbers, Storable zone.offsets utc numbers whole

section Reads

variable {zone : TimeZone} {date : DateObject} {utc : Bool}

/-- The getters after the first find its answer in the cache, or resolve it again. -/
theorem cacheUTC_cacheUTC (cachedUTC : Option CachedUTCDateTimeInfo) :
    date.cacheUTC zone (some (date.cacheUTC zone cachedUTC)) = date.cacheUTC zone cachedUTC := by
  cases cachedUTC with
  | none => exact ite_self _
  | some cache =>
    by_cases hkey : cache.primitiveValueUTC =
        date.primitiveValue + (date.localInfo zone).gmtoff * msPerMinute
    · simp [cacheUTC, hkey]
    · simp only [cacheUTC, ne_eq, hkey, not_false_eq_true, if_true]
      exact ite_self _

theorem utcFields_eq (cachedUTC : Option CachedUTCDateTimeInfo) :
    utcFields zone cachedUTC date = (date.cacheUTC zone cachedUTC).info.fields := by
  simp only [utcFields, cacheUTC_cacheUTC]
  rfl

theorem instant_of_isCivil {fields : TimeFields} (hcivil : fields.IsCivil) : fields.instant =
    makeDate (dayNumber fields.year fields.month fields.date)
      (makeTime fields.hour fields.minute fields.second fields.millisecond) := by
  have hmonth := hcivil.month
  rw [TimeFields.instant, makeDay, show fields.month / 12 = 0 by omega, Int.add_zero,
    show fields.month % 12 = fields.month by omega]

theorem fields_of_isGregorian {t : Int} {info : DateTimeInfo}
    (ht : IsGregorian t fun getter => getter.field info) :
    info.fields.IsCivil ∧ info.fields.instant = t := by
  have hcivil : info.fields.IsCivil :=
    ⟨ht.month, ht.date, ht.hours, ht.minutes, ht.seconds, ht.milliseconds⟩
  refine ⟨hcivil, ?_⟩
  have htime := ht.time
  rw [instant_of_isCivil hcivil, makeDate, makeTime]
  simp only [UtcGetter.field] at htime
  simp only [DateTimeInfo.fields]
  rw [htime]
  ring

theorem isStart_unique {date : Option DateObject} {fields other : TimeFields}
    (hfields : IsStart zone utc date fields) (hother : IsStart zone utc date other) :
    other = fields := by
  cases date with
  | none => exact hother.trans hfields.symm
  | some date =>
    obtain ⟨hcivil, hinstant⟩ := hfields
    obtain ⟨hcivil', hinstant'⟩ := hother
    apply hcivil.eq_of_time hcivil'
    rw [← instant_of_isCivil hcivil, ← instant_of_isCivil hcivil', hinstant, hinstant']

/-- The local getters answer the fields of the local time, and the UTC getters those of the time if
they find its offset. -/
theorem isStart_readFields (hzone : WithinDay zone) (history : List DateOperation)
    (hdate : date ∈ (DateState.run zone history).dates)
    (hfound : utc = true →
      OffsetFound zone (DateState.run zone history).cachedUTC date.primitiveValue) :
    IsStart zone utc (some date)
      (readFields zone (DateState.run zone history).cachedUTC utc date) := by
  cases utc with
  | true =>
    have hget := (getUTC_isGregorian_iff hzone history hdate).mpr (hfound rfl)
    rw [readFields, if_pos rfl, utcFields_eq]
    exact fields_of_isGregorian hget
  | false =>
    have hlocal := localInfo_eq ((resolved_run zone history).dates date hdate)
    have hoffset := offset_le hzone (date.primitiveValue : Int)
    have hvalid := date.primitiveValue.2
    have hrange : InRange (date.primitiveValue + offset zone date.primitiveValue) := by
      rw [InRange]
      rw [abs_le] at *
      omega
    rw [readFields, if_neg Bool.false_ne_true, hlocal]
    exact fields_of_isGregorian (resolveLocalTimeInfo_isGregorian hrange)

end Reads

variable (name : SetterName) (argv : List Conversion)

/-- The `switch` assigns the arguments to the parameters of the setter. -/
theorem convert_eq (numbers : Numbers) : convert name.values.2 argv name.values.1.fields numbers =
      replace (name.parameters.zip argv) numbers := by
  rcases argv with _ | ⟨_ | a, _ | ⟨_ | b, _ | ⟨_ | c, _ | ⟨_ | d, rest⟩⟩⟩⟩ <;> cases name <;>
    simp [convert, replace, SetterName.values, SetterName.parameters, DateSetterType.fields]

theorem isFullYear_iff : name.values.1 = .day ∧ name.values.2 = 3 ↔ name = .fullYear := by
  cases name <;> decide

variable {name} {argv}

theorem replace_eq_none_iff : ∀ (supplied : List (Field × Conversion)) (numbers : Numbers),
    replace supplied numbers = none ↔ Conversion.threw ∈ supplied.map Prod.snd
  | [], _ => by simp [replace]
  | (_, .threw) :: _, _ => by simp [replace]
  | (_, .number _) :: rest, _ => (replace_eq_none_iff rest _).trans (by simp)

/-- Only the fields that are not supplied matter. -/
theorem replace_congr : ∀ {supplied : List (Field × Conversion)} {numbers other : Numbers},
    (∀ field ∉ supplied.map Prod.fst, numbers field = other field) →
    replace supplied numbers = replace supplied other
  | [], _, _, hsame => congrArg some (funext fun field => hsame field List.not_mem_nil)
  | (_, .threw) :: _, _, _, _ => rfl
  | (field, .number value) :: rest, numbers, other, hsame => by
      show replace rest (Function.update numbers field value) =
        replace rest (Function.update other field value)
      refine replace_congr fun other' hother => ?_
      by_cases hfield : other' = field
      · rw [hfield, Function.update_self, Function.update_self]
      · rw [Function.update_of_ne hfield, Function.update_of_ne hfield]
        exact hsame other' (List.not_mem_cons_of_ne_of_not_mem hfield hother)

/-- The milliseconds of fields that fit are those of their instant. -/
theorem timeinfoToMs_of_fits {fields : TimeFields}
    (hvalid : DateObject.isInValidRange fields = true) (hfits : fields.Fits) :
    timeinfoToMs (fields.year + fields.month / 12) (fields.month % 12).toNat fields.date
        fields.hour fields.minute fields.second fields.millisecond =
      some (if fields.IsYearSupported then fields.instant else time64Nan) := by
  obtain ⟨-, -, hdate, hhour, hminute, -, -⟩ := isInValidRange_iff.mp hvalid
  by_cases hsupported : fields.IsYearSupported
  · have hmonth : ((fields.month % 12).toNat : Int) = fields.month % 12 :=
      Int.toNat_of_nonneg (by omega)
    rw [if_pos hsupported, timeinfoToMs_eq_some hsupported (by omega) hdate hhour hminute, hmonth]
    exact ⟨hfits.secondMs hsupported, hfits.minuteSum hsupported, hfits.sum hsupported, rfl⟩
  · rw [if_neg hsupported]
    exact timeinfoToMs_of_far hsupported _ _ _ _ _ _

/-- Fields that fit are stored as their instant, converted to UTC and clipped. -/
theorem setTimeValue_of_fits {fields : TimeFields} (toUTC : Int → Int)
    (hvalid : DateObject.isInValidRange fields = true) (hfits : fields.Fits) (convertToUTC : Bool) :
    setTimeValue toUTC fields convertToUTC =
      let t := if fields.IsYearSupported then fields.instant else time64Nan
      let t := if convertToUTC then toUTC t else t
      some (if |t| ≤ maximumDatePrimitiveValue then t else time64Nan) := by
  have hstored : ∀ t : Int, (t ≠ time64Nan ∧ t ≤ maximumDatePrimitiveValue ∧
      -maximumDatePrimitiveValue ≤ t) ↔ |t| ≤ maximumDatePrimitiveValue := by
    intro t
    rw [abs_le]
    simp only [time64Nan, maximumDatePrimitiveValue]
    omega
  apply (setTimeValue_eq_some hvalid convertToUTC _).mpr
  refine ⟨hfits.second, hfits.millisecond, ?_⟩
  rw [setTimeValueOf, ofWidth_of_fits hfits.year]
  simp only [Option.bind_some, monthComputed_eq, timeinfoToMs_of_fits hvalid hfits, hstored]
  split_ifs <;> rfl

theorem truncate_le {value : ℚ} {limit : Int} (hvalue : |value| ≤ limit) :
    |truncate (some value)| ≤ limit := by
  obtain ⟨hlow, hhigh⟩ := abs_le.mp hvalue
  show |if 0 ≤ value then ⌊value⌋ else ⌈value⌉| ≤ limit
  rw [abs_le]
  split_ifs with hsign
  · have hfloor : (0 : Int) ≤ ⌊value⌋ := Int.floor_nonneg.mpr hsign
    have hle : ⌊value⌋ ≤ limit := by exact_mod_cast (Int.floor_le value).trans hhigh
    omega
  · have hceil : ⌈value⌉ ≤ (0 : Int) := Int.ceil_le.mpr (by push_cast; exact (not_le.mp hsign).le)
    have hle : -limit ≤ ⌈value⌉ := by exact_mod_cast hlow.trans (Int.le_ceil value)
    omega

/-- Admitted variables hold numbers, whose integer parts are admitted too. -/
theorem wholeFields_of_valid {numbers : Numbers} (hvalid : isInValidRange numbers = true) :
    wholeFields numbers = some (truncateAll numbers) ∧
      DateObject.isInValidRange (truncateAll numbers) = true := by
  have hnumber : ∀ field, ∃ value, numbers field = some value ∧ |value| ≤ field.limit := by
    intro field
    obtain ⟨value, hvalue, hlimit⟩ := (Option.any_eq_true _ _).mp
      (List.all_eq_true.mp hvalid field (by cases field <;> decide))
    exact ⟨value, hvalue, of_decide_eq_true hlimit⟩
  refine ⟨if_pos (List.all_eq_true.mpr fun field _ => ?_), ?_⟩
  · obtain ⟨value, hvalue, -⟩ := hnumber field
    rw [hvalue, Option.isSome_some]
  · have hbound : ∀ field, |truncate (numbers field)| ≤ field.limit := by
      intro field
      obtain ⟨value, hvalue, hlimit⟩ := hnumber field
      rw [hvalue]
      exact truncate_le hlimit
    rw [isInValidRange_iff]
    exact ⟨hbound .year, hbound .month, hbound .date, hbound .hour, hbound .minute,
      hbound .second, hbound .millisecond⟩

/-- What is no time is no local time. -/
theorem applyLocalTimezoneOffset_nan {zone : TimeZone} (hzone : WithinDay zone) :
    applyLocalTimezoneOffset zone time64Nan = time64Nan := by
  obtain ⟨hstd, -⟩ := hzone time64Nan
  refine if_neg fun hrange => ?_
  rw [abs_le] at hstd hrange
  simp only [time64Nan, maximumDatePrimitiveValue, msPerMinute] at *
  omega

theorem store_spec {zone : TimeZone} (hzone : WithinDay zone) {utc : Bool} {numbers : Numbers}
    (hstorable : ∀ whole ∈ wholeFields numbers, Storable zone utc numbers whole) :
    ∃ stored, store zone utc numbers = some stored ∧
      match wholeFields numbers with
      | none => stored = time64Nan
      | some fields => IsTimeValue zone utc fields stored := by
  by_cases hvalid : isInValidRange numbers = true
  · obtain ⟨hwhole, hadmitted⟩ := wholeFields_of_valid hvalid
    have hfields := hstorable _ hwhole
    rw [Storable, if_pos hvalid] at hfields
    obtain ⟨hfits, hkept⟩ := hfields
    rw [store, if_pos hvalid, setTimeValue_of_fits _ hadmitted hfits, hwhole]
    generalize truncateAll numbers = whole at *
    refine ⟨_, rfl, ?_⟩
    dsimp only
    rw [IsTimeValue]
    by_cases hsupported : whole.IsYearSupported
    · rw [if_pos hsupported, if_pos hsupported]
      cases utc with
      | true => exact ⟨whole.instant, rfl, rfl⟩
      | false =>
        obtain ⟨hsame, hrange⟩ := hkept rfl hsupported
        refine ⟨whole.instant - offset zone whole.instant, ?_, ?_⟩
        · show _ - _ + offset zone (_ - _) = _
          rw [hsame]
          ring
        · simp only [Bool.not_false, if_true, applyLocalTimezoneOffset]
          rcases hrange with hin | hout
          · rw [if_pos hin]
          · rw [if_neg hout.not_ge]
            by_cases hin : |whole.instant - (zone whole.instant).1 * msPerMinute| ≤
                maximumDatePrimitiveValue
            · rw [if_pos hin, if_neg hout.not_ge]
            · rw [if_neg hin]
              exact ite_self _
    · rw [if_neg hsupported, if_neg hsupported]
      cases utc with
      | true => exact ite_self _
      | false =>
        simp only [Bool.not_false, if_true, applyLocalTimezoneOffset_nan hzone]
        exact ite_self _
  · have hstore : store zone utc numbers = some time64Nan := if_neg hvalid
    refine ⟨time64Nan, hstore, ?_⟩
    cases hwhole : wholeFields numbers with
    | none => rfl
    | some whole =>
      have hfields := hstorable whole hwhole
      rwa [Storable, if_neg hvalid] at hfields

section Setters

variable (zone : LocalZone) (cachedUTC : Option CachedUTCDateTimeInfo) (utc : Bool)
  (date : Option DateObject)

/-- A setter with arguments, once the date that it works on is known. -/
theorem builtinDateSet_of_ne_nil (hargv : argv ≠ []) {original : Option DateObject}
    (horiginal : (if name = .fullYear ∧ date.isNone then some (provisional zone) else date) =
      original) :
    builtinDateSet zone cachedUTC name utc date argv =
      match replace (name.parameters.zip argv)
        (startNumbers zone.offsets cachedUTC utc original) with
      | none => ⟨true, some (timeOf original)⟩
      | some numbers =>
        if original.isNone then ⟨false, some time64Nan⟩
        else ⟨false, store zone.offsets utc numbers⟩ := by
  have hlength : ¬argv.length < 1 := by
    rw [Nat.lt_one_iff, List.length_eq_zero_iff]
    exact hargv
  rw [builtinDateSet, builtinDateSetHelper]
  simp only [← and_assoc, isFullYear_iff, horiginal, if_neg hlength, convert_eq]

theorem exists_isStart (zone : LocalZone) (utc : Bool) (date : Option DateObject) :
    ∃ fields, IsStart zone.offsets utc date fields := by
  cases date with
  | none => exact ⟨epochFields, rfl⟩
  | some date =>
    have hoffset := offset_le zone.withinDay (date.primitiveValue : Int)
    have hvalid := date.primitiveValue.2
    refine ⟨_, fields_of_isGregorian (computeTimeInfoFromEpoch_isGregorian ?_ 0 0)⟩
    rw [InRange]
    split_ifs
    · exact hvalid.trans (by decide)
    · rw [abs_le] at *
      simp only [msPerDay, maximumDatePrimitiveValue] at *
      omega

/-- Without an argument the first parameter is `NaN`, and so is the time value. -/
theorem specified_nil (name : SetterName) (zone : LocalZone) (utc : Bool)
    (date : Option DateObject) :
    Specified zone.offsets name utc date [] ⟨false, some time64Nan⟩ := by
  obtain ⟨fields, hstart⟩ := exists_isStart zone utc date
  have hnone : ∀ numbers field, wholeFields (Function.update numbers field none) = none := by
    intro numbers field
    cases field <;> simp [wholeFields, Field.all]
  refine ⟨fields, hstart, ?_⟩
  cases name <;> exact ⟨time64Nan, rfl, by rw [hnone]⟩

/-- On the condition a setter does what it is for. -/
theorem specified_of_condition {zone : LocalZone} {utc : Bool} {date : Option DateObject}
    (history : List DateOperation)
    (hdate : ∀ d ∈ date, d ∈ (DateState.run zone.offsets history).dates)
    (hcondition : Condition zone (DateState.run zone.offsets history).cachedUTC name utc date argv) :
    Specified zone.offsets name utc date argv
      (builtinDateSet zone (DateState.run zone.offsets history).cachedUTC name utc date argv) := by
  by_cases hargv : argv = []
  · subst hargv
    exact specified_nil name zone utc date
  obtain ⟨fields, hstart⟩ := exists_isStart zone utc date
  rw [builtinDateSet_of_ne_nil zone _ utc date hargv rfl]
  refine ⟨fields, hstart, ?_⟩
  rw [if_neg hargv]
  by_cases hinvalid : date = none ∧ name ≠ .fullYear
  · obtain ⟨rfl, hname⟩ := hinvalid
    have hsame := (replace_eq_none_iff (name.parameters.zip argv) fun _ => some 0).trans
      (replace_eq_none_iff _ (numbersOf fields)).symm
    rw [if_neg fun h => hname h.1, startNumbers]
    cases hleft : replace (name.parameters.zip argv) (fun _ => some 0) with
    | none => rw [hsame.mp hleft]
    | some numbers =>
      cases hright : replace (name.parameters.zip argv) (numbersOf fields) with
      | none => rw [hsame.mpr hright] at hleft; cases hleft
      | some numbers' =>
        refine ⟨time64Nan, rfl, ?_⟩
        cases wholeFields numbers' with
        | none => rfl
        | some whole =>
          dsimp only
          rw [if_pos ⟨rfl, hname⟩]
  · have hcondition := hcondition hargv (by
      by_contra hnot
      rw [not_or, not_not] at hnot
      exact hinvalid hnot) fields hstart
    cases hreplaced : replace (name.parameters.zip argv) (numbersOf fields) with
    | none =>
      rw [hreplaced] at hcondition
      have hvalid : date.isNone = false := by
        rw [Option.isNone_eq_false_iff, Option.isSome_iff_ne_none]
        exact hcondition
      rw [if_neg fun h => Bool.false_ne_true (hvalid.symm.trans h.2),
        (replace_eq_none_iff _ _).mpr ((replace_eq_none_iff _ (numbersOf fields)).mp hreplaced)]
    | some numbers =>
      rw [hreplaced] at hcondition
      obtain ⟨hreads, hstorable⟩ := hcondition
      obtain ⟨stored, hstore, htimeValue⟩ := store_spec zone.withinDay hstorable
      have hstarts : replace (name.parameters.zip argv) (startNumbers zone.offsets
          (DateState.run zone.offsets history).cachedUTC utc
          (if name = .fullYear ∧ date.isNone then some (provisional zone) else date)) =
            some numbers ∧
          (if name = .fullYear ∧ date.isNone then some (provisional zone) else date).isNone =
            false := by
        cases date with
        | some d =>
          have hread := isStart_readFields zone.withinDay history (hdate d rfl) hreads
          rw [if_neg fun h => Bool.false_ne_true h.2, startNumbers, ← hreplaced,
            isStart_unique hstart hread]
          exact ⟨rfl, rfl⟩
        | none =>
          have hname : name = .fullYear := by
            by_contra hname
            exact hinvalid ⟨rfl, hname⟩
          obtain rfl : fields = epochFields := hstart
          rw [if_pos ⟨hname, rfl⟩, startNumbers, replace_congr hreads]
          exact ⟨hreplaced, rfl⟩
      rw [hstarts.1, hstarts.2]
      refine ⟨stored, congrArg (Outcome.mk false) hstore, ?_⟩
      cases hwhole : wholeFields numbers with
      | none =>
        rw [hwhole] at htimeValue
        exact htimeValue
      | some whole =>
        rw [hwhole] at htimeValue
        dsimp only
        rw [if_neg hinvalid]
        exact htimeValue

/-- A conversion that throws leaves the time value alone, but for a year on a date that is not
valid. -/
theorem specified_of_throws {zone : LocalZone} {utc : Bool} {date : Option DateObject}
    (cachedUTC : Option CachedUTCDateTimeInfo)
    (hthrows : Conversion.threw ∈ (name.parameters.zip argv).map Prod.snd) :
    Specified zone.offsets name utc date argv
        (builtinDateSet zone cachedUTC name utc date argv) ↔ ¬(name = .fullYear ∧ date = none) := by
  have hargv : argv ≠ [] := by
    rintro rfl
    rw [List.zip_nil_right] at hthrows
    exact absurd hthrows List.not_mem_nil
  have hnone := fun numbers => (replace_eq_none_iff (name.parameters.zip argv) numbers).mpr hthrows
  rw [builtinDateSet_of_ne_nil zone cachedUTC utc date hargv rfl, Specified]
  simp only [if_neg hargv, hnone]
  obtain ⟨fields, hstart⟩ := exists_isStart zone utc date
  constructor
  · rintro ⟨_, -, houtcome⟩ ⟨rfl, rfl⟩
    have hstored := congrArg Outcome.stored houtcome
    have hvalid := (provisional zone).primitiveValue.2
    simp only [Option.isNone_none, and_self, if_true, timeOf, Option.elim, Option.some.injEq]
      at hstored
    rw [hstored] at hvalid
    exact absurd hvalid (by decide)
  · intro hnot
    refine ⟨fields, hstart, ?_⟩
    rw [if_neg]
    rw [Option.isNone_iff_eq_none]
    exact hnot

end Setters

/-- A time in September 2020, in New York. -/
def september : DateObject := ⟨⟨1600000000000, by decide⟩, none⟩

def newYork : LocalZone := ⟨springForward, springForward_withinDay⟩

def nineHoursAhead : LocalZone :=
  ⟨fun _ => (540, 0), fun _ => ⟨show |(540 : Int)| ≤ 1440 by decide, show |(0 : Int)| ≤ 1440 by decide⟩⟩

end Escargot.Runtime.DateSetters
