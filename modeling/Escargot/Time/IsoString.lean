/-
# The ISO text of a date, printed and read back

`toISOString` prints the UTC fields with `snprintf`. `parseStringToDate` reads numbers with
`strtol`, which takes as many digits as there are, and looks at how far it got. What is printed is
read back in full, as the same instant.
-/

import Escargot.Time.DateFields

namespace Escargot.Runtime.DateObject

open List

/-- A conversion `%d` without flags. -/
def printDecimal (n : Nat) : List UInt8 := (Nat.toDigits 10 n).map fun c => .ofNat c.toNat

/-- A conversion `%0<width>d`, with the flag `+` if it is set. -/
def printPadded (plus : Bool) (width : Nat) (n : Int) : List UInt8 :=
  let sign : List UInt8 := if n < 0 then [45] else if plus then [43] else []
  let digits := printDecimal n.natAbs
  sign ++ (List.replicate (width - sign.length - digits.length) 48 ++ digits)

/-- `DateObject::toISOString`. An invalid time is a `RangeError`. -/
def toISOString (primitiveValue : Int) (getUTC : UtcGetter → Int) : Option (List UInt8) :=
  if primitiveValue ≠ time64Nan then
    let year :=
      if 0 ≤ getUTC .fullYear ∧ getUTC .fullYear ≤ 9999 then printPadded false 4 (getUTC .fullYear)
      else printPadded true 7 (getUTC .fullYear)
    some (year ++ (45 :: (printPadded false 2 (getUTC .month + 1) ++
      (45 :: (printPadded false 2 (getUTC .date) ++
      (84 :: (printPadded false 2 (getUTC .hours) ++
      (58 :: (printPadded false 2 (getUTC .minutes) ++
      (58 :: (printPadded false 2 (getUTC .seconds) ++
      (46 :: (printPadded false 3 (getUTC .milliseconds) ++ [90])))))))))))))
  else none

variable (s : List UInt8)

/-- The character at a position of a C string. -/
def peek : UInt8 := s.headD 0

def isASCIIDigit (c : UInt8) : Bool := 48 ≤ c.toNat && c.toNat ≤ 57

/-- `isspace` in the C locale. -/
def isSpace (c : UInt8) : Bool := c = 32 || (9 ≤ c.toNat && c.toNat ≤ 13)

def digitsNumber : Nat := s.foldl (fun n c => n * 10 + (c.toNat - 48)) 0

/-- `strtol` with base 10: the number, and where it ends. -/
def strtol : Int × List UInt8 :=
  let body := s.dropWhile isSpace
  let digits := if peek body = 45 ∨ peek body = 43 then body.tail else body
  if isASCIIDigit (peek digits) then
    let n : Int := digitsNumber (digits.takeWhile isASCIIDigit)
    (max (-2 ^ 63) (min (if peek body = 45 then -n else n) (2 ^ 63 - 1)),
      digits.dropWhile isASCIIDigit)
  else (0, s)

def parseInt : Option (Int × List UInt8) :=
  let parsed := strtol s
  if s.length = parsed.2.length ∨ parsed.1 ≤ -2 ^ 31 ∨ parsed.1 ≥ 2 ^ 31 - 1 then none
  else some parsed

/-- `parseLong`. With a number of digits given, the value is that of three characters at most. -/
def parseLong (digits : Nat) : Option (Int × List UInt8) :=
  let stopPosition := (strtol s).2
  let result := if digits = 0 then (strtol s).1 else (strtol (s.take 3)).1
  if s.length = stopPosition.length ∨ result = -2 ^ 63 ∨ result = 2 ^ 63 - 1 then none
  else some (result, stopPosition)

/-- A field of two digits, as both portions read it. -/
def parseTwoDigits : Option (Int × List UInt8) :=
  if isASCIIDigit (peek s) then
    (parseLong s 0).bind fun parsed => if s.length - parsed.2.length ≠ 2 then none else some parsed
  else none

/-- What `parseES5DatePortion` reads, and the position after it. -/
structure DatePortion where
  rest : List UInt8
  year : Int
  month : Int
  day : Int

variable (dateString : List UInt8)

def parseES5DatePortion : Option DatePortion :=
  (parseInt dateString).bind fun year =>
    if peek dateString = 45 ∧ year.1 = 0 then none
    else if peek year.2 ≠ 45 then some ⟨year.2, year.1, 1, 1⟩
    else
      (parseTwoDigits year.2.tail).bind fun month =>
        if peek month.2 ≠ 45 then some ⟨month.2, year.1, month.1, 1⟩
        else (parseTwoDigits month.2.tail).map fun day => ⟨day.2, year.1, month.1, day.1⟩

/-- What `parseES5TimePortion` reads, and the position after it. -/
structure TimePortion where
  rest : List UInt8
  hours : Int
  minutes : Int
  milliSeconds : Int
  timeZoneSeconds : Int
  haveTZ : Bool

/-- The seconds of `parseES5TimePortion`, in milliseconds. -/
def parseSeconds : Option (Int × List UInt8) :=
  (parseTwoDigits s).bind fun intSeconds =>
    if peek intSeconds.2 = 46 then
      let fraction := intSeconds.2.tail
      if isASCIIDigit (peek fraction) then
        (parseLong fraction 3).map fun fracSeconds =>
          let numFracDigits := min (fraction.length - fracSeconds.2.length) 3
          (intSeconds.1 * 1000 + fracSeconds.1 * 10 ^ (3 - numFracDigits), fracSeconds.2)
      else none
    else some (intSeconds.1 * 1000, intSeconds.2)

/-- The digits of an offset: its hours and minutes. -/
def parseOffset : Option (Int × Int × List UInt8) :=
  if isASCIIDigit (peek s) then
    (parseLong s 0).bind fun tzHours =>
      if s.length - tzHours.2.length = 4 then
        some (tzHours.1.tdiv 100, tzHours.1.tmod 100, tzHours.2)
      else if s.length - tzHours.2.length = 2 then
        if peek tzHours.2 ≠ 58 then none
        else (parseTwoDigits tzHours.2.tail).map fun tzMinutes =>
          (tzHours.1, tzMinutes.1, tzMinutes.2)
      else none
  else none

/-- The end of `parseES5TimePortion`: `timeZoneSeconds`, `haveTZ` and the position. -/
def parseTimeZone (haveTZ : Bool) : Option (Int × Bool × List UInt8) :=
  if peek s = 90 then some (0, true, s.tail)
  else if peek s = 45 ∨ peek s = 43 then
    (parseOffset s.tail).bind fun offset =>
      if |offset.1| > 24 then none
      else if offset.2.1 < 0 ∨ offset.2.1 > 59 then none
      else
        let timeZoneSeconds := 60 * (offset.2.1 + 60 * |offset.1|)
        some (if peek s = 45 then -timeZoneSeconds else timeZoneSeconds, true, offset.2.2)
  else some (0, haveTZ, s)

def parseES5TimePortion (haveTZ : Bool) : Option TimePortion :=
  (parseTwoDigits s).bind fun hours =>
    if peek hours.2 ≠ 58 then none
    else
      (parseTwoDigits hours.2.tail).bind fun minutes =>
        (if peek minutes.2 = 58 then parseSeconds minutes.2.tail else some (0, minutes.2)).bind
          fun milliSeconds =>
            (parseTimeZone milliSeconds.2 haveTZ).map fun zone =>
              ⟨zone.2.2, hours.1, minutes.1, milliSeconds.1, zone.1, zone.2.1⟩

/-- The checks of `parseStringToDate_2` after the portions are read. -/
def fieldsValid (date : DatePortion) (time : TimePortion) : Bool :=
  let daysPerMonth : List Int := [31, 29, 31, 30, 31, 30, 31, 31, 30, 31, 30, 31]
  1 ≤ date.month && date.month ≤ 12 &&
    (1 ≤ date.day && date.day ≤ daysPerMonth.getD (date.month - 1).toNat 0) &&
    !(date.month = 2 && 28 < date.day && daysInYear date.year ≠ 366) &&
    (0 ≤ time.hours && time.hours ≤ 24) &&
    !(time.hours = 24 && (time.minutes ≠ 0 || time.milliSeconds ≠ 0)) &&
    (0 ≤ time.minutes && time.minutes ≤ 59) &&
    (0 ≤ time.milliSeconds && time.milliSeconds < 60000 + 1000)

/-- The time portion if there is one; without it the string counts as having a time zone. -/
def timePortion : Option TimePortion :=
  if peek s = 84 then parseES5TimePortion s.tail false else some ⟨s, 0, 0, 0, 0, true⟩

/-- `DateObject::parseStringToDate_2`: the time and `haveTZ`, which nothing reads if the time is
invalid. -/
def parseStringToDate_2 : Option Int × Bool :=
  let portions := (parseES5DatePortion dateString).bind fun date =>
    (timePortion date.rest).map fun time => (date, time)
  match portions with
  | none => (some time64Nan, true)
  | some (date, time) =>
    if time.rest.dropWhile isSpace ≠ [] then (some time64Nan, true)
    else if !fieldsValid date time then (some time64Nan, true)
    else
      -- A leap second is the end of its minute.
      let milliSeconds := if time.milliSeconds > 60000 then 60000 else time.milliSeconds
      ((timeinfoToMs date.year (date.month - 1).toNat date.day time.hours time.minutes
          (milliSeconds.tdiv 1000) (milliSeconds.tmod 1000)).bind fun t =>
        ofWidth 64 (t - time.timeZoneSeconds * 1000), time.haveTZ)

section Parse

variable (applyLocalTimezoneOffset : Int → Int)
variable (parseStringToDate_1 : List UInt8 → Int × Bool × Int)
variable (udatParse : List UInt8 → Int)

/-- `DateObject::parseStringToDate`, on the bytes of the string in UTF-8. What
`parseStringToDate_1` answers is its time, `haveTZ` and the offset in minutes. -/
def parseStringToDate (istr : List UInt8) : Option Int :=
  let dateString := istr.takeWhile (· ≠ 0)
  let parsed := parseStringToDate_2 dateString
  parsed.1.bind fun primitiveValue =>
    let primitiveValue :=
      if primitiveValue ≠ time64Nan then
        if !parsed.2 then applyLocalTimezoneOffset primitiveValue else primitiveValue
      else
        let other := parseStringToDate_1 dateString
        if other.1 ≠ time64Nan then
          if !other.2.1 then applyLocalTimezoneOffset other.1
          else other.1 - other.2.2 * msPerMinute
        else time64Nan
    if primitiveValue ≠ time64Nan ∧ primitiveValue ≤ maximumDatePrimitiveValue ∧
        -maximumDatePrimitiveValue ≤ primitiveValue then some primitiveValue
    else some (udatParse istr)

end Parse

/-- The text that is printed for a time is read by both portions in full and names the time. -/
structure ReadsBack (t : Int) (getUTC : UtcGetter → Int) (text rest : List UInt8) : Prop where
  printed : toISOString t getUTC = some text
  date : parseES5DatePortion text =
    some ⟨84 :: rest, getUTC .fullYear, getUTC .month + 1, getUTC .date⟩
  time : parseES5TimePortion rest false = some ⟨[], getUTC .hours, getUTC .minutes,
      getUTC .seconds * 1000 + getUTC .milliseconds, 0, true⟩
  parsed : ∀ applyLocalTimezoneOffset parseStringToDate_1 udatParse,
    parseStringToDate applyLocalTimezoneOffset parseStringToDate_1 udatParse text = some t

section Numbers

variable {n width : Nat} {rest : List UInt8}

theorem toNat_digitChar {d : Nat} (h : d < 10) :
    (UInt8.ofNat d.digitChar.toNat).toNat = 48 + d := by
  have htable : ∀ k < 10, (UInt8.ofNat (Nat.digitChar k).toNat).toNat = 48 + k := by decide
  exact htable d h

theorem printDecimal_of_lt (h : n < 10) : printDecimal n = [.ofNat n.digitChar.toNat] := by
  rw [printDecimal, Nat.toDigits_eq_if (by decide), if_pos h]
  rfl

theorem printDecimal_of_ge (h : 10 ≤ n) :
    printDecimal n = printDecimal (n / 10) ++ [.ofNat (n % 10).digitChar.toNat] := by
  rw [printDecimal, Nat.toDigits_eq_if (by decide), if_neg (by omega), map_append]
  rfl

def AllDigits (s : List UInt8) : Prop := ∀ c ∈ s, isASCIIDigit c = true

theorem isASCIIDigit_digitChar {d : Nat} (h : d < 10) :
    isASCIIDigit (.ofNat d.digitChar.toNat) = true := by
  rw [isASCIIDigit, toNat_digitChar h]
  simp only [Bool.and_eq_true, decide_eq_true_eq]
  omega

theorem printDecimal_spec : ∀ n : Nat, AllDigits (printDecimal n) ∧ 0 < (printDecimal n).length ∧
    (∀ k, n < 10 ^ (k + 1) → (printDecimal n).length ≤ k + 1) ∧
    ∀ v, (printDecimal n).foldl (fun n c => n * 10 + (c.toNat - 48)) v =
      v * 10 ^ (printDecimal n).length + n := by
  intro n
  induction n using Nat.strong_induction_on with
  | _ n ih =>
    rcases Nat.lt_or_ge n 10 with h | h
    · rw [printDecimal_of_lt h]
      refine ⟨?_, Nat.one_pos, fun k _ => Nat.le_add_left 1 k, fun v => ?_⟩
      · rw [AllDigits, forall_mem_singleton]
        exact isASCIIDigit_digitChar h
      · simp only [foldl_cons, foldl_nil, toNat_digitChar h, length_singleton]
        omega
    · obtain ⟨hall, hpos, hlength, hvalue⟩ := ih (n / 10) (by omega)
      have hlast := Nat.mod_lt n (show 0 < 10 by decide)
      rw [printDecimal_of_ge h]
      refine ⟨?_, ?_, fun k hk => ?_, fun v => ?_⟩
      · rw [AllDigits, forall_mem_append, forall_mem_singleton]
        exact ⟨hall, isASCIIDigit_digitChar hlast⟩
      · rw [length_append]
        exact Nat.lt_of_lt_of_le hpos (Nat.le_add_right _ _)
      · cases k with
        | zero => omega
        | succ k =>
          have hshort := hlength k (by rw [Nat.pow_succ] at hk; omega)
          rw [length_append, length_singleton]
          omega
      · rw [foldl_append, hvalue, length_append, length_singleton, Nat.pow_succ]
        simp only [foldl_cons, foldl_nil, toNat_digitChar hlast]
        rw [Nat.add_mul, Nat.mul_assoc]
        omega

theorem zeros_spec (zeros n : Nat) : AllDigits (List.replicate zeros 48 ++ printDecimal n) ∧
      0 < (List.replicate zeros 48 ++ printDecimal n).length ∧
      digitsNumber (List.replicate zeros 48 ++ printDecimal n) = n := by
  obtain ⟨hall, hpos, -, hvalue⟩ := printDecimal_spec n
  have hzeros : ∀ count, (List.replicate count (48 : UInt8)).foldl
      (fun n c => n * 10 + (c.toNat - 48)) 0 = 0 := by
    intro count
    induction count with
    | zero => rfl
    | succ count ih => exact ih
  refine ⟨?_, ?_, ?_⟩
  · rw [AllDigits, forall_mem_append]
    refine ⟨fun c hc => ?_, hall⟩
    rw [eq_of_mem_replicate hc]
    rfl
  · rw [length_append]
    omega
  · rw [digitsNumber, foldl_append, hzeros, hvalue]
    omega

theorem printPadded_eq (hpos : 0 < width) (hwidth : n < 10 ^ width) :
    AllDigits (printPadded false width n) ∧ (printPadded false width n).length = width ∧
      digitsNumber (printPadded false width n) = n := by
  have hlength := (printDecimal_spec n).2.2.1 (width - 1)
  rw [Nat.sub_add_cancel hpos] at hlength
  have hprinted : printPadded false width n =
      List.replicate (width - (printDecimal n).length) 48 ++ printDecimal n := by
    rw [printPadded]
    simp only [Int.natAbs_natCast, if_neg (Int.not_lt.mpr (Int.natCast_nonneg n)),
      Bool.false_eq_true, if_false, nil_append, length_nil, Nat.sub_zero]
  obtain ⟨hall, -, hvalue⟩ := zeros_spec (width - (printDecimal n).length) n
  rw [hprinted]
  refine ⟨hall, ?_, hvalue⟩
  rw [length_append, length_replicate]
  omega

theorem printPadded_signed (n : Int) : ∃ digits : List UInt8,
    printPadded true 7 n = (if n < 0 then 45 else 43) :: digits ∧ AllDigits digits ∧
      0 < digits.length ∧ digitsNumber digits = n.natAbs := by
  refine ⟨_, ?_, zeros_spec (6 - (printDecimal n.natAbs).length) n.natAbs⟩
  rw [printPadded]
  simp only [if_true]
  split_ifs with hneg
  · rfl
  · rfl

end Numbers

section Reading

variable {digits rest : List UInt8}

/-- The next character ends a number. -/
def Ends (s : List UInt8) : Prop := isASCIIDigit (peek s) = false

theorem AllDigits.peek_append (hall : AllDigits digits) (hpos : 0 < digits.length)
    (rest : List UInt8) :
    isASCIIDigit (peek (digits ++ rest)) = true := by
  cases digits with
  | nil => exact absurd hpos (Nat.lt_irrefl 0)
  | cons c tail => exact hall c mem_cons_self

theorem dropWhile_ends (hends : Ends rest) : rest.dropWhile isASCIIDigit = rest := by
  cases rest with
  | nil => rfl
  | cons c tail =>
    refine dropWhile_cons_of_neg ?_
    rw [show isASCIIDigit c = false from hends]
    decide

theorem takeWhile_ends (hends : Ends rest) : rest.takeWhile isASCIIDigit = [] := by
  cases rest with
  | nil => rfl
  | cons c tail =>
    refine takeWhile_cons_of_neg ?_
    rw [show isASCIIDigit c = false from hends]
    decide

theorem AllDigits.span (hall : AllDigits digits) (hends : Ends rest) :
    (digits ++ rest).takeWhile isASCIIDigit = digits ∧
      (digits ++ rest).dropWhile isASCIIDigit = rest := by
  rw [takeWhile_append_of_pos hall, dropWhile_append_of_pos hall, takeWhile_ends hends,
    dropWhile_ends hends, append_nil]
  exact ⟨rfl, rfl⟩

theorem isASCIIDigit_spec {c : UInt8} (h : isASCIIDigit c = true) :
    isSpace c = false ∧ c ≠ 45 ∧ c ≠ 43 ∧ c ≠ 0 := by
  rw [isASCIIDigit, Bool.and_eq_true, decide_eq_true_eq, decide_eq_true_eq] at h
  refine ⟨?_, ?_, ?_, ?_⟩
  · rw [isSpace, Bool.or_eq_false_iff, decide_eq_false_iff_not, Bool.and_eq_false_iff,
      decide_eq_false_iff_not, decide_eq_false_iff_not]
    refine ⟨?_, Or.inr (by omega)⟩
    rintro rfl
    exact absurd h.1 (by decide)
  all_goals
    rintro rfl
    exact absurd h.1 (by decide)

theorem strtol_digits (hall : AllDigits digits) (hpos : 0 < digits.length) (hends : Ends rest)
    (hlt : digitsNumber digits < 2 ^ 63) :
    strtol (digits ++ rest) = ((digitsNumber digits : Int), rest) := by
  have hpeek := hall.peek_append hpos rest
  obtain ⟨hspace, hminus, hplus, -⟩ := isASCIIDigit_spec hpeek
  have hbody : (digits ++ rest).dropWhile isSpace = digits ++ rest := by
    cases digits with
    | nil => exact absurd hpos (Nat.lt_irrefl 0)
    | cons c tail =>
      exact dropWhile_cons_of_neg (by rw [show isSpace c = false from hspace]; decide)
  simp only [strtol, hbody, hminus, hplus, or_self, if_false, hpeek, if_true, (hall.span hends).1,
    (hall.span hends).2, Prod.mk.injEq, and_true]
  omega

theorem strtol_signed {sign : UInt8} (hsign : sign = 45 ∨ sign = 43) (hall : AllDigits digits)
    (hpos : 0 < digits.length) (hends : Ends rest) (hlt : digitsNumber digits < 2 ^ 63) :
    strtol (sign :: (digits ++ rest)) =
      (if sign = 45 then -(digitsNumber digits : Int) else digitsNumber digits, rest) := by
  have hpeek := hall.peek_append hpos rest
  have hbody : (sign :: (digits ++ rest)).dropWhile isSpace = sign :: (digits ++ rest) := by
    obtain rfl | rfl := hsign <;> rfl
  have hhead : peek (sign :: (digits ++ rest)) = sign := rfl
  simp only [strtol, hbody, hhead, if_pos hsign, tail_cons, hpeek, if_true,
    (hall.span hends).1, (hall.span hends).2, Prod.mk.injEq, and_true]
  split_ifs <;> omega

theorem parseInt_eq {s : List UInt8} {n : Int} (hread : strtol s = (n, rest))
    (hlength : rest.length < s.length) (hlow : -2 ^ 31 < n) (hhigh : n < 2 ^ 31 - 1) :
    parseInt s = some (n, rest) := by
  rw [parseInt, hread]
  exact if_neg (by simp only; omega)

theorem parseLong_digits (hall : AllDigits digits) (hpos : 0 < digits.length) (hends : Ends rest)
    (hlt : digitsNumber digits < 1000) (count : Nat) (hcount : count = 0 ∨ digits.length = 3) :
    parseLong (digits ++ rest) count = some ((digitsNumber digits : Int), rest) := by
  have hread := strtol_digits hall hpos hends (by omega)
  have hresult : (if count = 0 then (strtol (digits ++ rest)).1
      else (strtol ((digits ++ rest).take 3)).1) = digitsNumber digits := by
    split_ifs with hzero
    · rw [hread]
    · have hthree : digits.length = 3 := hcount.resolve_left hzero
      have hnil := strtol_digits  hall hpos (show Ends ([] : List UInt8) from rfl) (by omega)
      rw [append_nil] at hnil
      rw [← hthree, take_left, hnil]
  rw [parseLong, hresult, hread]
  refine if_neg ?_
  simp only [length_append]
  omega

theorem parseTwoDigits_printPadded {n : Int} (hlow : 0 ≤ n) (hhigh : n < 100) (hends : Ends rest) :
    parseTwoDigits (printPadded false 2 n ++ rest) = some (n, rest) := by
  obtain ⟨n, rfl⟩ := Int.eq_ofNat_of_zero_le hlow
  obtain ⟨hall, hlength, hvalue⟩ := printPadded_eq (n := n) (show 0 < 2 by decide) (by omega)
  have hpos : 0 < (printPadded false 2 n).length := by omega
  rw [parseTwoDigits, if_pos (hall.peek_append hpos rest),
    parseLong_digits hall hpos hends (by omega) 0 (Or.inl rfl), Option.bind_some, hvalue,
    length_append, hlength, Nat.add_sub_cancel_right]
  rfl

theorem parseInt_year {year : Int} (hlow : -999999 ≤ year) (hhigh : year ≤ 999999)
    (hends : Ends rest) :
    parseInt ((if 0 ≤ year ∧ year ≤ 9999 then printPadded false 4 year
      else printPadded true 7 year) ++ rest) = some (year, rest) := by
  split_ifs with hfour
  · obtain ⟨year, rfl⟩ := Int.eq_ofNat_of_zero_le hfour.1
    obtain ⟨hall, hlength, hvalue⟩ := printPadded_eq (n := year) (show 0 < 4 by decide) (by omega)
    have hread := strtol_digits hall (by omega) hends (by omega)
    rw [hvalue] at hread
    refine parseInt_eq hread ?_ (by omega) (by omega)
    rw [length_append]
    omega
  · obtain ⟨digits, hprinted, hall, hpos, hvalue⟩ := printPadded_signed year
    have hsign : (if year < 0 then 45 else 43 : UInt8) = 45 ∨
        (if year < 0 then 45 else 43 : UInt8) = 43 := by
      split_ifs
      · exact Or.inl rfl
      · exact Or.inr rfl
    have hread := strtol_signed hsign hall hpos hends (by omega)
    rw [hprinted, cons_append]
    refine parseInt_eq (hread.trans ?_) ?_ (by omega) (by omega)
    · rw [hvalue, Prod.mk.injEq, and_iff_left rfl]
      split_ifs with hneg hsign hsign
      · omega
      · exact absurd rfl hsign
      · exact absurd hsign (by decide)
      · omega
    · rw [length_cons, length_append]
      omega

theorem parseSeconds_printPadded {seconds milliseconds : Int}
    (hseconds : 0 ≤ seconds ∧ seconds < 60)
    (hmilliseconds : 0 ≤ milliseconds ∧ milliseconds < 1000) (hends : Ends rest) :
    parseSeconds (printPadded false 2 seconds ++
        46 :: (printPadded false 3 milliseconds ++ rest)) =
      some (seconds * 1000 + milliseconds, rest) := by
  obtain ⟨n, rfl⟩ := Int.eq_ofNat_of_zero_le hmilliseconds.1
  obtain ⟨hall, hlength, hvalue⟩ := printPadded_eq (n := n) (show 0 < 3 by decide) (by omega)
  have hpos : 0 < (printPadded false 3 n).length := by omega
  have hfraction := parseLong_digits hall hpos hends (by omega) 3 (Or.inr hlength)
  have hcount : (printPadded false 3 n ++ rest).length - rest.length = 3 := by
    rw [length_append, hlength, Nat.add_sub_cancel_right]
  have hpoint : Ends (46 :: (printPadded false 3 (n : Int) ++ rest)) := rfl
  rw [parseSeconds, parseTwoDigits_printPadded hseconds.1 (by omega) hpoint, Option.bind_some,
    if_pos (show peek (46 :: (printPadded false 3 (n : Int) ++ rest)) = 46 from rfl)]
  simp only [tail_cons, hall.peek_append hpos rest, if_true, hfraction, Option.map_some,
    hcount, hvalue, min_self, Nat.sub_self, pow_zero, mul_one]

end Reading

section Text

variable {t : Int} {getUTC : UtcGetter → Int}

def utcFields (getUTC : UtcGetter → Int) : TimeFields where
  year := getUTC .fullYear
  month := getUTC .month
  date := getUTC .date
  hour := getUTC .hours
  minute := getUTC .minutes
  second := getUTC .seconds
  millisecond := getUTC .milliseconds

theorem IsGregorian.isCivil (hfields : IsGregorian t getUTC) : (utcFields getUTC).IsCivil where
  month := hfields.month
  date := hfields.date
  hour := hfields.hours
  minute := hfields.minutes
  second := hfields.seconds
  millisecond := hfields.milliseconds

theorem IsGregorian.year_bounds (ht : |t| ≤ maximumDatePrimitiveValue)
    (hfields : IsGregorian t getUTC) :
    -300000 ≤ getUTC .fullYear ∧ getUTC .fullYear ≤ 300000 := by
  obtain ⟨hmonth, hdate, hhours, hminutes, hseconds, hmilliseconds, htime, -⟩ := hfields
  obtain ⟨month, hcast⟩ := Int.eq_ofNat_of_zero_le hmonth.1
  rw [hcast] at hmonth hdate htime
  have hday := dayNumber_bounds (by omega) hdate.1 hdate.2
  rw [abs_le] at ht
  simp only [daysFromYear, msPerDay, msPerHour, msPerMinute, maximumDatePrimitiveValue] at *
  omega

theorem IsGregorian.toMs (ht : |t| ≤ maximumDatePrimitiveValue) (hfields : IsGregorian t getUTC) :
    (utcFields getUTC).toMs = some t := by
  have hyear := hfields.year_bounds ht
  have hvalid : t ≠ time64Nan := by
    rintro rfl
    exact absurd ht (by decide)
  refine (hfields.isCivil.toMs_eq_some hvalid).mpr ⟨?_, ?_⟩
  · rw [abs_le]
    simp only [utcFields]
    omega
  · rw [hfields.time]
    simp only [makeDate, makeTime, utcFields]
    ring

/-- The part of the text behind the `T`. -/
def isoTime (getUTC : UtcGetter → Int) : List UInt8 :=
  printPadded false 2 (getUTC .hours) ++
    (58 :: (printPadded false 2 (getUTC .minutes) ++
    (58 :: (printPadded false 2 (getUTC .seconds) ++
    (46 :: (printPadded false 3 (getUTC .milliseconds) ++ [90]))))))

def isoText (getUTC : UtcGetter → Int) : List UInt8 :=
  (if 0 ≤ getUTC .fullYear ∧ getUTC .fullYear ≤ 9999 then printPadded false 4 (getUTC .fullYear)
    else printPadded true 7 (getUTC .fullYear)) ++
  (45 :: (printPadded false 2 (getUTC .month + 1) ++
    (45 :: (printPadded false 2 (getUTC .date) ++ (84 :: isoTime getUTC)))))

/-- A text does not begin with a minus sign if the year is zero. -/
theorem peek_isoText (hzero : getUTC .fullYear = 0) : peek (isoText getUTC) ≠ 45 := by
  obtain ⟨hall, hlength, -⟩ := printPadded_eq (n := 0) (show 0 < 4 by decide) (by decide)
  rw [isoText, hzero, if_pos (by decide)]
  exact (isASCIIDigit_spec (hall.peek_append (by omega) _)).2.1

theorem parseES5DatePortion_isoText (ht : |t| ≤ maximumDatePrimitiveValue)
    (hfields : IsGregorian t getUTC) : parseES5DatePortion (isoText getUTC) =
      some ⟨84 :: isoTime getUTC, getUTC .fullYear, getUTC .month + 1, getUTC .date⟩ := by
  have hyear := hfields.year_bounds ht
  have hmonth := hfields.month
  have hdate := hfields.date
  have hlength := monthLength_bounds (getUTC .fullYear) (getUTC .month)
  have hdash : ∀ s, Ends (45 :: s) := fun _ => rfl
  have hmark : Ends (84 :: isoTime getUTC) := rfl
  rw [parseES5DatePortion]
  nth_rewrite 1 [isoText]
  rw [parseInt_year (by omega) (by omega) (hdash _), Option.bind_some,
    if_neg fun hminus => peek_isoText hminus.2 hminus.1]
  simp only [peek, headD_cons, ne_eq, not_true_eq_false, if_false, tail_cons]
  rw [parseTwoDigits_printPadded (by omega) (by omega) (hdash _), Option.bind_some]
  simp only [headD_cons, not_true_eq_false, if_false, tail_cons]
  rw [parseTwoDigits_printPadded (by omega) (by omega) hmark, Option.map_some]

theorem parseES5TimePortion_isoTime (hfields : IsGregorian t getUTC) :
    parseES5TimePortion (isoTime getUTC) false = some ⟨[], getUTC .hours, getUTC .minutes,
        getUTC .seconds * 1000 + getUTC .milliseconds, 0, true⟩ := by
  have hhours := hfields.hours
  have hminutes := hfields.minutes
  have hcolon : ∀ s, Ends (58 :: s) := fun _ => rfl
  rw [parseES5TimePortion, isoTime,
    parseTwoDigits_printPadded hhours.1 (by omega) (hcolon _), Option.bind_some]
  simp only [peek, headD_cons, ne_eq, not_true_eq_false, if_false, tail_cons]
  rw [parseTwoDigits_printPadded hminutes.1 (by omega) (hcolon _), Option.bind_some]
  simp only [headD_cons, if_true, tail_cons]
  rw [parseSeconds_printPadded hfields.seconds hfields.milliseconds (show Ends [90] from rfl),
    Option.bind_some]
  rfl

theorem fieldsValid_of_isGregorian (hfields : IsGregorian t getUTC) (rest rest' : List UInt8) :
    fieldsValid ⟨rest, getUTC .fullYear, getUTC .month + 1, getUTC .date⟩
      ⟨rest', getUTC .hours, getUTC .minutes, getUTC .seconds * 1000 + getUTC .milliseconds, 0,
        true⟩ = true := by
  obtain ⟨hmonth, hdate, hhours, hminutes, hseconds, hmilliseconds, -, -⟩ := hfields
  have hleap : getUTC .month = 1 → 28 < getUTC .date → daysInYear (getUTC .fullYear) = 366 := by
    intro hfebruary hlast
    rw [hfebruary, monthLength, if_pos rfl] at hdate
    have hleapYear : IsLeapYear (getUTC .fullYear) := by
      by_contra hcommon
      rw [if_neg hcommon] at hdate
      omega
    rw [daysInYear_eq, daysFromYear_succ, if_pos hleapYear]
    omega
  have hlength : getUTC .date ≤ ([31, 29, 31, 30, 31, 30, 31, 31, 30, 31, 30, 31] : List Int).getD
        (getUTC .month).toNat 0 := by
    obtain ⟨month, hcast⟩ := Int.eq_ofNat_of_zero_le hmonth.1
    rw [hcast] at hmonth hdate ⊢
    have hlt : month < 12 := by omega
    refine hdate.2.trans ?_
    rw [monthLength]
    by_cases hleapYear : IsLeapYear (getUTC .fullYear)
    · rw [if_pos hleapYear]
      interval_cases month <;> decide
    · rw [if_neg hleapYear]
      interval_cases month <;> decide
  simp only [fieldsValid, Bool.and_eq_true, Bool.not_eq_true', decide_eq_true_eq,
    Bool.and_eq_false_iff, decide_eq_false_iff_not, Bool.or_eq_false_iff, add_sub_cancel_right]
  refine ⟨⟨⟨⟨⟨⟨⟨by omega, by omega⟩, by omega, hlength⟩, ?_⟩, by omega, by omega⟩, ?_⟩, by omega,
    by omega⟩, by omega, by omega⟩
  · by_cases hfebruary : getUTC .month = 1
    · by_cases hlast : 28 < getUTC .date
      · exact Or.inr fun hdays => hdays (hleap hfebruary hlast)
      · exact Or.inl (Or.inr hlast)
    · exact Or.inl (Or.inl (by omega))
  · exact Or.inl (by omega)

theorem ne_zero_of_allDigits {digits : List UInt8} (hall : AllDigits digits) :
    ∀ c ∈ digits, c ≠ 0 :=
  fun c hc => (isASCIIDigit_spec (hall c hc)).2.2.2

theorem isoText_ne_zero (_ : |t| ≤ maximumDatePrimitiveValue) (hfields : IsGregorian t getUTC) :
    ∀ c ∈ isoText getUTC, c ≠ 0 := by
  obtain ⟨hmonth, hdate, hhours, hminutes, hseconds, hmilliseconds, -, -⟩ := hfields
  have hlength := monthLength_bounds (getUTC .fullYear) (getUTC .month)
  have hfield : ∀ (width : Nat) (n : Int), 0 < width → 0 ≤ n → n < 10 ^ width →
      ∀ c ∈ printPadded false width n, c ≠ 0 := by
    intro width n hpos hlow hhigh
    obtain ⟨n, rfl⟩ := Int.eq_ofNat_of_zero_le hlow
    exact ne_zero_of_allDigits (printPadded_eq hpos (by exact_mod_cast hhigh)).1
  rw [isoText, isoTime]
  simp only [forall_mem_append, forall_mem_cons]
  refine ⟨?_, by decide, hfield 2 _ (by decide) (by omega) (by omega), by decide,
    hfield 2 _ (by decide) (by omega) (by omega), by decide,
    hfield 2 _ (by decide) (by omega) (by omega), by decide,
    hfield 2 _ (by decide) (by omega) (by omega), by decide,
    hfield 2 _ (by decide) (by omega) (by omega), by decide,
    hfield 3 _ (by decide) (by omega) (by omega), by decide, forall_mem_nil _⟩
  split_ifs with hfour
  · exact hfield 4 _ (by decide) hfour.1 (by omega)
  · obtain ⟨digits, hprinted, hall, -⟩ := printPadded_signed (getUTC .fullYear)
    rw [hprinted, forall_mem_cons]
    refine ⟨?_, ne_zero_of_allDigits hall⟩
    split_ifs
    · decide
    · decide

/-- What is printed for a valid time is read back in full, and names the same millisecond. -/
theorem isoString_readsBack (ht : |t| ≤ maximumDatePrimitiveValue) (hfields : IsGregorian t getUTC) :
    ReadsBack t getUTC (isoText getUTC) (isoTime getUTC) := by
  have hdate := parseES5DatePortion_isoText ht hfields
  have htime := parseES5TimePortion_isoTime hfields
  have hvalid : t ≠ time64Nan := by
    rintro rfl
    exact absurd ht (by decide)
  have hseconds := hfields.seconds
  have hmilliseconds := hfields.milliseconds
  have hzone : timePortion (84 :: isoTime getUTC) = some ⟨[], getUTC .hours, getUTC .minutes,
        getUTC .seconds * 1000 + getUTC .milliseconds, 0, true⟩ := htime
  have hsplit : (getUTC .seconds * 1000 + getUTC .milliseconds).tdiv 1000 = getUTC .seconds ∧
      (getUTC .seconds * 1000 + getUTC .milliseconds).tmod 1000 = getUTC .milliseconds := by
    rw [Int.tdiv_eq_ediv_of_nonneg (by omega), Int.tmod_eq_emod_of_nonneg (by omega)]
    omega
  have hmilli : ¬getUTC .seconds * 1000 + getUTC .milliseconds > 60000 := by omega
  have hms : timeinfoToMs (getUTC .fullYear) (getUTC .month).toNat (getUTC .date) (getUTC .hours)
      (getUTC .minutes) (getUTC .seconds) (getUTC .milliseconds) = some t := hfields.toMs ht
  have hrange := abs_le.mp ht
  have hparsed : parseStringToDate_2 (isoText getUTC) = (some t, true) := by
    rw [parseStringToDate_2]
    simp only [hdate, Option.bind_some, hzone, Option.map_some, dropWhile_nil, ne_eq,
      not_true_eq_false, if_false, fieldsValid_of_isGregorian hfields, Bool.not_true,
      Bool.false_eq_true, if_neg hmilli, hsplit, add_sub_cancel_right, hms, zero_mul, sub_zero]
    rw [ofWidth_of_fits]
    rw [fitsWidth_64]
    simp only [maximumDatePrimitiveValue] at hrange
    omega
  refine ⟨?_, hdate, htime, fun applyLocalTimezoneOffset parseStringToDate_1 udatParse => ?_⟩
  · rw [toISOString, if_pos hvalid]
    rfl
  · have hstring : (isoText getUTC).takeWhile (· ≠ 0) = isoText getUTC :=
      List.takeWhile_eq_self_iff.mpr fun c hc => by simpa using isoText_ne_zero ht hfields c hc
    rw [parseStringToDate, hstring, hparsed]
    simp only [Option.bind_some, ne_eq, hvalid, not_false_eq_true, Bool.not_true,
      Bool.false_eq_true, if_false, if_true, true_and]
    exact if_pos ⟨hrange.2, hrange.1⟩

/-- The year -1, which is 2 BC, printed with six digits and a sign. -/
theorem readsBack_before_zero : ReadsBack (-62198755200000)
    (fun getter => getter.field (computeTimeInfoFromEpoch (-62198755200000) 0 0))
    (isoText fun getter => getter.field (computeTimeInfoFromEpoch (-62198755200000) 0 0))
    (isoTime fun getter => getter.field (computeTimeInfoFromEpoch (-62198755200000) 0 0)) :=
  isoString_readsBack (by decide)
    (computeTimeInfoFromEpoch_isGregorian (inRange_of_valid (by decide)) 0 0)

end Text

end Escargot.Runtime.DateObject
