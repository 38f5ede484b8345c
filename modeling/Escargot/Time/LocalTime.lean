/-
# The instants of a wall time

A wall time can have no instant in a time zone, one or two. ICU is asked for the offsets on both
sides of a transition, and an offset counts when it gives the wall time back. A named zone is
what ICU answers about it, in milliseconds.
-/

import Escargot.Time.IsoCalendar

namespace Escargot.Runtime.LocalTime

open IsoCalendar

inductive TemporalDisambiguationOption
  | compatible | earlier | later | reject
  deriving DecidableEq

/-- The answers about a named zone: `ucal_get` of both offsets at an instant, and
`ucal_getTimeZoneOffsetFromLocal` of a wall time by `UCAL_TZ_LOCAL_FORMER` and `_LATTER`. -/
structure Calendar where
  offset : Int → Int
  former : Int → Int
  latter : Int → Int

inductive TimeZone
  | offset (nanoseconds : Int)
  | name (calendar : Calendar)

def isValidEpochNanoseconds (s : Int) : Bool :=
  !(s < -8640000000000000000000 || 8640000000000000000000 < s)

def computeTimeZoneOffset (calendar : Calendar) (epoch : Int) : Int :=
  calendar.offset epoch * 1000000

def computeTimeZoneOffsetForLocal (answer : Int → Int) (localDateTime : PlainDateTime) : Int :=
  answer (floorEpochMilliseconds (fromPlainDateTime localDateTime)) * 1000000

/-- A candidate is valid when the offset of its instant gives the wall time back. -/
def isValidCandidate (calendar : Calendar) (epochNanoValue candidate : Int) : Bool :=
  isValidEpochNanoseconds candidate &&
    candidate + computeTimeZoneOffset calendar (floorEpochMilliseconds candidate) = epochNanoValue

def getEpochNanosecondsFor (timeZone : Option TimeZone) (epochNanoValue : Int)
    (disambiguation : TemporalDisambiguationOption) : Except String Int :=
  match timeZone with
  | none => .ok epochNanoValue
  | some (.offset offset) => .ok (epochNanoValue - offset)
  | some (.name calendar) =>
    let localDateTime := toPlainDateTime epochNanoValue
    let formerOffset := computeTimeZoneOffsetForLocal calendar.former localDateTime
    let latterOffset := computeTimeZoneOffsetForLocal calendar.latter localDateTime
    let formerCandidate := epochNanoValue - formerOffset
    let latterCandidate := epochNanoValue - latterOffset
    let formerValid := isValidCandidate calendar epochNanoValue formerCandidate
    let latterValid := latterOffset ≠ formerOffset &&
      isValidCandidate calendar epochNanoValue latterCandidate
    if formerValid && latterValid then
      let earlier := if formerCandidate < latterCandidate then formerCandidate else latterCandidate
      let later := if formerCandidate < latterCandidate then latterCandidate else formerCandidate
      if disambiguation = .reject then .error "Ambiguous local time"
      else .ok (if disambiguation = .later then later else earlier)
    else if formerValid then .ok formerCandidate
    else if latterValid then .ok latterCandidate
    else if disambiguation = .reject then .error "Nonexistent local time"
    else .ok (epochNanoValue - if disambiguation = .earlier then latterOffset else formerOffset)

def getOffsetNanosecondsFor (timeZone : TimeZone) (epochNs : Int) : Int :=
  match timeZone with
  | .offset offset => offset
  | .name calendar => computeTimeZoneOffset calendar (floorEpochMilliseconds epochNs)

def getISODateTimeFor (timeZone : Option TimeZone) (epochNs : Int) : PlainDateTime :=
  toPlainDateTime (epochNs + timeZone.elim 0 (getOffsetNanosecondsFor · epochNs))

/-- The two offsets that belong to a wall time: its only one, or those before and after the
transition that repeats or skips it. -/
inductive OffsetsAround (offset : Int → Int) (wall before after : Int) : Prop
  | single (hsame : after = before)
      (hone : ∀ time, time + offset time = wall ↔ time = wall - before)
  | repeated (transition : Int) (hbefore : before = offset (transition - 1))
      (hafter : after = offset transition) (hfrom : transition + after ≤ wall)
      (huntil : wall < transition + before)
      (htwo : ∀ time, time + offset time = wall ↔ time = wall - before ∨ time = wall - after)
  | skipped (transition : Int) (hbefore : before = offset (transition - 1))
      (hafter : after = offset transition) (hfrom : transition + before ≤ wall)
      (huntil : wall < transition + after) (hnone : ∀ time, time + offset time ≠ wall)

/-- ICU answers with the offsets that belong to a wall time. -/
def Calendar.AnswersAround (calendar : Calendar) : Prop :=
  ∀ wall, OffsetsAround calendar.offset wall (calendar.former wall) (calendar.latter wall)

/-- The instants of a named zone are in range. A zone of one offset leaves that to the callers. -/
def InZone : Option TimeZone → Int → Prop
  | some (.name _), time => isValidEpochNanoseconds time = true
  | _, _ => True

/-- An instant of a zone with a local time. -/
def IsInstantOf (timeZone : Option TimeZone) (wall time : Int) : Prop :=
  InZone timeZone time ∧ time + timeZone.elim 0 (getOffsetNanosecondsFor · time) = wall

/-- What becomes of a wall time that has one instant, two or none. -/
inductive Disambiguated (timeZone : Option TimeZone) (src : PlainDateTime) (wall : Int) : Prop
  | one (time : Int) (hone : ∀ other, IsInstantOf timeZone wall other ↔ other = time)
      (hresult : ∀ option, getEpochNanosecondsFor timeZone wall option = .ok time)
      (hback : getISODateTimeFor timeZone time = src)
  | two (first last : Int) (hlt : first < last)
      (htwo : ∀ other, IsInstantOf timeZone wall other ↔ other = first ∨ other = last)
      (hcompatible : getEpochNanosecondsFor timeZone wall .compatible = .ok first)
      (hearlier : getEpochNanosecondsFor timeZone wall .earlier = .ok first)
      (hlater : getEpochNanosecondsFor timeZone wall .later = .ok last)
      (hreject : getEpochNanosecondsFor timeZone wall .reject = .error "Ambiguous local time")
  | none (calendar : Calendar) (hzone : timeZone = some (.name calendar)) (before after : Int)
      (haround : OffsetsAround calendar.offset (wall / 1000000) before after)
      (hnone : ∀ time, ¬IsInstantOf timeZone wall time)
      (hcompatible : getEpochNanosecondsFor timeZone wall .compatible =
        .ok (wall - before * 1000000))
      (hlater : getEpochNanosecondsFor timeZone wall .later = .ok (wall - before * 1000000))
      (hearlier : getEpochNanosecondsFor timeZone wall .earlier = .ok (wall - after * 1000000))
      (hreject : getEpochNanosecondsFor timeZone wall .reject = .error "Nonexistent local time")

theorem OffsetsAround.eq_or_eq {offset : Int → Int} {wall before after : Int}
    (h : OffsetsAround offset wall before after) (time : Int) (htime : time + offset time = wall) :
    time = wall - before ∨ time = wall - after := by
  cases h with
  | single hsame hone => exact .inl ((hone time).mp htime)
  | repeated transition hbefore hafter hfrom huntil htwo => exact (htwo time).mp htime
  | skipped transition hbefore hafter hfrom huntil hnone => exact absurd htime (hnone time)

variable {calendar : Calendar} {src : PlainDateTime}

theorem isInstantOf_name {wall time : Int} : IsInstantOf (some (.name calendar)) wall time ↔
    isValidCandidate calendar wall time = true := by
  rw [isValidCandidate, Bool.and_eq_true, decide_eq_true_eq]
  rfl

theorem disambiguated_name (hcalendar : calendar.AnswersAround) (hsrc : src.IsValid)
    (hlimits : isoDateTimeWithinLimits (fromPlainDateTime src) = true) :
    Disambiguated (some (.name calendar)) src (fromPlainDateTime src) := by
  have hlocal := (toPlainDateTime_spec hlimits).2
  have hsrc := toPlainDateTime_fromPlainDateTime hsrc hlimits
  generalize fromPlainDateTime src = wall at *
  have haround := hcalendar (wall / 1000000)
  have hcandidates : ∀ time, isValidCandidate calendar wall time = true →
      time = wall - calendar.former (wall / 1000000) * 1000000 ∨
        time = wall - calendar.latter (wall / 1000000) * 1000000 := by
    intro time htime
    rw [isValidCandidate, Bool.and_eq_true, decide_eq_true_eq, floorEpochMilliseconds_eq,
      computeTimeZoneOffset] at htime
    have hfound := haround.eq_or_eq (time / 1000000) (by omega)
    omega
  have hback : ∀ time, IsInstantOf (some (.name calendar)) wall time →
      getISODateTimeFor (some (.name calendar)) time = src := by
    intro time htime
    rw [getISODateTimeFor, htime.2, hsrc]
  have hget := fun option => getEpochNanosecondsFor.eq_3 wall option calendar
  simp only [computeTimeZoneOffsetForLocal, hlocal, floorEpochMilliseconds_eq] at hget
  generalize calendar.former (wall / 1000000) = before at *
  generalize calendar.latter (wall / 1000000) = after at *
  have hinstant : ∀ time, IsInstantOf (some (.name calendar)) wall time ↔
      time = wall - before * 1000000 ∧
          isValidCandidate calendar wall (wall - before * 1000000) = true ∨
        time = wall - after * 1000000 ∧ (decide (after * 1000000 ≠ before * 1000000) &&
          isValidCandidate calendar wall (wall - after * 1000000)) = true := by
    intro time
    rw [isInstantOf_name, Bool.and_eq_true, decide_eq_true_eq]
    constructor
    · intro htime
      by_cases heq : time = wall - before * 1000000
      · exact .inl ⟨heq, heq ▸ htime⟩
      · have hother := (hcandidates time htime).resolve_left heq
        exact .inr ⟨hother, by omega, hother ▸ htime⟩
    · rintro (⟨rfl, htime⟩ | ⟨rfl, -, htime⟩) <;> exact htime
  have hdistinct : (decide (after * 1000000 ≠ before * 1000000) &&
      isValidCandidate calendar wall (wall - after * 1000000)) = true →
      wall - before * 1000000 ≠ wall - after * 1000000 := by
    rw [Bool.and_eq_true, decide_eq_true_eq]
    omega
  generalize isValidCandidate calendar wall (wall - before * 1000000) = formerValid at *
  generalize (decide (after * 1000000 ≠ before * 1000000) &&
    isValidCandidate calendar wall (wall - after * 1000000)) = latterValid at *
  cases formerValid <;> cases latterValid
  · exact .none calendar rfl before after haround (fun time => by simp [hinstant])
      (hget _) (hget _) (hget _) (hget _)
  · exact .one (wall - after * 1000000) (fun other => by simp [hinstant]) hget
      (hback _ (by simp [hinstant]))
  · exact .one (wall - before * 1000000) (fun other => by simp [hinstant]) hget
      (hback _ (by simp [hinstant]))
  · by_cases hlt : wall - before * 1000000 < wall - after * 1000000
    · simp only [if_pos hlt] at hget
      exact .two _ _ hlt (fun other => by simp [hinstant]) (hget _) (hget _) (hget _) (hget _)
    · simp only [if_neg hlt] at hget
      have hlt := lt_of_le_of_ne (not_lt.mp hlt) (hdistinct rfl).symm
      exact .two _ _ hlt (fun other => by simp [hinstant, or_comm]) (hget _) (hget _) (hget _)
        (hget _)

/-- Gaps and repeats follow `disambiguation`. -/
theorem disambiguated {timeZone : Option TimeZone}
    (hcalendar : ∀ calendar, timeZone = some (.name calendar) → calendar.AnswersAround)
    (hsrc : src.IsValid) (hlimits : isoDateTimeWithinLimits (fromPlainDateTime src) = true) :
    Disambiguated timeZone src (fromPlainDateTime src) := by
  have hback := toPlainDateTime_fromPlainDateTime hsrc hlimits
  cases timeZone with
  | none =>
    refine .one (fromPlainDateTime src) (fun other => ?_) (fun _ => rfl) ?_
    · simp [IsInstantOf, InZone]
    · rw [getISODateTimeFor, Option.elim_none, add_zero, hback]
  | some zone =>
    cases zone with
    | offset offset =>
      refine .one (fromPlainDateTime src - offset) (fun other => ?_) (fun _ => rfl) ?_
      · simp only [IsInstantOf, InZone, Option.elim_some, getOffsetNanosecondsFor, true_and]
        omega
      · rw [getISODateTimeFor, Option.elim_some, getOffsetNanosecondsFor, sub_add_cancel, hback]
    | name calendar => exact disambiguated_name (hcalendar calendar rfl) hsrc hlimits

/-- A zone whose clocks go back an hour at the epoch. -/
def clocksBack : Calendar where
  offset time := if time < 0 then 3600000 else 0
  former wall := if wall < 3600000 then 3600000 else 0
  latter wall := if wall < 0 then 3600000 else 0

theorem clocksBack_answersAround : clocksBack.AnswersAround := by
  intro wall
  simp only [clocksBack]
  by_cases hrepeated : 0 ≤ wall ∧ wall < 3600000
  · refine .repeated 0 ?_ ?_ ?_ ?_ fun time => ?_ <;> split_ifs <;> omega
  · refine .single ?_ fun time => ?_ <;> split_ifs <;> omega

/-- Half past midnight, which that zone has twice. -/
def halfPast : PlainDateTime := ⟨⟨1970, 1, 1⟩, ⟨0, 30, 0, 0, 0, 0⟩⟩

theorem disambiguated_halfPast :
    Disambiguated (some (.name clocksBack)) halfPast (fromPlainDateTime halfPast) :=
  disambiguated (fun calendar h => by cases h; exact clocksBack_answersAround)
    ⟨⟨by decide, by decide⟩, ⟨by decide, by decide, by decide, by decide, by decide, by decide⟩⟩
    (by decide)

/-- The first midnight with an instant in UTC. -/
def firstMidnight : PlainDateTime := ⟨⟨-271821, 4, 20⟩, ⟨0, 0, 0, 0, 0, 0⟩⟩

/-- An hour east of it no instant in range is left. A zone given by its offset returns the one that
is not, and a named zone rejects it. -/
theorem firstMidnight_east : isValidEpochNanoseconds (-8640000003600000000000) = false ∧
    getEpochNanosecondsFor (some (.offset 3600000000000)) (fromPlainDateTime firstMidnight) .reject =
      .ok (-8640000003600000000000) ∧
    getEpochNanosecondsFor (some (.name ⟨fun _ => 3600000, fun _ => 3600000, fun _ => 3600000⟩))
      (fromPlainDateTime firstMidnight) .reject = .error "Nonexistent local time" := by
  refine ⟨by decide, by decide +kernel, by decide +kernel⟩

end Escargot.Runtime.LocalTime
