/-
# Conversions of strings to UTF-8

Every representation of a string overrides `toNonGCUTF8StringData`, and only the
one of `UTF16String` hands its options on. What they give is compared with UTF-8
as the standard has it: the bytes of a list of scalar values.
-/

import Escargot.Runtime.Utf8

namespace Escargot.Runtime

open List

/-- A code point that is no surrogate. -/
def IsScalar (n : Nat) : Prop := n < 0x110000 ∧ ¬ (0xd800 ≤ n ∧ n < 0xe000)

/-- The shortest form of a code point. -/
def standardUtf8 (n : Nat) : List UInt8 :=
  if n ≤ 0x7f then [.ofNat n]
  else if n ≤ 0x7ff then [.ofNat (0xc0 + n / 2 ^ 6), .ofNat (0x80 + n % 2 ^ 6)]
  else if n ≤ 0xffff then threeBytes n
  else standardFourBytes n

def ValidUtf8 (bytes : List UInt8) : Prop :=
  ∃ scalars : List Nat, (∀ n ∈ scalars, IsScalar n) ∧ bytes = scalars.flatMap standardUtf8

def sequenceLength (byte : UInt8) : Nat :=
  if byte.toNat < 0x80 then 1 else if byte.toNat < 0xE0 then 2 else if byte.toNat < 0xF0 then 3
  else 4

section Valid

variable {n : Nat} {rest : List UInt8}

theorem standardUtf8_spec (hn : n < 0x110000) :
    ∃ first more, standardUtf8 n = first :: more ∧ more.length + 1 = sequenceLength first ∧
      (0xF0 ≤ first.toNat → ∃ second more', more = second :: more' ∧
        0x80 ≤ second.toNat ∧ second.toNat < 0xC0) := by
  by_cases h1 : n ≤ 0x7f
  · rw [standardUtf8, if_pos h1]
    refine ⟨_, _, rfl, ?_, ?_⟩
    · rw [sequenceLength, toNat_byte (by omega), if_pos (by omega)]
      rfl
    · rw [toNat_byte (by omega)]
      omega
  by_cases h2 : n ≤ 0x7ff
  · rw [standardUtf8, if_neg h1, if_pos h2]
    refine ⟨_, _, rfl, ?_, ?_⟩
    · rw [sequenceLength, toNat_byte (by omega), if_neg (by omega), if_pos (by omega)]
      rfl
    · rw [toNat_byte (by omega)]
      omega
  by_cases h3 : n ≤ 0xffff
  · rw [standardUtf8, if_neg h1, if_neg h2, if_pos h3]
    refine ⟨_, _, rfl, ?_, ?_⟩
    · rw [sequenceLength, toNat_byte (by omega), if_neg (by omega), if_neg (by omega),
        if_pos (by omega)]
      rfl
    · rw [toNat_byte (by omega)]
      omega
  · rw [standardUtf8, if_neg h1, if_neg h2, if_neg h3]
    refine ⟨_, _, rfl, ?_, fun _ => ⟨_, _, rfl, ?_⟩⟩
    · rw [sequenceLength, toNat_byte (by omega), if_neg (by omega), if_neg (by omega),
        if_neg (by omega)]
      rfl
    · rw [toNat_byte (by omega)]
      omega

theorem utf32ToUtf8_eq (hn : n < 0x110000) (hgood : isMisencoded n = false) :
    utf32ToUtf8 n = standardUtf8 n := by
  by_cases h1 : n ≤ 0x7f
  · rw [utf32ToUtf8, standardUtf8, if_pos h1, if_pos h1]
  by_cases h2 : n ≤ 0x7ff
  · rw [utf32ToUtf8, standardUtf8, if_neg h1, if_neg h1, if_pos h2, if_pos h2]
  by_cases h3 : n ≤ 0xffff
  · rw [utf32ToUtf8, standardUtf8, if_neg h1, if_neg h1, if_neg h2, if_neg h2, if_pos h3, if_pos h3]
  · rw [(utf32ToUtf8_four (by omega) hn).mpr hgood, standardUtf8, if_neg h1, if_neg h2, if_neg h3]

theorem ValidUtf8.of_append (h : ValidUtf8 (standardUtf8 n ++ rest)) (hn : n < 0x110000) :
    ValidUtf8 rest := by
  obtain ⟨scalars, hscalars, heq⟩ := h
  obtain ⟨first, more, hbytes, hlength, -⟩ := standardUtf8_spec hn
  cases scalars with
  | nil =>
    rw [hbytes] at heq
    cases heq
  | cons m scalars =>
    obtain ⟨first', more', hbytes', hlength', -⟩ := standardUtf8_spec (hscalars m mem_cons_self).1
    rw [flatMap_cons] at heq
    have hfirst : first = first' := by
      rw [hbytes, hbytes', cons_append, cons_append] at heq
      exact (List.cons.inj heq).1
    have hsame : (standardUtf8 n).length = (standardUtf8 m).length := by
      rw [hbytes, hbytes', length_cons, length_cons, hlength, hlength', hfirst]
    exact ⟨scalars, fun k hk => hscalars k (mem_cons_of_mem m hk),
      (append_inj heq hsame).2⟩

theorem not_validUtf8_of_misencoded (hbad : isMisencoded n = true) :
    ¬ ValidUtf8 (utf32ToUtf8 n ++ rest) := by
  rw [isMisencoded, Bool.and_eq_true, decide_eq_true_eq, decide_eq_true_eq] at hbad
  rintro ⟨scalars, hscalars, heq⟩
  rw [utf32ToUtf8, if_neg (by omega), if_neg (by omega), if_neg (by omega),
    if_pos (by omega)] at heq
  cases scalars with
  | nil => cases heq
  | cons m scalars =>
    obtain ⟨first, more, hbytes, -, hsecond⟩ := standardUtf8_spec (hscalars m mem_cons_self).1
    simp only [flatMap_cons, hbytes, cons_append, List.cons.injEq] at heq
    obtain ⟨hfirst, htail⟩ := heq
    obtain ⟨second, more', hmore, hlow, hhigh⟩ := hsecond (by
      rw [← hfirst, toNat_byte (by omega)]
      omega)
    rw [hmore, cons_append, List.cons.injEq] at htail
    rw [← htail.1, UInt8.toNat_ofNat'] at hlow hhigh
    omega

end Valid

section CodePoints

variable {s : List UInt16}

theorem toUTF8Units_eq (replaceInvalidUtf8 : Bool) : ∀ {s : List UInt16}, wellFormed s = true →
    toUTF8Units replaceInvalidUtf8 s = (codePoints s).flatMap utf32ToUtf8
  | [], _ => rfl
  | c :: rest, h => by
      obtain ⟨n, units, -, -, hunits, hlength, -, hpoints, hbytes⟩ := wellFormed_cons h
      rw [hpoints, hbytes, flatMap_cons, toUTF8Units_eq replaceInvalidUtf8 hunits]
termination_by s => s.length
decreasing_by exact hlength

theorem isScalar_of_mem_codePoints : ∀ {s : List UInt16}, wellFormed s = true →
    ∀ n ∈ codePoints s, IsScalar n
  | [], _, n, hn => by cases hn
  | c :: rest, h, n, hn => by
      obtain ⟨m, units, hm, hsurrogate, hunits, hlength, -, hpoints, -⟩ := wellFormed_cons h
      rw [hpoints] at hn
      rcases List.mem_cons.mp hn with rfl | hn
      · exact ⟨hm, hsurrogate⟩
      · exact isScalar_of_mem_codePoints hunits n hn
termination_by s => s.length
decreasing_by exact hlength

theorem validUtf8_flatMap_iff {scalars : List Nat} (hscalars : ∀ n ∈ scalars, IsScalar n) :
    ValidUtf8 (scalars.flatMap utf32ToUtf8) ↔ ∀ n ∈ scalars, isMisencoded n = false := by
  constructor
  · intro h
    induction scalars with
    | nil =>
      intro n hn
      cases hn
    | cons m scalars ih =>
      have hm := (hscalars m mem_cons_self).1
      rw [flatMap_cons] at h
      have hgood : isMisencoded m = false := by
        rw [← Bool.not_eq_true]
        exact fun hbad => not_validUtf8_of_misencoded hbad h
      rw [utf32ToUtf8_eq hm hgood] at h
      intro n hn
      rcases List.mem_cons.mp hn with rfl | hn
      · exact hgood
      · exact ih (fun k hk => hscalars k (mem_cons_of_mem m hk)) (h.of_append hm) n hn
  · intro hgood
    refine ⟨scalars, hscalars, flatMap_congr fun n hn => ?_⟩
    exact utf32ToUtf8_eq (hscalars n hn).1 (hgood n hn)

theorem utf32ToUtf8_surrogate {n : Nat} (hlow : 0xd800 ≤ n) (hhigh : n < 0xe000) :
    (utf32ToUtf8 0xFFFD).length = (utf32ToUtf8 n).length ∧ utf32ToUtf8 0xFFFD ≠ utf32ToUtf8 n := by
  have hthree : utf32ToUtf8 n = threeBytes n := by
    rw [utf32ToUtf8, if_neg (by omega), if_neg (by omega), if_pos (by omega)]
  rw [hthree]
  refine ⟨rfl, fun heq => ?_⟩
  have hfirst := (List.cons.inj heq).1
  rw [byte_congr] at hfirst
  omega

/-- A string with a lone surrogate is written differently with and without replacement. -/
theorem wellFormed_of_toUTF8Units_eq : ∀ {s : List UInt16},
    toUTF8Units true s = toUTF8Units false s → wellFormed s = true
  | [], _ => rfl
  | ch :: rest, h => by
      have hcopy : ∀ {bytes : List UInt8} {later : List UInt16},
          bytes ++ toUTF8Units true later = bytes ++ toUTF8Units false later →
            toUTF8Units true later = toUTF8Units false later := fun h => append_cancel_left h
      have hlone : ∀ {later later' : List UInt8}, 0xd800 ≤ ch.toNat → ch.toNat < 0xe000 →
          utf32ToUtf8 0xFFFD ++ later ≠ utf32ToUtf8 ch.toNat ++ later' := by
        intro later later' hlow hhigh heq
        obtain ⟨hlength, hne⟩ := utf32ToUtf8_surrogate hlow hhigh
        exact hne (append_inj heq hlength).1
      rw [toUTF8Units.eq_def, toUTF8Units.eq_def] at h
      rw [wellFormed.eq_def]
      dsimp only at h ⊢
      by_cases hascii : ch.toNat < 0x80
      · rw [if_pos hascii, if_pos hascii, List.cons.injEq] at h
        have hlead : isLead ch = false := by
          rw [← Bool.not_eq_true, isLead_iff]
          omega
        have htrail : isTrail ch = false := by
          rw [← Bool.not_eq_true, isTrail_iff]
          omega
        rw [hlead, htrail]
        exact wellFormed_of_toUTF8Units_eq h.2
      rw [if_neg hascii, if_neg hascii] at h
      by_cases hlead : isLead ch = true
      · have hrange := isLead_iff.mp hlead
        rw [if_pos hlead, if_pos hlead] at h
        rw [if_pos hlead]
        cases rest with
        | nil =>
          have heq : utf32ToUtf8 0xFFFD ++ [] = utf32ToUtf8 ch.toNat ++ [] := by
            rw [append_nil, append_nil]
            exact h
          exact absurd heq (hlone hrange.1 (by omega))
        | cons c2 rest =>
          dsimp only at h ⊢
          by_cases htrail : isTrail c2 = true
          · rw [if_pos htrail, if_pos htrail] at h
            rw [htrail, Bool.true_and]
            exact wellFormed_of_toUTF8Units_eq (hcopy h)
          · rw [if_neg htrail, if_neg htrail] at h
            exact absurd h (hlone hrange.1 (by omega))
      · rw [if_neg hlead, if_neg hlead] at h
        rw [if_neg hlead]
        by_cases htrail : isTrail ch = true
        · have hrange := isTrail_iff.mp htrail
          rw [htrail] at h
          exact absurd h (hlone (by omega) hrange.2)
        · rw [Bool.not_eq_true] at htrail
          rw [htrail, Bool.and_false, Bool.and_false] at h
          rw [htrail]
          exact wellFormed_of_toUTF8Units_eq (hcopy h)

end CodePoints

/-- `StringWriteOption`. -/
def noOptions : Int := 0

def replaceInvalidUtf8Option : Int := 1 <<< 3

inductive StringClass
  | asciiString
  | asciiStringWithInlineBuffer
  | latin1String
  | latin1StringWithInlineBuffer
  | latin1StringWithLargeInlineBuffer
  | utf16String
  | utf16StringWithInlineBuffer
  | utf16StringWithLargeInlineBuffer
  | ropeString
  | stringView
  | compressibleString
  | reloadableString
  | parserStringView
  deriving DecidableEq

/-- `bufferPointerAsArraySize`. -/
def inlineBufferSize : Nat := 8

def StringClass.Holds : StringClass → EString → Prop
  | asciiString, string => ∃ buffer, string = .latin1 buffer ∧ ∀ c ∈ buffer, c.toNat < 0x80
  | asciiStringWithInlineBuffer, string => ∃ buffer, string = .latin1 buffer ∧
      (∀ c ∈ buffer, c.toNat < 0x80) ∧ buffer.length ≤ inlineBufferSize
  | latin1StringWithInlineBuffer, string => ∃ buffer, string = .latin1 buffer ∧
      buffer.length ≤ inlineBufferSize
  | latin1String, string => ∃ buffer, string = .latin1 buffer
  | latin1StringWithLargeInlineBuffer, string => ∃ buffer, string = .latin1 buffer
  | utf16StringWithInlineBuffer, string => ∃ buffer, string = .utf16 buffer ∧
      buffer.length ≤ inlineBufferSize / 2
  | utf16String, string => ∃ buffer, string = .utf16 buffer
  | utf16StringWithLargeInlineBuffer, string => ∃ buffer, string = .utf16 buffer
  | ropeString, string => ∃ left right, string = .rope left right
  | stringView, string => ∃ source start length, string = .view source start length
  | parserStringView, string => ∃ source start length, string = .view source start length
  | compressibleString, string =>
    (∃ buffer, string = .latin1 buffer) ∨ ∃ buffer, string = .utf16 buffer
  | reloadableString, string =>
    (∃ buffer, string = .latin1 buffer) ∨ ∃ buffer, string = .utf16 buffer

/-- An object of one of the classes. -/
structure StringInstance where
  stringClass : StringClass
  string : EString
  holds : stringClass.Holds string

namespace StringInstance

def content (object : StringInstance) : List UInt16 := object.string.content

def toUTF8String (object : StringInstance) (options : Int) : List UInt8 :=
  object.string.bufferAccessData.toUTF8String (options == replaceInvalidUtf8Option)

/-- The bytes of an 8-bit buffer. -/
def characters8 (object : StringInstance) : List UInt8 :=
  match object.string.bufferAccessData with
  | .bufferAs8Bit buffer => buffer
  | .bufferAs16Bit _ => []

/-- `Latin1String::toNonGCUTF8StringData`. -/
def latin1ToUtf8 (buffer : List UInt8) : List UInt8 :=
  buffer.flatMap fun ch => if ch.toNat < 0x80 then [ch] else utf32ToUtf8 ch.toNat

def toNonGCUTF8StringData (object : StringInstance) (options : Int) : List UInt8 :=
  match object.stringClass with
  | .asciiString => object.characters8
  | .latin1String => latin1ToUtf8 object.characters8
  | .utf16String => object.toUTF8String options
  | .asciiStringWithInlineBuffer => object.toUTF8String noOptions
  | .latin1StringWithInlineBuffer => object.toUTF8String noOptions
  | .latin1StringWithLargeInlineBuffer => object.toUTF8String noOptions
  | .utf16StringWithInlineBuffer => object.toUTF8String noOptions
  | .utf16StringWithLargeInlineBuffer => object.toUTF8String noOptions
  | .ropeString => object.toUTF8String noOptions
  | .stringView => object.toUTF8String noOptions
  | .compressibleString => object.toUTF8String noOptions
  | .reloadableString => object.toUTF8String noOptions
  | .parserStringView => object.toUTF8String noOptions

variable (object : StringInstance)

theorem latin1ToUtf8_eq (replaceInvalidUtf8 : Bool) (buffer : List UInt8) :
    latin1ToUtf8 buffer = toUTF8Units replaceInvalidUtf8 (buffer.map UInt8.toUInt16) := by
  induction buffer with
  | nil => rfl
  | cons ch buffer ih =>
    have hunit : ch.toUInt16.toNat = ch.toNat := UInt8.toNat_toUInt16 ch
    have hlt := ch.toNat_lt
    have hlead : ¬ isLead ch.toUInt16 = true := by
      rw [isLead_iff]
      omega
    have htrail : isTrail ch.toUInt16 = false := by
      rw [← Bool.not_eq_true, isTrail_iff]
      omega
    rw [map_cons, toUTF8Units.eq_def, latin1ToUtf8, flatMap_cons]
    dsimp only
    rw [hunit, if_neg hlead, htrail, Bool.and_false, if_neg Bool.false_ne_true, UInt8.ofNat_toNat]
    rw [latin1ToUtf8] at ih
    rw [ih]
    split <;> rfl

theorem latin1ToUtf8_of_ascii {buffer : List UInt8} (h : ∀ c ∈ buffer, c.toNat < 0x80) :
    latin1ToUtf8 buffer = buffer := by
  induction buffer with
  | nil => rfl
  | cons ch buffer ih =>
    have hrest := ih fun c hc => h c (mem_cons_of_mem ch hc)
    rw [latin1ToUtf8] at hrest ⊢
    rw [flatMap_cons, if_pos (h ch mem_cons_self), hrest]
    rfl

variable (units : List UInt16) (options : Int)

theorem toNonGCUTF8StringData_eq : object.toNonGCUTF8StringData options =
      toUTF8Units (object.stringClass == .utf16String && options == replaceInvalidUtf8Option)
        object.content := by
  obtain ⟨stringClass, string, holds⟩ := object
  cases stringClass with
  | asciiString =>
    obtain ⟨buffer, rfl, hascii⟩ := holds
    exact (latin1ToUtf8_of_ascii hascii).symm.trans (latin1ToUtf8_eq false buffer)
  | latin1String =>
    obtain ⟨buffer, rfl⟩ := holds
    exact latin1ToUtf8_eq false buffer
  | utf16String => rfl
  | asciiStringWithInlineBuffer => rfl
  | latin1StringWithInlineBuffer => rfl
  | latin1StringWithLargeInlineBuffer => rfl
  | utf16StringWithInlineBuffer => rfl
  | utf16StringWithLargeInlineBuffer => rfl
  | ropeString => rfl
  | stringView => rfl
  | compressibleString => rfl
  | reloadableString => rfl
  | parserStringView => rfl

/-- A flat string and a view of all of it. -/
def ofUnits : StringInstance := ⟨.utf16String, .utf16 units, units, rfl⟩

def viewOfUnits : StringInstance := ⟨.stringView, .view (.utf16 units) 0 units.length, _, _, _, rfl⟩

@[simp]
theorem content_ofUnits : (ofUnits units).content = units := rfl

@[simp]
theorem content_viewOfUnits : (viewOfUnits units).content = units := by
  exact take_length

/-- All strings of one content give the same bytes, which are valid UTF-8 if invalid units are
to be replaced, if and only if they are not to be replaced, or the content is well formed and has
no code point that is misencoded. -/
theorem toNonGCUTF8StringData_agree_iff :
    ((∀ first second : StringInstance, first.content = units → second.content = units →
        first.toNonGCUTF8StringData options = second.toNonGCUTF8StringData options) ∧
      (options = replaceInvalidUtf8Option → ∀ object : StringInstance, object.content = units →
        ValidUtf8 (object.toNonGCUTF8StringData options))) ↔
      (options ≠ replaceInvalidUtf8Option ∨
        (wellFormed units = true ∧ ∀ n ∈ codePoints units, isMisencoded n = false)) := by
  constructor
  · rintro ⟨hagree, hvalid⟩
    rw [or_iff_not_imp_left, not_not]
    intro hoptions
    have hsame := hagree (ofUnits units) (viewOfUnits units) (content_ofUnits units)
      (content_viewOfUnits units)
    rw [toNonGCUTF8StringData_eq, toNonGCUTF8StringData_eq, content_ofUnits, content_viewOfUnits,
      hoptions] at hsame
    have hformed : wellFormed units = true := wellFormed_of_toUTF8Units_eq hsame
    have hbytes := hvalid hoptions (ofUnits units) (content_ofUnits units)
    rw [toNonGCUTF8StringData_eq, content_ofUnits, toUTF8Units_eq _ hformed,
      validUtf8_flatMap_iff (isScalar_of_mem_codePoints hformed)] at hbytes
    exact ⟨hformed, hbytes⟩
  · rintro (hoptions | ⟨hformed, hgood⟩)
    · refine ⟨fun first second hfirst hsecond => ?_, fun h => absurd h hoptions⟩
      rw [toNonGCUTF8StringData_eq, toNonGCUTF8StringData_eq, hfirst, hsecond,
        beq_eq_false_iff_ne.mpr hoptions, Bool.and_false, Bool.and_false]
    · refine ⟨fun first second hfirst hsecond => ?_, fun _ object hobject => ?_⟩
      · rw [toNonGCUTF8StringData_eq, toNonGCUTF8StringData_eq, hfirst, hsecond,
          toUTF8Units_eq _ hformed, toUTF8Units_eq _ hformed]
      · rw [toNonGCUTF8StringData_eq, hobject, toUTF8Units_eq _ hformed,
          validUtf8_flatMap_iff (isScalar_of_mem_codePoints hformed)]
        exact hgood

/-- A lone lead surrogate is replaced in a flat string and kept in a view of it. -/
theorem view_drops_options : ¬ ∀ (units : List UInt16) (options : Int),
      (∀ first second : StringInstance, first.content = units → second.content = units →
        first.toNonGCUTF8StringData options = second.toNonGCUTF8StringData options) ∧
      (options = replaceInvalidUtf8Option → ∀ object : StringInstance, object.content = units →
        ValidUtf8 (object.toNonGCUTF8StringData options)) := by
  intro hall
  have hagree := (hall [0xD800] replaceInvalidUtf8Option).1 (ofUnits [0xD800])
    (viewOfUnits [0xD800]) rfl rfl
  exact absurd hagree (by decide)

end StringInstance

end Escargot.Runtime
