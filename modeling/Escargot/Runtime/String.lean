/-
# Strings and their hash

A `String` of the engine holds its UTF-16 code units in one of several
representations: an 8-bit Latin-1 buffer, a 16-bit buffer, a rope whose flat
buffer is produced on first access, or a view into another string. The hash is
one template instantiated over the two buffer element types. The 8-bit buffer
is read through `const char*`, which is signed on the x86 targets, so a unit
above `0x7F` enters the hash sign-extended there and zero-extended in the
16-bit instantiation.
-/

import Mathlib

namespace Escargot.Runtime

/-- The representations of a string. Strings with out-of-line storage
(compressible, reloadable) expose one of the two flat buffers when accessed. -/
inductive EString
  | latin1 (buffer : List UInt8)
  | utf16 (buffer : List UInt16)
  | rope (left right : EString)
  | view (source : EString) (start length : Nat)
  deriving DecidableEq

inductive StringBufferAccessData
  | bufferAs8Bit (buffer : List UInt8)
  | bufferAs16Bit (buffer : List UInt16)
  deriving DecidableEq

namespace StringBufferAccessData

def has8BitContent : StringBufferAccessData → Bool
  | bufferAs8Bit _ => true
  | bufferAs16Bit _ => false

def length : StringBufferAccessData → Nat
  | bufferAs8Bit buffer => buffer.length
  | bufferAs16Bit buffer => buffer.length

/-- The code units `charAt` reads: the 8-bit buffer is read as `LChar` there,
which is unsigned. -/
def units : StringBufferAccessData → List UInt16
  | bufferAs8Bit buffer => buffer.map UInt8.toUInt16
  | bufferAs16Bit buffer => buffer

@[simp]
theorem length_units (data : StringBufferAccessData) : data.units.length = data.length := by
  cases data <;> simp [units, length]

end StringBufferAccessData

namespace EString

open StringBufferAccessData

/-- The flag of the string object itself, fixed when the object is created. -/
def has8BitContent : EString → Bool
  | latin1 _ => true
  | utf16 _ => false
  | rope left right => left.has8BitContent && right.has8BitContent
  | view source _ _ => source.has8BitContent

/-- Access to the flat buffer. A rope is flattened into an 8-bit buffer when
both halves are 8-bit and into a 16-bit one otherwise; a view offsets the
buffer of its source. -/
def bufferAccessData : EString → StringBufferAccessData
  | latin1 buffer => bufferAs8Bit buffer
  | utf16 buffer => bufferAs16Bit buffer
  | rope left right =>
    match left.bufferAccessData, right.bufferAccessData with
    | bufferAs8Bit first, bufferAs8Bit second => bufferAs8Bit (first ++ second)
    | first, second => bufferAs16Bit (first.units ++ second.units)
  | view source start length =>
    match source.bufferAccessData with
    | bufferAs8Bit buffer => bufferAs8Bit ((buffer.drop start).take length)
    | bufferAs16Bit buffer => bufferAs16Bit ((buffer.drop start).take length)

variable (string : EString)

/-- The sequence of UTF-16 code units the string denotes. -/
def content : List UInt16 := string.bufferAccessData.units

def length (string : EString) : Nat := string.bufferAccessData.length

theorem length_content : string.content.length = string.length := length_units _

theorem has8BitContent_bufferAccessData :
    string.bufferAccessData.has8BitContent = string.has8BitContent := by
  induction string with
  | latin1 buffer => rfl
  | utf16 buffer => rfl
  | rope left right ihl ihr =>
    rw [has8BitContent, ← ihl, ← ihr, bufferAccessData]
    cases left.bufferAccessData <;> cases right.bufferAccessData <;> rfl
  | view source start length ih =>
    rw [has8BitContent, ← ih, bufferAccessData]
    cases source.bufferAccessData <;> rfl

open List

variable (source : EString)

theorem content_view (start length : Nat) :
    (view source start length).content = (source.content.drop start).take length := by
  simp only [content, bufferAccessData]
  cases source.bufferAccessData <;> simp [units, map_take, map_drop]

/-- `String::equals`: lengths first, then the buffers, unit by unit, in one of
four width combinations. -/
def equals (first second : EString) : Bool :=
  first.length == second.length && match first.bufferAccessData, second.bufferAccessData with
    | bufferAs8Bit a, bufferAs8Bit b => a == b
    | bufferAs8Bit a, bufferAs16Bit b => b == a.map UInt8.toUInt16
    | bufferAs16Bit a, bufferAs8Bit b => a == b.map UInt8.toUInt16
    | bufferAs16Bit a, bufferAs16Bit b => a == b

theorem toUInt16_injective : Function.Injective UInt8.toUInt16 := by
  intro a b hab
  have h := congrArg UInt16.toNat hab
  simpa [← UInt8.toNat_inj] using h

/-- Equality of strings is equality of the code units, whatever the widths. -/
theorem equals_iff (first second : EString) :
    first.equals second = true ↔ first.content = second.content := by
  have hlength : first.content = second.content → first.length = second.length := by
    intro h
    rw [← length_content, ← length_content, h]
  have hmap : ∀ a b : List UInt8, a.map UInt8.toUInt16 = b.map UInt8.toUInt16 ↔ a = b :=
    fun a b => (List.map_injective_iff.mpr toUInt16_injective).eq_iff
  have hbuffers : ∀ a b : StringBufferAccessData, (match a, b with
        | bufferAs8Bit a, bufferAs8Bit b => a == b
        | bufferAs8Bit a, bufferAs16Bit b => b == a.map UInt8.toUInt16
        | bufferAs16Bit a, bufferAs8Bit b => a == b.map UInt8.toUInt16
        | bufferAs16Bit a, bufferAs16Bit b => a == b) = true ↔ a.units = b.units := by
    intro a b
    cases a <;> cases b <;> simp only [units, beq_iff_eq, hmap]
    exact eq_comm
  rw [equals, Bool.and_eq_true, beq_iff_eq, hbuffers]
  exact ⟨fun h => h.2, fun h => ⟨hlength h, h⟩⟩

/-- Integral promotion of a plain `char` of the 8-bit buffer followed by the
conversion to `uint32_t`. Plain `char` is signed, so the promotion extends the
sign. -/
def promoteChar (c : UInt8) : UInt32 := c.toInt8.toInt32.toUInt32

/-- Integral promotion of a `char16_t`. -/
def promoteChar16 (c : UInt16) : UInt32 := c.toUInt32

/-- One round of the hash: `hash ^= *src++; hash *= 0x01000193`. -/
def hashRound (hash unit : UInt32) : UInt32 := (hash ^^^ unit) * 0x01000193

/-- `String::stringHash<T>`: the FNV loop over promoted units. -/
def stringHash (promoted : List UInt32) : UInt32 := promoted.foldl hashRound 0x811c9dc5

def promotedUnits : StringBufferAccessData → List UInt32
  | bufferAs8Bit buffer => buffer.map promoteChar
  | bufferAs16Bit buffer => buffer.map promoteChar16

/-- The template argument `maxLen` of `hashValue`. -/
def maxHashLength : Nat := 32

/-- `String::hashValue<>`: at most the first 32 units are hashed. -/
def hashValue : UInt32 := stringHash ((promotedUnits string.bufferAccessData).take maxHashLength)

/-- A unit whose 8-bit and 16-bit promotions differ: `0x80` to `0xFF`. -/
def isHighLatin1 (unit : UInt16) : Bool := 0x80 ≤ unit && unit ≤ 0xFF

def hashedUnits : List UInt16 := string.content.take maxHashLength

theorem forall_uint8 {p : UInt8 → Prop} (h : ∀ n : Fin 256, p (UInt8.ofFin n)) : ∀ c : UInt8, p c :=
  fun c => h c.toFin

theorem promoteChar_of_lt : ∀ c : UInt8, c < 0x80 → promoteChar c = promoteChar16 c.toUInt16 :=
  forall_uint8 (by decide +kernel)

theorem promoteChar_of_ge :
    ∀ c : UInt8, 0x80 ≤ c → promoteChar c = promoteChar16 c.toUInt16 ^^^ 0xFFFFFF00 :=
  forall_uint8 (by decide +kernel)

theorem isHighLatin1_toUInt16 : ∀ c : UInt8, isHighLatin1 c.toUInt16 = decide (0x80 ≤ c) :=
  forall_uint8 (by decide +kernel)

/-- What a unit contributes to the hash of an 8-bit string (`true`) or of a
16-bit one (`false`). -/
def promote (is8Bit : Bool) (unit : UInt16) : UInt32 :=
  if is8Bit && isHighLatin1 unit then promoteChar16 unit ^^^ 0xFFFFFF00
  else promoteChar16 unit

theorem promote_toUInt16 (c : UInt8) : promote true c.toUInt16 = promoteChar c := by
  rw [promote, isHighLatin1_toUInt16, Bool.true_and]
  by_cases hc : 0x80 ≤ c
  · rw [decide_eq_true hc, if_pos rfl, promoteChar_of_ge c hc]
  · rw [decide_eq_false hc, promoteChar_of_lt c (UInt8.not_le.mp hc)]
    rfl

theorem promote_of_not_high {unit : UInt16} (h : isHighLatin1 unit = false)
    (is8Bit : Bool) : promote is8Bit unit = promoteChar16 unit := by
  rw [promote, h, Bool.and_false]
  rfl

theorem hashValue_eq :
    string.hashValue = stringHash (string.hashedUnits.map (promote string.has8BitContent)) := by
  have hwidth := has8BitContent_bufferAccessData string
  simp only [hashValue, hashedUnits, content]
  revert hwidth
  cases string.bufferAccessData with
  | bufferAs8Bit buffer =>
    intro hwidth
    rw [← hwidth]
    simp only [StringBufferAccessData.has8BitContent, promotedUnits, units, map_take, List.map_map]
    congr 2
    exact map_congr_left fun c _ => (promote_toUInt16 c).symm
  | bufferAs16Bit buffer =>
    intro hwidth
    rw [← hwidth]
    simp only [StringBufferAccessData.has8BitContent, promotedUnits, units, map_take]
    rfl

/-- Two strings whose representations cannot disagree on the hash: they have the
same width, or no hashed unit lies in `0x80` to `0xFF`. -/
def hashCompatible (first second : EString) : Bool :=
  first.has8BitContent == second.has8BitContent ||
    first.hashedUnits.all (fun unit => !isHighLatin1 unit)

variable {first second : EString}

theorem hashValue_eq_of_compatible (hcontent : first.content = second.content)
    (hcompatible : hashCompatible first second = true) :
    first.hashValue = second.hashValue := by
  have hunits : first.hashedUnits = second.hashedUnits := by rw [hashedUnits, hashedUnits, hcontent]
  rw [hashValue_eq, hashValue_eq, ← hunits]
  rw [hashCompatible, Bool.or_eq_true, beq_iff_eq, List.all_eq_true] at hcompatible
  rcases hcompatible with hwidth | hlow
  · rw [hwidth]
  · congr 1
    apply map_congr_left
    intro unit hunit
    have hnot : isHighLatin1 unit = false := by simpa using hlow unit hunit
    rw [promote_of_not_high hnot, promote_of_not_high hnot]

theorem mul_fnvPrime_injective {a b : UInt32} (h : a * 0x01000193 = b * 0x01000193) : a = b := by
  have hinv : (0x01000193 : UInt32) * 0x359c449b = 1 := by decide
  calc
    a = a * (0x01000193 * 0x359c449b) := by rw [hinv, UInt32.mul_one]
    _ = b * (0x01000193 * 0x359c449b) := by rw [← UInt32.mul_assoc, h, UInt32.mul_assoc]
    _ = b := by rw [hinv, UInt32.mul_one]

theorem hashRound_injective {first second unit : UInt32}
    (h : hashRound first unit = hashRound second unit) : first = second := by
  have hxor := mul_fnvPrime_injective h
  calc
    first = first ^^^ unit ^^^ unit := by rw [UInt32.xor_assoc, UInt32.xor_self, UInt32.xor_zero]
    _ = second ^^^ unit ^^^ unit := by rw [hxor]
    _ = second := by rw [UInt32.xor_assoc, UInt32.xor_self, UInt32.xor_zero]

theorem foldl_hashRound_injective (rest : List UInt32) {first second : UInt32}
    (h : rest.foldl hashRound first = rest.foldl hashRound second) : first = second := by
  induction rest generalizing first second with
  | nil => exact h
  | cons unit rest ih => exact hashRound_injective (ih h)

theorem hashRound_ne_of_signExtended (hash unit : UInt32) :
    hashRound hash (unit ^^^ 0xFFFFFF00) ≠ hashRound hash unit := by
  intro h
  have hxor : hash ^^^ (unit ^^^ 0xFFFFFF00) = hash ^^^ unit := mul_fnvPrime_injective h
  have hzero : (0xFFFFFF00 : UInt32) = 0 := by
    calc
      (0xFFFFFF00 : UInt32) = (hash ^^^ unit) ^^^ (hash ^^^ (unit ^^^ 0xFFFFFF00)) := by
        rw [← UInt32.xor_assoc hash unit, ← UInt32.xor_assoc, UInt32.xor_self, UInt32.zero_xor]
      _ = 0 := by rw [hxor, UInt32.xor_self]
  exact absurd hzero (by decide)

/-- With exactly one hashed unit in `0x80` to `0xFF`, strings of equal content
and different width always hash differently. -/
theorem hashValue_ne_of_single_high (hcontent : first.content = second.content)
    (hfirst : first.has8BitContent = true) (hsecond : second.has8BitContent = false)
    {front back : List UInt16} {unit : UInt16}
    (hunits : first.hashedUnits = front ++ unit :: back) (hunit : isHighLatin1 unit = true)
    (hback : ∀ other ∈ front ++ back, isHighLatin1 other = false) :
    first.hashValue ≠ second.hashValue := by
  have hsame : second.hashedUnits = front ++ unit :: back := by
    rw [← hunits, hashedUnits, hashedUnits, hcontent]
  have hlow : ∀ other ∈ front ++ back, promote true other = promote false other := by
    intro other hother
    rw [promote_of_not_high (hback other hother), promote_of_not_high (hback other hother)]
  have hfront : front.map (promote true) = front.map (promote false) :=
    map_congr_left fun other h => hlow other (mem_append_left _ h)
  have hrest : back.map (promote true) = back.map (promote false) :=
    map_congr_left fun other h => hlow other (mem_append_right _ h)
  have hhigh : promote true unit = promote false unit ^^^ 0xFFFFFF00 := by
    rw [promote, promote, hunit]
    rfl
  intro heq
  rw [hashValue_eq, hashValue_eq, hunits, hsame, hfirst, hsecond] at heq
  simp only [stringHash, map_append, map_cons, foldl_append,
    foldl_cons, hfront, hrest, hhigh] at heq
  exact hashRound_ne_of_signExtended _ _ (foldl_hashRound_injective _ heq)

theorem has8BitContent_view (start length : Nat) :
    (view source start length).has8BitContent = source.has8BitContent := rfl

theorem hashedUnits_view (n : Nat) : (view source 0 n).hashedUnits = source.hashedUnits.take n := by
  rw [hashedUnits, content_view, drop_zero, hashedUnits, take_take, take_take, Nat.min_comm]

theorem hashCompatible_view (hcompatible : hashCompatible first second = true) (n : Nat) :
    hashCompatible (view first 0 n) (view second 0 n) = true := by
  simp only [hashCompatible, has8BitContent_view, Bool.or_eq_true, List.all_eq_true,
    hashedUnits_view] at hcompatible ⊢
  exact hcompatible.imp id fun hlow unit hunit => hlow unit (mem_of_mem_take hunit)

theorem exists_first_high {units : List UInt16}
    (h : units.all (fun unit => !isHighLatin1 unit) = false) :
    ∃ front unit back, units = front ++ unit :: back ∧ isHighLatin1 unit = true ∧
      ∀ other ∈ front, isHighLatin1 other = false := by
  rw [List.all_eq_false] at h
  obtain ⟨high, hmem, hhigh⟩ := h
  have hfind : (units.find? isHighLatin1).isSome :=
    List.find?_isSome.mpr ⟨high, hmem, by simpa using hhigh⟩
  obtain ⟨unit, hunit⟩ := Option.isSome_iff_exists.mp hfind
  obtain ⟨hp, front, back, hsplit, hfront⟩ := List.find?_eq_some_iff_append.mp hunit
  exact ⟨front, unit, back, hsplit, hp, fun other hother => by simpa using hfront other hother⟩

/-- Strings of equal content hash alike together with all their common prefixes
exactly when they are compatible: up to the first unit in `0x80` to `0xFF` the
two widths agree, and right after it they differ. -/
theorem hashValue_views_eq_iff (hcontent : first.content = second.content) :
    (∀ n, (view first 0 n).hashValue = (view second 0 n).hashValue) ↔
      hashCompatible first second = true := by
  have hview : ∀ n, (view first 0 n).content = (view second 0 n).content := by
    intro n
    rw [content_view, content_view, hcontent]
  constructor
  · intro hall
    by_contra hnot
    rw [hashCompatible, Bool.or_eq_true, not_or, beq_iff_eq, Bool.not_eq_true] at hnot
    obtain ⟨hwidth, hhigh⟩ := hnot
    obtain ⟨front, unit, back, hsplit, hunit, hfront⟩ := exists_first_high hhigh
    have hunits : (view first 0 (front.length + 1)).hashedUnits = front ++ unit :: [] := by
      rw [hashedUnits_view, hsplit, take_length_add_append]
      rfl
    have hunits' : (view second 0 (front.length + 1)).hashedUnits = front ++ unit :: [] := by
      rw [← hunits, hashedUnits, hashedUnits, hview]
    have hlow : ∀ other ∈ front ++ [], isHighLatin1 other = false := by rwa [append_nil]
    cases hfirst : first.has8BitContent with
    | true =>
      have hsecond : second.has8BitContent = false := by
        rw [hfirst] at hwidth
        exact Bool.eq_false_iff.mpr (Ne.symm hwidth)
      exact hashValue_ne_of_single_high (hview _) hfirst hsecond hunits hunit hlow (hall _)
    | false =>
      have hsecond : second.has8BitContent = true := by
        rw [hfirst] at hwidth
        exact Bool.not_eq_false _ ▸ Ne.symm hwidth
      exact hashValue_ne_of_single_high (hview _).symm hsecond hfirst hunits' hunit hlow
        (hall _).symm
  · intro hcompatible n
    exact hashValue_eq_of_compatible (hview n) (hashCompatible_view hcompatible n)

-- a second high unit can undo the difference of the first one
example : (latin1 [0x61, 0xAC, 0xE9]).hashValue = (utf16 [0x61, 0xAC, 0xE9]).hashValue := by decide

end EString

end Escargot.Runtime
