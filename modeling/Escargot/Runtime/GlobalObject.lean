/-
# The URI functions of the global object

`encodeURI` and `decodeURI`, and their component forms, escape a string by the
octets of UTF-8 and undo it. The encoder and the decoder are separate code, each
with its own bit arithmetic. The decoder indexes the string, and the model makes
a read beyond its end a failure of its own, so that none can pass unseen.
-/

import Escargot.Foundation.BitFields
import Escargot.Runtime.Utf8

namespace Escargot.Runtime

open List

variable (ch : UInt16)

def isURIReservedOrSharp : Bool :=
  ch = 0x3B || ch = 0x2F || ch = 0x3F || ch = 0x3A || ch = 0x40 || ch = 0x26 ||
    ch = 0x3D || ch = 0x2B || ch = 0x24 || ch = 0x2C || ch = 0x23

def isURIAlpha : Bool := (0x61 ≤ ch && ch ≤ 0x7A) || (0x41 ≤ ch && ch ≤ 0x5A)

def isURIMark : Bool :=
  ch = 0x2D || ch = 0x5F || ch = 0x2E || ch = 0x21 || ch = 0x7E || ch = 0x2A ||
    ch = 0x27 || ch = 0x28 || ch = 0x29

def isDecimalDigit : Bool := 0x30 ≤ ch && ch ≤ 0x39

def isHexadecimalDigit : Bool :=
  isDecimalDigit ch || (0x41 ≤ ch && ch ≤ 0x46) || (0x61 ≤ ch && ch ≤ 0x66)

/-- How a URI function ends without a string: with the `URIError` of
`GlobalObject_MalformedURI`, or by reading where the string has no code unit. -/
inductive URIFailure
  | malformedURI
  | beyondEnd

/-- `String::charAt`, which does not check its index. -/
def charAt (str : List UInt16) (index : Nat) : Except URIFailure UInt16 :=
  match str[index]? with
  | some ch => .ok ch
  | none => .error .beyondEnd

def hexaDecimalDigit : Nat :=
  if ch.toNat &&& 0x10 ≠ 0 then ch.toNat &&& 0xf else (ch.toNat &&& 0xf) + 9

def twocharToHexaDecimal (ch1 ch2 : UInt16) : Option UInt8 :=
  if !isHexadecimalDigit ch1 || !isHexadecimalDigit ch2 then none
  else some (.ofNat (hexaDecimalDigit ch1 <<< 4 ||| hexaDecimalDigit ch2))

def codeUnitToHexaDecimal (str : List UInt16) (start : Nat) : Except URIFailure (Option UInt8) := do
  if (← charAt str start) ≠ 0x25 then return none
  else
    let res := twocharToHexaDecimal (← charAt str (start + 1)) (← charAt str (start + 2))
    return res.filter fun res => res &&& 0xC0 = 0x80

/-- The loop that counts the leading ones of the first octet, `n < 5` for its bound. -/
def leadLength : Nat → UInt8 → Nat → Nat
  | 0, _, n => n
  | turns + 1, bTmp, n =>
    if (bTmp <<< 1) &&& 0x80 = 0 then n else leadLength turns (bTmp <<< 1) (n + 1)

def readOctets (str : List UInt16) : Nat → Nat → Except URIFailure (List UInt8)
  | 0, _ => return []
  | more + 1, i => do
      match ← codeUnitToHexaDecimal str (i + 1) with
      | none => .error .malformedURI
      | some b => return b :: (← readOctets str more (i + 3))

/-- The code point `v` of the octets, unless they are one of the forms refused by name. -/
def codePointOf : List UInt8 → Option Nat
  | [o0, o1] =>
    if o0 = 0xC0 ∨ o0 = 0xC1 then none
    else some ((o0.toNat &&& 0x1F) <<< 6 ||| (o1.toNat &&& 0x3F))
  | [o0, o1, o2] =>
    let v := (o0.toNat &&& 0x0F) <<< 12 ||| (o1.toNat &&& 0x3F) <<< 6 ||| (o2.toNat &&& 0x3F)
    if (0xD800 ≤ v ∧ v ≤ 0xDFFF) ∨ (o0 = 0xE0 ∧ (o1 < 0xA0 ∨ o1 > 0xBF)) then none else some v
  | [o0, o1, o2, o3] =>
    if o0 = 0xF0 ∧ (o1 < 0x90 ∨ o1 > 0xBF) then none
    else some ((o0.toNat &&& 0x07) <<< 18 ||| (o1.toNat &&& 0x3F) <<< 12 |||
      (o2.toNat &&& 0x3F) <<< 6 ||| (o3.toNat &&& 0x3F))
  | _ => some 0

def appendCodePoint (v : Nat) : Except URIFailure (List UInt16) :=
  if v > 0x10FFFF then .error .malformedURI
  else if v ≥ 0x10000 then
    .ok [.ofNat (((v - 0x10000) >>> 10 &&& 0x3ff) + 0xd800),
      .ofNat (((v - 0x10000) &&& 0x3ff) + 0xdc00)]
  else .ok [.ofNat (v &&& 0xFFFF)]

/-- The rest of a turn whose first octet `b` is ASCII. What is reserved stays escaped if
`noComponent` is set. -/
def decodeAscii (noComponent : Bool) (uriString : List UInt16) (start : Nat) (b : UInt8) :
    Nat × List UInt16 :=
  let c : UInt16 := .ofNat (b.toNat &&& 0x7f)
  if noComponent && isURIReservedOrSharp c then (2, (uriString.drop start).take 3) else (2, [c])

/-- The rest of a turn whose first octet `b` has its highest bit set. -/
def decodeOctets (uriString : List UInt16) (start : Nat) (b : UInt8) :
    Except URIFailure (Nat × List UInt16) :=
  let n := leadLength 4 b 1
  if n = 1 ∨ n = 5 ∨ start + 2 + 3 * (n - 1) ≥ uriString.length then .error .malformedURI
  else do
    let octets ← readOctets uriString (n - 1) (start + 2)
    match codePointOf (b :: octets) with
    | none => .error .malformedURI
    | some v => return (2 + 3 * (n - 1), ← appendCodePoint v)

/-- One turn of the loop of `decode` at index `i`: how far it moves `i`, and the code
units it appends. -/
def decodeTurn (noComponent : Bool) (uriString : List UInt16) (i : Nat) :
    Except URIFailure (Nat × List UInt16) := do
  let t ← charAt uriString i
  if t ≠ 0x25 then return (0, [t])
  else if i + 2 ≥ uriString.length then .error .malformedURI
  else
    match twocharToHexaDecimal (← charAt uriString (i + 1)) (← charAt uriString (i + 2)) with
    | none => .error .malformedURI
    | some b =>
      if b &&& 0x80 = 0 then return decodeAscii noComponent uriString i b
      else decodeOctets uriString i b

/-- The loop of `decode` from index `i` on. -/
def decodeFrom (noComponent : Bool) (uriString : List UInt16) (i : Nat) :
    Except URIFailure (List UInt16) := do
  if i < uriString.length then
    let (moved, unescaped) ← decodeTurn noComponent uriString i
    return unescaped ++ (← decodeFrom noComponent uriString (i + moved + 1))
  else return []
  termination_by uriString.length - i

/-- `decode`, of `decodeURI` where `noComponent` is set and of `decodeURIComponent` else. -/
def decode (noComponent : Bool) (uriString : List UInt16) : Except URIFailure (List UInt16) :=
  decodeFrom noComponent uriString 0

/-- A digit of `convertAndAppendCodeUnit`. -/
def hexaDecimalChar (dig : Nat) : UInt16 :=
  if dig ≤ 9 then .ofNat (dig + 0x30) else .ofNat (dig - 10 + 0x41)

def convertAndAppendCodeUnit (ch : Nat) : List UInt16 :=
  [0x25, hexaDecimalChar ((ch &&& 0xF0) >>> 4), hexaDecimalChar (ch &&& 0x0F)]

/-- The code units `encode` copies. -/
def isCopied (noComponent : Bool) (t : UInt16) : Bool :=
  isDecimalDigit t || isURIAlpha t || isURIMark t || (noComponent && isURIReservedOrSharp t)

/-- `encode`, of `encodeURI` where `noComponent` is set and of `encodeURIComponent` else. -/
def encode (noComponent : Bool) : List UInt16 → Except URIFailure (List UInt16)
  | [] => .ok []
  | t :: rest =>
    let ch := t.toNat
    if isCopied noComponent t then ([t] ++ ·) <$> encode noComponent rest
    else if ch ≤ 0x7F then (convertAndAppendCodeUnit ch ++ ·) <$> encode noComponent rest
    else if 0x80 ≤ ch ∧ ch ≤ 0x7FF then
      (convertAndAppendCodeUnit (0xC0 + (ch &&& 0x7C0) / 0x40) ++
        convertAndAppendCodeUnit (0x80 + (ch &&& 0x3F)) ++ ·) <$> encode noComponent rest
    else if (0x800 ≤ ch ∧ ch ≤ 0xD7FF) ∨ 0xE000 ≤ ch then
      (convertAndAppendCodeUnit (0xE0 + (ch &&& 0xF000) / 0x1000) ++
        convertAndAppendCodeUnit (0x80 + (ch &&& 0xFC0) / 0x40) ++
        convertAndAppendCodeUnit (0x80 + (ch &&& 0x3F)) ++ ·) <$> encode noComponent rest
    else if 0xD800 ≤ ch ∧ ch ≤ 0xDBFF then
      match rest with
      | [] => .error .malformedURI
      | next :: rest =>
        if 0xDC00 ≤ next.toNat ∧ next.toNat ≤ 0xDFFF then
          let index := (ch - 0xD800) * 0x400 + (next.toNat - 0xDC00) + 0x10000
          (convertAndAppendCodeUnit (0xF0 + (index &&& 0x1C0000) / 0x40000) ++
            convertAndAppendCodeUnit (0x80 + (index &&& 0x3F000) / 0x1000) ++
            convertAndAppendCodeUnit (0x80 + (index &&& 0xFC0) / 0x40) ++
            convertAndAppendCodeUnit (0x80 + (index &&& 0x3F)) ++ ·) <$>
              encode noComponent rest
        else .error .malformedURI
    else .error .malformedURI

/-- The value of a hexadecimal digit of either case. -/
def hexDigitValue : Option Nat :=
  if 0x30 ≤ ch.toNat ∧ ch.toNat ≤ 0x39 then some (ch.toNat - 0x30)
  else if 0x41 ≤ ch.toNat ∧ ch.toNat ≤ 0x46 then some (ch.toNat - 0x37)
  else if 0x61 ≤ ch.toNat ∧ ch.toNat ≤ 0x66 then some (ch.toNat - 0x57)
  else none

/-- Octets, each escaped as `%` and two digits. -/
inductive Escapes : List UInt8 → List UInt16 → Prop
  | nil : Escapes [] []
  | cons {b : UInt8} {bs : List UInt8} {ch1 ch2 : UInt16} {escape : List UInt16} {d1 d2 : Nat} :
      hexDigitValue ch1 = some d1 → hexDigitValue ch2 = some d2 → b.toNat = 16 * d1 + d2 →
      Escapes bs escape → Escapes (b :: bs) (0x25 :: ch1 :: ch2 :: escape)

/-- A character whose escapes `decodeURI` keeps. -/
def staysEscaped (noComponent : Bool) (c : Char) : Bool :=
  noComponent && (utf16Units c.toNat).any isURIReservedOrSharp

/-- A piece of the input and what it stands for: a code unit that is not `%`, or the escapes
of the well-formed UTF-8 of one character. -/
inductive Piece (noComponent : Bool) : List UInt16 → List UInt16 → Prop
  | literal {t : UInt16} : t ≠ 0x25 → Piece noComponent [t] [t]
  | escaped {c : Char} {escape : List UInt16} : Escapes (String.utf8EncodeChar c) escape →
      Piece noComponent escape
        (if staysEscaped noComponent c then escape else utf16Units c.toNat)

/-- A string made of pieces. -/
inductive Decoded (noComponent : Bool) : List UInt16 → List UInt16 → Prop
  | nil : Decoded noComponent [] []
  | cons {piece out u s : List UInt16} : Piece noComponent piece out → Decoded noComponent u s →
      Decoded noComponent (piece ++ u) (out ++ s)

theorem hexDigitValue_eq :
    hexDigitValue ch = if isHexadecimalDigit ch then some (hexaDecimalDigit ch) else none := by
  have hascii : ∀ n < 128, hexDigitValue (.ofNat n) =
      if isHexadecimalDigit (.ofNat n) then some (hexaDecimalDigit (.ofNat n)) else none := by
    decide +kernel
  by_cases h : ch.toNat < 128
  · have := hascii ch.toNat h
    rwa [UInt16.ofNat_toNat] at this
  · have hdigit : isHexadecimalDigit ch = false := by
      simp only [isHexadecimalDigit, isDecimalDigit, Bool.or_eq_false_iff, Bool.and_eq_false_iff,
        decide_eq_false_iff_not, UInt16.le_iff_toNat_le]
      refine ⟨⟨Or.inr ?_, Or.inr ?_⟩, Or.inr ?_⟩ <;>
        (simp only [UInt16.reduceToNat]; omega)
    rw [hdigit, hexDigitValue, if_neg (by omega), if_neg (by omega), if_neg (by omega)]
    rfl

theorem hexDigitValue_lt {ch : UInt16} {d : Nat} (h : hexDigitValue ch = some d) : d < 16 := by
  unfold hexDigitValue at h
  split at h
  · cases h
    omega
  split at h
  · cases h
    omega
  split at h
  · cases h
    omega
  · cases h

variable {ch1 ch2 : UInt16} {b : UInt8}

theorem twocharToHexaDecimal_eq_some : twocharToHexaDecimal ch1 ch2 = some b ↔
      ∃ d1 d2, hexDigitValue ch1 = some d1 ∧ hexDigitValue ch2 = some d2 ∧
        b.toNat = 16 * d1 + d2 := by
  have hjoin : ∀ {d1 d2 : Nat}, d1 < 16 → d2 < 16 → d1 <<< 4 ||| d2 = 16 * d1 + d2 := by
    intro d1 d2 h1 h2
    rw [Nat.shiftLeft_eq, Foundation.or_eq_add d1 (show d2 < 2 ^ 4 from h2), Nat.mul_comm]
    rfl
  unfold twocharToHexaDecimal
  constructor
  · intro h
    split at h
    · cases h
    case isFalse hdigits =>
      rw [Bool.or_eq_true, not_or, Bool.not_eq_true', Bool.not_eq_true', Bool.not_eq_false,
        Bool.not_eq_false] at hdigits
      have h1 := hexDigitValue_eq ch1
      have h2 := hexDigitValue_eq ch2
      rw [if_pos hdigits.1] at h1
      rw [if_pos hdigits.2] at h2
      have hlt1 := hexDigitValue_lt h1
      have hlt2 := hexDigitValue_lt h2
      refine ⟨_, _, h1, h2, ?_⟩
      rw [hjoin hlt1 hlt2] at h
      rw [← Option.some.inj h, toNat_byte (by omega)]
  · rintro ⟨d1, d2, h1, h2, hb⟩
    have hlt1 := hexDigitValue_lt h1
    have hlt2 := hexDigitValue_lt h2
    rw [hexDigitValue_eq] at h1 h2
    split at h1 <;> [skip; cases h1]
    split at h2 <;> [skip; cases h2]
    rw [if_neg (by simp [*]), Option.some.inj h1, Option.some.inj h2, hjoin hlt1 hlt2, ← hb,
      UInt8.ofNat_toNat]

variable {n : Nat}

theorem convertAndAppendCodeUnit_spec (hn : n < 256) :
    ∃ ch1 ch2, convertAndAppendCodeUnit n = [0x25, ch1, ch2] ∧
      hexDigitValue ch1 = some (n / 16) ∧ hexDigitValue ch2 = some (n % 16) := by
  have hdigits : ∀ n < 256, hexDigitValue (hexaDecimalChar ((n &&& 0xF0) >>> 4)) = some (n / 16) ∧
      hexDigitValue (hexaDecimalChar (n &&& 0x0F)) = some (n % 16) := by
    decide +kernel
  exact ⟨_, _, rfl, hdigits n hn⟩

theorem leadLength_eq : ∀ m < 256, 128 ≤ m → leadLength 4 (.ofNat m) 1 =
    if m < 0xC0 then 1 else if m < 0xE0 then 2 else if m < 0xF0 then 3
    else if m < 0xF8 then 4 else 5 := by
  decide +kernel

theorem join_two {a b : Nat} (hb : b < 64) : a <<< 6 ||| b = a * 64 + b := by
  rw [Nat.shiftLeft_eq]
  exact Foundation.or_eq_add a (show b < 2 ^ 6 from hb)

theorem join_three {a b c : Nat} (hb : b < 64) (hc : c < 64) :
    a <<< 12 ||| b <<< 6 ||| c = (a * 64 + b) * 64 + c := by
  have hab : a <<< 12 ||| b <<< 6 = (a * 64 + b) <<< 6 := by
    rw [← join_two hb, Nat.shiftLeft_or_distrib, ← Nat.shiftLeft_add]
  rw [hab, join_two hc]

theorem join_four {a b c d : Nat} (hb : b < 64) (hc : c < 64) (hd : d < 64) :
    a <<< 18 ||| b <<< 12 ||| c <<< 6 ||| d = ((a * 64 + b) * 64 + c) * 64 + d := by
  have habc : a <<< 18 ||| b <<< 12 ||| c <<< 6 = ((a * 64 + b) * 64 + c) <<< 6 := by
    rw [← join_three hb hc, Nat.shiftLeft_or_distrib, Nat.shiftLeft_or_distrib,
      ← Nat.shiftLeft_add, ← Nat.shiftLeft_add]
  rw [habc, join_two hd]

def isContinuation (b : UInt8) : Prop := 0x80 ≤ b.toNat ∧ b.toNat < 0xC0

theorem low_bits (n : Nat) :
    n &&& 0x1F = n % 32 ∧ n &&& 0x0F = n % 16 ∧ n &&& 0x07 = n % 8 ∧ n &&& 0x3F = n % 64 ∧
      n &&& 0x7f = n % 128 ∧ n &&& 0x3ff = n % 1024 ∧ n &&& 0xFFFF = n % 65536 :=
  ⟨Nat.and_two_pow_sub_one_eq_mod n 5, Nat.and_two_pow_sub_one_eq_mod n 4,
    Nat.and_two_pow_sub_one_eq_mod n 3, Nat.and_two_pow_sub_one_eq_mod n 6,
    Nat.and_two_pow_sub_one_eq_mod n 7, Nat.and_two_pow_sub_one_eq_mod n 10,
    Nat.and_two_pow_sub_one_eq_mod n 16⟩

theorem codePointOf_two {o0 o1 : UInt8} (h0 : 0xC0 ≤ o0.toNat ∧ o0.toNat < 0xE0)
    (h1 : isContinuation o1) :
    codePointOf [o0, o1] = if o0.toNat < 0xC2 then none
      else some ((o0.toNat - 0xC0) * 64 + (o1.toNat - 0x80)) := by
  obtain ⟨h1, h1'⟩ := h1
  rw [codePointOf, (low_bits _).1, (low_bits o1.toNat).2.2.2.1, join_two (Nat.mod_lt _ (by decide))]
  have hrefused : (o0 = 0xC0 ∨ o0 = 0xC1) ↔ o0.toNat < 0xC2 := by
    rw [← UInt8.toNat_inj, ← UInt8.toNat_inj]
    simp only [UInt8.reduceToNat]
    omega
  have hvalue : o0.toNat % 32 * 64 + o1.toNat % 64 =
      (o0.toNat - 0xC0) * 64 + (o1.toNat - 0x80) := by
    omega
  rw [if_congr hrefused rfl rfl, hvalue]

theorem codePointOf_three {o0 o1 o2 : UInt8} (h0 : 0xE0 ≤ o0.toNat ∧ o0.toNat < 0xF0)
    (h1 : isContinuation o1) (h2 : isContinuation o2) :
    codePointOf [o0, o1, o2] =
      let v := (o0.toNat - 0xE0) * 4096 + (o1.toNat - 0x80) * 64 + (o2.toNat - 0x80)
      if (0xD800 ≤ v ∧ v < 0xE000) ∨ v < 0x800 then none else some v := by
  obtain ⟨h1, h1'⟩ := h1
  obtain ⟨h2, h2'⟩ := h2
  rw [codePointOf, (low_bits o0.toNat).2.1, (low_bits o1.toNat).2.2.2.1,
    (low_bits o2.toNat).2.2.2.1, join_three (Nat.mod_lt _ (by decide)) (Nat.mod_lt _ (by decide))]
  have hvalue : (o0.toNat % 16 * 64 + o1.toNat % 64) * 64 + o2.toNat % 64 =
      (o0.toNat - 0xE0) * 4096 + (o1.toNat - 0x80) * 64 + (o2.toNat - 0x80) := by
    omega
  rw [hvalue]
  apply if_congr _ rfl rfl
  rw [← UInt8.toNat_inj, gt_iff_lt, UInt8.lt_iff_toNat_lt, UInt8.lt_iff_toNat_lt]
  simp only [UInt8.reduceToNat]
  omega

theorem codePointOf_four {o0 o1 o2 o3 : UInt8} (h0 : 0xF0 ≤ o0.toNat ∧ o0.toNat < 0xF8)
    (h1 : isContinuation o1) (h2 : isContinuation o2) (h3 : isContinuation o3) :
    codePointOf [o0, o1, o2, o3] =
      let v := (o0.toNat - 0xF0) * 262144 + (o1.toNat - 0x80) * 4096 + (o2.toNat - 0x80) * 64 +
        (o3.toNat - 0x80)
      if v < 0x10000 then none else some v := by
  obtain ⟨h1, h1'⟩ := h1
  obtain ⟨h2, h2'⟩ := h2
  obtain ⟨h3, h3'⟩ := h3
  rw [codePointOf, (low_bits o0.toNat).2.2.1, (low_bits o1.toNat).2.2.2.1,
    (low_bits o2.toNat).2.2.2.1, (low_bits o3.toNat).2.2.2.1, join_four (Nat.mod_lt _ (by decide)) (Nat.mod_lt _ (by decide)) (Nat.mod_lt _ (by decide))]
  have hvalue : ((o0.toNat % 8 * 64 + o1.toNat % 64) * 64 + o2.toNat % 64) * 64 +
      o3.toNat % 64 = (o0.toNat - 0xF0) * 262144 + (o1.toNat - 0x80) * 4096 +
        (o2.toNat - 0x80) * 64 + (o3.toNat - 0x80) := by
    omega
  rw [hvalue]
  apply if_congr _ rfl rfl
  rw [← UInt8.toNat_inj, gt_iff_lt, UInt8.lt_iff_toNat_lt, UInt8.lt_iff_toNat_lt]
  simp only [UInt8.reduceToNat]
  omega

theorem appendCodePoint_eq (v : Nat) :
    appendCodePoint v = if v < 0x110000 then .ok (utf16Units v) else .error .malformedURI := by
  unfold appendCodePoint utf16Units
  by_cases hhigh : v > 0x10FFFF
  · rw [if_pos hhigh, if_neg (by omega)]
  rw [if_neg hhigh, if_pos (show v < 0x110000 by omega)]
  by_cases hpair : v ≥ 0x10000
  · have hlead : ((v - 0x10000) / 2 ^ 10) % 1024 + 0xd800 = v / 1024 + 0xd7c0 := by omega
    have htrail : (v - 0x10000) % 1024 + 0xdc00 = v % 1024 + 0xdc00 := by omega
    rw [if_pos hpair, if_neg (by omega), (low_bits _).2.2.2.2.2.1, (low_bits _).2.2.2.2.2.1,
      Nat.shiftRight_eq_div_pow, hlead, htrail]
  · rw [if_neg hpair, if_pos (by omega), (low_bits _).2.2.2.2.2.2, Nat.mod_eq_of_lt (by omega)]

/-- The octets that the decoder accepts: as many continuation octets as the first announces,
of which none is refused. -/
structure Accepted (b : UInt8) (bs : List UInt8) (v : Nat) : Prop where
  high : 0x80 ≤ b.toNat
  announced : leadLength 4 b 1 = bs.length + 1
  some_follow : bs.length ≠ 0
  few_follow : bs.length < 4
  continuations : ∀ o ∈ bs, isContinuation o
  value : codePointOf (b :: bs) = some v
  bounded : v < 0x110000

theorem leadLength_toNat (hb : 0x80 ≤ b.toNat) : leadLength 4 b 1 =
    if b.toNat < 0xC0 then 1 else if b.toNat < 0xE0 then 2 else if b.toNat < 0xF0 then 3
    else if b.toNat < 0xF8 then 4 else 5 := by
  rw [← leadLength_eq b.toNat b.toNat_lt hb, UInt8.ofNat_toNat]

theorem byte_eq {b : UInt8} (h : n = b.toNat) : UInt8.ofNat n = b := by
  rw [h, UInt8.ofNat_toNat]

theorem exists_char {v : Nat} (h : v.isValidChar) : ∃ c : Char, c.val.toNat = v :=
  ⟨Char.ofNatAux v h, rfl⟩

variable {bs : List UInt8}

theorem utf8EncodeChar_of_accepted {v : Nat} (h : Accepted b bs v) :
    ∃ c : Char, c.toNat = v ∧ String.utf8EncodeChar c = b :: bs := by
  obtain ⟨hb, hlength, hsome, hfew, hcontinue, hvalue, hv⟩ := h
  rw [leadLength_toNat hb] at hlength
  match bs with
  | [] => exact absurd rfl hsome
  | [o1] =>
    have h1 : isContinuation o1 := hcontinue o1 (by simp)
    have h0 : 0xC0 ≤ b.toNat ∧ b.toNat < 0xE0 := by
      rw [length_singleton] at hlength
      split_ifs at hlength <;> omega
    rw [codePointOf_two h0 h1] at hvalue
    obtain ⟨h1, h1'⟩ := h1
    split at hvalue <;> [cases hvalue; skip]
    have hvalue := Option.some.inj hvalue
    obtain ⟨c, hc⟩ := exists_char (show v.isValidChar from Or.inl (by omega))
    refine ⟨c, hc, ?_⟩
    unfold String.utf8EncodeChar
    rw [hc, if_neg (by omega), if_pos (by omega), @byte_eq _ b (by omega), @byte_eq _ o1 (by omega)]
  | [o1, o2] =>
    have h1 : isContinuation o1 := hcontinue o1 (by simp)
    have h2 : isContinuation o2 := hcontinue o2 (by simp)
    have h0 : 0xE0 ≤ b.toNat ∧ b.toNat < 0xF0 := by
      simp only [length_cons, length_nil] at hlength
      split_ifs at hlength <;> omega
    rw [codePointOf_three h0 h1 h2] at hvalue
    dsimp only at hvalue
    obtain ⟨h1, h1'⟩ := h1
    obtain ⟨h2, h2'⟩ := h2
    split at hvalue <;> [cases hvalue; skip]
    have hvalue := Option.some.inj hvalue
    obtain ⟨c, hc⟩ := exists_char (show v.isValidChar by unfold Nat.isValidChar; omega)
    refine ⟨c, hc, ?_⟩
    unfold String.utf8EncodeChar
    rw [hc, if_neg (by omega), if_neg (by omega), if_pos (by omega),
      @byte_eq _ b (by omega), @byte_eq _ o1 (by omega), @byte_eq _ o2 (by omega)]
  | [o1, o2, o3] =>
    have h1 : isContinuation o1 := hcontinue o1 (by simp)
    have h2 : isContinuation o2 := hcontinue o2 (by simp)
    have h3 : isContinuation o3 := hcontinue o3 (by simp)
    have h0 : 0xF0 ≤ b.toNat ∧ b.toNat < 0xF8 := by
      simp only [length_cons, length_nil] at hlength
      split_ifs at hlength <;> omega
    rw [codePointOf_four h0 h1 h2 h3] at hvalue
    dsimp only at hvalue
    obtain ⟨h1, h1'⟩ := h1
    obtain ⟨h2, h2'⟩ := h2
    obtain ⟨h3, h3'⟩ := h3
    split at hvalue <;> [cases hvalue; skip]
    have hvalue := Option.some.inj hvalue
    obtain ⟨c, hc⟩ := exists_char (show v.isValidChar from Or.inr ⟨by omega, hv⟩)
    refine ⟨c, hc, ?_⟩
    unfold String.utf8EncodeChar
    rw [hc, if_neg (by omega), if_neg (by omega), if_neg (by omega), @byte_eq _ b (by omega),
      @byte_eq _ o1 (by omega), @byte_eq _ o2 (by omega), @byte_eq _ o3 (by omega)]
  | _ :: _ :: _ :: _ :: _ =>
    simp only [length_cons] at hfew
    omega

theorem utf8EncodeChar_cases (c : Char) :
    (c.toNat < 0x80 ∧ String.utf8EncodeChar c = [.ofNat c.toNat]) ∨
      ∃ b bs, String.utf8EncodeChar c = b :: bs ∧ Accepted b bs c.toNat := by
  have hvalid := c.valid
  have hval : c.val.toNat = c.toNat := rfl
  unfold UInt32.isValidChar Nat.isValidChar at hvalid
  rw [hval] at hvalid
  unfold String.utf8EncodeChar
  rw [hval]
  generalize c.toNat = v at hvalid ⊢
  by_cases hone : v ≤ 0x7f
  · rw [if_pos hone]
    exact .inl ⟨by omega, rfl⟩
  right
  rw [if_neg hone]
  have hcontinuation : ∀ n : Nat, isContinuation (.ofNat (n % 0x40 + 0x80)) := by
    intro n
    rw [isContinuation, toNat_byte (by omega)]
    omega
  by_cases htwo : v ≤ 0x7ff
  · rw [if_pos htwo]
    have h0 : (UInt8.ofNat (v / 64 % 0x20 + 0xc0)).toNat = v / 64 + 0xc0 := by
      rw [toNat_byte (by omega)]
      omega
    refine ⟨_, _, rfl, by omega, ?_, by simp, by simp, by simp only [hcontinuation,
      forall_mem_cons, not_mem_nil, false_imp_iff, implies_true, and_true], ?_, by omega⟩
    · rw [leadLength_toNat (by omega), h0, if_neg (by omega), if_pos (by omega)]
      rfl
    · have hvalue : (v / 64 + 0xc0 - 0xc0) * 64 + (v % 0x40 + 0x80 - 0x80) = v := by omega
      rw [codePointOf_two (by omega) (hcontinuation v), if_neg (by omega), h0,
        toNat_byte (by omega), hvalue]
  rw [if_neg htwo]
  by_cases hthree : v ≤ 0xffff
  · rw [if_pos hthree]
    have h0 : (UInt8.ofNat (v / 4096 % 0x10 + 0xe0)).toNat = v / 4096 + 0xe0 := by
      rw [toNat_byte (by omega)]
      omega
    refine ⟨_, _, rfl, by omega, ?_, by simp, by simp, by simp only [hcontinuation,
      forall_mem_cons, not_mem_nil, false_imp_iff, implies_true, and_true], ?_, by omega⟩
    · rw [leadLength_toNat (by omega), h0, if_neg (by omega), if_neg (by omega), if_pos (by omega)]
      rfl
    · have hvalue : (v / 4096 + 0xe0 - 0xe0) * 4096 + (v / 64 % 0x40 + 0x80 - 0x80) * 64 +
          (v % 0x40 + 0x80 - 0x80) = v := by
        omega
      rw [codePointOf_three (by omega) (hcontinuation _) (hcontinuation _), h0,
        toNat_byte (by omega), toNat_byte (by omega), hvalue]
      exact if_neg (by omega)
  · rw [if_neg hthree]
    have h0 : (UInt8.ofNat (v / 262144 % 8 + 0xf0)).toNat = v / 262144 + 0xf0 := by
      rw [toNat_byte (by omega)]
      omega
    refine ⟨_, _, rfl, by omega, ?_, by simp, by simp, by simp only [hcontinuation,
      forall_mem_cons, not_mem_nil, false_imp_iff, implies_true, and_true], ?_, by omega⟩
    · rw [leadLength_toNat (by omega), h0, if_neg (by omega), if_neg (by omega),
        if_neg (by omega), if_pos (by omega)]
      rfl
    · have hvalue : (v / 262144 + 0xf0 - 0xf0) * 262144 + (v / 4096 % 0x40 + 0x80 - 0x80) * 4096 +
          (v / 64 % 0x40 + 0x80 - 0x80) * 64 + (v % 0x40 + 0x80 - 0x80) = v := by
        omega
      rw [codePointOf_four (by omega) (hcontinuation _) (hcontinuation _) (hcontinuation _), h0,
        toNat_byte (by omega), toNat_byte (by omega), toNat_byte (by omega), hvalue]
      exact if_neg (by omega)

theorem charAt_drop (u : List UInt16) (i k : Nat) : charAt u (i + k) = charAt (u.drop i) k := by
  unfold charAt
  rw [getElem?_drop]

theorem codeUnitToHexaDecimal_drop (u : List UInt16) (i k : Nat) :
    codeUnitToHexaDecimal u (i + k) = codeUnitToHexaDecimal (u.drop i) k := by
  unfold codeUnitToHexaDecimal
  simp only [Nat.add_assoc, charAt_drop]

theorem readOctets_drop (u : List UInt16) (more i k : Nat) :
    readOctets u more (i + k) = readOctets (u.drop i) more k := by
  induction more generalizing k with
  | zero => rfl
  | succ more ih =>
    unfold readOctets
    simp only [Nat.add_assoc, codeUnitToHexaDecimal_drop, ih]

theorem decodeTurn_drop (noComponent : Bool) (u : List UInt16) (i : Nat) :
    decodeTurn noComponent u i = decodeTurn noComponent (u.drop i) 0 := by
  have hlength (k : Nat) : i + k ≥ u.length ↔ 0 + k ≥ (u.drop i).length := by
    rw [length_drop]
    omega
  have hoctets (b : UInt8) : decodeOctets u i b = decodeOctets (u.drop i) 0 b := by
    unfold decodeOctets
    simp only [Nat.add_assoc, hlength, readOctets_drop, Nat.zero_add]
  have hascii (b : UInt8) :
      decodeAscii noComponent u i b = decodeAscii noComponent (u.drop i) 0 b := rfl
  unfold decodeTurn
  rw [show charAt u i = charAt (u.drop i) 0 from charAt_drop u i 0]
  simp only [Nat.zero_add, hoctets, hascii, charAt_drop, hlength]

theorem decodeFrom_drop (noComponent : Bool) (u : List UInt16) (i k : Nat) :
    decodeFrom noComponent u (i + k) = decodeFrom noComponent (u.drop i) k := by
  induction h : u.length - (i + k) using Nat.strongRecOn generalizing k with
  | ind n ih =>
    rw [decodeFrom.eq_def, decodeFrom.eq_def noComponent (u.drop i) k]
    by_cases hk : i + k < u.length
    · rw [if_pos hk, if_pos (by rw [length_drop]; omega), decodeTurn_drop noComponent u (i + k),
        decodeTurn_drop noComponent (u.drop i) k, drop_drop]
      refine bind_congr fun ⟨moved, unescaped⟩ => ?_
      have hrest := ih (u.length - (i + (k + moved + 1))) (by omega) (k + moved + 1) rfl
      dsimp only
      rw [← hrest, ← Nat.add_assoc, ← Nat.add_assoc]
    · rw [if_neg hk, if_neg (by rw [length_drop]; omega)]

variable {noComponent : Bool} {rest : List UInt16} {piece out : List UInt16}

theorem decode_append {moved : Nat} (hpiece : piece.length = moved + 1)
    (hturn : decodeTurn noComponent (piece ++ rest) 0 = .ok (moved, out)) :
    decode noComponent (piece ++ rest) = (out ++ ·) <$> decode noComponent rest := by
  have hrest : (piece ++ rest).drop (moved + 1) = rest := by rw [← hpiece, drop_left]
  have hfrom := decodeFrom_drop noComponent (piece ++ rest) (moved + 1) 0
  rw [hrest, Nat.add_zero] at hfrom
  unfold decode
  rw [decodeFrom.eq_def, if_pos (by rw [length_append]; omega), hturn, ← hfrom]
  simp only [Nat.zero_add]
  rfl

variable {escape : List UInt16}

theorem Escapes.length_eq (h : Escapes bs escape) : escape.length = 3 * bs.length := by
  induction h with
  | nil => rfl
  | cons _ _ _ _ ih =>
    simp only [length_cons, ih]
    omega

theorem isContinuation_iff (b : UInt8) : isContinuation b ↔ b &&& 0xC0 = 0x80 := by
  have hmask := (byte_masks b.toNat b.toNat_lt).2.1
  rw [UInt8.ofNat_toNat] at hmask
  exact hmask.symm

variable {u : List UInt16} {t : UInt16}

theorem codeUnitToHexaDecimal_cons {start : Nat} (h : u.drop start = t :: ch1 :: ch2 :: rest) :
    codeUnitToHexaDecimal u start = .ok (if t ≠ 0x25 then none else
      (twocharToHexaDecimal ch1 ch2).filter fun res => res &&& 0xC0 = 0x80) := by
  have hstart := codeUnitToHexaDecimal_drop u start 0
  have hvalue : codeUnitToHexaDecimal (t :: ch1 :: ch2 :: rest) 0 = if t ≠ 0x25 then .ok none
      else .ok ((twocharToHexaDecimal ch1 ch2).filter fun res => res &&& 0xC0 = 0x80) := rfl
  rw [Nat.add_zero, h, hvalue] at hstart
  rw [hstart]
  split <;> rfl

theorem readOctets_escapes (h : Escapes bs escape) (hcontinue : ∀ o ∈ bs, isContinuation o)
    {i : Nat} (hu : u.drop (i + 1) = escape ++ rest) : readOctets u bs.length i = .ok bs := by
  induction h generalizing i with
  | nil => rfl
  | @cons b bs ch1 ch2 escape d1 d2 h1 h2 hb _ ih =>
    have hnext : u.drop (i + 3 + 1) = escape ++ rest := by
      rw [show i + 3 + 1 = i + 1 + 3 by omega, ← drop_drop, hu]
      rfl
    have hmask := (isContinuation_iff b).mp (hcontinue b (by simp))
    rw [length_cons, readOctets, codeUnitToHexaDecimal_cons hu, if_neg (not_not_intro rfl),
      twocharToHexaDecimal_eq_some.mpr ⟨d1, d2, h1, h2, hb⟩,
      Option.filter_some_pos (by simpa using hmask)]
    simp only [bind, Except.bind, ih (fun o ho => hcontinue o (mem_cons_of_mem b ho)) hnext]
    rfl

theorem readOctets_spec (u : List UInt16) : ∀ (more i : Nat), 3 * more ≤ (u.drop (i + 1)).length →
    readOctets u more i = .error .malformedURI ∨
      ∃ bs escape rest, readOctets u more i = .ok bs ∧ u.drop (i + 1) = escape ++ rest ∧
        Escapes bs escape ∧ bs.length = more ∧ ∀ o ∈ bs, isContinuation o
  | 0, i, _ => .inr ⟨[], [], _, rfl, rfl, .nil, rfl, by simp⟩
  | more + 1, i, h => by
      match hdrop : u.drop (i + 1), h with
      | t :: ch1 :: ch2 :: rest, h =>
        have hnext : u.drop (i + 3 + 1) = rest := by
          rw [show i + 3 + 1 = i + 1 + 3 by omega, ← drop_drop, hdrop]
          rfl
        unfold readOctets
        rw [codeUnitToHexaDecimal_cons hdrop]
        by_cases ht : t ≠ 0x25
        · rw [if_pos ht]
          exact .inl rfl
        rw [if_neg ht]
        cases hhex : (twocharToHexaDecimal ch1 ch2).filter fun res => res &&& 0xC0 = 0x80 with
        | none => exact .inl rfl
        | some b =>
          obtain ⟨hhex, hmask⟩ := Option.filter_eq_some_iff.mp hhex
          obtain ⟨d1, d2, h1, h2, hb⟩ := twocharToHexaDecimal_eq_some.mp hhex
          have hlength : 3 * more ≤ (u.drop (i + 3 + 1)).length := by
            rw [hnext]
            simp only [length_cons] at h
            omega
          rcases readOctets_spec u more (i + 3) hlength with
            hbad | ⟨bs, escape, rest', hok, hrest, hescapes, hmore, hcontinue⟩
          · simp only [bind, Except.bind, hbad]
            exact .inl trivial
          · refine .inr ⟨b :: bs, t :: ch1 :: ch2 :: escape, rest', ?_, ?_, ?_, ?_, ?_⟩
            · simp only [bind, Except.bind, hok]
              rfl
            · rw [← hnext, hrest]
              rfl
            · rw [not_not.mp ht]
              exact .cons h1 h2 hb hescapes
            · rw [length_cons, hmore]
            · refine List.forall_mem_cons.mpr ⟨?_, hcontinue⟩
              rw [isContinuation_iff]
              exact of_decide_eq_true hmask

theorem isURIReservedOrSharp_lt {ch : UInt16} (h : isURIReservedOrSharp ch = true) :
    ch.toNat < 0x80 := by
  simp only [isURIReservedOrSharp, Bool.or_eq_true, decide_eq_true_eq, ← UInt16.toNat_inj,
    UInt16.reduceToNat] at h
  omega

theorem utf16Units_ascii (hn : n < 0x80) : utf16Units n = [.ofNat n] := by
  rw [utf16Units, if_pos (by omega)]

theorem high_of_octets {c : Char} (hoctets : String.utf8EncodeChar c = b :: bs)
    (hb : 0x80 ≤ b.toNat) : 0x80 ≤ c.toNat := by
  by_contra hlow
  unfold String.utf8EncodeChar at hoctets
  rw [if_pos (show c.val.toNat ≤ 0x7f by change c.toNat ≤ 0x7f; omega)] at hoctets
  injection hoctets with hoctets
  rw [← hoctets, toNat_byte (by change c.toNat < 256; omega)] at hb
  exact hlow hb

theorem staysEscaped_high {noComponent : Bool} {c : Char} (hc : 0x80 ≤ c.toNat) :
    staysEscaped noComponent c = false := by
  have hlt : c.toNat < 0x110000 := by
    have hvalid := c.valid
    have hval : c.val.toNat = c.toNat := rfl
    omega
  have hunits : ∀ unit ∈ utf16Units c.toNat, 0x80 ≤ unit.toNat := by
    unfold utf16Units
    intro unit hunit
    split at hunit
    · rw [List.mem_singleton.mp hunit, UInt16.toNat_ofNat_of_lt' (by simp only [UInt16.size]; omega)]
      exact hc
    · rcases List.mem_pair.mp hunit with rfl | rfl <;>
        (rw [UInt16.toNat_ofNat_of_lt' (by simp only [UInt16.size]; omega)]; omega)
  have hany : (utf16Units c.toNat).any isURIReservedOrSharp = false := by
    rw [List.any_eq_false]
    intro unit hunit hreserved
    have := hunits unit hunit
    have := isURIReservedOrSharp_lt hreserved
    omega
  rw [staysEscaped, hany, Bool.and_false]

theorem decodeTurn_literal (rest : List UInt16) (ht : t ≠ 0x25) :
    decodeTurn noComponent (t :: rest) 0 = .ok (0, [t]) :=
  if_pos ht

theorem decodeTurn_escape (rest : List UInt16) :
    decodeTurn noComponent (0x25 :: ch1 :: ch2 :: rest) 0 = match twocharToHexaDecimal ch1 ch2 with
      | none => .error .malformedURI
      | some b =>
        if b &&& 0x80 = 0 then
          .ok (decodeAscii noComponent (0x25 :: ch1 :: ch2 :: rest) 0 b)
        else decodeOctets (0x25 :: ch1 :: ch2 :: rest) 0 b := by
  have hlength : ¬ 0 + 2 ≥ (0x25 :: ch1 :: ch2 :: rest).length := by
    simp only [length_cons]
    omega
  have hturn : decodeTurn noComponent (0x25 :: ch1 :: ch2 :: rest) 0 =
      if (0x25 : UInt16) ≠ 0x25 then .ok (0, [0x25])
      else if 0 + 2 ≥ (0x25 :: ch1 :: ch2 :: rest).length then .error .malformedURI
      else
        match twocharToHexaDecimal ch1 ch2 with
        | none => .error .malformedURI
        | some b =>
          if b &&& 0x80 = 0 then
            .ok (decodeAscii noComponent (0x25 :: ch1 :: ch2 :: rest) 0 b)
          else decodeOctets (0x25 :: ch1 :: ch2 :: rest) 0 b := rfl
  rw [hturn, if_neg (not_not_intro rfl), if_neg hlength]

theorem high_bit_iff (b : UInt8) : b &&& 0x80 = 0 ↔ b.toNat < 0x80 := by
  have hmask := (byte_masks b.toNat b.toNat_lt).1
  rwa [UInt8.ofNat_toNat] at hmask

theorem decodeAscii_eq (noComponent : Bool) {c : Char} (hb : b.toNat = c.toNat)
    (hc : c.toNat < 0x80) (ch1 ch2 : UInt16) (rest : List UInt16) :
    decodeAscii noComponent (0x25 :: ch1 :: ch2 :: rest) 0 b =
      (2, if staysEscaped noComponent c then [0x25, ch1, ch2] else utf16Units c.toNat) := by
  have hunit : b.toNat &&& 0x7f = c.toNat := by
    rw [(low_bits b.toNat).2.2.2.2.1, hb]
    omega
  unfold decodeAscii staysEscaped
  rw [utf16Units_ascii hc, hunit, any_cons, any_nil, Bool.or_false]
  by_cases hreserved : (noComponent && isURIReservedOrSharp (.ofNat c.toNat)) = true
  · rw [if_pos hreserved, if_pos hreserved]
    rfl
  · rw [if_neg hreserved, if_neg hreserved]

theorem decodeOctets_accepted {v : Nat} (haccepted : Accepted b bs v)
    (hescape : Escapes bs escape) (hu : u.drop 3 = escape ++ rest) (hlong : 3 ≤ u.length) :
    decodeOctets u 0 b = .ok (2 + 3 * bs.length, utf16Units v) := by
  have hlength : (u.drop 3).length = 3 * bs.length + rest.length := by
    rw [hu, length_append, hescape.length_eq]
  rw [length_drop] at hlength
  have hsome := haccepted.some_follow
  have hfew := haccepted.few_follow
  unfold decodeOctets
  rw [haccepted.announced]
  dsimp only
  rw [Nat.add_sub_cancel, if_neg (by omega), Nat.zero_add,
    readOctets_escapes hescape haccepted.continuations hu]
  simp only [bind, Except.bind, haccepted.value, appendCodePoint_eq, if_pos haccepted.bounded]
  rfl

theorem decodeTurn_piece (h : Piece noComponent piece out) (rest : List UInt16) :
    ∃ moved, piece.length = moved + 1 ∧
      decodeTurn noComponent (piece ++ rest) 0 = .ok (moved, out) := by
  cases h with
  | literal ht => exact ⟨0, rfl, decodeTurn_literal rest ht⟩
  | @escaped c _ hescapes =>
    rcases utf8EncodeChar_cases c with ⟨hc, hoctets⟩ | ⟨b, bs, hoctets, haccepted⟩
    · rw [hoctets] at hescapes
      cases hescapes with
      | cons h1 h2 hb hnil =>
        cases hnil
        have hc' := toNat_byte (show c.toNat < 256 by omega)
        refine ⟨2, rfl, ?_⟩
        rw [cons_append, cons_append, cons_append, decodeTurn_escape,
          twocharToHexaDecimal_eq_some.mpr ⟨_, _, h1, h2, hb⟩]
        dsimp only
        rw [if_pos ((high_bit_iff _).mpr (by omega)), decodeAscii_eq noComponent hc' hc]
    · rw [hoctets] at hescapes
      have hhigh := haccepted.high
      have hlow := high_of_octets hoctets hhigh
      have hlength := hescapes.length_eq
      cases hescapes with
      | @cons _ _ ch1 ch2 escape _ _ h1 h2 hb hrest =>
        refine ⟨2 + 3 * bs.length, by rw [hlength, length_cons]; omega, ?_⟩
        rw [cons_append, cons_append, cons_append, decodeTurn_escape,
          twocharToHexaDecimal_eq_some.mpr ⟨_, _, h1, h2, hb⟩]
        dsimp only
        rw [if_neg (fun h => by have := (high_bit_iff b).mp h; omega),
          decodeOctets_accepted haccepted hrest rfl (by simp), staysEscaped_high hlow]
        rfl

/-- The octets that follow a first one are refused or make a piece. -/
theorem decodeOctets_spec (noComponent : Bool) {d1 d2 : Nat} (h1 : hexDigitValue ch1 = some d1)
    (h2 : hexDigitValue ch2 = some d2) (hb : b.toNat = 16 * d1 + d2) (hhigh : 0x80 ≤ b.toNat)
    (rest : List UInt16) :
    let u := 0x25 :: ch1 :: ch2 :: rest
    decodeOctets u 0 b = .error .malformedURI ∨
      ∃ piece rest moved out, u = piece ++ rest ∧ piece.length = moved + 1 ∧
        Piece noComponent piece out ∧ decodeOctets u 0 b = .ok (moved, out) := by
  intro u
  have hu : u.length = 3 + rest.length := by
    simp only [u, length_cons]
    omega
  by_cases hrefused : leadLength 4 b 1 = 1 ∨ leadLength 4 b 1 = 5 ∨
      0 + 2 + 3 * (leadLength 4 b 1 - 1) ≥ u.length
  · exact .inl (if_pos hrefused)
  have hlead := leadLength_toNat hhigh
  have hbounds : 2 ≤ leadLength 4 b 1 ∧ leadLength 4 b 1 ≤ 4 := by split_ifs at hlead <;> omega
  have hlong : 3 * (leadLength 4 b 1 - 1) ≤ (u.drop (2 + 1)).length := by
    rw [length_drop]
    omega
  have hread : decodeOctets u 0 b = (do
      let octets ← readOctets u (leadLength 4 b 1 - 1) 2
      match codePointOf (b :: octets) with
      | none => .error .malformedURI
      | some v => return (2 + 3 * (leadLength 4 b 1 - 1), ← appendCodePoint v)) :=
    if_neg hrefused
  rcases readOctets_spec u _ 2 hlong with
    hbad | ⟨bs, escape, rest', hok, hrest, hescape, hmore, hcontinue⟩
  · left
    rw [hread, hbad]
    rfl
  cases hvalue : codePointOf (b :: bs) with
  | none =>
    left
    rw [hread, hok]
    simp only [bind, Except.bind, hvalue]
  | some v =>
    by_cases hv : v < 0x110000
    · have haccepted : Accepted b bs v :=
        ⟨hhigh, by omega, by omega, by omega, hcontinue, hvalue, hv⟩
      obtain ⟨c, rfl, hoctets⟩ := utf8EncodeChar_of_accepted haccepted
      have hescapes : Escapes (b :: bs) (0x25 :: ch1 :: ch2 :: escape) := .cons h1 h2 hb hescape
      rw [← hoctets] at hescapes
      have hpiece := @Piece.escaped noComponent c _ hescapes
      rw [staysEscaped_high (high_of_octets hoctets hhigh), if_neg Bool.false_ne_true] at hpiece
      refine .inr ⟨_, rest', 2 + 3 * bs.length, _, ?_, ?_, hpiece,
        decodeOctets_accepted haccepted hescape hrest (by omega)⟩
      · rw [cons_append, cons_append, cons_append, ← hrest]
        rfl
      · rw [hescapes.length_eq, hoctets, length_cons]
        omega
    · left
      rw [hread, hok]
      simp only [bind, Except.bind, hvalue, appendCodePoint_eq, if_neg hv]

theorem decodeTurn_spec (noComponent : Bool) (hu : u ≠ []) :
    decodeTurn noComponent u 0 = .error .malformedURI ∨
      ∃ piece rest moved out, u = piece ++ rest ∧ piece.length = moved + 1 ∧
        Piece noComponent piece out ∧ decodeTurn noComponent u 0 = .ok (moved, out) := by
  match u with
  | [] => exact absurd rfl hu
  | t :: rest =>
    by_cases ht : t ≠ 0x25
    · exact .inr ⟨[t], rest, 0, [t], rfl, rfl, .literal ht, decodeTurn_literal rest ht⟩
    rw [not_not.mp ht]
    match rest with
    | [] => exact .inl rfl
    | [_] => exact .inl rfl
    | ch1 :: ch2 :: rest =>
      rw [decodeTurn_escape]
      cases hhex : twocharToHexaDecimal ch1 ch2 with
      | none => exact .inl rfl
      | some b =>
        obtain ⟨d1, d2, h1, h2, hb⟩ := twocharToHexaDecimal_eq_some.mp hhex
        dsimp only
        by_cases hhigh : b &&& 0x80 = 0
        · have hlow := (high_bit_iff b).mp hhigh
          obtain ⟨c, hc⟩ := exists_char (show b.toNat.isValidChar from Or.inl (by omega))
          have hoctets : String.utf8EncodeChar c = [b] := by
            unfold String.utf8EncodeChar
            rw [hc, if_pos (by omega), UInt8.ofNat_toNat]
          have hescapes : Escapes (String.utf8EncodeChar c) [0x25, ch1, ch2] :=
            hoctets ▸ .cons h1 h2 hb .nil
          have hpiece := @Piece.escaped noComponent c _ hescapes
          refine .inr ⟨[0x25, ch1, ch2], rest, 2, _, rfl, rfl, hpiece, ?_⟩
          rw [if_pos hhigh, decodeAscii_eq noComponent hc.symm (by change c.val.toNat < _; omega)]
        · have hlow : 0x80 ≤ b.toNat := by
            rw [high_bit_iff] at hhigh
            omega
          rw [if_neg hhigh]
          exact decodeOctets_spec noComponent h1 h2 hb hlow rest

theorem decode_spec (noComponent : Bool) (u : List UInt16) :
    decode noComponent u = .error .malformedURI ∨
      ∃ s, decode noComponent u = .ok s ∧ Decoded noComponent u s := by
  induction h : u.length using Nat.strongRecOn generalizing u with
  | ind n ih =>
    by_cases hu : u = []
    · subst hu
      exact .inr ⟨[], by unfold decode decodeFrom; rfl, .nil⟩
    rcases decodeTurn_spec noComponent hu with
      hbad | ⟨piece, rest, moved, out, rfl, hpiece, hdecoded, hturn⟩
    · left
      have hlength := length_pos_of_ne_nil hu
      unfold decode
      rw [decodeFrom.eq_def, if_pos hlength, hbad]
      rfl
    · rw [decode_append hpiece hturn]
      rcases ih rest.length (by rw [← h, length_append]; omega) rest rfl with
        hbad | ⟨s, hok, hrest⟩
      · rw [hbad]
        exact .inl rfl
      · rw [hok]
        exact .inr ⟨out ++ s, rfl, .cons hdecoded hrest⟩

theorem decode_decoded {s : List UInt16} (h : Decoded noComponent u s) :
    decode noComponent u = .ok s := by
  induction h with
  | nil =>
    unfold decode decodeFrom
    rfl
  | cons hpiece _ ih =>
    obtain ⟨moved, hlength, hturn⟩ := decodeTurn_piece hpiece _
    rw [decode_append hlength hturn, ih]
    rfl

theorem isCopied_spec (h : isCopied noComponent t = true) : t.toNat < 0x80 ∧ t ≠ 0x25 := by
  have hascii : t.toNat < 0x80 := by
    simp only [isCopied, isDecimalDigit, isURIAlpha, isURIMark, Bool.or_eq_true, Bool.and_eq_true,
      decide_eq_true_eq, UInt16.le_iff_toNat_le, ← UInt16.toNat_inj, UInt16.reduceToNat] at h
    rcases h with ((h | h) | h) | h
    · omega
    · omega
    · omega
    · exact isURIReservedOrSharp_lt h.2
  refine ⟨hascii, ?_⟩
  rintro rfl
  cases noComponent <;> exact absurd h (by decide)

theorem field_eq (n k s : Nat) : (n &&& (2 ^ k - 1) * 2 ^ s) / 2 ^ s = n / 2 ^ s % 2 ^ k := by
  rw [Foundation.and_fieldMask, Nat.mul_div_cancel _ (Nat.two_pow_pos s)]

theorem escapes_one (hn : n < 256) : Escapes [.ofNat n] (convertAndAppendCodeUnit n) := by
  obtain ⟨ch1, ch2, heq, h1, h2⟩ := convertAndAppendCodeUnit_spec hn
  rw [heq]
  refine .cons h1 h2 ?_ .nil
  rw [toNat_byte hn]
  omega

theorem Escapes.append {first second : List UInt8} {e1 e2 : List UInt16} (h1 : Escapes first e1)
    (h2 : Escapes second e2) : Escapes (first ++ second) (e1 ++ e2) := by
  induction h1 with
  | nil => exact h2
  | cons hd1 hd2 hb _ ih => exact .cons hd1 hd2 hb ih

theorem encode_char (noComponent : Bool) (c : Char) (rest : List UInt16) :
    ∃ piece, Piece noComponent piece (utf16Units c.toNat) ∧
      encode noComponent (utf16Units c.toNat ++ rest) =
        (piece ++ ·) <$> encode noComponent rest := by
  have hvalid := c.valid
  have hval : c.val.toNat = c.toNat := rfl
  unfold UInt32.isValidChar Nat.isValidChar at hvalid
  rw [hval] at hvalid
  have hoctets : String.utf8EncodeChar c = String.utf8EncodeChar c := rfl
  conv_rhs at hoctets => unfold String.utf8EncodeChar
  rw [hval] at hoctets
  have hstays := @staysEscaped_high noComponent c
  -- A piece that is escaped, once its octets are found.
  have hpiece : ∀ {escape : List UInt16}, Escapes (String.utf8EncodeChar c) escape →
      staysEscaped noComponent c = false → Piece noComponent escape (utf16Units c.toNat) := by
    intro escape hescape hkept
    have := @Piece.escaped noComponent c escape hescape
    rwa [hkept, if_neg Bool.false_ne_true] at this
  have hcopied : ∀ t : UInt16, 0x80 ≤ t.toNat → ¬ isCopied noComponent t = true := by
    intro t ht h
    have := (isCopied_spec h).1
    omega
  by_cases hpair : 0xffff < c.toNat
  · have hunits : utf16Units c.toNat =
        [.ofNat (c.toNat / 1024 + 0xd7c0), .ofNat (c.toNat % 1024 + 0xdc00)] := if_neg (by omega)
    have hlead : (UInt16.ofNat (c.toNat / 1024 + 0xd7c0)).toNat = c.toNat / 1024 + 0xd7c0 :=
      UInt16.toNat_ofNat_of_lt' (by simp only [UInt16.size]; omega)
    have htrail : (UInt16.ofNat (c.toNat % 1024 + 0xdc00)).toNat = c.toNat % 1024 + 0xdc00 :=
      UInt16.toNat_ofNat_of_lt' (by simp only [UInt16.size]; omega)
    have hindex : (c.toNat / 1024 + 0xd7c0 - 0xD800) * 0x400 + (c.toNat % 1024 + 0xdc00 - 0xDC00) +
        0x10000 = c.toNat := by
      omega
    rw [if_neg (by omega), if_neg (by omega), if_neg (by omega)] at hoctets
    have hescape : Escapes (String.utf8EncodeChar c)
        (convertAndAppendCodeUnit (c.toNat / 262144 % 8 + 0xF0) ++
          convertAndAppendCodeUnit (c.toNat / 4096 % 64 + 0x80) ++
          convertAndAppendCodeUnit (c.toNat / 64 % 64 + 0x80) ++
          convertAndAppendCodeUnit (c.toNat % 64 + 0x80)) := by
      rw [hoctets]
      exact (((escapes_one (by omega)).append (escapes_one (by omega))).append
        (escapes_one (by omega))).append (escapes_one (by omega))
    refine ⟨_, hpiece hescape (hstays (by omega)), ?_⟩
    rw [hunits, cons_append, cons_append, nil_append, encode.eq_def]
    dsimp only
    rw [hlead, if_neg (hcopied _ (by omega)), if_neg (by omega), if_neg (by omega),
      if_neg (by omega), if_pos (by omega), htrail, if_pos (by omega), hindex,
      show (c.toNat &&& 0x1C0000) / 0x40000 = c.toNat / 262144 % 8 from field_eq _ 3 18,
      show (c.toNat &&& 0x3F000) / 0x1000 = c.toNat / 4096 % 64 from field_eq _ 6 12,
      show (c.toNat &&& 0xFC0) / 0x40 = c.toNat / 64 % 64 from field_eq _ 6 6, (low_bits _).2.2.2.1,
      Nat.add_comm 0xF0, Nat.add_comm 0x80, Nat.add_comm 0x80, Nat.add_comm 0x80]
  have hunits : utf16Units c.toNat = [.ofNat c.toNat] := if_pos (by omega)
  have hunit : (UInt16.ofNat c.toNat).toNat = c.toNat :=
    UInt16.toNat_ofNat_of_lt' (by simp only [UInt16.size]; omega)
  rw [hunits, singleton_append, encode.eq_def]
  rw [hunits] at hpiece
  dsimp only
  rw [hunit]
  by_cases hcopy : isCopied noComponent (.ofNat c.toNat) = true
  · rw [if_pos hcopy]
    exact ⟨_, .literal (isCopied_spec hcopy).2, rfl⟩
  rw [if_neg hcopy]
  by_cases hone : c.toNat ≤ 0x7F
  · rw [if_pos hone] at hoctets ⊢
    refine ⟨_, hpiece (hoctets ▸ escapes_one (by omega)) ?_, rfl⟩
    rw [isCopied, Bool.or_eq_true, not_or, Bool.not_eq_true] at hcopy
    rw [staysEscaped, hunits, any_cons, any_nil, Bool.or_false]
    exact Bool.not_eq_true _ ▸ hcopy.2
  rw [if_neg hone] at hoctets ⊢
  by_cases htwo : c.toNat ≤ 0x7ff
  · rw [if_pos htwo] at hoctets
    rw [if_pos (by omega), show (c.toNat &&& 0x7C0) / 0x40 = c.toNat / 64 % 32 from field_eq _ 5 6,
      (low_bits _).2.2.2.1, Nat.add_comm 0xC0, Nat.add_comm 0x80]
    refine ⟨_, hpiece ?_ (hstays (by omega)), rfl⟩
    rw [hoctets]
    exact (escapes_one (by omega)).append (escapes_one (by omega))
  rw [if_neg htwo, if_pos (by omega)] at hoctets
  rw [if_neg (by omega), if_pos (by omega),
    show (c.toNat &&& 0xF000) / 0x1000 = c.toNat / 4096 % 16 from field_eq _ 4 12,
    show (c.toNat &&& 0xFC0) / 0x40 = c.toNat / 64 % 64 from field_eq _ 6 6,
    (low_bits _).2.2.2.1, Nat.add_comm 0xE0, Nat.add_comm 0x80, Nat.add_comm 0x80]
  refine ⟨_, hpiece ?_ (hstays (by omega)), rfl⟩
  rw [hoctets]
  exact ((escapes_one (by omega)).append (escapes_one (by omega))).append (escapes_one (by omega))

theorem char_of_unit (hlead : isLead t = false) (htrail : isTrail t = false) :
    ∃ c : Char, utf16Units c.toNat = [t] := by
  have hlt := t.toNat_lt
  have hvalid : t.toNat.isValidChar := by
    rw [← Bool.not_eq_true, isLead_iff] at hlead
    rw [← Bool.not_eq_true, isTrail_iff] at htrail
    omega
  obtain ⟨c, hc⟩ := exists_char hvalid
  refine ⟨c, ?_⟩
  rw [show c.toNat = t.toNat from hc, utf16Units, if_pos (by omega), UInt16.ofNat_toNat]

theorem char_of_pair {lead trail : UInt16} (hlead : isLead lead = true)
    (htrail : isTrail trail = true) : ∃ c : Char, utf16Units c.toNat = [lead, trail] := by
  obtain ⟨hlow, hhigh, hfirst, hsecond⟩ := supplementary_spec hlead htrail
  obtain ⟨c, hc⟩ := exists_char (show (supplementary lead trail).isValidChar from
    Or.inr ⟨by omega, hhigh⟩)
  refine ⟨c, ?_⟩
  rw [show c.toNat = _ from hc, utf16Units, if_neg (by omega), ← hfirst, ← hsecond,
    UInt16.ofNat_toNat, UInt16.ofNat_toNat]

theorem encode_unpaired (h : isLead t = true ∧ rest.head?.any isTrail = false ∨ isTrail t = true) :
    encode noComponent (t :: rest) = .error .malformedURI := by
  have hrange : 0xd800 ≤ t.toNat ∧ t.toNat < 0xe000 := by
    rcases h with ⟨h, -⟩ | h
    · have := isLead_iff.mp h
      omega
    · have := isTrail_iff.mp h
      omega
  have hcopied : ¬ isCopied noComponent t = true := fun h => by
    have := (isCopied_spec h).1
    omega
  rw [encode.eq_def]
  dsimp only
  rw [if_neg hcopied, if_neg (by omega), if_neg (by omega), if_neg (by omega)]
  rcases h with ⟨hlead, halone⟩ | htrail
  · have := isLead_iff.mp hlead
    rw [if_pos (by omega)]
    match rest with
    | [] => rfl
    | next :: rest =>
      have hnext : isTrail next = false := halone
      rw [← Bool.not_eq_true, isTrail_iff] at hnext
      exact if_neg (by omega)
  · have := isTrail_iff.mp htrail
    rw [if_neg (by omega)]

theorem encode_spec (noComponent : Bool) (s : List UInt16) : if wellFormed s then
      ∃ escaped, encode noComponent s = .ok escaped ∧ Decoded noComponent escaped s
    else encode noComponent s = .error .malformedURI := by
  -- The induction of `wellFormed`: a pair of surrogates is one step.
  have hstep : ∀ (c : Char) (rest : List UInt16), (if wellFormed rest then
        ∃ escaped, encode noComponent rest = .ok escaped ∧ Decoded noComponent escaped rest
      else encode noComponent rest = .error .malformedURI) →
      if wellFormed rest then
        ∃ escaped, encode noComponent (utf16Units c.toNat ++ rest) = .ok escaped ∧
          Decoded noComponent escaped (utf16Units c.toNat ++ rest)
      else encode noComponent (utf16Units c.toNat ++ rest) = .error .malformedURI := by
    intro c rest ih
    obtain ⟨piece, hpiece, hencode⟩ := encode_char noComponent c rest
    rw [hencode]
    by_cases hformed : wellFormed rest = true
    · rw [if_pos hformed] at ih ⊢
      obtain ⟨escaped, hok, hdecoded⟩ := ih
      rw [hok]
      exact ⟨piece ++ escaped, rfl, .cons hpiece hdecoded⟩
    · rw [if_neg hformed] at ih ⊢
      rw [ih]
      rfl
  fun_induction wellFormed s with
  | case1 => exact ⟨[], rfl, .nil⟩
  | case2 t hlead => exact encode_unpaired (.inl ⟨hlead, rfl⟩)
  | case3 t hlead c2 rest ih =>
    by_cases htrail : isTrail c2 = true
    · obtain ⟨c, hc⟩ := char_of_pair hlead htrail
      have := hstep c rest ih
      rw [hc] at this
      rw [htrail, Bool.true_and]
      exact this
    · rw [Bool.not_eq_true] at htrail
      rw [htrail, Bool.false_and, if_neg Bool.false_ne_true]
      exact encode_unpaired (.inl ⟨hlead, htrail⟩)
  | case4 t rest hlead ih =>
    by_cases htrail : isTrail t = true
    · rw [htrail, Bool.not_true, Bool.false_and, if_neg Bool.false_ne_true]
      exact encode_unpaired (.inr htrail)
    · rw [Bool.not_eq_true] at htrail hlead
      obtain ⟨c, hc⟩ := char_of_unit hlead htrail
      have := hstep c rest ih
      rw [hc] at this
      rw [htrail, Bool.not_false, Bool.true_and]
      exact this

/-- The URI codec: `encode` fails on exactly the strings with an unpaired surrogate, and what
it gives any other is decoded to that string; `decode` throws or gives a string made of
code units that are not escapes and of characters whose well-formed UTF-8 was escaped. It
gives no other, and never reads beyond the end. -/
theorem uri_codec (noComponent : Bool) : (∀ s, (encode noComponent s >>= decode noComponent) =
      if wellFormed s then .ok s else .error .malformedURI) ∧
    (∀ s, encode noComponent s = .error .malformedURI ↔ wellFormed s = false) ∧
    (∀ u, decode noComponent u = .error .malformedURI ∨
      ∃ s, decode noComponent u = .ok s ∧ Decoded noComponent u s) ∧
    ∀ u s, decode noComponent u = .ok s ↔ Decoded noComponent u s := by
  refine ⟨fun s => ?_, fun s => ?_, decode_spec noComponent, fun u s => ⟨fun h => ?_,
    decode_decoded⟩⟩
  · have hspec := encode_spec noComponent s
    by_cases hformed : wellFormed s = true
    · rw [if_pos hformed] at hspec ⊢
      obtain ⟨escaped, hok, hdecoded⟩ := hspec
      rw [hok]
      exact decode_decoded hdecoded
    · rw [if_neg hformed] at hspec ⊢
      rw [hspec]
      rfl
  · have hspec := encode_spec noComponent s
    split at hspec
    case isTrue hformed =>
      obtain ⟨escaped, hok, -⟩ := hspec
      rw [hok, hformed]
      simp only [reduceCtorEq]
    case isFalse hformed => exact ⟨fun _ => Bool.not_eq_true _ ▸ hformed, fun _ => hspec⟩
  · rcases decode_spec noComponent u with hbad | ⟨s', hok, hdecoded⟩
    · rw [hbad] at h
      cases h
    · rw [hok] at h
      cases h
      exact hdecoded

end Escargot.Runtime
