/-
# Code points as UTF-16

Three functions write a code point as UTF-16 code units: `utf32ToUtf16` for a
`char32_t` that is appended to a builder, `utf16EncodeCodePoint` for escapes of
regular expressions, and `String::fromCharCode`. `codePointAt` reads one back.
A code point of the surrogate range is replaced by the first and kept by the
other two.
-/

import Escargot.Runtime.Utf8

namespace Escargot.Runtime

open List

/-- The code points `0` to `0x10FFFF`. -/
abbrev CodePoint := Fin 0x110000

def CodePoint.isSurrogate (c : CodePoint) : Bool :=
  decide (0xd800 ≤ c.val) && decide (c.val < 0xe000)

/-- `utf32ToUtf16`: the code units that are written. -/
def utf32ToUtf16 (i : Nat) : List UInt16 :=
  if i ≤ 0xffff then
    if 0xd800 ≤ i ∧ i ≤ 0xdfff then [0xFFFD] else [.ofNat (i &&& 0xffff)]
  else if i ≤ 0x10ffff then
    let i := i - 0x10000
    [.ofNat (0xd800 ||| i >>> 10), .ofNat (0xdc00 ||| (i &&& 0x3ff))]
  else [0xFFFD]

/-- `utf16EncodeCodePoint`: the second code unit is zero where there is none. The comparison
leaves `0xFFFF` to the formula for pairs, where the difference wraps around. -/
def utf16EncodeCodePoint (cp : Nat) : UInt16 × UInt16 :=
  if cp < 0xFFFF then (.ofNat cp, 0)
  else (.ofNat (char32Sub cp 65536 / 1024 + 0xD800), .ofNat (char32Sub cp 65536 % 1024 + 0xDC00))

def appendEncodedCodePoint (cp : Nat) : List UInt16 :=
  if (utf16EncodeCodePoint cp).2 ≠ 0 then [(utf16EncodeCodePoint cp).1, (utf16EncodeCodePoint cp).2]
  else [(utf16EncodeCodePoint cp).1]

def fromCharCode (code : Nat) : EString :=
  if code < 256 then .latin1 [.ofNat code]
  else if code < 0x10000 then .utf16 [.ofNat code]
  else
    .utf16 [.ofNat (0xD800 + (code - 0x10000) >>> 10), .ofNat (0xDC00 + ((code - 0x10000) &&& 1023))]

structure CodePointAtResult where
  codePoint : Nat
  codeUnitCount : Nat
  isUnpairedSurrogate : Bool

/-- `String::codePointAt` of a position in the string. -/
def codePointAt (content : List UInt16) (position : Nat) : CodePointAtResult :=
  let first := content.getD position 0
  if !isLead first && !isTrail first then ⟨first.toNat, 1, false⟩
  else if isTrail first || position + 1 == content.length then ⟨first.toNat, 1, true⟩
  else
    let second := content.getD (position + 1) 0
    if !isTrail second then ⟨first.toNat, 1, true⟩ else ⟨supplementary first second, 2, false⟩

section Pairs

variable {n : Nat}

theorem toNat_unit (h : n < 2 ^ 16) : (UInt16.ofNat n).toNat = n := UInt16.toNat_ofNat_of_lt' h

/-- The first unit of a supplementary code point, however it is computed. -/
theorem lead_or (h : n < 0x100000) : 0xd800 ||| n >>> 10 = n / 1024 + 0xd800 := by
  rw [Nat.shiftRight_eq_div_pow, show (0xd800 : Nat) = 2 ^ 10 * 54 by decide,
    ← Nat.two_pow_add_eq_or_of_lt (show n / 2 ^ 10 < 2 ^ 10 by omega)]
  omega

theorem trail_or : 0xdc00 ||| (n &&& 0x3ff) = n % 1024 + 0xdc00 := by
  rw [show (0x3ff : Nat) = 2 ^ 10 - 1 by decide, Nat.and_two_pow_sub_one_eq_mod,
    show (0xdc00 : Nat) = 2 ^ 10 * 55 by decide,
    ← Nat.two_pow_add_eq_or_of_lt (Nat.mod_lt n (by decide)), Nat.add_comm]

theorem utf16Units_pair (hlow : 0x10000 ≤ n) :
    utf16Units n = [.ofNat ((n - 0x10000) / 1024 + 0xd800), .ofNat ((n - 0x10000) % 1024 + 0xdc00)] := by
  rw [utf16Units, if_neg (by omega), show n / 1024 + 0xd7c0 = (n - 0x10000) / 1024 + 0xd800 by omega,
    show n % 1024 = (n - 0x10000) % 1024 by omega]

theorem isLead_pair (hlow : 0x10000 ≤ n) (hhigh : n < 0x110000) :
    isLead (.ofNat ((n - 0x10000) / 1024 + 0xd800)) = true := by
  rw [isLead_iff, toNat_unit (by omega)]
  omega

theorem isTrail_pair : isTrail (.ofNat ((n - 0x10000) % 1024 + 0xdc00)) = true := by
  rw [isTrail_iff, toNat_unit (by omega)]
  omega

theorem supplementary_pair (hlow : 0x10000 ≤ n) (hhigh : n < 0x110000) :
    supplementary (.ofNat ((n - 0x10000) / 1024 + 0xd800)) (.ofNat ((n - 0x10000) % 1024 + 0xdc00)) =
      n := by
  obtain ⟨hbound, hbound', hlead, htrail⟩ :=
    supplementary_spec (isLead_pair hlow hhigh) (isTrail_pair (n := n))
  rw [toNat_unit (by omega)] at hlead htrail
  omega

end Pairs

variable (c : CodePoint)

theorem content_fromCharCode : (fromCharCode c.val).content = utf16Units c.val := by
  rw [fromCharCode]
  split
  case isTrue hbyte =>
      have hunit : (UInt8.ofNat c.val).toUInt16 = .ofNat c.val := by
        rw [← UInt16.toNat_inj, UInt8.toNat_toUInt16, toNat_byte hbyte, toNat_unit (by omega)]
      rw [utf16Units, if_pos (by omega), ← hunit]
      rfl
  case isFalse =>
      split
      case isTrue hbmp =>
          rw [utf16Units, if_pos (by omega)]
          rfl
      case isFalse hpair =>
          rw [utf16Units_pair (by omega), Nat.shiftRight_eq_div_pow,
            show (1023 : Nat) = 2 ^ 10 - 1 by decide, Nat.and_two_pow_sub_one_eq_mod, Nat.add_comm,
            Nat.add_comm 0xDC00]
          rfl

theorem appendEncodedCodePoint_eq (hc : c.val ≠ 0xFFFF) :
    appendEncodedCodePoint c.val = utf16Units c.val := by
  by_cases hbmp : c.val < 0xFFFF
  · have hpair : utf16EncodeCodePoint c.val = (.ofNat c.val, 0) := if_pos hbmp
    have hunits : utf16Units c.val = [.ofNat c.val] := if_pos (by omega)
    rw [appendEncodedCodePoint, hpair, hunits]
    exact if_neg fun h => h rfl
  · have hpair : utf16EncodeCodePoint c.val = (.ofNat (char32Sub c.val 65536 / 1024 + 0xD800),
          .ofNat (char32Sub c.val 65536 % 1024 + 0xDC00)) := if_neg hbmp
    have hsub : char32Sub c.val 65536 = c.val - 0x10000 := by
      rw [char32Sub]
      omega
    have hsecond : UInt16.ofNat ((c.val - 0x10000) % 1024 + 0xDC00) ≠ 0 := by
      intro h
      have hzero := congrArg UInt16.toNat h
      rw [toNat_unit (by omega)] at hzero
      simp at hzero
    rw [appendEncodedCodePoint, hpair, hsub, utf16Units_pair (by omega)]
    exact if_pos hsecond

theorem utf32ToUtf16_eq :
    utf32ToUtf16 c.val = if c.isSurrogate then [0xFFFD] else utf16Units c.val := by
  have hsurrogate : c.isSurrogate = true ↔ 0xd800 ≤ c.val ∧ c.val < 0xe000 := by
    rw [CodePoint.isSurrogate, Bool.and_eq_true, decide_eq_true_eq, decide_eq_true_eq]
  rw [utf32ToUtf16]
  split
  case isTrue hbmp =>
      by_cases h : c.isSurrogate = true
      · have hs := hsurrogate.mp h
        rw [if_pos h, if_pos (by omega)]
      · have hs : ¬ (0xd800 ≤ c.val ∧ c.val ≤ 0xdfff) := by
          rw [hsurrogate] at h
          omega
        rw [if_neg h, if_neg hs, utf16Units, if_pos hbmp,
          show (0xffff : Nat) = 2 ^ 16 - 1 by decide, Nat.and_two_pow_sub_one_eq_mod,
          Nat.mod_eq_of_lt (by omega)]
  case isFalse hpair =>
      have h : ¬ c.isSurrogate = true := by
        rw [hsurrogate]
        omega
      dsimp only
      rw [if_pos (by omega), if_neg h, utf16Units_pair (by omega), lead_or (by omega), trail_or]

theorem codePointAt_append (before rest : List UInt16) :
    codePointAt (before ++ rest) before.length = codePointAt rest 0 := by
  have hend : (before.length + 1 == (before ++ rest).length) = (0 + 1 == rest.length) := by
    rw [Bool.eq_iff_iff, beq_iff_eq, beq_iff_eq, length_append]
    omega
  have hfirst : (before ++ rest).getD before.length 0 = rest.getD 0 0 := by
    rw [getD_append_right _ _ _ _ (Nat.le_refl _), Nat.sub_self]
  have hsecond : (before ++ rest).getD (before.length + 1) 0 = rest.getD (0 + 1) 0 := by
    rw [getD_append_right _ _ _ _ (Nat.le_succ _), Nat.succ_sub (Nat.le_refl _), Nat.sub_self]
  rw [codePointAt, codePointAt, hend, hfirst, hsecond]

theorem codePointAt_utf16Units (after : List UInt16)
    (hafter : ∀ t rest, after = t :: rest → isTrail t = true →
      ¬ (0xd800 ≤ c.val ∧ c.val < 0xdc00)) :
    codePointAt (utf16Units c.val ++ after) 0 =
      ⟨c.val, (utf16Units c.val).length, c.isSurrogate⟩ := by
  have hlt := c.isLt
  by_cases hbmp : c.val ≤ 0xffff
  · have hunits : utf16Units c.val = [.ofNat c.val] := if_pos hbmp
    have hunit : (UInt16.ofNat c.val).toNat = c.val := toNat_unit (by omega)
    have hlead : isLead (.ofNat c.val) = decide (0xd800 ≤ c.val ∧ c.val < 0xdc00) := by
      rw [Bool.eq_iff_iff, isLead_iff, hunit, decide_eq_true_eq]
    have htrail : isTrail (.ofNat c.val) = decide (0xdc00 ≤ c.val ∧ c.val < 0xe000) := by
      rw [Bool.eq_iff_iff, isTrail_iff, hunit, decide_eq_true_eq]
    have hsurrogate : c.isSurrogate = decide (0xd800 ≤ c.val ∧ c.val < 0xe000) := by
      rw [CodePoint.isSurrogate, Bool.decide_and]
    rw [hunits, singleton_append, codePointAt, getD_cons_zero, hunit, hlead, htrail, hsurrogate]
    by_cases hl : 0xd800 ≤ c.val ∧ c.val < 0xdc00
    · rw [decide_eq_true hl, decide_eq_false (show ¬ (0xdc00 ≤ c.val ∧ c.val < 0xe000) by omega),
        decide_eq_true (show 0xd800 ≤ c.val ∧ c.val < 0xe000 by omega)]
      cases after with
      | nil => rfl
      | cons t rest =>
        have hfree : isTrail t = false := by
          rw [← Bool.not_eq_true]
          exact fun h => hafter t rest rfl h hl
        dsimp only
        rw [getD_cons_succ, getD_cons_zero, hfree]
        split
        · rename_i hfirst
          cases hfirst
        · split <;> rfl
    · by_cases ht : 0xdc00 ≤ c.val ∧ c.val < 0xe000
      · rw [decide_eq_false hl, decide_eq_true ht,
          decide_eq_true (show 0xd800 ≤ c.val ∧ c.val < 0xe000 by omega)]
        rfl
      · rw [decide_eq_false hl, decide_eq_false ht,
          decide_eq_false (show ¬ (0xd800 ≤ c.val ∧ c.val < 0xe000) by omega)]
        rfl
  · have hsurrogate : c.isSurrogate = false := by
      rw [CodePoint.isSurrogate, Bool.and_eq_false_iff, decide_eq_false_iff_not,
        decide_eq_false_iff_not]
      omega
    have hlead := isLead_pair (n := c.val) (by omega) hlt
    have htrail := isTrail_pair (n := c.val)
    have hnot : isTrail (.ofNat ((c.val - 0x10000) / 1024 + 0xd800)) = false := by
      rw [← Bool.not_eq_true, isTrail_iff, toNat_unit (by omega)]
      omega
    have hvalue := supplementary_pair (n := c.val) (by omega) hlt
    rw [utf16Units_pair (by omega), hsurrogate]
    simp only [cons_append, nil_append, codePointAt, getD_cons_zero,
      getD_cons_succ, hlead, htrail, hnot, hvalue, length_cons]
    rfl

/-- Every code point outside the surrogate range is written alike, except that nothing is said of
`utf16EncodeCodePoint` at `U+FFFF`, and read back in any string. A surrogate is replaced by
`utf32ToUtf16` and kept by the others, and read back unless it is completed to a pair. -/
theorem utf16_encoders_agree : (fromCharCode c.val).content = utf16Units c.val ∧
      (c.val ≠ 0xFFFF → appendEncodedCodePoint c.val = utf16Units c.val) ∧
      utf32ToUtf16 c.val = (if c.isSurrogate then [0xFFFD] else utf16Units c.val) ∧
      ∀ before after : List UInt16,
        (∀ t rest, after = t :: rest → isTrail t = true → ¬ (0xd800 ≤ c.val ∧ c.val < 0xdc00)) →
        codePointAt (before ++ (utf16Units c.val ++ after)) before.length =
          ⟨c.val, (utf16Units c.val).length, c.isSurrogate⟩ := by
  refine ⟨content_fromCharCode c, appendEncodedCodePoint_eq c, utf32ToUtf16_eq c, ?_⟩
  intro before after hafter
  rw [codePointAt_append]
  exact codePointAt_utf16Units c after hafter

/-- The three encoders do not agree on `U+D800`, which is no character, and a trail surrogate
after it makes another code point of it. -/
theorem surrogate_encoders_differ :
    ¬ ∀ c : CodePoint, utf32ToUtf16 c.val = (fromCharCode c.val).content ∧
      appendEncodedCodePoint c.val = (fromCharCode c.val).content ∧
      ∀ before after : List UInt16,
        codePointAt (before ++ ((fromCharCode c.val).content ++ after)) before.length =
          ⟨c.val, (fromCharCode c.val).content.length, c.isSurrogate⟩ := by
  intro hall
  have hagree : utf32ToUtf16 0xd800 = (fromCharCode 0xd800).content := (hall ⟨0xd800, by decide⟩).1
  exact absurd hagree (by decide)

end Escargot.Runtime
