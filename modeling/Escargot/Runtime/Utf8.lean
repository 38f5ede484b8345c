/-
# UTF-8 encoding and decoding

A string is written as UTF-8 code point by code point, and UTF-8 is read back
into UTF-16 code units. The two are separate code with their own arithmetic; a
`char` keeps the low eight bits of what is assigned to it. Code points are `Nat`
below `2 ^ 32`.
-/

import Escargot.Runtime.String

namespace Escargot.Runtime

open List

/-- `U16_IS_LEAD`. -/
def isLead (c : UInt16) : Bool := c.toNat &&& 0xfffffc00 == 0xd800

/-- `U16_IS_TRAIL`. -/
def isTrail (c : UInt16) : Bool := c.toNat &&& 0xfffffc00 == 0xdc00

/-- `U16_SURROGATE_OFFSET`. -/
def surrogateOffset : Nat := (0xd800 <<< 10) + 0xdc00 - 0x10000

/-- `U16_GET_SUPPLEMENTARY`. -/
def supplementary (lead trail : UInt16) : Nat := (lead.toNat <<< 10) + trail.toNat - surrogateOffset

/-- No surrogate is alone. -/
def wellFormed : List UInt16 → Bool
  | [] => true
  | c :: rest =>
    if isLead c then
      match rest with
      | [] => false
      | c2 :: rest => isTrail c2 && wellFormed rest
    else !isTrail c && wellFormed rest

def codePoints : List UInt16 → List Nat
  | [] => []
  | c :: rest =>
    if isLead c then
      match rest with
      | [] => [c.toNat]
      | c2 :: rest =>
        if isTrail c2 then supplementary c c2 :: codePoints rest
        else c.toNat :: codePoints (c2 :: rest)
    else c.toNat :: codePoints rest

/-- The branch of `utf32ToUtf8` for three bytes. -/
def threeBytes (uc : Nat) : List UInt8 :=
  [.ofNat (0xe0 + uc / 2 ^ 12), .ofNat (0x80 + uc / 2 ^ 6 % 2 ^ 6), .ofNat (0x80 + uc % 2 ^ 6)]

/-- `utf32ToUtf8`. The upper bytes of the longer forms are reduced by the wrong powers. -/
def utf32ToUtf8 (uc : Nat) : List UInt8 :=
  if uc ≤ 0x7f then [.ofNat uc]
  else if uc ≤ 0x7ff then [.ofNat (0xc0 + uc / 2 ^ 6), .ofNat (0x80 + uc % 2 ^ 6)]
  else if uc ≤ 0xffff then threeBytes uc
  else if uc ≤ 0x1fffff then
    [.ofNat (0xf0 + uc / 2 ^ 18), .ofNat (0x80 + uc / 2 ^ 12 % 2 ^ 12),
      .ofNat (0x80 + uc / 2 ^ 6 % 2 ^ 6), .ofNat (0x80 + uc % 2 ^ 6)]
  else if uc ≤ 0x3ffffff then
    [.ofNat (0xf8 + uc / 2 ^ 24), .ofNat (0x80 + uc / 2 ^ 18 % 2 ^ 18),
      .ofNat (0x80 + uc / 2 ^ 12 % 2 ^ 12), .ofNat (0x80 + uc / 2 ^ 6 % 2 ^ 6),
      .ofNat (0x80 + uc % 2 ^ 6)]
  else if uc ≤ 0x7fffffff then
    [.ofNat (0xfc + uc / 2 ^ 30), .ofNat (0x80 + uc / 2 ^ 24 % 2 ^ 24),
      .ofNat (0x80 + uc / 2 ^ 18 % 2 ^ 18), .ofNat (0x80 + uc / 2 ^ 12 % 2 ^ 12),
      .ofNat (0x80 + uc / 2 ^ 6 % 2 ^ 6), .ofNat (0x80 + uc % 2 ^ 6)]
  else threeBytes 0xFFFD

/-- `toUTF8String` on the code units that `charAt` reads. -/
def toUTF8Units (replaceInvalidUtf8 : Bool) : List UInt16 → List UInt8
  | [] => []
  | ch :: rest =>
    if ch.toNat < 0x80 then .ofNat ch.toNat :: toUTF8Units replaceInvalidUtf8 rest
    else if isLead ch then
      match rest with
      | [] => utf32ToUtf8 (if replaceInvalidUtf8 then 0xFFFD else ch.toNat)
      | c2 :: rest =>
        if isTrail c2 then
          utf32ToUtf8 (supplementary ch c2) ++ toUTF8Units replaceInvalidUtf8 rest
        else
          utf32ToUtf8 (if replaceInvalidUtf8 then 0xFFFD else ch.toNat) ++
            toUTF8Units replaceInvalidUtf8 (c2 :: rest)
    else if replaceInvalidUtf8 && isTrail ch then
      utf32ToUtf8 0xFFFD ++ toUTF8Units replaceInvalidUtf8 rest
    else utf32ToUtf8 ch.toNat ++ toUTF8Units replaceInvalidUtf8 rest

variable (data : StringBufferAccessData) (replaceInvalidUtf8 : Bool)

def StringBufferAccessData.toUTF8String : List UInt8 := toUTF8Units replaceInvalidUtf8 data.units

/-- A difference of two `char32_t`. -/
def char32Sub (a b : Nat) : Nat := (a + 2 ^ 32 - b) % 2 ^ 32

def offsetsFromUTF8 : List Nat :=
  [0x00000000, 0x00003080, 0x000E2080, 0x03C82080, 0xFA082080, 0x82082080]

/-- The end of `readUTF8Sequence`, in `char32_t` arithmetic. -/
def sumUTF8 (bytes : List UInt8) : Nat :=
  let ch := bytes.foldl (fun ch byte => (ch * 2 ^ 6 % 2 ^ 32 + byte.toNat) % 2 ^ 32) 0
  char32Sub ch (offsetsFromUTF8.getD (bytes.length - 1) 0)

/-- `readUTF8Sequence` from a byte and those that remain: the code point and its length
if the sequence is valid, and then it is the bytes read. Otherwise one byte is read. -/
def readUTF8Sequence (sch : UInt8) (remaining : List UInt8) : Option (Nat × Nat) :=
  if sch &&& 0x80 = 0 then some (sumUTF8 [sch], 1)
  else
    match remaining with
    | [] => none
    | ch2 :: remaining =>
      if sch &&& 0xE0 = 0xC0 ∧ ch2 &&& 0xC0 = 0x80 then some (sumUTF8 [sch, ch2], 2)
      else
        match remaining with
        | [] => none
        | ch3 :: remaining =>
          if sch &&& 0xF0 = 0xE0 ∧ ch2 &&& 0xC0 = 0x80 ∧ ch3 &&& 0xC0 = 0x80 then
            some (sumUTF8 [sch, ch2, ch3], 3)
          else
            match remaining with
            | [] => none
            | ch4 :: _ =>
              if sch &&& 0xF8 = 0xF0 ∧ ch2 &&& 0xC0 = 0x80 ∧ ch3 &&& 0xC0 = 0x80 ∧
                  ch4 &&& 0xC0 = 0x80 then
                some (sumUTF8 [sch, ch2, ch3, ch4], 4)
              else none

/-- The loop of `utf8StringToUTF16StringNonGC`, which first skips the bytes of a sequence
that was read. A sequence that is rejected is given back except for its first byte. -/
def utf8Loop : Nat → List UInt8 → List UInt16
  | _, [] => []
  | skip + 1, _ :: rest => utf8Loop skip rest
  | 0, c :: rest =>
    if c.toNat < 0x80 then .ofNat c.toNat :: utf8Loop 0 rest
    else
      match readUTF8Sequence c rest with
      | none => 0xFFFD :: utf8Loop 0 rest
      | some (ch, charlen) =>
        if ch ≤ 0xffff then
          if ch &&& 0xfffff800 = 0xd800 then 0xFFFD :: utf8Loop 0 rest
          else .ofNat ch :: utf8Loop (charlen - 1) rest
        else if char32Sub ch 0x10000 ≤ 0xfffff then
          .ofNat ((ch >>> 10) + 0xd7c0) :: .ofNat ((ch &&& 0x3ff) ||| 0xdc00) ::
            utf8Loop (charlen - 1) rest
        else 0xFFFD :: utf8Loop 0 rest

def utf8StringToUTF16String (buf : List UInt8) : List UInt16 := utf8Loop 0 buf

theorem land_mask (k w n : Nat) : n &&& ((2 ^ w - 1) <<< k) = n / 2 ^ k % 2 ^ w * 2 ^ k := by
  apply Nat.eq_of_testBit_eq
  intro i
  rw [← Nat.shiftLeft_eq, Nat.testBit_and, Nat.testBit_shiftLeft, Nat.testBit_shiftLeft,
    Nat.testBit_two_pow_sub_one, Nat.testBit_mod_two_pow, ← Nat.shiftRight_eq_div_pow,
    Nat.testBit_shiftRight]
  by_cases h : k ≤ i
  · rw [decide_eq_true (show i ≥ k from h), Nat.add_sub_cancel' h]
    simp [Bool.and_comm]
  · rw [decide_eq_false h]
    simp

variable {n : Nat}

theorem land_surrogate {base : Nat} (hn : n < 2 ^ 16) (hbase : base % 1024 = 0) :
    n &&& 0xfffffc00 = base ↔ base ≤ n ∧ n < base + 1024 := by
  rw [show (0xfffffc00 : Nat) = (2 ^ 22 - 1) <<< 10 by decide, land_mask, Nat.mod_eq_of_lt (by omega)]
  omega

variable {c : UInt16}

theorem isLead_iff : isLead c = true ↔ 0xd800 ≤ c.toNat ∧ c.toNat < 0xdc00 := by
  rw [isLead, beq_iff_eq]
  exact land_surrogate c.toNat_lt rfl

theorem isTrail_iff : isTrail c = true ↔ 0xdc00 ≤ c.toNat ∧ c.toNat < 0xe000 := by
  rw [isTrail, beq_iff_eq]
  exact land_surrogate c.toNat_lt rfl

theorem land_surrogates (hn : n < 2 ^ 16) :
    n &&& 0xfffff800 = 0xd800 ↔ 0xd800 ≤ n ∧ n < 0xe000 := by
  rw [show (0xfffff800 : Nat) = (2 ^ 21 - 1) <<< 11 by decide, land_mask, Nat.mod_eq_of_lt (by omega)]
  omega

/-- A pair of surrogates stands for a supplementary code point. -/
theorem supplementary_spec {lead trail : UInt16} (hlead : isLead lead = true)
    (htrail : isTrail trail = true) :
    0x10000 ≤ supplementary lead trail ∧ supplementary lead trail < 0x110000 ∧
      lead.toNat = supplementary lead trail / 1024 + 0xd7c0 ∧
      trail.toNat = supplementary lead trail % 1024 + 0xdc00 := by
  have hlead' := isLead_iff.mp hlead
  have htrail' := isTrail_iff.mp htrail
  have hvalue : supplementary lead trail = lead.toNat * 1024 + trail.toNat - 56613888 := by
    rw [supplementary, Nat.shiftLeft_eq, show surrogateOffset = 56613888 by decide]
  generalize supplementary lead trail = v at hvalue ⊢
  omega

theorem byte_masks : ∀ m < 256, (UInt8.ofNat m &&& 0x80 = 0 ↔ m < 0x80) ∧
    (UInt8.ofNat m &&& 0xC0 = 0x80 ↔ 0x80 ≤ m ∧ m < 0xC0) ∧
    (UInt8.ofNat m &&& 0xE0 = 0xC0 ↔ 0xC0 ≤ m ∧ m < 0xE0) ∧
    (UInt8.ofNat m &&& 0xF0 = 0xE0 ↔ 0xE0 ≤ m ∧ m < 0xF0) ∧
    (UInt8.ofNat m &&& 0xF8 = 0xF0 ↔ 0xF0 ≤ m ∧ m < 0xF8) := by
  decide +kernel

theorem toNat_byte {m : Nat} (hm : m < 256) : (UInt8.ofNat m).toNat = m :=
  UInt8.toNat_ofNat_of_lt' hm

theorem sumUTF8_two {a b n : Nat} (ha : a < 256) (hb : b < 256) (hn : a * 2 ^ 6 + b = 0x3080 + n) :
    sumUTF8 [.ofNat a, .ofNat b] = n := by
  have hsum : sumUTF8 [.ofNat a, .ofNat b] = char32Sub
      (((0 * 2 ^ 6 % 2 ^ 32 + a) % 2 ^ 32 * 2 ^ 6 % 2 ^ 32 + b) % 2 ^ 32) 0x3080 := by
    simp only [sumUTF8, foldl_cons, foldl_nil, toNat_byte ha, toNat_byte hb]
    rfl
  rw [hsum, char32Sub]
  omega

theorem sumUTF8_three {a b c n : Nat} (ha : a < 256) (hb : b < 256) (hc : c < 256)
    (hn : a * 2 ^ 12 + b * 2 ^ 6 + c = 0xE2080 + n) :
    sumUTF8 [.ofNat a, .ofNat b, .ofNat c] = n := by
  have hsum : sumUTF8 [.ofNat a, .ofNat b, .ofNat c] = char32Sub
      ((((0 * 2 ^ 6 % 2 ^ 32 + a) % 2 ^ 32 * 2 ^ 6 % 2 ^ 32 + b) % 2 ^ 32 * 2 ^ 6 % 2 ^ 32 + c) %
        2 ^ 32) 0xE2080 := by
    simp only [sumUTF8, foldl_cons, foldl_nil, toNat_byte ha, toNat_byte hb, toNat_byte hc]
    rfl
  rw [hsum, char32Sub]
  omega

theorem sumUTF8_four {a b c d n : Nat} (ha : a < 256) (hb : b < 256) (hc : c < 256) (hd : d < 256)
    (hn : a * 2 ^ 18 + b * 2 ^ 12 + c * 2 ^ 6 + d = 0x3C82080 + n) :
    sumUTF8 [.ofNat a, .ofNat b, .ofNat c, .ofNat d] = n := by
  have hsum : sumUTF8 [.ofNat a, .ofNat b, .ofNat c, .ofNat d] = char32Sub
      (((((0 * 2 ^ 6 % 2 ^ 32 + a) % 2 ^ 32 * 2 ^ 6 % 2 ^ 32 + b) % 2 ^ 32 * 2 ^ 6 % 2 ^ 32 + c) %
        2 ^ 32 * 2 ^ 6 % 2 ^ 32 + d) % 2 ^ 32) 0x3C82080 := by
    simp only [sumUTF8, foldl_cons, foldl_nil, toNat_byte ha, toNat_byte hb,
      toNat_byte hc, toNat_byte hd]
    rfl
  rw [hsum, char32Sub]
  omega

theorem read_two (hlow : 0x80 ≤ n) (hhigh : n ≤ 0x7ff) (rest : List UInt8) :
    readUTF8Sequence (.ofNat (0xc0 + n / 2 ^ 6)) (.ofNat (0x80 + n % 2 ^ 6) :: rest) =
      some (n, 2) := by
  obtain ⟨h1, -, h3, -⟩ := byte_masks (0xc0 + n / 2 ^ 6) (by omega)
  obtain ⟨-, h2, -⟩ := byte_masks (0x80 + n % 2 ^ 6) (by omega)
  unfold readUTF8Sequence
  rw [if_neg (by rw [h1]; omega)]
  dsimp only
  rw [if_pos ⟨h3.mpr (by omega), h2.mpr (by omega)⟩,
    @sumUTF8_two _ _ n (by omega) (by omega) (by omega)]

theorem read_three (hlow : 0x800 ≤ n) (hhigh : n ≤ 0xffff) (rest : List UInt8) :
    readUTF8Sequence (.ofNat (0xe0 + n / 2 ^ 12))
      (.ofNat (0x80 + n / 2 ^ 6 % 2 ^ 6) :: .ofNat (0x80 + n % 2 ^ 6) :: rest) =
      some (n, 3) := by
  obtain ⟨h1, -, h3, h4, -⟩ := byte_masks (0xe0 + n / 2 ^ 12) (by omega)
  obtain ⟨-, h2, -⟩ := byte_masks (0x80 + n / 2 ^ 6 % 2 ^ 6) (by omega)
  obtain ⟨-, h5, -⟩ := byte_masks (0x80 + n % 2 ^ 6) (by omega)
  unfold readUTF8Sequence
  rw [if_neg (by rw [h1]; omega)]
  dsimp only
  rw [if_neg (by rw [h3]; omega), if_pos ⟨h4.mpr (by omega), h2.mpr (by omega), h5.mpr (by omega)⟩,
    @sumUTF8_three _ _ _ n (by omega) (by omega) (by omega) (by omega)]

theorem read_four (hlow : 0x10000 ≤ n) (hhigh : n < 0x110000) (rest : List UInt8) :
    readUTF8Sequence (.ofNat (0xf0 + n / 2 ^ 18))
      (.ofNat (0x80 + n / 2 ^ 12 % 2 ^ 6) :: .ofNat (0x80 + n / 2 ^ 6 % 2 ^ 6) ::
        .ofNat (0x80 + n % 2 ^ 6) :: rest) = some (n, 4) := by
  obtain ⟨h1, -, h3, h4, h5⟩ := byte_masks (0xf0 + n / 2 ^ 18) (by omega)
  obtain ⟨-, h6, -⟩ := byte_masks (0x80 + n / 2 ^ 12 % 2 ^ 6) (by omega)
  obtain ⟨-, h7, -⟩ := byte_masks (0x80 + n / 2 ^ 6 % 2 ^ 6) (by omega)
  obtain ⟨-, h8, -⟩ := byte_masks (0x80 + n % 2 ^ 6) (by omega)
  unfold readUTF8Sequence
  rw [if_neg (by rw [h1]; omega)]
  dsimp only
  rw [if_neg (by rw [h3]; omega), if_neg (by rw [h4]; omega),
    if_pos ⟨h5.mpr (by omega), h6.mpr (by omega), h7.mpr (by omega), h8.mpr (by omega)⟩,
    @sumUTF8_four _ _ _ _ n (by omega) (by omega) (by omega) (by omega) (by omega)]

/-- A first byte of four whose second is no continuation is rejected. -/
theorem read_broken {a b : Nat} (ha : 0xf0 ≤ a) (ha' : a < 256) (hb : b < 256)
    (hbroken : b < 0x80 ∨ 0xC0 ≤ b) (rest : List UInt8) :
    readUTF8Sequence (.ofNat a) (.ofNat b :: rest) = none := by
  obtain ⟨h1, -, h3, h4, -⟩ := byte_masks a ha'
  obtain ⟨-, h2, -⟩ := byte_masks b hb
  have hcontinuation : ¬ UInt8.ofNat b &&& 0xC0 = 0x80 := by
    rw [h2]
    omega
  unfold readUTF8Sequence
  rw [if_neg (by rw [h1]; omega)]
  dsimp only
  rw [if_neg fun h => hcontinuation h.2]
  cases rest with
  | nil => rfl
  | cons c rest =>
    dsimp only
    rw [if_neg fun h => hcontinuation h.2.1]
    cases rest with
    | nil => rfl
    | cons d rest =>
      dsimp only
      rw [if_neg fun h => hcontinuation h.2.1]

/-- The code units of a code point. -/
def utf16Units (n : Nat) : List UInt16 :=
  if n ≤ 0xffff then [.ofNat n] else [.ofNat (n / 1024 + 0xd7c0), .ofNat (n % 1024 + 0xdc00)]

theorem utf8Loop_skip (k : Nat) (bytes : List UInt8) :
    utf8Loop k bytes = utf8Loop 0 (bytes.drop k) := by
  induction bytes generalizing k with
  | nil => cases k <;> rfl
  | cons c rest ih =>
    cases k with
    | zero => rfl
    | succ k => exact ih k

/-- A valid sequence of a code point that is no surrogate is decoded. -/
theorem utf8Loop_read {c : UInt8} {rest : List UInt8} {charlen : Nat} (hc : 0x80 ≤ c.toNat)
    (hread : readUTF8Sequence c rest = some (n, charlen)) (hn : n < 0x110000)
    (hsurrogate : ¬ (0xd800 ≤ n ∧ n < 0xe000)) :
    utf8Loop 0 (c :: rest) = utf16Units n ++ utf8Loop 0 (rest.drop (charlen - 1)) := by
  rw [utf8Loop, if_neg (Nat.not_lt.mpr hc), hread, utf16Units]
  dsimp only
  by_cases hbmp : n ≤ 0xffff
  · rw [if_pos hbmp, if_pos hbmp, if_neg, utf8Loop_skip]
    · rfl
    · rw [land_surrogates (Nat.lt_succ_of_le hbmp)]
      exact hsurrogate
  · have hsub : char32Sub n 0x10000 ≤ 0xfffff := by
      rw [char32Sub]
      omega
    have htrail : (n &&& 0x3ff) ||| 0xdc00 = n % 1024 + 0xdc00 := by
      rw [show (0x3ff : Nat) = 2 ^ 10 - 1 by decide, Nat.and_two_pow_sub_one_eq_mod, Nat.or_comm,
        show (0xdc00 : Nat) = 2 ^ 10 * 55 by decide,
        ← Nat.two_pow_add_eq_or_of_lt (Nat.mod_lt n (by decide)), Nat.add_comm]
    rw [if_neg hbmp, if_neg hbmp, if_pos hsub, htrail, utf8Loop_skip, Nat.shiftRight_eq_div_pow]
    rfl

/-- The code points whose four bytes have a wrong second byte. -/
def isMisencoded (n : Nat) : Bool := decide (0x40000 ≤ n) && decide (n < 0x100000)

def standardFourBytes (n : Nat) : List UInt8 :=
  [.ofNat (0xf0 + n / 2 ^ 18), .ofNat (0x80 + n / 2 ^ 12 % 2 ^ 6),
    .ofNat (0x80 + n / 2 ^ 6 % 2 ^ 6), .ofNat (0x80 + n % 2 ^ 6)]

theorem byte_congr {a b : Nat} : UInt8.ofNat a = UInt8.ofNat b ↔ a % 256 = b % 256 := by
  rw [← UInt8.toNat_inj, UInt8.toNat_ofNat', UInt8.toNat_ofNat']

/-- The four bytes are the standard ones exactly below `0x40000` and from `0x100000` on,
where the missing reduction does not show in eight bits. -/
theorem utf32ToUtf8_four (hlow : 0x10000 ≤ n) (hhigh : n < 0x110000) :
    utf32ToUtf8 n = standardFourBytes n ↔ isMisencoded n = false := by
  rw [utf32ToUtf8, if_neg (by omega), if_neg (by omega), if_neg (by omega), if_pos (by omega),
    standardFourBytes, List.cons.injEq, List.cons.injEq, byte_congr, byte_congr, isMisencoded,
    Bool.and_eq_false_iff, decide_eq_false_iff_not, decide_eq_false_iff_not]
  constructor
  · rintro ⟨-, hsecond, -⟩
    omega
  · intro h
    exact ⟨rfl, by omega, rfl⟩

theorem utf8Loop_utf32ToUtf8 (hn : n < 0x110000) (hsurrogate : ¬ (0xd800 ≤ n ∧ n < 0xe000))
    (hgood : isMisencoded n = false) (rest : List UInt8) :
    utf8Loop 0 (utf32ToUtf8 n ++ rest) = utf16Units n ++ utf8Loop 0 rest := by
  have hfirst : ∀ {m : Nat}, 0x80 ≤ m → m < 256 → 0x80 ≤ (UInt8.ofNat m).toNat := by
    intro m hm hm'
    rwa [toNat_byte hm']
  by_cases h1 : n ≤ 0x7f
  · rw [utf32ToUtf8, if_pos h1, utf16Units, if_pos (by omega), singleton_append, utf8Loop,
      toNat_byte (by omega), if_pos (by omega)]
    rfl
  by_cases h2 : n ≤ 0x7ff
  · rw [utf32ToUtf8, if_neg h1, if_pos h2]
    exact utf8Loop_read (hfirst (by omega) (by omega)) (read_two (by omega) h2 rest) hn hsurrogate
  by_cases h3 : n ≤ 0xffff
  · rw [utf32ToUtf8, if_neg h1, if_neg h2, if_pos h3]
    exact utf8Loop_read (hfirst (by omega) (by omega)) (read_three (by omega) h3 rest) hn
      hsurrogate
  · rw [(utf32ToUtf8_four (by omega) hn).mpr hgood]
    exact utf8Loop_read (hfirst (by omega) (by omega)) (read_four (by omega) hn rest) hn hsurrogate

/-- A code point that is not comes back as a replacement character first. -/
theorem utf8Loop_misencoded (hbad : isMisencoded n = true) (rest : List UInt8) :
    ∃ more, utf8Loop 0 (utf32ToUtf8 n ++ rest) = 0xFFFD :: more := by
  rw [isMisencoded, Bool.and_eq_true, decide_eq_true_eq, decide_eq_true_eq] at hbad
  have hsecond : UInt8.ofNat (0x80 + n / 2 ^ 12 % 2 ^ 12) =
      UInt8.ofNat ((0x80 + n / 2 ^ 12) % 256) := byte_congr.mpr (by omega)
  rw [utf32ToUtf8, if_neg (by omega), if_neg (by omega), if_neg (by omega), if_pos (by omega),
    hsecond, cons_append, utf8Loop, toNat_byte (by omega), if_neg (by omega),
    cons_append, read_broken (by omega) (by omega) (by omega) (by omega)]
  exact ⟨_, rfl⟩

theorem wellFormed_cons {rest : List UInt16} (h : wellFormed (c :: rest) = true) :
    ∃ n units, n < 0x110000 ∧ ¬ (0xd800 ≤ n ∧ n < 0xe000) ∧ wellFormed units = true ∧
      units.length < (c :: rest).length ∧ c :: rest = utf16Units n ++ units ∧
      codePoints (c :: rest) = n :: codePoints units ∧
      ∀ replaceInvalidUtf8, toUTF8Units replaceInvalidUtf8 (c :: rest) =
        utf32ToUtf8 n ++ toUTF8Units replaceInvalidUtf8 units := by
  have hc := c.toNat_lt
  by_cases hlead : isLead c = true
  · cases rest with
    | nil =>
      rw [wellFormed, if_pos hlead] at h
      cases h
    | cons c2 rest =>
      rw [wellFormed, if_pos hlead, Bool.and_eq_true] at h
      obtain ⟨htrail, hrest⟩ := h
      obtain ⟨hlow, hhigh, hfirst, hsecond⟩ := supplementary_spec hlead htrail
      refine ⟨supplementary c c2, rest, hhigh, by omega, hrest, ?_, ?_, ?_, fun _ => ?_⟩
      · exact Nat.lt_succ_of_lt (Nat.lt_succ_self _)
      · rw [utf16Units, if_neg (by omega), ← hfirst, ← hsecond, UInt16.ofNat_toNat,
          UInt16.ofNat_toNat]
        rfl
      · rw [codePoints, if_pos hlead]
        exact if_pos htrail
      · rw [toUTF8Units, if_neg (by have := isLead_iff.mp hlead; omega), if_pos hlead]
        exact if_pos htrail
  · unfold wellFormed at h
    rw [if_neg hlead, Bool.and_eq_true, Bool.not_eq_true'] at h
    · obtain ⟨htrail, hrest⟩ := h
      refine ⟨c.toNat, rest, by omega, ?_, hrest, Nat.lt_succ_self _, ?_, ?_, fun _ => ?_⟩
      · rw [isLead_iff] at hlead
        rw [← Bool.not_eq_true, isTrail_iff] at htrail
        omega
      · rw [utf16Units, if_pos (by omega), UInt16.ofNat_toNat]
        rfl
      · rw [codePoints.eq_def]
        exact if_neg hlead
      · rw [toUTF8Units.eq_def]
        dsimp only
        split
        · rw [utf32ToUtf8, if_pos (by omega)]
          rfl
        · rw [htrail, Bool.and_false, if_neg Bool.false_ne_true]

theorem codePoints_lt : ∀ {s : List UInt16}, wellFormed s = true → ∀ n ∈ codePoints s, n < 0x110000
  | [], _, n, hn => by cases hn
  | c :: rest, h, n, hn => by
      obtain ⟨m, units, hm, -, hunits, hlength, -, hpoints, -⟩ := wellFormed_cons h
      rw [hpoints] at hn
      rcases List.mem_cons.mp hn with rfl | hn
      · exact hm
      · exact codePoints_lt hunits n hn
termination_by s => s.length
decreasing_by exact hlength

theorem utf8Loop_toUTF8Units (replaceInvalidUtf8 : Bool) :
    ∀ {s : List UInt16}, wellFormed s = true → (∀ n ∈ codePoints s, isMisencoded n = false) →
      utf8Loop 0 (toUTF8Units replaceInvalidUtf8 s) = s
  | [], _, _ => rfl
  | c :: rest, h, hgood => by
      obtain ⟨n, units, hn, hsurrogate, hunits, hlength, hsplit, hpoints, hbytes⟩ :=
        wellFormed_cons h
      rw [hpoints] at hgood
      rw [hbytes, utf8Loop_utf32ToUtf8 hn hsurrogate (hgood n mem_cons_self),
        utf8Loop_toUTF8Units replaceInvalidUtf8 hunits (fun m hm => hgood m (mem_cons_of_mem n hm)),
        hsplit]
termination_by s => s.length
decreasing_by exact hlength

/-- A string with a code point that is not does not come back: the first of them does
not. -/
theorem utf8Loop_toUTF8Units_ne (replaceInvalidUtf8 : Bool) :
    ∀ {s : List UInt16}, wellFormed s = true → (∃ n ∈ codePoints s, isMisencoded n = true) →
      utf8Loop 0 (toUTF8Units replaceInvalidUtf8 s) ≠ s
  | [], _, hbad => by
      obtain ⟨n, hn, -⟩ := hbad
      cases hn
  | c :: rest, h, hbad => by
      obtain ⟨n, units, hn, hsurrogate, hunits, hlength, hsplit, hpoints, hbytes⟩ :=
        wellFormed_cons h
      rw [hbytes, hsplit]
      cases hfirst : isMisencoded n with
      | false =>
        have hlater : ∃ m ∈ codePoints units, isMisencoded m = true := by
          obtain ⟨m, hm, hmbad⟩ := hbad
          rw [hpoints] at hm
          rcases List.mem_cons.mp hm with rfl | hm
          · rw [hfirst] at hmbad
            cases hmbad
          · exact ⟨m, hm, hmbad⟩
        rw [utf8Loop_utf32ToUtf8 hn hsurrogate hfirst]
        intro heq
        exact utf8Loop_toUTF8Units_ne replaceInvalidUtf8 hunits hlater
          (append_cancel_left heq)
      | true =>
        obtain ⟨more, hmore⟩ := utf8Loop_misencoded hfirst (toUTF8Units replaceInvalidUtf8 units)
        rw [isMisencoded, Bool.and_eq_true, decide_eq_true_eq, decide_eq_true_eq] at hfirst
        rw [hmore, utf16Units, if_neg (by omega), cons_append, Ne, List.cons.injEq, not_and]
        intro hunit
        have hvalue := congrArg UInt16.toNat hunit
        rw [UInt16.toNat_ofNat', Nat.mod_eq_of_lt (by omega)] at hvalue
        have hreplacement : (0xFFFD : UInt16).toNat = 0xFFFD := by decide
        omega
termination_by s => s.length
decreasing_by exact hlength

/-- A well-formed string comes back from its UTF-8 form, with the standard four bytes for
every supplementary code point, if and only if none of its code points is from `0x40000`
up to `0xFFFFF`. -/
theorem utf8_round_trip (h : wellFormed data.units = true) :
    (utf8StringToUTF16String (data.toUTF8String replaceInvalidUtf8) = data.units ∧
        ∀ n ∈ codePoints data.units, 0x10000 ≤ n → utf32ToUtf8 n = standardFourBytes n) ↔
      ∀ n ∈ codePoints data.units, n < 0x40000 ∨ 0xFFFFF < n := by
  have hrange : ∀ n, isMisencoded n = false ↔ n < 0x40000 ∨ 0xFFFFF < n := by
    intro n
    rw [isMisencoded, Bool.and_eq_false_iff, decide_eq_false_iff_not, decide_eq_false_iff_not]
    omega
  simp only [← hrange]
  constructor
  · rintro ⟨hback, -⟩ n hn
    by_contra hbad
    exact utf8Loop_toUTF8Units_ne replaceInvalidUtf8 h ⟨n, hn, Bool.not_eq_false _ ▸ hbad⟩ hback
  · intro hgood
    refine ⟨utf8Loop_toUTF8Units replaceInvalidUtf8 h hgood, fun n hn hlow => ?_⟩
    exact (utf32ToUtf8_four hlow (codePoints_lt h n hn)).mpr (hgood n hn)

/-- A letter, the euro sign and a face. -/
theorem utf8_round_trip_face : utf8StringToUTF16String (StringBufferAccessData.toUTF8String
        (.bufferAs16Bit [0x41, 0x20AC, 0xD83D, 0xDE00]) false) = [0x41, 0x20AC, 0xD83D, 0xDE00] :=
  ((utf8_round_trip (.bufferAs16Bit [0x41, 0x20AC, 0xD83D, 0xDE00]) false (by decide +kernel)).mpr
    (by decide +kernel)).1

/-- The first code point of the fourth plane does not come back. -/
theorem utf8_round_trip_fails : ¬ ∀ data : StringBufferAccessData, wellFormed data.units = true →
      utf8StringToUTF16String (data.toUTF8String false) = data.units ∧
        ∀ n ∈ codePoints data.units, 0x10000 ≤ n → utf32ToUtf8 n = standardFourBytes n := by
  intro hall
  have hback := (hall (.bufferAs16Bit [0xD8C0, 0xDC00]) (by decide +kernel)).1
  exact absurd hback (by decide +kernel)

end Escargot.Runtime
