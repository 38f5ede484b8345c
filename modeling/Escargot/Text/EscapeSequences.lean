/-
# `escape` and `unescape`

`escape` writes a code unit as itself, as `%xy`, or as `%uwxyz`, and `unescape` undoes it. The text
that `unescape` reads is divided into pieces, and every piece is one unit of the result. The result
is an `ASCIIString` as long as no unit above `128` was appended, so that `128` itself slips through.
-/

import Escargot.Foundation.BitFields
import Escargot.Runtime.RopeString

namespace Escargot.Runtime.Escaping

open List Foundation

/-- One of the two digits in `charToHexCode` with capitals, and in `char2hex4digit`. -/
def hexCode (dig : UInt8) : UInt8 :=
  let dig := if dig ≤ 9 then dig + 48 else dig
  if 10 ≤ dig ∧ dig ≤ 15 then dig + (65 - 10) else dig

def char2hex (dec : UInt8) : List UInt8 := [hexCode ((dec &&& 0xF0) >>> 4), hexCode (dec &&& 0x0F)]

def char2hex4digit (dec : UInt16) : List UInt8 :=
  [hexCode ((dec &&& 0xF000) >>> 12).toUInt8, hexCode ((dec &&& 0x0F00) >>> 8).toUInt8,
    hexCode ((dec &&& 0x00F0) >>> 4).toUInt8, hexCode (dec &&& 0x000F).toUInt8]

variable (state : List UInt8 × Nat) (t : UInt16)

/-- The units that `escape` leaves. -/
def isPlain : Bool :=
  (48 ≤ t && t ≤ 57) || (65 ≤ t && t ≤ 90) || (97 ≤ t && t ≤ 122) || t == 64 || t == 42 ||
    t == 95 || t == 43 || t == 45 || t == 46 || t == 47

def escapeUnit : List UInt8 :=
  if isPlain t then [t.toUInt8]
  else if t < 256 then 37 :: char2hex t.toUInt8
  else 37 :: 117 :: char2hex4digit t

/-- One turn of the loop of `builtinEscape`, with `R` and `len`; `none` is the `RangeError`. -/
def escapeStep : Option (List UInt8 × Nat) :=
  let R := state.1 ++ escapeUnit t
  let len := if isPlain t then state.2 + 1 else R.length
  if len > stringMaximumLength then none else some (R, len)

variable (str : List UInt16) (i : Nat)

/-- `builtinEscape`: the characters of the `ASCIIString`. -/
def builtinEscape : Option (List UInt8) := (str.foldlM escapeStep ([], 0)).map Prod.fst

/-- A digit in `hex2char`. -/
def hexDig (dig : UInt16) : UInt16 :=
  let dig := if 48 ≤ dig ∧ dig ≤ 57 then dig - 48 else dig
  let dig := if 65 ≤ dig ∧ dig ≤ 70 then dig - (65 - 10) else dig
  if 97 ≤ dig ∧ dig ≤ 102 then dig - (97 - 10) else dig

def hex2char (first second : UInt16) : UInt16 := hexDig first <<< 4 ||| hexDig second

/-- The hex digit check. -/
def isHex (ch : UInt16) : Bool :=
  (48 ≤ ch && ch ≤ 57) || (65 ≤ ch && ch ≤ 70) || (97 ≤ ch && ch ≤ 102)

/-- One turn of the loop of `builtinUnescape`: the unit that is appended, and the next index. -/
def unescapeAt : UInt16 × Nat :=
  let charAt := fun j => str.getD j 0
  if charAt i = 37 then
    if str.length - i ≥ 6 then
      if charAt (i + 1) = 117 then
        if isHex (charAt (i + 2)) && isHex (charAt (i + 3)) && isHex (charAt (i + 4)) &&
            isHex (charAt (i + 5)) then
          (hex2char (charAt (i + 2)) (charAt (i + 3)) <<< 8 |||
            hex2char (charAt (i + 4)) (charAt (i + 5)), i + 5 + 1)
        else (charAt i, i + 1)
      else if isHex (charAt (i + 1)) && isHex (charAt (i + 2)) then
        (hex2char (charAt (i + 1)) (charAt (i + 2)), i + 2 + 1)
      else (charAt i, i + 1)
    else if str.length - i ≥ 3 then
      if isHex (charAt (i + 1)) && isHex (charAt (i + 2)) then
        (hex2char (charAt (i + 1)) (charAt (i + 2)), i + 2 + 1)
      else (charAt i, i + 1)
    else (charAt i, i + 1)
  else (charAt i, i + 1)

theorem lt_unescapeAt : i < (unescapeAt str i).2 := by
  rw [unescapeAt]
  split_ifs
  all_goals omega

def unescapeLoop (str : List UInt16) (i : Nat) (R : List UInt16) (gotNonASCIIString : Bool) :
    List UInt16 × Bool :=
  if i < str.length then
    unescapeLoop str (unescapeAt str i).2 (R ++ [(unescapeAt str i).1])
      (gotNonASCIIString || decide ((unescapeAt str i).1 > 128))
  else (R, gotNonASCIIString)
termination_by str.length - i
decreasing_by
  have := lt_unescapeAt str i
  omega

inductive Unescaped
  | asciiString (data : List UInt8)
  | utf16String (data : List UInt16)
  deriving DecidableEq

def Unescaped.units : Unescaped → List UInt16
  | asciiString data => data.map UInt8.toUInt16
  | utf16String data => data

def builtinUnescape : Unescaped :=
  let result := unescapeLoop str 0 [] false
  if result.2 then .utf16String result.1 else .asciiString (result.1.map UInt16.toUInt8)

/-- A piece of an escaped text: a unit for itself, or with two digits, or with four. -/
inductive Piece
  | plain (ch : UInt16)
  | two (first second : UInt16)
  | four (third fourth fifth sixth : UInt16)

namespace Piece

def text : Piece → List UInt16
  | plain ch => [ch]
  | two first second => [37, first, second]
  | four third fourth fifth sixth => [37, 117, third, fourth, fifth, sixth]

/-- The unit that a piece stands for. -/
def value : Piece → UInt16
  | plain ch => ch
  | two first second => hex2char first second
  | four third fourth fifth sixth => hex2char third fourth <<< 8 ||| hex2char fifth sixth

/-- A piece that begins with `%`, and whose digits are hexadecimal. -/
inductive IsEscape : Piece → Prop
  | two {first second : UInt16} (h1 : isHex first = true) (h2 : isHex second = true) :
      IsEscape (two first second)
  | four {third fourth fifth sixth : UInt16} (h3 : isHex third = true) (h4 : isHex fourth = true)
      (h5 : isHex fifth = true) (h6 : isHex sixth = true) :
      IsEscape (four third fourth fifth sixth)

end Piece

inductive Pieces : List UInt16 → List Piece → Prop
  | nil : Pieces [] []
  | escape {piece : Piece} {rest : List UInt16} {pieces : List Piece} (h : piece.IsEscape)
      (hrest : Pieces rest pieces) : Pieces (piece.text ++ rest) (piece :: pieces)
  | plain {ch : UInt16} {rest : List UInt16} {pieces : List Piece}
      (h : ∀ piece : Piece, piece.IsEscape → ¬piece.text <+: ch :: rest)
      (hrest : Pieces rest pieces) : Pieces (ch :: rest) (.plain ch :: pieces)

/-- What is promised of the two functions for one string. -/
structure Escapes (str : List UInt16) : Prop where
  returns : builtinEscape str = none ↔ stringMaximumLength < (str.flatMap escapeUnit).length
  ascii : ∀ escaped, builtinEscape str = some escaped → ∀ c ∈ escaped, c < 0x80
  back : ∀ escaped, builtinEscape str = some escaped →
    (builtinUnescape (escaped.map UInt8.toUInt16)).units = str
  represented : ∀ data, builtinUnescape str = .asciiString data →
    ∀ c ∈ (builtinUnescape str).units, c < 0x80

theorem hexCode_spec : ∀ n < 16, isHex (hexCode (.ofNat n)).toUInt16 = true ∧
    hexCode (.ofNat n) < 0x80 := by
  decide

theorem hex2char_hexCode : ∀ a < 16, ∀ b < 16,
    hex2char (hexCode (.ofNat a)).toUInt16 (hexCode (.ofNat b)).toUInt16 = .ofNat (16 * a + b) := by
  decide

theorem char2hex_ofNat : ∀ n < 256, char2hex (.ofNat n) =
    [hexCode (.ofNat (n / 16)), hexCode (.ofNat (n % 16))] := by
  decide +kernel

theorem toUInt8_field (dec : UInt16) {mask : UInt16} {k : UInt16} {s : Nat} (hs : s ≤ 12)
    (hmask : mask.toNat = (2 ^ 4 - 1) * 2 ^ s) (hk : k.toNat = s) :
    ((dec &&& mask) >>> k).toUInt8 = .ofNat (dec.toNat / 2 ^ s % 16) := by
  apply UInt8.toNat_inj.mp
  rw [UInt16.toNat_toUInt8, UInt16.toNat_shiftRight, UInt16.toNat_and, hmask, and_fieldMask, hk,
    Nat.mod_eq_of_lt (show s < 16 by omega), Nat.shiftRight_eq_div_pow,
    Nat.mul_div_cancel _ (Nat.two_pow_pos s), UInt8.toNat_ofNat']
  rfl

theorem char2hex4digit_eq (dec : UInt16) : char2hex4digit dec =
    [hexCode (.ofNat (dec.toNat / 2 ^ 12 % 16)), hexCode (.ofNat (dec.toNat / 2 ^ 8 % 16)),
      hexCode (.ofNat (dec.toNat / 2 ^ 4 % 16)), hexCode (.ofNat (dec.toNat % 16))] := by
  have hlast : dec &&& (0x000F : UInt16) = (dec &&& 0x000F) >>> 0 := UInt16.shiftRight_zero.symm
  rw [char2hex4digit, toUInt8_field dec (show 12 ≤ 12 by decide) rfl rfl,
    toUInt8_field dec (show 8 ≤ 12 by decide) rfl rfl,
    toUInt8_field dec (show 4 ≤ 12 by decide) rfl rfl, hlast,
    toUInt8_field dec (show 0 ≤ 12 by decide) rfl rfl, Nat.pow_zero, Nat.div_one]

theorem shiftLeft_or {p q : Nat} (hp : p < 256) (hq : q < 256) :
    UInt16.ofNat p <<< 8 ||| UInt16.ofNat q = .ofNat (256 * p + q) := by
  apply UInt16.toNat_inj.mp
  rw [UInt16.toNat_or, UInt16.toNat_shiftLeft, UInt16.toNat_ofNat', UInt16.toNat_ofNat',
    UInt16.toNat_ofNat', Nat.mod_eq_of_lt (show p < 2 ^ 16 by omega),
    Nat.mod_eq_of_lt (show q < 2 ^ 16 by omega),
    show (UInt16.toNat 8 % 16) = 8 by decide, Nat.shiftLeft_eq,
    Nat.mod_eq_of_lt (show p * 2 ^ 8 < 2 ^ 16 by omega), or_eq_add p (show q < 2 ^ 8 from hq)]
  omega

variable (t : UInt16)

/-- How a unit is escaped. -/
def pieceOf : Piece :=
  if isPlain t then .plain t
  else if t < 256 then
    .two (hexCode (.ofNat (t.toNat / 16))).toUInt16 (hexCode (.ofNat (t.toNat % 16))).toUInt16
  else
    .four (hexCode (.ofNat (t.toNat / 2 ^ 12 % 16))).toUInt16
      (hexCode (.ofNat (t.toNat / 2 ^ 8 % 16))).toUInt16
      (hexCode (.ofNat (t.toNat / 2 ^ 4 % 16))).toUInt16 (hexCode (.ofNat (t.toNat % 16))).toUInt16

theorem isPlain_lt {t : UInt16} (h : isPlain t = true) : t.toNat < 0x80 ∧ t ≠ 37 := by
  simp only [isPlain, Bool.or_eq_true, Bool.and_eq_true, decide_eq_true_eq, beq_iff_eq,
    UInt16.le_iff_toNat_le] at h
  constructor
  · rcases h with ((((((((⟨-, h⟩ | ⟨-, h⟩) | ⟨-, h⟩) | rfl) | rfl) | rfl) | rfl) | rfl) | rfl) | rfl
    all_goals first | decide | exact Nat.lt_of_le_of_lt h (by decide)
  · rintro rfl
    revert h
    decide

theorem toUInt16_toUInt8 {t : UInt16} (h : t.toNat < 256) : t.toUInt8.toUInt16 = t := by
  apply UInt16.toNat_inj.mp
  rw [UInt8.toNat_toUInt16, UInt16.toNat_toUInt8, Nat.mod_eq_of_lt h]

theorem text_pieceOf : (pieceOf t).text = (escapeUnit t).map UInt8.toUInt16 := by
  rw [pieceOf, escapeUnit]
  split_ifs with hplain hsmall
  · have hlt := (isPlain_lt hplain).1
    rw [map_singleton, toUInt16_toUInt8 (by omega)]
    rfl
  · have hlt : t.toNat < 256 := hsmall
    have hdec : t.toUInt8 = .ofNat t.toNat := by
      apply UInt8.toNat_inj.mp
      rw [UInt16.toNat_toUInt8, UInt8.toNat_ofNat']
    rw [hdec, char2hex_ofNat _ hlt]
    rfl
  · rw [char2hex4digit_eq]
    rfl

theorem value_pieceOf : (pieceOf t).value = t := by
  have ht := t.toNat_lt
  rw [pieceOf]
  split_ifs with hplain hsmall
  · rfl
  · have hlt : t.toNat < 256 := hsmall
    rw [Piece.value, hex2char_hexCode _ (by omega) _ (by omega), Nat.div_add_mod,
      UInt16.ofNat_toNat]
  · rw [Piece.value, hex2char_hexCode _ (by omega) _ (by omega),
      hex2char_hexCode _ (by omega) _ (by omega), shiftLeft_or (by omega) (by omega)]
    have hsum : 256 * (16 * (t.toNat / 2 ^ 12 % 16) + t.toNat / 2 ^ 8 % 16) +
        (16 * (t.toNat / 2 ^ 4 % 16) + t.toNat % 16) = t.toNat := by omega
    rw [hsum, UInt16.ofNat_toNat]

theorem isEscape_pieceOf {t : UInt16} (h : ¬isPlain t = true) : (pieceOf t).IsEscape := by
  rw [pieceOf, if_neg h]
  split_ifs with hsmall
  · have hlt : t.toNat < 256 := hsmall
    exact .two (hexCode_spec _ (by omega)).1 (hexCode_spec _ (by omega)).1
  · exact .four (hexCode_spec _ (by omega)).1 (hexCode_spec _ (by omega)).1
      (hexCode_spec _ (by omega)).1 (hexCode_spec _ (by omega)).1

variable {rest : List UInt16}

theorem Piece.IsEscape.head {piece : Piece} (h : piece.IsEscape) {ch : UInt16}
    (hbegins : piece.text <+: ch :: rest) : ch = 37 := by
  obtain ⟨tail, htail⟩ := hbegins
  cases h with
  | two h1 h2 => exact (head_eq_of_cons_eq htail).symm
  | four h3 h4 h5 h6 => exact (head_eq_of_cons_eq htail).symm

theorem pieces_escape (str : List UInt16) :
    Pieces ((str.flatMap escapeUnit).map UInt8.toUInt16) (str.map pieceOf) := by
  induction str with
  | nil => exact .nil
  | cons t str ih =>
    rw [flatMap_cons, map_append, ← text_pieceOf, map_cons]
    by_cases hplain : isPlain t = true
    · have hpiece : pieceOf t = .plain t := if_pos hplain
      rw [hpiece]
      exact .plain (fun piece hescape hbegins => (isPlain_lt hplain).2 (hescape.head hbegins)) ih
    · exact .escape (isEscape_pieceOf hplain) ih

theorem unescapeAt_drop (str : List UInt16) (i : Nat) :
    unescapeAt str i = ((unescapeAt (str.drop i) 0).1, i + (unescapeAt (str.drop i) 0).2) := by
  have hchar : ∀ k, str.getD (i + k) 0 = (str.drop i).getD (0 + k) 0 := by
    intro k
    rw [Nat.zero_add, getD_eq_getElem?_getD, getD_eq_getElem?_getD, getElem?_drop]
  have hfirst : str.getD i 0 = (str.drop i).getD 0 0 := hchar 0
  rw [unescapeAt, unescapeAt]
  simp only [hfirst, hchar, length_drop, Nat.sub_zero]
  split_ifs
  all_goals rfl

theorem unescapeAt_escape {piece : Piece} (h : piece.IsEscape) (rest : List UInt16) :
    unescapeAt (piece.text ++ rest) 0 = (piece.value, piece.text.length) := by
  cases h with
  | @two first second h1 h2 =>
    have hu : first ≠ 117 := by
      rintro rfl
      cases h1
    simp [unescapeAt, Piece.text, Piece.value, h1, h2, hu]
  | four h3 h4 h5 h6 => simp [unescapeAt, Piece.text, Piece.value, h3, h4, h5, h6]

theorem unescapeAt_plain {ch : UInt16}
    (h : ∀ piece : Piece, piece.IsEscape → ¬piece.text <+: ch :: rest) :
    unescapeAt (ch :: rest) 0 = (ch, 1) := by
  have htwo : ch = 37 → 3 ≤ (ch :: rest).length →
      ¬(isHex ((ch :: rest).getD 1 0) && isHex ((ch :: rest).getD 2 0)) = true := by
    intro hpercent hlength hhex
    obtain ⟨h1, h2⟩ := Bool.and_eq_true_iff.mp hhex
    rw [length_cons] at hlength
    obtain ⟨first, rest, rfl⟩ := exists_cons_of_length_pos (show 0 < rest.length by omega)
    rw [length_cons] at hlength
    obtain ⟨second, tail, rfl⟩ := exists_cons_of_length_pos (show 0 < rest.length by omega)
    exact h _ (.two h1 h2) ⟨tail, by rw [hpercent]; rfl⟩
  have hfour : ch = 37 → 6 ≤ (ch :: rest).length → (ch :: rest).getD 1 0 = 117 →
      ¬(isHex ((ch :: rest).getD 2 0) && isHex ((ch :: rest).getD 3 0) &&
        isHex ((ch :: rest).getD 4 0) && isHex ((ch :: rest).getD 5 0)) = true := by
    intro hpercent hlength hu hhex
    simp only [Bool.and_eq_true] at hhex
    obtain ⟨⟨⟨h3, h4⟩, h5⟩, h6⟩ := hhex
    rw [length_cons] at hlength
    obtain ⟨second, rest, rfl⟩ := exists_cons_of_length_pos (show 0 < rest.length by omega)
    rw [length_cons] at hlength
    obtain ⟨third, rest, rfl⟩ := exists_cons_of_length_pos (show 0 < rest.length by omega)
    rw [length_cons] at hlength
    obtain ⟨fourth, rest, rfl⟩ := exists_cons_of_length_pos (show 0 < rest.length by omega)
    rw [length_cons] at hlength
    obtain ⟨fifth, rest, rfl⟩ := exists_cons_of_length_pos (show 0 < rest.length by omega)
    rw [length_cons] at hlength
    obtain ⟨sixth, tail, rfl⟩ := exists_cons_of_length_pos (show 0 < rest.length by omega)
    have hsecond : second = 117 := hu
    exact h _ (.four h3 h4 h5 h6) ⟨tail, by rw [hpercent, hsecond]; rfl⟩
  have hfirst : (ch :: rest).getD 0 0 = ch := rfl
  rw [unescapeAt, Nat.sub_zero]
  simp only [Nat.zero_add, hfirst]
  split_ifs with hpercent hsix hu h4 h2 hthree h2
  · exact absurd h4 (hfour hpercent hsix hu)
  · rfl
  · exact absurd h2 (htwo hpercent (by omega))
  · rfl
  · exact absurd h2 (htwo hpercent hthree)
  · rfl
  · rfl
  · rfl

variable {str : List UInt16} {pieces : List Piece}

theorem unescapeLoop_pieces (h : Pieces rest pieces) :
    ∀ {i : Nat}, str.drop i = rest → ∀ (R : List UInt16) (gotNonASCIIString : Bool),
      unescapeLoop str i R gotNonASCIIString = (R ++ pieces.map Piece.value,
        gotNonASCIIString || pieces.any fun piece => decide (piece.value > 128)) := by
  have hturn : ∀ {i : Nat} {piece : Piece} {rest : List UInt16}, str.drop i = piece.text ++ rest →
      unescapeAt (piece.text ++ rest) 0 = (piece.value, piece.text.length) →
      unescapeAt str i = (piece.value, i + piece.text.length) ∧
        str.drop (i + piece.text.length) = rest := by
    intro i piece rest hdrop hread
    rw [unescapeAt_drop, hdrop, hread, ← drop_drop, hdrop, drop_left]
    exact ⟨rfl, rfl⟩
  have hlt : ∀ {i : Nat} {ch : UInt16} {rest : List UInt16}, str.drop i = ch :: rest →
      i < str.length := by
    intro i ch rest hdrop
    by_contra hge
    rw [drop_eq_nil_of_le (Nat.le_of_not_lt hge)] at hdrop
    cases hdrop
  induction h with
  | nil =>
    intro i hdrop R got
    rw [unescapeLoop, if_neg (Nat.not_lt.mpr (List.drop_eq_nil_iff.mp hdrop)), map_nil,
      append_nil, any_nil, Bool.or_false]
  | @escape piece rest pieces hescape _ ih =>
    intro i hdrop R got
    have hinside : i < str.length := by
      cases hescape with
      | two h1 h2 => exact hlt hdrop
      | four h3 h4 h5 h6 => exact hlt hdrop
    obtain ⟨hread, hnext⟩ := hturn hdrop (unescapeAt_escape hescape rest)
    rw [unescapeLoop, if_pos hinside, hread, ih hnext, map_cons, any_cons,
      append_assoc, singleton_append, Bool.or_assoc]
  | @plain ch rest pieces hplain _ ih =>
    intro i hdrop R got
    have hinside := hlt hdrop
    obtain ⟨hread, hnext⟩ := @hturn i (.plain ch) rest hdrop (unescapeAt_plain hplain)
    rw [unescapeLoop, if_pos hinside, hread, ih hnext, map_cons, any_cons,
      append_assoc, singleton_append, Bool.or_assoc]

theorem exists_pieces (str : List UInt16) : ∃ pieces, Pieces str pieces := by
  induction hn : str.length using Nat.strong_induction_on generalizing str with
  | _ n ih =>
    cases str with
    | nil => exact ⟨[], .nil⟩
    | cons ch rest =>
      rw [length_cons] at hn
      by_cases hescape : ∃ piece : Piece, piece.IsEscape ∧ piece.text <+: ch :: rest
      · obtain ⟨piece, hpiece, after, hafter⟩ := hescape
        have hshorter : after.length < n := by
          have hlength := congrArg List.length hafter
          rw [length_append, length_cons] at hlength
          have hpos : 0 < piece.text.length := by
            cases hpiece with
            | two h1 h2 => exact Nat.succ_pos _
            | four h3 h4 h5 h6 => exact Nat.succ_pos _
          omega
        obtain ⟨pieces, hpieces⟩ := ih _ hshorter after rfl
        rw [← hafter]
        exact ⟨_, .escape hpiece hpieces⟩
      · obtain ⟨pieces, hpieces⟩ := ih rest.length (by omega) rest rfl
        exact ⟨_, .plain (fun piece hpiece hbegins => hescape ⟨piece, hpiece, hbegins⟩) hpieces⟩

theorem builtinUnescape_pieces (h : Pieces str pieces) : builtinUnescape str =
      if ∃ piece ∈ pieces, piece.value > 128 then .utf16String (pieces.map Piece.value)
      else .asciiString ((pieces.map Piece.value).map UInt16.toUInt8) := by
  have hloop := unescapeLoop_pieces h (drop_zero) [] false
  rw [builtinUnescape, hloop, nil_append, Bool.false_or]
  simp only [List.any_eq_true, decide_eq_true_eq]

theorem units_builtinUnescape (h : Pieces str pieces) :
    (builtinUnescape str).units = pieces.map Piece.value := by
  rw [builtinUnescape_pieces h]
  split_ifs with hwide
  · rfl
  · rw [Unescaped.units, List.map_map]
    refine (map_congr_left fun c hc => ?_).trans (List.map_id _)
    obtain ⟨piece, hpiece, rfl⟩ := List.mem_map.mp hc
    have hle : ¬piece.value > 128 := fun hgt => hwide ⟨piece, hpiece, hgt⟩
    have hsmall : piece.value.toNat ≤ 128 := Nat.not_lt.mp hle
    exact toUInt16_toUInt8 (by omega)

theorem escapeUnit_lt : ∀ c ∈ escapeUnit t, c < 0x80 := by
  have hcode : ∀ {n : Nat}, n < 16 → hexCode (.ofNat n) < 0x80 := fun hn => (hexCode_spec _ hn).2
  rw [escapeUnit]
  split_ifs with hplain hsmall
  · rw [forall_mem_singleton]
    have hlt := (isPlain_lt hplain).1
    show t.toNat % 2 ^ 8 < 128
    omega
  · have hlt : t.toNat < 256 := hsmall
    have hdec : t.toUInt8 = .ofNat t.toNat := by
      apply UInt8.toNat_inj.mp
      rw [UInt16.toNat_toUInt8, UInt8.toNat_ofNat']
    rw [hdec, char2hex_ofNat _ hlt, forall_mem_cons, forall_mem_cons, forall_mem_singleton]
    exact ⟨by decide, hcode (by omega), hcode (by omega)⟩
  · rw [char2hex4digit_eq]
    simp only [forall_mem_cons]
    exact ⟨by decide, by decide, hcode (by omega), hcode (by omega), hcode (by omega),
      hcode (by omega), forall_mem_nil _⟩

/-- The loop returns what it has written, unless that becomes too long. -/
theorem foldlM_escapeStep (str : List UInt16) : ∀ {R : List UInt8}, R.length ≤ stringMaximumLength →
      str.foldlM escapeStep (R, R.length) =
        if (R ++ str.flatMap escapeUnit).length ≤ stringMaximumLength then
          some (R ++ str.flatMap escapeUnit, (R ++ str.flatMap escapeUnit).length)
        else none := by
  induction str with
  | nil =>
    intro R hR
    rw [foldlM_nil, flatMap_nil, append_nil, if_pos hR]
    rfl
  | cons t str ih =>
    intro R hR
    have hlength : (if isPlain t then R.length + 1 else (R ++ escapeUnit t).length) =
        (R ++ escapeUnit t).length := by
      split_ifs with hplain
      · rw [escapeUnit, if_pos hplain, length_append, length_singleton]
      · rfl
    rw [foldlM_cons, escapeStep]
    rw [hlength, flatMap_cons, ← append_assoc]
    by_cases hlong : (R ++ escapeUnit t).length > stringMaximumLength
    · have hwhole : ¬(R ++ escapeUnit t ++ str.flatMap escapeUnit).length ≤
          stringMaximumLength := by
        rw [length_append]
        omega
      rw [if_pos hlong, if_neg hwhole]
      rfl
    · rw [if_neg hlong]
      exact ih (Nat.not_lt.mp hlong)

theorem builtinEscape_eq (str : List UInt16) :
    builtinEscape str = if (str.flatMap escapeUnit).length ≤ stringMaximumLength then
        some (str.flatMap escapeUnit)
      else none := by
  have hloop := @foldlM_escapeStep str [] (Nat.zero_le _)
  rw [nil_append] at hloop
  refine (congrArg _ hloop).trans ?_
  split_ifs
  · rfl
  · rfl

theorem eq_flatMap_of_builtinEscape {escaped : List UInt8} (h : builtinEscape str = some escaped) :
    escaped = str.flatMap escapeUnit := by
  rw [builtinEscape_eq] at h
  split_ifs at h
  exact (Option.some.inj h).symm

/-- All is as promised unless the text has a piece for `128` and none above. -/
theorem escapes_iff (str : List UInt16) :
    Escapes str ↔ ∀ pieces, Pieces str pieces → (∃ piece ∈ pieces, piece.value = 128) →
      ∃ piece ∈ pieces, piece.value > 128 := by
  constructor
  · intro h pieces hpieces hlimit
    by_contra hwide
    have hreturns := builtinUnescape_pieces hpieces
    rw [if_neg hwide] at hreturns
    obtain ⟨piece, hpiece, hvalue⟩ := hlimit
    have hmem : piece.value ∈ (builtinUnescape str).units := by
      rw [units_builtinUnescape hpieces]
      exact List.mem_map_of_mem hpiece
    have hlt := h.represented _ hreturns _ hmem
    rw [hvalue] at hlt
    exact absurd hlt (by decide)
  · intro hcondition
    refine ⟨?_, fun escaped hescaped => ?_, fun escaped hescaped => ?_, fun data hdata => ?_⟩
    · rw [builtinEscape_eq]
      by_cases hlength : (str.flatMap escapeUnit).length ≤ stringMaximumLength
      · rw [if_pos hlength]
        exact iff_of_false (Option.some_ne_none _) (Nat.not_lt.mpr hlength)
      · rw [if_neg hlength]
        exact iff_of_true rfl (Nat.not_le.mp hlength)
    · rw [eq_flatMap_of_builtinEscape hescaped]
      intro c hc
      obtain ⟨t, -, ht⟩ := List.mem_flatMap.mp hc
      exact escapeUnit_lt t c ht
    · rw [eq_flatMap_of_builtinEscape hescaped, units_builtinUnescape (pieces_escape str),
        List.map_map]
      exact (map_congr_left fun t _ => value_pieceOf t).trans (List.map_id str)
    · obtain ⟨pieces, hpieces⟩ := exists_pieces str
      rw [builtinUnescape_pieces hpieces] at hdata
      split_ifs at hdata with hwide
      rw [units_builtinUnescape hpieces]
      intro c hc
      obtain ⟨piece, hpiece, rfl⟩ := List.mem_map.mp hc
      have hle : ¬piece.value > 128 := fun hgt => hwide ⟨piece, hpiece, hgt⟩
      have hne : piece.value ≠ 128 :=
        fun heq => hwide (hcondition pieces hpieces ⟨piece, hpiece, heq⟩)
      have hle' : piece.value.toNat ≤ 128 := Nat.not_lt.mp hle
      have hne' : piece.value.toNat ≠ 128 := fun heq => hne (UInt16.toNat_inj.mp heq)
      show piece.value.toNat < 128
      omega

/-- `unescape` of the unit `128` alone is an `ASCIIString`. -/
theorem unescape_limit_is_ascii : ¬∀ str, Escapes str := by
  intro h
  have hplain : ∀ piece : Piece, piece.IsEscape → ¬piece.text <+: [(128 : UInt16)] := by
    intro piece hpiece hbegins
    exact absurd (hpiece.head hbegins) (by decide)
  have hpieces : Pieces [128] [.plain 128] := .plain hplain .nil
  have hreturns : builtinUnescape [128] = .asciiString [128] := by
    rw [builtinUnescape_pieces hpieces]
    decide
  have hunits : (128 : UInt16) ∈ (builtinUnescape [128]).units := by
    rw [hreturns]
    decide
  exact absurd ((h [128]).represented _ hreturns _ hunits) (by decide)

end Escargot.Runtime.Escaping
