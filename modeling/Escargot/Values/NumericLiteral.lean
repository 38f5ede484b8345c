/-
# Numeric literals in strings

The grammar of `StringNumericLiteral` on UTF-16 code units: white space, and in it a decimal
literal with an optional sign, or an integer with a prefix for its base and without a sign. The
forms are told apart by their characters, and none of these is white space.
-/

import Mathlib

namespace Escargot.Runtime.NumericLiteral

open List

/-- White space and line terminators: the set that `isSpace` tests. -/
def spaces : List UInt16 :=
  [0x0009, 0x000A, 0x000B, 0x000C, 0x000D, 0x0020, 0x00A0, 0x1680, 0x2000, 0x2001, 0x2002, 0x2003,
    0x2004, 0x2005, 0x2006, 0x2007, 0x2008, 0x2009, 0x200A, 0x2028, 0x2029, 0x202F, 0x205F, 0x3000,
    0xFEFF]

def isSpace (c : UInt16) : Bool := decide (c ∈ spaces)

/-- `0` to `9`. -/
def decimalDigits : List UInt16 := [48, 49, 50, 51, 52, 53, 54, 55, 56, 57]

/-- `a` to `f` and `A` to `F` besides. -/
def hexDigits : List UInt16 := decimalDigits ++ [97, 98, 99, 100, 101, 102, 65, 66, 67, 68, 69, 70]

def infinity : List UInt16 := [73, 110, 102, 105, 110, 105, 116, 121]

def Digits (kind t : List UInt16) : Prop := t ≠ [] ∧ ∀ c ∈ t, c ∈ kind

/-- `+` and `-`. -/
def signs : List UInt16 := [43, 45]

inductive Exponent : List UInt16 → Prop
  | none : Exponent []
  | unsigned {e : UInt16} {digits : List UInt16} (letter : e ∈ [101, 69])
      (number : Digits decimalDigits digits) : Exponent (e :: digits)
  | signed {e sign : UInt16} {digits : List UInt16} (letter : e ∈ [101, 69]) (mark : sign ∈ signs)
      (number : Digits decimalDigits digits) : Exponent (e :: sign :: digits)

/-- `StrUnsignedDecimalLiteral`. The point is `.`. -/
inductive StrUnsignedDecimalLiteral : List UInt16 → Prop
  | infinity : StrUnsignedDecimalLiteral infinity
  | integer {digits exponent : List UInt16} (number : Digits decimalDigits digits)
      (power : Exponent exponent) : StrUnsignedDecimalLiteral (digits ++ exponent)
  | point {digits exponent : List UInt16} (number : Digits decimalDigits digits)
      (power : Exponent exponent) : StrUnsignedDecimalLiteral (digits ++ 46 :: exponent)
  | fraction {digits fraction exponent : List UInt16} (number : Digits decimalDigits digits)
      (rest : Digits decimalDigits fraction) (power : Exponent exponent) :
      StrUnsignedDecimalLiteral (digits ++ 46 :: (fraction ++ exponent))
  | fractionOnly {fraction exponent : List UInt16} (rest : Digits decimalDigits fraction)
      (power : Exponent exponent) : StrUnsignedDecimalLiteral (46 :: (fraction ++ exponent))

inductive StrDecimalLiteral : List UInt16 → Prop
  | unsigned {t : List UInt16} (literal : StrUnsignedDecimalLiteral t) : StrDecimalLiteral t
  | signed {sign : UInt16} {t : List UInt16} (mark : sign ∈ signs)
      (literal : StrUnsignedDecimalLiteral t) : StrDecimalLiteral (sign :: t)

/-- `HexIntegerLiteral`: `0x` or `0X` and digits. -/
inductive HexIntegerLiteral : List UInt16 → Prop
  | intro {x : UInt16} {digits : List UInt16} (letter : x ∈ [120, 88])
      (number : Digits hexDigits digits) : HexIntegerLiteral (48 :: x :: digits)

/-- The letters for a base with so many bits: `b` and `B`, or `o` and `O`. -/
def radixLetters : Nat → List UInt16
  | 1 => [98, 66]
  | 3 => [111, 79]
  | _ => []

def isRadixDigit (bits : Nat) (c : UInt16) : Bool := decide (48 ≤ c.toNat ∧ c.toNat < 48 + 2 ^ bits)

def digitsValue (bits : Nat) (digits : List UInt16) : Nat :=
  digits.foldl (fun number c => number * 2 ^ bits + (c.toNat - 48)) 0

/-- `BinaryIntegerLiteral` and `OctalIntegerLiteral`, with their values. -/
inductive RadixLiteral (bits : Nat) : List UInt16 → Nat → Prop
  | intro {letter : UInt16} {digits : List UInt16} (mark : letter ∈ radixLetters bits)
      (nonempty : digits ≠ []) (number : ∀ c ∈ digits, isRadixDigit bits c = true) :
      RadixLiteral bits (48 :: letter :: digits) (digitsValue bits digits)

inductive StrNumericLiteral : List UInt16 → Prop
  | decimal {t : List UInt16} (literal : StrDecimalLiteral t) : StrNumericLiteral t
  | hex {t : List UInt16} (literal : HexIntegerLiteral t) : StrNumericLiteral t
  | radix {t : List UInt16} {bits value : Nat} (literal : RadixLiteral bits t value) :
      StrNumericLiteral t

/-- A string is this with white space around it. -/
def Padded (data t : List UInt16) : Prop :=
  ∃ before after, data = before ++ t ++ after ∧ (∀ c ∈ before, isSpace c = true) ∧
    ∀ c ∈ after, isSpace c = true

def StringNumericLiteral (data : List UInt16) : Prop :=
  Padded data [] ∨ ∃ t, Padded data t ∧ StrNumericLiteral t

inductive SignedHex : List UInt16 → Prop
  | intro {sign : UInt16} {t : List UInt16} (mark : sign ∈ signs) (literal : HexIntegerLiteral t) :
      SignedHex (sign :: t)

inductive NaNSymbol : List UInt16 → Prop
  | unsigned : NaNSymbol [78, 97, 78]
  | signed {sign : UInt16} (mark : sign ∈ signs) : NaNSymbol [sign, 78, 97, 78]

def decimalChars : List UInt16 := decimalDigits ++ [101, 69, 46] ++ signs ++ infinity

def tokenChars : List UInt16 := decimalChars ++ hexDigits ++ [120, 88, 98, 66, 111, 79, 78]

theorem forall_mem_of_all {kind : List UInt16} {p : UInt16 → Prop} [DecidablePred p]
    (h : kind.all (fun c => decide (p c)) = true) : ∀ c ∈ kind, p c :=
  fun c hc => of_decide_eq_true (List.all_eq_true.mp h c hc)

variable {t : List UInt16}

theorem Digits.mem_of_subset {kind chars : List UInt16} (h : Digits kind t)
    (hsubset : ∀ c ∈ kind, c ∈ chars) : ∀ c ∈ t, c ∈ chars :=
  fun c hc => hsubset c (h.2 c hc)

theorem decimalDigits_subset : ∀ c ∈ decimalDigits, c ∈ decimalChars :=
      forall_mem_of_all (by decide)

theorem signs_subset : ∀ c ∈ signs, c ∈ decimalChars := forall_mem_of_all (by decide)

theorem exponentLetters_subset : ∀ c ∈ [101, 69], c ∈ decimalChars := forall_mem_of_all (by decide)

theorem Exponent.chars (h : Exponent t) : ∀ c ∈ t, c ∈ decimalChars := by
  cases h with
  | none => exact forall_mem_nil _
  | unsigned letter number =>
    rw [forall_mem_cons]
    exact ⟨exponentLetters_subset _ letter, number.mem_of_subset decimalDigits_subset⟩
  | signed letter mark number =>
    rw [forall_mem_cons, forall_mem_cons]
    exact ⟨exponentLetters_subset _ letter, signs_subset _ mark,
      number.mem_of_subset decimalDigits_subset⟩

theorem StrUnsignedDecimalLiteral.chars (h : StrUnsignedDecimalLiteral t) :
    ∀ c ∈ t, c ∈ decimalChars := by
  have hpoint : 46 ∈ decimalChars := by decide
  have hdigits : ∀ {digits}, Digits decimalDigits digits → ∀ c ∈ digits, c ∈ decimalChars :=
    fun number => number.mem_of_subset decimalDigits_subset
  cases h with
  | infinity => exact forall_mem_of_all (by decide)
  | integer number power =>
    rw [forall_mem_append]
    exact ⟨hdigits number, power.chars⟩
  | point number power =>
    rw [forall_mem_append, forall_mem_cons]
    exact ⟨hdigits number, hpoint, power.chars⟩
  | fraction number rest power =>
    rw [forall_mem_append, forall_mem_cons, forall_mem_append]
    exact ⟨hdigits number, hpoint, hdigits rest, power.chars⟩
  | fractionOnly rest power =>
    rw [forall_mem_cons, forall_mem_append]
    exact ⟨hpoint, hdigits rest, power.chars⟩

theorem StrUnsignedDecimalLiteral.ne_nil (h : StrUnsignedDecimalLiteral t) :
    t ≠ [] := by
  cases h with
  | infinity => exact cons_ne_nil _ _
  | integer number _ => exact append_ne_nil_of_left_ne_nil number.1 _
  | point number _ => exact append_ne_nil_of_left_ne_nil number.1 _
  | fraction number _ _ => exact append_ne_nil_of_left_ne_nil number.1 _
  | fractionOnly _ _ => exact cons_ne_nil _ _

theorem StrDecimalLiteral.chars (h : StrDecimalLiteral t) :
    ∀ c ∈ t, c ∈ decimalChars := by
  cases h with
  | unsigned literal => exact literal.chars
  | signed mark literal =>
    rw [forall_mem_cons]
    exact ⟨signs_subset _ mark, literal.chars⟩

theorem zero_mem_tokenChars : 48 ∈ tokenChars := by decide

theorem HexIntegerLiteral.chars (h : HexIntegerLiteral t) :
    ∀ c ∈ t, c ∈ tokenChars := by
  have hletters : ∀ c ∈ [120, 88], c ∈ tokenChars := forall_mem_of_all (by decide)
  have hdigits : ∀ c ∈ hexDigits, c ∈ tokenChars := forall_mem_of_all (by decide)
  obtain ⟨letter, number⟩ := h
  rw [forall_mem_cons, forall_mem_cons]
  exact ⟨zero_mem_tokenChars, hletters _ letter, number.mem_of_subset hdigits⟩

variable {bits : Nat}

theorem bits_of_mem_radixLetters {letter : UInt16} (h : letter ∈ radixLetters bits) :
    bits = 1 ∨ bits = 3 := by
  rw [radixLetters.eq_def] at h
  split at h
  · exact Or.inl rfl
  · exact Or.inr rfl
  · exact absurd h not_mem_nil

theorem isRadixDigit_mem (hbits : bits = 1 ∨ bits = 3) {c : UInt16}
    (h : isRadixDigit bits c = true) : c ∈ decimalDigits := by
  have hrange := of_decide_eq_true h
  have hlow : c.toNat < 56 := by
    rcases hbits with rfl | rfl
    · omega
    · omega
  have hall : ∀ n < 56, 48 ≤ n → UInt16.ofNat n ∈ decimalDigits := by decide
  have hmem := hall c.toNat hlow hrange.1
  rwa [UInt16.ofNat_toNat] at hmem

variable {value : Nat}

theorem RadixLiteral.chars (h : RadixLiteral bits t value) :
    ∀ c ∈ t, c ∈ tokenChars := by
  have hdigits : ∀ c ∈ decimalDigits, c ∈ tokenChars := forall_mem_of_all (by decide)
  obtain ⟨mark, -, number⟩ := h
  have hbits := bits_of_mem_radixLetters mark
  have hletters : ∀ c ∈ radixLetters bits, c ∈ tokenChars := by
    rcases hbits with rfl | rfl
    · exact forall_mem_of_all (by decide)
    · exact forall_mem_of_all (by decide)
  rw [forall_mem_cons, forall_mem_cons]
  exact ⟨zero_mem_tokenChars, hletters _ mark,
    fun c hc => hdigits c (isRadixDigit_mem hbits (number c hc))⟩

theorem decimalChars_subset : ∀ c ∈ decimalChars, c ∈ tokenChars :=
  fun _ hc => mem_append_left _ (mem_append_left _ hc)

theorem sign_mem_tokenChars {sign : UInt16} (h : sign ∈ signs) : sign ∈ tokenChars :=
  decimalChars_subset _ (signs_subset _ h)

theorem SignedHex.chars (h : SignedHex t) : ∀ c ∈ t, c ∈ tokenChars := by
  obtain ⟨mark, literal⟩ := h
  rw [forall_mem_cons]
  exact ⟨sign_mem_tokenChars mark, literal.chars⟩

theorem StrNumericLiteral.chars (h : StrNumericLiteral t) :
    ∀ c ∈ t, c ∈ tokenChars := by
  cases h with
  | decimal literal => exact fun c hc => decimalChars_subset c (literal.chars c hc)
  | hex literal => exact literal.chars
  | radix literal => exact literal.chars

theorem NaNSymbol.chars (h : NaNSymbol t) : ∀ c ∈ t, c ∈ tokenChars := by
  have hname : ∀ c ∈ [78, 97, 78], c ∈ tokenChars := forall_mem_of_all (by decide)
  cases h with
  | unsigned => exact hname
  | signed mark =>
    rw [forall_mem_cons]
    exact ⟨sign_mem_tokenChars mark, hname⟩

theorem not_isSpace_of_mem : ∀ c ∈ tokenChars, isSpace c = false := forall_mem_of_all (by decide)

theorem StrNumericLiteral.ne_nil (h : StrNumericLiteral t) : t ≠ [] := by
  cases h with
  | decimal literal =>
    cases literal with
    | unsigned literal => exact literal.ne_nil
    | signed _ _ => exact cons_ne_nil _ _
  | hex literal =>
    cases literal
    exact cons_ne_nil _ _
  | radix literal =>
    cases literal
    exact cons_ne_nil _ _

theorem zero_not_sign : 48 ∉ signs := by decide

theorem hexLetters_not_decimal : ∀ c ∈ [120, 88], c ∉ decimalChars := forall_mem_of_all (by decide)

theorem RadixLiteral.not_decimal (h : RadixLiteral bits t value) : ¬StrDecimalLiteral t := by
  obtain ⟨mark, -, -⟩ := h
  have hletters : ∀ c ∈ radixLetters bits, c ∉ decimalChars := by
    rcases bits_of_mem_radixLetters mark with rfl | rfl
    · exact forall_mem_of_all (by decide)
    · exact forall_mem_of_all (by decide)
  exact fun hdecimal => hletters _ mark (hdecimal.chars _ (by simp))

theorem RadixLiteral.not_hex (h : RadixLiteral bits t value) :
    ¬HexIntegerLiteral t := by
  obtain ⟨mark, -, -⟩ := h
  have hletters : ∀ c ∈ radixLetters bits, c ∉ ([120, 88] : List UInt16) := by
    rcases bits_of_mem_radixLetters mark with rfl | rfl
    · exact forall_mem_of_all (by decide)
    · exact forall_mem_of_all (by decide)
  intro hhex
  cases hhex with
  | intro letter _ => exact hletters _ mark letter

theorem SignedHex.not_literal (h : SignedHex t) : ¬StrNumericLiteral t := by
  obtain ⟨mark, literal⟩ := h
  intro hliteral
  cases hliteral with
  | decimal hdecimal =>
    obtain ⟨letter, -⟩ := literal
    exact hexLetters_not_decimal _ letter (hdecimal.chars _ (by simp))
  | hex hhex =>
    cases hhex
    exact zero_not_sign mark
  | radix hradix =>
    cases hradix
    exact zero_not_sign mark

theorem NaNSymbol.not_literal (h : NaNSymbol t) : ¬StrNumericLiteral t := by
  have hname : 78 ∉ decimalChars := by decide
  intro hliteral
  cases hliteral with
  | decimal hdecimal =>
    cases h with
    | unsigned => exact hname (hdecimal.chars _ (by simp))
    | signed _ => exact hname (hdecimal.chars _ (by simp))
  | hex hhex =>
    cases h with
    | unsigned => cases hhex
    | signed mark =>
      cases hhex
      exact zero_not_sign mark
  | radix hradix =>
    cases h with
    | unsigned => cases hradix
    | signed mark =>
      cases hradix
      exact zero_not_sign mark

theorem NaNSymbol.not_signedHex (h : NaNSymbol t) : ¬SignedHex t := by
  intro hhex
  cases h with
  | unsigned =>
    obtain ⟨mark, literal⟩ := hhex
    cases literal
  | signed mark =>
    obtain ⟨-, literal⟩ := hhex
    cases literal

theorem radixLetters_disjoint : ∀ c ∈ radixLetters 3, c ∉ radixLetters 1 :=
  forall_mem_of_all (by decide)

theorem RadixLiteral.unique {bits' value' : Nat} (h : RadixLiteral bits t value)
    (h' : RadixLiteral bits' t value') :
    bits = bits' ∧ value = value' := by
  obtain ⟨mark, -, -⟩ := h
  cases h' with
  | intro mark' _ _ =>
    have hbits : bits = bits' := by
      rcases bits_of_mem_radixLetters mark with rfl | rfl
      · rcases bits_of_mem_radixLetters mark' with rfl | rfl
        · rfl
        · exact absurd mark (radixLetters_disjoint _ mark')
      · rcases bits_of_mem_radixLetters mark' with rfl | rfl
        · exact absurd mark' (radixLetters_disjoint _ mark)
        · rfl
    subst hbits
    exact ⟨rfl, rfl⟩

end Escargot.Runtime.NumericLiteral
