/-
# Decimal indices

Integers are printed by several loops: `String::fromInt32` and
`String::fromUint32` write into a buffer of their own, and the string builder
first counts the digits. `convertToIndexNumber` reads an index back. A property
key is kept as a number up to `2 ^ 31 - 1` and as a string from there on.
-/

import Escargot.Runtime.StringCache

namespace Escargot.Runtime

open List

def decimalDigit (d : Nat) : UInt16 := .ofNat (0x30 + d)

/-- The canonical decimal numeral. -/
def numeral (n : Nat) : List UInt16 := (Nat.toDigits 10 n).map fun c => .ofNat c.toNat

def signedNumeral (v : Int) : List UInt16 :=
  if v < 0 then 0x2D :: numeral v.natAbs else numeral v.natAbs

def isDigit (c : UInt16) : Bool := decide (0x30 ≤ c.toNat) && decide (c.toNat ≤ 0x39)

def digitValue (c : UInt16) : Nat := c.toNat - 0x30

/-- The loop of `String::fromUint32`, which takes no remainder. -/
def fromUint32Loop (v : Nat) (buffer : List UInt8) : List UInt8 :=
  if 0 < v then fromUint32Loop (v / 10) (.ofNat (0x30 + v) :: buffer) else buffer
termination_by v

variable (doubleText : UInt32 → List UInt8) (v : UInt32)

def fromUint32 : List UInt8 := if v = 0 then [0x30] else fromUint32Loop v.toNat []

def isUint32Only (num : UInt32) : Bool := num &&& 0x80000000 != 0

/-- The text of `String::fromUint32(v, state)`, whatever the caches hold. -/
def fromUint32State : List UInt8 :=
  if isUint32Only v then fromUint32 v else itoa v.toInt32

def digitLength (v digits : Nat) : Nat :=
  if v ≥ 10 then digitLength (v / 10) (digits + 1) else digits
termination_by v

def decimalDigitLengthOf (value : Int32) : Nat :=
  digitLength value.toInt.natAbs 1 + if value.toInt < 0 then 1 else 0

/-- The loop of `writeInt32Digits`: the buffer, and where the digits begin. -/
def writeDigits (buffer : Nat → UInt16) (stop v : Nat) : (Nat → UInt16) × Nat :=
  if v / 10 = 0 then (Function.update buffer (stop - 1) (decimalDigit (v % 10)), stop - 1)
  else writeDigits (Function.update buffer (stop - 1) (decimalDigit (v % 10))) (stop - 1) (v / 10)
termination_by v

def writeInt32Digits (buffer : Nat → UInt16) (pos len : Nat) (value : Int32) : Nat → UInt16 :=
  if value.toInt < 0 then
    Function.update (writeDigits buffer (pos + len) value.toInt.natAbs).1
      ((writeDigits buffer (pos + len) value.toInt.natAbs).2 - 1) 0x2D
  else (writeDigits buffer (pos + len) value.toInt.natAbs).1

/-- The loop of `convertToIndexNumber`. Nothing wraps around, since the number stays up to the
limit. -/
def indexLoop (maxLimit : Nat) : Nat → List UInt16 → Nat
  | number, [] => number
  | number, c :: rest =>
    if c < 0x30 ∨ c > 0x39 then maxLimit
    else if number > (maxLimit - (c.toNat - 0x30)) / 10 then maxLimit
    else indexLoop maxLimit (number * 10 + (c.toNat - 0x30)) rest

variable (str : EString)

def convertToIndexNumber (maxLimit : Nat) : Nat :=
  match str.content with
  | [] => maxLimit
  | first :: rest =>
    if 0 < rest.length ∧ first = 0x30 then maxLimit else indexLoop maxLimit 0 (first :: rest)

/-- `Value::InvalidIndexValue` and `Value::InvalidIndex32Value`. -/
inductive IndexLimit
  | invalidIndexValue
  | invalidIndex32Value

def IndexLimit.value : IndexLimit → Nat
  | invalidIndexValue => 2 ^ 64 - 1
  | invalidIndex32Value => 2 ^ 32 - 1

/-- `String::tryToUseAsIndex` and `String::tryToUseAsIndex32`. -/
def tryToUseAsIndex : Nat :=
  convertToIndexNumber str IndexLimit.invalidIndexValue.value

def tryToUseAsIndex32 : Nat :=
  convertToIndexNumber str IndexLimit.invalidIndex32Value.value

/-- `MAXIMUM_UINT_FOR_32BIT_PROPERTY_NAME`. -/
def maximumUintForPropertyName : Nat := (2 ^ 32 - 1) >>> 1

inductive ObjectPropertyName
  | uint (value : UInt32) (le : value.toNat ≤ maximumUintForPropertyName)
  | name (string : EString)

/-- A property name from a `uint32_t`. A larger one is a number that is converted to a string. -/
def ObjectPropertyName.ofUInt32 : ObjectPropertyName :=
  if h : v.toNat ≤ maximumUintForPropertyName then uint v h else name (.latin1 (doubleText v))

/-- `toObjectStructurePropertyName`: the text under which an ordinary object keeps a property. -/
def ObjectPropertyName.structureName : ObjectPropertyName → List UInt16
  | uint value _ => (fromUint32State value).map UInt8.toUInt16
  | name string => string.content

def ObjectPropertyName.tryToUseAsIndexProperty : ObjectPropertyName → Nat
  | uint value _ => value.toNat
  | name string => tryToUseAsIndex32 string

section Numerals

variable {n d : Nat} {c : UInt16}

theorem toNat_decimalDigit (h : d < 10) : (decimalDigit d).toNat = 0x30 + d :=
  UInt16.toNat_ofNat_of_lt' (show 0x30 + d < 2 ^ 16 by omega)

theorem isDigit_iff : isDigit c = true ↔ 0x30 ≤ c.toNat ∧ c.toNat ≤ 0x39 := by
  rw [isDigit, Bool.and_eq_true, decide_eq_true_eq, decide_eq_true_eq]

theorem decimalDigit_digitValue (h : isDigit c = true) : decimalDigit (digitValue c) = c := by
  have hrange := isDigit_iff.mp h
  rw [← UInt16.toNat_inj, toNat_decimalDigit (by rw [digitValue]; omega), digitValue]
  omega

theorem toNat_digitChar (h : d < 10) : (UInt16.ofNat d.digitChar.toNat) = decimalDigit d := by
  have htable : ∀ k : Fin 10, UInt16.ofNat (Nat.digitChar k).toNat = decimalDigit k := by decide
  exact htable ⟨d, h⟩

theorem numeral_eq (n : Nat) :
    numeral n = if n < 10 then [decimalDigit n] else numeral (n / 10) ++ [decimalDigit (n % 10)] := by
  rw [numeral, Nat.toDigits_eq_if (by decide)]
  split
  · rename_i h
    rw [map_singleton, toNat_digitChar h]
  · rw [map_append, map_singleton, toNat_digitChar (Nat.mod_lt n (by decide))]
    rfl

theorem numeral_of_lt (h : n < 10) : numeral n = [decimalDigit n] := by rw [numeral_eq, if_pos h]

theorem numeral_of_ge (h : 10 ≤ n) : numeral n = numeral (n / 10) ++ [decimalDigit (n % 10)] := by
  rw [numeral_eq, if_neg (Nat.not_lt.mpr h)]

theorem length_numeral_pos (n : Nat) : 0 < (numeral n).length := by
  rw [numeral, length_map]
  exact Nat.length_toDigits_pos

/-- A number with its digits written, by the number without its last digit. -/
theorem numeral_induction {p : Nat → Prop} (small : ∀ n < 10, p n)
    (step : ∀ n, 10 ≤ n → p (n / 10) → p n) : ∀ n, p n := by
  intro n
  induction n using Nat.strong_induction_on with
  | _ n ih =>
    rcases Nat.lt_or_ge n 10 with h | h
    · exact small n h
    · exact step n h (ih (n / 10) (by omega))

theorem isDigit_of_mem_numeral (n : Nat) : ∀ c ∈ numeral n, isDigit c = true := by
  have hdigit : ∀ {d : Nat}, d < 10 → isDigit (decimalDigit d) = true := by
    intro d h
    rw [isDigit_iff, toNat_decimalDigit h]
    omega
  induction n using numeral_induction with
  | small n h =>
    intro c hc
    rw [numeral_of_lt h, mem_singleton] at hc
    exact hc ▸ hdigit h
  | step n h ih =>
    intro c hc
    rw [numeral_of_ge h, mem_append, mem_singleton] at hc
    rcases hc with hc | rfl
    · exact ih c hc
    · exact hdigit (Nat.mod_lt n (by decide))

theorem toUInt16_digit {d : Nat} (h : d < 10) :
    (UInt8.ofNat (0x30 + d)).toUInt16 = decimalDigit d := by
  rw [← UInt16.toNat_inj, UInt8.toNat_toUInt16, toNat_decimalDigit h]
  exact UInt8.toNat_ofNat_of_lt' (show 0x30 + d < 2 ^ 8 by omega)

theorem itoaLoop_eq (fuel : Nat) : ∀ {v : Nat} {buffer : List UInt8}, 0 < v → v < 10 ^ fuel →
    (itoaLoop fuel v buffer).map UInt8.toUInt16 = numeral v ++ buffer.map UInt8.toUInt16 := by
  induction fuel with
  | zero =>
    intro v buffer hpos hlt
    omega
  | succ fuel ih =>
    intro v buffer hpos hlt
    rw [itoaLoop, if_pos hpos]
    rcases Nat.lt_or_ge v 10 with h | h
    · have hdone : ∀ fuel' buffer', itoaLoop fuel' (v / 10) buffer' = buffer' := by
        intro fuel' buffer'
        rw [Nat.div_eq_of_lt h]
        cases fuel' <;> rfl
      rw [hdone, numeral_of_lt h, map_cons, Nat.mod_eq_of_lt h, toUInt16_digit h]
      rfl
    · rw [ih (by omega) (by rw [Nat.pow_succ] at hlt; omega), numeral_of_ge h, map_cons,
        toUInt16_digit (Nat.mod_lt v (by decide)), append_assoc]
      rfl

theorem itoa_eq (v : Int32) : (itoa v).map UInt8.toUInt16 = signedNumeral v.toInt := by
  have hlow := Int32.le_toInt v
  have hhigh := Int32.toInt_lt v
  by_cases hzero : v = 0
  · subst hzero
    rfl
  · have hne : v.toInt ≠ 0 := by
      intro h
      exact hzero (Int32.toInt_inj.mp h)
    have hdigits := @itoaLoop_eq 10 v.toInt.natAbs [] (by omega) (by omega)
    rw [map_nil, append_nil] at hdigits
    rw [itoa, if_neg hzero, signedNumeral]
    split
    · rw [map_cons, hdigits]
      rfl
    · exact hdigits

/-- Without the remainder a number of two digits or more is written with a character that is no
digit. -/
theorem exists_not_digit_of_ge (n : Nat) : ∀ {buffer : List UInt8}, 10 ≤ n →
    ∃ c ∈ fromUint32Loop n buffer, 0x39 < c.toNat := by
  have hkept : ∀ (n : Nat) {buffer : List UInt8} {c : UInt8}, c ∈ buffer →
      c ∈ fromUint32Loop n buffer := by
    intro n buffer c hc
    fun_induction fromUint32Loop n buffer with
    | case1 v buffer hpos ih => exact ih (mem_cons_of_mem _ hc)
    | case2 v buffer hpos => exact hc
  induction n using numeral_induction with
  | small n h =>
    intro buffer hn
    omega
  | step n h ih =>
    intro buffer _
    rw [fromUint32Loop, if_pos (by omega)]
    rcases Nat.lt_or_ge n 100 with htwo | hmore
    · refine ⟨.ofNat (0x30 + n), hkept _ mem_cons_self, ?_⟩
      rw [UInt8.toNat_ofNat_of_lt' (show 0x30 + n < 2 ^ 8 by omega)]
      omega
    · exact ih (by omega)

variable (v : UInt32)

theorem fromUint32_eq_iff : (fromUint32 v).map UInt8.toUInt16 = numeral v.toNat ↔ v.toNat < 10 := by
  constructor
  · intro heq
    by_contra hge
    have hne : ¬ v = 0 := by
      rintro rfl
      exact hge (by decide)
    obtain ⟨c, hc, hhigh⟩ := @exists_not_digit_of_ge v.toNat [] (Nat.not_lt.mp hge)
    rw [fromUint32, if_neg hne] at heq
    have hmem : c.toUInt16 ∈ numeral v.toNat := heq ▸ List.mem_map_of_mem hc
    have hrange := isDigit_iff.mp (isDigit_of_mem_numeral v.toNat _ hmem)
    rw [UInt8.toNat_toUInt16] at hrange
    omega
  · intro hlt
    rw [fromUint32, numeral_of_lt hlt]
    split
    · rename_i hzero
      rw [hzero]
      rfl
    · rename_i hzero
      have hpos : 0 < v.toNat := by
        rw [Nat.pos_iff_ne_zero]
        exact fun h => hzero (UInt32.toNat_inj.mp h)
      rw [fromUint32Loop, if_pos hpos, fromUint32Loop, if_neg (by omega), map_singleton,
        toUInt16_digit hlt]

theorem isUint32Only_iff : isUint32Only v = true ↔ 2 ^ 31 ≤ v.toNat := by
  have hlt := v.toNat_lt
  rw [isUint32Only, bne_iff_ne, ne_eq, ← UInt32.toNat_inj, UInt32.toNat_and,
    show (0x80000000 : UInt32).toNat = 2 ^ 31 by decide, Nat.and_two_pow,
    Nat.testBit_eq_decide_div_mod_eq]
  by_cases h : v.toNat / 2 ^ 31 % 2 = 1
  · rw [decide_eq_true h]
    refine iff_of_true (by decide) (by omega)
  · rw [decide_eq_false h]
    refine iff_of_false (by decide) (by omega)

theorem fromUint32State_eq_iff :
    (fromUint32State v).map UInt8.toUInt16 = numeral v.toNat ↔ v.toNat < 2 ^ 31 := by
  rw [fromUint32State]
  split
  · rename_i honly
    rw [isUint32Only_iff] at honly
    rw [fromUint32_eq_iff]
    omega
  · rename_i honly
    rw [isUint32Only_iff] at honly
    have hvalue : v.toInt32.toInt = v.toNat := by
      refine BitVec.toInt_eq_toNat_of_lt ?_
      show 2 * v.toNat < 2 ^ 32
      omega
    rw [itoa_eq, hvalue, signedNumeral, if_neg (by omega), Int.natAbs_natCast]
    exact iff_of_true rfl (Nat.not_le.mp honly)

theorem digitLength_eq (v : Nat) :
    ∀ digits, digitLength v digits + 1 = (numeral v).length + digits := by
  induction v using numeral_induction with
  | small n h =>
    intro digits
    rw [digitLength, if_neg (by omega), numeral_of_lt h, length_singleton, Nat.add_comm]
  | step n h ih =>
    intro digits
    rw [digitLength, if_pos h, ih, numeral_of_ge h, length_append, length_singleton]
    omega

theorem decimalDigitLengthOf_eq (value : Int32) :
    decimalDigitLengthOf value = (signedNumeral value.toInt).length := by
  have h := digitLength_eq value.toInt.natAbs 1
  rw [decimalDigitLengthOf, signedNumeral]
  split
  · rw [length_cons]
    omega
  · omega

def writeAt (buffer : Nat → UInt16) (pos : Nat) (text : List UInt16) : Nat → UInt16 :=
  fun k => if pos ≤ k then text[k - pos]?.getD (buffer k) else buffer k

variable (buffer : Nat → UInt16) (pos : Nat) (first second : List UInt16)

theorem writeAt_nil : writeAt buffer pos [] = buffer := by
  funext k
  rw [writeAt]
  split <;> rfl

theorem writeAt_append : writeAt (writeAt buffer pos first) (pos + first.length) second =
      writeAt buffer pos (first ++ second) := by
  funext k
  by_cases hlow : pos ≤ k
  · by_cases hmid : pos + first.length ≤ k
    · simp only [writeAt, if_pos hlow, if_pos hmid]
      rw [getElem?_append_right (by omega), Nat.sub_add_eq,
        getElem?_eq_none (show first.length ≤ k - pos by omega)]
      rfl
    · simp only [writeAt, if_pos hlow, if_neg hmid]
      rw [getElem?_append_left (by omega)]
  · simp only [writeAt, if_neg hlow, if_neg (show ¬ pos + first.length ≤ k by omega)]

theorem update_eq_writeAt (c : UInt16) : Function.update buffer pos c = writeAt buffer pos [c] := by
  funext k
  rcases Nat.lt_trichotomy k pos with h | rfl | h
  · rw [Function.update_of_ne (Nat.ne_of_lt h), writeAt, if_neg (Nat.not_le.mpr h)]
  · rw [Function.update_self, writeAt, if_pos (Nat.le_refl k), Nat.sub_self]
    rfl
  · rw [Function.update_of_ne (Nat.ne_of_gt h), writeAt, if_pos (Nat.le_of_lt h),
      getElem?_eq_none (by rw [length_singleton]; omega)]
    rfl

theorem writeAt_comm : writeAt (writeAt buffer (pos + first.length) second) pos first =
      writeAt buffer pos (first ++ second) := by
  rw [← writeAt_append]
  funext k
  by_cases hlow : pos ≤ k
  · by_cases hmid : pos + first.length ≤ k
    · simp only [writeAt, if_pos hlow, if_pos hmid]
      rw [getElem?_eq_none (show first.length ≤ k - pos by omega)]
      rfl
    · simp only [writeAt, if_pos hlow, if_neg hmid]
  · simp only [writeAt, if_neg hlow, if_neg (show ¬ pos + first.length ≤ k by omega)]

theorem writeDigits_eq (v : Nat) : ∀ (buffer : Nat → UInt16) (pos : Nat),
    writeDigits buffer (pos + (numeral v).length) v = (writeAt buffer pos (numeral v), pos) := by
  induction v using numeral_induction with
  | small n h =>
    intro buffer pos
    rw [writeDigits, if_pos (Nat.div_eq_of_lt h), numeral_of_lt h, length_singleton,
      Nat.add_sub_cancel, update_eq_writeAt, Nat.mod_eq_of_lt h]
  | step n h ih =>
    intro buffer pos
    rw [writeDigits, if_neg (by omega), numeral_of_ge h, length_append, length_singleton,
      ← Nat.add_assoc, Nat.add_sub_cancel, ih, update_eq_writeAt, writeAt_comm]

theorem writeInt32Digits_eq (value : Int32) :
    writeInt32Digits buffer pos (decimalDigitLengthOf value) value =
      writeAt buffer pos (signedNumeral value.toInt) := by
  rw [writeInt32Digits, decimalDigitLengthOf_eq, signedNumeral]
  split
  · rename_i hneg
    rw [length_cons, ← Nat.succ_add_eq_add_succ, writeDigits_eq, update_eq_writeAt]
    exact writeAt_comm buffer pos [0x2D] _
  · rw [writeDigits_eq]

variable (number : Nat) (text : List UInt16)

/-- The value of digits that are read after a number. -/
def valueFrom : Nat := text.foldl (fun number c => number * 10 + digitValue c) number

theorem le_valueFrom : ∀ number, number ≤ valueFrom number text := by
  induction text with
  | nil => exact fun number => Nat.le_refl number
  | cons c text ih =>
    intro number
    refine Nat.le_trans ?_ (ih (number * 10 + digitValue c))
    omega

variable {maxLimit : Nat}

theorem indexLoop_eq (hlimit : 9 ≤ maxLimit) (text : List UInt16) :
    ∀ {number : Nat}, number ≤ maxLimit → indexLoop maxLimit number text =
        if (∀ c ∈ text, isDigit c = true) ∧ valueFrom number text ≤ maxLimit then
          valueFrom number text
        else maxLimit := by
  induction text with
  | nil =>
    intro number hnumber
    rw [indexLoop, if_pos ⟨fun c hc => absurd hc not_mem_nil, hnumber⟩]
    rfl
  | cons c text ih =>
    intro number hnumber
    rw [indexLoop]
    have hdigit : (c < 0x30 ∨ c > 0x39) ↔ ¬ isDigit c = true := by
      rw [isDigit_iff, gt_iff_lt, UInt16.lt_iff_toNat_lt, UInt16.lt_iff_toNat_lt,
        show (0x30 : UInt16).toNat = 0x30 by decide, show (0x39 : UInt16).toNat = 0x39 by decide]
      omega
    by_cases hc : isDigit c = true
    · have hrange := isDigit_iff.mp hc
      have hvalue : c.toNat - 0x30 = digitValue c := rfl
      rw [if_neg (hdigit.not.mpr (not_not.mpr hc)), hvalue]
      have hle := le_valueFrom text (number * 10 + digitValue c)
      have hcons : valueFrom number (c :: text) = valueFrom (number * 10 + digitValue c) text := rfl
      by_cases hover : number > (maxLimit - digitValue c) / 10
      · rw [if_pos hover, if_neg]
        rintro ⟨-, hfits⟩
        omega
      · rw [if_neg hover, ih (by omega), hcons]
        simp only [forall_mem_cons, hc, true_and]
    · rw [if_pos (hdigit.mpr hc), if_neg]
      exact fun h => hc (h.1 c mem_cons_self)

theorem valueFrom_append (first second : List UInt16) :
    valueFrom number (first ++ second) = valueFrom (valueFrom number first) second :=
  foldl_append

theorem digitValue_decimalDigit (h : d < 10) : digitValue (decimalDigit d) = d := by
  rw [digitValue, toNat_decimalDigit h, Nat.add_sub_cancel_left]

theorem valueFrom_numeral (n : Nat) : valueFrom 0 (numeral n) = n := by
  induction n using numeral_induction with
  | small n h =>
    rw [numeral_of_lt h]
    show 0 * 10 + digitValue (decimalDigit n) = n
    rw [digitValue_decimalDigit h]
    omega
  | step n h ih =>
    rw [numeral_of_ge h, valueFrom_append, ih]
    show n / 10 * 10 + digitValue (decimalDigit (n % 10)) = n
    rw [digitValue_decimalDigit (Nat.mod_lt n (by decide))]
    omega

/-- A text that a canonical numeral may be. -/
def IsCanonical : Prop :=
  text ≠ [] ∧ (∀ c ∈ text, isDigit c = true) ∧ (1 < text.length → text.head? ≠ some 0x30)

theorem head?_numeral (n : Nat) (hn : 0 < n) : (numeral n).head? ≠ some 0x30 := by
  induction n using numeral_induction with
  | small n h =>
    rw [numeral_of_lt h, head?_cons, ne_eq, Option.some.injEq, ← UInt16.toNat_inj,
      toNat_decimalDigit h]
    show ¬ 0x30 + n = 0x30
    omega
  | step n h ih =>
    rw [numeral_of_ge h, head?_append_of_ne_nil]
    · exact ih (by omega)
    · exact ne_nil_of_length_pos (length_numeral_pos _)

theorem isCanonical_numeral (n : Nat) : IsCanonical (numeral n) := by
  refine ⟨ne_nil_of_length_pos (length_numeral_pos n), isDigit_of_mem_numeral n, ?_⟩
  intro hlength
  refine head?_numeral n (Nat.pos_of_ne_zero ?_)
  rintro rfl
  exact absurd hlength (by decide)

theorem numeral_valueFrom (h : IsCanonical text) : numeral (valueFrom 0 text) = text := by
  induction text using List.reverseRecOn with
  | nil => exact absurd rfl h.1
  | append_singleton front c ih =>
    obtain ⟨-, hdigits, hhead⟩ := h
    have hc : isDigit c = true := hdigits c (mem_append_right front mem_cons_self)
    have hlt : digitValue c < 10 := by
      have hrange := isDigit_iff.mp hc
      rw [digitValue]
      omega
    rw [valueFrom_append]
    show numeral (valueFrom 0 front * 10 + digitValue c) = front ++ [c]
    rcases front with _ | ⟨first, rest⟩
    · show numeral (0 * 10 + digitValue c) = [c]
      rw [Nat.zero_mul, Nat.zero_add, numeral_of_lt hlt, decimalDigit_digitValue hc]
    · have hfront : IsCanonical (first :: rest) := by
        refine ⟨cons_ne_nil _ _, fun k hk => hdigits k (mem_append_left _ hk), ?_⟩
        exact fun _ => hhead (by rw [length_append, length_cons]; simp)
      have hvalue := ih hfront
      have hpos : 0 < valueFrom 0 (first :: rest) := by
        rw [Nat.pos_iff_ne_zero]
        intro hzero
        rw [hzero] at hvalue
        have hfirst : first = 0x30 := (List.cons.inj hvalue).1.symm
        refine hhead ?_ ?_
        · rw [length_append, length_cons, length_singleton]
          omega
        · rw [hfirst]
          rfl
      rw [numeral_of_ge (by omega), show (valueFrom 0 (first :: rest) * 10 + digitValue c) / 10 =
        valueFrom 0 (first :: rest) by omega, hvalue,
        show (valueFrom 0 (first :: rest) * 10 + digitValue c) % 10 = digitValue c by omega,
        decimalDigit_digitValue hc]

variable (str : EString)

theorem convertToIndexNumber_cases (hlimit : 9 ≤ maxLimit) :
    (IsCanonical str.content ∧ valueFrom 0 str.content ≤ maxLimit ∧
        convertToIndexNumber str maxLimit = valueFrom 0 str.content) ∨
      (¬ (IsCanonical str.content ∧ valueFrom 0 str.content ≤ maxLimit) ∧
        convertToIndexNumber str maxLimit = maxLimit) := by
  rw [convertToIndexNumber]
  cases str.content with
  | nil => exact .inr ⟨fun h => h.1.1 rfl, rfl⟩
  | cons first rest =>
    dsimp only
    by_cases hzero : 0 < rest.length ∧ first = 0x30
    · rw [if_pos hzero]
      refine .inr ⟨fun h => h.1.2.2 ?_ ?_, rfl⟩
      · rw [length_cons]
        omega
      · rw [hzero.2]
        rfl
    · rw [if_neg hzero, indexLoop_eq hlimit _ (Nat.zero_le _)]
      have hhead : 1 < (first :: rest).length → (first :: rest).head? ≠ some 0x30 := by
        intro hlength hfirst
        rw [length_cons] at hlength
        exact hzero ⟨by omega, Option.some.inj hfirst⟩
      split
      · rename_i h
        exact .inl ⟨⟨cons_ne_nil _ _, h.1, hhead⟩, h.2, rfl⟩
      · rename_i h
        exact .inr ⟨fun h' => h ⟨h'.1.2.1, h'.2⟩, rfl⟩

theorem convertToIndexNumber_eq_iff (hlimit : 9 ≤ maxLimit) (hn : n < maxLimit) :
    convertToIndexNumber str maxLimit = n ↔ str.content = numeral n := by
  constructor
  · intro h
    rcases convertToIndexNumber_cases str hlimit with ⟨hcanonical, -, hvalue⟩ | ⟨-, hfailed⟩
    · rw [← h, hvalue, numeral_valueFrom _ hcanonical]
    · omega
  · intro h
    have hcanonical := isCanonical_numeral n
    have hvalue := valueFrom_numeral n
    rcases convertToIndexNumber_cases str hlimit with ⟨-, -, hvalue'⟩ | ⟨hnot, -⟩
    · rw [hvalue', h, hvalue]
    · rw [h] at hnot
      exact absurd ⟨hcanonical, by omega⟩ hnot

theorem convertToIndexNumber_le (hlimit : 9 ≤ maxLimit) :
    convertToIndexNumber str maxLimit ≤ maxLimit := by
  rcases convertToIndexNumber_cases str hlimit with ⟨-, hle, hvalue⟩ | ⟨-, hfailed⟩
  · rw [hvalue]
    exact hle
  · exact Nat.le_of_eq hfailed

end Numerals

/-- Printing and reading are inverse except where a `uint32_t` is printed on its own: integers
of 32 bits are printed as their numerals, an index is found exactly in its numeral, and a property
is kept under the same name and the same index for an integer and for its numeral. But
`String::fromUint32(v)` prints the numeral of one digit only, and with a state up to `2 ^ 31 - 1`. -/
theorem decimal_indices (doubleText : UInt32 → List UInt8)
    (hdouble : ∀ v : UInt32, maximumUintForPropertyName < v.toNat →
      (doubleText v).map UInt8.toUInt16 = numeral v.toNat) :
    (∀ v : UInt32, (fromUint32 v).map UInt8.toUInt16 = numeral v.toNat ↔ v.toNat < 10) ∧
      (∀ v : UInt32, (fromUint32State v).map UInt8.toUInt16 = numeral v.toNat ↔ v.toNat < 2 ^ 31) ∧
      (∀ v : Int32, (itoa v).map UInt8.toUInt16 = signedNumeral v.toInt ∧
        decimalDigitLengthOf v = (signedNumeral v.toInt).length ∧
        ∀ buffer pos, writeInt32Digits buffer pos (decimalDigitLengthOf v) v =
          writeAt buffer pos (signedNumeral v.toInt)) ∧
      (∀ (str : EString) (limit : IndexLimit), convertToIndexNumber str limit.value ≤ limit.value ∧
        ∀ n < limit.value, convertToIndexNumber str limit.value = n ↔ str.content = numeral n) ∧
      ∀ (v : UInt32) (str : EString), ((ObjectPropertyName.ofUInt32 doubleText v).structureName =
            (ObjectPropertyName.name str).structureName ↔ str.content = numeral v.toNat) ∧
          (v.toNat < IndexLimit.invalidIndex32Value.value →
            ((ObjectPropertyName.ofUInt32 doubleText v).tryToUseAsIndexProperty = v.toNat ∧
              ((ObjectPropertyName.name str).tryToUseAsIndexProperty = v.toNat ↔
                str.content = numeral v.toNat))) := by
  have hlimit : ∀ limit : IndexLimit, 9 ≤ limit.value := by
    intro limit
    cases limit <;> decide
  refine ⟨fromUint32_eq_iff, fromUint32State_eq_iff, fun v => ?_, fun str limit => ?_,
    fun v str => ⟨?_, fun hv => ⟨?_, ?_⟩⟩⟩
  · exact ⟨itoa_eq v, decimalDigitLengthOf_eq v, fun buffer pos => writeInt32Digits_eq buffer pos v⟩
  · exact ⟨convertToIndexNumber_le str (hlimit limit),
      fun n hn => convertToIndexNumber_eq_iff str (hlimit limit) hn⟩
  · have hname : (ObjectPropertyName.ofUInt32 doubleText v).structureName = numeral v.toNat := by
      rw [ObjectPropertyName.ofUInt32]
      split
      · rename_i hle
        have hsmall : v.toNat < 2 ^ 31 := Nat.lt_succ_of_le hle
        exact (fromUint32State_eq_iff v).mpr hsmall
      · rename_i hgt
        exact hdouble v (Nat.not_le.mp hgt)
    rw [hname]
    exact eq_comm
  · rw [ObjectPropertyName.ofUInt32]
    split
    · rfl
    · rename_i hgt
      exact (convertToIndexNumber_eq_iff (.latin1 (doubleText v)) (hlimit _) hv).mpr
        (hdouble v (Nat.not_le.mp hgt))
  · exact convertToIndexNumber_eq_iff str (hlimit _) hv

/-- The text of a `uint32_t`, digit by digit. -/
def uint32Text (v : UInt32) : List UInt8 := (Nat.toDigits 10 v.toNat).map fun c => .ofNat c.toNat

theorem uint32Text_eq (v : UInt32) : (uint32Text v).map UInt8.toUInt16 = numeral v.toNat := by
  rw [uint32Text, numeral, List.map_map]
  apply map_congr_left
  intro c hc
  have hdigit := Nat.isDigit_of_mem_toDigits (by decide) (by decide) hc
  have hlt : c.toNat < 2 ^ 8 := by
    simp only [Char.isDigit, Bool.and_eq_true, decide_eq_true_eq] at hdigit
    have hhigh := UInt32.le_iff_toNat_le.mp hdigit.2
    exact Nat.lt_of_le_of_lt hhigh (by decide)
  show (UInt8.ofNat c.toNat).toUInt16 = UInt16.ofNat c.toNat
  rw [← UInt16.toNat_inj, UInt8.toNat_toUInt16, UInt8.toNat_ofNat_of_lt' hlt,
    UInt16.toNat_ofNat_of_lt' (Nat.lt_trans hlt (by decide))]

/-- With the numerals of the larger numbers, the last index is an index as a number and as its
numeral. -/
theorem decimal_indices_last :
    (ObjectPropertyName.ofUInt32 uint32Text 4294967294).tryToUseAsIndexProperty =
        (4294967294 : UInt32).toNat ∧
      ((ObjectPropertyName.name (.latin1 (uint32Text 4294967294))).tryToUseAsIndexProperty =
          (4294967294 : UInt32).toNat ↔
        (uint32Text 4294967294).map UInt8.toUInt16 = numeral (4294967294 : UInt32).toNat) :=
  ((decimal_indices uint32Text (fun v _ => uint32Text_eq v)).2.2.2.2 4294967294
    (.latin1 (uint32Text 4294967294))).2 (by decide)

/-- Ten is printed as `1:`. -/
theorem ten_is_not_printed :
    ¬ ∀ v : UInt32, (fromUint32 v).map UInt8.toUInt16 = numeral v.toNat := by
  intro hall
  exact absurd ((fromUint32_eq_iff 10).mp (hall 10)) (by decide)

end Escargot.Runtime
