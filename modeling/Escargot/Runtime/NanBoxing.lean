/-
# NaN-boxed values

On a 64-bit target a `Value` is one word. Doubles are stored with an additive
offset of `2^48`, so their upper sixteen bits lie in `0x0001..0xFFFE`; int32s
have them all set, and pointers and the other immediates have them all clear.
This module states the constructors, predicates and accessors on the word, and
proves that the word determines the kind and the content of what was stored.
-/

import Escargot.Runtime.Value
import Escargot.Foundation.BitFields

namespace Escargot.Runtime

open Option

/-- The two byte orders the predicates on the upper bits are written for. -/
inductive ByteOrder
  | little
  | big

/-- The encoded word of a `Value`, `u.asInt64`. -/
abbrev ValueWord := UInt64

namespace ValueWord

def tagBitTypeOther : ValueWord := 0x2

def tagTypeShift : ValueWord := 2

def valueFalse : ValueWord := tagBitTypeOther ||| (0 <<< tagTypeShift)

def valueTrue : ValueWord := tagBitTypeOther ||| (1 <<< tagTypeShift)

def valueNull : ValueWord := tagBitTypeOther ||| (2 <<< tagTypeShift)

def valueUndefined : ValueWord := tagBitTypeOther ||| (3 <<< tagTypeShift)

def valueEmpty : ValueWord := 0x0

/-- `DoubleEncodeOffset`, which is `2^48`. -/
def doubleEncodeOffset : ValueWord := 0x1000000000000

/-- `DoubleInvalidBeginning`: the patterns the offset would carry out of range. -/
def doubleInvalidBeginning : ValueWord := 0xfffe000000000000

def tagTypeNumber : ValueWord := 0xffff000000000000

def tagMask : ValueWord := tagTypeNumber ||| tagBitTypeOther

/-- `std::numeric_limits<double>::quiet_NaN()`. -/
def quietNaN : Double := 0x7ff8000000000000

/-- `Value(EncodeAsDouble, d)`: the addition wraps around. -/
def encodeAsDouble (d : Double) : ValueWord := d + doubleEncodeOffset

/-- `Value(int)`. -/
def ofInt (i : Int32) : ValueWord := tagTypeNumber ||| i.toUInt32.toUInt64

/-- `Value(bool)`. -/
def ofBool (b : Bool) : ValueWord := tagBitTypeOther ||| (b.toUInt64 <<< tagTypeShift)

/-- `Value(PointerValue*)`. -/
def ofPointer (address : UInt64) : ValueWord := address

/-- `Value(DoubleToIntConvertibleTestNeeds, d)`. -/
def doubleToIntConvertibleTestNeeds (d : Double) : ValueWord :=
  match isInt32ConvertibleDouble d with
  | some asInt32 => ofInt asInt32
  | none =>
    if d &&& doubleInvalidBeginning == doubleInvalidBeginning then encodeAsDouble quietNaN
    else encodeAsDouble d

variable (order : ByteOrder) (w : ValueWord)

/-- `firstByte[3]`: the upper sixteen bits as a little-endian target reads them. -/
def upperBits : UInt64 := w >>> 48

def isInt32 : Bool :=
  match order with
  | .little => w.upperBits == 0xffff
  | .big => w &&& tagTypeNumber == tagTypeNumber

def isNumber : Bool :=
  match order with
  | .little => w.upperBits != 0
  | .big => w &&& tagTypeNumber != 0

def isDouble : Bool := isNumber order w && !isInt32 order w

def isEmpty : Bool := w == valueEmpty

def isPointerValue : Bool := w &&& tagMask == 0

def isUndefined : Bool := w == valueUndefined

def isNull : Bool := w == valueNull

def isBoolean : Bool := w ||| (1 <<< tagTypeShift) == valueTrue

def asInt32 : Int32 := w.toUInt32.toInt32

def asBoolean : Bool := w == valueTrue

def asDouble : Double := w - doubleEncodeOffset

def asNumber : Double := if isInt32 order w then .ofInt32 w.asInt32 else w.asDouble

def asPointerValue : UInt64 := w

end ValueWord

/-- The exclusive predicates on a word, by the kind they test for. -/
inductive ValueKind
  | empty
  | undefined
  | null
  | boolean
  | int32
  | double
  | pointer
  deriving DecidableEq

/-- The type predicate of a kind. -/
def ValueWord.holds (order : ByteOrder) (w : ValueWord) : ValueKind → Bool
  | .empty => w.isEmpty
  | .undefined => w.isUndefined
  | .null => w.isNull
  | .boolean => w.isBoolean
  | .int32 => ValueWord.isInt32 order w
  | .double => ValueWord.isDouble order w
  | .pointer => w.isPointerValue

/-- What the second word of a cell says about it, by the class of the cell. -/
inductive PointeeKind
  | object
  | string
  | symbol
  | bigInt

def stringTagInData : UInt64 := 1

def symbolTagInData : UInt64 := (1 : UInt64) <<< 1

def bigIntTagInData : UInt64 := (1 : UInt64) <<< 2

def numberTagInData : UInt64 := symbolTagInData ||| bigIntTagInData

def notObjectTagInData : UInt64 :=
  stringTagInData ||| symbolTagInData ||| bigIntTagInData ||| numberTagInData

/-- The predicates `PointerValue` answers from the type tag alone. -/
def PointeeKind.holds (typeTag : UInt64) : PointeeKind → Bool
  | .object => typeTag &&& notObjectTagInData == 0
  | .string => typeTag &&& stringTagInData != 0
  | .symbol => typeTag == symbolTagInData
  | .bigInt => typeTag == bigIntTagInData

/-- The type tags the cells of a class carry: an object has its structure pointer
there, a string an odd word. -/
def PointeeKind.Tags (typeTag : UInt64) : PointeeKind → Prop
  | .object => typeTag.toNat % 8 = 0
  | .string => typeTag.toNat % 2 = 1
  | .symbol => typeTag = symbolTagInData
  | .bigInt => typeTag = bigIntTagInData

/-- The address of a live cell: 48 bits wide and aligned, with the type tag of
one of the four classes. -/
structure ValidPointer where
  address : UInt64
  typeTag : UInt64
  pointee : PointeeKind
  nonNull : address ≠ 0
  canonical : address.toNat < 2 ^ 48
  aligned : address.toNat % 4 = 0
  tagged : pointee.Tags typeTag

example : ValidPointer := ⟨4096, 16, .object, by decide, by decide, by decide, rfl⟩

/-- What the constructors store in a word. -/
inductive Stored
  | empty
  | undefined
  | null
  | boolean (b : Bool)
  | int32 (i : Int32)
  | double (d : Double)
  | pointer (p : ValidPointer)

namespace Stored

/-- The constructor that stores the content. -/
def encode : Stored → ValueWord
  | empty => ValueWord.valueEmpty
  | undefined => ValueWord.valueUndefined
  | null => ValueWord.valueNull
  | boolean b => ValueWord.ofBool b
  | int32 i => ValueWord.ofInt i
  | double d => ValueWord.doubleToIntConvertibleTestNeeds d
  | pointer p => ValueWord.ofPointer p.address

def kind : Stored → ValueKind
  | empty => .empty
  | undefined => .undefined
  | null => .null
  | boolean _ => .boolean
  | int32 _ => .int32
  | double d => if (isInt32ConvertibleDouble d).isSome then .int32 else .double
  | pointer _ => .pointer

/-- The accessor of the kind returns the content. A NaN reads as some NaN, and
every other double bit by bit. -/
def ReadsBack (order : ByteOrder) (w : ValueWord) : Stored → Prop
  | empty => w = ValueWord.valueEmpty
  | undefined => w = ValueWord.valueUndefined
  | null => w = ValueWord.valueNull
  | boolean b => w.asBoolean = b
  | int32 i => w.asInt32 = i
  | double d =>
    if d.isnan then (ValueWord.asNumber order w).isnan = true
    else ValueWord.asNumber order w = d
  | pointer p => w.asPointerValue = p.address ∧ ∀ k, k.holds p.typeTag = true ↔ k = p.pointee

end Stored

namespace ValueWord

open Foundation

variable (w : ValueWord)

theorem toNat_upperBits : w.upperBits.toNat = w.toNat / 2 ^ 48 := by
  rw [upperBits, UInt64.toNat_shiftRight, Nat.shiftRight_eq_div_pow]
  rfl

theorem toNat_and_tagTypeNumber : (w &&& tagTypeNumber).toNat = w.toNat / 2 ^ 48 * 2 ^ 48 := by
  have hlt := w.toNat_lt
  rw [UInt64.toNat_and, show tagTypeNumber.toNat = (2 ^ 16 - 1) * 2 ^ 48 from rfl, and_fieldMask]
  omega

variable (order : ByteOrder)

theorem isInt32_iff (w : ValueWord) : isInt32 order w = true ↔ w.toNat / 2 ^ 48 = 0xffff := by
  cases order with
  | little =>
    rw [isInt32, beq_iff_eq, ← UInt64.toNat_inj, toNat_upperBits]
    rfl
  | big =>
    rw [isInt32, beq_iff_eq, ← UInt64.toNat_inj, toNat_and_tagTypeNumber,
      show tagTypeNumber.toNat = 0xffff * 2 ^ 48 from rfl]
    omega

theorem isNumber_iff (w : ValueWord) : isNumber order w = true ↔ w.toNat / 2 ^ 48 ≠ 0 := by
  cases order with
  | little =>
    rw [isNumber, bne_iff_ne, ne_eq, ← UInt64.toNat_inj, toNat_upperBits]
    rfl
  | big =>
    rw [isNumber, bne_iff_ne, ne_eq, ← UInt64.toNat_inj, toNat_and_tagTypeNumber, UInt64.toNat_zero]
    omega

theorem isDouble_iff (w : ValueWord) :
    isDouble order w = true ↔ w.toNat / 2 ^ 48 ≠ 0 ∧ w.toNat / 2 ^ 48 ≠ 0xffff := by
  rw [isDouble, Bool.and_eq_true, isNumber_iff, Bool.not_eq_true', Bool.eq_false_iff]
  exact and_congr_right' (not_congr (isInt32_iff order w))

/-- The mask tests the upper bits and the bit of the immediates. -/
theorem isPointerValue_iff :
    w.isPointerValue = true ↔ w.toNat / 2 ^ 48 = 0 ∧ w.toNat / 2 % 2 = 0 := by
  have hlt := w.toNat_lt
  have hmask : tagMask.toNat = (2 ^ 16 - 1) * 2 ^ 48 ||| (2 ^ 1 - 1) * 2 ^ 1 := by decide
  rw [isPointerValue, beq_iff_eq, ← UInt64.toNat_inj, UInt64.toNat_and, hmask, and_or_fieldMask,
    UInt64.toNat_zero, Nat.or_eq_zero_iff]
  omega

theorem isBoolean_iff : w.isBoolean = true ↔ w.toNat = 2 ∨ w.toNat = 6 := by
  rw [isBoolean, beq_iff_eq, ← UInt64.toNat_inj, UInt64.toNat_or,
    show ((1 : UInt64) <<< tagTypeShift).toNat = 4 from rfl, show valueTrue.toNat = 6 from rfl]
  generalize w.toNat = n
  constructor
  · intro h
    have hle : n ≤ 6 := by
      rw [← h]
      exact Nat.left_le_or
    interval_cases n <;> simp_all
  · rintro (rfl | rfl) <;> rfl

theorem isEmpty_iff : w.isEmpty = true ↔ w.toNat = 0 := by
  rw [isEmpty, beq_iff_eq, ← UInt64.toNat_inj]
  rfl

theorem isUndefined_iff : w.isUndefined = true ↔ w.toNat = 14 := by
  rw [isUndefined, beq_iff_eq, ← UInt64.toNat_inj]
  rfl

theorem isNull_iff : w.isNull = true ↔ w.toNat = 10 := by
  rw [isNull, beq_iff_eq, ← UInt64.toNat_inj]
  rfl

theorem holds_iff (w : ValueWord) (k : ValueKind) : w.holds order k = true ↔ match k with
      | .empty => w.toNat = 0
      | .undefined => w.toNat = 14
      | .null => w.toNat = 10
      | .boolean => w.toNat = 2 ∨ w.toNat = 6
      | .int32 => w.toNat / 2 ^ 48 = 0xffff
      | .double => w.toNat / 2 ^ 48 ≠ 0 ∧ w.toNat / 2 ^ 48 ≠ 0xffff
      | .pointer => w.toNat / 2 ^ 48 = 0 ∧ w.toNat / 2 % 2 = 0 := by
  cases k with
  | empty => exact isEmpty_iff w
  | undefined => exact isUndefined_iff w
  | null => exact isNull_iff w
  | boolean => exact isBoolean_iff w
  | int32 => exact isInt32_iff order w
  | double => exact isDouble_iff order w
  | pointer => exact isPointerValue_iff w

theorem holds_unique {w : ValueWord} (hne : w.toNat ≠ 0) {j k : ValueKind}
    (hj : w.holds order j = true) (hk : w.holds order k = true) : j = k := by
  rw [holds_iff] at hj hk
  cases j <;> cases k <;> first
    | rfl
    | (simp only at hj hk
       omega)

theorem toNat_ofInt (i : Int32) : (ofInt i).toNat = 0xffff * 2 ^ 48 + i.toUInt32.toNat := by
  have hlt := i.toUInt32.toNat_lt
  rw [ofInt, UInt64.toNat_or, UInt32.toNat_toUInt64,
    show tagTypeNumber.toNat = 0xffff * 2 ^ 48 from rfl, or_eq_add _ (by omega)]

theorem asInt32_ofInt (i : Int32) : (ofInt i).asInt32 = i := by
  have hlt := i.toUInt32.toNat_lt
  have hbits : (ofInt i).toUInt32 = i.toUInt32 := by
    rw [← UInt32.toNat_inj, UInt64.toNat_toUInt32, toNat_ofInt]
    omega
  rw [asInt32, hbits, Int32.toInt32_toUInt32]

/-- The patterns the filter replaces are those from `0xFFFE` on, all of them NaN. -/
theorem invalidBeginning_iff (d : Double) :
    (d &&& doubleInvalidBeginning == doubleInvalidBeginning) = true ↔
      0xfffe * 2 ^ 48 ≤ d.toNat := by
  have hlt := d.toNat_lt
  rw [beq_iff_eq, ← UInt64.toNat_inj, UInt64.toNat_and,
    show doubleInvalidBeginning.toNat = (2 ^ 15 - 1) * 2 ^ 49 from rfl, and_fieldMask]
  omega

theorem toNat_encodeAsDouble {d : Double} (hd : d.toNat < 0xfffe * 2 ^ 48) :
    (encodeAsDouble d).toNat = d.toNat + 2 ^ 48 := by
  rw [encodeAsDouble, UInt64.toNat_add, show doubleEncodeOffset.toNat = 2 ^ 48 from rfl]
  omega

theorem asDouble_encodeAsDouble (d : Double) : (encodeAsDouble d).asDouble = d := by
  rw [asDouble, encodeAsDouble, UInt64.add_sub_cancel]

theorem isnan_of_invalidBeginning {d : Double} (hd : 0xfffe * 2 ^ 48 ≤ d.toNat) :
    d.isnan = true := by
  have hlt := d.toNat_lt
  rw [Double.isnan, decide_eq_true_eq, UInt64.lt_iff_toNat_lt, Double.toNat_magnitude]
  show 0x7ff0000000000000 < _
  omega

end ValueWord

theorem Double.signbit_iff (d : Double) : d.signbit = true ↔ 2 ^ 63 ≤ d.toNat := by
  rw [Double.signbit, decide_eq_true_eq, UInt64.le_iff_toNat_le]
  rfl

theorem Double.eq_of_isZero {a b : Double} (ha : a.isZero = true) (hb : b.isZero = true)
    (hsign : a.signbit = b.signbit) : a = b := by
  have hlta := a.toNat_lt
  have hltb := b.toNat_lt
  have hiff := Bool.eq_iff_iff.mp hsign
  rw [Double.signbit_iff, Double.signbit_iff] at hiff
  rw [Double.isZero, beq_iff_eq, ← UInt64.toNat_inj, Double.toNat_magnitude,
    UInt64.toNat_zero] at ha hb
  rw [← UInt64.toNat_inj]
  omega

theorem isInt32ConvertibleDouble_exact {d : Double} {i : Int32}
    (h : isInt32ConvertibleDouble d = some i) : Double.ofInt32 i = d := by
  simp only [isInt32ConvertibleDouble] at h
  split at h
  · cases h
  · rename_i hcond
    simp only [Option.some.injEq] at h
    simp only [h, Double.eq, Bool.or_eq_true, not_or, Bool.not_eq_true, Bool.not_eq_false',
      Bool.and_eq_true, beq_iff_eq, Double.isZero_ofInt32, decide_eq_true_eq] at hcond
    obtain ⟨⟨-, heq | ⟨hzero, hmag⟩⟩, hsign⟩ := hcond
    · exact heq
    · -- Both are zeros, and the sign test has excluded the negative one.
      subst hzero
      have hpos : d.signbit = false := Bool.eq_false_iff.mpr fun hneg => hsign ⟨rfl, hneg⟩
      exact Double.eq_of_isZero (by decide) hmag (hpos.symm ▸ by decide)

namespace PointeeKind

/-- The type tag of a cell satisfies the predicate of its class and no other. -/
theorem holds_iff {typeTag : UInt64} {pointee : PointeeKind} (h : pointee.Tags typeTag)
    (k : PointeeKind) : k.holds typeTag = true ↔ k = pointee := by
  have hobject : (typeTag &&& notObjectTagInData).toNat = typeTag.toNat % 8 := by
    rw [UInt64.toNat_and, show notObjectTagInData.toNat = (2 ^ 3 - 1) * 2 ^ 0 from rfl,
      Foundation.and_fieldMask]
    omega
  have hstring : (typeTag &&& stringTagInData).toNat = typeTag.toNat % 2 := by
    rw [UInt64.toNat_and, show stringTagInData.toNat = (2 ^ 1 - 1) * 2 ^ 0 from rfl,
      Foundation.and_fieldMask]
    omega
  have hsymbol : symbolTagInData.toNat = 2 := rfl
  have hbigInt : bigIntTagInData.toNat = 4 := rfl
  cases pointee <;> cases k <;>
    simp only [Tags, holds, beq_iff_eq, bne_iff_ne, ne_eq, ← UInt64.toNat_inj, hobject, hstring,
      hsymbol, hbigInt, UInt64.toNat_zero, reduceCtorEq, iff_false, iff_true] at h ⊢ <;>
    omega

end PointeeKind

namespace Stored

open ValueWord

theorem encode_double_cases (d : Double) :
    (∃ i, isInt32ConvertibleDouble d = some i ∧ (double d).encode = ofInt i) ∨
      (isInt32ConvertibleDouble d = none ∧ ∃ stored : Double,
        stored.toNat < 0xfffe * 2 ^ 48 ∧ (double d).encode = encodeAsDouble stored ∧
          (stored = d ∨ d.isnan = true ∧ stored.isnan = true)) := by
  cases hconvertible : isInt32ConvertibleDouble d with
  | some i => exact .inl ⟨i, rfl, by rw [encode, doubleToIntConvertibleTestNeeds, hconvertible]⟩
  | none =>
    have hword : (double d).encode =
        if d &&& doubleInvalidBeginning == doubleInvalidBeginning then encodeAsDouble quietNaN
        else encodeAsDouble d := by
      rw [encode, doubleToIntConvertibleTestNeeds, hconvertible]
    refine .inr ⟨rfl, ?_⟩
    rw [hword]
    by_cases hinvalid : 0xfffe * 2 ^ 48 ≤ d.toNat
    · rw [if_pos ((invalidBeginning_iff d).mpr hinvalid)]
      exact ⟨quietNaN, by decide, rfl, .inr ⟨isnan_of_invalidBeginning hinvalid, by decide⟩⟩
    · rw [if_neg (fun h => hinvalid ((invalidBeginning_iff d).mp h))]
      exact ⟨d, Nat.not_le.mp hinvalid, rfl, .inl rfl⟩

variable (order : ByteOrder) (s : Stored)

theorem holds_kind : s.encode.holds order s.kind = true := by
  rw [holds_iff]
  cases s with
  | empty | undefined | null => rfl
  | boolean b =>
    cases b with
    | false => exact .inl rfl
    | true => exact .inr rfl
  | int32 i =>
    have hlt := i.toUInt32.toNat_lt
    show (ofInt i).toNat / 2 ^ 48 = 0xffff
    rw [toNat_ofInt]
    omega
  | double d =>
    obtain ⟨i, hsome, hword⟩ | ⟨hnone, stored, hlt, hword, -⟩ := encode_double_cases d
    · have hlt := i.toUInt32.toNat_lt
      simp only [kind, hsome, isSome_some, if_true]
      rw [hword, toNat_ofInt]
      omega
    · simp only [kind, hnone, isSome_none, Bool.false_eq_true, if_false]
      rw [hword, toNat_encodeAsDouble hlt]
      omega
  | pointer p =>
    have hcanonical := p.canonical
    have haligned := p.aligned
    show p.address.toNat / 2 ^ 48 = 0 ∧ p.address.toNat / 2 % 2 = 0
    omega

theorem encode_ne_zero {s : Stored} (h : s ≠ empty) : s.encode.toNat ≠ 0 := by
  have hholds := holds_kind .little s
  rw [holds_iff] at hholds
  cases s with
  | empty => exact absurd rfl h
  | undefined | null => decide
  | boolean b => cases b <;> decide
  | int32 i =>
    intro hzero
    simp only [hzero, kind] at hholds
    omega
  | double d =>
    intro hzero
    by_cases hconvertible : (isInt32ConvertibleDouble d).isSome = true
    · simp only [hzero, kind, if_pos hconvertible] at hholds
      omega
    · simp only [hzero, kind, if_neg hconvertible] at hholds
      omega
  | pointer p => exact fun hzero => p.nonNull (UInt64.toNat_inj.mp hzero)

theorem readsBack : s.ReadsBack order s.encode := by
  cases s with
  | empty | undefined | null => rfl
  | boolean b => cases b <;> rfl
  | int32 i => exact asInt32_ofInt i
  | double d =>
    obtain ⟨i, hsome, hword⟩ | ⟨hnone, stored, hlt, hword, hstored⟩ := encode_double_cases d
    · have hint : isInt32 order (ofInt i) = true := holds_kind order (int32 i)
      have hnumber : asNumber order (double d).encode = d := by
        rw [hword, asNumber, if_pos hint, asInt32_ofInt, isInt32ConvertibleDouble_exact hsome]
      show if d.isnan then _ else _
      split
      case isTrue hnan => rw [hnumber, hnan]
      case isFalse => exact hnumber
    · have hnumber : asNumber order (double d).encode = stored := by
        have hdouble := holds_kind order (double d)
        simp only [kind, hnone, isSome_none, Bool.false_eq_true, if_false] at hdouble
        have hint : isInt32 order (double d).encode = false := by
          simpa using (Bool.and_eq_true_iff.mp hdouble).2
        rw [asNumber, if_neg (by rw [hint]; decide), hword, asDouble_encodeAsDouble]
      show if d.isnan then _ else _
      rw [hnumber]
      obtain rfl | ⟨hnan, hstoredNan⟩ := hstored
      · split
        case isTrue hnan => exact hnan
        case isFalse => rfl
      · rw [if_pos hnan]
        exact hstoredNan
  | pointer p => exact ⟨rfl, PointeeKind.holds_iff p.tagged⟩

/-- **NaN boxing is unambiguous.** Of every stored word but the empty one exactly
the predicate of its kind holds, the accessor of the kind returns what was
stored, words of different kinds differ, and negative zero is no int32. The
empty value is the null pointer, so it is a pointer value as well. -/
theorem nanBoxing_unambiguous : (s ≠ empty → ∀ k, s.encode.holds order k = true ↔ k = s.kind) ∧
      (∀ k, empty.encode.holds order k = true ↔ k = .empty ∨ k = .pointer) ∧
      s.ReadsBack order s.encode ∧
      (∀ t : Stored, t.kind ≠ s.kind → t.encode ≠ s.encode) ∧
      (double 0x8000000000000000).encode ≠ (int32 0).encode := by
  refine ⟨fun hne k => ⟨fun hk => ?_, ?_⟩, fun k => ?_, readsBack order s, fun t hkind heq => ?_,
    by decide⟩
  · exact holds_unique order (encode_ne_zero hne) hk (holds_kind order s)
  · rintro rfl
    exact holds_kind order s
  · rw [holds_iff]
    cases k <;> simp [encode, valueEmpty]
  · -- One word of two kinds can only be the empty one, and that has a single source.
    have hs := holds_kind order s
    have ht := holds_kind order t
    rw [heq] at ht
    by_cases hzero : s.encode.toNat = 0
    · have hsEmpty : s = empty := by
        by_contra hne
        exact encode_ne_zero hne hzero
      have htEmpty : t = empty := by
        by_contra hne
        exact encode_ne_zero hne (heq ▸ hzero)
      exact hkind (by rw [hsEmpty, htEmpty])
    · exact hkind (holds_unique order hzero ht hs)

/-- The empty value satisfies two predicates. -/
theorem empty_holds_two : ¬ ∃! k, empty.encode.holds .little k = true := by
  rintro ⟨k, -, hunique⟩
  have hempty := hunique .empty rfl
  have hpointer := hunique .pointer rfl
  exact absurd (hempty.trans hpointer.symm) (by decide)

end Stored

end Escargot.Runtime
