/-
# Values

A `Value` is an immediate, a number in one of two representations (an int32 or
a double), or a pointer. A pointer value carries the address together with the
object it designates, so equal addresses mean equal pointer values. Doubles are
their 64-bit patterns; the only arithmetic needed here is comparison and the
conversion from int32.
-/

import Escargot.Runtime.String

namespace Escargot.Runtime

/-- An IEEE binary64 number, as its bit pattern. -/
abbrev Double := UInt64

namespace Double

variable (d : Double)

/-- The exponent and fraction fields, without the sign bit. -/
def magnitude : UInt64 := d % 0x8000000000000000

def signbit : Bool := 0x8000000000000000 ≤ d

def isnan : Bool := 0x7ff0000000000000 < d.magnitude

/-- `d == 0`, true of both zeros. -/
def isZero : Bool := d.magnitude == 0

def eq (a b : Double) : Bool := !a.isnan && !b.isnan && (a == b || (a.isZero && b.isZero))

/-- The exponent and fraction fields of the double of a positive integer below `2^53`. -/
def magnitudeOfNat (m : Nat) : Nat := (1023 + m.log2) * 2 ^ 52 + (m * 2 ^ (52 - m.log2) - 2 ^ 52)

/-- The conversion `(double)i` of an int32, which is exact. -/
def ofInt32 (i : Int32) : Double :=
  if i = 0 then 0
  else if i.toInt < 0 then UInt64.ofNat (2 ^ 63 + magnitudeOfNat i.toInt.natAbs)
  else UInt64.ofNat (magnitudeOfNat i.toInt.natAbs)

/-- `static_cast<int32_t>(d)`: truncation toward zero, and the minimal int32 for
a value out of range, as the x86 conversion instruction returns. -/
def toInt32Unchecked : Int32 :=
  let exponent := d.magnitude.toNat / 2 ^ 52
  if exponent < 1023 then 0
  else if exponent < 1023 + 31 then
    let m : Nat := (2 ^ 52 + d.magnitude.toNat % 2 ^ 52) / 2 ^ (52 - (exponent - 1023))
    if d.signbit then Int32.ofInt (-(m : Int)) else Int32.ofInt (m : Int)
  else Int32.minValue

end Double

def isInt32ConvertibleDouble (d : Double) : Option Int32 :=
  let asInt32 := d.toInt32Unchecked
  if !Double.eq (.ofInt32 asInt32) d || (asInt32 == 0 && d.signbit) then none
  else some asInt32

namespace Double

section OfInt32

variable {m : Nat}

theorem scaled_bounds (hm : m ≠ 0) (hlog : m.log2 ≤ 52) :
    2 ^ 52 ≤ m * 2 ^ (52 - m.log2) ∧ m * 2 ^ (52 - m.log2) < 2 ^ 53 := by
  have hlow : 2 ^ m.log2 ≤ m := Nat.log2_self_le hm
  have hhigh : m < 2 ^ (m.log2 + 1) := Nat.lt_log2_self
  have hpos : 0 < 2 ^ (52 - m.log2) := Nat.two_pow_pos _
  constructor
  · calc
      2 ^ 52 = 2 ^ m.log2 * 2 ^ (52 - m.log2) := by rw [← Nat.pow_add, Nat.add_sub_cancel' hlog]
      _ ≤ m * 2 ^ (52 - m.log2) := Nat.mul_le_mul_right _ hlow
  · calc
      m * 2 ^ (52 - m.log2) < 2 ^ (m.log2 + 1) * 2 ^ (52 - m.log2) :=
        Nat.mul_lt_mul_of_pos_right hhigh hpos
      _ = 2 ^ 53 := by
        rw [← Nat.pow_add]
        congr 1
        omega

theorem magnitudeOfNat_div (hm : m ≠ 0) (hlog : m.log2 ≤ 52) :
    magnitudeOfNat m / 2 ^ 52 = 1023 + m.log2 := by
  obtain ⟨hlow, hhigh⟩ := scaled_bounds hm hlog
  unfold magnitudeOfNat
  omega

theorem magnitudeOfNat_injective {m n : Nat} (hm : m ≠ 0) (hn : n ≠ 0)
    (hmlog : m.log2 ≤ 52) (hnlog : n.log2 ≤ 52)
    (h : magnitudeOfNat m = magnitudeOfNat n) : m = n := by
  have hlog : m.log2 = n.log2 := by
    have hdivm := magnitudeOfNat_div hm hmlog
    have hdivn := magnitudeOfNat_div hn hnlog
    omega
  have hlowm := (scaled_bounds hm hmlog).1
  have hlown := (scaled_bounds hn hnlog).1
  have hscaled : m * 2 ^ (52 - m.log2) = n * 2 ^ (52 - n.log2) := by
    unfold magnitudeOfNat at h
    omega
  rw [hlog] at hscaled
  exact Nat.eq_of_mul_eq_mul_right (Nat.two_pow_pos _) hscaled

/-- The magnitude of an int32 fits the scale of the fraction field. -/
theorem log2_natAbs_le (i : Int32) : i.toInt.natAbs.log2 ≤ 52 := by
  have hle : i.toInt.natAbs < 2 ^ 32 := by
    have h1 := i.le_toInt
    have h2 := i.toInt_lt
    omega
  by_cases h0 : i.toInt.natAbs = 0
  · rw [h0]
    decide
  · have := (Nat.log2_lt h0).mpr hle
    omega

theorem magnitudeOfNat_bounds (hm : m ≠ 0) (hsmall : m < 2 ^ 32) :
    1023 * 2 ^ 52 ≤ magnitudeOfNat m ∧ magnitudeOfNat m < 1056 * 2 ^ 52 := by
  have hlog : m.log2 < 32 := (Nat.log2_lt hm).mpr hsmall
  obtain ⟨hlow, hhigh⟩ := scaled_bounds hm (by omega)
  unfold magnitudeOfNat
  omega

end OfInt32

variable {i : Int32}

theorem natAbs_bounds (hi : i ≠ 0) : i.toInt.natAbs ≠ 0 ∧ i.toInt.natAbs < 2 ^ 32 := by
  have h1 := i.le_toInt
  have h2 := i.toInt_lt
  refine ⟨fun h => hi (Int32.toInt_inj.mp ?_), by omega⟩
  simpa using Int.natAbs_eq_zero.mp h

theorem toNat_ofInt32 (hi : i ≠ 0) :
    (ofInt32 i).toNat = (if i.toInt < 0 then 2 ^ 63 else 0) + magnitudeOfNat i.toInt.natAbs := by
  obtain ⟨hne, hsmall⟩ := natAbs_bounds hi
  obtain ⟨hlow, hhigh⟩ := magnitudeOfNat_bounds hne hsmall
  rw [ofInt32, if_neg hi]
  split
  · rw [UInt64.toNat_ofNat']
    omega
  · rw [UInt64.toNat_ofNat', Nat.zero_add]
    omega

theorem toNat_magnitude (d : Double) : d.magnitude.toNat = d.toNat % 2 ^ 63 := by
  rw [magnitude, UInt64.toNat_mod]
  rfl

/-- A converted nonzero int32 lies strictly between zero and the infinities. -/
theorem magnitude_ofInt32 (hi : i ≠ 0) :
    (ofInt32 i).magnitude.toNat = magnitudeOfNat i.toInt.natAbs := by
  obtain ⟨hne, hsmall⟩ := natAbs_bounds hi
  obtain ⟨hlow, hhigh⟩ := magnitudeOfNat_bounds hne hsmall
  rw [toNat_magnitude, toNat_ofInt32 hi]
  split <;> omega

theorem isnan_ofInt32 (i : Int32) : (ofInt32 i).isnan = false := by
  by_cases hi : i = 0
  · subst hi
    decide
  · obtain ⟨hne, hsmall⟩ := natAbs_bounds hi
    have hhigh := (magnitudeOfNat_bounds hne hsmall).2
    rw [isnan, decide_eq_false_iff_not, UInt64.lt_iff_toNat_lt, magnitude_ofInt32 hi]
    simp only [UInt64.reduceToNat]
    omega

theorem isZero_ofInt32 (i : Int32) : (ofInt32 i).isZero = decide (i = 0) := by
  by_cases hi : i = 0
  · subst hi
    decide
  · obtain ⟨hne, hsmall⟩ := natAbs_bounds hi
    have hlow := (magnitudeOfNat_bounds hne hsmall).1
    rw [decide_eq_false hi, isZero, beq_eq_false_iff_ne]
    intro hzero
    have := magnitude_ofInt32 hi
    rw [hzero] at this
    simp only [UInt64.toNat_zero] at this
    omega

theorem ofInt32_injective {i j : Int32} (h : ofInt32 i = ofInt32 j) : i = j := by
  have hzero : decide (i = 0) = decide (j = 0) := by rw [← isZero_ofInt32, ← isZero_ofInt32, h]
  by_cases hi : i = 0
  · rw [hi]
    simpa [hi, eq_comm] using hzero
  · have hj : j ≠ 0 := by simpa [hi] using hzero
    obtain ⟨hnei, hsmalli⟩ := natAbs_bounds hi
    obtain ⟨hnej, hsmallj⟩ := natAbs_bounds hj
    have hhighi := (magnitudeOfNat_bounds hnei hsmalli).2
    have hhighj := (magnitudeOfNat_bounds hnej hsmallj).2
    have hbits : (if i.toInt < 0 then 2 ^ 63 else 0) + magnitudeOfNat i.toInt.natAbs =
        (if j.toInt < 0 then 2 ^ 63 else 0) + magnitudeOfNat j.toInt.natAbs := by
      rw [← toNat_ofInt32 hi, ← toNat_ofInt32 hj, h]
    have habs : i.toInt.natAbs = j.toInt.natAbs := by
      apply magnitudeOfNat_injective hnei hnej (log2_natAbs_le i) (log2_natAbs_le j)
      split at hbits <;> split at hbits <;> omega
    apply Int32.toInt_inj.mp
    rw [habs] at hbits
    split at hbits <;> split at hbits <;> omega

end Double

/-- `Value`. The two number representations are distinct encodings of one
number; `empty` marks an absent slot and is never a JavaScript value. -/
inductive Value
  | empty
  | undefined
  | null
  | boolean (b : Bool)
  | int32 (i : Int32)
  | double (d : Double)
  | string (address : Nat) (s : EString)
  | symbol (address : Nat)
  | bigInt (address : Nat) (n : Int)
  | object (address : Nat)
  deriving DecidableEq

namespace Value

def isEmpty (v : Value) : Bool := v == empty

def isPointerValue : Value → Bool
  | string _ _ | symbol _ | bigInt _ _ | object _ => true
  | _ => false

def asNumber? : Value → Option Double
  | int32 i => some (.ofInt32 i)
  | double d => some d
  | _ => none

def numberSameValueZero (a b : Double) : Bool :=
  if a.isnan || b.isnan then a.isnan && b.isnan else a.eq b

variable (self val : Value)

/-- `Value::equalsToByTheSameValueZeroAlgorithmSlowCase`. Where the source
compares the encoded words, equal words are equal values. -/
def sameValueZeroSlowCase : Bool :=
  if val.isPointerValue then
    if self = val then true
    else
      match self, val with
      | string _ s, string _ t => s.equals t
      | bigInt _ m, bigInt _ n => m == n
      | _, _ => false
  else
    match self.asNumber?, val.asNumber? with
    | some a, some b => numberSameValueZero a b
    | _, _ => self = val

/-- `Value::equalsToByTheSameValueZeroAlgorithm`, with its int32 fast path. -/
def sameValueZero : Bool :=
  match self, val with
  | int32 i, int32 j => i == j
  | _, _ => sameValueZeroSlowCase self val

/-- The number as `SameValueZero` sees it: the zeros collapse, and so do the NaNs. -/
def numberIdentity (d : Double) : Option Double :=
  if d.isnan then none else if d.isZero then some 0 else some d

/-- What `SameValueZero` looks at, as one abstract identity per value. -/
inductive Identity
  | immediate (v : Value)
  | number (d : Option Double)
  | text (units : List UInt16)
  | integer (n : Int)
  deriving DecidableEq

def identity : Value → Identity
  | int32 i => .number (numberIdentity (.ofInt32 i))
  | double d => .number (numberIdentity d)
  | string _ s => .text s.content
  | bigInt _ n => .integer n
  | v => .immediate v

theorem numberSameValueZero_iff (a b : Double) :
    numberSameValueZero a b = true ↔ numberIdentity a = numberIdentity b := by
  have hzero : Double.isZero 0 = true := by decide
  have hne : ∀ {c d : Double}, c.isZero = true → d.isZero = false → c ≠ d := by
    rintro c d hc hd rfl
    exact absurd (hc.symm.trans hd) (by decide)
  unfold numberSameValueZero numberIdentity Double.eq
  cases ha : a.isnan <;> cases hb : b.isnan <;> cases hza : a.isZero <;>
    cases hzb : b.isZero <;> simp
  · exact iff_of_false (hne hzb hza).symm (hne hzero hza).symm
  · exact iff_of_false (hne hza hzb) (hne hzero hzb)

theorem numberIdentity_ofInt32 (i : Int32) : numberIdentity (.ofInt32 i) = some (.ofInt32 i) := by
  rw [numberIdentity, Double.isnan_ofInt32, Double.isZero_ofInt32]
  by_cases hi : i = 0
  · subst hi
    rfl
  · simp [hi]

theorem sameValueZero_iff : self.sameValueZero val = true ↔ self.identity = val.identity := by
  have hint : ∀ i j : Int32, Double.ofInt32 i = .ofInt32 j ↔ i = j :=
    fun i j => ⟨Double.ofInt32_injective, congrArg _⟩
  cases self <;> cases val <;>
    simp [sameValueZero, sameValueZeroSlowCase, identity, isPointerValue, asNumber?,
      numberSameValueZero_iff, numberIdentity_ofInt32, EString.equals_iff, hint]
  rintro _ rfl
  rfl

/-- The comparison `SameValue`, the identity JavaScript can observe: as
`SameValueZero`, but the two zeros differ. -/
def sameValue : Prop :=
  self.identity = val.identity ∧
    ∀ a b, self.asNumber? = some a → val.asNumber? = some b → a.isZero = true →
      a.signbit = b.signbit

theorem sameValue.refl (v : Value) : v.sameValue v :=
  ⟨rfl, fun a b ha hb _ => by rw [Option.some.inj (ha.symm.trans hb)]⟩

end Value

def isValidSmi (i : Int32) : Bool := -0x40000000 ≤ i.toInt && i.toInt < 0x40000000

/-- `EncodedValue`: a value as heap slots hold it. A number that is no small
integer lives in a `NumberInEncodedValue` box; the box is not shared, so it is
modelled by its content. -/
structure EncodedValue where
  value : Value

namespace EncodedValue

def isEmpty (e : EncodedValue) : Bool := e.value.isEmpty

def toValue (e : EncodedValue) : Value := e.value

/-- The slot holds the address of a box of its own. -/
def isBoxedNumber (e : EncodedValue) : Bool :=
  match e.value with
  | .int32 i => !isValidSmi i
  | .double _ => true
  | _ => false

/-- `EncodedValue::fromValueForCtor`. -/
def ofValue (v : Value) : EncodedValue :=
  match v with
  | .double d =>
    match isInt32ConvertibleDouble d with
    | some i => if isValidSmi i then ⟨.int32 i⟩ else ⟨.double d⟩
    | none => ⟨.double d⟩
  | v => ⟨v⟩

/-- `EncodedValue::operator=`: a number that is no small integer is stored as an
int32 whenever it is one, and overwrites the box in place when there is one. -/
def assign (_old : EncodedValue) (v : Value) : EncodedValue :=
  match v with
  | .double d =>
    match isInt32ConvertibleDouble d with
    | some i => ⟨.int32 i⟩
    | none => ⟨.double d⟩
  | v => ⟨v⟩

/-- Equality of payloads between a stored slot and a slot that was encoded just
now: two boxes always differ. -/
def samePayload (stored fresh : EncodedValue) : Bool :=
  !stored.isBoxedNumber && stored.value == fresh.value

end EncodedValue

theorem isInt32ConvertibleDouble_sound {d : Double} {i : Int32}
    (h : isInt32ConvertibleDouble d = some i) : (Value.int32 i).sameValue (.double d) := by
  simp only [isInt32ConvertibleDouble] at h
  split at h
  · cases h
  · rename_i hcond
    simp only [Option.some.injEq] at h
    rw [h, Bool.or_eq_true, not_or, Bool.not_eq_true, Bool.not_eq_false',
      Bool.and_eq_true, beq_iff_eq] at hcond
    obtain ⟨heq, hsign⟩ := hcond
    have hnan : (Double.ofInt32 i).isnan = false ∧ d.isnan = false := by
      simp only [Double.eq, Bool.and_eq_true, Bool.not_eq_true'] at heq
      exact heq.1
    refine ⟨?_, ?_⟩
    · have hnumber : Value.numberSameValueZero (.ofInt32 i) d = true := by
        rw [Value.numberSameValueZero, hnan.1, hnan.2]
        exact heq
      rw [Value.identity, Value.identity, (Value.numberSameValueZero_iff _ _).mp hnumber]
    · intro a b ha hb hzero
      obtain rfl : Double.ofInt32 i = a := Option.some.inj ha
      obtain rfl : d = b := Option.some.inj hb
      have hi : i = 0 := by simpa [Double.isZero_ofInt32] using hzero
      subst hi
      have hplus : d.signbit = false := by simpa using hsign
      rw [hplus]
      decide

theorem EncodedValue.sameValue_ofValue (v : Value) :
    (EncodedValue.ofValue v).value.sameValue v := by
  cases v with
  | double d =>
    delta EncodedValue.ofValue
    dsimp only
    cases hconvert : isInt32ConvertibleDouble d with
    | none => exact Value.sameValue.refl _
    | some i =>
      dsimp only
      split
      · exact isInt32ConvertibleDouble_sound hconvert
      · exact Value.sameValue.refl _
  | _ => exact Value.sameValue.refl _

/-- A value written over another is the value, as far as can be observed. -/
theorem EncodedValue.sameValue_assign (old : EncodedValue) (value : Value) :
    (old.assign value).value.sameValue value := by
  cases value with
  | double d =>
    delta EncodedValue.assign
    dsimp only
    cases hconvert : isInt32ConvertibleDouble d with
    | none => exact Value.sameValue.refl _
    | some i => exact isInt32ConvertibleDouble_sound hconvert
  | _ => exact Value.sameValue.refl _

end Escargot.Runtime
