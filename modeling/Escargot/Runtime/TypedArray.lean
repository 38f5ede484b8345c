/-
# Typed array elements

An element of a typed array is stored and read in two ways: directly through
`setIndexedProperty`, which converts the value with the adaptor of the element
type, and through `integerIndexedElementSet`, which converts it to a number
first. This module embeds both with the bytes they leave, next to the conversion
the specification gives, and determines for which values they agree.

Conversions of strings are parameters, as is what the compiled code makes of the
conversion of a double to an integer type that cannot represent it.
-/

import Escargot.Foundation.Serialization
import Escargot.Runtime.ArrayBuffer
import Escargot.Runtime.EncodedValueSlots
import Escargot.Runtime.NumberConversion

namespace Escargot.Runtime

open List Option Foundation

/-- The doubles a `Value` can hold: `NaN` patterns from `0xfffe` on have no encoding. -/
abbrev BoxedDouble := {d : Double // d.toNat < 0xfffe * 2 ^ 48}

/-- The values for which `isPrimitive` holds. -/
inductive Primitive
  | undefined
  | null
  | boolean (b : Bool)
  | int32 (i : Int32)
  | double (d : BoxedDouble)
  | string (s : EString)
  | symbol (address : Nat)
  | bigInt (n : Int)
  deriving DecidableEq

/-- What a conversion or a buffer access throws. -/
inductive ThrownError
  | typeError (message : String)
  | syntaxError (message : String)
  | rangeError (message : String)
  deriving DecidableEq

/-- The conversions of strings to numbers and to big integers. -/
structure StringConversions where
  toNumber : EString → BoxedDouble
  parseBigInt : EString → Option Int

namespace Primitive

/-- The double that is encoded for `d`: the quiet NaN for a pattern without an encoding. -/
def boxed (d : Double) : BoxedDouble :=
  if h : d.toNat < 0xfffe * 2 ^ 48 then ⟨d, h⟩ else ⟨ValueWord.quietNaN, by decide⟩

/-- `Value(DoubleToIntConvertibleTestNeeds, d)`. -/
def ofDouble (d : Double) : Primitive :=
  match isInt32ConvertibleDouble d with
  | some i => int32 i
  | none => double (boxed d)

/-- `Value(unsigned)`. -/
def ofUnsigned (n : Nat) : Primitive :=
  if n < 2 ^ 31 then int32 (.ofNat n) else double (boxed (.ofNat (Double.magnitudeOfNat n)))

def toNumber (strings : StringConversions) : Primitive → Except ThrownError Double
  | undefined => .ok ValueWord.quietNaN
  | null => .ok 0
  | boolean b => .ok (.ofInt32 (if b then 1 else 0))
  | int32 i => .ok (.ofInt32 i)
  | double d => .ok d.val
  | string s => .ok (strings.toNumber s).val
  | symbol _ => .error (.typeError "Cannot convert a Symbol value to a number")
  | bigInt _ => .error (.typeError "Could not convert BigInt to number")

def toBigInt (strings : StringConversions) : Primitive → Except ThrownError Int
  | undefined => .error (.typeError "Cannot convert undefined to BigInt")
  | null => .error (.typeError "Cannot convert null to BigInt")
  | boolean b => .ok (if b then 1 else 0)
  | int32 _ | double _ => .error (.typeError "Cannot convert number to BigInt")
  | string s =>
    match strings.parseBigInt s with
    | some n => .ok n
    | none => .error (.syntaxError "Cannot parse String as BigInt")
  | symbol _ => .error (.typeError "Cannot convert Symbol to BigInt")
  | bigInt n => .ok n

/-- The integer a number value is, where it is one. -/
def integer? : Primitive → Option Int
  | int32 i => some i.toInt
  | double d => d.val.truncated
  | _ => none

end Primitive

namespace TypedArrayType

/-- The types whose adaptor is `IntegralTypedArrayAdapter`. -/
def isIntegral : TypedArrayType → Bool
  | int8 | int16 | int32 | uint8 | uint16 | uint32 => true
  | _ => false

def isSigned : TypedArrayType → Bool
  | int8 | int16 | int32 | bigInt64 => true
  | _ => false

def isBigIntArray : TypedArrayType → Bool
  | bigInt64 | bigUint64 => true
  | _ => false

variable (type : TypedArrayType)

/-- The width of the native type, in bits. -/
def width : Nat := 8 * type.elementSize

/-- The least and the greatest number of an integer type. -/
def lowest : Int := if type.isSigned then -2 ^ (type.width - 1) else 0

def highest : Int := if type.isSigned then 2 ^ (type.width - 1) - 1 else 2 ^ type.width - 1

/-- The number that the bits of an integer type represent. -/
def represented (bits : Nat) : Int :=
  if type.isSigned && decide (2 ^ (type.width - 1) ≤ bits) then (bits : Int) - 2 ^ type.width
  else bits

end TypedArrayType

/-- What the compiled code does where the language does not say: the byte order, and
the conversion of a double that the integer type cannot represent. -/
structure Target where
  order : ByteOrder
  unrepresentable : TypedArrayType → Double → Nat

namespace Target

/-- `static_cast<Type>(number)`. -/
def staticCast (target : Target) (type : TypedArrayType) (number : Double) : Nat :=
  match number.truncated with
  | some t =>
    if type.lowest ≤ t ∧ t ≤ type.highest then Double.wrap type.width t
    else target.unrepresentable type number % 2 ^ type.width
  | none => target.unrepresentable type number % 2 ^ type.width

def truncateDoubleToInt32Unchecked (target : Target) (d : Double) : Int32 :=
  .ofNat (target.staticCast .int32 d)

end Target

/-! Native values are the bits that are stored. -/

section Adaptors

variable (strings : StringConversions) (target : Target)

namespace IntegralTypedArrayAdapter

variable (type : TypedArrayType)

def toNativeFromInt32 (value : Int32) : Nat :=
  Double.wrap type.width value.toInt

def toNativeFromDouble (value : Double) : Nat :=
  let result := target.truncateDoubleToInt32Unchecked value
  let result := if !Double.eq (.ofInt32 result) value then value.toInt32SlowCase.toInt32 else result
  Double.wrap type.width result.toInt

def toNative : Primitive → Except ThrownError Nat
  | .int32 i => .ok (toNativeFromInt32 type i)
  | .double d => .ok (toNativeFromDouble target type d.val)
  | val => do
      let number ← val.toNumber strings
      if number.isnan then return 0
      return target.staticCast type number

end IntegralTypedArrayAdapter

namespace Float32Adaptor

def toNative : Primitive → Except ThrownError Nat
  | .int32 i => .ok (Double.float32OfInt32 i)
  | .double d => .ok d.val.toFloat32
  | val => do return (← val.toNumber strings).toFloat32

end Float32Adaptor

namespace Float64Adaptor

def toNative : Primitive → Except ThrownError Nat
  | .int32 i => .ok (Double.ofInt32 i).toNat
  | .double d => .ok d.val.toNat
  | val => do return (← val.toNumber strings).toNat

end Float64Adaptor

namespace Float16Adaptor

def toNative (val : Primitive) : Except ThrownError Nat := do
  return (← val.toNumber strings).toFloat16

end Float16Adaptor

namespace BigIntegralArrayAdaptor

/-- `toInt64` and `toUint64` reduce modulo `2 ^ 64`. -/
def toNative (val : Primitive) : Except ThrownError Nat := do
  return Double.wrap 64 (← val.toBigInt strings)

end BigIntegralArrayAdaptor

namespace Uint8ClampedAdaptor

def toNativeFromInt32 (value : Int32) : Nat :=
  if value.toInt < 0 then 0
  else if value.toInt > 255 then 255
  else Double.wrap 8 value.toInt

def toNativeFromDouble (value : Double) : Nat :=
  if value.isnan then 0
  else if value.lt 0 then 0
  else if Double.lt (.ofInt32 255) value then 255
  else Double.wrap 8 value.lrint

def toNative : Primitive → Except ThrownError Nat
  | .int32 i => .ok (toNativeFromInt32 i)
  | .double d => .ok (toNativeFromDouble d.val)
  | val => do return toNativeFromDouble (← val.toNumber strings)

end Uint8ClampedAdaptor

def toNative : TypedArrayType → Primitive → Except ThrownError Nat
  | .uint8Clamped => Uint8ClampedAdaptor.toNative strings
  | .float16 => Float16Adaptor.toNative strings
  | .float32 => Float32Adaptor.toNative strings
  | .float64 => Float64Adaptor.toNative strings
  | .bigInt64 | .bigUint64 => BigIntegralArrayAdaptor.toNative strings
  | type => IntegralTypedArrayAdapter.toNative strings target type

end Adaptors

variable (order : ByteOrder)

/-- A native value in memory. -/
def rawBytes (size bits : Nat) : List UInt8 :=
  match order with
  | .little => littleEndian size bits
  | .big => (littleEndian size bits).reverse

def readRawBytesAs (bytes : List UInt8) : Nat :=
  match order with
  | .little => ofLittleEndian bytes
  | .big => ofLittleEndian bytes.reverse

variable (data : List UInt8) (position : Nat) (bytes : List UInt8)

/-- The memory after `bytes` were written at a position. -/
def overwrite : List UInt8 :=
  data.mapIdx fun i b => if position ≤ i then bytes[i - position]?.getD b else b

def rawBytesToNumber (type : TypedArrayType) (bytes : List UInt8) : Primitive :=
  let bits := readRawBytesAs order bytes
  match type with
  | .int8 | .uint8 | .uint8Clamped | .int16 | .uint16 | .int32 =>
    .int32 (.ofInt (type.represented bits))
  | .uint32 => .ofUnsigned bits
  | .float16 => .ofDouble (Double.ofFloat16 bits)
  | .float32 => .ofDouble (Double.ofFloat32 bits)
  | .float64 => .ofDouble (.ofNat bits)
  | .bigInt64 | .bigUint64 => .bigInt (type.represented bits)

/-- The buffer's bytes, none when it is detached, and the part the array views. -/
structure TypedArray where
  type : TypedArrayType
  buffer : Option (List UInt8)
  byteOffset : Nat
  arrayLength : Nat
  fits : byteOffset + arrayLength * type.elementSize ≤ (buffer.getD []).length
  /-- `maxArrayBufferSize`. -/
  limited : (buffer.getD []).length < 210000000

structure ObjectGetResult where
  value : Primitive
  isWritable : Bool
  isEnumerable : Bool
  isConfigurable : Bool

/-- An indexed access answers itself, or hands over to the generic `get` or `set`. -/
inductive IndexedAccess (α : Type)
  | answered (result : α)
  | handedOver

theorem length_overwrite : (overwrite data position bytes).length = data.length := length_mapIdx

namespace TypedArray

variable (array : TypedArray)

def isDetachedBuffer : Bool := array.buffer.isNone

def write (position : Nat) (bytes : List UInt8) : TypedArray where
  type := array.type
  buffer := array.buffer.map (overwrite · position bytes)
  byteOffset := array.byteOffset
  arrayLength := array.arrayLength
  fits := by
    have h := array.fits
    cases hb : array.buffer <;> simp_all [length_overwrite]
  limited := by
    have h := array.limited
    cases hb : array.buffer <;> simp_all [length_overwrite]

def bytesAt (position : Nat) : List UInt8 :=
  (((array.buffer.getD []).drop position).take array.type.elementSize)

def integerIndex (index : Double) : Option Nat :=
  if index.signbit then none
  else if index.isfinite && index.scaled % Double.one == 0 then some (index.scaled / Double.one)
  else none

section Accesses

variable (strings : StringConversions) (target : Target) (array : TypedArray)

/-- `ArrayBufferObject::getValueFromBuffer`, little-endian. -/
def getValueFromBuffer (byteindex : Nat) : Except ThrownError Primitive :=
  if array.isDetachedBuffer then .error (.typeError "ArrayBuffer is detached")
  else if byteindex + array.type.elementSize > (array.buffer.getD []).length then
    .error (.rangeError "Invalid byte index in getValueFromBuffer")
  else .ok (rawBytesToNumber target.order array.type (array.bytesAt byteindex))

/-- `ArrayBufferObject::setValueInBuffer`, little-endian. -/
def setValueInBuffer (byteindex : Nat) (val : Primitive) : TypedArray × Except ThrownError Unit :=
  if array.isDetachedBuffer then (array, .error (.typeError "ArrayBuffer is detached"))
  else if byteindex + array.type.elementSize > (array.buffer.getD []).length then
    (array, .error (.rangeError "Invalid byte index in setValueInBuffer"))
  else
    match toNative strings target array.type val with
    | .error e => (array, .error e)
    | .ok native =>
      (array.write byteindex (rawBytes target.order array.type.elementSize native), .ok ())

def integerIndexedElementGet (index : Double) : Except ThrownError (Option ObjectGetResult) :=
  if array.isDetachedBuffer then .ok none
  else
    match integerIndex index with
    | none => .ok none
    | some i =>
      if i ≥ array.arrayLength then .ok none
      else do
        let indexedPosition := i * array.type.elementSize + array.byteOffset
        let value ← array.getValueFromBuffer target indexedPosition
        return some ⟨value, true, true, true⟩

def integerIndexedElementSet (index : Double) (value : Primitive) :
    TypedArray × Except ThrownError Bool :=
  let numValue : Except ThrownError Primitive :=
    if array.type.isBigIntArray then (value.toBigInt strings).map .bigInt
    else (value.toNumber strings).map .ofDouble
  match numValue with
  | .error e => (array, .error e)
  | .ok numValue =>
    if array.isDetachedBuffer then (array, .ok true)
    else
      match integerIndex index with
      | none => (array, .ok false)
      | some i =>
        if i ≥ array.arrayLength then (array, .ok false)
        else
          let stored := array.setValueInBuffer strings target
            (i * array.type.elementSize + array.byteOffset) numValue
          (stored.1, stored.2.map fun _ => true)

def getDirectValueFromBuffer (byteindex : Nat) : Primitive :=
  if array.buffer.isNone then .undefined
  else
    let res := readRawBytesAs target.order (array.bytesAt (array.byteOffset + byteindex))
    match array.type with
    | .bigInt64 => .bigInt (array.type.represented res)
    | .bigUint64 => .bigInt (array.type.represented res)
    | .uint8 | .uint8Clamped | .uint16 | .int8 | .int16 | .int32 =>
      .int32 (.ofInt (array.type.represented res))
    | .uint32 => .ofUnsigned res
    | .float16 => .ofDouble (Double.ofFloat16 res)
    | .float32 => .ofDouble (Double.ofFloat32 res)
    | .float64 => .ofDouble (.ofNat res)

def setDirectValueInBuffer (byteindex : Nat) (val : Primitive) :
    TypedArray × Except ThrownError Unit :=
  match toNative strings target array.type val with
  | .error e => (array, .error e)
  | .ok native =>
    (array.write (array.byteOffset + byteindex)
      (rawBytes target.order array.type.elementSize native), .ok ())

/-- `property.isUInt32()`, with the index. -/
def indexOf : Primitive → Option Nat
  | .int32 i => if 0 ≤ i.toInt then some i.toInt.toNat else none
  | _ => none

def getIndexedProperty (property : Primitive) : IndexedAccess (Option ObjectGetResult) :=
  match indexOf property with
  | none => .handedOver
  | some i =>
    if i < array.arrayLength then
      if array.isDetachedBuffer then .answered none
      else
        let value := array.getDirectValueFromBuffer target (i * array.type.elementSize)
        .answered (some ⟨value, true, true, false⟩)
    else .handedOver

def getIndexedPropertyValue (property : Primitive) : IndexedAccess Primitive :=
  match indexOf property with
  | none => .handedOver
  | some i =>
    if i < array.arrayLength then
      if array.isDetachedBuffer then .answered .undefined
      else .answered (array.getDirectValueFromBuffer target (i * array.type.elementSize))
    else .handedOver

def setIndexedProperty (property value : Primitive) :
    IndexedAccess (TypedArray × Except ThrownError Bool) :=
  match indexOf property with
  | none => .handedOver
  | some i =>
    if i < array.arrayLength && !array.isDetachedBuffer then
      let stored := array.setDirectValueInBuffer strings target (i * array.type.elementSize) value
      .answered (stored.1, stored.2.map fun _ => true)
    else .handedOver

end Accesses

end TypedArray

def TypedArrayType.numericToRawBytes : TypedArrayType → Double → Nat
  | .uint8Clamped, x => x.clamped
  | .float16, x => x.nearestFloat16
  | .float32, x => x.toFloat32
  | .float64, x => x.toNat
  | type, x => x.modular type.width

/-- `ToBigInt` or `ToNumber`, and the conversion of the element type. -/
def TypedArrayType.rawBytesOf (type : TypedArrayType) (strings : StringConversions)
    (value : Primitive) : Except ThrownError Nat :=
  if type.isBigIntArray then (value.toBigInt strings).map (Double.wrap 64)
  else (value.toNumber strings).map type.numericToRawBytes

namespace TypedArray

/-- The store of the specification at a valid index. -/
def typedArraySetElement (strings : StringConversions) (target : Target) (array : TypedArray)
    (index : Nat) (value : Primitive) : TypedArray × Except ThrownError Bool :=
  match array.type.rawBytesOf strings value with
  | .error e => (array, .error e)
  | .ok bits =>
    (array.write (array.byteOffset + index * array.type.elementSize)
      (rawBytes target.order array.type.elementSize bits), .ok true)

end TypedArray

section Conversions

open Double

theorem truncated_of_isZero {d : Double} (h : d.isZero = true) : d.truncated = some 0 := by
  rw [Double.isZero, beq_iff_eq, ← UInt64.toNat_inj, UInt64.toNat_zero] at h
  have hscaled : d.scaled = 0 := by rw [scaled_subnormal d (by omega), h]
  have hfin : d.isfinite = true := by
    rw [isfinite, decide_eq_true_eq]
    omega
  rw [truncated, if_pos hfin, hscaled, Nat.zero_div]
  split <;> rfl

theorem truncated_of_eq {a b : Double} (h : Double.eq a b = true) : a.truncated = b.truncated := by
  simp only [Double.eq, Bool.and_eq_true, Bool.or_eq_true, beq_iff_eq] at h
  obtain ⟨-, heq | ⟨ha, hb⟩⟩ := h
  · rw [heq]
  · rw [truncated_of_isZero ha, truncated_of_isZero hb]

theorem wrap_toInt_toInt32 {width : Nat} (h : width ≤ 32) (u : UInt32) :
    wrap width u.toInt32.toInt = wrap width u.toNat := by
  have hval : u.toInt32.toInt = u.toBitVec.toInt := rfl
  have hnat : u.toBitVec.toNat = u.toNat := rfl
  rw [hval, BitVec.toInt_eq_toNat_cond, hnat]
  split
  · rfl
  · have hdvd : (2 : Int) ^ width ∣ ((2 ^ 32 : Nat) : Int) := by exact_mod_cast Nat.pow_dvd_pow 2 h
    rw [wrap, wrap, Int.sub_emod, Int.emod_eq_zero_of_dvd hdvd, Int.sub_zero, Int.emod_emod]

variable {type : TypedArrayType}

theorem width_le_of_isIntegral (h : type.isIntegral = true) : type.width ≤ 32 := by
  cases type <;> first | exact absurd h (by decide) | decide

variable (target : Target)

/-- Whatever the speculative cast gives, the check behind it leaves the modular conversion. -/
theorem integral_toNativeFromDouble (h : type.isIntegral = true) (value : Double) :
    IntegralTypedArrayAdapter.toNativeFromDouble target type value = value.modular type.width := by
  have hwidth := width_le_of_isIntegral h
  simp only [IntegralTypedArrayAdapter.toNativeFromDouble]
  cases heq : Double.eq (.ofInt32 (target.truncateDoubleToInt32Unchecked value)) value with
  | true =>
    have htrunc := truncated_of_eq heq
    rw [truncated_ofInt32] at htrunc
    simp [modular, ← htrunc]
  | false =>
    simp only [Bool.not_false, if_true]
    rw [wrap_toInt_toInt32 hwidth, toNat_toInt32SlowCase, modular, wrap_wrap hwidth, modular]

theorem clamped_toNativeFromInt32 (i : Int32) :
    Uint8ClampedAdaptor.toNativeFromInt32 i = clamped (ofInt32 i) := by
  rw [clamped_ofInt32, Uint8ClampedAdaptor.toNativeFromInt32, wrap]
  split
  · rfl
  · split <;> omega

theorem lt_zero_iff {value : Double} (hnan : value.isnan = false) :
    value.lt 0 = true ↔ value.signbit = true ∧ value.magnitude.toNat ≠ 0 := by
  have hzero : Double.ordinal 0 = 0 := by decide
  have hnan' : Double.isnan 0 = false := by decide
  have hlt : value.lt 0 = decide (value.ordinal < 0) := by
    rw [Double.lt, hnan, hnan', hzero]
    rfl
  rw [hlt, decide_eq_true_eq, ordinal]
  split <;> rename_i hs <;> simp only [hs, true_and, Bool.false_eq_true, false_and, iff_false] <;>
    omega

/-- The comparisons and `lrint` clamp as the specification does. -/
theorem clamped_toNativeFromDouble (value : Double) :
    Uint8ClampedAdaptor.toNativeFromDouble value = value.clamped := by
  rw [Uint8ClampedAdaptor.toNativeFromDouble, clamped]
  cases hnan : value.isnan with
  | true => rw [if_pos rfl, Bool.true_or, if_pos rfl]
  | false =>
    have hzero := lt_zero_iff hnan
    have habs : (255 : Int32).toInt.natAbs = 255 := by decide
    have h255 : (ofInt32 255).scaled = 255 * one := by rw [scaled_ofInt32, habs]
    have hpos : (ofInt32 255).signbit = false := by decide
    cases hsign : value.signbit with
    | true =>
      simp only [Bool.false_eq_true, if_false, Bool.or_true, if_true]
      by_cases hmag : value.magnitude.toNat = 0
      · have hnlt : ¬ value.lt 0 = true := fun h => (hzero.mp h).2 hmag
        have hnlt' : ¬ Double.lt (ofInt32 255) value = true := by
          simp [Double.lt, ordinal, hpos, hsign, hmag]
        have hscaled : value.scaled = 0 := by rw [scaled_subnormal value (by omega), hmag]
        have hround : roundHalfEven 0 one = 0 := by
          have := roundHalfEven_mul Double.one_pos 0
          rwa [Nat.zero_mul] at this
        rw [if_neg hnlt, if_neg hnlt', lrint, hscaled, hround, hsign]
        rfl
      · rw [if_pos (hzero.mpr ⟨hsign, hmag⟩)]
    | false =>
      have hnlt : ¬ value.lt 0 = true := fun h => by
        rw [hsign] at hzero
        exact Bool.false_ne_true (hzero.mp h).1
      have hlt := lt_iff (isnan_ofInt32 255) hnan hpos hsign
      simp only [Bool.false_eq_true, if_false, Bool.or_false, hnlt]
      by_cases hbig : (ofInt32 255).magnitude.toNat < value.magnitude.toNat
      · have hscaled := scaled_le_of_magnitude_le _ (Nat.le_of_lt hbig)
        have hround : 255 ≤ roundHalfEven value.scaled one :=
          le_roundHalfEven Double.one_pos (h255 ▸ hscaled)
        rw [if_pos (hlt.mpr hbig)]
        omega
      · have hscaled := scaled_le_of_magnitude_le value (Nat.le_of_not_lt hbig)
        have hround : roundHalfEven value.scaled one ≤ 255 :=
          roundHalfEven_le Double.one_pos (h255 ▸ hscaled)
        rw [if_neg (fun h => hbig (hlt.mp h)), lrint, hsign, wrap]
        simp only [Bool.false_eq_true, if_false]
        omega

variable (strings : StringConversions)

theorem isBigIntArray_of_isIntegral (h : type.isIntegral = true) : type.isBigIntArray = false := by
  cases type <;> first | exact absurd h (by decide) | rfl

theorem toNative_of_isIntegral (h : type.isIntegral = true) :
    toNative strings target type = IntegralTypedArrayAdapter.toNative strings target type := by
  cases type <;> first | exact absurd h (by decide) | rfl

theorem numericToRawBytes_of_isIntegral (h : type.isIntegral = true) (x : Double) :
    type.numericToRawBytes x = x.modular type.width := by
  cases type <;> first | exact absurd h (by decide) | rfl

/-- The conversions that do not look at the kind of the value first. -/
theorem toNative_float16 (v : Primitive) : toNative strings target .float16 v =
      (v.toNumber strings).map TypedArrayType.float16.numericToRawBytes := by
  rw [toNative, Float16Adaptor.toNative]
  cases v.toNumber strings with
  | error => rfl
  | ok x => exact congrArg Except.ok (toFloat16_eq x)

theorem toNative_int32 (h : type.isBigIntArray = false) (i : Int32) :
    toNative strings target type (.int32 i) = .ok (type.numericToRawBytes (ofInt32 i)) := by
  cases hint : type.isIntegral with
  | true =>
    rw [toNative_of_isIntegral target strings hint, numericToRawBytes_of_isIntegral hint,
      modular_ofInt32]
    rfl
  | false =>
    cases type with
    | uint8Clamped => exact congrArg Except.ok (clamped_toNativeFromInt32 i)
    | float16 => exact toNative_float16 target strings _
    | float32 => exact congrArg Except.ok (toFloat32_ofInt32 i).symm
    | float64 => rfl
    | bigInt64 | bigUint64 => cases h
    | int8 | int16 | int32 | uint8 | uint16 | uint32 => cases hint

theorem toNative_double (h : type.isBigIntArray = false) (d : BoxedDouble) :
    toNative strings target type (.double d) = .ok (type.numericToRawBytes d.val) := by
  cases hint : type.isIntegral with
  | true =>
    rw [toNative_of_isIntegral target strings hint, numericToRawBytes_of_isIntegral hint]
    exact congrArg Except.ok (integral_toNativeFromDouble target hint d.val)
  | false =>
    cases type with
    | uint8Clamped => exact congrArg Except.ok (clamped_toNativeFromDouble d.val)
    | float16 => exact toNative_float16 target strings _
    | float32 => rfl
    | float64 => rfl
    | bigInt64 | bigUint64 => cases h
    | int8 | int16 | int32 | uint8 | uint16 | uint32 => cases hint

theorem ofInt32_boxed (i : Int32) : (ofInt32 i).toNat < 0xfffe * 2 ^ 48 := by
  by_cases hi : i = 0
  · subst hi
    decide
  · obtain ⟨hne, hsmall⟩ := natAbs_bounds hi
    have hhigh := (magnitudeOfNat_bounds hne hsmall).2
    rw [toNat_ofInt32 hi]
    split <;> omega

theorem toNumber_boxed {v : Primitive} {x : Double} (h : v.toNumber strings = .ok x) :
    x.toNat < 0xfffe * 2 ^ 48 := by
  cases v <;> simp only [Primitive.toNumber, Except.ok.injEq, reduceCtorEq] at h <;> subst h
  case undefined => decide
  case null => decide
  case boolean => exact ofInt32_boxed _
  case int32 => exact ofInt32_boxed _
  case double d => exact d.property
  case string s => exact (strings.toNumber s).property

/-- The generic path converts through a number value, and stores what the specification does. -/
theorem toNative_ofDouble (h : type.isBigIntArray = false) {x : Double}
    (hx : x.toNat < 0xfffe * 2 ^ 48) :
    toNative strings target type (.ofDouble x) = .ok (type.numericToRawBytes x) := by
  rw [Primitive.ofDouble]
  cases hconv : isInt32ConvertibleDouble x with
  | some i => rw [toNative_int32 target strings h, isInt32ConvertibleDouble_exact hconv]
  | none => rw [toNative_double target strings h, Primitive.boxed, dif_pos hx]

theorem toNative_bigInt (h : type.isBigIntArray = true) (v : Primitive) :
    toNative strings target type v = (v.toBigInt strings).map (wrap 64) := by
  cases type <;> first | exact absurd h (by decide) | skip
  all_goals
    rw [toNative, BigIntegralArrayAdaptor.toNative]
    cases v.toBigInt strings <;> rfl

end Conversions

variable (strings : StringConversions) (type : TypedArrayType)

/-- A number the integer type can represent, or NaN, which the adaptor tests for. -/
def TypedArrayType.Represents (x : Double) : Prop :=
  x.isnan = true ∨ ∃ t, x.truncated = some t ∧ type.lowest ≤ t ∧ t ≤ type.highest

/-- The value is a number, or the type is not a modular one, or the truncated number that
the value converts to lies in the range of the type. -/
def Primitive.Castable : Primitive → Prop
  | .int32 _ | .double _ => True
  | v => type.isIntegral = true → ∀ x, v.toNumber strings = .ok x → type.Represents x

section Castable

open Double

variable (strings : StringConversions) (target : Target) {x : Double}

theorem truncated_of_isnan (h : x.isnan = true) : x.truncated = none := by
  have hnan := (isnan_iff x).mp h
  have hfin : ¬ x.isfinite = true := by
    rw [isfinite, decide_eq_true_eq]
    omega
  rw [truncated, if_neg hfin]

variable {type : TypedArrayType}

theorem staticCast_of_represents {t : Int} (ht : x.truncated = some t)
    (hrange : type.lowest ≤ t ∧ t ≤ type.highest) :
    target.staticCast type x = x.modular type.width := by
  rw [Target.staticCast, modular, ht]
  exact if_pos hrange

theorem staticCast_of_not_represents (h : ¬ type.Represents x) :
    target.staticCast type x = target.unrepresentable type x % 2 ^ type.width := by
  rw [Target.staticCast]
  cases ht : x.truncated with
  | none => rfl
  | some t => exact if_neg fun hrange => h (.inr ⟨t, ht, hrange⟩)

theorem bind_isnan (number : Except ThrownError Double) (f : Double → Nat) : (do
      let x ← number
      if x.isnan then return 0
      return f x : Except ThrownError Nat) = number.map fun x => if x.isnan then 0 else f x := by
  cases number with
  | error => rfl
  | ok x =>
    simp only [bind, Except.bind, Except.map, pure, Except.pure]
    cases x.isnan <;> rfl

variable {v : Primitive}

theorem toNative_integral (h : type.isIntegral = true) (hint : ∀ i, v ≠ .int32 i)
    (hdouble : ∀ d, v ≠ .double d) :
    toNative strings target type v = (v.toNumber strings).map
      fun x => if x.isnan then 0 else target.staticCast type x := by
  rw [toNative_of_isIntegral target strings h, ← bind_isnan]
  cases v with
  | int32 i => exact absurd rfl (hint i)
  | double d => exact absurd rfl (hdouble d)
  | undefined | null | boolean | string | symbol | bigInt => rfl

theorem castable_iff (hint : ∀ i, v ≠ .int32 i) (hdouble : ∀ d, v ≠ .double d) :
    v.Castable strings type ↔
      (type.isIntegral = true → ∀ x, v.toNumber strings = .ok x → type.Represents x) := by
  cases v with
  | int32 i => exact absurd rfl (hint i)
  | double d => exact absurd rfl (hdouble d)
  | undefined | null | boolean | string | symbol | bigInt => rfl

theorem rawBytesOf_of_isIntegral (h : type.isIntegral = true) (hx : v.toNumber strings = .ok x) :
    type.rawBytesOf strings v = .ok (x.modular type.width) := by
  rw [TypedArrayType.rawBytesOf, isBigIntArray_of_isIntegral h, hx]
  exact congrArg Except.ok (numericToRawBytes_of_isIntegral h x)

theorem toNative_other (h : type.isIntegral = false) (hbig : type.isBigIntArray = false)
    (hint : ∀ i, v ≠ .int32 i) (hdouble : ∀ d, v ≠ .double d) :
    toNative strings target type v = (v.toNumber strings).map type.numericToRawBytes := by
  have hdo (f : Double → Nat) : (do return f (← v.toNumber strings) : Except ThrownError Nat) =
      (v.toNumber strings).map f := by cases v.toNumber strings <;> rfl
  cases type with
  | int8 | int16 | int32 | uint8 | uint16 | uint32 => cases h
  | bigInt64 | bigUint64 => cases hbig
  | float16 => exact toNative_float16 target strings v
  | float32 =>
    refine Eq.trans ?_ (hdo toFloat32)
    cases v with
    | int32 i => exact absurd rfl (hint i)
    | double d => exact absurd rfl (hdouble d)
    | undefined | null | boolean | string | symbol | bigInt => rfl
  | float64 =>
    refine Eq.trans ?_ (hdo UInt64.toNat)
    cases v with
    | int32 i => exact absurd rfl (hint i)
    | double d => exact absurd rfl (hdouble d)
    | undefined | null | boolean | string | symbol | bigInt => rfl
  | uint8Clamped =>
    have hclamp : clamped = Uint8ClampedAdaptor.toNativeFromDouble :=
      funext fun x => (clamped_toNativeFromDouble x).symm
    refine Eq.trans ?_ ((hdo clamped).trans rfl)
    rw [hclamp]
    cases v with
    | int32 i => exact absurd rfl (hint i)
    | double d => exact absurd rfl (hdouble d)
    | undefined | null | boolean | string | symbol | bigInt => rfl

/-- The values the direct store converts as the specification does. -/
theorem toNative_of_castable (hcast : v.Castable strings type) :
    toNative strings target type v = type.rawBytesOf strings v := by
  rw [TypedArrayType.rawBytesOf]
  cases hbig : type.isBigIntArray with
  | true => exact toNative_bigInt target strings hbig v
  | false =>
    by_cases hnumber : (∃ i, v = .int32 i) ∨ ∃ d, v = .double d
    · obtain ⟨i, rfl⟩ | ⟨d, rfl⟩ := hnumber
      · exact toNative_int32 target strings hbig i
      · exact toNative_double target strings hbig d
    · have hnint : ∀ i, v ≠ .int32 i := fun i hi => hnumber (.inl ⟨i, hi⟩)
      have hndouble : ∀ d, v ≠ .double d := fun d hd => hnumber (.inr ⟨d, hd⟩)
      cases hint : type.isIntegral with
      | false => exact toNative_other strings target hint hbig hnint hndouble
      | true =>
        rw [castable_iff strings hnint hndouble] at hcast
        rw [toNative_integral strings target hint hnint hndouble]
        cases hx : v.toNumber strings with
        | error e => rfl
        | ok x =>
          simp only [Bool.false_eq_true, if_false, Except.map, Except.ok.injEq,
            numericToRawBytes_of_isIntegral hint]
          by_cases hnan : x.isnan = true
          · rw [if_pos hnan, modular, truncated_of_isnan hnan]
            simp [wrap]
          · obtain hnan' | ⟨t, ht, hrange⟩ := hcast hint x hx
            · exact absurd hnan' hnan
            · rw [if_neg hnan, staticCast_of_represents target ht hrange]

end Castable

theorem getElem?_overwrite (data : List UInt8) (position : Nat) (bytes : List UInt8) (i : Nat) :
    (overwrite data position bytes)[i]? =
      data[i]?.map fun b => if position ≤ i then bytes[i - position]?.getD b else b := by
  rw [overwrite, getElem?_mapIdx]

theorem take_drop_overwrite {data bytes : List UInt8} {position : Nat}
    (h : position + bytes.length ≤ data.length) :
    ((overwrite data position bytes).drop position).take bytes.length = bytes := by
  apply ext_getElem?
  intro i
  by_cases hi : i < bytes.length
  · have hdata : position + i < data.length := by omega
    rw [getElem?_take_of_lt hi, getElem?_drop, getElem?_overwrite,
      getElem?_eq_getElem hdata, getElem?_eq_getElem hi]
    simp [hi]
  · rw [getElem?_eq_none (by simp; omega), getElem?_eq_none (by omega)]

variable (order : ByteOrder) (size bits : Nat)

theorem length_rawBytes : (rawBytes order size bits).length = size := by
  cases order <;> simp [rawBytes, length_littleEndian]

theorem readRawBytesAs_rawBytes :
    readRawBytesAs order (rawBytes order size bits) = bits % 256 ^ size := by
  cases order <;> simp [rawBytes, readRawBytesAs, ofLittleEndian_littleEndian]

namespace TypedArray

variable (array : TypedArray) (index : Nat)

/-- The value and the number that designate a valid index. -/
def indexValue : Primitive := .int32 (.ofNat index)

def indexNumber : Double := .ofInt32 (.ofNat index)

/-- The place of an element in the buffer. -/
def elementPosition : Nat := array.byteOffset + index * array.type.elementSize

section InRange

variable {array} {index : Nat} (h : index < array.arrayLength)

include h

theorem elementPosition_add_le :
    array.elementPosition index + array.type.elementSize ≤ (array.buffer.getD []).length := by
  have hfits := array.fits
  have hmul : (index + 1) * array.type.elementSize ≤ array.arrayLength * array.type.elementSize :=
    Nat.mul_le_mul_right _ h
  rw [Nat.add_mul, Nat.one_mul] at hmul
  unfold elementPosition
  omega

theorem isDetachedBuffer_eq_false : array.isDetachedBuffer = false := by
  have hle := elementPosition_add_le h
  have hpos := array.type.elementSize_pos
  unfold isDetachedBuffer
  cases hb : array.buffer with
  | none =>
    rw [hb] at hle
    simp only [getD_none, length_nil] at hle
    omega
  | some data => rfl

theorem toInt_ofNat_index : (Int32.ofNat index).toInt = index := by
  have hle := elementPosition_add_le h
  have hpos := array.type.elementSize_pos
  have hlimited := array.limited
  have hindex : index ≤ index * array.type.elementSize := Nat.le_mul_of_pos_right _ hpos
  unfold elementPosition at hle
  exact Int32.toInt_ofNat_of_lt (by omega)

theorem indexOf_indexValue : indexOf (indexValue index) = some index := by
  simp [indexOf, indexValue, toInt_ofNat_index h]

theorem integerIndex_indexNumber : integerIndex (indexNumber index) = some index := by
  have hint := toInt_ofNat_index h
  have hsign : (indexNumber index).signbit = false := by
    rw [indexNumber, Double.signbit_ofInt32, hint]
    simp
  have hscaled : (indexNumber index).scaled = index * Double.one := by
    rw [indexNumber, Double.scaled_ofInt32, hint, Int.natAbs_natCast]
  have hfin : (indexNumber index).isfinite = true := Double.isfinite_ofInt32 _
  rw [integerIndex, hsign, hfin, hscaled, Nat.mul_mod_left, Nat.mul_div_cancel _ Double.one_pos]
  rfl

theorem bytesAt_write {bytes : List UInt8} (hlen : bytes.length = array.type.elementSize) :
    (array.write (array.elementPosition index) bytes).bytesAt (array.elementPosition index) =
      bytes := by
  have hle := elementPosition_add_le h
  have hattached := isDetachedBuffer_eq_false h
  cases hb : array.buffer with
  | none =>
    rw [isDetachedBuffer, hb] at hattached
    cases hattached
  | some data =>
    rw [hb, ← hlen] at hle
    simp only [bytesAt, write, hb, map_some, getD_some, ← hlen]
    exact take_drop_overwrite hle

variable (strings : StringConversions) (target : Target) (v : Primitive)

theorem setIndexedProperty_eq : array.setIndexedProperty strings target (indexValue index) v =
      .answered (match toNative strings target array.type v with
        | .error e => (array, .error e)
        | .ok bits => (array.write (array.elementPosition index)
            (rawBytes target.order array.type.elementSize bits), .ok true)) := by
  simp only [setIndexedProperty, indexOf_indexValue h, isDetachedBuffer_eq_false h,
    setDirectValueInBuffer, elementPosition, decide_eq_true h, Bool.not_false, Bool.and_self,
    if_true]
  cases toNative strings target array.type v <;> rfl

/-- The generic store is the one of the specification, for every value. -/
theorem integerIndexedElementSet_eq :
    array.integerIndexedElementSet strings target (indexNumber index) v =
      array.typedArraySetElement strings target index v := by
  have hlt : ¬ index ≥ array.arrayLength := by omega
  have hle := elementPosition_add_le h
  have hroom : ¬ index * array.type.elementSize + array.byteOffset + array.type.elementSize >
      (array.buffer.getD []).length := by
    unfold elementPosition at hle
    omega
  simp only [integerIndexedElementSet, typedArraySetElement, TypedArrayType.rawBytesOf,
    isDetachedBuffer_eq_false h, integerIndex_indexNumber h, setValueInBuffer, if_neg hlt,
    if_neg hroom, Bool.false_eq_true, if_false]
  cases hbig : array.type.isBigIntArray with
  | true =>
    simp only [if_true]
    cases hv : v.toBigInt strings with
    | error e => rfl
    | ok n =>
      simp only [Except.map, toNative_bigInt target strings hbig, Primitive.toBigInt]
      rw [Nat.add_comm]
  | false =>
    simp only [Bool.false_eq_true, if_false]
    cases hv : v.toNumber strings with
    | error e => rfl
    | ok x =>
      simp only [Except.map, toNative_ofDouble target strings hbig (toNumber_boxed strings hv)]
      rw [Nat.add_comm]

omit h

theorem getDirectValueFromBuffer_eq (array : TypedArray) (position : Nat)
    (hattached : array.buffer.isNone = false) :
    array.getDirectValueFromBuffer target position =
      rawBytesToNumber target.order array.type (array.bytesAt (array.byteOffset + position)) := by
  simp only [getDirectValueFromBuffer, rawBytesToNumber, hattached, Bool.false_eq_true, if_false]
  cases array.type <;> rfl

def ReadsAs (array : TypedArray) (target : Target) (index : Nat) (value : Primitive) : Prop :=
  array.getIndexedPropertyValue target (indexValue index) = .answered value ∧
  array.getIndexedProperty target (indexValue index) = .answered (some ⟨value, true, true, false⟩) ∧
  array.integerIndexedElementGet target (indexNumber index) = .ok (some ⟨value, true, true, true⟩)

theorem readsAs (h : index < array.arrayLength) : array.ReadsAs target index
      (rawBytesToNumber target.order array.type (array.bytesAt (array.elementPosition index))) := by
  have hattached := isDetachedBuffer_eq_false h
  have hle := elementPosition_add_le h
  have hlt : ¬ index ≥ array.arrayLength := by omega
  have hdirect :=
    getDirectValueFromBuffer_eq target array (index * array.type.elementSize) hattached
  have hroom : ¬ index * array.type.elementSize + array.byteOffset + array.type.elementSize >
      (array.buffer.getD []).length := by
    unfold elementPosition at hle
    omega
  refine ⟨?_, ?_, ?_⟩
  · simp only [getIndexedPropertyValue, indexOf_indexValue h, if_pos h, hattached,
      Bool.false_eq_true, if_false, hdirect, elementPosition]
  · simp only [getIndexedProperty, indexOf_indexValue h, if_pos h, hattached,
      Bool.false_eq_true, if_false, hdirect, elementPosition]
  · simp only [integerIndexedElementGet, hattached, Bool.false_eq_true, if_false,
      integerIndex_indexNumber h, if_neg hlt, getValueFromBuffer, if_neg hroom, elementPosition]
    rw [Nat.add_comm]
    rfl

end InRange

end TypedArray

section Represented

open Double

variable {type : TypedArrayType}

theorem width_pos (type : TypedArrayType) : 0 < type.width := by cases type <;> decide

theorem represented_spec {bits : Nat} (hbits : bits < 2 ^ type.width) :
    type.lowest ≤ type.represented bits ∧ type.represented bits ≤ type.highest ∧
      type.represented bits % 2 ^ type.width = (bits : Int) % 2 ^ type.width := by
  have hhalf : 2 ^ type.width = 2 * 2 ^ (type.width - 1) := by
    rw [← Nat.pow_succ', Nat.succ_eq_add_one, Nat.sub_add_cancel (width_pos type)]
  have hhalf' : (2 : Int) ^ type.width = 2 * 2 ^ (type.width - 1) := by exact_mod_cast hhalf
  have hcast : ((2 ^ (type.width - 1) : Nat) : Int) = 2 ^ (type.width - 1) := by push_cast; rfl
  unfold TypedArrayType.represented TypedArrayType.lowest TypedArrayType.highest
  cases type.isSigned with
  | false =>
    simp only [Bool.false_and, Bool.false_eq_true, if_false]
    exact ⟨by omega, by omega, trivial⟩
  | true =>
    by_cases hge : 2 ^ (type.width - 1) ≤ bits
    · have hge' : (2 : Int) ^ (type.width - 1) ≤ bits := by exact_mod_cast hge
      simp only [Bool.true_and, hge, decide_true, if_true]
      refine ⟨by omega, by omega, ?_⟩
      rw [Int.sub_emod, Int.emod_self, Int.sub_zero, Int.emod_emod]
    · have hlt' : (bits : Int) < 2 ^ (type.width - 1) := by
        omega
      simp only [Bool.true_and, hge, decide_false, Bool.false_eq_true, if_false]
      exact ⟨by omega, by omega, trivial⟩

theorem integer?_ofUnsigned {n : Nat} (hn : n < 2 ^ 32) :
    (Primitive.ofUnsigned n).integer? = some (n : Int) := by
  rw [Primitive.ofUnsigned]
  split
  case isTrue h => exact congrArg some (Int32.toInt_ofNat_of_lt h)
  case isFalse h =>
      have hne : n ≠ 0 := by omega
      have hhigh := (magnitudeOfNat_bounds hne hn).2
      have hboxed : (UInt64.ofNat (magnitudeOfNat n)).toNat < 0xfffe * 2 ^ 48 := by
        rw [UInt64.toNat_ofNat']
        omega
      rw [Primitive.integer?, Primitive.boxed, dif_pos hboxed]
      exact truncated_magnitudeOfNat hne hn

theorem integer?_rawBytesToNumber (htype : type.isIntegral = true) (order : ByteOrder)
    {bytes : List UInt8} (hbits : readRawBytesAs order bytes < 2 ^ type.width) :
    (rawBytesToNumber order type bytes).integer? =
      some (type.represented (readRawBytesAs order bytes)) := by
  obtain ⟨hlow, hhigh, -⟩ := represented_spec hbits
  cases type with
  | uint8Clamped | float16 | float32 | float64 | bigInt64 | bigUint64 => cases htype
  | uint32 =>
    exact integer?_ofUnsigned hbits
  | int8 | int16 | int32 | uint8 | uint16 =>
    exact congrArg some (Int32.toInt_ofInt_of_le (Int.le_trans (by decide) hlow)
      (Int.lt_of_le_of_lt hhigh (by decide)))

end Represented

namespace TypedArray

variable (array : TypedArray) (strings : StringConversions) (target : Target) (index : Nat)

/-- The element holds `ToNumber(v)` truncated modulo `2 ^ width`: zero for NaN and infinities. -/
def HoldsModular (x : Double) : Prop :=
  ∃ value t, array.ReadsAs target index value ∧ value.integer? = some t ∧
    array.type.lowest ≤ t ∧ t ≤ array.type.highest ∧
    t % 2 ^ array.type.width = x.truncated.getD 0 % 2 ^ array.type.width

/-- The direct store, the generic store and the specification leave one state with one
result, in which the readers agree and an integer type holds the modular number. -/
def AccessesAgree (v : Primitive) : Prop :=
  ∃ stored, array.setIndexedProperty strings target (indexValue index) v = .answered stored ∧
    array.integerIndexedElementSet strings target (indexNumber index) v = stored ∧
    array.typedArraySetElement strings target index v = stored ∧
    (∃ value, stored.1.ReadsAs target index value) ∧
    (array.type.isIntegral = true → ∀ x, v.toNumber strings = .ok x →
      stored.1.HoldsModular target index x)

section Agreement

variable {array : TypedArray} {index : Nat} (h : index < array.arrayLength)
  (strings : StringConversions) (target : Target) (v : Primitive)

include h

/-- The modular number, once written, is what the readers find. -/
theorem holdsModular_write (htype : array.type.isIntegral = true) (x : Double) :
    (array.write (array.elementPosition index)
      (rawBytes target.order array.type.elementSize (x.modular array.type.width))).HoldsModular
        target index x := by
  have hlt : x.modular array.type.width < 2 ^ array.type.width := Double.wrap_lt _ _
  have hpow : 256 ^ array.type.elementSize = 2 ^ array.type.width := by
    rw [TypedArrayType.width, Nat.pow_mul]
  have hread : readRawBytesAs target.order
      (rawBytes target.order array.type.elementSize (x.modular array.type.width)) =
        x.modular array.type.width := by
    rw [readRawBytesAs_rawBytes, hpow]
    exact Nat.mod_eq_of_lt hlt
  have hbytes := bytesAt_write h (length_rawBytes target.order array.type.elementSize
    (x.modular array.type.width))
  have hindex : index < (array.write (array.elementPosition index)
    (rawBytes target.order array.type.elementSize (x.modular array.type.width))).arrayLength := h
  obtain ⟨hlow, hhigh, hmod⟩ := represented_spec hlt
  refine ⟨_, array.type.represented (x.modular array.type.width), readsAs target hindex, ?_,
    hlow, hhigh, ?_⟩
  · have hinteger := integer?_rawBytesToNumber htype target.order (hread.symm ▸ hlt)
    rw [hread] at hinteger
    exact (congrArg (fun bytes => (rawBytesToNumber target.order array.type bytes).integer?)
      hbytes).trans hinteger
  · refine hmod.trans ?_
    rw [Double.modular, Double.wrap, Int.toNat_of_nonneg (Int.emod_nonneg _ (Int.pow_ne_zero
      (by omega))), Int.emod_emod]
    rfl

/-- The stores agree when the adaptor makes the specified bits of the value. -/
theorem accessesAgree_of_toNative
    (hnative : toNative strings target array.type v = array.type.rawBytesOf strings v) :
    array.AccessesAgree strings target index v := by
  refine ⟨array.typedArraySetElement strings target index v, ?_,
    integerIndexedElementSet_eq h strings target v, rfl, ?_, ?_⟩
  · rw [setIndexedProperty_eq h, hnative]
    rfl
  · have hlt : index < (array.typedArraySetElement strings target index v).1.arrayLength := by
      unfold typedArraySetElement
      cases array.type.rawBytesOf strings v <;> exact h
    exact ⟨_, readsAs target hlt⟩
  · intro htype x hx
    rw [typedArraySetElement, rawBytesOf_of_isIntegral strings htype hx]
    exact holdsModular_write h target htype x

theorem toNative_of_accessesAgree (hagree : array.AccessesAgree strings target index v)
    {bits bits' : Nat} (hbits : toNative strings target array.type v = .ok bits)
    (hbits' : array.type.rawBytesOf strings v = .ok bits') :
    bits % 256 ^ array.type.elementSize = bits' % 256 ^ array.type.elementSize := by
  obtain ⟨stored, hset, -, hspec, -, -⟩ := hagree
  rw [setIndexedProperty_eq h, hbits] at hset
  simp only [typedArraySetElement, hbits'] at hspec
  have hsame : array.write (array.elementPosition index)
        (rawBytes target.order array.type.elementSize bits) =
      array.write (array.elementPosition index)
        (rawBytes target.order array.type.elementSize bits') := by
    rw [IndexedAccess.answered.injEq, ← hspec] at hset
    exact congrArg Prod.fst hset
  have hbytes := congrArg (fun a => a.bytesAt (array.elementPosition index)) hsame
  rw [bytesAt_write h (length_rawBytes _ _ _), bytesAt_write h (length_rawBytes _ _ _)] at hbytes
  have hread := congrArg (readRawBytesAs target.order) hbytes
  rwa [readRawBytesAs_rawBytes, readRawBytesAs_rawBytes] at hread

/-- Accesses that agree in every compiled program convert only what the cast is defined for. -/
theorem castable_of_accessesAgree (hagree : ∀ target, array.AccessesAgree strings target index v) :
    v.Castable strings array.type := by
  by_contra hcast
  have hint : ∀ i, v ≠ .int32 i := fun i hi => hcast (hi ▸ trivial)
  have hdouble : ∀ d, v ≠ .double d := fun d hd => hcast (hd ▸ trivial)
  rw [castable_iff strings hint hdouble] at hcast
  obtain ⟨htype, x, hx, hrep⟩ : array.type.isIntegral = true ∧
      ∃ x, v.toNumber strings = .ok x ∧ ¬ array.type.Represents x := by
    simpa only [Classical.not_imp, not_forall, exists_prop] using hcast
  -- A compiler that is off by one where the language leaves the result open.
  let target : Target := ⟨.little, fun type x => type.numericToRawBytes x + 1⟩
  have hnan : ¬ x.isnan = true := fun hnan => hrep (.inl hnan)
  have hbits : toNative strings target array.type v = .ok (target.staticCast array.type x) := by
    rw [toNative_integral strings target htype hint hdouble, hx]
    exact congrArg Except.ok (if_neg hnan)
  have hoff : target.staticCast array.type x =
      (x.modular array.type.width + 1) % 2 ^ array.type.width :=
    (staticCast_of_not_represents target hrep).trans
      (congrArg (fun n => (n + 1) % 2 ^ array.type.width)
        (numericToRawBytes_of_isIntegral htype x))
  have hsame := toNative_of_accessesAgree h strings target v (hagree target) hbits
    (rawBytesOf_of_isIntegral strings htype hx)
  have hpow : 256 ^ array.type.elementSize = 2 ^ array.type.width := by
    rw [TypedArrayType.width, Nat.pow_mul]
  have hlt : x.modular array.type.width < 2 ^ array.type.width := Double.wrap_lt _ _
  have htwo : 2 ≤ 2 ^ array.type.width := Nat.le_self_pow (Nat.ne_of_gt (width_pos _)) 2
  rw [hoff, hpow, Nat.mod_mod, Nat.mod_eq_of_lt hlt] at hsame
  rcases Nat.lt_or_ge (x.modular array.type.width + 1) (2 ^ array.type.width) with hlt' | hge
  · rw [Nat.mod_eq_of_lt hlt'] at hsame
    omega
  · have heq : x.modular array.type.width + 1 = 2 ^ array.type.width := by omega
    rw [heq, Nat.mod_self] at hsame
    omega

end Agreement

/-- In every compiled program the accesses agree at every valid index, exactly for the values
whose truncated number the element type represents, or that are numbers already. -/
theorem accessesAgree_iff (array : TypedArray) (index : Fin array.arrayLength)
    (strings : StringConversions) (v : Primitive) :
    (∀ target, array.AccessesAgree strings target index v) ↔ v.Castable strings array.type :=
  ⟨castable_of_accessesAgree index.isLt strings v, fun hcast target =>
    accessesAgree_of_toNative index.isLt strings target v
      (toNative_of_castable strings target hcast)⟩

/-- An x86-64 program: the conversion instruction gives the least integer of its width for
what it cannot convert, and the narrower types keep the low bits of the result. -/
def x86 : Target where
  order := .little
  unrepresentable type number :=
    match type with
    | .uint32 =>
      match number.truncated with
      | some t => if -2 ^ 63 ≤ t ∧ t < 2 ^ 63 then Double.wrap 32 t else 0
      | none => 0
    | _ =>
      match number.truncated with
      | some t => if -2 ^ 31 ≤ t ∧ t < 2 ^ 31 then Double.wrap 32 t else 2 ^ 31
      | none => 2 ^ 31

def infinityText : EString := .latin1 [73, 110, 102, 105, 110, 105, 116, 121]

def infinityConversions : StringConversions where
  toNumber s := if s = infinityText then ⟨0x7ff0000000000000, by decide⟩
    else ⟨ValueWord.quietNaN, by decide⟩
  parseBigInt _ := none

/-- An `Int32Array` of one element. -/
def oneInt32 : TypedArray := ⟨.int32, some [0, 0, 0, 0], 0, 1, by decide, by decide⟩

/-- The direct store of the string `Infinity` leaves the least int32 instead of zero. -/
theorem infinity_text_stored :
    ¬ oneInt32.AccessesAgree infinityConversions x86 0 (.string infinityText) := by
  intro hagree
  have hindex : 0 < oneInt32.arrayLength := by decide
  have hdirect : toNative infinityConversions x86 oneInt32.type (.string infinityText) =
      .ok (2 ^ 31) := by decide +kernel
  have hspec : oneInt32.type.rawBytesOf infinityConversions (.string infinityText) = .ok 0 := by
    decide +kernel
  have hsame := toNative_of_accessesAgree hindex _ _ _ hagree hdirect hspec
  exact absurd hsame (by decide)

end TypedArray

end Escargot.Runtime
