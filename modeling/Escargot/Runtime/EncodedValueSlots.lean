/-
# Encoded values as payload words

`EncodedValue` stores a value in one pointer-sized word. Small integers are
tagged in the word, immediates are small even words, pointers are themselves,
and every other number lives in a `NumberInEncodedValue` box that assignment
overwrites in place. This module models the word for both pointer widths with
the memory behind it, and runs sequences of assignments to several slots.
The address a new box gets is chosen by the collector; it is part of the
operation, and the collector's contract is part of the guard.
-/

import Escargot.Runtime.NanBoxing
import Escargot.Foundation.Run

namespace Escargot.Runtime

open Function (update_of_ne update_self)

/-- `ESCARGOT_32` and `ESCARGOT_64`. -/
inductive PointerWidth
  | bits32
  | bits64

def PointerWidth.bits : PointerWidth → Nat
  | .bits32 => 32
  | .bits64 => 64

/-- `intptr_t`, the type of `m_data.payload`. -/
abbrev Payload (w : PointerWidth) := BitVec w.bits

namespace SmiTagging

variable (w : PointerWidth)

/-- The conversion of an `int` to `intptr_t`. -/
def ofInt (value : Int32) : Payload w := value.toBitVec.signExtend w.bits

/-- The conversion of a `uint32_t` to `intptr_t`. -/
def ofUInt32 (value : UInt32) : Payload w := value.toBitVec.setWidth w.bits

variable (value : Payload w)

/-- `IsValidSmi`: the sum is computed in `uintptr_t`. -/
def isValidSmi : Bool := value + 0x40000000 < 0x80000000

/-- `IntToSmi`: the tagged word is cut to `int32_t` and widened again. -/
def intToSmi (value : Int32) : Payload w :=
  let taggedValue : Payload w := (ofInt w value <<< 1) ||| 1
  (taggedValue.setWidth 32).signExtend w.bits

variable {w}

/-- `SmiToInt`: an arithmetic shift, then the low 32 bits. -/
def smiToInt : Int32 := .ofBitVec ((value.sshiftRight 1).setWidth 32)

/-- `HAS_SMI_TAG`. -/
def hasSmiTag : Bool := value &&& 1 == 1

end SmiTagging

inductive Cell
  | pointerValue (typeTag : UInt8) (v : Value)
  | number (v : Value)

/-- The byte `readPointerIsNumberEncodedValue` looks at. -/
def Cell.typeTag : Cell → UInt8
  | pointerValue typeTag _ => typeTag
  | number _ => numberTagInData.toUInt8

abbrev CellMemory (w : PointerWidth) := Payload w → Option Cell

/-- `EncodedValue::readPointerIsNumberEncodedValue`. -/
def Cell.isNumberEncodedValue (cell : Cell) : Bool := cell.typeTag == numberTagInData.toUInt8

/-- `NumberInEncodedValue::value`. -/
def Cell.numberValue : Cell → Option Value
  | number v => some v
  | pointerValue _ _ => none

def Cell.pointer : Cell → Option Value
  | pointerValue _ v => some v
  | number _ => none

namespace Value

/-- `Value::isPointerValue`, which on a 64-bit target holds of the empty value too. -/
def isPointerValueAt (w : PointerWidth) (v : Value) : Bool :=
  match w with
  | .bits32 => v.isPointerValue
  | .bits64 => v.isPointerValue || v.isEmpty

/-- `(intptr_t)v.asPointerValue()`. The empty value is the null pointer. -/
def asPointerPayload (w : PointerWidth) : Value → Payload w
  | string address _ | symbol address | bigInt address _ | object address => .ofNat w.bits address
  | _ => 0

/-- `Value::tag` of an immediate on a 32-bit target. -/
def tag : Value → BitVec 32
  | empty => ~~~ValueWord.valueEmpty.toUInt32.toBitVec
  | boolean false => ~~~ValueWord.valueFalse.toUInt32.toBitVec
  | boolean true => ~~~ValueWord.valueTrue.toUInt32.toBitVec
  | null => ~~~ValueWord.valueNull.toUInt32.toBitVec
  | _ => ~~~ValueWord.valueUndefined.toUInt32.toBitVec

/-- `Value(FromTag, tag)`. -/
def fromTag (tag : BitVec 32) : Option Value :=
  [empty, boolean false, boolean true, null, undefined].find? fun v => v.tag == tag

/-- `Value::payload` of an immediate on a 64-bit target, the whole word. -/
def word : Value → BitVec 64
  | empty => ValueWord.valueEmpty.toBitVec
  | boolean false => ValueWord.valueFalse.toBitVec
  | boolean true => ValueWord.valueTrue.toBitVec
  | null => ValueWord.valueNull.toBitVec
  | _ => ValueWord.valueUndefined.toBitVec

/-- `Value(reinterpret_cast<PointerValue*>(ptr))` of a word up to `ValueLast`. -/
def fromWord (word : BitVec 64) : Option Value :=
  [empty, boolean false, boolean true, null, undefined].find? fun v => v.word == word

/-- `Value(unsigned)`. -/
def ofUnsigned (n : UInt32) : Value :=
  if n.toInt32 < 0 then double (.ofNat (Double.magnitudeOfNat n.toNat)) else int32 n.toInt32

end Value

namespace EncodedSlot

open SmiTagging

variable {w : PointerWidth}

/-- The payload of an immediate: `~from.tag()` or `from.payload()`. -/
def immediatePayload : (w : PointerWidth) → Value → Payload w
  | .bits32, v => ~~~v.tag
  | .bits64, v => v.word

/-- The value of a payload up to `ValueLast`. -/
def immediateValue : {w : PointerWidth} → Payload w → Option Value
  | .bits32, payload => Value.fromTag (~~~payload)
  | .bits64, payload => Value.fromWord payload

/-- `EncodedValue()`. -/
def undefinedPayload (w : PointerWidth) : Payload w := .ofNat w.bits 14

/-- The part of `EncodedValue::toValue` that reads a cell. On a 32-bit target the
type tag also decides whether the value is made as an object or as another pointer. -/
def cellValue (w : PointerWidth) (cell : Cell) : Option Value :=
  match w with
  | .bits32 =>
    if cell.typeTag &&& notObjectTagInData.toUInt8 == 0 then
      match cell.pointer with
      | some (.object address) => some (.object address)
      | _ => none
    else if cell.isNumberEncodedValue then cell.numberValue
    else
      match cell.pointer with
      | some (.object _) => none
      | v => v
  | .bits64 => if cell.isNumberEncodedValue then cell.numberValue else cell.pointer

def toValue (memory : CellMemory w) (payload : Payload w) : Option Value :=
  if hasSmiTag payload then some (.int32 (smiToInt payload))
  else if payload ≤ undefinedPayload w then immediateValue payload
  else (memory payload).bind (cellValue w)

/-- `new NumberInEncodedValue(v)` at the address the collector returned. -/
def newNumber (memory : CellMemory w) (fresh : Payload w) (v : Value) : CellMemory w :=
  Function.update memory fresh (some (.number v))

def fromValueForCtor (memory : CellMemory w) (fresh : Payload w) (v : Value) :
    CellMemory w × Payload w :=
  if v.isPointerValueAt w then (memory, v.asPointerPayload w)
  else
    match v with
    | .int32 i =>
      if SmiTagging.isValidSmi w (ofInt w i) then (memory, intToSmi w i) else number (.ofInt32 i)
    | .double d => number d
    | _ => (memory, immediatePayload w v)
where
  /-- The branch for a number that is no tagged int32. -/
  number (d : Double) : CellMemory w × Payload w :=
    match isInt32ConvertibleDouble d with
    | some i =>
      if SmiTagging.isValidSmi w (ofInt w i) then (memory, intToSmi w i)
      else (newNumber memory fresh v, fresh)
    | none => (newNumber memory fresh v, fresh)

/-- `EncodedValue(uint32_t)`. -/
def ofUInt32 (memory : CellMemory w) (fresh : Payload w) (n : UInt32) : CellMemory w × Payload w :=
  if SmiTagging.isValidSmi w (SmiTagging.ofUInt32 w n) then (memory, intToSmi w n.toInt32)
  else fromValueForCtor memory fresh (.ofUnsigned n)

/-- The slot holds the address of a number box. -/
def holdsBox (memory : CellMemory w) (payload : Payload w) : Bool :=
  !hasSmiTag payload && undefinedPayload w < payload &&
    (memory payload).any Cell.isNumberEncodedValue

/-- `EncodedValue::operator=(const Value&)`. -/
def assign (memory : CellMemory w) (payload fresh : Payload w) (v : Value) :
    CellMemory w × Payload w :=
  if v.isPointerValueAt w then (memory, v.asPointerPayload w)
  else
    match v with
    | .int32 i =>
      if SmiTagging.isValidSmi w (ofInt w i) then (memory, intToSmi w i) else number (.ofInt32 i)
    | .double d => number d
    | _ => (memory, immediatePayload w v)
where
  /-- The branch for a number that is no tagged int32: an existing box is reused. -/
  number (d : Double) : CellMemory w × Payload w :=
    let mutableFrom : Value :=
      match isInt32ConvertibleDouble d with
      | some i => .int32 i
      | none => v
    if holdsBox memory payload then (newNumber memory payload mutableFrom, payload)
    else (newNumber memory fresh mutableFrom, fresh)

end EncodedSlot

/-- The type tag byte that the cells of a pointer value's class carry. -/
def Value.Tagged (typeTag : UInt8) : Value → Prop
  | .object _ => typeTag.toNat % 8 = 0
  | .string _ _ => typeTag.toNat % 2 = 1
  | .symbol _ => typeTag = symbolTagInData.toUInt8
  | .bigInt _ _ => typeTag = bigIntTagInData.toUInt8
  | _ => False

namespace EncodedSlot

open SmiTagging

variable {w : PointerWidth} {ι : Type*} [DecidableEq ι]

/-- An address that can be that of a cell: even, and above the immediates. -/
def IsCellAddress (address : Payload w) : Prop :=
  hasSmiTag address = false ∧ undefinedPayload w < address

/-- What the collector promises of an address it returns. -/
def Allocatable (memory : CellMemory w) (address : Payload w) : Prop :=
  IsCellAddress address ∧ memory address = none

def Live (memory : CellMemory w) (v : Value) : Prop :=
  v.isPointerValue = true → IsCellAddress (v.asPointerPayload w) ∧ ∃ typeTag, v.Tagged typeTag ∧
      memory (v.asPointerPayload w) = some (.pointerValue typeTag v)

/-- Reading the payload gives the value, as far as can be observed. -/
def Stores (memory : CellMemory w) (payload : Payload w) (v : Value) : Prop :=
  ∃ u, toValue memory payload = some u ∧ u.sameValue v

/-- The memory and the slots, which are named by an arbitrary type. -/
structure Slots (ι : Type*) (w : PointerWidth) where
  memory : CellMemory w
  payload : ι → Payload w

/-- What happens to the slots and to the memory. The last two are the mutator
allocating a cell and the collector freeing one. -/
inductive SlotOp (ι : Type*) (w : PointerWidth)
  | construct (i : ι) (v : Value) (fresh : Payload w)
  | constructUInt32 (i : ι) (n : UInt32) (fresh : Payload w)
  | assign (i : ι) (v : Value) (fresh : Payload w)
  | assignPointer (i : ι) (v : Value)
  | copy (i j : ι)
  | newCell (typeTag : UInt8) (v : Value)
  | collect (address : Payload w)

variable (s : Slots ι w)

def Slots.store (i : ι) (result : CellMemory w × Payload w) : Slots ι w :=
  { memory := result.1, payload := Function.update s.payload i result.2 }

/-- One operation. `copy` is the implicit copy assignment of the class. -/
def step : SlotOp ι w → Option (Slots ι w × Unit)
  | .construct i v fresh => some (s.store i (fromValueForCtor s.memory fresh v), ())
  | .constructUInt32 i n fresh => some (s.store i (ofUInt32 s.memory fresh n), ())
  | .assign i v fresh => some (s.store i (assign s.memory (s.payload i) fresh v), ())
  | .assignPointer i v => some (s.store i (s.memory, v.asPointerPayload w), ())
  | .copy i j => some (s.store i (s.memory, s.payload j), ())
  | .newCell typeTag v =>
    some ({ s with memory := Function.update s.memory (v.asPointerPayload w)
                                (some (.pointerValue typeTag v)) }, ())
  | .collect address => some ({ s with memory := Function.update s.memory address none }, ())

def lastAssigned (values : ι → Value) : SlotOp ι w → ι → Value
  | .construct i v _ => Function.update values i v
  | .constructUInt32 i n _ => Function.update values i (.ofUnsigned n)
  | .assign i v _ => Function.update values i v
  | .assignPointer i v => Function.update values i v
  | .copy i j => Function.update values i (values j)
  | .newCell _ _ => values
  | .collect _ => values

/-- The constructor from `uint32_t` takes the range test at the pointer width, where
a number from `0xC0000000` on is a small negative integer on a 32-bit target. -/
def FitsSmiTest (w : PointerWidth) (n : UInt32) : Prop := w = .bits64 ∨ n.toNat < 0xC0000000

/-- The environment keeps its contracts (live values are passed, addresses are
fresh, only unreferenced cells are freed), the constructor from `uint32_t` stays
in range, and no slot that holds a box is copied to another slot. -/
def Allowed : SlotOp ι w → Prop
  | .construct _ v fresh | .assign _ v fresh => Live s.memory v ∧ Allocatable s.memory fresh
  | .constructUInt32 _ n fresh => FitsSmiTest w n ∧ Allocatable s.memory fresh
  | .assignPointer _ v => v.isPointerValue = true ∧ Live s.memory v
  | .copy i j => i = j ∨ holdsBox s.memory (s.payload j) = false
  | .newCell typeTag v => v.Tagged typeTag ∧ Allocatable s.memory (v.asPointerPayload w)
  | .collect address => ∀ i, s.payload i ≠ address

/-- Every slot reads as the value last assigned to it, and no box is shared. -/
structure Faithful (values : ι → Value) (s : Slots ι w) : Prop where
  reads : ∀ i, Stores s.memory (s.payload i) (values i)
  separate : ∀ i j, holdsBox s.memory (s.payload i) = true → s.payload i = s.payload j → i = j

variable (w)

theorem toInt_ofInt (i : Int32) : (ofInt w i).toInt = i.toInt := by
  rw [ofInt, BitVec.toInt_signExtend_of_le (by cases w <;> decide)]
  rfl

theorem toNat_ofInt (i : Int32) :
    ((ofInt w i).toNat : Int) = if i.toInt < 0 then i.toInt + 2 ^ w.bits else i.toInt := by
  have hint := toInt_ofInt w i
  rw [BitVec.toInt_eq_toNat_cond] at hint
  split at hint
  · rw [if_neg (by omega), hint]
  · rw [if_pos (by omega), ← hint]
    push_cast
    omega

theorem isValidSmi_iff (value : Payload w) : SmiTagging.isValidSmi w value = true ↔
      (value.toNat + 0x40000000) % 2 ^ w.bits < 0x80000000 := by
  have hoffset : (0x40000000 : Payload w).toNat = 0x40000000 := by cases w <;> rfl
  have hbound : (0x80000000 : Payload w).toNat = 0x80000000 := by cases w <;> rfl
  rw [SmiTagging.isValidSmi, decide_eq_true_eq, BitVec.lt_def, BitVec.toNat_add, hoffset, hbound]

theorem isValidSmi_ofInt (i : Int32) :
    SmiTagging.isValidSmi w (ofInt w i) = true ↔ -2 ^ 30 ≤ i.toInt ∧ i.toInt < 2 ^ 30 := by
  have hlow := i.le_toInt
  have hhigh := i.toInt_lt
  have hword := toNat_ofInt w i
  rw [isValidSmi_iff]
  generalize (ofInt w i).toNat = n at hword
  cases w <;> simp only [PointerWidth.bits] at hword ⊢ <;> split at hword <;> omega

variable {w}

theorem toNat_tagged (x : Payload w) : ((x <<< 1) ||| 1).toNat = 2 * x.toNat % 2 ^ w.bits + 1 := by
  have hone : (1 : Payload w).toNat = 1 := by cases w <;> rfl
  have heven : 2 * x.toNat % 2 ^ w.bits = 2 * x.toNat % 2 ^ w.bits / 2 * 2 ^ 1 := by
    cases w <;> simp only [PointerWidth.bits] <;> omega
  rw [BitVec.toNat_or, BitVec.toNat_shiftLeft, hone, Nat.shiftLeft_eq, Nat.pow_one,
    Nat.mul_comm x.toNat, heven, Foundation.or_eq_add _ (by decide)]

variable {i : Int32}

theorem toInt_intToSmi (hlow : -2 ^ 30 ≤ i.toInt) (hhigh : i.toInt < 2 ^ 30) :
    (intToSmi w i).toInt = 2 * i.toInt + 1 := by
  have hword := toNat_ofInt w i
  have htagged := toNat_tagged (ofInt w i)
  have hcut : ((ofInt w i <<< 1 ||| 1).setWidth 32).toNat =
      (2 * (ofInt w i).toNat % 2 ^ w.bits + 1) % 2 ^ 32 := by
    rw [BitVec.toNat_setWidth, htagged]
  rw [intToSmi, BitVec.toInt_signExtend_of_le (by cases w <;> decide),
    BitVec.toInt_eq_toNat_cond, hcut]
  generalize (ofInt w i).toNat = n at hword
  cases w <;> simp only [PointerWidth.bits] at hword ⊢ <;> split at hword <;> omega

theorem ofBitVec_setWidth {x : Payload w} (h : x.toInt = i.toInt) :
    Int32.ofBitVec (x.setWidth 32) = i := by
  have hword : ∃ k : Int, (x.toNat : Int) = i.toInt + k * (2 ^ 32 : Nat) := by
    rw [BitVec.toInt_eq_toNat_cond] at h
    split at h
    · exact ⟨0, by omega⟩
    · cases w with
      | bits32 => exact ⟨1, by rw [← h]; simp only [PointerWidth.bits]; omega⟩
      | bits64 => exact ⟨2 ^ 32, by rw [← h]; simp only [PointerWidth.bits]; omega⟩
  obtain ⟨k, hk⟩ := hword
  have hlow := i.le_toInt
  have hhigh := i.toInt_lt
  rw [← Int32.toInt_inj, Int32.toInt_ofBitVec, BitVec.toInt_setWidth, hk,
    Int.add_mul_bmod_self_right]
  exact Int.bmod_eq_of_le (by omega) (by omega)

theorem smiToInt_intToSmi (hlow : -2 ^ 30 ≤ i.toInt) (hhigh : i.toInt < 2 ^ 30) :
    smiToInt (intToSmi w i) = i := by
  apply ofBitVec_setWidth
  rw [BitVec.toInt_sshiftRight, toInt_intToSmi hlow hhigh, Int.shiftRight_eq_div_pow]
  omega

theorem hasSmiTag_iff (payload : Payload w) : hasSmiTag payload = true ↔ payload.toNat % 2 = 1 := by
  have hone : (1 : Payload w).toNat = (2 ^ 1 - 1) * 2 ^ 0 := by cases w <;> rfl
  rw [hasSmiTag, beq_iff_eq, ← BitVec.toNat_inj, BitVec.toNat_and, hone, Foundation.and_fieldMask]
  omega

theorem hasSmiTag_intToSmi (hlow : -2 ^ 30 ≤ i.toInt) (hhigh : i.toInt < 2 ^ 30) :
    hasSmiTag (intToSmi w i) = true := by
  have hint := toInt_intToSmi (w := w) hlow hhigh
  rw [BitVec.toInt_eq_toNat_cond] at hint
  rw [hasSmiTag_iff]
  split at hint
  · omega
  · have heven : ((2 ^ w.bits : Nat) : Int) % 2 = 0 := by cases w <;> decide
    omega

theorem toValue_smi {memory : CellMemory w} (h : SmiTagging.isValidSmi w (ofInt w i) = true) :
    toValue memory (intToSmi w i) = some (.int32 i) := by
  obtain ⟨hlow, hhigh⟩ := (isValidSmi_ofInt w i).mp h
  rw [toValue, if_pos (hasSmiTag_intToSmi hlow hhigh), smiToInt_intToSmi hlow hhigh]

variable {memory' : CellMemory w} {payload : Payload w}

theorem toValue_congr {memory : CellMemory w} (h : memory' payload = memory payload) :
    toValue memory' payload = toValue memory payload := by
  rw [toValue, toValue, h]

theorem holdsBox_congr {memory : CellMemory w} (h : memory' payload = memory payload) :
    holdsBox memory' payload = holdsBox memory payload := by
  rw [holdsBox, holdsBox, h]

variable {v : Value}

theorem Stores.congr {memory : CellMemory w} (hstores : Stores memory payload v)
    (h : memory' payload = memory payload) :
    Stores memory' payload v := by
  rw [Stores, toValue_congr h]
  exact hstores

variable {address : Payload w}

/-- A payload that can be read is not an address the collector may return. -/
theorem Stores.ne_of_allocatable {memory : CellMemory w} (hstores : Stores memory payload v)
    (hfree : Allocatable memory address) :
    payload ≠ address := by
  rintro rfl
  obtain ⟨u, hread, -⟩ := hstores
  obtain ⟨⟨htag, hlarge⟩, hnone⟩ := hfree
  rw [toValue, if_neg (by rw [htag]; decide), if_neg (BitVec.not_le.mpr hlarge), hnone] at hread
  cases hread

theorem toValue_cell {memory : CellMemory w} {cell : Cell} (haddress : IsCellAddress address)
    (hcell : memory address = some cell) :
    toValue memory address = cellValue w cell := by
  rw [toValue, if_neg (by rw [haddress.1]; decide), if_neg (BitVec.not_le.mpr haddress.2), hcell,
    Option.bind_some]

theorem toValue_number {memory : CellMemory w} (haddress : IsCellAddress address)
    (hcell : memory address = some (.number v)) :
    toValue memory address = some v := by
  rw [toValue_cell haddress hcell]
  cases w with
  | bits32 =>
    have hmask : ((Cell.number v).typeTag &&& notObjectTagInData.toUInt8 == 0) = false := by
      show (numberTagInData.toUInt8 &&& notObjectTagInData.toUInt8 == 0) = false
      decide
    simp only [cellValue, hmask, Bool.false_eq_true, if_false]
    rfl
  | bits64 => rfl

theorem Tagged.not_number {typeTag : UInt8} (h : v.Tagged typeTag) :
    Cell.isNumberEncodedValue (.pointerValue typeTag v) = false := by
  have hnumber : numberTagInData.toUInt8.toNat = 6 := rfl
  rw [Cell.isNumberEncodedValue, Cell.typeTag, beq_eq_false_iff_ne, ne_eq, ← UInt8.toNat_inj,
    hnumber]
  have hsymbol : symbolTagInData.toUInt8.toNat = 2 := rfl
  have hbigInt : bigIntTagInData.toUInt8.toNat = 4 := rfl
  cases v <;> simp only [Value.Tagged, ← UInt8.toNat_inj, hsymbol, hbigInt] at h <;> omega

theorem Tagged.object_iff {typeTag : UInt8} (h : v.Tagged typeTag) :
    (typeTag &&& notObjectTagInData.toUInt8 == 0) = true ↔ ∃ address, v = .object address := by
  have hmask : notObjectTagInData.toUInt8.toNat = (2 ^ 3 - 1) * 2 ^ 0 := rfl
  have hsymbol : symbolTagInData.toUInt8.toNat = 2 := rfl
  have hbigInt : bigIntTagInData.toUInt8.toNat = 4 := rfl
  rw [beq_iff_eq, ← UInt8.toNat_inj, UInt8.toNat_and, hmask, Foundation.and_fieldMask,
    UInt8.toNat_zero]
  cases v <;> simp only [Value.Tagged, ← UInt8.toNat_inj, hsymbol, hbigInt] at h <;>
    simp <;> omega

theorem toValue_pointer {memory : CellMemory w} {typeTag : UInt8}
    (haddress : IsCellAddress address) (htagged : v.Tagged typeTag)
    (hcell : memory address = some (.pointerValue typeTag v)) :
    toValue memory address = some v := by
  have hnumber := Tagged.not_number htagged
  rw [toValue_cell haddress hcell]
  cases w with
  | bits32 =>
    show (if (typeTag &&& notObjectTagInData.toUInt8 == 0) = true then _ else _) = _
    by_cases hobject : ∃ a, v = .object a
    · rw [if_pos ((Tagged.object_iff htagged).mpr hobject)]
      obtain ⟨a, rfl⟩ := hobject
      rfl
    · rw [if_neg (fun h => hobject ((Tagged.object_iff htagged).mp h)), hnumber,
        if_neg Bool.false_ne_true]
      cases v with
      | object a => exact absurd ⟨a, rfl⟩ hobject
      | _ => rfl
  | bits64 =>
    show (if Cell.isNumberEncodedValue _ = true then _ else _) = _
    rw [hnumber, if_neg Bool.false_ne_true]
    rfl

theorem holdsBox_pointer {memory : CellMemory w} {typeTag : UInt8} (htagged : v.Tagged typeTag)
    (hcell : memory address = some (.pointerValue typeTag v)) :
    holdsBox memory address = false := by
  rw [holdsBox, hcell, Option.any_some, Tagged.not_number htagged, Bool.and_false]

def isImmediate : Value → Bool
  | .empty | .undefined | .null | .boolean _ => true
  | _ => false

theorem toValue_immediate {memory : CellMemory w} {v : Value} (h : isImmediate v = true) :
    toValue memory (immediatePayload w v) = some v := by
  have hread : hasSmiTag (immediatePayload w v) = false ∧
      immediatePayload w v ≤ undefinedPayload w ∧
      immediateValue (immediatePayload w v) = some v := by
    cases w <;> cases v with
    | boolean b => cases b <;> decide
    | empty | undefined | null => decide
    | _ => cases h
  rw [toValue, if_neg (by rw [hread.1]; decide), if_pos hread.2.1, hread.2.2]

/-- What writing a value does: the word is self-contained and the memory stays, or
the number is put in a box at the address and nothing else changes. -/
def Outcome (memory : CellMemory w) (v : Value) (address : Payload w)
    (result : CellMemory w × Payload w) : Prop :=
  (result.1 = memory ∧ Stores memory result.2 v ∧ holdsBox memory result.2 = false) ∨
    ∃ u : Value, u.sameValue v ∧ result = (newNumber memory address u, address)

theorem Outcome.smi {memory : CellMemory w} (h : SmiTagging.isValidSmi w (ofInt w i) = true)
    (hsame : (Value.int32 i).sameValue v) :
    Outcome memory v address (memory, intToSmi w i) := by
  obtain ⟨hlow, hhigh⟩ := (isValidSmi_ofInt w i).mp h
  refine .inl ⟨rfl, ⟨_, toValue_smi h, hsame⟩, ?_⟩
  rw [holdsBox, hasSmiTag_intToSmi hlow hhigh]
  rfl

theorem Outcome.immediate {memory : CellMemory w} (h : isImmediate v = true) :
    Outcome memory v address (memory, immediatePayload w v) := by
  refine .inl ⟨rfl, ⟨v, toValue_immediate h, .refl v⟩, ?_⟩
  have hsmall : ¬ undefinedPayload w < immediatePayload w v := by
    cases w <;> cases v with
    | boolean b => cases b <;> decide
    | empty | undefined | null => decide
    | _ => cases h
  rw [holdsBox, decide_eq_false hsmall, Bool.and_false, Bool.false_and]

theorem Outcome.pointer {memory : CellMemory w} (hlive : Live memory v)
    (h : v.isPointerValue = true) :
    Outcome memory v address (memory, v.asPointerPayload w) := by
  obtain ⟨haddress, typeTag, htagged, hcell⟩ := hlive h
  exact .inl ⟨rfl, ⟨v, toValue_pointer haddress htagged hcell, .refl v⟩,
    holdsBox_pointer htagged hcell⟩

theorem Outcome.pointerAt {memory : CellMemory w} (hlive : Live memory v)
    (h : v.isPointerValueAt w = true) :
    Outcome memory v address (memory, v.asPointerPayload w) := by
  cases hpointer : v.isPointerValue with
  | true => exact .pointer hlive hpointer
  | false =>
    cases w with
    | bits32 => exact absurd (hpointer.symm.trans h) (by decide)
    | bits64 =>
      have hempty : v = .empty := by
        rw [Value.isPointerValueAt, hpointer, Bool.false_or, Value.isEmpty, beq_iff_eq] at h
        exact h
      subst hempty
      exact .immediate rfl

variable {d : Double}

theorem sameValue_of_convertible (hd : v.asNumber? = some d)
    (hi : isInt32ConvertibleDouble d = some i) : (Value.int32 i).sameValue v := by
  cases v with
  | int32 j =>
    have hij : i = j := Double.ofInt32_injective
      ((isInt32ConvertibleDouble_exact hi).trans (Option.some.inj hd).symm)
    rw [hij]
    exact .refl _
  | double e =>
    cases hd
    exact isInt32ConvertibleDouble_sound hi
  | _ => cases hd

variable {fresh : Payload w}

theorem fromValueForCtor_number_outcome {memory : CellMemory w} (hd : v.asNumber? = some d) :
    Outcome memory v fresh (fromValueForCtor.number memory fresh v d) := by
  unfold fromValueForCtor.number
  cases hconvertible : isInt32ConvertibleDouble d with
  | none => exact .inr ⟨v, .refl v, rfl⟩
  | some i =>
    dsimp only
    split
    case isTrue hsmi => exact .smi hsmi (sameValue_of_convertible hd hconvertible)
    case isFalse => exact .inr ⟨v, .refl v, rfl⟩

theorem fromValueForCtor_outcome {memory : CellMemory w} (hlive : Live memory v) :
    Outcome memory v fresh (fromValueForCtor memory fresh v) := by
  unfold fromValueForCtor
  split
  case isTrue hpointer => exact .pointerAt hlive hpointer
  case isFalse hpointer =>
    cases v with
    | int32 i =>
      dsimp only
      split
      case isTrue hsmi => exact .smi hsmi (.refl _)
      case isFalse => exact fromValueForCtor_number_outcome rfl
    | double d => exact fromValueForCtor_number_outcome rfl
    | empty | undefined | null | boolean => exact .immediate rfl
    | string | symbol | bigInt | object => exact absurd (by cases w <;> rfl) hpointer

/-- The box an assignment of a number writes to. -/
def boxAddress (memory : CellMemory w) (payload fresh : Payload w) : Payload w :=
  if holdsBox memory payload then payload else fresh

theorem assign_number_outcome {memory : CellMemory w} (hd : v.asNumber? = some d) :
    Outcome memory v (boxAddress memory payload fresh)
      (assign.number memory payload fresh v d) := by
  unfold assign.number boxAddress
  have hsame : (match isInt32ConvertibleDouble d with
      | some i => Value.int32 i
      | none => v).sameValue v := by
    cases hconvertible : isInt32ConvertibleDouble d with
    | none => exact .refl v
    | some i => exact sameValue_of_convertible hd hconvertible
  refine .inr ⟨_, hsame, ?_⟩
  dsimp only
  split <;> rfl

theorem assign_outcome {memory : CellMemory w} (hlive : Live memory v) :
    Outcome memory v (boxAddress memory payload fresh)
      (assign memory payload fresh v) := by
  unfold assign
  split
  case isTrue hpointer => exact .pointerAt hlive hpointer
  case isFalse hpointer =>
    cases v with
    | int32 i =>
      dsimp only
      split
      case isTrue hsmi => exact .smi hsmi (.refl _)
      case isFalse => exact assign_number_outcome rfl
    | double d => exact assign_number_outcome rfl
    | empty | undefined | null | boolean => exact .immediate rfl
    | string | symbol | bigInt | object => exact absurd (by cases w <;> rfl) hpointer

theorem Outcome.stores {memory : CellMemory w} {result : CellMemory w × Payload w}
    (h : Outcome memory v address result) (haddress : IsCellAddress address) :
    Stores result.1 result.2 v := by
  obtain ⟨hmemory, hstores, -⟩ | ⟨u, hsame, rfl⟩ := h
  · rw [hmemory]
    exact hstores
  · exact ⟨u, toValue_number haddress (update_self ..), hsame⟩

theorem Outcome.frame {memory : CellMemory w} {result : CellMemory w × Payload w}
    (h : Outcome memory v address result) {other : Payload w} (hne : other ≠ address) :
    result.1 other = memory other := by
  obtain ⟨hmemory, -, -⟩ | ⟨u, -, rfl⟩ := h
  · rw [hmemory]
  · exact update_of_ne hne ..

/-- The conversion `(double)n` of a `uint32_t`, which is exact. -/
def doubleOfUInt32 (n : UInt32) : Double :=
  if n = 0 then 0 else .ofNat (Double.magnitudeOfNat n.toNat)

theorem isValidSmi_ofUInt32 (w : PointerWidth) (n : UInt32) :
    SmiTagging.isValidSmi w (SmiTagging.ofUInt32 w n) = true ↔
      n.toNat < 2 ^ 30 ∨ ¬ FitsSmiTest w n := by
  have hlt := n.toNat_lt
  have hword : (SmiTagging.ofUInt32 w n).toNat = n.toNat := by
    rw [SmiTagging.ofUInt32, BitVec.toNat_setWidth]
    show n.toNat % 2 ^ w.bits = n.toNat
    cases w <;> simp only [PointerWidth.bits] <;> omega
  rw [isValidSmi_iff, hword]
  cases w with
  | bits32 =>
    simp only [PointerWidth.bits, FitsSmiTest, reduceCtorEq, false_or]
    omega
  | bits64 =>
    simp only [PointerWidth.bits, FitsSmiTest, true_or, not_true_eq_false, or_false]
    omega

variable (n : UInt32)

theorem toInt_toInt32 :
    n.toInt32.toInt = if n.toNat < 2 ^ 31 then (n.toNat : Int) else n.toNat - 2 ^ 32 := by
  show (if 2 * n.toNat < 2 ^ 32 then (n.toNat : Int) else n.toNat - (2 ^ 32 : Nat)) = _
  omega

theorem toInt32_lt_zero : n.toInt32 < 0 ↔ 2 ^ 31 ≤ n.toNat := by
  have hlt := n.toNat_lt
  rw [Int32.lt_iff_toInt_lt, toInt_toInt32]
  show _ < 0 ↔ _
  split <;> omega

theorem asNumber_ofUnsigned : (Value.ofUnsigned n).asNumber? = some (doubleOfUInt32 n) := by
  unfold Value.ofUnsigned doubleOfUInt32
  by_cases hneg : n.toInt32 < 0
  · have hne : n ≠ 0 := by
      rintro rfl
      exact absurd hneg (by decide)
    rw [if_pos hneg, if_neg hne, Value.asNumber?]
  · have hsmall : n.toNat < 2 ^ 31 := by
      rw [toInt32_lt_zero] at hneg
      omega
    have hint : n.toInt32.toInt = n.toNat := by rw [toInt_toInt32, if_pos hsmall]
    rw [if_neg hneg, Value.asNumber?, Double.ofInt32]
    by_cases hzero : n = 0
    · subst hzero
      rfl
    · have hzero' : n.toInt32 ≠ 0 := by
        intro h
        apply hzero
        rw [h] at hint
        rw [← UInt32.toNat_inj, UInt32.toNat_zero]
        exact (Int.ofNat_inj.mp hint).symm
      rw [if_neg hzero', if_neg (by omega), if_neg hzero, hint]
      rfl

theorem isPointerValue_ofUnsigned : (Value.ofUnsigned n).isPointerValue = false := by
  unfold Value.ofUnsigned
  split <;> rfl

theorem ofUInt32_outcome {memory : CellMemory w} {n : UInt32} (hfits : FitsSmiTest w n) :
    Outcome memory (.ofUnsigned n) fresh (ofUInt32 memory fresh n) := by
  unfold ofUInt32
  split
  case isTrue hsmi =>
    have hsmall : n.toNat < 2 ^ 30 := by
      obtain h | h := (isValidSmi_ofUInt32 w n).mp hsmi
      · exact h
      · exact absurd hfits h
    have hvalue : Value.ofUnsigned n = .int32 n.toInt32 := by
      rw [Value.ofUnsigned, if_neg]
      rw [toInt32_lt_zero]
      omega
    rw [hvalue]
    apply Outcome.smi _ (.refl _)
    rw [isValidSmi_ofInt, toInt_toInt32]
    omega
  case isFalse =>
    apply fromValueForCtor_outcome
    intro hpointer
    exact absurd ((isPointerValue_ofUnsigned n).symm.trans hpointer) (by decide)

theorem sameValue_asNumber {u : Value} (h : u.sameValue v) (hv : v.asNumber? = some d)
    (hd : d.isnan = false) : u.asNumber? = some d := by
  obtain ⟨hidentity, hsign⟩ := h
  have hvIdentity : v.identity = .number (Value.numberIdentity d) := by
    cases v with
    | int32 i | double e =>
      cases hv
      rfl
    | _ => cases hv
  obtain ⟨e, he, heIdentity⟩ : ∃ e, u.asNumber? = some e ∧
      Value.numberIdentity e = Value.numberIdentity d := by
    rw [hvIdentity] at hidentity
    cases u with
    | int32 i => exact ⟨_, rfl, Value.Identity.number.inj hidentity⟩
    | double e => exact ⟨e, rfl, Value.Identity.number.inj hidentity⟩
    | _ => cases hidentity
  rw [he]
  rw [Value.numberIdentity, Value.numberIdentity, hd] at heIdentity
  cases hnan : e.isnan <;> cases hzero : d.isZero <;> cases hzero' : e.isZero <;>
    simp only [hnan, hzero, hzero', Bool.false_eq_true, if_true, if_false, reduceCtorEq,
      Option.some.injEq] at heIdentity
  · rw [heIdentity]
  · rw [← heIdentity] at hzero
    cases hzero
  · rw [heIdentity] at hzero'
    cases hzero'
  · rw [Double.eq_of_isZero hzero' hzero (hsign e d he hv hzero')]

theorem toNat_doubleOfUInt32_lt : (doubleOfUInt32 n).toNat < 1056 * 2 ^ 52 := by
  unfold doubleOfUInt32
  split
  case isTrue => decide
  case isFalse hne =>
    have hne' : n.toNat ≠ 0 := fun h => hne (UInt32.toNat_inj.mp h)
    have hbound := (Double.magnitudeOfNat_bounds hne' n.toNat_lt).2
    rw [UInt64.toNat_ofNat']
    omega

theorem isnan_doubleOfUInt32 : (doubleOfUInt32 n).isnan = false := by
  have hlt := toNat_doubleOfUInt32_lt n
  rw [Double.isnan, decide_eq_false_iff_not, UInt64.lt_iff_toNat_lt, Double.toNat_magnitude]
  simp only [UInt64.reduceToNat]
  omega

theorem signbit_doubleOfUInt32 : (doubleOfUInt32 n).signbit = false := by
  have hlt := toNat_doubleOfUInt32_lt n
  rw [Bool.eq_false_iff, ne_eq, Double.signbit_iff]
  omega

theorem signbit_ofInt32 (hneg : i.toInt < 0) : (Double.ofInt32 i).signbit = true := by
  have hne : i ≠ 0 := by
    rintro rfl
    exact absurd hneg (by decide)
  rw [Double.signbit_iff, Double.toNat_ofInt32 hne, if_pos hneg]
  omega

/-- The constructor from `uint32_t` gives the number exactly when the range test
sees it as it is. -/
theorem ofUInt32_decodes_iff {memory : CellMemory w} {n : UInt32}
    (hfresh : Allocatable memory fresh) :
    (∃ u, toValue (ofUInt32 memory fresh n).1 (ofUInt32 memory fresh n).2 = some u ∧
      u.asNumber? = some (doubleOfUInt32 n)) ↔ FitsSmiTest w n := by
  constructor
  · rintro ⟨u, hread, hnumber⟩
    by_contra hfits
    -- The word is the tagged negative integer with the same 32 bits.
    have hsmi := (isValidSmi_ofUInt32 w n).mpr (.inr hfits)
    have hneg : n.toInt32.toInt < 0 ∧ -2 ^ 30 ≤ n.toInt32.toInt := by
      have hlt := n.toNat_lt
      simp only [FitsSmiTest, not_or, Nat.not_lt] at hfits
      rw [toInt_toInt32]
      omega
    rw [ofUInt32, if_pos hsmi, toValue_smi ((isValidSmi_ofInt w _).mpr ⟨hneg.2, by omega⟩)] at hread
    cases hread
    have hsign := signbit_ofInt32 hneg.1
    rw [Option.some.inj hnumber, signbit_doubleOfUInt32] at hsign
    cases hsign
  · intro hfits
    obtain ⟨u, hread, hsame⟩ := (ofUInt32_outcome hfits).stores hfresh.1
    exact ⟨u, hread, sameValue_asNumber hsame (asNumber_ofUnsigned n) (isnan_doubleOfUInt32 n)⟩

section Slots

variable {values : ι → Value} {s : Slots ι w}

/-- Writing to one slot keeps all slots faithful, if the word reads as the value,
the others read as before, and a box that was written to is not theirs. -/
theorem Faithful.store (hinv : Faithful values s) {i : ι} {v : Value}
    {result : CellMemory w × Payload w} (hstores : Stores result.1 result.2 v)
    (hother : ∀ j, j ≠ i → result.1 (s.payload j) = s.memory (s.payload j))
    (hseparate : holdsBox result.1 result.2 = true → ∀ j, j ≠ i → result.2 ≠ s.payload j) :
    Faithful (Function.update values i v) (s.store i result) := by
  constructor
  · intro j
    by_cases hj : j = i
    · subst hj
      simp only [Slots.store, update_self]
      exact hstores
    · simp only [Slots.store, update_of_ne hj]
      exact (hinv.reads j).congr (hother j hj)
  · intro j k hbox heq
    simp only [Slots.store] at hbox heq
    by_cases hj : j = i <;> by_cases hk : k = i
    · rw [hj, hk]
    · subst hj
      rw [update_self] at hbox heq
      rw [update_of_ne hk] at heq
      exact absurd heq (hseparate hbox k hk)
    · subst hk
      rw [update_self, update_of_ne hj] at heq
      rw [update_of_ne hj, heq] at hbox
      exact absurd heq.symm (hseparate hbox j hj)
    · rw [update_of_ne hj] at hbox heq
      rw [update_of_ne hk] at heq
      rw [holdsBox_congr (hother j hj)] at hbox
      exact hinv.separate j k hbox heq

theorem Faithful.write (hinv : Faithful values s) {i : ι} {v : Value} {address : Payload w}
    {result : CellMemory w × Payload w} (houtcome : Outcome s.memory v address result)
    (haddress : IsCellAddress address) (htarget : ∀ j, j ≠ i → s.payload j ≠ address) :
    Faithful (Function.update values i v) (s.store i result) := by
  apply hinv.store (houtcome.stores haddress) (fun j hj => houtcome.frame (htarget j hj))
  intro hbox j hj
  obtain ⟨hmemory, -, hnobox⟩ | ⟨u, -, rfl⟩ := houtcome
  · rw [hmemory, hnobox] at hbox
    cases hbox
  · exact (htarget j hj).symm

omit [DecidableEq ι] in
theorem Faithful.memory (hinv : Faithful values s) {memory : CellMemory w}
    (h : ∀ i, memory (s.payload i) = s.memory (s.payload i)) :
    Faithful values { s with memory := memory } where
  reads i := (hinv.reads i).congr (h i)
  separate i j hbox heq := hinv.separate i j (by rwa [← holdsBox_congr (h i)]) heq

omit [DecidableEq ι] in
theorem Faithful.ne_of_allocatable (hinv : Faithful values s) {address : Payload w}
    (hfree : Allocatable s.memory address) (i : ι) : s.payload i ≠ address :=
  (hinv.reads i).ne_of_allocatable hfree

theorem isCellAddress_of_holdsBox {memory : CellMemory w} {payload : Payload w}
    (h : holdsBox memory payload = true) : IsCellAddress payload := by
  rw [holdsBox, Bool.and_eq_true, Bool.and_eq_true, Bool.not_eq_true', decide_eq_true_eq] at h
  exact h.1

theorem Faithful.step {next : Slots ι w} {op : SlotOp ι w} {out : Unit}
    (hinv : Faithful values s) (hallowed : Allowed s op)
    (hstep : EncodedSlot.step s op = some (next, out)) :
    Faithful (lastAssigned values op) next := by
  cases op with
  | construct i v fresh =>
    cases hstep
    exact hinv.write (fromValueForCtor_outcome hallowed.1) hallowed.2.1
      fun j _ => hinv.ne_of_allocatable hallowed.2 j
  | constructUInt32 i n fresh =>
    cases hstep
    exact hinv.write (ofUInt32_outcome hallowed.1) hallowed.2.1
      fun j _ => hinv.ne_of_allocatable hallowed.2 j
  | assign i v fresh =>
    cases hstep
    apply hinv.write (assign_outcome hallowed.1)
    · unfold boxAddress
      split
      case isTrue hbox => exact isCellAddress_of_holdsBox hbox
      case isFalse => exact hallowed.2.1
    · intro j hj
      unfold boxAddress
      split
      case isTrue hbox => exact fun heq => hj (hinv.separate i j hbox heq.symm).symm
      case isFalse => exact hinv.ne_of_allocatable hallowed.2 j
  | assignPointer i v =>
    cases hstep
    obtain ⟨haddress, typeTag, htagged, hcell⟩ := hallowed.2 hallowed.1
    apply hinv.store ⟨v, toValue_pointer haddress htagged hcell, .refl v⟩ (fun _ _ => rfl)
    intro hbox
    exact absurd ((holdsBox_pointer htagged hcell).symm.trans hbox) (by decide)
  | copy i j =>
    cases hstep
    apply hinv.store (hinv.reads j) (fun _ _ => rfl)
    intro hbox k hk heq
    obtain rfl | hnobox := hallowed
    · exact hk (hinv.separate i k hbox heq).symm
    · exact absurd (hnobox.symm.trans hbox) (by decide)
  | newCell typeTag v =>
    cases hstep
    exact hinv.memory fun i => update_of_ne (hinv.ne_of_allocatable hallowed.2 i) ..
  | collect address =>
    cases hstep
    exact hinv.memory fun i => update_of_ne (hallowed i) ..

end Slots

/-- Slots that were default constructed. -/
def initial (ι : Type*) (memory : CellMemory w) : Slots ι w :=
  { memory := memory, payload := fun _ => undefinedPayload w }

omit [DecidableEq ι] in
theorem faithful_initial (memory : CellMemory w) :
    Faithful (fun _ : ι => .undefined) (initial ι memory) where
  reads _ := by
    have hread := @toValue_immediate w memory .undefined rfl
    have hpayload : immediatePayload w .undefined = undefinedPayload w := by cases w <;> rfl
    rw [hpayload] at hread
    exact ⟨_, hread, .refl _⟩
  separate _ _ hbox _ := by
    rw [initial, holdsBox, decide_eq_false (BitVec.lt_irrefl _), Bool.and_false,
      Bool.false_and] at hbox
    cases hbox

theorem simulation : Foundation.GuardedSimulation (step (ι := ι) (w := w))
      (fun values op => (lastAssigned values op, ())) Allowed
      (fun s values => Faithful values s) (fun _ _ => True) where
  step_related {s values op} hinv hallowed := by
    obtain ⟨next, out, hstep⟩ : ∃ next out, step s op = some (next, out) := by
      cases op <;> exact ⟨_, _, rfl⟩
    exact ⟨next, out, hstep, trivial, hinv.step hallowed hstep⟩

/-- **`EncodedValue` is a faithful store, but for one constructor.** At both widths a
value that is encoded reads back as itself; the constructor from `uint32_t` gives its
number exactly when the range test sees it as it is; and along every run of allowed
operations each slot reads as the value last assigned to it, whatever the number of
slots and whatever happens to the others. -/
theorem encodedValue_faithful (w : PointerWidth) :
    (∀ (memory : CellMemory w) (fresh : Payload w) (v : Value), Live memory v →
      Allocatable memory fresh →
      Stores (fromValueForCtor memory fresh v).1 (fromValueForCtor memory fresh v).2 v) ∧
    (∀ (memory : CellMemory w) (fresh : Payload w) (n : UInt32), Allocatable memory fresh →
      ((∃ u, toValue (ofUInt32 memory fresh n).1 (ofUInt32 memory fresh n).2 = some u ∧
        u.asNumber? = some (doubleOfUInt32 n)) ↔ w = .bits64 ∨ n.toNat < 0xC0000000)) ∧
    ∀ (ι : Type) [DecidableEq ι] (memory : CellMemory w) (ops : List (SlotOp ι w)),
      Foundation.Guarded step Allowed ops (initial ι memory) →
      ∃ last outs, Foundation.run step ops (initial ι memory) = some (last, outs) ∧
        ∀ i, Stores last.memory (last.payload i)
          (ops.foldl lastAssigned (fun _ => .undefined) i) := by
  refine ⟨fun memory fresh v hlive hfresh => ?_, fun memory fresh n hfresh => ?_,
    fun ι _ memory ops hguarded => ?_⟩
  · exact (fromValueForCtor_outcome hlive).stores hfresh.1
  · exact ofUInt32_decodes_iff hfresh
  · obtain ⟨last, outs, hrun, -, hfaithful⟩ :=
      simulation.run_related ops (faithful_initial memory) hguarded
    rw [Foundation.referenceRun_fst] at hfaithful
    exact ⟨last, outs, hrun, hfaithful.reads⟩

/-- On a 32-bit target the largest `uint32_t` is encoded as minus one. -/
theorem ofUInt32_max_decodes_to_minus_one :
    toValue (ofUInt32 (w := .bits32) (fun _ => none) 16 0xFFFFFFFF).1
        (ofUInt32 (w := .bits32) (fun _ => none) 16 0xFFFFFFFF).2 = some (.int32 (-1)) ∧
      ¬ ∃ u, toValue (ofUInt32 (w := .bits32) (fun _ => none) 16 0xFFFFFFFF).1
        (ofUInt32 (w := .bits32) (fun _ => none) 16 0xFFFFFFFF).2 = some u ∧
          u.asNumber? = some (doubleOfUInt32 0xFFFFFFFF) := by
  have hread : toValue (ofUInt32 (w := .bits32) (fun _ => none) 16 0xFFFFFFFF).1
      (ofUInt32 (w := .bits32) (fun _ => none) 16 0xFFFFFFFF).2 = some (.int32 (-1)) := by
    decide
  refine ⟨hread, ?_⟩
  rintro ⟨u, hu, hnumber⟩
  cases hu
  exact absurd hnumber (by decide)

/-- Two slots with boxes of their own, one of them overwritten in place. -/
theorem encodedValue_faithful_two_slots : ∃ last outs, Foundation.run step
        [.assign false (.double 0x3FF8000000000000) 16, .assign true (.double 0x4004000000000000) 32,
          .assign false (.double 0x400C000000000000) 48]
        (initial Bool (w := .bits64) fun _ => none) = some (last, outs) ∧
      ∀ i, Stores last.memory (last.payload i)
        ([SlotOp.assign false (.double 0x3FF8000000000000) 16,
          .assign true (.double 0x4004000000000000) 32,
          .assign false (.double 0x400C000000000000) 48].foldl (lastAssigned (w := .bits64))
            (fun _ => .undefined) i) := by
  apply (encodedValue_faithful .bits64).2.2
  have hlive : ∀ (memory : CellMemory .bits64) (d : Double), Live memory (.double d) :=
    fun _ _ h => (by cases h)
  refine ⟨⟨hlive _ _, ⟨by decide, by decide⟩, rfl⟩, fun _ _ hstep => ?_⟩
  cases hstep
  refine ⟨⟨hlive _ _, ⟨by decide, by decide⟩, by decide⟩, fun _ _ hstep => ?_⟩
  cases hstep
  exact ⟨⟨hlive _ _, ⟨by decide, by decide⟩, by decide⟩, fun _ _ _ => trivial⟩

end EncodedSlot

end Escargot.Runtime
