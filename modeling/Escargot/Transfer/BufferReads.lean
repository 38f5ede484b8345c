/-
# Reads from a code cache

`CodeCacheReader::CacheBuffer` compares the end of a read with the capacity before it
copies, and computes this end in `size_t`. The number of elements comes from the data. A
read is exact when it throws or takes all the bytes that this number of elements needs.
-/

import Escargot.CodeCache.CodeBlock

namespace Escargot.CodeCache

open Foundation

/-- How a read fails: by `CodeCacheReader::Error`, or by a copy of what is not in the buffer. -/
inductive ReadFailure
  | error (message : String)
  | outside

/-- `CodeCacheReader::CacheBuffer`, with all the data loaded, on a machine whose `size_t` has so
many bits. -/
structure CacheBuffer (bits : Nat) where
  buffer : List UInt8
  index : Nat
  index_le : index ≤ buffer.length
  capacity_lt : buffer.length < 2 ^ bits

abbrev BufferReader (bits : Nat) (α : Type) := StateT (CacheBuffer bits) (Except ReadFailure) α

namespace CacheBuffer

variable {bits : Nat}

def capacity (b : CacheBuffer bits) : Nat := b.buffer.length

/-- The buffer behind some bytes. -/
def advance (b : CacheBuffer bits) (size : Nat) (h : b.index + size ≤ b.capacity) :
    CacheBuffer bits where
  buffer := b.buffer
  index := b.index + size
  index_le := h
  capacity_lt := b.capacity_lt

/-- `memcpy` from the buffer, and the index after it. -/
def copy (size : Nat) : BufferReader bits (List UInt8) := fun b =>
  if h : b.index + size ≤ b.capacity then
    .ok ((b.buffer.drop b.index).take size, b.advance size h)
  else .error .outside

/-- The comparison that every read starts with. -/
def checkRange (size : Nat) (read : BufferReader bits (List UInt8)) :
    BufferReader bits (List UInt8) := fun b =>
  if b.capacity < (b.index + size) % 2 ^ bits then .error (.error "out of range") else read b

/-- `CacheBuffer::get`, for a type of a size, up to the bytes of the value. -/
def get (sizeofType : Nat) : BufferReader bits (List UInt8) :=
  checkRange sizeofType (copy sizeofType)

/-- `CacheBuffer::getData`, for elements of a size. -/
def getData (sizeofType size : Nat) : BufferReader bits (List UInt8) :=
  let dataSize := size * sizeofType % 2 ^ bits
  checkRange dataSize (if size = 0 then pure [] else copy dataSize)

/-- `get<size_t>`, and `get<limb_t>`. -/
def getSize : BufferReader bits Nat := do
  let bytes ← get (bits / 8)
  return ofLittleEndian bytes

/-- `CacheBuffer::getString`: whether it has 8-bit content, and its characters. -/
def getString : BufferReader bits (Bool × List UInt8) := do
  let is8Bit ← get 1
  let length ← getSize
  if stringMaximumLength < length then throw (.error "out of range")
  let characters ← getData (if ofLittleEndian is8Bit ≠ 0 then 1 else 2) length
  return (ofLittleEndian is8Bit ≠ 0, characters)

/-- What `getBF` fills of a `bf_t`: a number of limbs is taken as it comes. -/
structure LoadedBF where
  sign : List UInt8
  expn : List UInt8
  len : Nat
  tab : List UInt8

/-- `CacheBuffer::getBF`. The result of `bf_resize` is not looked at. -/
def getBF : BufferReader bits LoadedBF := do
  let sign ← get 4
  let expn ← get (bits / 8)
  let len ← getSize
  let tab ← getData (bits / 8) len
  return ⟨sign, expn, len, tab⟩

/-- What a read owes: an error, or the bytes it is asked for, and the index moves by them. -/
def Exact (b : CacheBuffer bits) (required : Nat)
    (result : Except ReadFailure (List UInt8 × CacheBuffer bits)) : Prop :=
  (∃ message, result = .error (.error message)) ∨ ∃ h : b.index + required ≤ b.capacity,
      result = .ok ((b.buffer.drop b.index).take required, b.advance required h)

/-- The end of a read is below the limit of `size_t`, or is found to be out of range nevertheless. -/
def EndsInRange (b : CacheBuffer bits) (required : Nat) : Prop :=
  b.index + required < 2 ^ bits ∨ b.capacity < (b.index + required) % 2 ^ bits

theorem copy_of_le {b : CacheBuffer bits} {size : Nat} (h : b.index + size ≤ b.capacity) :
    copy size b = .ok ((b.buffer.drop b.index).take size, b.advance size h) := dif_pos h

theorem copy_ne_error (b : CacheBuffer bits) (size : Nat) (message : String) :
    copy size b ≠ .error (.error message) := by
  rw [copy]
  intro h
  split at h
  · cases h
  · cases h

variable {b : CacheBuffer bits}

theorem checkRange_exact_iff {size required : Nat} {read : BufferReader bits (List UInt8)}
    (hend : (b.index + size) % 2 ^ bits = (b.index + required) % 2 ^ bits)
    (hread : ∀ h : b.index + required ≤ b.capacity,
      read b = .ok ((b.buffer.drop b.index).take required, b.advance required h))
    (hthrow : ∀ message, read b ≠ .error (.error message)) :
    b.Exact required (checkRange size read b) ↔ b.EndsInRange required := by
  rw [checkRange, hend]
  constructor
  · rintro (⟨message, herror⟩ | ⟨hroom, -⟩)
    · split_ifs at herror with hrange
      · exact Or.inr hrange
      · exact absurd herror (hthrow message)
    · exact Or.inl (hroom.trans_lt b.capacity_lt)
  · rintro (hlt | hrange)
    · rw [Nat.mod_eq_of_lt hlt]
      split_ifs with hrange
      · exact Or.inl ⟨_, rfl⟩
      · exact Or.inr ⟨not_lt.mp hrange, hread _⟩
    · rw [if_pos hrange]
      exact Or.inl ⟨_, rfl⟩

theorem get_exact_iff (b : CacheBuffer bits) (sizeofType : Nat) :
    b.Exact sizeofType (get sizeofType b) ↔ b.EndsInRange sizeofType :=
  checkRange_exact_iff rfl copy_of_le (copy_ne_error b sizeofType)

theorem mod_eq_of_le_capacity {required : Nat} (h : b.index + required ≤ b.capacity) :
    required % 2 ^ bits = required := by
  have hlt : b.capacity < 2 ^ bits := b.capacity_lt
  apply Nat.mod_eq_of_lt
  omega

theorem getData_exact_iff (b : CacheBuffer bits) (sizeofType size : Nat) :
    b.Exact (size * sizeofType) (getData sizeofType size b) ↔
      b.EndsInRange (size * sizeofType) := by
  refine checkRange_exact_iff (Nat.add_mod_mod ..) (fun hroom => ?_) fun message => ?_
  · split_ifs with hzero
    · subst hzero
      simp only [Nat.zero_mul, List.take_zero]
      rfl
    · simp only [mod_eq_of_le_capacity hroom]
      exact copy_of_le hroom
  · split_ifs with hzero
    · intro h
      cases h
    · exact copy_ne_error b _ message

/-- Reads are exact just when the end of what they are asked for does not wrap around to a place in
the buffer. -/
theorem reads_exact_iff (b : CacheBuffer bits) (sizeofType size : Nat) :
    (b.Exact sizeofType (get sizeofType b) ↔ b.EndsInRange sizeofType) ∧
      (b.Exact (size * sizeofType) (getData sizeofType size b) ↔
        b.EndsInRange (size * sizeofType)) :=
  ⟨get_exact_iff b sizeofType, getData_exact_iff b sizeofType size⟩

theorem length_bigIntBytes :
    (littleEndian 4 0 ++ littleEndian 8 0 ++ littleEndian 8 (2 ^ 61)).length < 2 ^ 64 := by
  decide

/-- The data of a BigInt with as many limbs as have a size that is cut to nothing. -/
def bigIntBytes : CacheBuffer 64 where
  buffer := littleEndian 4 0 ++ littleEndian 8 0 ++ littleEndian 8 (2 ^ 61)
  index := 0
  index_le := Nat.zero_le _
  capacity_lt := length_bigIntBytes

theorem bigIntBytes_header : bigIntBytes.index + 20 ≤ bigIntBytes.capacity := by decide

/-- The number is loaded with none of its limbs. -/
example : (getBF bigIntBytes).toOption.map (fun result => (result.1.len, result.1.tab)) =
    some (2 ^ 61, []) := by decide

/-- The limbs of the number are read without an error, and not one of them is. -/
theorem limbs_not_exact : ¬∀ (b : CacheBuffer 64) (sizeofType size : Nat),
    b.Exact (size * sizeofType) (getData sizeofType size b) := by
  intro hexact
  rcases (getData_exact_iff (bigIntBytes.advance 20 bigIntBytes_header) 8 (2 ^ 61)).mp
    (hexact _ 8 (2 ^ 61)) with hlt | hrange
  · exact absurd hlt (by decide)
  · exact absurd hrange (by decide)

end CacheBuffer

end Escargot.CodeCache
