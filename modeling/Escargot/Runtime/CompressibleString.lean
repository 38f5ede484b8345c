/-
# Compressible strings

A `CompressibleString` keeps its code units in a buffer that may be given up for
LZ4 data, one block for each chunk of 64 KiB. An access brings the whole buffer or
the chunks of a range back and holds a reference to it; as long as a reference is
held the string is not compressed. The VM counts the bytes of all buffers.

A compression that fails after some chunks leaves their data behind, and the next
compression appends to it. The results below are about the runs without such a
failure.
-/

import Escargot.Foundation.Run
import Escargot.Foundation.Tombstones
import Escargot.Runtime.String

namespace Escargot.Runtime

open List Option Escargot.Foundation

/-- The block codec. `decompress` gets the room in the destination and returns what it
wrote there; it returns zero, after which the program stops, for `none`. -/
structure LZ4 where
  compress : List UInt8 → List UInt8
  decompress : List UInt8 → Nat → Option (List UInt8)

/-- Decompression inverts compression when there is just enough room. -/
def LZ4.Inverts (lz4 : LZ4) : Prop :=
  ∀ block, block ≠ [] → lz4.decompress (lz4.compress block) block.length = some block

/-- Bytes in memory; those never written are indeterminate. -/
abbrev ByteBuffer := List (Option UInt8)

namespace ByteBuffer

/-- `malloc`. -/
def allocate (byteLength : Nat) : ByteBuffer := List.replicate byteLength none

/-- Write a block; `none` when it does not lie inside the buffer. -/
def write (buffer : ByteBuffer) (index : Nat) (block : List UInt8) : Option ByteBuffer :=
  if index + block.length ≤ buffer.length then
    some (buffer.take index ++ block.map some ++ buffer.drop (index + block.length))
  else none

/-- The bytes of a range, if all of them are determinate. -/
def read (buffer : ByteBuffer) (start length : Nat) : Option (List UInt8) :=
  ((buffer.drop start).take length).mapM id

end ByteBuffer

namespace StringBufferAccessData

/-- The memory of the units, low byte first. -/
def bytes : StringBufferAccessData → List UInt8
  | bufferAs8Bit buffer => buffer
  | bufferAs16Bit buffer =>
    buffer.flatMap fun unit : UInt16 =>
      [UInt8.ofNat (unit.toNat % 256), UInt8.ofNat (unit.toNat / 256)]

end StringBufferAccessData

/-- Bytes read as `LChar` or as `char16_t`. -/
def unitsOfBytes : Bool → List UInt8 → List UInt16
  | true, bytes => bytes.map UInt8.toUInt16
  | false, low :: high :: bytes =>
    UInt16.ofNat (low.toNat + 256 * high.toNat) :: unitsOfBytes false bytes
  | false, _ => []

/-- `g_compressChunkSize`. -/
def compressChunkSize : Nat := 65536

structure CompressibleString where
  has8BitContent : Bool
  length : Nat
  buffer : Option ByteBuffer
  isCompressed : Bool
  isPartiallyDecompressed : Bool
  refCount : Nat
  compressedData : List (List UInt8)
  isChunkDecompressed : List Bool

namespace CompressibleString

variable (lz4 : LZ4) (succeeds : Nat → Bool) (string : CompressibleString) (counter : Int)

/-- `sizeof(StringType)`. -/
def unitSize : Nat := if string.has8BitContent then 1 else 2

/-- `originByteLength`. -/
def byteLength : Nat := string.length * string.unitSize

def decomressedBufferSize : Nat := if string.isCompressed then 0 else string.byteLength

/-- The constructors and `initBufferAccessData`. -/
def create (data : StringBufferAccessData) : CompressibleString where
  has8BitContent := data.has8BitContent
  length := data.length
  buffer := some (data.bytes.map some)
  isCompressed := false
  isPartiallyDecompressed := false
  refCount := 0
  compressedData := []
  isChunkDecompressed := []

/-- The loop of `compressWorker` from chunk `i` on. `succeeds` says on which chunks
`LZ4_compress_default` does not return zero. The data gathered so far is kept when it does. -/
def compressLoop (lz4 : LZ4) (succeeds : Nat → Bool) (buffer : ByteBuffer) (byteLength : Nat) :
    Nat → Nat → List (List UInt8) → Bool × List (List UInt8)
  | 0, _, compressedData => (true, compressedData)
  | fuel + 1, i, compressedData =>
    if i * compressChunkSize < byteLength then
      if succeeds i then
        let block := (buffer.drop (i * compressChunkSize)).take compressChunkSize
        compressLoop lz4 succeeds buffer byteLength fuel (i + 1)
          (compressedData ++ [lz4.compress (block.map fun byte => byte.getD 0)])
      else (false, compressedData)
    else (true, compressedData)

/-- The number of chunks of a buffer. -/
def chunkCount (byteLength : Nat) : Nat :=
  (byteLength + (compressChunkSize - 1)) / compressChunkSize

/-- `compressWorker`, with the counter of the VM. A partially decompressed string still has
its data. -/
def compressWorker : CompressibleString × Int × Bool :=
  if string.isPartiallyDecompressed then
    ({ string with
        buffer := none
        isChunkDecompressed := []
        isPartiallyDecompressed := false
        isCompressed := true }, counter - string.decomressedBufferSize, true)
  else
    let (done, compressedData) := compressLoop lz4 succeeds (string.buffer.getD [])
      string.byteLength (chunkCount string.byteLength) 0 string.compressedData
    if done then
      ({ string with compressedData := compressedData, buffer := none, isCompressed := true },
        counter - string.decomressedBufferSize, true)
    else ({ string with compressedData := compressedData }, counter, false)

def compress : CompressibleString × Int × Bool :=
  if string.length = 0 ∨ 0 < string.refCount then (string, counter, false)
  else string.compressWorker lz4 succeeds counter

/-- The room for a chunk, `min(g_compressChunkSize, originByteLength - srcIndex)`. The
subtraction wraps around for a chunk behind the end. -/
def srcSize (byteLength srcIndex : Nat) : Nat :=
  if srcIndex ≤ byteLength then min compressChunkSize (byteLength - srcIndex)
  else compressChunkSize

/-- The body of the decompression loops. -/
def decompressChunk (byteLength : Nat) (compressedData : List (List UInt8))
    (memory : ByteBuffer × List Bool) (chunkIndex : Nat) : Option (ByteBuffer × List Bool) :=
  let (dstBuffer, isChunkDecompressed) := memory
  if isChunkDecompressed[chunkIndex]? = some true then some memory
  else
    match compressedData[chunkIndex]? with
    | none => none
    | some data =>
      let srcIndex := chunkIndex * compressChunkSize
      match lz4.decompress data (srcSize byteLength srcIndex) with
      | none => none
      | some block =>
        (dstBuffer.write srcIndex block).map fun dstBuffer =>
          (dstBuffer, isChunkDecompressed.set chunkIndex true)

/-- `vector::resize`, with zeros. -/
def resize (flags : List Bool) (size : Nat) : List Bool :=
  flags.take size ++ List.replicate (size - flags.length) false

/-- The buffer and the flags a decompression starts with: a new buffer for a compressed
string. -/
def startMemory : ByteBuffer × List Bool :=
  if string.isCompressed then
    (.allocate string.byteLength, resize string.isChunkDecompressed string.compressedData.length)
  else (string.buffer.getD [], string.isChunkDecompressed)

def decompressWorker : Option (CompressibleString × Int) :=
  let chunks := List.range string.compressedData.length
  (chunks.foldlM (decompressChunk lz4 string.byteLength string.compressedData)
    string.startMemory).map fun (dstBuffer, _) =>
      let after := { string with
        buffer := some dstBuffer
        compressedData := []
        isChunkDecompressed := []
        isCompressed := false
        isPartiallyDecompressed := false }
      (after, if string.isCompressed then counter + after.decomressedBufferSize else counter)

variable (start length : Nat)

def rangeChunks : List Nat :=
  let startByte := start * string.unitSize
  let endByte := (start + length) * string.unitSize
  let startChunk := startByte / compressChunkSize
  let endChunk := if 0 < length then (endByte - 1) / compressChunkSize else startChunk
  (List.range (endChunk + 1 - startChunk)).map (startChunk + ·) |>.filter
    (· < string.compressedData.length)

def decompressRangeWorker (counter : Int) : Option (CompressibleString × Int) :=
  ((string.rangeChunks start length).foldlM
    (decompressChunk lz4 string.byteLength string.compressedData) string.startMemory).map
      fun (dstBuffer, isChunkDecompressed) =>
        let after := { string with
          buffer := some dstBuffer
          isChunkDecompressed := isChunkDecompressed
          isPartiallyDecompressed := true
          isCompressed := false }
        (after, if string.isCompressed then counter + after.decomressedBufferSize else counter)

/-- `decompress`, `decompressRange`: there is something to decompress. -/
def hasCompressedData : Bool := string.isCompressed || string.isPartiallyDecompressed

/-- `bufferAccessDataSpecialImpl` up to the reference. -/
def ensureBuffer : Option (CompressibleString × Int) :=
  if string.hasCompressedData then string.decompressWorker lz4 counter else some (string, counter)

/-- `bufferAccessDataSpecialImplForRange` up to the reference. -/
def ensureRange (counter : Int) : Option (CompressibleString × Int) :=
  if string.hasCompressedData then string.decompressRangeWorker lz4 start length counter
  else some (string, counter)

/-- The code units in a range of the buffer. -/
def readRange : Option (List UInt16) :=
  string.buffer.bind fun buffer =>
    (ByteBuffer.read buffer (start * string.unitSize) (length * string.unitSize)).map
      (unitsOfBytes string.has8BitContent)

end CompressibleString

/-- A `StringBufferAccessData` that someone holds, with the range it was asked for. -/
structure HeldReference where
  string : Nat
  start : Nat
  length : Nat

/-- The compressible strings of a `VMInstance`, `m_compressibleStringsUncomressedBufferSize`
and the references that are held. -/
structure CompressibleStrings where
  strings : List CompressibleString
  uncomressedBufferSize : Int
  held : List HeldReference

inductive CompressibleOp
  | create (data : StringBufferAccessData)
  | compress (string : Nat) (succeeds : Nat → Bool)
  | decompress (string : Nat)
  | decompressRange (string start length : Nat)
  | bufferAccessData (string : Nat)
  | bufferAccessDataForRange (string start length : Nat)
  | read (reference : Nat)
  | release (reference : Nat)

/-- What an operation answers; `invalid` for a call outside its preconditions. -/
inductive CompressibleAnswer
  | done
  | compressed (success : Bool)
  | units (units : Option (List UInt16))
  | invalid

namespace CompressibleStrings

def initial : CompressibleStrings := ⟨[], 0, []⟩

variable (vm : CompressibleStrings) (index : Nat) (after : CompressibleString) (counter : Int)

/-- Write a string and the counter back. -/
def update : CompressibleStrings :=
  { vm with strings := vm.strings.set index after, uncomressedBufferSize := counter }

/-- The end of an access: a reference is held, and the range is read. -/
def acquire (start length : Nat) : CompressibleStrings × CompressibleAnswer :=
  ({ vm.update index { after with refCount := after.refCount + 1 } counter with
      held := vm.held ++ [⟨index, start, length⟩] }, .units (after.readRange start length))

/-- One operation; `none` when the program stops or writes outside a buffer. -/
def step (lz4 : LZ4) (vm : CompressibleStrings) :
    CompressibleOp → Option (CompressibleStrings × CompressibleAnswer)
  | .create data =>
    some ({ vm with
      strings := vm.strings ++ [.create data]
      uncomressedBufferSize := vm.uncomressedBufferSize +
        (CompressibleString.create data).decomressedBufferSize }, .done)
  | .compress index succeeds =>
    match vm.strings[index]? with
    | none => some (vm, .invalid)
    | some string =>
      if string.isCompressed then some (vm, .invalid)
      else
        let (after, counter, success) := string.compress lz4 succeeds vm.uncomressedBufferSize
        some (vm.update index after counter, .compressed success)
  | .decompress index =>
    match vm.strings[index]? with
    | none => some (vm, .invalid)
    | some string =>
      if string.hasCompressedData then
        (string.decompressWorker lz4 vm.uncomressedBufferSize).map fun (after, counter) =>
          (vm.update index after counter, .done)
      else some (vm, .invalid)
  | .decompressRange index start length =>
    match vm.strings[index]? with
    | none => some (vm, .invalid)
    | some string =>
      if string.hasCompressedData ∧ start + length ≤ string.length then
        (string.decompressRangeWorker lz4 start length vm.uncomressedBufferSize).map
          fun (after, counter) => (vm.update index after counter, .done)
      else some (vm, .invalid)
  | .bufferAccessData index =>
    match vm.strings[index]? with
    | none => some (vm, .invalid)
    | some string =>
      (string.ensureBuffer lz4 vm.uncomressedBufferSize).map fun (after, counter) =>
        vm.acquire index after counter 0 string.length
  | .bufferAccessDataForRange index start length =>
    match vm.strings[index]? with
    | none => some (vm, .invalid)
    | some string =>
      if start + length ≤ string.length then
        (string.ensureRange lz4 start length vm.uncomressedBufferSize).map
          fun (after, counter) => vm.acquire index after counter start length
      else some (vm, .invalid)
  | .read reference =>
    match vm.held[reference]? with
    | none => some (vm, .invalid)
    | some held =>
      match vm.strings[held.string]? with
      | none => none
      | some string => some (vm, .units (string.readRange held.start held.length))
  | .release reference =>
    match vm.held[reference]? with
    | none => some (vm, .invalid)
    | some held =>
      match vm.strings[held.string]? with
      | none => none
      | some string =>
        some ({ vm with
          strings := vm.strings.set held.string
            { string with refCount := string.refCount - 1 }
          held := vm.held.eraseIdx reference }, .done)

end CompressibleStrings

namespace StringBufferAccessData

variable (data : StringBufferAccessData)

/-- `sizeof(StringType)` of the buffer. -/
def unitSize : Nat := if data.has8BitContent then 1 else 2

variable (buffer : List UInt16)

theorem drop_bytes_bufferAs16Bit (start : Nat) :
    (bufferAs16Bit buffer).bytes.drop (start * 2) = (bufferAs16Bit (buffer.drop start)).bytes := by
  induction buffer generalizing start with
  | nil => simp [bytes]
  | cons unit buffer ih =>
    cases start with
    | zero => rfl
    | succ start =>
      rw [Nat.succ_mul]
      exact ih start

theorem take_bytes_bufferAs16Bit (length : Nat) : (bufferAs16Bit buffer).bytes.take (length * 2) =
      (bufferAs16Bit (buffer.take length)).bytes := by
  induction buffer generalizing length with
  | nil => simp [bytes]
  | cons unit buffer ih =>
    cases length with
    | zero => rfl
    | succ length =>
      rw [Nat.succ_mul]
      exact congrArg (fun rest => _ :: _ :: rest) (ih length)

theorem unitsOfBytes_bytes_bufferAs16Bit :
    unitsOfBytes false (bufferAs16Bit buffer).bytes = buffer := by
  induction buffer with
  | nil => rfl
  | cons unit buffer ih =>
    show UInt16.ofNat ((UInt8.ofNat (unit.toNat % 256)).toNat +
      256 * (UInt8.ofNat (unit.toNat / 256)).toNat) :: unitsOfBytes false
        (bufferAs16Bit buffer).bytes = unit :: buffer
    have hlt : unit.toNat < 65536 := unit.toNat_lt
    rw [ih, UInt8.toNat_ofNat_of_lt' (by simp only [UInt8.size]; omega),
      UInt8.toNat_ofNat_of_lt' (by simp only [UInt8.size]; omega), Nat.mod_add_div,
      UInt16.ofNat_toNat]

theorem length_bytes : data.bytes.length = data.length * data.unitSize := by
  cases data with
  | bufferAs8Bit buffer => exact (Nat.mul_one _).symm
  | bufferAs16Bit buffer =>
    show (buffer.flatMap _).length = buffer.length * 2
    induction buffer with
    | nil => rfl
    | cons unit buffer ih =>
      rw [flatMap_cons, length_append, ih]
      simp only [length_cons, length_nil]
      omega

theorem unitsOfBytes_true (bytes : List UInt8) :
    unitsOfBytes true bytes = bytes.map UInt8.toUInt16 := by
  cases bytes <;> rfl

theorem unitsOfBytes_range (start length : Nat) : unitsOfBytes data.has8BitContent
        ((data.bytes.drop (start * data.unitSize)).take (length * data.unitSize)) =
      (data.units.drop start).take length := by
  cases data with
  | bufferAs8Bit buffer =>
    show unitsOfBytes true ((buffer.drop (start * 1)).take (length * 1)) =
      ((buffer.map UInt8.toUInt16).drop start).take length
    rw [unitsOfBytes_true, Nat.mul_one, Nat.mul_one, map_take, map_drop]
  | bufferAs16Bit buffer =>
    show unitsOfBytes false (((bufferAs16Bit buffer).bytes.drop (start * 2)).take (length * 2)) = _
    rw [drop_bytes_bufferAs16Bit, take_bytes_bufferAs16Bit, unitsOfBytes_bytes_bufferAs16Bit]
    rfl

end StringBufferAccessData

namespace ByteBuffer

def Restored (buffer : ByteBuffer) (bytes : List UInt8) (p : Nat) : Prop :=
  buffer[p]? = bytes[p]?.map some

theorem restored_map_some (bytes : List UInt8) (p : Nat) : Restored (bytes.map some) bytes p :=
  getElem?_map

variable {buffer : ByteBuffer}

theorem eq_of_restored {bytes : List UInt8} (hlength : buffer.length = bytes.length)
    (h : ∀ p < bytes.length, buffer.Restored bytes p) : buffer = bytes.map some := by
  apply ext_getElem?
  intro p
  by_cases hp : p < bytes.length
  · rw [getElem?_map]
    exact h p hp
  · rw [getElem?_eq_none (by omega), getElem?_eq_none (by rw [length_map]; omega)]

theorem mapM_id_map_some (bytes : List UInt8) :
    (bytes.map some).mapM (fun byte : Option UInt8 => byte) = some bytes := by
  induction bytes with
  | nil => rfl
  | cons byte bytes ih =>
    rw [map_cons, mapM_cons, ih]
    rfl

theorem read_of_restored {bytes : List UInt8} {start length : Nat}
    (h : ∀ p, start ≤ p → p < start + length → buffer.Restored bytes p) :
    buffer.read start length = some ((bytes.drop start).take length) := by
  have hmemory : (buffer.drop start).take length = ((bytes.drop start).take length).map some := by
    apply ext_getElem?
    intro p
    rw [getElem?_map, getElem?_take, getElem?_take]
    split
    · rename_i hp
      rw [getElem?_drop, getElem?_drop]
      exact h (start + p) (by omega) (by omega)
    · rfl
  rw [read, hmemory]
  exact mapM_id_map_some _

theorem write_spec {bytes : List UInt8} (hlength : buffer.length = bytes.length) {index : Nat}
    (hindex : index < bytes.length) (size : Nat) :
    ∃ after, buffer.write index ((bytes.drop index).take size) = some after ∧
      after.length = bytes.length ∧
      (∀ p, index ≤ p → p < index + size → after.Restored bytes p) ∧
      ∀ p, buffer.Restored bytes p → after.Restored bytes p := by
  have hblock : ((bytes.drop index).take size).length = min size (bytes.length - index) := by
    rw [length_take, length_drop]
  have hhead : (buffer.take index).length = index := by
    rw [length_take]
    omega
  have hroom : index + ((bytes.drop index).take size).length ≤ buffer.length := by
    omega
  -- the memory after the write, by position
  have hinside : ∀ p, index ≤ p → p < index + size →
      Restored (buffer.take index ++ ((bytes.drop index).take size).map some ++
        buffer.drop (index + ((bytes.drop index).take size).length)) bytes p := by
    intro p hle hlt
    show (_ ++ _)[p]? = _
    by_cases hp : p < bytes.length
    · rw [append_assoc, getElem?_append_right (by omega), hhead,
        getElem?_append_left (by rw [length_map, hblock]; omega), getElem?_map,
        getElem?_take_of_lt (by omega), getElem?_drop, Nat.add_sub_cancel' hle]
    · have hnone : bytes[p]? = none := getElem?_eq_none (by omega)
      rw [hnone, getElem?_eq_none]
      · rfl
      · simp only [length_append, length_map, length_drop, hhead, hblock]
        omega
  refine ⟨_, if_pos hroom, ?_, hinside, fun p hp => ?_⟩
  · simp only [length_append, length_map, length_drop, hhead, hblock]
    omega
  · by_cases hinner : index ≤ p ∧ p < index + size
    · exact hinside p hinner.1 hinner.2
    · show (_ ++ _)[p]? = _
      rw [← hp]
      by_cases hbefore : p < index
      · rw [append_assoc, getElem?_append_left (by omega), getElem?_take_of_lt hbefore]
      · rw [getElem?_append_right, getElem?_drop]
        · congr 1
          simp only [length_append, length_map, hhead, hblock]
          omega
        · simp only [length_append, length_map, hhead, hblock]
          omega

end ByteBuffer

namespace CompressibleString

def chunk (bytes : List UInt8) (i : Nat) : List UInt8 :=
  (bytes.drop (i * compressChunkSize)).take compressChunkSize

def compressedChunks (lz4 : LZ4) (bytes : List UInt8) : List (List UInt8) :=
  (List.range (chunkCount bytes.length)).map fun i => lz4.compress (chunk bytes i)

theorem lt_chunkCount_iff {byteLength i : Nat} :
    i < chunkCount byteLength ↔ i * compressChunkSize < byteLength := by
  rw [chunkCount, Nat.lt_div_iff_mul_lt (by decide)]
  omega

theorem length_compressedChunks (lz4 : LZ4) (bytes : List UInt8) :
    (compressedChunks lz4 bytes).length = chunkCount bytes.length := by
  rw [compressedChunks, length_map, length_range]

theorem getElem?_compressedChunks (lz4 : LZ4) {bytes : List UInt8} {i : Nat}
    (hi : i < chunkCount bytes.length) :
    (compressedChunks lz4 bytes)[i]? = some (lz4.compress (chunk bytes i)) := by
  rw [compressedChunks, getElem?_map, getElem?_range hi]
  rfl

variable {lz4 : LZ4}

/-- Decompressing a chunk in the room there is for it gives it back. -/
theorem decompress_chunk (hlz4 : lz4.Inverts) {bytes : List UInt8} {i : Nat}
    (hi : i < chunkCount bytes.length) :
    lz4.decompress (lz4.compress (chunk bytes i))
      (srcSize bytes.length (i * compressChunkSize)) = some (chunk bytes i) := by
  rw [lt_chunkCount_iff] at hi
  have hlength : (chunk bytes i).length = srcSize bytes.length (i * compressChunkSize) := by
    rw [chunk, length_take, length_drop, srcSize, if_pos (Nat.le_of_lt hi)]
  have hne : chunk bytes i ≠ [] := by
    rw [← length_pos_iff, hlength, srcSize, if_pos (Nat.le_of_lt hi), Nat.lt_min]
    exact ⟨by decide, Nat.sub_pos_of_lt hi⟩
  rw [← hlength]
  exact hlz4 _ hne

/-- A buffer that is being filled: the chunks that are flagged are there. -/
structure MemoryOk (bytes : List UInt8) (memory : ByteBuffer × List Bool) : Prop where
  length_buffer : memory.1.length = bytes.length
  length_flags : memory.2.length = chunkCount bytes.length
  restored : ∀ i : Nat, memory.2[i]? = some true → ∀ p, p / compressChunkSize = i →
    memory.1.Restored bytes p

/-- What decompressing more chunks does to the memory. -/
structure Grows (bytes : List UInt8) (memory after : ByteBuffer × List Bool) : Prop where
  flags : ∀ i : Nat, memory.2[i]? = some true → after.2[i]? = some true
  restored : ∀ p, memory.1.Restored bytes p → after.1.Restored bytes p

theorem Grows.refl (bytes : List UInt8) (memory : ByteBuffer × List Bool) :
    Grows bytes memory memory :=
  ⟨fun _ h => h, fun _ h => h⟩

variable {memory : ByteBuffer × List Bool}

theorem Grows.trans {bytes : List UInt8} {middle after : ByteBuffer × List Bool}
    (h : Grows bytes memory middle) (h' : Grows bytes middle after) : Grows bytes memory after :=
  ⟨fun i hi => h'.flags i (h.flags i hi), fun p hp => h'.restored p (h.restored p hp)⟩

theorem decompressChunk_spec (hlz4 : lz4.Inverts) {bytes : List UInt8}
    (hmemory : MemoryOk bytes memory) {i : Nat} (hi : i < chunkCount bytes.length) :
    ∃ after, decompressChunk lz4 bytes.length (compressedChunks lz4 bytes) memory i = some after ∧
      MemoryOk bytes after ∧ Grows bytes memory after ∧ after.2[i]? = some true := by
  obtain ⟨buffer, flags⟩ := memory
  by_cases hflag : flags[i]? = some true
  · exact ⟨_, if_pos hflag, hmemory, .refl _ _, hflag⟩
  · obtain ⟨after, hwrite, hlength, hinside, hkeep⟩ :=
      ByteBuffer.write_spec hmemory.length_buffer (lt_chunkCount_iff.mp hi) compressChunkSize
    have hset : (flags.set i true)[i]? = some true := by
      rw [getElem?_set_self]
      exact hmemory.length_flags ▸ hi
    refine ⟨(after, flags.set i true), ?_, ⟨hlength, ?_, fun j hj p hp => ?_⟩,
      ⟨fun j hj => ?_, hkeep⟩, hset⟩
    · simp only [decompressChunk, if_neg hflag, getElem?_compressedChunks lz4 hi,
        decompress_chunk hlz4 hi]
      rw [chunk, hwrite]
      rfl
    · rw [length_set]
      exact hmemory.length_flags
    · rcases getElem?_set_cases hj with ⟨rfl, -⟩ | ⟨-, hj'⟩
      · rw [Nat.div_eq_iff (by decide)] at hp
        exact hinside p (by omega) (by simp only [compressChunkSize] at hp ⊢; omega)
      · exact hkeep p (hmemory.restored j hj' p hp)
    · by_cases hij : i = j
      · exact hij ▸ hset
      · exact (getElem?_set_ne hij).trans hj

theorem foldlM_decompressChunk_spec (hlz4 : lz4.Inverts) {bytes : List UInt8} (chunks : List Nat)
    (hmemory : MemoryOk bytes memory) (hchunks : ∀ i ∈ chunks, i < chunkCount bytes.length) :
    ∃ after, chunks.foldlM (decompressChunk lz4 bytes.length (compressedChunks lz4 bytes)) memory =
        some after ∧
      MemoryOk bytes after ∧ Grows bytes memory after ∧ ∀ i ∈ chunks, after.2[i]? = some true := by
  induction chunks generalizing memory with
  | nil => exact ⟨memory, rfl, hmemory, .refl _ _, fun _ h => (not_mem_nil h).elim⟩
  | cons i chunks ih =>
    obtain ⟨middle, hstep, hmiddle, hgrows, hi⟩ :=
      decompressChunk_spec hlz4 hmemory (hchunks i mem_cons_self)
    obtain ⟨after, hfold, hafter, hgrows', hrest⟩ := ih hmiddle fun j hj => hchunks j (.tail i hj)
    refine ⟨after, ?_, hafter, hgrows.trans hgrows', fun j hj => ?_⟩
    · rw [foldlM_cons, hstep]
      exact hfold
    · rcases List.mem_cons.mp hj with rfl | hmem
      · exact hgrows'.flags j hi
      · exact hrest j hmem

/-- A string whose contents are those of `data`: all of them in the buffer, all of them
compressed, or some chunks in the buffer again. -/
inductive StringOk (lz4 : LZ4) (data : StringBufferAccessData) (string : CompressibleString) : Prop
  | plain (buffer : string.buffer = some (data.bytes.map some))
      (isCompressed : string.isCompressed = false)
      (isPartiallyDecompressed : string.isPartiallyDecompressed = false)
      (compressedData : string.compressedData = [])
      (isChunkDecompressed : string.isChunkDecompressed = [])
  | compressed (isCompressed : string.isCompressed = true)
      (isPartiallyDecompressed : string.isPartiallyDecompressed = false)
      (compressedData : string.compressedData = compressedChunks lz4 data.bytes)
      (isChunkDecompressed : string.isChunkDecompressed = [])
  | partly (buffer : ByteBuffer) (hbuffer : string.buffer = some buffer)
      (isCompressed : string.isCompressed = false)
      (isPartiallyDecompressed : string.isPartiallyDecompressed = true)
      (compressedData : string.compressedData = compressedChunks lz4 data.bytes)
      (memory : MemoryOk data.bytes (buffer, string.isChunkDecompressed))

structure Keeps (data : StringBufferAccessData) (string : CompressibleString) : Prop where
  has8BitContent : string.has8BitContent = data.has8BitContent
  length : string.length = data.length

variable {data : StringBufferAccessData} {string : CompressibleString}

theorem Keeps.unitSize (hkeeps : Keeps data string) : string.unitSize = data.unitSize := by
  rw [CompressibleString.unitSize, hkeeps.has8BitContent]
  rfl

theorem Keeps.byteLength (hkeeps : Keeps data string) : string.byteLength = data.bytes.length := by
  rw [CompressibleString.byteLength, hkeeps.length, hkeeps.unitSize,
    StringBufferAccessData.length_bytes]

def Readable (data : StringBufferAccessData) (string : CompressibleString) (p : Nat) : Prop :=
  string.isCompressed = false ∧
    ∃ buffer, string.buffer = some buffer ∧ ByteBuffer.Restored buffer data.bytes p

theorem readRange_of_readable (hkeeps : Keeps data string) {start length : Nat}
    (hbuffer : string.buffer.isSome = true)
    (h : ∀ p, start * data.unitSize ≤ p → p < (start + length) * data.unitSize →
      Readable data string p) :
    string.readRange start length = some ((data.units.drop start).take length) := by
  obtain ⟨buffer, hbuffer⟩ := Option.isSome_iff_exists.mp hbuffer
  have hread : ByteBuffer.read buffer (start * data.unitSize) (length * data.unitSize) =
      some ((data.bytes.drop (start * data.unitSize)).take (length * data.unitSize)) := by
    apply ByteBuffer.read_of_restored
    intro p hle hlt
    rw [← Nat.add_mul] at hlt
    obtain ⟨-, other, hother, hrestored⟩ := h p hle hlt
    cases hbuffer.symm.trans hother
    exact hrestored
  rw [readRange, hbuffer, bind_some, hkeeps.unitSize, hread, map_some,
    hkeeps.has8BitContent, StringBufferAccessData.unitsOfBytes_range]

theorem readable_of_plain (hbuffer : string.buffer = some (data.bytes.map some))
    (hcompressed : string.isCompressed = false) (p : Nat) : Readable data string p :=
  ⟨hcompressed, _, hbuffer, ByteBuffer.restored_map_some _ _⟩

theorem memoryOk_allocate (bytes : List UInt8) :
    MemoryOk bytes (.allocate bytes.length, resize [] (chunkCount bytes.length)) := by
  have hflags : resize [] (chunkCount bytes.length) =
      List.replicate (chunkCount bytes.length) false := by
    rw [resize, take_nil, nil_append, length_nil, Nat.sub_zero]
  refine ⟨length_replicate, ?_, fun i hi => ?_⟩
  · rw [hflags, length_replicate]
  · rw [hflags, getElem?_replicate] at hi
    split at hi <;> cases hi

theorem startMemory_spec (hkeeps : Keeps data string) (hok : StringOk lz4 data string)
    (hdata : string.hasCompressedData = true) :
    string.compressedData = compressedChunks lz4 data.bytes ∧
      MemoryOk data.bytes string.startMemory ∧
      ∀ p, Readable data string p → string.startMemory.1.Restored data.bytes p := by
  cases hok with
  | plain hbuffer hcompressed hpartly _ _ =>
    rw [hasCompressedData, hcompressed, hpartly] at hdata
    cases hdata
  | compressed hcompressed hpartly hchunks hflags =>
    refine ⟨hchunks, ?_, fun p hp => ?_⟩
    · rw [startMemory, if_pos hcompressed, hflags, hkeeps.byteLength, hchunks,
        length_compressedChunks]
      exact memoryOk_allocate _
    · rw [hp.1] at hcompressed
      cases hcompressed
  | partly buffer hbuffer hcompressed hpartly hchunks hmemory =>
    have hstart : string.startMemory = (buffer, string.isChunkDecompressed) := by
      rw [startMemory, hcompressed, hbuffer]
      rfl
    rw [hstart]
    refine ⟨hchunks, hmemory, fun p hp => ?_⟩
    obtain ⟨-, other, hother, hrestored⟩ := hp
    cases hbuffer.symm.trans hother
    exact hrestored

/-- What bringing contents back does to a string. -/
structure Restores (lz4 : LZ4) (data : StringBufferAccessData)
    (string after : CompressibleString) : Prop where
  keeps : Keeps data after
  ok : StringOk lz4 data after
  refCount : after.refCount = string.refCount
  isCompressed : after.isCompressed = false
  buffer : after.buffer.isSome = true
  readable : ∀ p, Readable data string p → Readable data after p

def counterAfter (string after : CompressibleString) (counter : Int) : Int :=
  counter - string.decomressedBufferSize + after.decomressedBufferSize

theorem counterAfter_self (string : CompressibleString) (counter : Int) :
    counterAfter string string counter = counter := by
  rw [counterAfter]
  omega

variable {after : CompressibleString}

theorem counterAfter_of_decompressed
    (hlength : after.byteLength = string.byteLength) (hafter : after.isCompressed = false)
    (counter : Int) :
    (if string.isCompressed then counter + after.decomressedBufferSize else counter) =
      counterAfter string after counter := by
  rw [counterAfter, decomressedBufferSize, decomressedBufferSize, hafter, hlength]
  cases string.isCompressed with
  | true => simp
  | false => simp

theorem decompressWorker_spec (hlz4 : lz4.Inverts) (hkeeps : Keeps data string)
    (hok : StringOk lz4 data string) (hdata : string.hasCompressedData = true) (counter : Int) :
    ∃ after, string.decompressWorker lz4 counter = some (after, counterAfter string after counter) ∧
      Restores lz4 data string after ∧ ∀ p, Readable data after p := by
  obtain ⟨hchunks, hmemory, hreadable⟩ := startMemory_spec hkeeps hok hdata
  obtain ⟨⟨buffer, flags⟩, hfold, hafter, hgrows, hall⟩ := foldlM_decompressChunk_spec hlz4
    (List.range (chunkCount data.bytes.length)) hmemory fun i hi => List.mem_range.mp hi
  have hbuffer : buffer = data.bytes.map some := by
    apply ByteBuffer.eq_of_restored hafter.length_buffer
    intro p hp
    apply hafter.restored (p / compressChunkSize) _ p rfl
    apply hall
    rw [mem_range, lt_chunkCount_iff]
    exact Nat.lt_of_le_of_lt (Nat.div_mul_le_self _ _) hp
  let after : CompressibleString := { string with
    buffer := some buffer
    compressedData := []
    isChunkDecompressed := []
    isCompressed := false
    isPartiallyDecompressed := false }
  have hplain : after.buffer = some (data.bytes.map some) := congrArg some hbuffer
  have hread : ∀ p, Readable data after p := fun p => readable_of_plain hplain rfl p
  refine ⟨after, ?_, ⟨⟨hkeeps.has8BitContent, hkeeps.length⟩, .plain hplain rfl rfl rfl rfl, rfl, rfl,
    rfl, fun p _ => hread p⟩, hread⟩
  have hlength : after.byteLength = string.byteLength := rfl
  rw [decompressWorker, hchunks, length_compressedChunks, hkeeps.byteLength, hfold,
    ← counterAfter_of_decompressed hlength rfl]
  rfl

theorem mem_rangeChunks {start length p : Nat} (hle : start * string.unitSize ≤ p)
    (hlt : p < (start + length) * string.unitSize)
    (hchunk : p / compressChunkSize < string.compressedData.length) :
    p / compressChunkSize ∈ string.rangeChunks start length := by
  have hlength : 0 < length := by
    rcases Nat.eq_zero_or_pos length with rfl | hpos
    · rw [Nat.add_zero] at hlt
      omega
    · exact hpos
  have hfirst : start * string.unitSize / compressChunkSize ≤ p / compressChunkSize :=
    Nat.div_le_div_right hle
  have hlast : p / compressChunkSize ≤
      ((start + length) * string.unitSize - 1) / compressChunkSize :=
    Nat.div_le_div_right (by omega)
  rw [rangeChunks, mem_filter, List.mem_map]
  refine ⟨⟨p / compressChunkSize - start * string.unitSize / compressChunkSize, ?_, ?_⟩,
    decide_eq_true hchunk⟩
  · rw [mem_range, if_pos hlength]
    omega
  · omega

theorem decompressRangeWorker_spec (hlz4 : lz4.Inverts) (hkeeps : Keeps data string)
    (hok : StringOk lz4 data string) (hdata : string.hasCompressedData = true)
    (start length : Nat) (counter : Int) :
    ∃ after, string.decompressRangeWorker lz4 start length counter =
        some (after, counterAfter string after counter) ∧
      Restores lz4 data string after ∧
      ∀ p, start * data.unitSize ≤ p → p < (start + length) * data.unitSize →
        Readable data after p := by
  obtain ⟨hchunks, hmemory, hreadable⟩ := startMemory_spec hkeeps hok hdata
  have hcount : string.compressedData.length = chunkCount data.bytes.length := by
    rw [hchunks, length_compressedChunks]
  obtain ⟨⟨buffer, flags⟩, hfold, hafter, hgrows, hall⟩ := foldlM_decompressChunk_spec hlz4
    (string.rangeChunks start length) hmemory fun i hi => by
      rw [rangeChunks, mem_filter] at hi
      exact hcount ▸ of_decide_eq_true hi.2
  let after : CompressibleString := { string with
    buffer := some buffer
    isChunkDecompressed := flags
    isPartiallyDecompressed := true
    isCompressed := false }
  have hrange : ∀ p, start * data.unitSize ≤ p → p < (start + length) * data.unitSize →
      buffer.Restored data.bytes p := by
    intro p hle hlt
    by_cases hp : p < data.bytes.length
    · apply hafter.restored (p / compressChunkSize) _ p rfl
      apply hall
      rw [← hkeeps.unitSize] at hle hlt
      apply mem_rangeChunks hle hlt
      rw [hcount, lt_chunkCount_iff]
      exact Nat.lt_of_le_of_lt (Nat.div_mul_le_self _ _) hp
    · have hlength : buffer.length = data.bytes.length := hafter.length_buffer
      rw [ByteBuffer.Restored, getElem?_eq_none (by omega), getElem?_eq_none (by omega)]
      rfl
  refine ⟨after, ?_, ⟨⟨hkeeps.has8BitContent, hkeeps.length⟩,
    .partly buffer rfl rfl rfl hchunks hafter, rfl, rfl, rfl,
    fun p hp => ⟨rfl, buffer, rfl, hgrows.restored p (hreadable p hp)⟩⟩,
    fun p hle hlt => ⟨rfl, buffer, rfl, hrange p hle hlt⟩⟩
  have hlength : after.byteLength = string.byteLength := rfl
  rw [← hchunks] at hfold
  rw [decompressRangeWorker, ← counterAfter_of_decompressed hlength rfl, hkeeps.byteLength, hfold]
  rfl

theorem plain_of_not_hasCompressedData (hok : StringOk lz4 data string)
    (hdata : string.hasCompressedData = false) :
    string.buffer = some (data.bytes.map some) ∧ string.isCompressed = false ∧
      string.compressedData = [] := by
  rw [hasCompressedData, Bool.or_eq_false_iff] at hdata
  cases hok with
  | plain hbuffer hcompressed _ hchunks _ => exact ⟨hbuffer, hcompressed, hchunks⟩
  | compressed hcompressed _ _ _ => exact nomatch hdata.1.symm.trans hcompressed
  | partly _ _ _ hpartly _ _ => exact nomatch hdata.2.symm.trans hpartly

theorem restores_self (hkeeps : Keeps data string) (hok : StringOk lz4 data string)
    (hdata : string.hasCompressedData = false) :
    Restores lz4 data string string ∧ ∀ p, Readable data string p := by
  obtain ⟨hbuffer, hcompressed, -⟩ := plain_of_not_hasCompressedData hok hdata
  refine ⟨⟨hkeeps, hok, rfl, hcompressed, ?_, fun _ h => h⟩,
    fun p => readable_of_plain hbuffer hcompressed p⟩
  rw [hbuffer]
  rfl

theorem ensureBuffer_spec (hlz4 : lz4.Inverts) (hkeeps : Keeps data string)
    (hok : StringOk lz4 data string) (counter : Int) :
    ∃ after, string.ensureBuffer lz4 counter = some (after, counterAfter string after counter) ∧
      Restores lz4 data string after ∧ ∀ p, Readable data after p := by
  rw [ensureBuffer]
  cases hdata : string.hasCompressedData with
  | true =>
    exact decompressWorker_spec hlz4 hkeeps hok hdata counter
  | false =>
    refine ⟨string, ?_, restores_self hkeeps hok hdata⟩
    rw [if_neg Bool.false_ne_true, counterAfter_self]

theorem ensureRange_spec (hlz4 : lz4.Inverts) (hkeeps : Keeps data string)
    (hok : StringOk lz4 data string) (start length : Nat) (counter : Int) :
    ∃ after, string.ensureRange lz4 start length counter =
        some (after, counterAfter string after counter) ∧
      Restores lz4 data string after ∧
      ∀ p, start * data.unitSize ≤ p → p < (start + length) * data.unitSize →
        Readable data after p := by
  rw [ensureRange]
  cases hdata : string.hasCompressedData with
  | true =>
    exact decompressRangeWorker_spec hlz4 hkeeps hok hdata start length counter
  | false =>
    obtain ⟨hrestores, hreadable⟩ := restores_self hkeeps hok hdata
    refine ⟨string, ?_, hrestores, fun p _ _ => hreadable p⟩
    rw [if_neg Bool.false_ne_true, counterAfter_self]

theorem map_getD_chunk (bytes : List UInt8) (i : Nat) :
    (((bytes.map some).drop (i * compressChunkSize)).take compressChunkSize).map
      (fun byte => byte.getD 0) = chunk bytes i := by
  rw [← map_drop, ← map_take, List.map_map]
  exact List.map_id _

theorem compressLoop_spec (lz4 : LZ4) (succeeds : Nat → Bool) (bytes : List UInt8) (fuel i : Nat)
    (compressedData : List (List UInt8)) (hfuel : i + fuel = chunkCount bytes.length) :
    ∃ k ≤ fuel, compressLoop lz4 succeeds (bytes.map some) bytes.length fuel i compressedData =
        (decide (k = fuel), compressedData ++
          (List.range' i k).map fun j => lz4.compress (chunk bytes j)) ∧
      (∀ j, i ≤ j → j < i + k → succeeds j = true) ∧ (k < fuel → succeeds (i + k) = false) := by
  induction fuel generalizing i compressedData with
  | zero =>
    refine ⟨0, Nat.le_refl 0, ?_, fun j hle hlt => by omega, fun h => by omega⟩
    rw [range'_zero, map_nil, append_nil]
    rfl
  | succ fuel ih =>
    have hi : i * compressChunkSize < bytes.length := lt_chunkCount_iff.mp (by omega)
    rw [compressLoop, if_pos hi]
    cases hsucceeds : succeeds i with
    | false =>
      refine ⟨0, Nat.zero_le _, ?_, fun j hle hlt => by omega, fun _ => hsucceeds⟩
      rw [if_neg Bool.false_ne_true, range'_zero, map_nil, append_nil]
      rfl
    | true =>
      rw [if_pos rfl]
      dsimp only
      rw [map_getD_chunk]
      obtain ⟨k, hk, hloop, hsome, hnone⟩ := ih (i + 1)
        (compressedData ++ [lz4.compress (chunk bytes i)]) (by omega)
      refine ⟨k + 1, by omega, ?_, fun j hle hlt => ?_, fun h => ?_⟩
      · rw [hloop, range'_succ, map_cons, append_assoc, singleton_append]
        simp only [Nat.add_right_cancel_iff]
      · rcases Nat.eq_or_lt_of_le hle with rfl | hlt'
        · exact hsucceeds
        · exact hsome j hlt' (by omega)
      · have hstop := hnone (by omega)
        rwa [Nat.add_assoc, Nat.add_comm 1 k] at hstop

/-- A compression that fails on a later chunk than the first. -/
def FailsPartWay (string : CompressibleString) (succeeds : Nat → Bool) : Prop :=
  string.hasCompressedData = false ∧ string.refCount = 0 ∧ succeeds 0 = true ∧
    ∃ i < chunkCount string.byteLength, succeeds i = false

instance (string : CompressibleString) (succeeds : Nat → Bool) :
    Decidable (string.FailsPartWay succeeds) := by
  unfold FailsPartWay
  infer_instance

theorem counterAfter_of_compressed (hafter : after.isCompressed = true) (counter : Int) :
    counter - string.decomressedBufferSize = counterAfter string after counter := by
  have hzero : after.decomressedBufferSize = 0 := if_pos hafter
  rw [counterAfter, hzero]
  omega

theorem compressWorker_partly (hkeeps : Keeps data string) (hok : StringOk lz4 data string)
    (hpartly : string.isPartiallyDecompressed = true) (succeeds : Nat → Bool) (counter : Int) :
    ∃ after, string.compressWorker lz4 succeeds counter =
        (after, counterAfter string after counter, true) ∧
      Keeps data after ∧ StringOk lz4 data after ∧ after.refCount = string.refCount := by
  have hchunks : string.compressedData = compressedChunks lz4 data.bytes := by
    cases hok with
    | plain _ _ hplain _ _ => exact nomatch hplain.symm.trans hpartly
    | compressed _ hplain _ _ => exact nomatch hplain.symm.trans hpartly
    | partly _ _ _ _ hchunks _ => exact hchunks
  let after : CompressibleString := { string with
    buffer := none
    isChunkDecompressed := []
    isPartiallyDecompressed := false
    isCompressed := true }
  have hafter : after.isCompressed = true := rfl
  refine ⟨after, ?_, ⟨hkeeps.has8BitContent, hkeeps.length⟩, .compressed rfl rfl hchunks rfl, rfl⟩
  rw [compressWorker, if_pos hpartly, ← counterAfter_of_compressed hafter]

theorem compressWorker_plain (hkeeps : Keeps data string) (hok : StringOk lz4 data string)
    (hdata : string.hasCompressedData = false) (hcount : string.refCount = 0)
    (succeeds : Nat → Bool) (counter : Int) :
    (¬ string.FailsPartWay succeeds ∧
        string.compressWorker lz4 succeeds counter = (string, counter, false)) ∨
      (¬ string.FailsPartWay succeeds ∧ ∃ after, string.compressWorker lz4 succeeds counter =
            (after, counterAfter string after counter, true) ∧
          Keeps data after ∧ StringOk lz4 data after ∧ after.refCount = string.refCount) ∨
      (string.FailsPartWay succeeds ∧ ∃ after, after ≠ string ∧
        string.compressWorker lz4 succeeds counter = (after, counter, false)) := by
  obtain ⟨hbuffer, hcompressed, hchunks⟩ := plain_of_not_hasCompressedData hok hdata
  have hpartly : string.isPartiallyDecompressed = false := (Bool.or_eq_false_iff.mp hdata).2
  have hflags : string.isChunkDecompressed = [] := by
    cases hok with
    | plain _ _ _ _ hflags => exact hflags
    | compressed h _ _ _ => exact nomatch hcompressed.symm.trans h
    | partly _ _ _ h _ _ => exact nomatch hpartly.symm.trans h
  have hlength := hkeeps.byteLength
  obtain ⟨k, hk, hloop, hsome, hnone⟩ := compressLoop_spec lz4 succeeds data.bytes
    (chunkCount data.bytes.length) 0 [] (Nat.zero_add _)
  rw [nil_append, ← range_eq_range'] at hloop
  rw [Nat.zero_add] at hnone hsome
  rw [compressWorker, if_neg (by rw [hpartly]; exact Bool.false_ne_true), hbuffer, hchunks,
    hlength, getD_some, hloop]
  dsimp only
  by_cases hall : k = chunkCount data.bytes.length
  · subst hall
    right; left
    let after : CompressibleString := { string with
      compressedData := compressedChunks lz4 data.bytes
      buffer := none
      isCompressed := true }
    have hafter : after.isCompressed = true := rfl
    refine ⟨?_, after, ?_, ⟨hkeeps.has8BitContent, hkeeps.length⟩,
      .compressed rfl hpartly rfl hflags, rfl⟩
    · rintro ⟨-, -, -, i, hi, hfails⟩
      rw [hlength] at hi
      rw [hsome i (Nat.zero_le i) hi] at hfails
      cases hfails
    · rw [decide_eq_true rfl, if_pos rfl, ← counterAfter_of_compressed hafter]
      rfl
  · have hlt : k < chunkCount data.bytes.length := by omega
    rw [decide_eq_false hall, if_neg Bool.false_ne_true]
    rcases Nat.eq_zero_or_pos k with rfl | hpos
    · left
      refine ⟨fun hfails => ?_, ?_⟩
      · have hfirst : succeeds 0 = true := hfails.2.2.1
        rw [hnone hlt] at hfirst
        cases hfirst
      · rw [range_zero, map_nil, ← hchunks, ← hbuffer]
    · right; right
      refine ⟨⟨hdata, hcount, hsome 0 (Nat.le_refl 0) hpos, k, hlength ▸ hlt, hnone hlt⟩, _,
        fun heq => ?_, rfl⟩
      have hempty := congrArg (fun after => after.compressedData.length) heq
      simp only [hchunks, length_map, length_range, length_nil] at hempty
      omega

theorem compress_spec (hkeeps : Keeps data string) (hok : StringOk lz4 data string)
    (hcompressed : string.isCompressed = false) (succeeds : Nat → Bool) (counter : Int) :
    (¬ string.FailsPartWay succeeds ∧
        string.compress lz4 succeeds counter = (string, counter, false)) ∨
      (¬ string.FailsPartWay succeeds ∧ string.refCount = 0 ∧
        ∃ after, string.compress lz4 succeeds counter =
            (after, counterAfter string after counter, true) ∧
          Keeps data after ∧ StringOk lz4 data after ∧ after.refCount = string.refCount) ∨
      (string.FailsPartWay succeeds ∧ ∃ after, after ≠ string ∧
        string.compress lz4 succeeds counter = (after, counter, false)) := by
  by_cases hrefuse : string.length = 0 ∨ 0 < string.refCount
  · refine .inl ⟨?_, if_pos hrefuse⟩
    rintro ⟨-, hcount, -, i, hi, -⟩
    have hlength : string.length = 0 := by omega
    rw [lt_chunkCount_iff, byteLength, hlength, Nat.zero_mul] at hi
    omega
  · have hcount : string.refCount = 0 := by omega
    rw [compress, if_neg hrefuse]
    cases hpartly : string.isPartiallyDecompressed with
    | true =>
      right; left
      refine ⟨?_, hcount, compressWorker_partly hkeeps hok hpartly succeeds counter⟩
      rintro ⟨hdata, -⟩
      rw [hasCompressedData, hpartly, Bool.or_true] at hdata
      cases hdata
    | false =>
      have hdata : string.hasCompressedData = false := by
        rw [hasCompressedData, hcompressed, hpartly]
        rfl
      rcases compressWorker_plain hkeeps hok hdata hcount succeeds counter with h | h | h
      · exact .inl h
      · exact .inr (.inl ⟨h.1, hcount, h.2⟩)
      · exact .inr (.inr h)

end CompressibleString

/-- What the strings are for: their contents never change. -/
structure OriginalStrings where
  originals : List StringBufferAccessData
  held : List HeldReference

inductive ExpectedAnswer
  | done
  | compress (isHeld : Bool)
  | decompress
  | units (units : List UInt16)
  | invalid

namespace OriginalStrings

def initial : OriginalStrings := ⟨[], []⟩

variable (abstract : OriginalStrings)

def isHeld (index : Nat) : Bool := abstract.held.any fun held => held.string = index

/-- The code units of a range of a string. -/
def unitsOf (held : HeldReference) : List UInt16 :=
  match abstract.originals[held.string]? with
  | none => []
  | some data => (data.units.drop held.start).take held.length

def access (held : HeldReference) : OriginalStrings × ExpectedAnswer :=
  ({ abstract with held := abstract.held ++ [held] }, .units (abstract.unitsOf held))

def step : CompressibleOp → OriginalStrings × ExpectedAnswer
  | .create data => ({ abstract with originals := abstract.originals ++ [data] }, .done)
  | .compress index _ =>
    match abstract.originals[index]? with
    | none => (abstract, .invalid)
    | some _ => (abstract, .compress (abstract.isHeld index))
  | .decompress index =>
    match abstract.originals[index]? with
    | none => (abstract, .invalid)
    | some _ => (abstract, .decompress)
  | .decompressRange index _ _ =>
    match abstract.originals[index]? with
    | none => (abstract, .invalid)
    | some _ => (abstract, .decompress)
  | .bufferAccessData index =>
    match abstract.originals[index]? with
    | none => (abstract, .invalid)
    | some data => abstract.access ⟨index, 0, data.length⟩
  | .bufferAccessDataForRange index start length =>
    match abstract.originals[index]? with
    | none => (abstract, .invalid)
    | some data =>
      if start + length ≤ data.length then abstract.access ⟨index, start, length⟩
      else (abstract, .invalid)
  | .read reference =>
    match abstract.held[reference]? with
    | none => (abstract, .invalid)
    | some held => (abstract, .units (abstract.unitsOf held))
  | .release reference =>
    match abstract.held[reference]? with
    | none => (abstract, .invalid)
    | some _ => ({ abstract with held := abstract.held.eraseIdx reference }, .done)

end OriginalStrings

/-- An answer is as expected: the original code units of the range, and no success for a
string that is held. A string that is compressed already is not compressed, and one that is
not need not be decompressed. -/
def CompressibleAnswer.Meets : CompressibleAnswer → ExpectedAnswer → Prop
  | .units got, .units expected => got = some expected
  | .compressed success, .compress isHeld => isHeld = true → success = false
  | .invalid, .compress isHeld => isHeld = false
  | .done, .decompress => True
  | .invalid, .decompress => True
  | .done, .done => True
  | .invalid, .invalid => True
  | _, _ => False

namespace CompressibleStrings

def totalDecompressed (vm : CompressibleStrings) : Int :=
  (vm.strings.map fun string => (string.decomressedBufferSize : Int)).sum

def avoidsPartialFailure (vm : CompressibleStrings) : CompressibleOp → Prop
  | .compress index succeeds =>
    ∀ string, vm.strings[index]? = some string → ¬ string.FailsPartWay succeeds
  | _ => True

open CompressibleString

structure StringAt (lz4 : LZ4) (held : List HeldReference) (index : Nat)
    (data : StringBufferAccessData) (string : CompressibleString) : Prop where
  keeps : Keeps data string
  ok : StringOk lz4 data string
  refCount : string.refCount = held.countP fun reference => reference.string = index
  readable : ∀ reference ∈ held, reference.string = index →
    string.isCompressed = false ∧ string.buffer.isSome = true ∧
      ∀ p, reference.start * data.unitSize ≤ p →
        p < (reference.start + reference.length) * data.unitSize → Readable data string p

/-- The VM against the contents of its strings. -/
structure Related (lz4 : LZ4) (vm : CompressibleStrings) (abstract : OriginalStrings) : Prop where
  length : vm.strings.length = abstract.originals.length
  held : vm.held = abstract.held
  heldString : ∀ reference ∈ abstract.held, reference.string < abstract.originals.length
  stringAt : ∀ (index : Nat) string data, vm.strings[index]? = some string →
    abstract.originals[index]? = some data → StringAt lz4 abstract.held index data string
  counter : vm.uncomressedBufferSize = vm.totalDecompressed

theorem sum_map_set {α : Type*} (f : α → Int) (list : List α) (i : Nat) (x y : α)
    (hx : list[i]? = some x) :
    ((list.set i y).map f).sum = (list.map f).sum - f x + f y := by
  induction list generalizing i with
  | nil => cases hx
  | cons first list ih =>
    cases i with
    | zero =>
      cases hx
      simp only [set_cons_zero, map_cons, sum_cons]
      omega
    | succ i =>
      simp only [set_cons_succ, map_cons, sum_cons, ih i hx]
      omega

variable {lz4 : LZ4} {vm : CompressibleStrings} {abstract : OriginalStrings}

theorem Related.initial (lz4 : LZ4) : Related lz4 initial .initial := by
  refine ⟨rfl, rfl, fun _ h => (not_mem_nil h).elim, fun index string data h => ?_, rfl⟩
  cases h

theorem Related.at_cases (hrelated : Related lz4 vm abstract) (index : Nat) :
    (vm.strings[index]? = none ∧ abstract.originals[index]? = none) ∨
      ∃ string data, vm.strings[index]? = some string ∧ abstract.originals[index]? = some data ∧
        StringAt lz4 abstract.held index data string := by
  have hlength := hrelated.length
  by_cases hindex : index < vm.strings.length
  · right
    have hstring := getElem?_eq_getElem hindex
    have hdata := getElem?_eq_getElem (l := abstract.originals) (i := index) (by omega)
    exact ⟨_, _, hstring, hdata, hrelated.stringAt _ _ _ hstring hdata⟩
  · left
    exact ⟨getElem?_eq_none (by omega), getElem?_eq_none (by omega)⟩

variable {index : Nat} {string after : CompressibleString} {data : StringBufferAccessData}

theorem Related.update (hrelated : Related lz4 vm abstract)
    (hstring : vm.strings[index]? = some string) (hdata : abstract.originals[index]? = some data)
    (hafter : StringAt lz4 abstract.held index data after) :
    Related lz4 (vm.update index after (counterAfter string after vm.uncomressedBufferSize))
      abstract := by
  refine ⟨?_, hrelated.held, hrelated.heldString, fun other string' data' h h' => ?_, ?_⟩
  · exact List.length_set.trans hrelated.length
  · rcases getElem?_set_cases h with ⟨rfl, rfl⟩ | ⟨-, hother⟩
    · cases hdata.symm.trans h'
      exact hafter
    · exact hrelated.stringAt other string' data' hother h'
  · show counterAfter string after vm.uncomressedBufferSize =
      ((vm.strings.set index after).map fun string => (string.decomressedBufferSize : Int)).sum
    rw [sum_map_set _ _ _ _ _ hstring, counterAfter, hrelated.counter, totalDecompressed]

variable {held : List HeldReference}

theorem StringAt.restores (hat : StringAt lz4 held index data string)
    (h : Restores lz4 data string after) :
    StringAt lz4 held index data after :=
  ⟨h.keeps, h.ok, h.refCount.trans hat.refCount, fun reference hmem hindex =>
    ⟨h.isCompressed, h.buffer, fun p hle hlt =>
      h.readable p ((hat.readable reference hmem hindex).2.2 p hle hlt)⟩⟩

theorem StringAt.of_unheld (hat : StringAt lz4 held index data string)
    (hcount : string.refCount = 0) (hkeeps : Keeps data after) (hok : StringOk lz4 data after)
    (hcount' : after.refCount = string.refCount) : StringAt lz4 held index data after := by
  refine ⟨hkeeps, hok, hcount'.trans hat.refCount, fun reference hmem hindex => ?_⟩
  have hzero := hat.refCount.symm.trans hcount
  rw [countP_eq_zero] at hzero
  exact absurd (decide_eq_true hindex) (hzero reference hmem)

theorem stringOk_withRefCount (hok : StringOk lz4 data string) (refCount : Nat) :
    StringOk lz4 data { string with refCount := refCount } := by
  cases hok with
  | plain h1 h2 h3 h4 h5 => exact .plain h1 h2 h3 h4 h5
  | compressed h1 h2 h3 h4 => exact .compressed h1 h2 h3 h4
  | partly buffer h1 h2 h3 h4 h5 => exact .partly buffer h1 h2 h3 h4 h5

theorem StringAt.withHeld {held' : List HeldReference} (hat : StringAt lz4 held index data string)
    (refCount : Nat) (hcount : refCount = held'.countP fun reference => reference.string = index)
    (hreadable : ∀ reference ∈ held', reference.string = index → reference ∈ held ∨
      string.isCompressed = false ∧ string.buffer.isSome = true ∧
      ∀ p, reference.start * data.unitSize ≤ p →
        p < (reference.start + reference.length) * data.unitSize → Readable data string p) :
    StringAt lz4 held' index data { string with refCount := refCount } := by
  refine ⟨⟨hat.keeps.has8BitContent, hat.keeps.length⟩, stringOk_withRefCount hat.ok refCount,
    hcount, fun reference hmem hindex => ?_⟩
  rcases hreadable reference hmem hindex with hheld | hnew
  · exact hat.readable reference hheld hindex
  · exact hnew

theorem StringAt.congrHeld {held' : List HeldReference} (hat : StringAt lz4 held index data string)
    (hcount : (held'.countP fun reference => reference.string = index) =
      held.countP fun reference => reference.string = index)
    (hmem : ∀ reference ∈ held', reference.string = index → reference ∈ held) :
    StringAt lz4 held' index data string :=
  ⟨hat.keeps, hat.ok, hat.refCount.trans hcount.symm, fun reference h hindex =>
    hat.readable reference (hmem reference h hindex) hindex⟩

section

variable (hrelated : Related lz4 vm abstract)
include hrelated

theorem Related.withHeld (held : List HeldReference) (refCount : Nat)
    (hstring : vm.strings[index]? = some string) (hdata : abstract.originals[index]? = some data)
    (hat : StringAt lz4 held index data { string with refCount := refCount })
    (hheld : ∀ reference ∈ held, reference.string < abstract.originals.length)
    (hcount : ∀ other, other ≠ index → (held.countP fun reference => reference.string = other) =
      abstract.held.countP fun reference => reference.string = other)
    (hmem : ∀ reference ∈ held, reference.string ≠ index → reference ∈ abstract.held) :
    Related lz4 { vm with
      strings := vm.strings.set index { string with refCount := refCount }, held := held }
      { abstract with held := held } := by
  refine ⟨List.length_set.trans hrelated.length, rfl, hheld, fun other string' data' h h' => ?_, ?_⟩
  · rcases getElem?_set_cases h with ⟨rfl, rfl⟩ | ⟨hne, hother⟩
    · cases hdata.symm.trans h'
      exact hat
    · apply (hrelated.stringAt other string' data' hother h').congrHeld (hcount other hne)
      intro reference hreference hindex
      exact hmem reference hreference (hindex ▸ hne)
  · show vm.uncomressedBufferSize = ((vm.strings.set index { string with refCount := refCount }).map
      fun string => (string.decomressedBufferSize : Int)).sum
    have hsame : (CompressibleString.decomressedBufferSize { string with refCount := refCount }) =
        string.decomressedBufferSize := rfl
    rw [sum_map_set _ _ _ _ _ hstring, hsame, hrelated.counter, totalDecompressed]
    omega

theorem Related.acquire (start length : Nat) (hstring : vm.strings[index]? = some string)
    (hdata : abstract.originals[index]? = some data)
    (hat : StringAt lz4 abstract.held index data string)
    (hrestores : Restores lz4 data string after)
    (hreadable : ∀ p, start * data.unitSize ≤ p → p < (start + length) * data.unitSize →
      Readable data after p) :
    Related lz4 (vm.acquire index after (counterAfter string after vm.uncomressedBufferSize)
        start length).1 (abstract.access ⟨index, start, length⟩).1 ∧
      (vm.acquire index after (counterAfter string after vm.uncomressedBufferSize)
        start length).2.Meets (abstract.access ⟨index, start, length⟩).2 := by
  have hat' := hat.restores hrestores
  have hrelated' := hrelated.update hstring hdata hat'
  have hindex : index < abstract.originals.length := (List.getElem?_eq_some_iff.mp hdata).1
  constructor
  · have hlt : index < vm.strings.length := (List.getElem?_eq_some_iff.mp hstring).1
    have hafter : (vm.update index after
        (counterAfter string after vm.uncomressedBufferSize)).strings[index]? = some after :=
      getElem?_set_self hlt
    have hheld := hrelated'.withHeld (abstract.held ++ [⟨index, start, length⟩])
      (after.refCount + 1) hafter hdata
      (hat'.withHeld _ (by simp [countP_append, hat'.refCount]) (fun reference hmem _ => by
        rcases List.mem_append.mp hmem with hmem | hmem
        · exact .inl hmem
        · cases List.mem_singleton.mp hmem
          exact .inr ⟨hrestores.isCompressed, hrestores.buffer, hreadable⟩))
      (fun reference hmem => by
        rcases List.mem_append.mp hmem with hmem | hmem
        · exact hrelated.heldString reference hmem
        · cases List.mem_singleton.mp hmem
          exact hindex)
      (fun other hne => by simp [countP_append, Ne.symm hne])
      (fun reference hmem hne => by
        rcases List.mem_append.mp hmem with hmem | hmem
        · exact hmem
        · cases List.mem_singleton.mp hmem
          exact absurd rfl hne)
    rw [CompressibleStrings.update, set_set] at hheld
    rw [CompressibleStrings.acquire, hrelated.held]
    exact hheld
  · show after.readRange start length = some (abstract.unitsOf ⟨index, start, length⟩)
    rw [readRange_of_readable hrestores.keeps hrestores.buffer hreadable,
      OriginalStrings.unitsOf, hdata]

theorem step_create (data : StringBufferAccessData) : Related lz4 { vm with
      strings := vm.strings ++ [.create data]
      uncomressedBufferSize := vm.uncomressedBufferSize +
        (CompressibleString.create data).decomressedBufferSize }
      { abstract with originals := abstract.originals ++ [data] } := by
  refine ⟨?_, hrelated.held, fun reference hmem => ?_, fun index string data' h h' => ?_, ?_⟩
  · simp only [length_append, hrelated.length, length_singleton]
  · have hlt := hrelated.heldString reference hmem
    simp only [length_append, length_singleton]
    omega
  · rcases getElem?_concat_iff.mp h with hold | ⟨rfl, rfl⟩
    · have hlt := (List.getElem?_eq_some_iff.mp hold).1
      rw [hrelated.length] at hlt
      rw [getElem?_append_left hlt] at h'
      exact hrelated.stringAt index string data' hold h'
    · have hnone : ∀ reference ∈ abstract.held, reference.string ≠ vm.strings.length := by
        intro reference hmem heq
        have hlt := hrelated.heldString reference hmem
        rw [heq, hrelated.length] at hlt
        exact Nat.lt_irrefl _ hlt
      rw [hrelated.length, getElem?_concat_length] at h'
      cases h'
      refine ⟨⟨rfl, rfl⟩, .plain rfl rfl rfl rfl rfl, ?_, fun reference hmem heq =>
        absurd heq (hnone reference hmem)⟩
      symm
      apply List.countP_eq_zero.mpr
      intro reference hmem
      simpa using hnone reference hmem
  · rw [totalDecompressed, map_append, sum_append, hrelated.counter, totalDecompressed]
    simp

theorem step_release {reference : Nat} {held : HeldReference}
    (hheld : abstract.held[reference]? = some held)
    (hstring : vm.strings[held.string]? = some string)
    (hdata : abstract.originals[held.string]? = some data)
    (hat : StringAt lz4 abstract.held held.string data string) :
    Related lz4 { vm with
      strings := vm.strings.set held.string { string with refCount := string.refCount - 1 }
      held := abstract.held.eraseIdx reference }
      { abstract with held := abstract.held.eraseIdx reference } := by
  obtain ⟨hlt, hget⟩ := List.getElem?_eq_some_iff.mp hheld
  have hcounts : ∀ other, (abstract.held.countP fun reference => reference.string = other) =
      ((abstract.held.eraseIdx reference).countP fun reference => reference.string = other) +
        if held.string = other then 1 else 0 := by
    intro other
    have hperm := (getElem_cons_eraseIdx_perm hlt).countP_eq
      fun reference : HeldReference => decide (reference.string = other)
    rw [← hperm, countP_cons, hget]
    simp only [decide_eq_true_eq]
  have hsub : ∀ reference' ∈ abstract.held.eraseIdx reference, reference' ∈ abstract.held :=
    fun _ hmem => mem_of_mem_eraseIdx hmem
  refine hrelated.withHeld _ _ hstring hdata (hat.withHeld _ ?_ fun reference' hmem _ =>
    .inl (hsub reference' hmem)) (fun reference' hmem => hrelated.heldString _ (hsub _ hmem))
    (fun other hne => ?_) fun reference' hmem _ => hsub reference' hmem
  · rw [hat.refCount, hcounts held.string, if_pos rfl, Nat.add_sub_cancel]
  · rw [hcounts other, if_neg (Ne.symm hne), Nat.add_zero]

theorem Related.heldAt {reference : Nat} {held : HeldReference}
    (hheld : abstract.held[reference]? = some held) :
    ∃ string data, vm.strings[held.string]? = some string ∧
      abstract.originals[held.string]? = some data ∧
      StringAt lz4 abstract.held held.string data string := by
  rcases hrelated.at_cases held.string with ⟨-, hnone⟩ | h
  · have hlt := hrelated.heldString held (mem_of_getElem? hheld)
    rw [getElem?_eq_getElem hlt] at hnone
    cases hnone
  · exact h

end

theorem step_read {reference : Nat} {held : HeldReference}
    (hheld : abstract.held[reference]? = some held)
    (hdata : abstract.originals[held.string]? = some data)
    (hat : StringAt lz4 abstract.held held.string data string) :
    string.readRange held.start held.length = some (abstract.unitsOf held) := by
  obtain ⟨-, hbuffer, hreadable⟩ := hat.readable held (mem_of_getElem? hheld) rfl
  rw [readRange_of_readable hat.keeps hbuffer hreadable, OriginalStrings.unitsOf, hdata]

variable {succeeds : Nat → Bool}

theorem step_compress (hrelated : Related lz4 vm abstract)
    (hstring : vm.strings[index]? = some string) (hdata : abstract.originals[index]? = some data)
    (hat : StringAt lz4 abstract.held index data string)
    (havoids : ¬ string.FailsPartWay succeeds) :
    ∃ next answer, step lz4 vm (.compress index succeeds) = some (next, answer) ∧
      answer.Meets (.compress (abstract.isHeld index)) ∧ Related lz4 next abstract := by
  have hheld : abstract.isHeld index = true → string.isCompressed = false ∧ string.refCount ≠ 0 := by
    intro hheld
    obtain ⟨reference, hmem, hindex⟩ := List.any_eq_true.mp hheld
    refine ⟨(hat.readable reference hmem (of_decide_eq_true hindex)).1, fun hzero => ?_⟩
    have hzero' := hat.refCount.symm.trans hzero
    exact List.countP_eq_zero.mp hzero' reference hmem hindex
  simp only [step, hstring]
  cases hcompressed : string.isCompressed with
  | true =>
    refine ⟨vm, .invalid, rfl, ?_, hrelated⟩
    show abstract.isHeld index = false
    rw [← Bool.not_eq_true]
    intro h
    exact nomatch hcompressed.symm.trans (hheld h).1
  | false =>
    rcases compress_spec hat.keeps hat.ok hcompressed succeeds vm.uncomressedBufferSize with
      ⟨-, hcompress⟩ | ⟨-, hcount, after, hcompress, hkeeps, hok, hcount'⟩ | ⟨hfails, -⟩
    · rw [hcompress]
      refine ⟨_, _, rfl, fun _ => rfl, ?_⟩
      have hupdate := hrelated.update hstring hdata hat
      rwa [counterAfter_self] at hupdate
    · rw [hcompress]
      refine ⟨_, _, rfl, fun h => absurd hcount (hheld h).2, ?_⟩
      exact hrelated.update hstring hdata (hat.of_unheld hcount hkeeps hok hcount')
    · exact absurd hfails havoids

theorem simulation (hlz4 : lz4.Inverts) :
    GuardedSimulation (step lz4) OriginalStrings.step avoidsPartialFailure (Related lz4)
      CompressibleAnswer.Meets := by
  constructor
  intro vm abstract op hrelated hguard
  cases op with
  | create data => exact ⟨_, _, rfl, trivial, step_create hrelated data⟩
  | compress index succeeds =>
    rcases hrelated.at_cases index with ⟨hstring, hdata⟩ | ⟨string, data, hstring, hdata, hat⟩
    · simp only [step, OriginalStrings.step, hstring, hdata]
      exact ⟨vm, .invalid, rfl, trivial, hrelated⟩
    · simp only [OriginalStrings.step, hdata]
      exact step_compress hrelated hstring hdata hat (hguard string hstring)
  | decompress index =>
    rcases hrelated.at_cases index with ⟨hstring, hdata⟩ | ⟨string, data, hstring, hdata, hat⟩
    · simp only [step, OriginalStrings.step, hstring, hdata]
      exact ⟨vm, .invalid, rfl, trivial, hrelated⟩
    · simp only [step, OriginalStrings.step, hstring, hdata]
      cases hsome : string.hasCompressedData with
      | false => exact ⟨vm, .invalid, rfl, trivial, hrelated⟩
      | true =>
        obtain ⟨after, hworker, hrestores, -⟩ :=
          decompressWorker_spec hlz4 hat.keeps hat.ok hsome vm.uncomressedBufferSize
        rw [if_pos rfl, hworker]
        exact ⟨_, _, rfl, trivial, hrelated.update hstring hdata (hat.restores hrestores)⟩
  | decompressRange index start length =>
    rcases hrelated.at_cases index with ⟨hstring, hdata⟩ | ⟨string, data, hstring, hdata, hat⟩
    · simp only [step, OriginalStrings.step, hstring, hdata]
      exact ⟨vm, .invalid, rfl, trivial, hrelated⟩
    · simp only [step, OriginalStrings.step, hstring, hdata]
      split
      · rename_i hvalid
        obtain ⟨after, hworker, hrestores, -⟩ := decompressRangeWorker_spec hlz4 hat.keeps hat.ok
          hvalid.1 start length vm.uncomressedBufferSize
        rw [hworker]
        exact ⟨_, _, rfl, trivial, hrelated.update hstring hdata (hat.restores hrestores)⟩
      · exact ⟨vm, .invalid, rfl, trivial, hrelated⟩
  | bufferAccessData index =>
    rcases hrelated.at_cases index with ⟨hstring, hdata⟩ | ⟨string, data, hstring, hdata, hat⟩
    · simp only [step, OriginalStrings.step, hstring, hdata]
      exact ⟨vm, .invalid, rfl, trivial, hrelated⟩
    · obtain ⟨after, hensure, hrestores, hreadable⟩ :=
        ensureBuffer_spec hlz4 hat.keeps hat.ok vm.uncomressedBufferSize
      simp only [step, OriginalStrings.step, hstring, hdata, hensure, hat.keeps.length]
      have hacquire := hrelated.acquire 0 data.length hstring hdata hat hrestores
        fun p _ _ => hreadable p
      exact ⟨_, _, rfl, hacquire.2, hacquire.1⟩
  | bufferAccessDataForRange index start length =>
    rcases hrelated.at_cases index with ⟨hstring, hdata⟩ | ⟨string, data, hstring, hdata, hat⟩
    · simp only [step, OriginalStrings.step, hstring, hdata]
      exact ⟨vm, .invalid, rfl, trivial, hrelated⟩
    · simp only [step, OriginalStrings.step, hstring, hdata, hat.keeps.length]
      split
      · obtain ⟨after, hensure, hrestores, hreadable⟩ :=
          ensureRange_spec hlz4 hat.keeps hat.ok start length vm.uncomressedBufferSize
        rw [hensure]
        have hacquire := hrelated.acquire start length hstring hdata hat hrestores hreadable
        exact ⟨_, _, rfl, hacquire.2, hacquire.1⟩
      · exact ⟨vm, .invalid, rfl, trivial, hrelated⟩
  | read reference =>
    simp only [step, OriginalStrings.step, hrelated.held]
    cases hheld : abstract.held[reference]? with
    | none => exact ⟨vm, .invalid, rfl, trivial, hrelated⟩
    | some held =>
      obtain ⟨string, data, hstring, hdata, hat⟩ := hrelated.heldAt hheld
      simp only [hstring]
      exact ⟨vm, _, rfl, step_read hheld hdata hat, hrelated⟩
  | release reference =>
    simp only [step, OriginalStrings.step, hrelated.held]
    cases hheld : abstract.held[reference]? with
    | none => exact ⟨vm, .invalid, rfl, trivial, hrelated⟩
    | some held =>
      obtain ⟨string, data, hstring, hdata, hat⟩ := hrelated.heldAt hheld
      simp only [hstring]
      exact ⟨_, .done, rfl, trivial, step_release hrelated hheld hstring hdata hat⟩

theorem compress_failed_unchanged_iff (hrelated : Related lz4 vm abstract)
    {next : CompressibleStrings}
    (hstep : step lz4 vm (.compress index succeeds) = some (next, .compressed false)) :
    next = vm ↔ vm.avoidsPartialFailure (.compress index succeeds) := by
  rcases hrelated.at_cases index with ⟨hstring, -⟩ | ⟨string, data, hstring, -, hat⟩
  · simp only [step, hstring] at hstep
    cases hstep
  · have havoids : vm.avoidsPartialFailure (.compress index succeeds) ↔
        ¬ string.FailsPartWay succeeds := by
      constructor
      · intro h
        exact h string hstring
      · intro h other hother
        cases hstring.symm.trans hother
        exact h
    rw [havoids]
    simp only [step, hstring] at hstep
    split at hstep
    · cases hstep
    · rename_i hcompressed
      rw [Bool.not_eq_true] at hcompressed
      rcases compress_spec hat.keeps hat.ok hcompressed succeeds vm.uncomressedBufferSize with
        ⟨hnot, hcompress⟩ | ⟨-, -, after, hcompress, -⟩ | ⟨hfails, after, hne, hcompress⟩
      · rw [hcompress] at hstep
        cases hstep
        have hsame : vm.strings.set index string = vm.strings := by
          obtain ⟨hlt, rfl⟩ := List.getElem?_eq_some_iff.mp hstring
          exact set_getElem_self hlt
        refine ⟨fun _ => hnot, fun _ => ?_⟩
        rw [update, hsame]
      · rw [hcompress] at hstep
        cases hstep
      · rw [hcompress] at hstep
        cases hstep
        refine ⟨fun heq => ?_, fun hnot => absurd hfails hnot⟩
        have hstrings : vm.strings.set index after = vm.strings :=
          congrArg CompressibleStrings.strings heq
        have hlt := (List.getElem?_eq_some_iff.mp hstring).1
        rw [← hstrings, getElem?_set_self hlt] at hstring
        exact absurd (Option.some.inj hstring) hne

/-- In every run in which no compression fails part-way, every access answers with the
original code units of its range and no compression succeeds while a reference is held. The
counter is the total size of the decompressed strings, and a failed compression changes
nothing exactly when it does not fail part-way. -/
theorem compressible_strings_round_trip (lz4 : LZ4) (hlz4 : lz4.Inverts) (ops : List CompressibleOp)
    (hguarded : Guarded (step lz4) avoidsPartialFailure ops CompressibleStrings.initial) :
    ∃ vm answers, run (step lz4) ops CompressibleStrings.initial = some (vm, answers) ∧
      List.Forall₂ CompressibleAnswer.Meets answers
        (referenceRun OriginalStrings.step ops OriginalStrings.initial).2 ∧
      vm.uncomressedBufferSize = vm.totalDecompressed ∧
      ∀ index succeeds next,
        step lz4 vm (.compress index succeeds) = some (next, .compressed false) →
        (next = vm ↔ vm.avoidsPartialFailure (.compress index succeeds)) := by
  obtain ⟨vm, answers, hrun, hanswers, hrelated⟩ :=
    (simulation hlz4).run_related ops (Related.initial lz4) hguarded
  exact ⟨vm, answers, hrun, hanswers, hrelated.counter, fun _ _ _ hstep =>
    compress_failed_unchanged_iff hrelated hstep⟩

instance (vm : CompressibleStrings) (op : CompressibleOp) :
    Decidable (vm.avoidsPartialFailure op) :=
  match op with
  | .compress index succeeds =>
    match hstring : vm.strings[index]? with
    | none => isTrue fun _ h => nomatch hstring.symm.trans h
    | some string =>
      decidable_of_iff (¬ string.FailsPartWay succeeds)
        ⟨fun h _ hother => Option.some.inj (hstring.symm.trans hother) ▸ h,
          fun h => h string hstring⟩
  | .create _ => isTrue trivial
  | .decompress _ => isTrue trivial
  | .decompressRange _ _ _ => isTrue trivial
  | .bufferAccessData _ => isTrue trivial
  | .bufferAccessDataForRange _ _ _ => isTrue trivial
  | .read _ => isTrue trivial
  | .release _ => isTrue trivial

/-- A codec that stores blocks as they are and stops writing where the room ends. -/
def stored : LZ4 where
  compress block := block
  decompress data room := some (data.take room)

theorem stored_inverts : stored.Inverts := fun block _ =>
  congrArg some (take_of_length_le (Nat.le_refl block.length))

/-- A string that is held, released, compressed, and read again. -/
def heldThenCompressed : List CompressibleOp :=
  [.create (.bufferAs16Bit [0x61, 0xAC00, 0x62]), .bufferAccessData 0,
    .compress 0 (fun _ => true), .read 0, .release 0, .compress 0 (fun _ => false),
    .compress 0 (fun _ => true), .bufferAccessDataForRange 0 1 2, .decompress 0, .read 0]

theorem heldThenCompressed_round_trips : stored.Inverts ∧
      Guarded (step stored) avoidsPartialFailure heldThenCompressed CompressibleStrings.initial ∧
      ∃ vm answers, run (step stored) heldThenCompressed CompressibleStrings.initial =
          some (vm, answers) ∧
        List.Forall₂ CompressibleAnswer.Meets answers
          (referenceRun OriginalStrings.step heldThenCompressed OriginalStrings.initial).2 ∧
        vm.uncomressedBufferSize = vm.totalDecompressed ∧
        ∀ index succeeds next,
          step stored vm (.compress index succeeds) = some (next, .compressed false) →
          (next = vm ↔ vm.avoidsPartialFailure (.compress index succeeds)) := by
  have hguarded : Guarded (step stored) avoidsPartialFailure heldThenCompressed
      CompressibleStrings.initial := by
    decide +kernel
  exact ⟨stored_inverts, hguarded,
    compressible_strings_round_trip stored stored_inverts heldThenCompressed hguarded⟩

/-- A compression that fails on the second chunk, another one that does not, and a read of
the first byte of the second chunk. -/
def failedThenRetried (bytes : List UInt8) : List CompressibleOp :=
  [.create (.bufferAs8Bit bytes), .compress 0 (fun i => i = 0), .compress 0 (fun _ => true),
    .bufferAccessDataForRange 0 65536 1]

/-- The string after the failure and the retry: the first chunk is there twice. -/
def retriedString (bytes : List UInt8) : CompressibleString where
  has8BitContent := true
  length := bytes.length
  buffer := none
  isCompressed := true
  isPartiallyDecompressed := false
  refCount := 0
  compressedData := [chunk bytes 0, chunk bytes 0, chunk bytes 1]
  isChunkDecompressed := []

theorem compressLoop_two (lz4 : LZ4) (bytes : List UInt8) (succeeds : Nat → Bool)
    (compressedData : List (List UInt8)) (hzero : succeeds 0 = true) :
    compressLoop lz4 succeeds (bytes.map some) 65537 2 0 compressedData =
      if succeeds 1 then (true, compressedData ++ [lz4.compress (chunk bytes 0)] ++
        [lz4.compress (chunk bytes 1)])
      else (false, compressedData ++ [lz4.compress (chunk bytes 0)]) := by
  have hfirst : 0 * compressChunkSize < 65537 := by decide
  have hsecond : (0 + 1) * compressChunkSize < 65537 := by decide
  simp only [compressLoop, if_pos hfirst, if_pos hsecond, hzero, if_true, map_getD_chunk]

theorem compress_two {bytes : List UInt8} (hbuffer : string.buffer = some (bytes.map some))
    (hlength : string.byteLength = 65537) (hpartly : string.isPartiallyDecompressed = false)
    (hcount : string.refCount = 0) (lz4 : LZ4) (succeeds : Nat → Bool) (hzero : succeeds 0 = true)
    (counter : Int) :
    string.compress lz4 succeeds counter = if succeeds 1 then
        ({ string with
            compressedData := string.compressedData ++ [lz4.compress (chunk bytes 0)] ++
              [lz4.compress (chunk bytes 1)]
            buffer := none
            isCompressed := true }, counter - string.decomressedBufferSize, true)
      else
        ({ string with compressedData := string.compressedData ++ [lz4.compress (chunk bytes 0)] },
          counter, false) := by
  have hne : ¬ (string.length = 0 ∨ 0 < string.refCount) := by
    rintro (h | h)
    · rw [byteLength, h, Nat.zero_mul] at hlength
      cases hlength
    · omega
  have htwo : chunkCount 65537 = 2 := by decide
  have hnot : ¬ string.isPartiallyDecompressed = true := by
    rw [hpartly]
    exact Bool.false_ne_true
  rw [compress, if_neg hne, compressWorker, if_neg hnot, hlength, htwo, hbuffer, getD_some,
    compressLoop_two _ _ _ _ hzero]
  cases succeeds 1 <;> rfl

theorem read_write {buffer after : ByteBuffer} {block : List UInt8}
    (hwrite : buffer.write index block = some after) :
    after.read index block.length = some block := by
  rw [ByteBuffer.write] at hwrite
  split at hwrite
  · rename_i hroom
    cases hwrite
    have hhead : (buffer.take index).length = index := by
      rw [length_take]
      omega
    rw [ByteBuffer.read, append_assoc, drop_append_of_le_length (by omega),
      drop_of_length_le (by omega), nil_append, take_append_of_le_length (by simp),
      take_of_length_le (by simp)]
    exact ByteBuffer.mapM_id_map_some block
  · cases hwrite

/-- Reading the first byte of the second chunk decompresses the data of the first one. -/
theorem decompressRangeWorker_retried {bytes : List UInt8} (hlength : bytes.length = 65537)
    (counter : Int) :
    ∃ after counter', (retriedString bytes).decompressRangeWorker stored 65536 1 counter =
        some (after, counter') ∧
      after.readRange 65536 1 = some ((bytes.take 1).map UInt8.toUInt16) := by
  have hbytes : (retriedString bytes).byteLength = 65537 := by
    show bytes.length * 1 = 65537
    omega
  have hchunks : (retriedString bytes).rangeChunks 65536 1 = [1] := by
    simp [rangeChunks, retriedString, unitSize, compressChunkSize]
  have hstart : (retriedString bytes).startMemory = (.allocate 65537, [false, false, false]) := by
    rw [startMemory, hbytes]
    rfl
  have hblock : (chunk bytes 0).take 1 = bytes.take 1 := by
    rw [chunk, Nat.zero_mul, drop_zero, take_take]
    rfl
  have hone : (bytes.take 1).length = 1 := by
    rw [length_take, hlength]
    rfl
  obtain ⟨buffer, hwrite⟩ : ∃ buffer,
      (ByteBuffer.allocate 65537).write (1 * compressChunkSize) (bytes.take 1) = some buffer := by
    refine ⟨_, if_pos ?_⟩
    rw [hone, ByteBuffer.allocate, length_replicate]
    decide
  have hchunk : decompressChunk stored 65537 (retriedString bytes).compressedData
      (.allocate 65537, [false, false, false]) 1 = some (buffer, [false, true, false]) := by
    show Option.map _ ((ByteBuffer.allocate 65537).write (1 * compressChunkSize)
      ((chunk bytes 0).take 1)) = _
    rw [hblock, hwrite]
    rfl
  let after : CompressibleString := { retriedString bytes with
    buffer := some buffer
    isChunkDecompressed := [false, true, false]
    isPartiallyDecompressed := true
    isCompressed := false }
  refine ⟨after, counter + after.decomressedBufferSize, ?_, ?_⟩
  · rw [decompressRangeWorker, hchunks, hbytes, hstart, foldlM_cons, hchunk]
    rfl
  · have hread := read_write hwrite
    rw [hone] at hread
    show (ByteBuffer.read buffer (1 * compressChunkSize) 1).map (unitsOfBytes true) = _
    rw [hread, map_some, StringBufferAccessData.unitsOfBytes_true]

theorem step_compress_eq {vm : CompressibleStrings} {counter : Int} {success : Bool}
    (hstring : vm.strings[index]? = some string) (hcompressed : string.isCompressed = false)
    (hcompress : string.compress lz4 succeeds vm.uncomressedBufferSize =
      (after, counter, success)) :
    step lz4 vm (.compress index succeeds) =
      some (vm.update index after counter, .compressed success) := by
  simp only [step, hstring, hcompressed, if_neg Bool.false_ne_true, hcompress]

/-- After a failure and a retry an access answers with a unit of another chunk. -/
theorem run_failedThenRetried {bytes : List UInt8} (hlength : bytes.length = 65537) :
    ∃ vm, run (step stored) (failedThenRetried bytes) CompressibleStrings.initial =
      some (vm, [.done, .compressed false, .compressed true,
        .units (some ((bytes.take 1).map UInt8.toUInt16))]) := by
  let created := CompressibleString.create (.bufferAs8Bit bytes)
  let failed : CompressibleString := { created with compressedData := [chunk bytes 0] }
  have hbytes : created.byteLength = 65537 := by
    show bytes.length * 1 = 65537
    omega
  have hfailed : ∀ counter, created.compress stored (fun i => i = 0) counter =
      (failed, counter, false) := fun counter =>
    compress_two rfl hbytes rfl rfl stored _ rfl counter
  have hbytes' : failed.byteLength = 65537 := hbytes
  have hretried : ∀ counter, failed.compress stored (fun _ => true) counter =
      (retriedString bytes, counter - failed.decomressedBufferSize, true) := fun counter =>
    compress_two rfl hbytes' rfl rfl stored _ rfl counter
  obtain ⟨after, counter, hworker, hread⟩ := decompressRangeWorker_retried hlength
    (0 + created.decomressedBufferSize - failed.decomressedBufferSize)
  -- the states between the operations
  let vm₁ : CompressibleStrings := ⟨[created], 0 + created.decomressedBufferSize, []⟩
  let vm₂ : CompressibleStrings := { vm₁ with strings := [failed] }
  let vm₃ : CompressibleStrings := ⟨[retriedString bytes],
    0 + created.decomressedBufferSize - failed.decomressedBufferSize, []⟩
  have hstep₁ : step stored .initial (.create (.bufferAs8Bit bytes)) = some (vm₁, .done) := rfl
  have hstep₂ : step stored vm₁ (.compress 0 (fun i => i = 0)) =
      some (vm₂, .compressed false) := step_compress_eq rfl rfl (hfailed _)
  have hstep₃ : step stored vm₂ (.compress 0 (fun _ => true)) = some (vm₃, .compressed true) :=
    step_compress_eq rfl rfl (hretried _)
  have hstep₄ : step stored vm₃ (.bufferAccessDataForRange 0 65536 1) =
      some ((vm₃.acquire 0 after counter 65536 1).1,
        .units (some ((bytes.take 1).map UInt8.toUInt16))) := by
    have hfits : 65536 + 1 ≤ (retriedString bytes).length := Nat.le_of_eq hlength.symm
    have hensure : (retriedString bytes).ensureRange stored 65536 1 vm₃.uncomressedBufferSize =
        some (after, counter) := hworker
    have hget : vm₃.strings[0]? = some (retriedString bytes) := rfl
    simp only [step, hget, if_pos hfits, hensure, map_some, acquire, hread]
  refine ⟨(vm₃.acquire 0 after counter 65536 1).1, ?_⟩
  rw [failedThenRetried, run_cons_of_step hstep₁, run_cons_of_step hstep₂, run_cons_of_step hstep₃,
    run_cons_of_step hstep₄]
  rfl

theorem expected_failedThenRetried {bytes : List UInt8} (hlength : bytes.length = 65537) :
    (referenceRun OriginalStrings.step (failedThenRetried bytes) OriginalStrings.initial).2 =
      [.done, .compress false, .compress false,
        .units (((bytes.map UInt8.toUInt16).drop 65536).take 1)] := by
  have hfits : 65536 + 1 ≤ (StringBufferAccessData.bufferAs8Bit bytes).length :=
    Nat.le_of_eq hlength.symm
  have haccess : ∀ held, OriginalStrings.step ⟨[.bufferAs8Bit bytes], held⟩
      (.bufferAccessDataForRange 0 65536 1) =
        OriginalStrings.access ⟨[.bufferAs8Bit bytes], held⟩ ⟨0, 65536, 1⟩ := fun _ => if_pos hfits
  show [ExpectedAnswer.done, .compress false, .compress false, (OriginalStrings.step
    ⟨[.bufferAs8Bit bytes], []⟩ (.bufferAccessDataForRange 0 65536 1)).2] = _
  rw [haccess]
  rfl

/-- The failing run on a string of the letter a with a b at its end: the b is read as an a. -/
theorem failedThenRetried_reads_other_unit :
    stored.Inverts ∧ ∃ vm, run (step stored) (failedThenRetried (List.replicate 65536 97 ++ [98]))
          CompressibleStrings.initial =
        some (vm, [.done, .compressed false, .compressed true, .units (some [97])]) ∧
      ¬ List.Forall₂ CompressibleAnswer.Meets
        [.done, .compressed false, .compressed true, .units (some [97])]
        (referenceRun OriginalStrings.step
          (failedThenRetried (List.replicate 65536 97 ++ [98])) OriginalStrings.initial).2 := by
  have hlength : (List.replicate 65536 (97 : UInt8) ++ [98]).length = 65537 := by
    rw [length_append, length_replicate, length_singleton]
  have hfirst : (List.replicate 65536 (97 : UInt8) ++ [98]).take 1 = [97] := by
    rw [take_append_of_le_length (by rw [length_replicate]; decide), take_replicate]
    rfl
  have hlast : (((List.replicate 65536 (97 : UInt8) ++ [98]).map
      UInt8.toUInt16).drop 65536).take 1 = [98] := by
    have hreplicate : (List.replicate 65536 (UInt8.toUInt16 97)).length = 65536 := length_replicate
    rw [map_append, map_replicate, drop_append_of_le_length
      (Nat.le_of_eq hreplicate.symm), drop_of_length_le (Nat.le_of_eq hreplicate)]
    rfl
  obtain ⟨vm, hrun⟩ := run_failedThenRetried hlength
  refine ⟨stored_inverts, vm, hrun, fun hmeets => ?_⟩
  rw [expected_failedThenRetried hlength, hlast] at hmeets
  cases hmeets with
  | cons _ hmeets =>
    cases hmeets with
    | cons _ hmeets =>
      cases hmeets with
      | cons _ hmeets =>
        cases hmeets with
        | cons hunits _ =>
          have hequal : some [97] = some [(98 : UInt16)] := hunits
          cases hequal

end CompressibleStrings

end Escargot.Runtime
