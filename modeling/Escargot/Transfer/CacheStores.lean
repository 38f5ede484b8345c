/-
# What the code cache stores

The puts of `storeByteCodeBlock` and of the functions it uses, each under its reservation.
With those of `storeInterpretedCodeBlock` and `storeStringTable` this gives when all puts find
room: two reservations are too small, those of a byte code block and of the identifiers of a
`BlockInfo`.
-/

import Escargot.CodeCache.RoundTrip
import Escargot.Transfer.BufferSpace

namespace Escargot.CodeCache

open List Foundation

structure JumpFlowRecord where
  wordValue : UInt64
  count : UInt64
  outerLimitCount : UInt64

inductive LiteralString
  | latin1 (characters8 : List UInt8)
  | utf16 (characters16 : List UInt16)

/-- The `bf_t` of a BigInt. -/
structure BigIntData where
  sign : UInt32
  expn : UInt64
  tab : List UInt64

inductive ByteCodeRelocType
  | invalid
  | string
  | atomicString
  | bigInt
  | codeBlock
  | blockInfo
  | freezeFunc

inductive RelocData
  | position (dataOffset : UInt64)
  | name (name : Name)

structure ByteCodeRelocInfo where
  relocType : ByteCodeRelocType
  codeOffset : UInt64
  dataOffset : RelocData

structure ByteCodeBlock where
  shouldClearStack : Bool
  isOwnerMayFreed : Bool
  needsExtendedExecutionState : Bool
  requiredOperandRegisterNumber : UInt16
  requiredTotalRegisterNumber : UInt16
  numeralLiteralData : List UInt64
  jumpFlowRecordData : List JumpFlowRecord
  stringLiteralData : List LiteralString
  otherLiteralData : List BigIntData
  code : List UInt8
  relocInfoVector : List ByteCodeRelocInfo

/-- `CacheBuffer::putData`, for elements of a size. -/
def putData {α : Type} (sizeofType : Nat) (put : α → List Item) (data : List α) :
    Reservation UInt8 Name where
  size := sizeofSize + data.length * sizeofType
  puts := putSize data.length :: data.flatMap put

def putChar8 (unit : UInt8) : List Item := [.bytes [unit]]

variable (unit : UInt16)

def putChar16 : List Item := [putUInt16 unit]

def putString : LiteralString → List (Reservation UInt8 Name)
  | .latin1 characters8 => [{ size := 1, puts := [putBool true] }, putData 1 putChar8 characters8]
  | .utf16 characters16 =>
    [{ size := 1, puts := [putBool false] }, putData 2 putChar16 characters16]

def putLimb (limb : UInt64) : List Item := [putSize limb.toNat]

def putBF (bf : BigIntData) : List (Reservation UInt8 Name) :=
  [{ size := 4 + sizeofSize
     puts := [.bytes (littleEndian 4 bf.sign.toNat), putSize bf.expn.toNat] },
   putData sizeofSize putLimb bf.tab]

variable (record : JumpFlowRecord)

def putJumpFlowRecord : List Item :=
  [putSize record.wordValue.toNat, putSize record.count.toNat, putSize record.outerLimitCount.toNat]

def ByteCodeRelocType.toNat : ByteCodeRelocType → Nat
  | invalid => 0
  | string => 1
  | atomicString => 2
  | bigInt => 3
  | codeBlock => 4
  | blockInfo => 5
  | freezeFunc => 6

def putRelocData : RelocData → Item
  | .position dataOffset => putSize dataOffset.toNat
  | .name name => putName name

/-- The type is padded to a word. -/
def putRelocInfo (info : ByteCodeRelocInfo) : List Item :=
  [putSize info.relocType.toNat, putSize info.codeOffset.toNat, putRelocData info.dataOffset]

variable (block : ByteCodeBlock)

/-- `CodeCacheWriter::storeByteCodeStream`. The code is put before it is searched for
relocations, and the names of these are added to the string table in their order. -/
def storeByteCodeStream : List (Reservation UInt8 Name) :=
  [putData 1 putChar8 block.code, putData 24 putRelocInfo block.relocInfoVector]

/-- `CodeCacheWriter::storeByteCodeBlock`. The first reservation counts two booleans, and three are
put. -/
def storeByteCodeBlock : List (Reservation UInt8 Name) :=
  [{ size := 2 * 1 + 2 * 2
     puts := [putBool block.shouldClearStack, putBool block.isOwnerMayFreed,
       putBool block.needsExtendedExecutionState,
       putUInt16 block.requiredOperandRegisterNumber,
       putUInt16 block.requiredTotalRegisterNumber] },
   putData 8 putLimb block.numeralLiteralData,
   putData 24 putJumpFlowRecord block.jumpFlowRecordData,
   { size := sizeofSize, puts := [putSize block.stringLiteralData.length] }] ++
  block.stringLiteralData.flatMap putString ++
  [{ size := sizeofSize, puts := [putSize block.otherLiteralData.length] }] ++
  block.otherLiteralData.flatMap putBF ++
  storeByteCodeStream block

theorem covered_putData {α : Type} {sizeofType : Nat} {put : α → List Item}
    (hput : ∀ x, totalSize format (put x) = sizeofType) (data : List α) :
    Covered (putData sizeofType put data) := by
  rw [Covered, putData, totalSize_cons, totalSize_flatMap data hput, size_putSize, sizeofSize]

theorem totalSize_putChar8 (unit : UInt8) : totalSize format (putChar8 unit) = 1 := rfl

theorem totalSize_putChar16 : totalSize format (putChar16 unit) = 2 := rfl

theorem totalSize_putLimb (limb : UInt64) : totalSize format (putLimb limb) = 8 := rfl

theorem totalSize_putJumpFlowRecord : totalSize format (putJumpFlowRecord record) = 24 := rfl

theorem totalSize_putRelocInfo (info : ByteCodeRelocInfo) :
    totalSize format (putRelocInfo info) = 24 := by
  obtain ⟨relocType, codeOffset, dataOffset⟩ := info
  cases dataOffset with
  | position => rfl
  | name => rfl

theorem covered_putString (string : LiteralString) : ∀ r ∈ putString string, Covered r := by
  intro r hr
  cases string with
  | latin1 characters8 =>
    rcases List.mem_cons.mp hr with rfl | hr
    · exact Nat.le_refl 1
    · rw [List.mem_singleton.mp hr]
      exact covered_putData totalSize_putChar8 characters8
  | utf16 characters16 =>
    rcases List.mem_cons.mp hr with rfl | hr
    · exact Nat.le_refl 1
    · rw [List.mem_singleton.mp hr]
      exact covered_putData totalSize_putChar16 characters16

theorem covered_putBF (bf : BigIntData) : ∀ r ∈ putBF bf, Covered r := by
  intro r hr
  rcases List.mem_cons.mp hr with rfl | hr
  · exact Nat.le_refl 12
  · rw [List.mem_singleton.mp hr]
    exact covered_putData totalSize_putLimb bf.tab

theorem covered_storeByteCodeStream : ∀ r ∈ storeByteCodeStream block, Covered r := by
  intro r hr
  rcases List.mem_cons.mp hr with rfl | hr
  · exact covered_putData totalSize_putChar8 block.code
  · rw [List.mem_singleton.mp hr]
    exact covered_putData totalSize_putRelocInfo block.relocInfoVector

/-- Reservations that cover their puts leave room for them in any buffer. -/
theorem writeAll_of_covered {program : List (Reservation UInt8 Name)}
    (h : ∀ r ∈ program, Covered r) (s : Sink UInt8 Name) :
    (s.writeAll format program).isSome = true := by
  apply (Sink.writeAll_isSome_iff program s).mpr
  apply Fits.of_le le_reservedCapacity _ s.bounded
  intro d hd
  obtain ⟨r, hr, rfl⟩ := List.mem_map.mp hd
  exact h r hr

/-- `ComputeReservedCapacityFunctionWithLog2<200>` doubles at least. -/
theorem two_mul_le_reservedCapacity (n : Nat) : 2 * n ≤ reservedCapacity n := by
  rw [reservedCapacity]
  split_ifs with hzero
  · omega
  · have hlt : n < 2 ^ (n.log2 + 1) := Nat.lt_log2_self
    omega

variable (linked : LinkedBlock) (s : Sink UInt8 Name)

def spaceOf : Space where
  index := s.written.length
  capacity := s.capacity

variable (info : BlockInfo)

def BlockInfo.identifiersDemand : Nat × Nat :=
  let n := info.identifiers.elements.length
  (8 + n * 18, 8 + n * 19)

/-- What storing a code block reserves and writes before its block infos. -/
def LinkedBlock.headDemands : List (Nat × Nat) :=
  let childCount := linked.children.length
  let parameterSize := linked.block.parameterNames.elements.length
  let identifierSize := linked.block.identifierInfos.elements.length
  [(33, 33), (childCount * 8, childCount * 8), ((parameterSize + 1) * 8, (parameterSize + 1) * 8),
    (8 + identifierSize * 21, 8 + identifierSize * 21), (8, 8)]

variable (codeBlock : CodeBlock)

/-- What it reserves and writes after them. -/
def CodeBlock.tailDemands : List (Nat × Nat) :=
  [(8, 8), (24, 24), (2, 2), (10, 10), (4, 4), (31, 31)] ++
  (codeBlock.rareData.map RareData.demands).getD []

/-- What it reserves and writes before the identifiers of a `BlockInfo` behind others. -/
def LinkedBlock.demandsBefore (before : List BlockInfo) : List (Nat × Nat) :=
  linked.headDemands ++ (before.flatMap BlockInfo.demands ++ [(8, 7)])

/-- Where the identifiers of each `BlockInfo` are stored, the room does not end between what is
reserved for them and what is written. -/
def LinkedBlock.IdentifiersFit (s : Space) : Prop :=
  ∀ before info rest, linked.block.blockInfos.elements = before ++ info :: rest →
    ¬(s.after reservedCapacity (linked.demandsBefore before)).FallsShort info.identifiersDemand

theorem BlockInfo.demands_eq : info.demands = [(8, 7)] ++ [info.identifiersDemand] := rfl

theorem BlockInfo.identifiersDemand_le :
    info.identifiersDemand.2 ≤ 2 * info.identifiersDemand.1 := by
  rw [identifiersDemand]
  omega

theorem fits_blockInfos (infos : List BlockInfo) {s : Space} (hs : s.index ≤ s.capacity) :
    Fits reservedCapacity s.index s.capacity (infos.flatMap BlockInfo.demands) ↔
      ∀ before info rest, infos = before ++ info :: rest →
        ¬(s.after reservedCapacity (before.flatMap BlockInfo.demands ++ [(8, 7)])).FallsShort
          info.identifiersDemand := by
  induction infos generalizing s with
  | nil =>
    refine iff_of_true trivial fun before info rest h => ?_
    exact absurd h.symm (append_ne_nil_of_right_ne_nil before (cons_ne_nil info rest))
  | cons first infos ih =>
    have hhead : Fits reservedCapacity s.index s.capacity [(8, 7)] := by
      refine Fits.of_le le_reservedCapacity (fun d hd => ?_) hs
      rw [List.mem_singleton.mp hd]
      decide
    have hfirst : Fits reservedCapacity s.index s.capacity first.demands ↔
        ¬(s.after reservedCapacity [(8, 7)]).FallsShort first.identifiersDemand := by
      rw [BlockInfo.demands_eq, Space.fits_append, and_iff_right hhead]
      exact Space.fits_one_iff two_mul_le_reservedCapacity (Space.after_bounded hs hhead)
        first.identifiersDemand_le
    have hbehind : ∀ before : List BlockInfo,
        s.after reservedCapacity ((first :: before).flatMap BlockInfo.demands ++ [(8, 7)]) =
          (s.after reservedCapacity first.demands).after reservedCapacity
            (before.flatMap BlockInfo.demands ++ [(8, 7)]) := by
      intro before
      rw [flatMap_cons, append_assoc, Space.after_append]
    rw [flatMap_cons, Space.fits_append]
    constructor
    · rintro ⟨hfits, hrest⟩ before info rest heq
      cases before with
      | nil =>
        obtain ⟨rfl, rfl⟩ := List.cons.inj heq
        exact hfirst.mp hfits
      | cons other before =>
        obtain ⟨rfl, htail⟩ := List.cons.inj heq
        exact (ih (Space.after_bounded hs hfits)).mp hrest before info rest htail
    · intro h
      have hfits := hfirst.mpr (h [] first infos rfl)
      refine ⟨hfits, (ih (Space.after_bounded hs hfits)).mpr fun before info rest htail => ?_⟩
      exact h (first :: before) info rest (congrArg (first :: ·) htail)

theorem LinkedBlock.demands_eq : linked.block.demands linked.children.length =
      linked.headDemands ++ linked.block.blockInfos.elements.flatMap BlockInfo.demands ++
        linked.block.tailDemands := by
  rw [CodeBlock.demands, CodeBlock.tailDemands, ← append_assoc]
  rfl

theorem LinkedBlock.headDemands_le : ∀ d ∈ linked.headDemands, d.2 ≤ d.1 := by
  intro d hd
  simp only [headDemands, mem_cons, not_mem_nil, or_false] at hd
  rcases hd with rfl | rfl | rfl | rfl | rfl
  all_goals exact Nat.le_refl _

theorem CodeBlock.tailDemands_le : ∀ d ∈ codeBlock.tailDemands, d.2 ≤ d.1 := by
  intro d hd
  rcases List.mem_append.mp hd with hd | hd
  · simp only [mem_cons, not_mem_nil, or_false] at hd
    rcases hd with rfl | rfl | rfl | rfl | rfl | rfl
    all_goals exact Nat.le_refl _
  · cases hrare : codeBlock.rareData with
    | none =>
      rw [hrare] at hd
      cases hd
    | some rare =>
      rw [hrare, Option.map_some, Option.getD_some, RareData.demands] at hd
      simp only [mem_cons, not_mem_nil, or_false] at hd
      rcases hd with rfl | rfl
      all_goals exact Nat.le_refl _

theorem storeInterpretedCodeBlock_iff :
    (s.writeAll format (storeInterpretedCodeBlock linked)).isSome = true ↔
      linked.IdentifiersFit (spaceOf s) := by
  have hhead : Fits reservedCapacity (spaceOf s).index (spaceOf s).capacity linked.headDemands :=
    Fits.of_le le_reservedCapacity linked.headDemands_le s.bounded
  have hblocks := fits_blockInfos linked.block.blockInfos.elements
    (Space.after_bounded s.bounded hhead)
  rw [Sink.writeAll_isSome_iff, demands_storeInterpretedCodeBlock, linked.demands_eq]
  show Fits reservedCapacity (spaceOf s).index (spaceOf s).capacity _ ↔ _
  rw [Space.fits_append, Space.fits_append, and_iff_right hhead, Space.after_append, hblocks]
  refine and_iff_left_of_imp fun hfits => ?_
  refine Fits.of_le le_reservedCapacity linked.block.tailDemands_le ?_
  exact Space.after_bounded (Space.after_bounded s.bounded hhead) (hblocks.mpr hfits)

/-- A byte code block is stored with room for all puts unless exactly the room is left that is
reserved at first. -/
theorem storeByteCodeBlock_iff (s : Sink UInt8 Name) :
    (s.writeAll format (storeByteCodeBlock block)).isSome = true ↔
      s.capacity ≠ s.written.length + 6 := by
  have hrest : ∀ r ∈ (storeByteCodeBlock block).tail, Covered r := by
    intro r hr
    simp only [storeByteCodeBlock, append_assoc, cons_append, nil_append,
      tail_cons, mem_cons, mem_append, mem_flatMap] at hr
    rcases hr with rfl | rfl | rfl | ⟨string, -, hr⟩ | rfl | ⟨bf, -, hr⟩ | hr
    · exact covered_putData totalSize_putLimb block.numeralLiteralData
    · exact covered_putData totalSize_putJumpFlowRecord block.jumpFlowRecordData
    · exact Nat.le_refl 8
    · exact covered_putString string r hr
    · exact Nat.le_refl 8
    · exact covered_putBF bf r hr
    · exact covered_storeByteCodeStream block r hr
  have hdemands : demands format (storeByteCodeBlock block) =
      (6, 7) :: demands format (storeByteCodeBlock block).tail := rfl
  have hcovered : ∀ d ∈ demands format (storeByteCodeBlock block).tail, d.2 ≤ d.1 := by
    intro d hd
    obtain ⟨r, hr, rfl⟩ := List.mem_map.mp hd
    exact hrest r hr
  have hiff := @Space.fits_cons_iff reservedCapacity (spaceOf s) two_mul_le_reservedCapacity
    s.bounded (6, 7) (by decide) _ hcovered
  rw [Sink.writeAll_isSome_iff, hdemands]
  refine hiff.trans ?_
  rw [Space.FallsShort, spaceOf]
  dsimp only
  omega

/-- Which of the stores find room for all their puts in a buffer. -/
structure Reserved (s : Sink UInt8 Name) : Prop where
  codeBlock : ∀ linked : LinkedBlock,
    (s.writeAll format (storeInterpretedCodeBlock linked)).isSome = true ↔
      linked.IdentifiersFit (spaceOf s)
  byteCodeBlock : ∀ block : ByteCodeBlock,
    (s.writeAll format (storeByteCodeBlock block)).isSome = true ↔ s.capacity ≠ s.written.length + 6
  stringTable : ∀ (storage : StringStorage) (table : List Name),
    (s.writeAll format (storeStringTable storage table)).isSome = true
  string : ∀ string : LiteralString, (s.writeAll format (putString string)).isSome = true
  bigInt : ∀ bf : BigIntData, (s.writeAll format (putBF bf)).isSome = true

/-- No store outgrows its reserved room. -/
theorem reserved : Reserved s where
  codeBlock linked := storeInterpretedCodeBlock_iff linked s
  byteCodeBlock block := storeByteCodeBlock_iff block s
  stringTable storage table := writeAll_of_covered (covered_storeStringTable storage table) s
  string string := writeAll_of_covered (covered_putString string) s
  bigInt bf := writeAll_of_covered (covered_putBF bf) s

theorem oneUnit_le : [unit].length ≤ stringMaximumLength := by
  show 1 ≤ stringMaximumLength
  decide

/-- The variable of a `let` declaration, its name being one unit. -/
def letVariable : BlockIdentifierInfo :=
  ⟨true, true, false, 0, ⟨[unit], oneUnit_le unit⟩⟩

theorem length_letVariables :
    [letVariable 97, letVariable 98, letVariable 99].length < 2 ^ 64 := by decide

/-- The block of `let a, b, c`. -/
def letScope : BlockInfo :=
  ⟨true, true, false, 65535, 0,
    ⟨[letVariable 97, letVariable 98, letVariable 99], length_letVariables⟩⟩

theorem length_letScope : [letScope].length < 2 ^ 24 := by decide

/-- The code block of `let a, b, c`. -/
def letBlock : LinkedBlock where
  block := { StoredScript.plainBlock 0 11 ⟨1, 1, 0⟩ [] with
    blockInfos := ⟨[letScope], length_letScope⟩ }
  parent := none
  children := []

/-- Its identifiers do not find room in a buffer that was empty. -/
theorem let_finds_no_room : ¬∀ (linked : LinkedBlock) (s : Sink UInt8 Name),
    (s.writeAll format (storeInterpretedCodeBlock linked)).isSome = true := by
  intro hroom
  have hfit := (storeInterpretedCodeBlock_iff letBlock (StoredScript.emptyBuffer [])).mp
    (hroom letBlock (StoredScript.emptyBuffer []))
  refine hfit [] letScope [] rfl ⟨?_, ?_⟩
  · decide
  · decide

end Escargot.CodeCache
