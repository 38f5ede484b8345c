/-
# Code blocks in the code cache

The part of `InterpretedCodeBlock` that parsing determines, the sequence of puts
by which `CodeCacheWriter` stores it, and the sequence of gets by which
`CodeCacheReader` loads it. Sizes are those of a 64-bit release build without
the debugger. Names go through the string table, which has a section of its own.
-/

import Escargot.Foundation.Serialization

namespace Escargot.CodeCache

open List Foundation

/-- `ComputeReservedCapacityFunctionWithLog2<200>`. -/
def reservedCapacity (newSize : Nat) : Nat :=
  if newSize = 0 then 0 else 2 ^ (newSize.log2 + 1) * 200 / 100

theorem le_reservedCapacity (n : Nat) : n ≤ reservedCapacity n := by
  unfold reservedCapacity
  split
  case isTrue h => omega
  case isFalse =>
    have hlt : n < 2 ^ (n.log2 + 1) := Nat.lt_log2_self
    omega

/-- `sizeof(size_t)`. -/
def sizeofSize : Nat := 8

/-- `CacheBuffer` with its string positions. -/
def format : BufferFormat UInt8 where
  position := littleEndian sizeofSize
  positionSize := sizeofSize
  limit := 2 ^ 64
  length_position := length_littleEndian sizeofSize
  grow := reservedCapacity
  le_grow := le_reservedCapacity

/-- `STRING_MAXIMUM_LENGTH`. -/
def stringMaximumLength : Nat := 1024 * 1024 * 512

/-- `AtomicString`, which is determined by its content. -/
structure Name where
  units : List UInt16
  bounded : units.length ≤ stringMaximumLength
  deriving DecidableEq

structure SizedVector (α : Type) (bound : Nat) where
  elements : List α
  bounded : elements.length < bound

/-- `TightVector`, sized by `size_t`. -/
abbrev TightVector (α : Type) := SizedVector α (2 ^ 64)

/-- `ExtendedNodeLOC`. -/
structure NodeLOC where
  line : UInt64
  column : UInt64
  index : UInt64

structure IdentifierInfo where
  needToAllocateOnStack : Bool
  isMutable : Bool
  isParameterName : Bool
  isExplicitlyDeclaredOrParameterName : Bool
  isVarDeclaration : Bool
  indexForIndexedStorage : UInt64
  name : Name

structure BlockIdentifierInfo where
  needToAllocateOnStack : Bool
  isMutable : Bool
  isUsing : Bool
  indexForIndexedStorage : UInt64
  name : Name

/-- `InterpretedCodeBlock::BlockInfo`. Whether it is one of the shared generic
objects follows from the other fields, since all come from `BlockInfo::create`. -/
structure BlockInfo where
  canAllocateEnvironmentOnStack : Bool
  shouldAllocateEnvironment : Bool
  fromCatchClauseNode : Bool
  parentBlockIndex : UInt16
  blockIndex : UInt16
  identifiers : TightVector BlockIdentifierInfo

/-- The boolean fields of `InterpretedCodeBlock`, in the order of the class. -/
inductive CodeBlockFlag
  | isFunctionNameUsedBySelf
  | isFunctionNameSaveOnHeap
  | isFunctionNameExplicitlyDeclared
  | canUseIndexedVariableStorage
  | canAllocateVariablesOnStack
  | canAllocateEnvironmentOnStack
  | hasDescendantUsesNonIndexedVariableStorage
  | hasEval
  | hasEvalInParameter
  | hasWith
  | isStrict
  | inWith
  | isEvalCode
  | isEvalCodeInFunction
  | usesArgumentsObject
  | isFunctionExpression
  | isFunctionDeclaration
  | isArrowFunctionExpression
  | isOneExpressionOnlyVirtualArrowFunctionExpression
  | isFunctionBodyOnlyVirtualArrowFunctionExpression
  | isClassConstructor
  | isDerivedClassConstructor
  | isImplicitDerivedClassConstructor
  | isObjectMethod
  | isClassMethod
  | isClassStaticMethod
  | isGenerator
  | isAsync
  | needsVirtualIDOperation
  | hasArrowParameterPlaceHolder
  | hasParameterOtherThanIdentifier
  | allowSuperCall
  | allowSuperProperty
  | allowArguments
  | hasExplicitArgumentsDeclaration
  | hasDynamicSourceCode
  deriving DecidableEq

/-- `FunctionContextVarMap`: a map from names to positions. -/
structure VarMap where
  entries : TightVector (Name × UInt64)
  nodup : (entries.elements.map Prod.fst).Nodup

/-- `InterpretedCodeBlockRareData`; the template cache is filled by execution. -/
structure RareData where
  identifierInfoMap : Option VarMap
  classPrivateNames : Option (TightVector Name)

/-- What parsing determines of an `InterpretedCodeBlock`, its place in the tree apart. -/
structure CodeBlock where
  srcStart : UInt64
  srcEnd : UInt64
  parameterNames : TightVector Name
  identifierInfos : TightVector IdentifierInfo
  /-- The length is a field of 24 bits. -/
  blockInfos : SizedVector BlockInfo (2 ^ 24)
  functionName : Name
  functionStart : NodeLOC
  parameterUsed : UInt16
  functionLength : UInt16
  parameterCount : UInt16
  identifierOnStackCount : UInt16
  identifierOnHeapCount : UInt16
  lexicalBlockStackAllocatedIdentifierMaximumDepth : UInt16
  functionBodyBlockIndex : UInt16
  lexicalBlockIndexFunctionLocatedIn : UInt16
  flags : CodeBlockFlag → Bool
  /-- Present in an `InterpretedCodeBlockWithRareData`. -/
  rareData : Option RareData

/-- A code block with its links, as positions in depth-first order. -/
structure LinkedBlock where
  block : CodeBlock
  parent : Option Nat
  children : List Nat

/-- `SIZE_MAX`, written for a missing parent. -/
def sizeMax : Nat := 2 ^ 64 - 1

abbrev Item := Put UInt8 Name

def putBool (b : Bool) : Item := .bytes (littleEndian 1 b.toNat)

def putUInt16 (n : UInt16) : Item := .bytes (littleEndian 2 n.toNat)

def putSize (n : Nat) : Item := .bytes (littleEndian sizeofSize n)

/-- `m_buffer.put(m_stringTable->add(name))`. -/
def putName (name : Name) : Item := .key name

def putLOC (loc : NodeLOC) : List Item :=
  [putSize loc.line.toNat, putSize loc.column.toNat, putSize loc.index.toNat]

/-- The flags in the order the writer puts them. -/
def storedFlags : List CodeBlockFlag :=
  [.isFunctionNameUsedBySelf, .isFunctionNameSaveOnHeap, .isFunctionNameExplicitlyDeclared,
    .canUseIndexedVariableStorage, .canAllocateVariablesOnStack, .canAllocateEnvironmentOnStack,
    .hasDescendantUsesNonIndexedVariableStorage, .hasEval, .hasWith, .isStrict, .inWith,
    .isEvalCode, .isEvalCodeInFunction, .usesArgumentsObject, .isFunctionExpression,
    .isFunctionDeclaration, .isArrowFunctionExpression,
    .isOneExpressionOnlyVirtualArrowFunctionExpression, .isClassConstructor,
    .isDerivedClassConstructor, .isObjectMethod, .isClassMethod, .isClassStaticMethod,
    .isGenerator, .isAsync, .needsVirtualIDOperation, .hasArrowParameterPlaceHolder,
    .hasParameterOtherThanIdentifier, .allowSuperCall, .allowSuperProperty, .allowArguments]

def putIdentifierInfo (info : IdentifierInfo) : List Item :=
  [putBool info.needToAllocateOnStack, putBool info.isMutable, putBool info.isParameterName,
    putBool info.isExplicitlyDeclaredOrParameterName, putBool info.isVarDeclaration,
    putSize info.indexForIndexedStorage.toNat, putName info.name]

def putBlockIdentifierInfo (info : BlockIdentifierInfo) : List Item :=
  [putBool info.needToAllocateOnStack, putBool info.isMutable, putBool info.isUsing,
    putSize info.indexForIndexedStorage.toNat, putName info.name]

/-- The puts for one `BlockInfo`. The reservation for the identifiers counts two
booleans for each, and three are put. -/
def storeBlockInfo (info : BlockInfo) : List (Reservation UInt8 Name) :=
  let vectorSize := info.identifiers.elements.length
  [{ size := 2 * 1 + 3 * 2
     puts := [putBool info.canAllocateEnvironmentOnStack, putBool info.shouldAllocateEnvironment,
       putBool info.fromCatchClauseNode, putUInt16 info.parentBlockIndex,
       putUInt16 info.blockIndex] },
   { size := sizeofSize + vectorSize * (2 * 1 + 2 * sizeofSize)
     puts := putSize vectorSize :: info.identifiers.elements.flatMap putBlockIdentifierInfo }]

/-- The puts for the rare data. A missing map or vector is stored as an empty one. -/
def storeRareData (rare : RareData) : List (Reservation UInt8 Name) :=
  [match rare.identifierInfoMap with
   | some varMap =>
     let mapSize := varMap.entries.elements.length
     { size := (1 + mapSize * 2) * sizeofSize
       puts := putSize mapSize ::
         varMap.entries.elements.flatMap fun entry => [putName entry.1, putSize entry.2.toNat] }
   | none => { size := sizeofSize, puts := [putSize 0] }, match rare.classPrivateNames with
   | some privateNames =>
     let nameSize := privateNames.elements.length
     { size := (1 + nameSize) * sizeofSize
       puts := putSize nameSize :: privateNames.elements.map putName }
   | none => { size := sizeofSize, puts := [putSize 0] }]

def storeInterpretedCodeBlock (linked : LinkedBlock) : List (Reservation UInt8 Name) :=
  let codeBlock := linked.block
  let childCount := linked.children.length
  let parameterSize := codeBlock.parameterNames.elements.length
  let identifierSize := codeBlock.identifierInfos.elements.length
  [{ size := 1 + 4 * sizeofSize
     puts := [putBool codeBlock.rareData.isSome, putSize codeBlock.srcStart.toNat,
       putSize codeBlock.srcEnd.toNat, putSize (linked.parent.getD sizeMax),
       putSize childCount] },
   { size := childCount * sizeofSize, puts := linked.children.map putSize },
   { size := (parameterSize + 1) * sizeofSize
     puts := putSize parameterSize :: codeBlock.parameterNames.elements.map putName },
   { size := sizeofSize + identifierSize * (5 * 1 + 2 * sizeofSize)
     puts := putSize identifierSize ::
       codeBlock.identifierInfos.elements.flatMap putIdentifierInfo },
   { size := sizeofSize, puts := [putSize codeBlock.blockInfos.elements.length] }] ++
  codeBlock.blockInfos.elements.flatMap storeBlockInfo ++
  [{ size := sizeofSize, puts := [putName codeBlock.functionName] },
   { size := 3 * sizeofSize, puts := putLOC codeBlock.functionStart },
   { size := 2, puts := [putUInt16 codeBlock.parameterUsed] },
   { size := 5 * 2
     puts := [putUInt16 codeBlock.functionLength, putUInt16 codeBlock.parameterCount,
       putUInt16 codeBlock.identifierOnStackCount, putUInt16 codeBlock.identifierOnHeapCount,
       putUInt16 codeBlock.lexicalBlockStackAllocatedIdentifierMaximumDepth] },
   { size := 2 * 2
     puts := [putUInt16 codeBlock.functionBodyBlockIndex,
       putUInt16 codeBlock.lexicalBlockIndexFunctionLocatedIn] },
   { size := 31 * 1, puts := storedFlags.map fun flag => putBool (codeBlock.flags flag) }] ++
  (codeBlock.rareData.map storeRareData).getD []

/-- Code that reads from the cache, or throws `CodeCacheReader::Error`. -/
abbrev Reader (α : Type) := ByteReader String UInt8 Name α

/-- Take `k` bytes: `get` and `getData` check the capacity first. -/
def getBytes (k : Nat) : Reader (List UInt8) := fun _ input =>
  if input.length < k then .error "out of range" else .ok (input.take k, input.drop k)

def getBool : Reader Bool := do
  let bytes ← getBytes 1
  return ofLittleEndian bytes != 0

def getUInt16 : Reader UInt16 := do
  let bytes ← getBytes 2
  return .ofNat (ofLittleEndian bytes)

def getSize : Reader Nat := do
  let bytes ← getBytes sizeofSize
  return ofLittleEndian bytes

def getSizeT : Reader UInt64 := do
  let n ← getSize
  return .ofNat n

/-- `CacheStringTable::get`. -/
def lookupName (index : Nat) : Reader Name := fun table input =>
  match table[index]? with
  | none => .error "out of range"
  | some name => .ok (name, input)

/-- `m_stringTable->get(m_buffer.get<size_t>())`. -/
def getName : Reader Name := getSize >>= lookupName

def getLOC : Reader NodeLOC := do
  let line ← getSizeT
  let column ← getSizeT
  let index ← getSizeT
  return ⟨line, column, index⟩

/-- The reader of a vector whose size comes first. A size beyond the field that
keeps it cannot be represented. -/
def getSized {α : Type} (bound : Nat) (element : Reader α) : Reader (SizedVector α bound) := do
  let size ← getSize
  let elements ← element.times size
  if h : elements.length < bound then return ⟨elements, h⟩ else throw "out of range"

/-- The flags in the order the reader gets them. -/
def loadedFlags : List CodeBlockFlag :=
  [.isFunctionNameUsedBySelf, .isFunctionNameSaveOnHeap, .isFunctionNameExplicitlyDeclared,
    .canUseIndexedVariableStorage, .canAllocateVariablesOnStack, .canAllocateEnvironmentOnStack,
    .hasDescendantUsesNonIndexedVariableStorage, .hasEval, .hasWith, .isStrict, .inWith,
    .isEvalCode, .isEvalCodeInFunction, .usesArgumentsObject, .isFunctionExpression,
    .isFunctionDeclaration, .isArrowFunctionExpression,
    .isOneExpressionOnlyVirtualArrowFunctionExpression, .isClassConstructor,
    .isDerivedClassConstructor, .isObjectMethod, .isClassMethod, .isClassStaticMethod,
    .isGenerator, .isAsync, .needsVirtualIDOperation, .hasArrowParameterPlaceHolder,
    .hasParameterOtherThanIdentifier, .allowSuperCall, .allowSuperProperty, .allowArguments]

/-- Assign the flags that were read; the empty code block starts with all of them off. -/
def setFlags (values : List Bool) (flag : CodeBlockFlag) : Bool :=
  (((loadedFlags.zip values).find? fun entry => entry.1 == flag).map Prod.snd).getD false

def getIdentifierInfo : Reader IdentifierInfo := do
  let needToAllocateOnStack ← getBool
  let isMutable ← getBool
  let isParameterName ← getBool
  let isExplicitlyDeclaredOrParameterName ← getBool
  let isVarDeclaration ← getBool
  let indexForIndexedStorage ← getSizeT
  let name ← getName
  return ⟨needToAllocateOnStack, isMutable, isParameterName,
    isExplicitlyDeclaredOrParameterName, isVarDeclaration, indexForIndexedStorage, name⟩

def getBlockIdentifierInfo : Reader BlockIdentifierInfo := do
  let needToAllocateOnStack ← getBool
  let isMutable ← getBool
  let isUsing ← getBool
  let indexForIndexedStorage ← getSizeT
  let name ← getName
  return ⟨needToAllocateOnStack, isMutable, isUsing, indexForIndexedStorage, name⟩

def getBlockInfo : Reader BlockInfo := do
  let canAllocateEnvironmentOnStack ← getBool
  let shouldAllocateEnvironment ← getBool
  let fromCatchClauseNode ← getBool
  let parentBlockIndex ← getUInt16
  let blockIndex ← getUInt16
  let identifiers ← getSized (2 ^ 64) getBlockIdentifierInfo
  return ⟨canAllocateEnvironmentOnStack, shouldAllocateEnvironment, fromCatchClauseNode,
    parentBlockIndex, blockIndex, identifiers⟩

def getMapEntry : Reader (Name × UInt64) := do
  let name ← getName
  let index ← getSizeT
  return (name, index)

def insertEntries : List (Name × UInt64) → List (Name × UInt64) → List (Name × UInt64)
  | map, [] => map
  | map, entry :: entries =>
    insertEntries (if entry.1 ∈ map.map Prod.fst then map else map ++ [entry]) entries

theorem insertEntries_nodup {map : List (Name × UInt64)} (h : (map.map Prod.fst).Nodup)
    (entries : List (Name × UInt64)) : ((insertEntries map entries).map Prod.fst).Nodup := by
  induction entries generalizing map with
  | nil => exact h
  | cons entry entries ih =>
    apply ih
    split
    case isTrue => exact h
    case isFalse hnew =>
      rw [map_append, nodup_append]
      refine ⟨h, by simp, fun x hx y hy => ?_⟩
      obtain rfl : y = entry.1 := by simpa using hy
      rintro rfl
      exact hnew hx

theorem length_insertEntries_le (map entries : List (Name × UInt64)) :
    (insertEntries map entries).length ≤ map.length + entries.length := by
  induction entries generalizing map with
  | nil => exact Nat.le_refl _
  | cons entry entries ih =>
    refine (ih _).trans ?_
    rw [length_cons]
    split
    case isTrue => omega
    case isFalse =>
      rw [length_append, length_singleton]
      omega

def VarMap.ofEntries (entries : TightVector (Name × UInt64)) : VarMap where
  entries := ⟨insertEntries [] entries.elements,
    (length_insertEntries_le [] _).trans_lt (by simpa using entries.bounded)⟩
  nodup := @insertEntries_nodup [] nodup_nil _

/-- The map is built only when its size is not zero. -/
def getVarMap : Reader (Option VarMap) := do
  let entries ← getSized (2 ^ 64) getMapEntry
  return if entries.elements = [] then none else some (.ofEntries entries)

def getPrivateNames : Reader (Option (TightVector Name)) := do
  let names ← getSized (2 ^ 64) getName
  return if names.elements = [] then none else some names

def getRareData : Reader RareData := do
  let identifierInfoMap ← getVarMap
  let classPrivateNames ← getPrivateNames
  return ⟨identifierInfoMap, classPrivateNames⟩

/-- The rare data is there only in an `InterpretedCodeBlockWithRareData`. -/
def getRareDataIf (hasRareData : Bool) : Reader (Option RareData) :=
  if hasRareData then some <$> getRareData else pure none

/-- A loaded code block before it is linked: the links are the numbers that were read. -/
structure LoadedBlock where
  block : CodeBlock
  parent : Nat
  children : List Nat

def loadInterpretedCodeBlock : Reader LoadedBlock := do
  let hasRareData ← getBool
  let srcStart ← getSizeT
  let srcEnd ← getSizeT
  let parent ← getSize
  let childCount ← getSize
  let children ← getSize.times childCount
  let parameterNames ← getSized (2 ^ 64) getName
  let identifierInfos ← getSized (2 ^ 64) getIdentifierInfo
  let blockInfos ← getSized (2 ^ 24) getBlockInfo
  let functionName ← getName
  let functionStart ← getLOC
  let parameterUsed ← getUInt16
  let functionLength ← getUInt16
  let parameterCount ← getUInt16
  let identifierOnStackCount ← getUInt16
  let identifierOnHeapCount ← getUInt16
  let lexicalBlockStackAllocatedIdentifierMaximumDepth ← getUInt16
  let functionBodyBlockIndex ← getUInt16
  let lexicalBlockIndexFunctionLocatedIn ← getUInt16
  let flagValues ← getBool.times loadedFlags.length
  let rareData ← getRareDataIf hasRareData
  let block : CodeBlock :=
    ⟨srcStart, srcEnd, parameterNames, identifierInfos, blockInfos, functionName, functionStart,
      parameterUsed, functionLength, parameterCount, identifierOnStackCount,
      identifierOnHeapCount, lexicalBlockStackAllocatedIdentifierMaximumDepth,
      functionBodyBlockIndex, lexicalBlockIndexFunctionLocatedIn, setFlags flagValues, rareData⟩
  return ⟨block, parent, children⟩

inductive CodeBlockTree
  | node (block : CodeBlock) (children : List CodeBlockTree)

namespace CodeBlockTree

mutual

def size : CodeBlockTree → Nat
  | node _ children => 1 + sizeForest children

def sizeForest : List CodeBlockTree → Nat
  | [] => 0
  | tree :: forest => tree.size + sizeForest forest

end

/-- The positions of siblings in depth-first order, the first of which is `start`. -/
def positions (start : Nat) : List CodeBlockTree → List Nat
  | [] => []
  | tree :: forest => start :: positions (start + tree.size) forest

mutual

/-- The code blocks in the order `storeCodeBlockTreeNode` visits them, with the links
`m_codeBlockIndex` gives: the walker numbers the code blocks in this order too. -/
def flatten (parent : Option Nat) (index : Nat) : CodeBlockTree → List LinkedBlock
  | node block children =>
    { block, parent, children := positions (index + 1) children } ::
      flattenForest index (index + 1) children

def flattenForest (parent index : Nat) : List CodeBlockTree → List LinkedBlock
  | [] => []
  | tree :: forest =>
    tree.flatten (some parent) index ++ flattenForest parent (index + tree.size) forest

end

end CodeBlockTree

def storeCodeBlockTree (tree : CodeBlockTree) : List (Reservation UInt8 Name) :=
  (tree.flatten none 0).flatMap storeInterpretedCodeBlock

/-- The link loop of `loadCodeBlockTree`, for one code block. A number that is no
position of the vector would be read past its end. -/
def linkBlock (count : Nat) (loaded : LoadedBlock) : Option LinkedBlock :=
  if loaded.parent ≠ sizeMax ∧ count ≤ loaded.parent then none
  else if loaded.children.any (count ≤ ·) then none
  else some
    { block := loaded.block
      parent := if loaded.parent = sizeMax then none else some loaded.parent
      children := loaded.children }

/-- `CodeCache::loadCodeBlockTree`: read `nodeCount` code blocks, then link them. -/
def loadCodeBlockTree (nodeCount : Nat) (table : List Name) (input : List UInt8) :
    Except String (Option (List LinkedBlock)) :=
  (loadInterpretedCodeBlock.times nodeCount table input).map fun result =>
    result.1.mapM (linkBlock nodeCount)

/-- How the engine keeps atomic strings: a string with 8-bit content has only narrow
units, and the empty string is one. -/
structure StringStorage where
  has8BitContent : Name → Bool
  narrow : ∀ name, has8BitContent name = true → ∀ unit ∈ name.units, unit.toNat < 256
  empty : ∀ name, name.units = [] → has8BitContent name = true

variable (storage : StringStorage)

def putChars8 (name : Name) : Item := .bytes (name.units.map fun unit => unit.toUInt8)

def putChars16 (name : Name) : Item :=
  .bytes (name.units.flatMap fun unit => littleEndian 2 unit.toNat)

/-- `putData` of the characters of a string. -/
def storeString (name : Name) : Reservation UInt8 Name :=
  let length := name.units.length
  if storage.has8BitContent name then
    { size := sizeofSize + length * 1, puts := [putSize length, putChars8 name] }
  else { size := sizeofSize + length * 2, puts := [putSize length, putChars16 name] }

/-- `CacheStringTable::m_has16BitString`. -/
def has16BitString (table : List Name) : Bool := table.any fun name => !storage.has8BitContent name

/-- `CacheStringTable::m_maxLength`. -/
def maxLength (table : List Name) : Nat :=
  table.foldl (fun length name => max length name.units.length) 0

def storeStringTable (table : List Name) : List (Reservation UInt8 Name) :=
  { size := 1 + 2 * sizeofSize
    puts := [putBool (has16BitString storage table), putSize (maxLength table),
      putSize table.length] } ::
  if has16BitString storage table then
    table.flatMap fun name =>
      [{ size := 1, puts := [putBool (storage.has8BitContent name)] }, storeString storage name]
  else table.map (storeString storage)

/-- The string made of the units that were read. Their number was checked before. -/
def makeName (units : List UInt16) : Reader Name :=
  if h : units.length ≤ stringMaximumLength then pure ⟨units, h⟩ else throw "invalid maxLength"

def getString (limit : Nat) (is8Bit : Bool) : Reader Name := do
  let length ← getSize
  if limit < length then throw "invalid maxLength"
  else if is8Bit then
    let bytes ← getBytes length
    makeName (bytes.map fun byte => byte.toUInt16)
  else
    let units ← getUInt16.times length
    makeName units

def loadStringTable : Reader (List Name) := do
  let has16BitString ← getBool
  let limit ← getSize
  let tableSize ← getSize
  if stringMaximumLength < limit then throw "invalid maxLength"
  else if has16BitString then
    let element : Reader Name := do
      let is8Bit ← getBool
      getString limit is8Bit
    element.times tableSize
  else (getString limit true).times tableSize

end Escargot.CodeCache
