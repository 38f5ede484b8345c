/-
# The byte code stream in the cache

The writer copies the bytes of a stream and notes, for every pointer in it, what it
denoted: an index into the string table, into the literals of the block, into its
children or block infos. The reader copies the bytes back, where the pointers are
those of another process, and goes through the notes in order.

An instruction is generic in its pointers: addresses when it is generated, and what
they denote once it is restored.
-/

import Mathlib

namespace Escargot.CodeCache.ByteCodeStream

open List Option

abbrev Address := Nat

/-- What a pointer in a stream denotes. -/
inductive Target
  | string (content : String)
  | bigInt (value : Int)
  | objectFreeze
  | codeBlock (index : Nat)
  | blockInfo (index : Nat)
  | slot (propertyName : String)
  | message (text : String)
  deriving DecidableEq

/-- The text of a string; what is not one has none. -/
def Target.content : Target → String
  | .string content => content
  | _ => ""

/-- The name of a slot of the global variable cache. -/
def Target.propertyName : Target → String
  | .slot propertyName => propertyName
  | _ => ""

/-- The opcodes whose pointer is one atomic string that is always there. The last one replaces
another in a stream that has run. -/
inductive NameOpcode
  | loadByName
  | storeByName
  | initializeByName
  | objectDefineOwnPropertyWithNameOperation
  | initializeGlobalVariable
  | unaryTypeof
  | unaryDelete
  | getMethod
  | resolveNameAddress
  | storeByNameWithAddress
  | getObjectPreComputedCase
  | setObjectPreComputedCase
  | setObjectPreComputedCaseSimpleInlineCache
  deriving DecidableEq

/-- The type of a `ComplexSetObjectOperation` or a `ComplexGetObjectOperation`, with the name in
its union. -/
inductive ComplexType (π : Type)
  | super (propertyNameIndex : Nat)
  | privateMember (propertyName : π)
  | privateWithoutOuterClass (propertyName : π)
  deriving DecidableEq

/-- The stage of an `InitializeClass`; the later ones have numbers only. -/
inductive ClassStage (π : Type)
  | createClass (codeBlock : Option π) (classSrc : π) (name : Option π)
  | later (stage : Nat) (operands : List Nat)
  deriving DecidableEq

inductive LiteralValue (π : Type)
  | bits (value : Nat)
  | pointer (value : π)
  deriving DecidableEq

/-- The callee of a `CallComplexCase`: a name in a scope, for the other kinds registers. -/
inductive Callee (π : Type)
  | registers (kind : Nat) (receiverOrThisIndex calleeIndex : Nat)
  | inWithScope (calleeName : π)
  deriving DecidableEq

/-- An instruction with its register indices, numbers and flags as operands. The operations at the
end have no pointers; `tail` is the data behind an instruction. -/
inductive Instruction (π : Type)
  | loadLiteral (operands : List Nat) (value : LiteralValue π)
  | named (opcode : NameOpcode) (operands : List Nat) (name : π)
  | createFunction (operands : List Nat) (codeBlock : π)
  | initializeClass (operands : List Nat) (stage : ClassStage π)
  | complexSetObjectOperation (operands : List Nat) (type : ComplexType π)
  | complexGetObjectOperation (operands : List Nat) (type : ComplexType π)
  | callComplexCase (operands : List Nat) (callee : Callee π)
  | loadRegExp (operands : List Nat) (body option : π)
  | blockOperation (operands : List Nat) (blockInfo : π)
  | replaceBlockLexicalEnvironmentOperation (operands : List Nat) (blockInfo : π)
  | getGlobalVariable (operands : List Nat) (slot : π)
  | setGlobalVariable (operands : List Nat) (slot : π)
  | throwStaticErrorOperation (errorKind : Nat) (errorMessage templateDataString : π)
  | createOnlyKeyValueObject (operands : List Nat) (cachedObjectStructure : Option π)
      (keys : List π)
  | executionPause (reason : Nat) (operands tail : List Nat)
  | finalizeDisposable (operands tail : List Nat)
  | other (opcode : Nat) (operands : List Nat)
  deriving DecidableEq

section Map

variable {π ρ : Type} (f : π → ρ)

def ComplexType.map : ComplexType π → ComplexType ρ
  | .super propertyNameIndex => .super propertyNameIndex
  | .privateMember propertyName => .privateMember (f propertyName)
  | .privateWithoutOuterClass propertyName => .privateWithoutOuterClass (f propertyName)

def ClassStage.map : ClassStage π → ClassStage ρ
  | .createClass codeBlock classSrc name => .createClass (codeBlock.map f) (f classSrc) (name.map f)
  | .later stage operands => .later stage operands

def LiteralValue.map : LiteralValue π → LiteralValue ρ
  | .bits value => .bits value
  | .pointer value => .pointer (f value)

def Callee.map : Callee π → Callee ρ
  | .registers kind receiverOrThisIndex calleeIndex =>
    .registers kind receiverOrThisIndex calleeIndex
  | .inWithScope calleeName => .inWithScope (f calleeName)

/-- The same instruction with other pointers. -/
def Instruction.map : Instruction π → Instruction ρ
  | .loadLiteral operands value => .loadLiteral operands (value.map f)
  | .named opcode operands name => .named opcode operands (f name)
  | .createFunction operands codeBlock => .createFunction operands (f codeBlock)
  | .initializeClass operands stage => .initializeClass operands (stage.map f)
  | .complexSetObjectOperation operands type => .complexSetObjectOperation operands (type.map f)
  | .complexGetObjectOperation operands type => .complexGetObjectOperation operands (type.map f)
  | .callComplexCase operands callee => .callComplexCase operands (callee.map f)
  | .loadRegExp operands body option => .loadRegExp operands (f body) (f option)
  | .blockOperation operands blockInfo => .blockOperation operands (f blockInfo)
  | .replaceBlockLexicalEnvironmentOperation operands blockInfo =>
    .replaceBlockLexicalEnvironmentOperation operands (f blockInfo)
  | .getGlobalVariable operands slot => .getGlobalVariable operands (f slot)
  | .setGlobalVariable operands slot => .setGlobalVariable operands (f slot)
  | .throwStaticErrorOperation errorKind errorMessage templateDataString =>
    .throwStaticErrorOperation errorKind (f errorMessage) (f templateDataString)
  | .createOnlyKeyValueObject operands cachedObjectStructure keys =>
    .createOnlyKeyValueObject operands (cachedObjectStructure.map f) (keys.map f)
  | .executionPause reason operands tail => .executionPause reason operands tail
  | .finalizeDisposable operands tail => .finalizeDisposable operands tail
  | .other opcode operands => .other opcode operands

end Map

def Instruction.tailDataLength {π : Type} : Instruction π → Nat
  | .executionPause _ _ tail => tail.length
  | .finalizeDisposable _ tail => tail.length
  | _ => 0

/-- The bytes of an instruction, with the data behind it. What comes before the data has a length
of its own for every opcode, which is at least one. -/
def Instruction.size {π : Type} (byteCodeLengths : Instruction Unit → Nat)
    (instruction : Instruction π) : Nat :=
  byteCodeLengths (instruction.map fun _ => ()) + 1 + instruction.tailDataLength

/-- `CacheStringTable`. -/
abbrev StringTable := List String

def StringTable.add (table : StringTable) (string : String) : StringTable × Nat :=
  match table.findIdx? (· == string) with
  | some index => (table, index)
  | none => (table ++ [string], table.length)

inductive ByteCodeRelocType
  | atomicString
  | bigInt
  | blockInfo
  | codeBlock
  | freezeFunc
  | string

/-- What is noted for a pointer. An index is missing where it is `SIZE_MAX`. -/
structure Note where
  relocType : ByteCodeRelocType
  dataOffset : Option Nat

structure ByteCodeRelocInfo extends Note where
  codeOffset : Nat

/-- The block of a stream, and what is at the addresses that it has. -/
structure Block where
  heap : Address → Target
  isAtomicStringSource : Address → Bool
  stringLiteralData : List Address
  otherLiteralData : List Address
  children : List Address
  blockInfos : List Address

def findInVector (vector : List Address) (address : Address) : Option Nat :=
  vector.findIdx? (· == address)

namespace Block

variable (block : Block) (table : StringTable)

/-- `STORE_ATOMICSTRING_RELOC`. -/
def storeAtomicString (name : String) : StringTable × List Note :=
  let added := table.add name
  (added.1, [⟨.atomicString, some added.2⟩])

def storeLiteral (value : Address) : Option (StringTable × List Note) :=
  match block.heap value with
  | .string content =>
    if content = "" then some (table, [⟨.string, none⟩])
    else
      match findInVector block.stringLiteralData value with
      | some stringIndex => some (table, [⟨.string, some stringIndex⟩])
      | none =>
        if block.isAtomicStringSource value then some (storeAtomicString table content)
        else none
  | .bigInt _ => do
      let bigIntIndex ← findInVector block.otherLiteralData value
      some (table, [⟨.bigInt, some bigIntIndex⟩])
  | .objectFreeze => some (table, [⟨.freezeFunc, none⟩])
  | _ => none

def storeCodeBlock (codeBlock : Address) : Option (List Note) := do
  let codeBlockIndex ← findInVector block.children codeBlock
  some [⟨.codeBlock, some codeBlockIndex⟩]

def storeConstructor : Option Address → Option (List Note)
  | some codeBlock => block.storeCodeBlock codeBlock
  | none => some []

def storeBlockInfo (info : Address) : Option (List Note) := do
  let infoIndex ← findInVector block.blockInfos info
  some [⟨.blockInfo, some infoIndex⟩]

/-- A string that is not empty is noted as a literal of the block. -/
def storeString (string : Address) : Option (List Note) := do
  let stringIndex ← findInVector block.stringLiteralData string
  some [⟨.string, some stringIndex⟩]

def storeCreateClass (codeBlock : Option Address) (classSrc : Address)
    (name : Option Address) : Option (StringTable × List Note) := do
  let codeBlockNotes ← block.storeConstructor codeBlock
  let classSrcNotes ← block.storeString classSrc
  match name with
  | some name =>
    let stored := storeAtomicString table (block.heap name).content
    some (stored.1, codeBlockNotes ++ (classSrcNotes ++ stored.2))
  | none => some (table, codeBlockNotes ++ classSrcNotes)

def storeRegExp (body option : Address) : Option (List Note) := do
  let bodyNotes ← block.storeString body
  let optionNotes ←
    if (block.heap option).content ≠ "" then block.storeString option
    else some [⟨.string, none⟩]
  some (bodyNotes ++ optionNotes)

/-- The keys of a `CreateOnlyKeyValueObject`, one after the other. -/
def storeKeys (table : StringTable) : List Address → StringTable × List Note
  | [] => (table, [])
  | key :: keys =>
    let stored := storeAtomicString table (block.heap key).content
    let rest := storeKeys stored.1 keys
    (rest.1, stored.2 ++ rest.2)

/-- What the writer notes for an instruction. Where an assertion fails there is no result. -/
def storeInstruction : Instruction Address → Option (StringTable × List Note)
  | .loadLiteral _ (.bits _) => some (table, [])
  | .loadLiteral _ (.pointer value) => block.storeLiteral table value
  | .named _ _ name => some (storeAtomicString table (block.heap name).content)
  | .createFunction _ codeBlock => do some (table, ← block.storeCodeBlock codeBlock)
  | .initializeClass _ (.createClass codeBlock classSrc name) =>
    block.storeCreateClass table codeBlock classSrc name
  | .initializeClass _ (.later ..) => some (table, [])
  | .complexSetObjectOperation _ (.privateMember propertyName) =>
    some (storeAtomicString table (block.heap propertyName).content)
  | .complexSetObjectOperation .. => some (table, [])
  | .complexGetObjectOperation _ (.privateMember propertyName) =>
    some (storeAtomicString table (block.heap propertyName).content)
  | .complexGetObjectOperation .. => some (table, [])
  | .callComplexCase _ (.inWithScope calleeName) =>
    some (storeAtomicString table (block.heap calleeName).content)
  | .callComplexCase _ (.registers ..) => some (table, [])
  | .loadRegExp _ body option => do some (table, ← block.storeRegExp body option)
  | .blockOperation _ info => do some (table, ← block.storeBlockInfo info)
  | .replaceBlockLexicalEnvironmentOperation _ info => do
      some (table, ← block.storeBlockInfo info)
  | .getGlobalVariable _ slot => some (storeAtomicString table (block.heap slot).propertyName)
  | .setGlobalVariable _ slot => some (storeAtomicString table (block.heap slot).propertyName)
  | .throwStaticErrorOperation _ _ templateDataString =>
    some (storeAtomicString table (block.heap templateDataString).content)
  | .createOnlyKeyValueObject _ _ keys => some (block.storeKeys table keys)
  | .executionPause .. => some (table, [])
  | .finalizeDisposable .. => some (table, [])
  | .other .. => some (table, [])

/-- The loop of `CodeCacheWriter::storeByteCodeStream`, from an offset on. -/
def storeByteCodeStream (byteCodeLengths : Instruction Unit → Nat) (table : StringTable)
    (codeOffset : Nat) :
    List (Instruction Address) → Option (StringTable × List ByteCodeRelocInfo)
  | [] => some (table, [])
  | instruction :: code => do
      let (table, notes) ← block.storeInstruction table instruction
      let (table, rest) ← storeByteCodeStream byteCodeLengths table
        (codeOffset + instruction.size byteCodeLengths) code
      some (table, notes.map (fun note => { note with codeOffset }) ++ rest)

end Block

/-- A pointer in a stream that was read: an address of the process that wrote it, or what it
denotes. -/
inductive Pointer
  | stale (address : Address)
  | to (target : Target)
  deriving DecidableEq

/-- The block into which a stream is read: its literals, children and block infos are restored. -/
structure LoadedBlock where
  stringTable : StringTable
  stringLiteralData : List Target
  otherLiteralData : List Target
  children : List Target
  blockInfos : List Target

/-- What the reader keeps from one note to the next. -/
structure ReaderState where
  bodyStringForLoadRegExp : Bool
  cokvoKeyIndex : Nat
  cokvoLastCodeOffset : Option Nat

/-- `ErrorObject::Messages::CodeCache_Loaded_StaticError`. -/
def codeCacheLoadedStaticError : String :=
  "[CodeCache] Default Error Message of ThrowStaticError: %s"

namespace LoadedBlock

variable (block : LoadedBlock) (note : Note)

/-- `LOAD_ATOMICSTRING_RELOC`: the string, if the note is one of an atomic string. -/
def loadAtomicString : Option String :=
  match note with
  | ⟨.atomicString, some stringIndex⟩ => block.stringTable[stringIndex]?
  | _ => none

def loadName : Option Pointer := do
  some (.to (.string (← block.loadAtomicString note)))

def loadString : Option Pointer := do
  some (.to (← block.stringLiteralData[← note.dataOffset]?))

def loadLiteral : Option Pointer :=
  match note.relocType with
  | .string =>
    match note.dataOffset with
    | none => some (.to (.string ""))
    | some _ => block.loadString note
  | .atomicString => block.loadName note
  | .bigInt => do some (.to (← block.otherLiteralData[← note.dataOffset]?))
  | .freezeFunc => some (.to .objectFreeze)
  | _ => none

def loadCodeBlock : Option Pointer := do
  some (.to (← block.children[← note.dataOffset]?))

def loadBlockInfo : Option Pointer := do
  some (.to (← block.blockInfos[← note.dataOffset]?))

def loadSlot : Option Pointer := do
  some (.to (.slot (← block.loadAtomicString note)))

def relocateInstruction (state : ReaderState) (info : ByteCodeRelocInfo) :
    Instruction Pointer → Option (Instruction Pointer × ReaderState)
  | .loadLiteral operands _ => do
      some (.loadLiteral operands (.pointer (← block.loadLiteral info.toNote)), state)
  | .named opcode operands _ =>
    if opcode = .setObjectPreComputedCaseSimpleInlineCache then none
    else do some (.named opcode operands (← block.loadName info.toNote), state)
  | .createFunction operands _ => do
      some (.createFunction operands (← block.loadCodeBlock info.toNote), state)
  | .initializeClass operands (.createClass codeBlock classSrc name) =>
    match info.relocType with
    | .codeBlock => do
        let codeBlock ← block.loadCodeBlock info.toNote
        some (.initializeClass operands (.createClass (some codeBlock) classSrc name), state)
    | .string => do
        let classSrc ← block.loadString info.toNote
        some (.initializeClass operands (.createClass codeBlock classSrc name), state)
    | _ => do
        let name ← block.loadName info.toNote
        some (.initializeClass operands (.createClass codeBlock classSrc (some name)), state)
  | .initializeClass operands (.later stage rest) =>
    some (.initializeClass operands (.later stage rest), state)
  | .complexSetObjectOperation operands (.privateMember _) => do
      some (.complexSetObjectOperation operands
        (.privateMember (← block.loadName info.toNote)), state)
  | .complexSetObjectOperation operands type =>
    some (.complexSetObjectOperation operands type, state)
  | .complexGetObjectOperation operands (.privateMember _) => do
      some (.complexGetObjectOperation operands
        (.privateMember (← block.loadName info.toNote)), state)
  | .complexGetObjectOperation operands type =>
    some (.complexGetObjectOperation operands type, state)
  | .callComplexCase operands (.inWithScope _) => do
      some (.callComplexCase operands (.inWithScope (← block.loadName info.toNote)), state)
  | .callComplexCase _ (.registers ..) => none
  | .loadRegExp operands body option =>
    if state.bodyStringForLoadRegExp then do
      let body ← block.loadString info.toNote
      some (.loadRegExp operands body option, { state with bodyStringForLoadRegExp := false })
    else do
      let option ←
        match info.dataOffset with
        | none => some (.to (.string ""))
        | some _ => block.loadString info.toNote
      some (.loadRegExp operands body option, { state with bodyStringForLoadRegExp := true })
  | .blockOperation operands _ => do
      some (.blockOperation operands (← block.loadBlockInfo info.toNote), state)
  | .replaceBlockLexicalEnvironmentOperation operands _ => do
      some (.replaceBlockLexicalEnvironmentOperation operands
        (← block.loadBlockInfo info.toNote), state)
  | .getGlobalVariable operands _ => do
      some (.getGlobalVariable operands (← block.loadSlot info.toNote), state)
  | .setGlobalVariable operands _ => do
      some (.setGlobalVariable operands (← block.loadSlot info.toNote), state)
  | .throwStaticErrorOperation errorKind _ _ => do
      some (.throwStaticErrorOperation errorKind (.to (.message codeCacheLoadedStaticError))
        (← block.loadName info.toNote), state)
  | .createOnlyKeyValueObject operands cachedObjectStructure keys => do
      let key ← block.loadName info.toNote
      if state.cokvoLastCodeOffset ≠ some info.codeOffset then
        some (.createOnlyKeyValueObject operands none (keys.set 0 key),
          { state with cokvoKeyIndex := 1, cokvoLastCodeOffset := some info.codeOffset })
      else
        some (.createOnlyKeyValueObject operands cachedObjectStructure
            (keys.set state.cokvoKeyIndex key),
          { state with cokvoKeyIndex := state.cokvoKeyIndex + 1 })
  | .executionPause .. => none
  | .finalizeDisposable .. => none
  | .other .. => none

/-- The stream after a note; an offset inside an instruction or past the end has no result. -/
def relocateAt (byteCodeLengths : Instruction Unit → Nat) (state : ReaderState)
    (info : ByteCodeRelocInfo) :
    Nat → List (Instruction Pointer) → Option (List (Instruction Pointer) × ReaderState)
  | _, [] => none
  | offset, instruction :: code =>
    if offset = 0 then do
      let (instruction, state) ← block.relocateInstruction state info instruction
      some (instruction :: code, state)
    else if offset < instruction.size byteCodeLengths then none
    else do
      let (code, state) ← relocateAt byteCodeLengths state info
        (offset - instruction.size byteCodeLengths) code
      some (instruction :: code, state)

/-- The loop of `CodeCacheReader::loadByteCodeStream` over the notes. -/
def relocateStream (byteCodeLengths : Instruction Unit → Nat) :
    List ByteCodeRelocInfo → List (Instruction Pointer) → ReaderState →
      Option (List (Instruction Pointer) × ReaderState)
  | [], code, state => some (code, state)
  | info :: rest, code, state => do
      let (code, state) ← block.relocateAt byteCodeLengths state info info.codeOffset code
      relocateStream byteCodeLengths rest code state

/-- `CodeCacheReader::loadByteCodeStream`: the bytes are those that were written. -/
def loadByteCodeStream (byteCodeLengths : Instruction Unit → Nat)
    (infos : List ByteCodeRelocInfo) (code : List (Instruction Address)) :
    Option (List (Instruction Pointer)) :=
  (block.relocateStream byteCodeLengths infos (code.map fun instruction =>
    instruction.map Pointer.stale) ⟨true, 0, none⟩).map Prod.fst

end LoadedBlock

def Instruction.denoted (heap : Address → Target) (instruction : Instruction Address) :
    Instruction Pointer :=
  instruction.map fun address => .to (heap address)

def Target.IsString (target : Target) : Prop := target = .string target.content

def Target.IsSlot (target : Target) : Prop := target = .slot target.propertyName

namespace Block

/-- What the assertions of the writer ask of an instruction: its pointers are in the tables of the
block, and an operation that was not run has no caches. -/
def Emitted (block : Block) : Instruction Address → Prop
  | .loadLiteral _ (.bits _) => True
  | .loadLiteral _ (.pointer value) =>
    ((block.heap value).IsString ∧
      ((block.heap value).content = "" ∨ value ∈ block.stringLiteralData ∨
        block.isAtomicStringSource value = true)) ∨
    ((∃ n, block.heap value = .bigInt n) ∧ value ∈ block.otherLiteralData) ∨
    block.heap value = .objectFreeze
  | .named opcode _ name =>
    opcode ≠ .setObjectPreComputedCaseSimpleInlineCache ∧ (block.heap name).IsString
  | .createFunction _ codeBlock => codeBlock ∈ block.children
  | .initializeClass _ (.createClass codeBlock classSrc name) =>
    (∀ a ∈ codeBlock, a ∈ block.children) ∧ classSrc ∈ block.stringLiteralData ∧
      ∀ a ∈ name, (block.heap a).IsString
  | .complexSetObjectOperation _ (.privateMember name) => (block.heap name).IsString
  | .complexGetObjectOperation _ (.privateMember name) => (block.heap name).IsString
  | .callComplexCase _ (.inWithScope name) => (block.heap name).IsString
  | .loadRegExp _ body option =>
    body ∈ block.stringLiteralData ∧ (block.heap option).IsString ∧
      ((block.heap option).content ≠ "" → option ∈ block.stringLiteralData)
  | .blockOperation _ info => info ∈ block.blockInfos
  | .replaceBlockLexicalEnvironmentOperation _ info => info ∈ block.blockInfos
  | .getGlobalVariable _ slot => (block.heap slot).IsSlot
  | .setGlobalVariable _ slot => (block.heap slot).IsSlot
  | .throwStaticErrorOperation _ _ templateDataString => (block.heap templateDataString).IsString
  | .createOnlyKeyValueObject _ cachedObjectStructure keys =>
    cachedObjectStructure = none ∧ ∀ key ∈ keys, (block.heap key).IsString
  | _ => True

def loaded (block : Block) (stringTable : StringTable) : LoadedBlock where
  stringTable := stringTable
  stringLiteralData := block.stringLiteralData.map block.heap
  otherLiteralData := block.otherLiteralData.map block.heap
  children := block.children.map block.heap
  blockInfos := block.blockInfos.map block.heap

end Block

/-- The operation is not one on a private member that does not refer to outer classes: no note
is made of the name of such a one. -/
def Instruction.NotesItsNames {π : Type} : Instruction π → Prop
  | .complexSetObjectOperation _ (.privateWithoutOuterClass _) => False
  | .complexGetObjectOperation _ (.privateWithoutOuterClass _) => False
  | _ => True

/-- The instruction with what its pointers denote, where a static error has the message of loaded
code. -/
def Instruction.restored (heap : Address → Target) (instruction : Instruction Address) :
    Instruction Pointer :=
  match instruction with
  | .throwStaticErrorOperation errorKind _ templateDataString =>
    .throwStaticErrorOperation errorKind (.to (.message codeCacheLoadedStaticError))
      (.to (heap templateDataString))
  | instruction => instruction.denoted heap

section Tables

variable {table final : StringTable}

theorem StringTable.prefix_add (table : StringTable) (string : String) :
    table <+: (table.add string).1 := by
  rw [StringTable.add]
  split
  · exact prefix_refl _
  · exact prefix_append _ _

theorem StringTable.getElem?_add (table : StringTable) (string : String) :
    (table.add string).1[(table.add string).2]? = some string := by
  rw [StringTable.add]
  split
  · next index hfound =>
    obtain ⟨hlt, hpos, -⟩ := List.findIdx?_eq_some_iff_getElem.mp hfound
    rw [getElem?_eq_getElem hlt, eq_of_beq hpos]
  · simp

theorem StringTable.getElem?_of_prefix {string : String} (h : (table.add string).1 <+: final) :
    final[(table.add string).2]? = some string := by
  obtain ⟨rest, rfl⟩ := h
  have hadd := getElem?_add table string
  rw [getElem?_append_left (List.getElem?_eq_some_iff.mp hadd).1, hadd]

theorem findInVector_of_mem {vector : List Address} {address : Address} (h : address ∈ vector) :
    ∃ index, findInVector vector address = some index ∧ vector[index]? = some address := by
  cases hfound : findInVector vector address with
  | none =>
    rw [findInVector, findIdx?_eq_none_iff] at hfound
    exact absurd (hfound address h) (by simp)
  | some index =>
    obtain ⟨hlt, hpos, -⟩ := List.findIdx?_eq_some_iff_getElem.mp hfound
    exact ⟨index, rfl, by rw [getElem?_eq_getElem hlt, eq_of_beq hpos]⟩

end Tables

namespace LoadedBlock

variable (block : LoadedBlock)

def relocateNotes (codeOffset : Nat) :
    List Note → Instruction Pointer → ReaderState → Option (Instruction Pointer × ReaderState)
  | [], instruction, state => some (instruction, state)
  | note :: notes, instruction, state => do
      let (instruction, state) ← block.relocateInstruction state ⟨note, codeOffset⟩ instruction
      relocateNotes codeOffset notes instruction state

end LoadedBlock

/-- Between two instructions the next string of a regular expression is a body, and no offset from
here on was seen. -/
structure ReaderState.Between (state : ReaderState) (codeOffset : Nat) : Prop where
  body : state.bodyStringForLoadRegExp = true
  last : ∀ offset ∈ state.cokvoLastCodeOffset, offset < codeOffset

theorem ReaderState.Between.mono {state : ReaderState} {codeOffset next : Nat}
    (h : state.Between codeOffset) (hle : codeOffset ≤ next) : state.Between next :=
  ⟨h.body, fun offset hoffset => Nat.lt_of_lt_of_le (h.last offset hoffset) hle⟩

namespace Block

/-- An instruction is stored, and its notes restore it in every table that has grown from the one
it leaves. -/
def Restores (block : Block) (table : StringTable) (instruction : Instruction Address) : Prop :=
  ∃ table' notes, block.storeInstruction table instruction = some (table', notes) ∧
    table <+: table' ∧
    ∀ final, table' <+: final → ∀ codeOffset state, ReaderState.Between state codeOffset →
      ∃ state', (block.loaded final).relocateNotes codeOffset notes (instruction.map .stale) state =
        some (instruction.restored block.heap, state') ∧ state'.Between (codeOffset + 1)

section Loads

variable {block : Block} {address : Address} {table final : StringTable}

theorem loadAtomicString_add {string : String} (h : (table.add string).1 <+: final) :
    (block.loaded final).loadAtomicString ⟨.atomicString, some (table.add string).2⟩ =
      some string :=
  StringTable.getElem?_of_prefix h

theorem loadName_add (hstring : (block.heap address).IsString)
    (h : (table.add (block.heap address).content).1 <+: final) :
    (block.loaded final).loadName
      ⟨.atomicString, some (table.add (block.heap address).content).2⟩ =
        some (.to (block.heap address)) := by
  rw [LoadedBlock.loadName, loadAtomicString_add h]
  exact congrArg (fun target => some (Pointer.to target)) hstring.symm

theorem loadSlot_add (hslot : (block.heap address).IsSlot)
    (h : (table.add (block.heap address).propertyName).1 <+: final) :
    (block.loaded final).loadSlot
      ⟨.atomicString, some (table.add (block.heap address).propertyName).2⟩ =
        some (.to (block.heap address)) := by
  rw [LoadedBlock.loadSlot, loadAtomicString_add h]
  exact congrArg (fun target => some (Pointer.to target)) hslot.symm

theorem storeString_spec (h : address ∈ block.stringLiteralData) :
    ∃ index, findInVector block.stringLiteralData address = some index ∧
      block.storeString address = some [⟨.string, some index⟩] ∧
      ∀ final, (block.loaded final).loadString ⟨.string, some index⟩ =
        some (.to (block.heap address)) := by
  obtain ⟨index, hfound, hget⟩ := findInVector_of_mem h
  refine ⟨index, hfound, by simp [storeString, hfound], fun final => ?_⟩
  simp [LoadedBlock.loadString, loaded, hget]

theorem storeCodeBlock_spec (h : address ∈ block.children) :
    ∃ index, block.storeCodeBlock address = some [⟨.codeBlock, some index⟩] ∧
      ∀ final, (block.loaded final).loadCodeBlock ⟨.codeBlock, some index⟩ =
        some (.to (block.heap address)) := by
  obtain ⟨index, hfound, hget⟩ := findInVector_of_mem h
  refine ⟨index, by simp [storeCodeBlock, hfound], fun final => ?_⟩
  simp [LoadedBlock.loadCodeBlock, loaded, hget]

theorem storeBlockInfo_spec (h : address ∈ block.blockInfos) :
    ∃ index, block.storeBlockInfo address = some [⟨.blockInfo, some index⟩] ∧
      ∀ final, (block.loaded final).loadBlockInfo ⟨.blockInfo, some index⟩ =
        some (.to (block.heap address)) := by
  obtain ⟨index, hfound, hget⟩ := findInVector_of_mem h
  refine ⟨index, by simp [storeBlockInfo, hfound], fun final => ?_⟩
  simp [LoadedBlock.loadBlockInfo, loaded, hget]

end Loads

section Instructions

variable {block : Block} {table : StringTable} {instruction : Instruction Address}

theorem Restores.of_no_notes (hstore : block.storeInstruction table instruction = some (table, []))
    (hsame : instruction.map .stale = instruction.restored block.heap) :
    block.Restores table instruction :=
  ⟨table, [], hstore, prefix_refl _, fun _ _ codeOffset state hstate =>
    ⟨state, by rw [LoadedBlock.relocateNotes, hsame], hstate.mono (Nat.le_succ codeOffset)⟩⟩

theorem Restores.of_note {table' : StringTable} {note : Note}
    (hstore : block.storeInstruction table instruction = some (table', [note]))
    (hgrown : table <+: table')
    (hload : ∀ final, table' <+: final → ∀ codeOffset state,
      (block.loaded final).relocateInstruction state ⟨note, codeOffset⟩ (instruction.map .stale) =
        some (instruction.restored block.heap, state)) :
    block.Restores table instruction := by
  refine ⟨table', [note], hstore, hgrown, fun final hfinal codeOffset state hstate =>
    ⟨state, ?_, hstate.mono (Nat.le_succ codeOffset)⟩⟩
  simp only [LoadedBlock.relocateNotes, hload final hfinal]
  rfl

variable {operands : List Nat}

theorem restores_loadLiteral {value : Address}
    (hemitted : block.Emitted (.loadLiteral operands (.pointer value))) :
    block.Restores table (.loadLiteral operands (.pointer value)) := by
  have hload : ∀ table' note, block.storeLiteral table value = some (table', [note]) →
      table <+: table' → (∀ final, table' <+: final →
        (block.loaded final).loadLiteral note = some (.to (block.heap value))) →
      block.Restores table (.loadLiteral operands (.pointer value)) := by
    intro table' note hstore hgrown hload
    refine .of_note hstore hgrown fun final hfinal codeOffset state => ?_
    simp only [LoadedBlock.relocateInstruction, Instruction.map, hload final hfinal]
    rfl
  rcases hemitted with ⟨hstring, hplace⟩ | ⟨⟨n, hbigInt⟩, hmem⟩ | hfreeze
  · rw [Target.IsString] at hstring
    by_cases hempty : (block.heap value).content = ""
    · refine hload table ⟨.string, none⟩ ?_ (prefix_refl _) fun final _ => ?_
      · rw [storeLiteral, hstring]
        exact if_pos hempty
      · rw [hstring, hempty]
        rfl
    · have hstore : block.storeLiteral table value =
          match findInVector block.stringLiteralData value with
          | some stringIndex => some (table, [⟨.string, some stringIndex⟩])
          | none =>
            if block.isAtomicStringSource value then
              some (storeAtomicString table (block.heap value).content)
            else none := by
        rw [storeLiteral, hstring]
        exact if_neg hempty
      cases hfound : findInVector block.stringLiteralData value with
      | some index =>
        have hmem : value ∈ block.stringLiteralData := by
          obtain ⟨hlt, hpos, -⟩ := List.findIdx?_eq_some_iff_getElem.mp hfound
          rw [← eq_of_beq hpos]
          exact getElem_mem hlt
        obtain ⟨index', hfound', -, hget⟩ := storeString_spec hmem
        rw [hfound] at hfound'
        cases hfound'
        refine hload table ⟨.string, some index⟩ ?_ (prefix_refl _) fun final _ => hget final
        rw [hstore, hfound]
      | none =>
        have hatomic : block.isAtomicStringSource value = true := by
          rcases hplace with hplace | hmem | hatomic
          · exact absurd hplace hempty
          · obtain ⟨index, hsome, -⟩ := findInVector_of_mem hmem
            rw [hfound] at hsome
            cases hsome
          · exact hatomic
        refine hload _ ⟨.atomicString, some (table.add (block.heap value).content).2⟩ ?_
          (StringTable.prefix_add table (block.heap value).content)
          fun final hfinal => loadName_add hstring hfinal
        rw [hstore, hfound]
        exact if_pos hatomic
  · obtain ⟨index, hfound, hget⟩ := findInVector_of_mem hmem
    refine hload table ⟨.bigInt, some index⟩ ?_ (prefix_refl _) fun final _ => ?_
    · simp [storeLiteral, hbigInt, hfound]
    · simp [LoadedBlock.loadLiteral, loaded, hget]
  · refine hload table ⟨.freezeFunc, none⟩ ?_ (prefix_refl _) fun final _ => ?_
    · simp [storeLiteral, hfreeze]
    · simp [LoadedBlock.loadLiteral, hfreeze]

theorem Restores.of_string {string : String}
    (hstore : block.storeInstruction table instruction = some (storeAtomicString table string))
    (hload : ∀ final, (table.add string).1 <+: final → ∀ codeOffset state,
      (block.loaded final).relocateInstruction state
          ⟨⟨.atomicString, some (table.add string).2⟩, codeOffset⟩ (instruction.map .stale) =
        some (instruction.restored block.heap, state)) :
    block.Restores table instruction :=
  .of_note hstore (StringTable.prefix_add table string) hload

theorem restores_initializeClass {codeBlock name : Option Address} {classSrc : Address}
    (hemitted : block.Emitted (.initializeClass operands (.createClass codeBlock classSrc name))) :
    block.Restores table (.initializeClass operands (.createClass codeBlock classSrc name)) := by
  obtain ⟨hcodeBlock, hclassSrc, hname⟩ := hemitted
  obtain ⟨stringIndex, -, hstoreString, hloadString⟩ := storeString_spec hclassSrc
  have hcodeBlockNotes : ∃ notes, block.storeConstructor codeBlock = some notes ∧
      ∀ final codeOffset rest state classSrc name,
        (block.loaded final).relocateNotes codeOffset (notes ++ rest)
            (.initializeClass operands
              (.createClass (codeBlock.map Pointer.stale) classSrc name)) state =
          (block.loaded final).relocateNotes codeOffset rest
            (.initializeClass operands (.createClass
              (codeBlock.map fun address => .to (block.heap address)) classSrc name)) state := by
    cases codeBlock with
    | none => exact ⟨[], rfl, fun _ _ _ _ _ _ => rfl⟩
    | some codeBlock =>
      obtain ⟨index, hstore, hload⟩ := storeCodeBlock_spec (hcodeBlock codeBlock rfl)
      refine ⟨_, hstore, fun final codeOffset rest state classSrc name => ?_⟩
      simp only [cons_append, nil_append, LoadedBlock.relocateNotes,
        LoadedBlock.relocateInstruction, hload final]
      rfl
  obtain ⟨codeBlockNotes, hstoreCodeBlock, hloadCodeBlock⟩ := hcodeBlockNotes
  cases name with
  | none =>
    refine ⟨table, codeBlockNotes ++ [⟨.string, some stringIndex⟩], ?_, prefix_refl _,
      fun final _ codeOffset state hstate => ⟨state, ?_, hstate.mono (Nat.le_succ codeOffset)⟩⟩
    · simp only [storeInstruction, storeCreateClass, hstoreCodeBlock, hstoreString]
      rfl
    · simp only [Instruction.map, ClassStage.map, hloadCodeBlock, LoadedBlock.relocateNotes,
        LoadedBlock.relocateInstruction, hloadString final]
      rfl
  | some name =>
    refine ⟨(table.add (block.heap name).content).1, codeBlockNotes ++
      ([⟨.string, some stringIndex⟩] ++ (storeAtomicString table (block.heap name).content).2),
      ?_, StringTable.prefix_add table _,
      fun final hfinal codeOffset state hstate => ⟨state, ?_, hstate.mono (Nat.le_succ codeOffset)⟩⟩
    · simp only [storeInstruction, storeCreateClass, hstoreCodeBlock, hstoreString]
      rfl
    · simp only [Instruction.map, ClassStage.map, hloadCodeBlock, storeAtomicString,
        cons_append, nil_append, LoadedBlock.relocateNotes,
        LoadedBlock.relocateInstruction, hloadString final, loadName_add (hname name rfl) hfinal]
      rfl

theorem restores_loadRegExp {body option : Address}
    (hemitted : block.Emitted (.loadRegExp operands body option)) :
    block.Restores table (.loadRegExp operands body option) := by
  obtain ⟨hbody, hstring, hoption⟩ := hemitted
  obtain ⟨bodyIndex, -, hstoreBody, hloadBody⟩ := storeString_spec hbody
  have hstate : ∀ state : ReaderState, state.bodyStringForLoadRegExp = true →
      { { state with bodyStringForLoadRegExp := false } with
        bodyStringForLoadRegExp := true } = state := by
    rintro ⟨body, keyIndex, last⟩ rfl
    rfl
  by_cases hempty : (block.heap option).content = ""
  · have htarget : Target.string "" = block.heap option := by rw [hstring, hempty]
    refine ⟨table, [⟨.string, some bodyIndex⟩, ⟨.string, none⟩], ?_, prefix_refl _,
      fun final _ codeOffset state hbetween => ⟨state, ?_, hbetween.mono (Nat.le_succ codeOffset)⟩⟩
    · simp only [storeInstruction, storeRegExp, hstoreBody, hempty, ne_eq, not_true_eq_false,
        if_false]
      rfl
    · simp only [Instruction.map, LoadedBlock.relocateNotes, LoadedBlock.relocateInstruction,
        hbetween.body, if_true, hloadBody final, htarget]
      simp [hstate state hbetween.body, Instruction.restored, Instruction.denoted, Instruction.map]
  · obtain ⟨optionIndex, -, hstoreOption, hloadOption⟩ := storeString_spec (hoption hempty)
    refine ⟨table, [⟨.string, some bodyIndex⟩, ⟨.string, some optionIndex⟩], ?_,
      prefix_refl _, fun final _ codeOffset state hbetween =>
        ⟨state, ?_, hbetween.mono (Nat.le_succ codeOffset)⟩⟩
    · simp only [storeInstruction, storeRegExp, hstoreBody, hempty, ne_eq, not_false_eq_true,
        if_true, hstoreOption]
      rfl
    · simp only [Instruction.map, LoadedBlock.relocateNotes, LoadedBlock.relocateInstruction,
        hbetween.body, if_true, hloadBody final]
      simp [hstate state hbetween.body, hloadOption final, Instruction.restored,
        Instruction.denoted, Instruction.map]

theorem prefix_storeKeys (block : Block) : ∀ (table : StringTable) (keys : List Address),
    table <+: (block.storeKeys table keys).1
  | table, [] => prefix_refl table
  | table, _ :: keys => (StringTable.prefix_add table _).trans (prefix_storeKeys block _ keys)

theorem relocateNotes_keys (operands : List Nat) {final : StringTable} {codeOffset : Nat} :
    ∀ (keys : List Address) (table : StringTable) (before : List Pointer) (state : ReaderState),
      state.cokvoLastCodeOffset = some codeOffset → state.cokvoKeyIndex = before.length →
      (∀ key ∈ keys, (block.heap key).IsString) → (block.storeKeys table keys).1 <+: final →
      (block.loaded final).relocateNotes codeOffset (block.storeKeys table keys).2
          (.createOnlyKeyValueObject operands none (before ++ keys.map Pointer.stale)) state =
        some (.createOnlyKeyValueObject operands none
            (before ++ keys.map fun key => .to (block.heap key)),
          { state with cokvoKeyIndex := before.length + keys.length })
  | [], _, _, _, _, hindex, _, _ => by
      rw [length_nil, Nat.add_zero, ← hindex]
      rfl
  | key :: keys, table, before, ⟨body, _, _⟩, rfl, rfl, hstring, hfinal => by
      have hkey := loadName_add (hstring key mem_cons_self)
        ((prefix_storeKeys block _ keys).trans hfinal)
      have hset : (before ++ (key :: keys).map Pointer.stale).set before.length
          (.to (block.heap key)) = before ++ [.to (block.heap key)] ++ keys.map Pointer.stale := by
        simp
      have hrest := relocateNotes_keys operands keys (table.add (block.heap key).content).1
        (before ++ [.to (block.heap key)])
        ⟨body, before.length + 1, some codeOffset⟩ rfl (by simp)
        (fun other hother => hstring other (mem_cons_of_mem key hother)) hfinal
      simp only [storeKeys, storeAtomicString, cons_append, nil_append,
        LoadedBlock.relocateNotes, LoadedBlock.relocateInstruction, hkey, bind_eq_bind,
        bind_some, hset, ne_eq, not_true_eq_false, if_false]
      refine hrest.trans ?_
      simp [Nat.add_comm 1, Nat.add_assoc]

theorem restores_createOnlyKeyValueObject {cachedObjectStructure : Option Address}
    {keys : List Address}
    (hemitted : block.Emitted (.createOnlyKeyValueObject operands cachedObjectStructure keys)) :
    block.Restores table
      (.createOnlyKeyValueObject operands cachedObjectStructure keys) := by
  obtain ⟨rfl, hstring⟩ := hemitted
  cases keys with
  | nil => exact .of_no_notes rfl rfl
  | cons key keys =>
    refine ⟨_, _, rfl, prefix_storeKeys block table (key :: keys),
      fun final hfinal codeOffset state hstate => ?_⟩
    have hkey := loadName_add (hstring key mem_cons_self)
      ((prefix_storeKeys block _ keys).trans hfinal)
    have hlast : state.cokvoLastCodeOffset ≠ some codeOffset :=
      fun hsome => Nat.lt_irrefl codeOffset (hstate.last codeOffset hsome)
    have hrest := relocateNotes_keys operands keys
      (table.add (block.heap key).content).1 [.to (block.heap key)]
      { state with cokvoKeyIndex := 1, cokvoLastCodeOffset := some codeOffset } rfl rfl
      (fun other hother => hstring other (mem_cons_of_mem key hother)) hfinal
    refine ⟨{ state with
        cokvoKeyIndex := 1 + keys.length
        cokvoLastCodeOffset := some codeOffset }, ?_, hstate.body, ?_⟩
    · simp only [storeAtomicString, cons_append, nil_append, Instruction.map,
        LoadedBlock.relocateNotes, LoadedBlock.relocateInstruction, hkey, hlast, ne_eq,
        not_false_eq_true, if_true, map_cons, set_cons_zero]
      exact hrest
    · rintro offset hoffset
      cases hoffset
      exact Nat.lt_succ_self codeOffset

theorem restores_of_emitted (hemitted : block.Emitted instruction)
    (hnotes : instruction.NotesItsNames) : block.Restores table instruction := by
  cases instruction with
  | loadLiteral operands value =>
    cases value with
    | bits value => exact .of_no_notes rfl rfl
    | pointer value => exact restores_loadLiteral hemitted
  | named opcode operands name =>
    refine .of_string rfl fun final hfinal codeOffset state => ?_
    simp only [LoadedBlock.relocateInstruction, Instruction.map, if_neg hemitted.1,
      loadName_add hemitted.2 hfinal]
    rfl
  | createFunction operands codeBlock =>
    obtain ⟨index, hstore, hload⟩ := storeCodeBlock_spec hemitted
    refine .of_note (by simp only [storeInstruction, hstore]; rfl) (prefix_refl _)
      fun final _ codeOffset state => ?_
    simp only [LoadedBlock.relocateInstruction, Instruction.map, hload final]
    rfl
  | initializeClass operands stage =>
    cases stage with
    | createClass codeBlock classSrc name => exact restores_initializeClass hemitted
    | later stage rest => exact .of_no_notes rfl rfl
  | complexSetObjectOperation operands type =>
    cases type with
    | super propertyNameIndex => exact .of_no_notes rfl rfl
    | privateMember name =>
      refine .of_string rfl fun final hfinal codeOffset state => ?_
      simp only [LoadedBlock.relocateInstruction, Instruction.map, ComplexType.map,
        loadName_add hemitted hfinal]
      rfl
    | privateWithoutOuterClass name => exact absurd hnotes id
  | complexGetObjectOperation operands type =>
    cases type with
    | super propertyNameIndex => exact .of_no_notes rfl rfl
    | privateMember name =>
      refine .of_string rfl fun final hfinal codeOffset state => ?_
      simp only [LoadedBlock.relocateInstruction, Instruction.map, ComplexType.map,
        loadName_add hemitted hfinal]
      rfl
    | privateWithoutOuterClass name => exact absurd hnotes id
  | callComplexCase operands callee =>
    cases callee with
    | registers kind receiverOrThisIndex calleeIndex => exact .of_no_notes rfl rfl
    | inWithScope name =>
      refine .of_string rfl fun final hfinal codeOffset state => ?_
      simp only [LoadedBlock.relocateInstruction, Instruction.map, Callee.map,
        loadName_add hemitted hfinal]
      rfl
  | loadRegExp operands body option => exact restores_loadRegExp hemitted
  | blockOperation operands info =>
    obtain ⟨index, hstore, hload⟩ := storeBlockInfo_spec hemitted
    refine .of_note (by simp only [storeInstruction, hstore]; rfl) (prefix_refl _)
      fun final _ codeOffset state => ?_
    simp only [LoadedBlock.relocateInstruction, Instruction.map, hload final]
    rfl
  | replaceBlockLexicalEnvironmentOperation operands info =>
    obtain ⟨index, hstore, hload⟩ := storeBlockInfo_spec hemitted
    refine .of_note (by simp only [storeInstruction, hstore]; rfl) (prefix_refl _)
      fun final _ codeOffset state => ?_
    simp only [LoadedBlock.relocateInstruction, Instruction.map, hload final]
    rfl
  | getGlobalVariable operands slot =>
    refine .of_string rfl fun final hfinal codeOffset state => ?_
    simp only [LoadedBlock.relocateInstruction, Instruction.map, loadSlot_add hemitted hfinal]
    rfl
  | setGlobalVariable operands slot =>
    refine .of_string rfl fun final hfinal codeOffset state => ?_
    simp only [LoadedBlock.relocateInstruction, Instruction.map, loadSlot_add hemitted hfinal]
    rfl
  | throwStaticErrorOperation errorKind errorMessage templateDataString =>
    refine .of_string rfl fun final hfinal codeOffset state => ?_
    simp only [LoadedBlock.relocateInstruction, Instruction.map, loadName_add hemitted hfinal]
    rfl
  | createOnlyKeyValueObject operands cachedObjectStructure keys =>
    exact restores_createOnlyKeyValueObject hemitted
  | executionPause reason operands tail => exact .of_no_notes rfl rfl
  | finalizeDisposable operands tail => exact .of_no_notes rfl rfl
  | other opcode operands => exact .of_no_notes rfl rfl

end Instructions

end Block

section Stream

variable (byteCodeLengths : Instruction Unit → Nat)

def streamSize {π : Type} (code : List (Instruction π)) : Nat :=
  (code.map (Instruction.size byteCodeLengths)).sum

theorem Instruction.size_pos {π : Type} (instruction : Instruction π) :
    0 < instruction.size byteCodeLengths := by
  rw [Instruction.size]
  omega

variable (heap : Address → Target) (instruction : Instruction Address)

theorem Instruction.map_restored :
    ((instruction.restored heap).map fun _ => ()) = instruction.map fun _ => () := by
  cases instruction with
  | loadLiteral operands value => cases value <;> rfl
  | initializeClass operands stage =>
    cases stage with
    | createClass codeBlock classSrc name => cases codeBlock <;> cases name <;> rfl
    | later stage rest => rfl
  | complexSetObjectOperation operands type => cases type <;> rfl
  | complexGetObjectOperation operands type => cases type <;> rfl
  | callComplexCase operands callee => cases callee <;> rfl
  | createOnlyKeyValueObject operands cachedObjectStructure keys =>
    cases cachedObjectStructure <;>
      simp [Instruction.restored, Instruction.denoted, Instruction.map, Function.comp_def]
  | _ => rfl

theorem Instruction.size_restored :
    (instruction.restored heap).size byteCodeLengths = instruction.size byteCodeLengths := by
  rw [Instruction.size, Instruction.size, Instruction.map_restored]
  cases instruction <;> rfl

namespace LoadedBlock

variable {byteCodeLengths} (block : LoadedBlock)

theorem relocateAt_append (state : ReaderState) (info : ByteCodeRelocInfo)
    (instruction : Instruction Pointer) (rest : List (Instruction Pointer)) :
    ∀ before : List (Instruction Pointer),
      block.relocateAt byteCodeLengths state info (streamSize byteCodeLengths before)
          (before ++ instruction :: rest) =
        (block.relocateInstruction state info instruction).map fun result =>
          (before ++ result.1 :: rest, result.2)
  | [] => by
      simp only [nil_append, relocateAt, streamSize, map_nil, sum_nil, if_true]
      cases block.relocateInstruction state info instruction <;> rfl
  | first :: before => by
      have hpos := first.size_pos byteCodeLengths
      have hsize : streamSize byteCodeLengths (first :: before) =
          first.size byteCodeLengths + streamSize byteCodeLengths before := by
        rw [streamSize, map_cons, sum_cons, streamSize]
      rw [cons_append, relocateAt, hsize, if_neg (by omega), if_neg (by omega),
        Nat.add_sub_cancel_left, relocateAt_append state info instruction rest before]
      cases block.relocateInstruction state info instruction <;> rfl

theorem relocateStream_append (ys : List ByteCodeRelocInfo) :
    ∀ (xs : List ByteCodeRelocInfo) (code : List (Instruction Pointer)) (state : ReaderState),
      block.relocateStream byteCodeLengths (xs ++ ys) code state =
        (block.relocateStream byteCodeLengths xs code state).bind fun result =>
          block.relocateStream byteCodeLengths ys result.1 result.2
  | [], _, _ => rfl
  | info :: xs, code, state => by
      simp only [cons_append, relocateStream, relocateStream_append ys xs]
      cases block.relocateAt byteCodeLengths state info info.codeOffset code <;> rfl

theorem relocateStream_notes (before rest : List (Instruction Pointer)) :
    ∀ (notes : List Note) (instruction : Instruction Pointer) (state : ReaderState),
      block.relocateStream byteCodeLengths
          (notes.map fun note => ⟨note, streamSize byteCodeLengths before⟩)
          (before ++ instruction :: rest) state =
        (block.relocateNotes (streamSize byteCodeLengths before) notes instruction state).map
          fun result => (before ++ result.1 :: rest, result.2)
  | [], _, _ => rfl
  | note :: notes, instruction, state => by
      rw [map_cons, relocateStream, relocateAt_append, relocateNotes]
      cases block.relocateInstruction state
          ⟨note, streamSize byteCodeLengths before⟩ instruction with
      | none => rfl
      | some result => exact relocateStream_notes before rest notes result.1 result.2

end LoadedBlock

theorem Block.storeByteCodeStream_spec (block : Block) :
    ∀ (code : List (Instruction Address)) (table : StringTable) (codeOffset : Nat),
      (∀ instruction ∈ code, block.Emitted instruction ∧ instruction.NotesItsNames) →
      ∃ table' infos,
        block.storeByteCodeStream byteCodeLengths table codeOffset code = some (table', infos) ∧
        table <+: table' ∧
        ∀ final, table' <+: final → ∀ (before : List (Instruction Pointer)) (state : ReaderState),
          streamSize byteCodeLengths before = codeOffset → state.Between codeOffset →
          ∃ state', (block.loaded final).relocateStream byteCodeLengths infos
              (before ++ code.map fun instruction => instruction.map Pointer.stale) state =
            some (before ++ code.map (Instruction.restored block.heap), state')
  | [], table, _, _ => ⟨table, [], rfl, prefix_refl _, fun _ _ _ state _ _ => ⟨state, rfl⟩⟩
  | instruction :: code, table, codeOffset, hemitted => by
      obtain ⟨hfirst, hnotes⟩ := hemitted instruction mem_cons_self
      obtain ⟨table', notes, hstore, hgrown, hrestore⟩ :=
        (Block.restores_of_emitted hfirst hnotes : block.Restores table instruction)
      obtain ⟨table'', infos, hstoreRest, hgrownRest, hrestoreRest⟩ :=
        Block.storeByteCodeStream_spec block code table'
          (codeOffset + instruction.size byteCodeLengths)
          fun other hother => hemitted other (mem_cons_of_mem _ hother)
      refine ⟨table'', notes.map (fun note => ⟨note, codeOffset⟩) ++ infos, ?_,
        hgrown.trans hgrownRest, ?_⟩
      · simp only [Block.storeByteCodeStream, hstore, hstoreRest, bind_eq_bind, bind_some]
      · rintro final hfinal before state rfl hstate
        obtain ⟨state', hnotes', hstate'⟩ :=
          hrestore final (hgrownRest.trans hfinal) (streamSize byteCodeLengths before) state hstate
        have hpos := instruction.size_pos byteCodeLengths
        obtain ⟨state'', hrest⟩ := hrestoreRest final hfinal
          (before ++ [instruction.restored block.heap]) state'
          (by simp [streamSize, Instruction.size_restored]) (hstate'.mono (by omega))
        refine ⟨state'', ?_⟩
        rw [LoadedBlock.relocateStream_append, map_cons, LoadedBlock.relocateStream_notes, hnotes']
        simpa using hrest

/-- A stream is restored from what was stored of it, with every string table that has grown from
the one that the writer leaves: with the same instructions, numbers and flags, and pointers that
denote what they did. -/
theorem loadByteCodeStream_storeByteCodeStream (block : Block) (table : StringTable)
    (code : List (Instruction Address))
    (hemitted : ∀ instruction ∈ code, block.Emitted instruction)
    (hnotes : ∀ instruction ∈ code, instruction.NotesItsNames) :
    ∃ table' infos, block.storeByteCodeStream byteCodeLengths table 0 code = some (table', infos) ∧
      ∀ final, table' <+: final →
        (block.loaded final).loadByteCodeStream byteCodeLengths infos code =
          some (code.map (Instruction.restored block.heap)) := by
  obtain ⟨table', infos, hstore, -, hrestore⟩ :=
    block.storeByteCodeStream_spec byteCodeLengths code table 0
      fun instruction hmem => ⟨hemitted instruction hmem, hnotes instruction hmem⟩
  refine ⟨table', infos, hstore, fun final hfinal => ?_⟩
  obtain ⟨state, hload⟩ := hrestore final hfinal [] ⟨true, 0, none⟩ rfl
    ⟨rfl, fun offset hoffset => by cases hoffset⟩
  rw [nil_append, nil_append] at hload
  rw [LoadedBlock.loadByteCodeStream, hload]
  rfl

/-- A literal, a pattern and a message. -/
def sampleBlock : Block where
  heap
    | 0 => .string "a"
    | 1 => .string "gi"
    | _ => .message "Invalid assignment"
  isAtomicStringSource := fun address => address == 0
  stringLiteralData := [0, 1]
  otherLiteralData := []
  children := []
  blockInfos := []

theorem loadByteCodeStream_storeByteCodeStream_sample :
    ∃ table' infos, sampleBlock.storeByteCodeStream (fun _ => 7) [] 0
          [.named .loadByName [3] 0, .loadRegExp [1] 0 1, .throwStaticErrorOperation 2 2 0] =
        some (table', infos) ∧
      ∀ final, table' <+: final → (sampleBlock.loaded final).loadByteCodeStream (fun _ => 7) infos
            [.named .loadByName [3] 0, .loadRegExp [1] 0 1, .throwStaticErrorOperation 2 2 0] =
          some [.named .loadByName [3] (.to (.string "a")),
            .loadRegExp [1] (.to (.string "a")) (.to (.string "gi")),
            .throwStaticErrorOperation 2 (.to (.message codeCacheLoadedStaticError))
              (.to (.string "a"))] :=
  loadByteCodeStream_storeByteCodeStream (fun _ => 7) sampleBlock []
    [.named .loadByName [3] 0, .loadRegExp [1] 0 1, .throwStaticErrorOperation 2 2 0]
    (by simp [Block.Emitted, Target.IsString, Target.content, sampleBlock])
    (by simp [Instruction.NotesItsNames])

/-- The message of a static error is not the one it had. -/
theorem static_error_has_another_message :
    ¬ ∀ (byteCodeLengths : Instruction Unit → Nat) (block : Block) (table : StringTable)
        (code : List (Instruction Address)),
      (∀ instruction ∈ code, block.Emitted instruction) →
      ∃ table' infos,
        block.storeByteCodeStream byteCodeLengths table 0 code = some (table', infos) ∧
        ∀ final, table' <+: final →
          (block.loaded final).loadByteCodeStream byteCodeLengths infos code =
            some (code.map (Instruction.denoted block.heap)) := by
  intro hrestored
  obtain ⟨table', infos, hstore, hload⟩ := hrestored (fun _ => 7) sampleBlock []
    [.throwStaticErrorOperation 2 2 0]
    (by simp [Block.Emitted, Target.IsString, Target.content, sampleBlock])
  have hsame := hload table' (prefix_refl table')
  cases hstore
  revert hsame
  decide

end Stream

end Escargot.CodeCache.ByteCodeStream
