/-
# Object literals

An object literal is compiled to one `CreateOnlyKeyValueObject`, or to a sequence
of `CreateObjectPrepare` that collects names, descriptors and values and a
`CreateObject` that makes a structure of them. Names that occur twice are found by
a search which a filter of name hashes may skip, and a structure that depends on
the text of the literal alone is kept for later evaluations.
-/

import Escargot.Runtime.ObjectProperty
import Escargot.Runtime.ObjectStructure

namespace Escargot.Interpreter

open Escargot.Foundation Escargot.Runtime

inductive PropertyNodeKey
  | identifier (name : Nat)
  | literal (text : PropertyKey)
  | computed
  deriving DecidableEq

/-- `PropertyNode::Kind`. -/
inductive PropertyNodeKind
  | init
  | get
  | set
  deriving DecidableEq

/-- `PropertyNode`. An entry that is neither shorthand nor a method nor an accessor
is of the colon form. -/
structure PropertyNode where
  key : PropertyNodeKey
  kind : PropertyNodeKind
  isColonForm : Bool
  /-- `hasFunctionOnRightSide` or `hasClassOnRightSide`. -/
  hasFunctionOnRightSide : Bool
  deriving DecidableEq

/-- An element of `ObjectExpressionNode::m_properties`. -/
inductive ObjectElement
  | property (node : PropertyNode)
  | spreadElement
  deriving DecidableEq

/-- An element with what its evaluation gives: the name after `ToPropertyKey` and
the value, or the names and values that a spread element enumerates. -/
inductive LiteralEntry (α : Type)
  | property (node : PropertyNode) (name : ObjectStructurePropertyName) (value : α)
  | spread (pairs : List (ObjectStructurePropertyName × α))

def LiteralEntry.element {α : Type} : LiteralEntry α → ObjectElement
  | property node _ _ => .property node
  | spread _ => .spreadElement

/-- The code units of `__proto__`. -/
def protoUnits : List UInt16 := [0x5f, 0x5f, 0x70, 0x72, 0x6f, 0x74, 0x6f, 0x5f, 0x5f]

/-- What the evaluation of literals needs of its surroundings: the text of strings,
the static string `__proto__`, and the values that can be prototypes. -/
structure LiteralContext (α : Type) where
  memory : Nat → EString
  proto : Nat
  proto_text : (memory proto).content = protoUnits
  isObjectOrNull : α → Bool
  objectPrototype : α

/-- Which filter `ObjectExpressionNode` asks for. -/
inductive FilterKind
  | none
  | small
  | big
  deriving DecidableEq

def kMaxKeyCount : Nat := 16

def fastPathKeys (proto : Nat) : List ObjectElement → List Nat → Option (List Nat)
  | [], keys => some keys
  | .spreadElement :: _, _ => Option.none
  | .property node :: elements, keys =>
    match node.kind, node.key with
    | .init, .identifier name =>
      if name = proto ∨ name ∈ keys ∨ node.hasFunctionOnRightSide then Option.none
      else fastPathKeys proto elements (keys ++ [name])
    | _, _ => Option.none

/-- The filter of a literal: none for few properties, and none with a spread
element. -/
def filterKind (elements : List ObjectElement) : FilterKind :=
  if elements.contains .spreadElement then .none
  else if 512 ≤ elements.length then .big
  else if 6 ≤ elements.length then .small
  else .none

def ObjectElement.hasKeyName : ObjectElement → Bool
  | .property node => match node.key with
      | .identifier _ => true
      | _ => false
  | .spreadElement => false

inductive LiteralCode
  | createOnlyKeyValueObject (keys : List Nat)
  | createObject (filter : FilterKind) (allPrecomputed : Bool)

def generateExpressionByteCode (proto : Nat) (elements : List ObjectElement) : LiteralCode :=
  let general := LiteralCode.createObject (filterKind elements)
    (elements.all ObjectElement.hasKeyName)
  if 0 < elements.length ∧ elements.length ≤ kMaxKeyCount then
    match fastPathKeys proto elements [] with
    | some keys => .createOnlyKeyValueObject keys
    | Option.none => general
  else general

structure BloomFilter where
  table : Nat → Bool

namespace BloomFilter

/-- A filter without bits set. -/
def empty : BloomFilter := ⟨fun _ => false⟩

variable (tableSizeInBit : Nat) (filter : BloomFilter) (hash : Nat)

/-- `add`; the table has a power of two of bits. -/
def add : BloomFilter :=
  ⟨fun i => filter.table i || i == (hash &&& (tableSizeInBit - 1)) ||
    i == ((hash >>> 16) &&& (tableSizeInBit - 1))⟩

def mayContain : Bool :=
  filter.table (hash &&& (tableSizeInBit - 1)) &&
    filter.table ((hash >>> 16) &&& (tableSizeInBit - 1))

end BloomFilter

/-- `m_filter` or `m_bigFilter` of `CreateObjectData`. -/
inductive PropertyFilter
  | none
  | small (filter : BloomFilter)
  | big (filter : BloomFilter)

namespace PropertyFilter

def ofKind : FilterKind → PropertyFilter
  | .none => none
  | .small => small .empty
  | .big => big .empty

def mayContain : PropertyFilter → Nat → Bool
  | none, _ => true
  | small filter, hash => filter.mayContain 1024 (hash % 2 ^ 32)
  | big filter, hash => filter.mayContain (1024 * 64) (hash * 13 % 2 ^ 32)

def add (filter : PropertyFilter) (hash : Nat) : PropertyFilter :=
  if filter.mayContain hash then filter
  else
    match filter with
    | none => none
    | small filter => small (filter.add 1024 (hash % 2 ^ 32))
    | big filter => big (filter.add (1024 * 64) (hash * 13 % 2 ^ 32))

end PropertyFilter

namespace DescriptorBits

/-- The raw value of a descriptor without native functions. -/
def make (writable enumerable configurable hasJSGetter hasJSSetter accessor : Bool) :
    ObjectStructurePropertyDescriptor :=
  ⟨1 + 2 * writable.toNat + 4 * enumerable.toNat + 8 * configurable.toNat +
    16 * hasJSGetter.toNat + 32 * hasJSSetter.toNat + 64 * accessor.toNat⟩

/-- `createDataDescriptor(AllPresent)`. -/
def dataDescriptor : ObjectStructurePropertyDescriptor := make true true true false false false

/-- `createAccessorDescriptor` of an enumerable and configurable accessor. -/
def accessorDescriptor (hasJSGetter hasJSSetter : Bool) : ObjectStructurePropertyDescriptor :=
  make false true true hasJSGetter hasJSSetter true

variable (desc : ObjectStructurePropertyDescriptor)

def isWritable : Bool := desc.rawValue.testBit 1

def isEnumerable : Bool := desc.rawValue.testBit 2

def isConfigurable : Bool := desc.rawValue.testBit 3

def hasJSGetter : Bool := desc.rawValue.testBit 4

def isDataProperty : Bool := !desc.rawValue.testBit 6

end DescriptorBits

/-- A value of `m_values`. -/
inductive Slot (α : Type)
  | value (v : α)
  | getterSetter (getter setter : Option α)

/-- `CreateObjectPrepare::CreateObjectData`, with the prototype of the target. -/
structure CreateObjectData (α : Type) where
  wasStructureComputed : Bool
  canStoreStructureOnCode : Bool
  filter : PropertyFilter
  properties : List ObjectStructureItem
  values : List (Slot α)
  prototype : α

/-- `CreateObjectPrepare::Stage` after `Init`. -/
inductive PrepareStage
  | fillKeyValue
  | defineGetterSetter (isGetter : Bool)
  deriving DecidableEq

def PropertyNodeKind.stage : PropertyNodeKind → PrepareStage
  | .init => .fillKeyValue
  | .get => .defineGetterSetter true
  | .set => .defineGetterSetter false

section Operations

variable {α : Type} (context : LiteralContext α)

namespace CreateObjectData

variable (data : CreateObjectData α)

/-- The search for the name, which a filter that does not contain it skips. -/
def target (name : ObjectStructurePropertyName) : Option Nat :=
  if data.filter.mayContain (name.hashValue context.memory) then
    data.properties.findIdx? fun item => item.propertyName.equals context.memory name
  else none

/-- The pair that an accessor is put into: that of the accessor found, or a new
one. -/
def getterSetter (data : CreateObjectData α) : Option Nat → Option α × Option α
  | none => (none, none)
  | some i =>
    match data.properties[i]?, data.values[i]? with
    | some item, some (.getterSetter getter setter) =>
      if DescriptorBits.isDataProperty item.descriptor then (none, none)
      else (getter, setter)
    | _, _ => (none, none)

def accessorFlags (isGetter : Bool) : Option Nat → Bool × Bool
  | none => (isGetter, !isGetter)
  | some i =>
    match data.properties[i]? with
    | some item =>
      if DescriptorBits.isDataProperty item.descriptor then (isGetter, !isGetter)
      else if DescriptorBits.hasJSGetter item.descriptor then (true, !isGetter)
      else (isGetter, true)
    | none => (isGetter, !isGetter)

def newProperty (stage : PrepareStage) (target : Option Nat)
    (value : α) : ObjectStructurePropertyDescriptor × Slot α :=
  match stage with
  | .fillKeyValue => (DescriptorBits.dataDescriptor, .value value)
  | .defineGetterSetter isGetter =>
    let flags := data.accessorFlags isGetter target
    let pair := data.getterSetter target
    (DescriptorBits.accessorDescriptor flags.1 flags.2,
      if isGetter then .getterSetter (some value) pair.2 else .getterSetter pair.1 (some value))

/-- The part of `createObjectPrepareOperation` after the check for `__proto__`. -/
def define (stage : PrepareStage)
    (name : ObjectStructurePropertyName) (value : α) : CreateObjectData α :=
  if data.wasStructureComputed then { data with values := data.values ++ [.value value] }
  else
    let target := data.target context name
    let made := data.newProperty stage target value
    let filter := data.filter.add (name.hashValue context.memory)
    match target with
    | some i =>
      { data with
        canStoreStructureOnCode := false
        filter := filter
        properties := data.properties.set i ⟨name, made.1⟩
        values := data.values.set i made.2 }
    | none =>
      { data with
        canStoreStructureOnCode := data.canStoreStructureOnCode && decide (stage = .fillKeyValue)
        filter := filter
        properties := data.properties ++ [⟨name, made.1⟩]
        values := data.values ++ [made.2] }

/-- `data->m_target->setPrototype`, for an object or null. -/
def setPrototype (value : α) : CreateObjectData α :=
  if context.isObjectOrNull value then { data with prototype := value } else data

/-- `createObjectPrepareOperation` in the later stages. -/
def prepare (hasPrecomputedKey : Bool) (stage : PrepareStage)
    (name : ObjectStructurePropertyName) (value : α) : CreateObjectData α :=
  if hasPrecomputedKey ∧ name = .atomic context.proto ∧ stage = .fillKeyValue then
    data.setPrototype context value
  else data.define context stage name value

/-- The `CreateObjectPrepare` of an entry, in a loop for a spread element. -/
def prepareEntry : LiteralEntry α → CreateObjectData α
  | .property node name value =>
    data.prepare context (ObjectElement.hasKeyName (.property node)) node.kind.stage name value
  | .spread pairs =>
    pairs.foldl (fun data pair => data.prepare context false .fillKeyValue pair.1 pair.2) data

end CreateObjectData

def hasSamePropertiesTo (x y : List ObjectStructureItem) : Bool :=
  x.length == y.length && (x.zip y).all fun (a, b) =>
    a.propertyName.equals context.memory b.propertyName && a.descriptor == b.descriptor

/-- `ObjectStructureHash`: the count and the hashes of the first six names. -/
def structureHash (properties : List ObjectStructureItem) : Nat :=
  (properties.length + ((properties.take 6).map fun item =>
    item.propertyName.hashValue context.memory).sum) % 2 ^ 64

/-- The structure that a literal's code keeps, by the number of the literal, and the
rooted structures of the instance. They are not changed any more: they are marked
as referenced by an inline cache. -/
structure LiteralState where
  cached : Nat → Option (List ObjectStructureItem)
  rooted : List (List ObjectStructureItem)

variable (state : LiteralState) (site : Nat) (cached : Option (List ObjectStructureItem))

def LiteralState.findRootedObjectStructure
    (properties : List ObjectStructureItem) : Option (List ObjectStructureItem) :=
  state.rooted.find? fun other =>
    structureHash context other == structureHash context properties &&
      hasSamePropertiesTo context other properties

structure LiteralObject (α : Type) where
  properties : List ObjectStructureItem
  values : List (Slot α)
  prototype : α

def createOnlyKeyValueObjectOperation (keys : List Nat)
    (values : List α) : LiteralState × LiteralObject α :=
  let properties := keys.map fun key =>
    (⟨.atomic key, DescriptorBits.dataDescriptor⟩ : ObjectStructureItem)
  let object (properties : List ObjectStructureItem) : LiteralObject α :=
    ⟨properties, values.map .value, context.objectPrototype⟩
  match state.cached site with
  | some structure_ => (state, object structure_)
  | none =>
    match state.findRootedObjectStructure context properties with
    | some structure_ =>
      ({ state with cached := Function.update state.cached site (some structure_) },
        object structure_)
    | none =>
      (⟨Function.update state.cached site (some properties), properties :: state.rooted⟩,
        object properties)

/-- `createObjectPrepareOperation` in the stage `Init`; the code may hold a structure. -/
def initData (filter : FilterKind) (allPrecomputed : Bool) : CreateObjectData α where
  wasStructureComputed := cached.isSome
  canStoreStructureOnCode := allPrecomputed
  filter := .ofKind filter
  properties := []
  values := []
  prototype := context.objectPrototype

/-- `createObjectOperation`; the target has the structure that the code held at the
start, if any. -/
def createObjectOperation (allPrecomputed : Bool)
    (data : CreateObjectData α) : LiteralState × LiteralObject α :=
  let object (properties : List ObjectStructureItem) : LiteralObject α :=
    ⟨properties, data.values, data.prototype⟩
  match cached with
  | some structure_ => (state, object structure_)
  | none =>
    match if allPrecomputed then state.findRootedObjectStructure context data.properties
      else none with
    | some structure_ => (state, object structure_)
    | none =>
      if data.canStoreStructureOnCode then
        (⟨Function.update state.cached site (some data.properties),
          data.properties :: state.rooted⟩, object data.properties)
      else (state, object data.properties)

def LiteralEntry.value? : LiteralEntry α → Option α
  | .property _ _ value => some value
  | .spread _ => none

/-- The evaluation of a literal by its code, from the structure that the code held at
the start. -/
def evaluateLiteral (entries : List (LiteralEntry α)) : LiteralState × LiteralObject α :=
  match generateExpressionByteCode context.proto (entries.map (·.element)) with
  | .createOnlyKeyValueObject keys =>
    createOnlyKeyValueObjectOperation context state site keys
      (entries.filterMap LiteralEntry.value?)
  | .createObject filter allPrecomputed =>
    createObjectOperation context state site cached allPrecomputed
      (entries.foldl (fun data entry => data.prepareEntry context entry)
        (initData context cached filter allPrecomputed))

end Operations

/-- The literals being evaluated, each with its number and with what its code held
at the start. The values of one literal may evaluate others, the same one included. -/
structure LiteralMachine where
  state : LiteralState
  pending : List (Nat × Option (List ObjectStructureItem))

inductive LiteralOperation (α : Type)
  | start (site : Nat)
  | finish (evaluation : Nat) (entries : List (LiteralEntry α))

section Machine

variable {α : Type} [PropertyValue α] (context : LiteralContext α)

/-- An own property as `Object::getOwnProperty` reads it. -/
def readProperty (item : ObjectStructureItem) (slot : Slot α) : Property α :=
  let enumerable := DescriptorBits.isEnumerable item.descriptor
  let configurable := DescriptorBits.isConfigurable item.descriptor
  match DescriptorBits.isDataProperty item.descriptor, slot with
  | true, .value v => .data v (DescriptorBits.isWritable item.descriptor) enumerable configurable
  | false, .getterSetter getter setter => .accessor getter setter enumerable configurable
  -- A descriptor that does not fit the slot; the engine asserts that there is none.
  | _, _ => .data PropertyValue.undefined false false false

def readProperties : List ObjectStructureItem → List (Slot α) → List (PropertyKey × Property α)
  | [], _ => []
  | item :: items, [] =>
    (item.propertyName.key context.memory, .data PropertyValue.undefined false false false) ::
      readProperties items []
  | item :: items, slot :: slots =>
    (item.propertyName.key context.memory, readProperty item slot) :: readProperties items slots

/-- The own properties of an object in order, and its prototype. -/
abbrev ObjectObservation (α : Type) := List (PropertyKey × Property α) × α

def LiteralObject.observe (object : LiteralObject α) : ObjectObservation α :=
  (readProperties context object.properties object.values, object.prototype)

/-- One operation. An evaluation that has finished shows its object. -/
def LiteralMachine.step (machine : LiteralMachine) :
    LiteralOperation α → Option (LiteralMachine × Option (ObjectObservation α))
  | .start site =>
    some ({ machine with pending := machine.pending ++ [(site, machine.state.cached site)] }, none)
  | .finish evaluation entries =>
    match machine.pending[evaluation]? with
    | none => some (machine, none)
    | some (site, cached) =>
      let (state, object) := evaluateLiteral context machine.state site cached entries
      some ({ machine with state := state }, some (object.observe context))

/-- No literal was evaluated yet. -/
def LiteralMachine.initial : LiteralMachine := ⟨⟨fun _ => none, []⟩, []⟩

end Machine

section Reference

variable {α : Type} [PropertyValue α] (context : LiteralContext α)

structure PlainObject (α : Type) where
  properties : List (PropertyKey × Property α)
  prototype : α

namespace PlainObject

variable (o : PlainObject α) (k : PropertyKey) (value : α)

/-- `[[DefineOwnProperty]]` of a configurable property: it keeps its place, and a new
one comes last. -/
def define (desc : ObjectPropertyDescriptor α) : PlainObject α :=
  match o.properties.findIdx? fun pair => pair.1 == k with
  | some i => { o with properties := o.properties.modify i fun pair => (pair.1, desc.apply pair.2) }
  | none => { o with properties := o.properties ++ [(k, desc.toProperty)] }

def createDataProperty : PlainObject α := o.define k (.allPresent value)

def defineAccessor (isGetter : Bool) (fn : α) : PlainObject α :=
  o.define k (.accessor (if isGetter then some fn else none) (if isGetter then none else some fn)
    (some true) (some true))

/-- `__proto__: value`. -/
def setPrototype : PlainObject α :=
  if context.isObjectOrNull value then { o with prototype := value } else o

end PlainObject

/-- `__proto__` with a colon, as an identifier or as a string. -/
def PropertyNode.isProtoSetter (node : PropertyNode) (name : ObjectStructurePropertyName) : Bool :=
  node.kind == .init && node.isColonForm && node.key != .computed &&
    name.key context.memory == .string protoUnits

def PlainObject.perform (o : PlainObject α) : LiteralEntry α → PlainObject α
  | .property node name value =>
    if node.isProtoSetter context name then o.setPrototype context value
    else
      match node.kind with
      | .init => o.createDataProperty (name.key context.memory) value
      | .get => o.defineAccessor (name.key context.memory) true value
      | .set => o.defineAccessor (name.key context.memory) false value
  | .spread pairs =>
    pairs.foldl (fun o pair => o.createDataProperty (pair.1.key context.memory) pair.2) o

def referenceObject (entries : List (LiteralEntry α)) : PlainObject α :=
  entries.foldl (fun o entry => o.perform context entry) ⟨[], context.objectPrototype⟩

/-- The same operations in the language, which counts the evaluations alone. -/
def referenceStep (started : Nat) : LiteralOperation α → Nat × Option (ObjectObservation α)
  | .start _ => (started + 1, none)
  | .finish evaluation entries =>
    (started, if evaluation < started then
      some ((referenceObject context entries).properties,
        (referenceObject context entries).prototype)
    else none)

end Reference

end Escargot.Interpreter
