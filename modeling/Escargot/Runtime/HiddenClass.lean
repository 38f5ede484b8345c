/-
# Hidden classes with identity

Objects point to their structures, and several objects or an inline cache may
point to the same one. A structure with transitions never changes its list; any
other hands its vector of properties over to the structure that follows it,
unless an inline cache refers to it and the vector is copied. Every structure
also carries four flags that sum up its properties. The model keeps what decides
sharing and the flags; searches are those of `ObjectStructure`.
-/

import Escargot.Runtime.ObjectStructure

namespace Escargot.Runtime

open Escargot.Foundation

namespace ObjectStructurePropertyDescriptor

variable (native : Nat → Nat) (desc : ObjectStructurePropertyDescriptor)

/-- `presentAttributes`: inline, or read from the native getter and setter data that
the value points to. -/
def presentAttributes : Nat :=
  if desc.rawValue.testBit 0 then desc.rawValue else native desc.rawValue

def isEnumerable : Bool := (desc.presentAttributes native).testBit 2

def createDataDescriptor (isWritable isEnumerable isConfigurable : Bool) :
    ObjectStructurePropertyDescriptor where
  rawValue := 1 ||| isWritable.toNat <<< 1 ||| isEnumerable.toNat <<< 2 |||
    isConfigurable.toNat <<< 3

end ObjectStructurePropertyDescriptor

structure SummaryFlags where
  hasIndexPropertyName : Bool
  hasSymbolPropertyName : Bool
  hasNonAtomicPropertyName : Bool
  hasEnumerableProperty : Bool

section Methods

variable (limits : StructureLimits) (memory : Nat → EString) (native : Nat → Nat)

namespace SummaryFlags

/-- The flags as the loops of `removeProperty` compute them. -/
def ofProperties (properties : List ObjectStructureItem) : SummaryFlags where
  hasIndexPropertyName := properties.any fun item => item.propertyName.isIndexString memory
  hasSymbolPropertyName := properties.any fun item => item.propertyName.isSymbol
  hasNonAtomicPropertyName := properties.any fun item => !item.propertyName.hasAtomicString
  hasEnumerableProperty := properties.any fun item => item.descriptor.isEnumerable native

variable (flags : SummaryFlags)

/-- The flags with one more property, as every `addProperty` has them. -/
def add (item : ObjectStructureItem) : SummaryFlags where
  hasIndexPropertyName := flags.hasIndexPropertyName || item.propertyName.isIndexString memory
  hasSymbolPropertyName := flags.hasSymbolPropertyName || item.propertyName.isSymbol
  hasNonAtomicPropertyName := flags.hasNonAtomicPropertyName || !item.propertyName.hasAtomicString
  hasEnumerableProperty := flags.hasEnumerableProperty || item.descriptor.isEnumerable native

def replace (newDesc : ObjectStructurePropertyDescriptor) : SummaryFlags :=
  { flags with
    hasEnumerableProperty := flags.hasEnumerableProperty || newDesc.isEnumerable native }

/-- The constructor of `ObjectStructureWithMap` has no argument for non-atomic names. -/
def forMap : SummaryFlags := { flags with hasNonAtomicPropertyName := false }

end SummaryFlags

/-- The three classes of structures. -/
inductive HiddenClassKind
  | withTransition (transitions : TransitionTable)
  | withoutTransition
  | withMap

/-- A structure. The vector of properties is missing once it was handed over. -/
structure HiddenClass where
  kind : HiddenClassKind
  properties : Option (List ObjectStructureItem)
  flags : SummaryFlags
  isReferencedByInlineCache : Bool

namespace HiddenClass

def inTransitionMode (self : HiddenClass) : Bool :=
  match self.kind with
  | .withTransition _ => true
  | _ => false

/-- `new ObjectStructureWithTransition`. -/
def withTransition (properties : List ObjectStructureItem) (flags : SummaryFlags) : HiddenClass :=
  ⟨.withTransition (.vector []), some properties, flags, false⟩

/-- `new ObjectStructureWithoutTransition`. -/
def withoutTransition (properties : List ObjectStructureItem) (flags : SummaryFlags) :
    HiddenClass :=
  ⟨.withoutTransition, some properties, flags, false⟩

/-- `new ObjectStructureWithMap`. -/
def withMap (properties : List ObjectStructureItem) (flags : SummaryFlags) : HiddenClass :=
  ⟨.withMap, some properties, flags.forMap, false⟩

variable (properties : List ObjectStructureItem)

/-- `ObjectStructure::create`; it counts every property as enumerable. -/
def create (preferTransition : Bool) : HiddenClass :=
  let flags := { SummaryFlags.ofProperties memory native properties with
    hasEnumerableProperty := true }
  if limits.transitionModeMaxSize < properties.length then withMap properties flags
  else if preferTransition then withTransition properties flags
  else withoutTransition properties flags

/-- The structure that `Object::Object(state, propertyCount, callback, ...)` makes. A
name that is a string and interned sets the flag for names that are not. -/
def bulk (names : List ObjectStructurePropertyName) (isWritable isEnumerable isConfigurable : Bool) :
    HiddenClass :=
  let properties := names.map fun name =>
    (⟨name, .createDataDescriptor isWritable isEnumerable isConfigurable⟩ : ObjectStructureItem)
  let flags : SummaryFlags :=
    { hasIndexPropertyName := names.any fun name => name.isIndexString memory
      hasSymbolPropertyName := names.any fun name => name.isSymbol
      hasNonAtomicPropertyName := names.any fun name => !name.isSymbol && name.hasAtomicString
      hasEnumerableProperty := isEnumerable }
  if limits.accessCacheBuildMinSize < names.length then withMap properties flags
  else withoutTransition properties flags

/-- The structure after the vector was handed over, which a reference of an inline
cache prevents. -/
def handOver (self : HiddenClass) : HiddenClass :=
  if self.isReferencedByInlineCache then self else { self with properties := none }

/-- A structure of a single object with many properties keeps a map. -/
def ofSize (flags : SummaryFlags) : HiddenClass :=
  if limits.accessCacheBuildMinSize < properties.length then withMap properties flags
  else withoutTransition properties flags

end HiddenClass

/-- All structures by their numbers. -/
abbrev HiddenClasses := List HiddenClass

inductive HiddenClassMethod
  | addProperty (item : ObjectStructureItem)
  | removeProperty (pIndex : Nat)
  | replacePropertyDescriptor (idx : Nat) (newDesc : ObjectStructurePropertyDescriptor)
  | convertToNonTransitionStructure
  | markReferencedByInlineCache

namespace HiddenClasses

variable (classes : HiddenClasses) (number : Nat) (self : HiddenClass)
  (properties : List ObjectStructureItem)

/-- The structure `self` at a number is replaced, and the structure `made` is new. -/
def push (self made : HiddenClass) : HiddenClasses × Nat :=
  (classes.set number self ++ [made], classes.length)

def addProperty (item : ObjectStructureItem) : Option (HiddenClasses × Nat) :=
  let newProperties := properties ++ [item]
  let flags := self.flags.add memory native item
  match self.kind with
  | .withTransition transitions =>
    match transitions.find memory item with
    | some next => some (classes, next)
    | none =>
      if limits.transitionModeMaxSize < newProperties.length ∨ flags.hasIndexPropertyName then
        some (classes.push number self (.withoutTransition newProperties flags))
      else
        (transitions.add limits memory (item, classes.length)).map fun transitions =>
          classes.push number { self with kind := .withTransition transitions }
            (.withTransition newProperties flags)
  | .withoutTransition =>
    some (classes.push number self.handOver (.ofSize limits newProperties flags))
  | .withMap => some (classes.push number self.handOver (.withMap newProperties flags))

def removeProperty (pIndex : Nat) : HiddenClasses × Nat :=
  let newProperties := properties.eraseIdx pIndex
  let flags := SummaryFlags.ofProperties memory native newProperties
  match self.kind with
  | .withTransition _ => classes.push number self (.withoutTransition newProperties flags)
  | .withoutTransition => classes.push number self.handOver (.withoutTransition newProperties flags)
  | .withMap => classes.push number self.handOver (.ofSize limits newProperties flags)

def replacePropertyDescriptor (idx : Nat)
    (newDesc : ObjectStructurePropertyDescriptor) : HiddenClasses × Nat :=
  let newProperties := properties.modify idx fun item => { item with descriptor := newDesc }
  let flags := self.flags.replace native newDesc
  match self.kind with
  | .withTransition _ => classes.push number self (.withoutTransition newProperties flags)
  | .withoutTransition => classes.push number self.handOver (.withoutTransition newProperties flags)
  | .withMap => classes.push number self.handOver (.withMap newProperties flags)

def convertToNonTransitionStructure : HiddenClasses × Nat :=
  match self.kind with
  | .withTransition _ => classes.push number self (.withoutTransition properties self.flags)
  | _ => (classes, number)

/-- A call on the structure at a number: all structures after it, and the number of the
structure that it answers. It fails on a vector that was handed over, and does not
return when a hash map cannot grow any more. -/
def call (method : HiddenClassMethod) : Option (HiddenClasses × Nat) :=
  match classes[number]? with
  | none => none
  | some self =>
    match self.properties with
    | none => none
    | some properties =>
      match method with
      | .addProperty item => classes.addProperty limits memory native number self properties item
      | .removeProperty pIndex =>
        some (classes.removeProperty limits memory native number self properties pIndex)
      | .replacePropertyDescriptor idx newDesc =>
        some (classes.replacePropertyDescriptor native number self properties idx newDesc)
      | .convertToNonTransitionStructure =>
        some (classes.convertToNonTransitionStructure number self properties)
      | .markReferencedByInlineCache =>
        some (classes.set number { self with isReferencedByInlineCache := true }, number)

def observe : Option (List ObjectStructureItem) :=
  match classes[number]? with
  | none => none
  | some self => self.properties

end HiddenClasses

structure HiddenClassState where
  classes : HiddenClasses
  objects : List Nat

/-- Structures are created to be shared, and then referred to by inline caches, or for
one object; other objects start with a structure that may be shared. -/
inductive HiddenClassOperation
  | createRoot (properties : List ObjectStructureItem) (preferTransition : Bool)
  | newObject (number : Nat)
  | newObjectWith (properties : List ObjectStructureItem) (preferTransition : Bool)
  | newBulkObject (names : List ObjectStructurePropertyName)
      (isWritable isEnumerable isConfigurable : Bool)
  | call (object : Nat) (method : HiddenClassMethod)

namespace HiddenClassState

/-- At the start there is the empty structure of new objects. -/
def initial : HiddenClassState := ⟨[HiddenClass.withTransition [] ⟨false, false, false, false⟩], []⟩

/-- A structure that objects may share: with transitions, or in the set of roots and
marked there. -/
def isShareable (self : HiddenClass) : Bool :=
  self.inTransitionMode || self.isReferencedByInlineCache

/-- One operation. It fails when there is no such object or structure to start from. -/
def step (state : HiddenClassState) : HiddenClassOperation → Option (HiddenClassState × Unit)
  | .createRoot properties preferTransition =>
    let made := { HiddenClass.create limits memory native properties preferTransition with
      isReferencedByInlineCache := true }
    some (⟨state.classes ++ [made], state.objects⟩, ())
  | .newObject number =>
    match state.classes[number]? with
    | none => none
    | some self =>
      if isShareable self then some (⟨state.classes, state.objects ++ [number]⟩, ()) else none
  | .newObjectWith properties preferTransition =>
    let made := HiddenClass.create limits memory native properties preferTransition
    some (⟨state.classes ++ [made], state.objects ++ [state.classes.length]⟩, ())
  | .newBulkObject names isWritable isEnumerable isConfigurable =>
    let made := HiddenClass.bulk limits memory names isWritable isEnumerable isConfigurable
    some (⟨state.classes ++ [made], state.objects ++ [state.classes.length]⟩, ())
  | .call object method =>
    match state.objects[object]? with
    | none => none
    | some number =>
      (state.classes.call limits memory native number method).map fun (classes, next) =>
        (⟨classes, state.objects.set object next⟩, ())

def observe (state : HiddenClassState) (object : Nat) : Option (List ObjectStructureItem) :=
  match state.objects[object]? with
  | none => none
  | some number => state.classes.observe number

end HiddenClassState

end Methods

end Escargot.Runtime
