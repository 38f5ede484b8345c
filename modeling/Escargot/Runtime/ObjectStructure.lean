/-
# Object structures

The hidden class of an object lists the names and descriptors of its
properties. Small structures are shared between objects and remember the
structures that one more property leads to; larger ones belong to one object,
search their list with a last-found cache, and above a size keep an index map.
Whatever mix of the three a sequence of changes selects, an object's structure
stands for the plain list of its properties.
-/

import Escargot.Foundation.RobinHash
import Escargot.Foundation.Run
import Escargot.Runtime.PropertyName

namespace Escargot.Runtime

open Escargot.Foundation

/-- The size limits of a build. -/
structure StructureLimits where
  /-- `ESCARGOT_OBJECT_STRUCTURE_ACCESS_CACHE_BUILD_MIN_SIZE`. -/
  accessCacheBuildMinSize : Nat
  /-- `ESCARGOT_OBJECT_STRUCTURE_TRANSITION_MODE_MAX_SIZE`. -/
  transitionModeMaxSize : Nat
  /-- `ESCARGOT_OBJECT_STRUCTURE_TRANSITION_MAP_MIN_SIZE`. -/
  transitionMapMinSize : Nat
  /-- A compile time assertion. -/
  build_lt : accessCacheBuildMinSize < 65536
  /-- One more property never leads from a shared structure to one with a map. -/
  transition_lt : transitionModeMaxSize < accessCacheBuildMinSize

/-- The limits of an ordinary build. -/
def StructureLimits.standard : StructureLimits := ⟨512, 36, 32, by decide, by decide⟩

structure ObjectStructurePropertyDescriptor where
  rawValue : Nat
  deriving DecidableEq

structure ObjectStructureItem where
  propertyName : ObjectStructurePropertyName
  descriptor : ObjectStructurePropertyDescriptor
  deriving DecidableEq

/-- What a structure knows about all of its names. -/
structure StructureFlags where
  hasIndexPropertyName : Bool
  hasSymbolPropertyName : Bool
  hasNonAtomicPropertyName : Bool

inductive TransitionTable
  | vector (items : List (ObjectStructureItem × Nat))
  | map (table : RobinTable (ObjectStructureItem × Nat))

/-- `ObjectStructureWithTransition`: transitions lead to other structures of the
kind, given by their numbers. -/
structure ObjectStructureWithTransition where
  properties : List ObjectStructureItem
  flags : StructureFlags
  transitions : TransitionTable

/-- `ObjectStructureWithoutTransition`. The vector of properties moves on to the
next structure, unless an inline cache refers to this one and it is copied. -/
structure ObjectStructureWithoutTransition where
  properties : List ObjectStructureItem
  flags : StructureFlags
  lastFoundPropertyName : ObjectStructurePropertyName
  lastFoundPropertyIndex : Nat

structure PropertyNameMapWithCache where
  map : RobinTable (ObjectStructurePropertyName × Nat)
  lastName : ObjectStructurePropertyName
  lastIndex : Option Nat

structure ObjectStructureWithMap where
  properties : List ObjectStructureItem
  propertyNameMap : Option PropertyNameMapWithCache
  hasIndexPropertyName : Bool
  hasSymbolPropertyName : Bool
  isReferencedByInlineCache : Bool

inductive ObjectStructure
  | withTransition (number : Nat)
  | withoutTransition (s : ObjectStructureWithoutTransition)
  | withMap (s : ObjectStructureWithMap)

section Methods

variable (limits : StructureLimits) (memory : Nat → EString)

/-- The flags of a list of properties, as `removeProperty` computes them. -/
def StructureFlags.ofProperties (properties : List ObjectStructureItem) : StructureFlags where
  hasIndexPropertyName := properties.any fun item => item.propertyName.isIndexString memory
  hasSymbolPropertyName := properties.any fun item => item.propertyName.isSymbol
  hasNonAtomicPropertyName := properties.any fun item => !item.propertyName.hasAtomicString

def StructureFlags.add (flags : StructureFlags) (name : ObjectStructurePropertyName) :
    StructureFlags where
  hasIndexPropertyName := flags.hasIndexPropertyName || name.isIndexString memory
  hasSymbolPropertyName := flags.hasSymbolPropertyName || name.isSymbol
  hasNonAtomicPropertyName := flags.hasNonAtomicPropertyName || !name.hasAtomicString

/-- The loops of `findProperty` without a map. -/
def searchProperties (properties : List ObjectStructureItem) (flags : StructureFlags)
    (s : ObjectStructurePropertyName) : Option Nat :=
  if s.hasAtomicString then
    if !flags.hasNonAtomicPropertyName then
      properties.findIdx? fun item => item.propertyName == s
    else properties.findIdx? fun item => item.propertyName.equals memory s
  else if s.isSymbol then
    if flags.hasSymbolPropertyName then
      properties.findIdx? fun item => item.propertyName.equals memory s
    else none
  else properties.findIdx? fun item => item.propertyName.equals memory s

/-- A search answer that the last-found cache can hold in 16 bits. -/
def cachedIndex : Option Nat → Nat
  | some i => i % 65536
  | none => 65535

def ObjectStructureWithoutTransition.make (properties : List ObjectStructureItem)
    (flags : StructureFlags) : ObjectStructureWithoutTransition where
  properties := properties
  flags := flags
  lastFoundPropertyName :=
    match properties.getLast? with
    | some item => item.propertyName
    | none => .atomic 0
  lastFoundPropertyIndex := if properties.isEmpty then 0 else (properties.length - 1) % 65536

def ObjectStructureWithoutTransition.findProperty (self : ObjectStructureWithoutTransition)
    (s : ObjectStructurePropertyName) : ObjectStructureWithoutTransition × Option Nat :=
  if !self.properties.isEmpty && self.lastFoundPropertyName.equals memory s then
    (self, if self.lastFoundPropertyIndex = 65535 then none else some self.lastFoundPropertyIndex)
  else
    let result := searchProperties memory self.properties self.flags s
    ({ self with
        lastFoundPropertyName := s
        lastFoundPropertyIndex := cachedIndex result }, result)

namespace PropertyNameMapWithCache

def hash (entry : ObjectStructurePropertyName × Nat) : Nat := entry.1.hashValue memory

def insert (self : PropertyNameMapWithCache) (name : ObjectStructurePropertyName) (index : Nat) :
    Option PropertyNameMapWithCache :=
  (self.map.insert (hash memory) (fun entry => entry.1.equals memory name) (name, index)).map
    fun map => ⟨map, name, some index⟩

def find (self : PropertyNameMapWithCache) (name : ObjectStructurePropertyName) :
    PropertyNameMapWithCache × Option Nat :=
  if name.equals memory self.lastName then (self, self.lastIndex)
  else
    let found := (self.map.find (name.hashValue memory) fun entry =>
      entry.1.equals memory name).map Prod.snd
    (⟨self.map, name, found⟩, found)

/-- The insertions of `createPropertyNameMap` from an index on. -/
def insertAll : List ObjectStructureItem → Nat → PropertyNameMapWithCache →
    Option PropertyNameMapWithCache
  | [], _, map => some map
  | item :: items, index, map =>
    match map.insert memory item.propertyName index with
    | none => none
    | some map => insertAll items (index + 1) map

end PropertyNameMapWithCache

def createPropertyNameMap (properties : List ObjectStructureItem) :
    Option PropertyNameMapWithCache :=
  PropertyNameMapWithCache.insertAll memory properties 0
    ⟨RobinTable.reserved properties.length, .atomic 0, none⟩

namespace ObjectStructureWithMap

variable (self : ObjectStructureWithMap)

def findProperty (s : ObjectStructurePropertyName) : Option (ObjectStructureWithMap × Option Nat) :=
  let map :=
    match self.propertyNameMap with
    | some map => some map
    | none => createPropertyNameMap memory self.properties
  map.map fun map =>
    ({ self with propertyNameMap := some (map.find memory s).1 }, (map.find memory s).2)

def addProperty (name : ObjectStructurePropertyName)
    (desc : ObjectStructurePropertyDescriptor) : Option ObjectStructureWithMap :=
  let next (map : Option PropertyNameMapWithCache) : ObjectStructureWithMap :=
    { properties := self.properties ++ [⟨name, desc⟩]
      propertyNameMap := map
      hasIndexPropertyName := self.hasIndexPropertyName || name.isIndexString memory
      hasSymbolPropertyName := self.hasSymbolPropertyName || name.isSymbol
      isReferencedByInlineCache := false }
  match self.isReferencedByInlineCache, self.propertyNameMap with
  | false, some map =>
    (map.insert memory name self.properties.length).map fun map => next (some map)
  | _, _ => some (next none)

def removeProperty (pIndex : Nat) : ObjectStructure :=
  let properties := self.properties.eraseIdx pIndex
  let flags := StructureFlags.ofProperties memory properties
  if limits.accessCacheBuildMinSize < properties.length then
    .withMap ⟨properties, none, flags.hasIndexPropertyName, flags.hasSymbolPropertyName, false⟩
  else .withoutTransition (.make properties flags)

def replacePropertyDescriptor (idx : Nat)
    (newDesc : ObjectStructurePropertyDescriptor) : ObjectStructureWithMap :=
  { self with
    properties := self.properties.modify idx fun item => { item with descriptor := newDesc }
    propertyNameMap := if self.isReferencedByInlineCache then none else self.propertyNameMap
    isReferencedByInlineCache := false }

end ObjectStructureWithMap

namespace ObjectStructureWithoutTransition

variable (self : ObjectStructureWithoutTransition)

def addProperty (name : ObjectStructurePropertyName)
    (desc : ObjectStructurePropertyDescriptor) : ObjectStructure :=
  let properties := self.properties ++ [⟨name, desc⟩]
  let flags := self.flags.add memory name
  if limits.accessCacheBuildMinSize < properties.length then
    .withMap ⟨properties, none, flags.hasIndexPropertyName, flags.hasSymbolPropertyName, false⟩
  else .withoutTransition (.make properties flags)

def removeProperty (pIndex : Nat) : ObjectStructureWithoutTransition :=
  let properties := self.properties.eraseIdx pIndex
  .make properties (.ofProperties memory properties)

def replacePropertyDescriptor (idx : Nat)
    (newDesc : ObjectStructurePropertyDescriptor) : ObjectStructureWithoutTransition :=
  .make (self.properties.modify idx fun item => { item with descriptor := newDesc }) self.flags

end ObjectStructureWithoutTransition

namespace TransitionTable

variable (item : ObjectStructureItem) (entry : ObjectStructureItem × Nat)

/-- The key of the transition map. -/
def sameItem : Bool :=
  entry.1.descriptor == item.descriptor && entry.1.propertyName.equals memory item.propertyName

/-- `hash` of the transition map, a sum of two machine words. -/
def hash : Nat := (entry.1.propertyName.hashValue memory + entry.1.descriptor.rawValue) % 2 ^ 64

/-- The search at the start of `addProperty`. -/
def find (item : ObjectStructureItem) : TransitionTable → Option Nat
  | vector items => (items.find? (sameItem memory item)).map Prod.snd
  | map table => (table.find (hash memory (item, 0)) (sameItem memory item)).map Prod.snd

/-- The insertions into a new transition map. -/
def insertAll : List (ObjectStructureItem × Nat) → RobinTable (ObjectStructureItem × Nat) →
    Option (RobinTable (ObjectStructureItem × Nat))
  | [], table => some table
  | entry :: entries, table =>
    match table.insert (hash memory) (sameItem memory entry.1) entry with
    | none => none
    | some table => insertAll entries table

/-- One more transition: a vector that gets too long becomes a map. -/
def add : TransitionTable → Option TransitionTable
  | vector items =>
    if limits.transitionMapMinSize < items.length + 1 then
      (insertAll memory (items ++ [entry]) .empty).map .map
    else some (.vector (items ++ [entry]))
  | map table => (table.insert (hash memory) (sameItem memory entry.1) entry).map .map

end TransitionTable

namespace ObjectStructureWithTransition

variable (self : ObjectStructureWithTransition)

/-- `addProperty` where no transition is found. The structure that it leads to is
either shared, and remembered with the number it gets, or not. -/
def addProperty (number : Nat)
    (name : ObjectStructurePropertyName) (desc : ObjectStructurePropertyDescriptor) :
    Option (ObjectStructureWithTransition × Option ObjectStructureWithTransition ×
      ObjectStructure) :=
  let properties := self.properties ++ [⟨name, desc⟩]
  let flags := self.flags.add memory name
  if limits.transitionModeMaxSize < properties.length ∨ flags.hasIndexPropertyName then
    some (self, none, .withoutTransition (.make properties flags))
  else
    (self.transitions.add limits memory (⟨name, desc⟩, number)).map fun transitions =>
      ({ self with transitions := transitions }, some ⟨properties, flags, .vector []⟩,
        .withTransition number)

def removeProperty (pIndex : Nat) : ObjectStructureWithoutTransition :=
  let properties := self.properties.eraseIdx pIndex
  .make properties (.ofProperties memory properties)

def replacePropertyDescriptor (idx : Nat)
    (newDesc : ObjectStructurePropertyDescriptor) : ObjectStructureWithoutTransition :=
  .make (self.properties.modify idx fun item => { item with descriptor := newDesc }) self.flags

def convertToNonTransitionStructure : ObjectStructureWithoutTransition :=
  .make self.properties self.flags

end ObjectStructureWithTransition

end Methods

structure StructureState where
  shared : List ObjectStructureWithTransition
  objects : List ObjectStructure

inductive StructureMethod
  | addProperty (name : ObjectStructurePropertyName) (desc : ObjectStructurePropertyDescriptor)
  | removeProperty (pIndex : Nat)
  | replacePropertyDescriptor (idx : Nat) (newDesc : ObjectStructurePropertyDescriptor)
  | convertToNonTransitionStructure
  | findProperty (s : ObjectStructurePropertyName)
  | markReferencedByInlineCache

/-- An object comes to life with an empty structure, shared or its own, or the
structure of an object is called. -/
inductive StructureOperation
  | newObject (preferTransition : Bool)
  | call (object : Nat) (method : StructureMethod)

def StructureFlags.none : StructureFlags := ⟨false, false, false⟩

namespace StructureState

/-- At the start there is the one empty structure that new objects share. -/
def initial : StructureState := ⟨[⟨[], .none, .vector []⟩], []⟩

variable (limits : StructureLimits) (memory : Nat → EString)

/-- A call on a structure: the shared structures after it, the structure that the
object has then, and the answer of a search. -/
def callStructure (shared : List ObjectStructureWithTransition) (s : ObjectStructure)
    (method : StructureMethod) :
    Option (List ObjectStructureWithTransition × ObjectStructure × Option (Option Nat)) :=
  match s with
  | .withTransition number =>
    match shared[number]? with
    | none => none
    | some self =>
      match method with
      | .addProperty name desc =>
        match self.transitions.find memory ⟨name, desc⟩ with
        | some next => some (shared, .withTransition next, none)
        | none =>
          (self.addProperty limits memory shared.length name desc).map
            fun (self, made, next) => (shared.set number self ++ made.toList, next, none)
      | .removeProperty pIndex =>
        some (shared, .withoutTransition (self.removeProperty memory pIndex), none)
      | .replacePropertyDescriptor idx newDesc =>
        some (shared, .withoutTransition (self.replacePropertyDescriptor idx newDesc), none)
      | .convertToNonTransitionStructure =>
        some (shared, .withoutTransition self.convertToNonTransitionStructure, none)
      | .findProperty name =>
        some (shared, s, some (searchProperties memory self.properties self.flags name))
      | .markReferencedByInlineCache => some (shared, s, none)
  | .withoutTransition self =>
    match method with
    | .addProperty name desc => some (shared, self.addProperty limits memory name desc, none)
    | .removeProperty pIndex =>
      some (shared, .withoutTransition (self.removeProperty memory pIndex), none)
    | .replacePropertyDescriptor idx newDesc =>
      some (shared, .withoutTransition (self.replacePropertyDescriptor idx newDesc), none)
    | .convertToNonTransitionStructure => some (shared, s, none)
    | .findProperty name =>
      some (shared, .withoutTransition (self.findProperty memory name).1,
        some (self.findProperty memory name).2)
    | .markReferencedByInlineCache => some (shared, s, none)
  | .withMap self =>
    match method with
    | .addProperty name desc =>
      (self.addProperty memory name desc).map fun next => (shared, .withMap next, none)
    | .removeProperty pIndex => some (shared, self.removeProperty limits memory pIndex, none)
    | .replacePropertyDescriptor idx newDesc =>
      some (shared, .withMap (self.replacePropertyDescriptor idx newDesc), none)
    | .convertToNonTransitionStructure => some (shared, s, none)
    | .findProperty name =>
      (self.findProperty memory name).map fun (next, found) => (shared, .withMap next, some found)
    | .markReferencedByInlineCache =>
      some (shared, .withMap { self with isReferencedByInlineCache := true }, none)

/-- The properties of a structure, as `propertyCount` and `readProperty` show
them. -/
def properties (shared : List ObjectStructureWithTransition) :
    ObjectStructure → List ObjectStructureItem
  | .withTransition number => ((shared[number]?).map (·.properties)).getD []
  | .withoutTransition self => self.properties
  | .withMap self => self.properties

/-- The answer of a search, and for every object the keys and descriptors of its
properties. -/
abbrev Observation :=
  Option (Option Nat) × List (List (PropertyKey × ObjectStructurePropertyDescriptor))

def denote (properties : List ObjectStructureItem) :
    List (PropertyKey × ObjectStructurePropertyDescriptor) :=
  properties.map fun item => (item.propertyName.key memory, item.descriptor)

variable (state : StructureState)

def observe : List (List (PropertyKey × ObjectStructurePropertyDescriptor)) :=
  state.objects.map fun s => denote memory (properties state.shared s)

/-- One operation. It does not return when a hash map cannot grow any more. -/
def step : StructureOperation → Option (StructureState × Observation)
  | .newObject preferTransition =>
    let s : ObjectStructure :=
      if preferTransition then .withTransition 0 else .withoutTransition (.make [] .none)
    let next : StructureState := { state with objects := state.objects ++ [s] }
    some (next, none, next.observe memory)
  | .call object method =>
    match state.objects[object]? with
    | none => some (state, none, state.observe memory)
    | some s =>
      (callStructure limits memory state.shared s method).map fun (shared, s, answer) =>
        let next : StructureState := ⟨shared, state.objects.set object s⟩
        (next, answer, next.observe memory)

end StructureState

variable (memory : Nat → EString) (list : List (PropertyKey × ObjectStructurePropertyDescriptor))

def plainCall : StructureMethod → List (PropertyKey × ObjectStructurePropertyDescriptor)
  | .addProperty name desc => list ++ [(name.key memory, desc)]
  | .removeProperty pIndex => list.eraseIdx pIndex
  | .replacePropertyDescriptor idx newDesc => list.modify idx fun pair => (pair.1, newDesc)
  | _ => list

def plainAnswer : StructureMethod → Option (Option Nat)
  | .findProperty name => some (list.findIdx? fun pair => pair.1 == name.key memory)
  | _ => none

def plainStep (lists : List (List (PropertyKey × ObjectStructurePropertyDescriptor))) :
    StructureOperation →
      List (List (PropertyKey × ObjectStructurePropertyDescriptor)) × StructureState.Observation
  | .newObject _ => (lists ++ [[]], none, lists ++ [[]])
  | .call object method =>
    match lists[object]? with
    | none => (lists, none, lists)
    | some list =>
      let next := plainCall memory list method
      (lists.set object next, plainAnswer memory list method, lists.set object next)

end Escargot.Runtime
