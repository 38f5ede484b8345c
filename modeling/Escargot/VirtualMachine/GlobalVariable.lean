/-
# Global variables

`GetGlobalVariable` and `SetGlobalVariable` share a slot for each name. Its three
fields say where the name was found: at an index of the global declarative record,
at an address in the values of the global object for one structure of it, or
nowhere yet. The slow cases find the name again and fill the slot.

A structure of the global object is never used again once it was left, so that a
number counts them. The values move when their vector grows.
-/

import Mathlib

namespace Escargot.Interpreter.GlobalVariable

open List Option

/-- What a property holds: a value, or the functions of an accessor. -/
inductive PropertyValue (Value Callable : Type)
  | value (value : Value)
  | getterSetter (getter setter : Option Callable)
  deriving DecidableEq

/-- How a property is read and written: in place, by native functions, or by its accessor. -/
inductive PropertyMode
  | plainData
  | nativeData (data : Nat)
  | accessor
  deriving DecidableEq

/-- A property of the global object, or of an object that it inherits from. -/
structure Property (Value Callable : Type) where
  mode : PropertyMode
  writable : Bool
  enumerable : Bool
  configurable : Bool
  held : PropertyValue Value Callable

/-- A global `let`, `const` or `class`; its value is missing until it is initialised. -/
structure IdentifierRecord (Name Value : Type) where
  name : Name
  isMutable : Bool
  storage : Option Value

/-- What the opcodes look at. The properties of the global object are in the order of its
structure, which a number stands for, as `buffer` does for the place of its values. -/
structure Environment (Name Value Callable : Type) where
  records : List (IdentifierRecord Name Value)
  objectStructure : Nat
  buffer : Nat
  properties : List (Name × Property Value Callable)
  isExtensible : Bool
  prototypes : List (Name → Option (Property Value Callable))

/-- `GlobalVariableAccessCacheItem` of a name. The index is missing where it is `SIZE_MAX`; the
address is a place in the values. -/
structure Slot where
  lexicalIndexCache : Option Nat
  cachedAddress : Option (Nat × Nat)
  cachedStructure : Option Nat

inductive ErrorCode
  | referenceError
  | typeError
  deriving DecidableEq

/-- How a read or a write ends; a function that is called goes on with what it does. -/
inductive Outcome (Value Callable : Type)
  | loaded (held : PropertyValue Value Callable)
  | undefined
  | done
  | callGetter (getter : Callable)
  | callSetter (setter : Callable) (value : Value)
  | callNativeGetter (data : Nat) (held : PropertyValue Value Callable)
  | callNativeSetter (data : Nat) (held : PropertyValue Value Callable) (value : Value)
  | error (code : ErrorCode)
  | danglingAddress
  deriving DecidableEq

variable {Name Value Callable : Type}

/-- `Object::getOwnPropertyUtilForObject`. -/
def Property.get (property : Property Value Callable) : Outcome Value Callable :=
  match property.mode with
  | .plainData => .loaded property.held
  | .nativeData data => .callNativeGetter data property.held
  | .accessor =>
    match property.held with
    | .getterSetter (some getter) _ => .callGetter getter
    | _ => .undefined

namespace Environment

variable [DecidableEq Name] (environment : Environment Name Value Callable)
  (slot : Slot) (name : Name) (value : Value) (inStrictMode moves : Bool)

/-- The index of a name in the global declarative record. -/
def findRecord : Option Nat := environment.records.findIdx? fun record => record.name = name

def findProperty : Option Nat := environment.properties.findIdx? fun property => property.1 = name

/-- The first object of the prototype chain that has the name. -/
def inherited : Option (Property Value Callable) :=
  environment.prototypes.findSome? fun object => object name

variable (index : Nat)

def storeRecord (value : Value) : Environment Name Value Callable :=
  { environment with
    records := environment.records.modify index fun record =>
      { record with storage := some value } }

def storeProperty (held : PropertyValue Value Callable) : Environment Name Value Callable :=
  { environment with
    properties := environment.properties.modify index fun property =>
      (property.1, { property.2 with held }) }

/-- A new property, with a structure of its own; `moves` if the vector of values had no room. -/
def addProperty (property : Property Value Callable) (moves : Bool) :
    Environment Name Value Callable :=
  { environment with
    objectStructure := environment.objectStructure + 1
    buffer := if moves then environment.buffer + 1 else environment.buffer
    properties := environment.properties ++ [(name, property)] }

/-- `set` has failed: this is an error in strict mode. -/
def rejected (inStrictMode : Bool) : Outcome Value Callable :=
  if inStrictMode then .error .typeError else .done

/-- `Object::set` of the global object with itself as the receiver, then
`setThrowsExceptionWhenStrictMode`. What is created has every attribute. -/
def set : Outcome Value Callable × Environment Name Value Callable :=
  let create : Outcome Value Callable × Environment Name Value Callable :=
    if environment.isExtensible then
      (.done, environment.addProperty name ⟨.plainData, true, true, true, .value value⟩ moves)
    else (rejected inStrictMode, environment)
  match environment.findProperty name with
  | some index =>
    match environment.properties[index]? with
    | none => (.danglingAddress, environment)
    | some (_, property) =>
      match property.mode with
      | .plainData =>
        if property.writable then (.done, environment.storeProperty index (.value value))
        else (rejected inStrictMode, environment)
      | .nativeData data =>
        if property.writable then
          (.callNativeSetter data property.held value, environment)
        else (rejected inStrictMode, environment)
      | .accessor =>
        match property.held with
        | .getterSetter _ (some setter) => (.callSetter setter value, environment)
        | _ => (rejected inStrictMode, environment)
  | none =>
    match environment.inherited name with
    | none => create
    | some property =>
      match property.mode with
      | .plainData => if property.writable then create else (rejected inStrictMode, environment)
      | .nativeData data =>
        if property.writable then
          (.callNativeSetter data property.held value, environment)
        else (rejected inStrictMode, environment)
      | .accessor =>
        match property.held with
        | .getterSetter _ (some setter) => (.callSetter setter value, environment)
        | _ => (rejected inStrictMode, environment)

def loadRecord : Outcome Value Callable :=
  match environment.records[index]? with
  | none => .danglingAddress
  | some record =>
    match record.storage with
    | none => .error .referenceError
    | some value => .loaded (.value value)

def assignRecord (value : Value) : Outcome Value Callable × Environment Name Value Callable :=
  match environment.records[index]? with
  | none => (.danglingAddress, environment)
  | some record =>
    if record.storage.isNone then (.error .referenceError, environment)
    else if !record.isMutable then (.error .typeError, environment)
    else (.done, environment.storeRecord index value)

variable (address : Option (Nat × Nat))

def loadAddress : Outcome Value Callable :=
  match address with
  | none => .danglingAddress
  | some (buffer, index) =>
    if buffer ≠ environment.buffer then .danglingAddress
    else
      match environment.properties[index]? with
      | none => .danglingAddress
      | some property => .loaded property.2.held

def storeAddress (value : Value) : Outcome Value Callable × Environment Name Value Callable :=
  match address with
  | none => (.danglingAddress, environment)
  | some (buffer, index) =>
    if buffer ≠ environment.buffer then (.danglingAddress, environment)
    else
      match environment.properties[index]? with
      | none => (.danglingAddress, environment)
      | some _ => (.done, environment.storeProperty index (.value value))

/-- `InterpreterSlowPath::getGlobalVariableSlowCase`, without a virtual identifier callback. -/
def getGlobalVariableSlowCase : Outcome Value Callable × Slot :=
  match environment.findRecord name with
  | some index => (environment.loadRecord index, ⟨some index, none, none⟩)
  | none =>
    match environment.findProperty name with
    | none =>
      match environment.inherited name with
      | some property => (property.get, slot)
      | none => (.error .referenceError, slot)
    | some index =>
      match environment.properties[index]? with
      | none => (.danglingAddress, slot)
      | some (_, property) =>
        if property.mode ≠ .plainData ∨ property.writable = false then
          (property.get, ⟨none, none, none⟩)
        else
          (environment.loadAddress (some (environment.buffer, index)),
            ⟨some environment.records.length, some (environment.buffer, index),
              some environment.objectStructure⟩)

def getGlobalVariable : Outcome Value Callable × Slot :=
  match slot.lexicalIndexCache with
  | none => environment.getGlobalVariableSlowCase slot name
  | some index =>
    if environment.records.length = index ∧
        slot.cachedStructure = some environment.objectStructure then
      (environment.loadAddress slot.cachedAddress, slot)
    else if slot.cachedStructure = none then (environment.loadRecord index, slot)
    else environment.getGlobalVariableSlowCase slot name

def setGlobalVariableSlowCase : (Outcome Value Callable × Environment Name Value Callable) × Slot :=
  match environment.findRecord name with
  | some index => (environment.assignRecord index value, ⟨some index, none, none⟩)
  | none =>
    match environment.findProperty name with
    | none =>
      if inStrictMode then ((.error .referenceError, environment), slot)
      else (environment.set name value inStrictMode moves, slot)
    | some index =>
      match environment.properties[index]? with
      | none => ((.danglingAddress, environment), slot)
      | some (_, property) =>
        if property.mode ≠ .plainData ∨ property.writable = false then
          (environment.set name value inStrictMode moves, ⟨none, none, none⟩)
        else
          ((.done, environment.storeProperty index (.value value)),
            ⟨some environment.records.length, some (environment.buffer, index),
              some environment.objectStructure⟩)

def setGlobalVariable : (Outcome Value Callable × Environment Name Value Callable) × Slot :=
  match slot.lexicalIndexCache with
  | none => environment.setGlobalVariableSlowCase slot name value inStrictMode moves
  | some index =>
    if environment.records.length = index ∧
        slot.cachedStructure = some environment.objectStructure then
      (environment.storeAddress slot.cachedAddress value, slot)
    else if slot.cachedStructure = none then (environment.assignRecord index value, slot)
    else environment.setGlobalVariableSlowCase slot name value inStrictMode moves

/-- A read: the records, then the global object, then its prototype chain. -/
def resolveGet : Outcome Value Callable :=
  match environment.findRecord name with
  | some index => environment.loadRecord index
  | none =>
    match ((environment.findProperty name).bind (environment.properties[·]?)).map Prod.snd with
    | some property => property.get
    | none =>
      match environment.inherited name with
      | some property => property.get
      | none => .error .referenceError

/-- A write: a name that is nowhere is an error in strict mode. -/
def resolveSet : Outcome Value Callable × Environment Name Value Callable :=
  match environment.findRecord name with
  | some index => environment.assignRecord index value
  | none =>
    if inStrictMode ∧ environment.findProperty name = none ∧ environment.inherited name = none then
      (.error .referenceError, environment)
    else environment.set name value inStrictMode moves

/-- The name is only on the prototype chain. -/
def OnlyInherited : Prop :=
  environment.findRecord name = none ∧ environment.findProperty name = none ∧
    environment.inherited name ≠ none

end Environment

/-- The environment and the slot of every name. -/
structure State (Name Value Callable : Type) where
  environment : Environment Name Value Callable
  slots : Name → Slot

/-- What happens to the global environment. A property is defined with a new structure unless its
attributes are the ones it has. -/
inductive Operation (Name Value Callable : Type)
  | getGlobalVariable (name : Name)
  | setGlobalVariable (name : Name) (value : Value) (inStrictMode moves : Bool)
  | defineProperty (name : Name) (property : Property Value Callable) (moves : Bool)
  | deleteProperty (name : Name) (moves : Bool)
  | preventExtensions
  | changePrototypes (prototypes : List (Name → Option (Property Value Callable)))
  | declare (name : Name) (isMutable : Bool)
  | initializeBinding (name : Name) (value : Value)

variable [DecidableEq Name] (environment : Environment Name Value Callable)

/-- A property that is there is redefined in place, with a new structure if an attribute changes. -/
def Environment.defineProperty (name : Name)
    (property : Property Value Callable) (moves : Bool) : Environment Name Value Callable :=
  match environment.findProperty name with
  | none => environment.addProperty name property moves
  | some index =>
    match environment.properties[index]? with
    | none => environment
    | some (_, old) =>
      if (old.mode, old.writable, old.enumerable, old.configurable) =
          (property.mode, property.writable, property.enumerable, property.configurable) then
        environment.storeProperty index property.held
      else
        { environment with
          objectStructure := environment.objectStructure + 1
          properties := environment.properties.modify index fun found => (found.1, property) }

def Environment.change : Operation Name Value Callable → Environment Name Value Callable
  | .getGlobalVariable _ => environment
  | .setGlobalVariable .. => environment
  | .defineProperty name property moves => environment.defineProperty name property moves
  | .deleteProperty name moves =>
    match environment.findProperty name with
    | none => environment
    | some index =>
      { environment with
        objectStructure := environment.objectStructure + 1
        buffer := if moves then environment.buffer + 1 else environment.buffer
        properties := environment.properties.eraseIdx index }
  | .preventExtensions => { environment with isExtensible := false }
  | .changePrototypes prototypes => { environment with prototypes }
  | .declare name isMutable =>
    { environment with records := environment.records ++ [⟨name, isMutable, none⟩] }
  | .initializeBinding name value =>
    match environment.findRecord name with
    | none => environment
    | some index => environment.storeRecord index value

def State.step (state : State Name Value Callable) :
    Operation Name Value Callable → State Name Value Callable
  | .getGlobalVariable name =>
    { state with
      slots := Function.update state.slots name
        (state.environment.getGlobalVariable (state.slots name) name).2 }
  | .setGlobalVariable name value inStrictMode moves =>
    let result := state.environment.setGlobalVariable (state.slots name) name value
      inStrictMode moves
    { environment := result.1.2, slots := Function.update state.slots name result.2 }
  | operation => { state with environment := state.environment.change operation }

/-- The state after a history, from an environment that no opcode has looked at. -/
def State.run (history : List (Operation Name Value Callable)) : State Name Value Callable :=
  history.foldl State.step ⟨environment, fun _ => ⟨none, none, none⟩⟩

theorem getElem?_of_findIdx? {α : Type} {p : α → Bool} {xs : List α} {index : Nat}
    (h : xs.findIdx? p = some index) : ∃ x, xs[index]? = some x ∧ p x = true := by
  obtain ⟨hlt, hpos, -⟩ := List.findIdx?_eq_some_iff_getElem.mp h
  exact ⟨xs[index], getElem?_eq_getElem hlt, hpos⟩

namespace Environment

/-- Records are added only, and a structure that stays has the names, the modes and the values
where they were. -/
structure Evolves (environment later : Environment Name Value Callable) : Prop where
  records : ∃ more, later.records.map IdentifierRecord.name =
    environment.records.map IdentifierRecord.name ++ more
  properties : environment.objectStructure < later.objectStructure ∨
    later.objectStructure = environment.objectStructure ∧ later.buffer = environment.buffer ∧
      later.properties.map (fun found => (found.1, found.2.mode, found.2.writable)) =
        environment.properties.map fun found => (found.1, found.2.mode, found.2.writable)

variable {environment later : Environment Name Value Callable} {name : Name}

omit [DecidableEq Name] in
theorem Evolves.refl (environment : Environment Name Value Callable) :
    Evolves environment environment :=
  ⟨⟨[], (append_nil _).symm⟩, .inr ⟨rfl, rfl, rfl⟩⟩

omit [DecidableEq Name] in
theorem Evolves.of_newStructure (hrecords : later.records = environment.records)
    (hstructure : later.objectStructure = environment.objectStructure + 1) :
    Evolves environment later :=
  ⟨⟨[], by rw [hrecords, append_nil]⟩, .inl (by omega)⟩

theorem map_modify {α β : Type} {f : α → β} {g : α → α} (hkeep : ∀ x, f (g x) = f x) :
    ∀ (xs : List α) (index : Nat), (xs.modify index g).map f = xs.map f
  | [], _ => by simp
  | x :: xs, 0 => by simp [hkeep]
  | x :: xs, index + 1 => by simp [map_modify hkeep xs index]

section

omit [DecidableEq Name]

theorem evolves_storeRecord (index : Nat) (value : Value) :
    Evolves environment (environment.storeRecord index value) := by
  refine ⟨⟨[], ?_⟩, .inr ⟨rfl, rfl, rfl⟩⟩
  rw [append_nil]
  apply map_modify
  exact fun _ => rfl

theorem evolves_storeProperty (index : Nat) (held : PropertyValue Value Callable) :
    Evolves environment (environment.storeProperty index held) := by
  refine ⟨⟨[], (append_nil _).symm⟩, .inr ⟨rfl, rfl, ?_⟩⟩
  apply map_modify
  exact fun _ => rfl

theorem evolves_addProperty (property : Property Value Callable) (moves : Bool) :
    Evolves environment (environment.addProperty name property moves) :=
  .of_newStructure rfl rfl

end

theorem evolves_set (value : Value) (inStrictMode moves : Bool) :
    Evolves environment (environment.set name value inStrictMode moves).2 := by
  have hcreate : Evolves environment
      (if environment.isExtensible then
        ((.done : Outcome Value Callable), environment.addProperty name
          ⟨.plainData, true, true, true, .value value⟩ moves)
      else (rejected inStrictMode, environment)).2 := by
    split
    · exact evolves_addProperty _ moves
    · exact .refl environment
  simp only [set]
  split
  · split
    · exact .refl environment
    · split
      · split
        · exact evolves_storeProperty _ _
        · exact .refl environment
      · split <;> exact .refl environment
      · split <;> exact .refl environment
  · split
    · exact hcreate
    · split
      · split
        · exact hcreate
        · exact .refl environment
      · split <;> exact .refl environment
      · split <;> exact .refl environment

omit [DecidableEq Name] in
theorem evolves_assignRecord (index : Nat) (value : Value) :
    Evolves environment (environment.assignRecord index value).2 := by
  rw [assignRecord]
  split
  · exact .refl environment
  · split
    · exact .refl environment
    · split
      · exact .refl environment
      · exact evolves_storeRecord index value

omit [DecidableEq Name] in
theorem evolves_storeAddress (address : Option (Nat × Nat)) (value : Value) :
    Evolves environment (environment.storeAddress address value).2 := by
  rw [storeAddress.eq_def]
  split
  · exact .refl environment
  · split
    · exact .refl environment
    · split
      · exact .refl environment
      · exact evolves_storeProperty _ _

theorem evolves_change (operation : Operation Name Value Callable) :
    Evolves environment (environment.change operation) := by
  cases operation with
  | getGlobalVariable name => exact .refl environment
  | setGlobalVariable name value inStrictMode moves => exact .refl environment
  | defineProperty name property moves =>
    rw [change, defineProperty]
    split
    · exact evolves_addProperty property moves
    · split
      · exact .refl environment
      · split
        · exact evolves_storeProperty _ _
        · exact .of_newStructure rfl rfl
  | deleteProperty name moves =>
    rw [change]
    split
    · exact .refl environment
    · exact .of_newStructure rfl rfl
  | preventExtensions => exact ⟨⟨[], (append_nil _).symm⟩, .inr ⟨rfl, rfl, rfl⟩⟩
  | changePrototypes prototypes => exact ⟨⟨[], (append_nil _).symm⟩, .inr ⟨rfl, rfl, rfl⟩⟩
  | declare name isMutable => exact ⟨⟨[name], by simp [change]⟩, .inr ⟨rfl, rfl, rfl⟩⟩
  | initializeBinding name value =>
    rw [change]
    split
    · exact .refl environment
    · exact evolves_storeRecord _ value

variable (environment) (name)

theorem findRecord_eq : environment.findRecord name =
      (environment.records.map IdentifierRecord.name).findIdx? fun other => other = name := by
  rw [findRecord, findIdx?_map]
  rfl

theorem findProperty_eq : environment.findProperty name =
      (environment.properties.map fun found => (found.1, found.2.mode, found.2.writable)).findIdx?
        fun found => found.1 = name := by
  rw [findProperty, findIdx?_map]
  rfl

variable {environment} {name}

theorem Evolves.findRecord (h : Evolves environment later) {index : Nat}
    (hfound : environment.findRecord name = some index) : later.findRecord name = some index := by
  obtain ⟨more, hmore⟩ := h.records
  rw [findRecord_eq] at hfound ⊢
  rw [hmore, findIdx?_append, hfound]
  rfl

theorem getElem?_of_findProperty {index : Nat} (h : environment.findProperty name = some index) :
    ∃ property, environment.properties[index]? = some (name, property) := by
  obtain ⟨⟨found, property⟩, hproperty, hname⟩ := getElem?_of_findIdx? h
  cases of_decide_eq_true hname
  exact ⟨property, hproperty⟩

end Environment

/-- A slot with no structure has the index of the record of its name, if it has an index at all.
One with a structure was filled when there were as many records as its index says and none of
them was of the name; while the structure is there, the address is that of the name, whose property
is written in place. -/
structure Slot.Valid (environment : Environment Name Value Callable) (name : Name) (slot : Slot) :
    Prop where
  lexical : slot.cachedStructure = none →
    ∀ index ∈ slot.lexicalIndexCache, environment.findRecord name = some index
  global : ∀ cachedStructure ∈ slot.cachedStructure, cachedStructure ≤ environment.objectStructure ∧
    ∃ count, slot.lexicalIndexCache = some count ∧ count ≤ environment.records.length ∧
      name ∉ (environment.records.map IdentifierRecord.name).take count
  address : slot.cachedStructure = some environment.objectStructure →
    ∃ index property, slot.cachedAddress = some (environment.buffer, index) ∧
      environment.findProperty name = some index ∧
      environment.properties[index]? = some (name, property) ∧
      property.mode = .plainData ∧ property.writable = true

namespace Slot.Valid

variable {environment later : Environment Name Value Callable} {name : Name} {slot : Slot}

theorem empty (environment : Environment Name Value Callable) (name : Name) :
    Slot.Valid environment name ⟨none, none, none⟩ :=
  ⟨fun _ _ h => (by cases h), fun _ h => (by cases h), fun h => (by cases h)⟩

theorem ofRecord {index : Nat} (h : environment.findRecord name = some index) :
    Slot.Valid environment name ⟨some index, none, none⟩ :=
  ⟨fun _ _ hmem => (by cases hmem; exact h), fun _ h => (by cases h), fun h => (by cases h)⟩

theorem ofProperty {index : Nat} {property : Property Value Callable}
    (hrecord : environment.findRecord name = none)
    (hfound : environment.findProperty name = some index)
    (hproperty : environment.properties[index]? = some (name, property))
    (hmode : property.mode = .plainData) (hwritable : property.writable = true) :
    Slot.Valid environment name ⟨some environment.records.length,
      some (environment.buffer, index), some environment.objectStructure⟩ := by
  refine ⟨fun h => (by cases h), fun cachedStructure h => ?_,
    fun _ => ⟨index, property, rfl, hfound, hproperty, hmode, hwritable⟩⟩
  cases h
  refine ⟨le_refl _, _, rfl, le_refl _, fun hmem => ?_⟩
  rw [Environment.findRecord_eq, findIdx?_eq_none_iff] at hrecord
  simpa using hrecord name (mem_of_mem_take hmem)

theorem evolve (hvalid : Slot.Valid environment name slot)
    (hevolves : environment.Evolves later) : Slot.Valid later name slot := by
  obtain ⟨more, hmore⟩ := hevolves.records
  have hlength : environment.records.length ≤ later.records.length := by
    have hlengths := congrArg List.length hmore
    simp only [length_map, length_append] at hlengths
    omega
  refine ⟨fun hnone index hindex => hevolves.findRecord (hvalid.lexical hnone index hindex),
    fun cachedStructure hsome => ?_, fun hsame => ?_⟩
  · obtain ⟨hle, count, hcount, hcountLe, hnotMem⟩ := hvalid.global cachedStructure hsome
    refine ⟨?_, count, hcount, hcountLe.trans hlength, ?_⟩
    · rcases hevolves.properties with hnew | ⟨hstructure, -⟩ <;> omega
    · rw [hmore, take_append_of_le_length (by simpa using hcountLe)]
      exact hnotMem
  · have hle := (hvalid.global _ hsame).1
    rcases hevolves.properties with hnew | ⟨hstructure, hbuffer, hproperties⟩
    · omega
    · rw [hstructure] at hsame
      obtain ⟨index, property, haddress, hfound, hproperty, hmode, hwritable⟩ :=
        hvalid.address hsame
      have hfoundLater : later.findProperty name = some index := by
        rw [Environment.findProperty_eq, hproperties, ← Environment.findProperty_eq, hfound]
      obtain ⟨property', hproperty'⟩ := Environment.getElem?_of_findProperty hfoundLater
      have hkey := congrArg (fun keys => keys[index]?) hproperties
      simp only [getElem?_map, hproperty', hproperty, map_some, Option.some.injEq,
        Prod.mk.injEq, true_and] at hkey
      exact ⟨index, property', by rw [hbuffer, haddress], hfoundLater, hproperty',
        hkey.1.trans hmode, hkey.2.trans hwritable⟩

end Slot.Valid

namespace Environment

variable {environment : Environment Name Value Callable} {name : Name} {slot : Slot}
  {index : Nat} {property : Property Value Callable}

theorem resolveGet_of_property (hrecord : environment.findRecord name = none)
    (hfound : environment.findProperty name = some index)
    (hproperty : environment.properties[index]? = some (name, property)) :
    environment.resolveGet name = property.get := by
  simp only [resolveGet, hrecord, hfound, bind_some, hproperty, map_some]

omit [DecidableEq Name] in
theorem loadAddress_eq_get (hproperty : environment.properties[index]? = some (name, property))
    (hmode : property.mode = .plainData) :
    environment.loadAddress (some (environment.buffer, index)) = property.get := by
  simp only [loadAddress, ne_eq, not_true_eq_false, if_false, hproperty, Property.get, hmode]

theorem findRecord_of_hit (hvalid : Slot.Valid environment name slot)
    (hcount : slot.lexicalIndexCache = some environment.records.length)
    (hstructure : slot.cachedStructure = some environment.objectStructure) :
    environment.findRecord name = none := by
  obtain ⟨-, count, hcount', -, hnotMem⟩ := hvalid.global _ hstructure
  rw [hcount] at hcount'
  cases hcount'
  rw [take_of_length_le (by simp)] at hnotMem
  rw [findRecord_eq, findIdx?_eq_none_iff]
  intro other hother
  refine decide_eq_false fun heq => hnotMem ?_
  rw [← heq]
  exact hother

theorem getGlobalVariableSlowCase_spec (hvalid : Slot.Valid environment name slot) :
    (environment.getGlobalVariableSlowCase slot name).1 = environment.resolveGet name ∧
      Slot.Valid environment name (environment.getGlobalVariableSlowCase slot name).2 := by
  rw [getGlobalVariableSlowCase]
  cases hrecord : environment.findRecord name with
  | some index => exact ⟨by rw [resolveGet, hrecord], .ofRecord hrecord⟩
  | none =>
    cases hfound : environment.findProperty name with
    | none =>
      cases hinherited : environment.inherited name with
      | some property => exact ⟨by simp [resolveGet, hrecord, hfound, hinherited], hvalid⟩
      | none => exact ⟨by simp [resolveGet, hrecord, hfound, hinherited], hvalid⟩
    | some index =>
      obtain ⟨property, hproperty⟩ := getElem?_of_findProperty hfound
      have hresolve := resolveGet_of_property hrecord hfound hproperty
      simp only [hproperty]
      split
      · exact ⟨hresolve.symm, .empty environment name⟩
      · rename_i hplain
        rw [not_or, not_not, Bool.not_eq_false] at hplain
        exact ⟨(loadAddress_eq_get hproperty hplain.1).trans hresolve.symm,
          .ofProperty hrecord hfound hproperty hplain.1 hplain.2⟩

theorem getGlobalVariable_spec (hvalid : Slot.Valid environment name slot) :
    (environment.getGlobalVariable slot name).1 = environment.resolveGet name ∧
      Slot.Valid environment name (environment.getGlobalVariable slot name).2 := by
  rw [getGlobalVariable]
  cases hindex : slot.lexicalIndexCache with
  | none => exact getGlobalVariableSlowCase_spec hvalid
  | some index =>
    simp only
    split
    · rename_i hhit
      obtain ⟨rfl, hstructure⟩ := hhit
      obtain ⟨place, property, haddress, hfound, hproperty, hmode, -⟩ := hvalid.address hstructure
      have hrecord := findRecord_of_hit hvalid hindex hstructure
      rw [haddress, resolveGet_of_property hrecord hfound hproperty]
      exact ⟨loadAddress_eq_get hproperty hmode, hvalid⟩
    · split
      · rename_i hnone
        exact ⟨by rw [resolveGet, hvalid.lexical hnone index hindex], hvalid⟩
      · exact getGlobalVariableSlowCase_spec hvalid

section Set

variable {value : Value} {inStrictMode moves : Bool}
  {index : Nat} {property : Property Value Callable}

theorem resolveSet_of_property (hrecord : environment.findRecord name = none)
    (hfound : environment.findProperty name = some index) :
    environment.resolveSet name value inStrictMode moves =
      environment.set name value inStrictMode moves := by
  simp [resolveSet, hrecord, hfound]

theorem set_of_plainData (hfound : environment.findProperty name = some index)
    (hproperty : environment.properties[index]? = some (name, property))
    (hmode : property.mode = .plainData) (hwritable : property.writable = true) :
    environment.set name value inStrictMode moves =
      (.done, environment.storeProperty index (.value value)) := by
  simp only [set, hfound, hproperty, hmode, hwritable, if_true]

omit [DecidableEq Name] in
theorem storeAddress_eq (hproperty : environment.properties[index]? = some (name, property)) :
    environment.storeAddress (some (environment.buffer, index)) value =
      (.done, environment.storeProperty index (.value value)) := by
  simp only [storeAddress, ne_eq, not_true_eq_false, if_false, hproperty]

theorem set_ne_referenceError :
    (environment.set name value inStrictMode moves).1 ≠ .error .referenceError := by
  have hrejected : (rejected inStrictMode : Outcome Value Callable) ≠ .error .referenceError := by
    cases inStrictMode <;> simp [rejected]
  simp only [set]
  repeat' split
  all_goals first | exact hrejected | simp

theorem setGlobalVariableSlowCase_spec (hvalid : Slot.Valid environment name slot) :
    ((environment.setGlobalVariableSlowCase slot name value inStrictMode moves).1 =
        environment.resolveSet name value inStrictMode moves ↔
      ¬ (inStrictMode = true ∧ environment.OnlyInherited name)) ∧
    Slot.Valid environment name
      (environment.setGlobalVariableSlowCase slot name value inStrictMode moves).2 := by
  rw [setGlobalVariableSlowCase]
  cases hrecord : environment.findRecord name with
  | some index =>
    refine ⟨iff_of_true ?_ ?_, .ofRecord hrecord⟩
    · rw [resolveSet, hrecord]
    · simp [OnlyInherited, hrecord]
  | none =>
    cases hfound : environment.findProperty name with
    | none =>
      cases hstrict : inStrictMode with
      | false =>
        refine ⟨iff_of_true ?_ (by simp), hvalid⟩
        simp [resolveSet, hrecord]
      | true =>
        refine ⟨?_, hvalid⟩
        cases hinherited : environment.inherited name with
        | none =>
          refine iff_of_true ?_ ?_
          · simp [resolveSet, hrecord, hfound, hinherited]
          · simp [OnlyInherited, hinherited]
        | some property =>
          refine iff_of_false (fun heq => ?_) ?_
          · have hset := congrArg Prod.fst heq
            simp only [resolveSet, hrecord, hinherited, reduceCtorEq, and_false,
              if_false, if_true] at hset
            exact set_ne_referenceError hset.symm
          · simp [OnlyInherited, hrecord, hfound, hinherited]
    | some index =>
      obtain ⟨property, hproperty⟩ := getElem?_of_findProperty hfound
      have hresolve : environment.resolveSet name value inStrictMode moves =
          environment.set name value inStrictMode moves :=
        resolveSet_of_property hrecord hfound
      have honly : ¬ (inStrictMode = true ∧ environment.OnlyInherited name) := by
        simp [OnlyInherited, hfound]
      simp only [hproperty]
      split
      · exact ⟨iff_of_true hresolve.symm honly, .empty environment name⟩
      · rename_i hplain
        rw [not_or, not_not, Bool.not_eq_false] at hplain
        refine ⟨iff_of_true ?_ honly, .ofProperty hrecord hfound hproperty hplain.1 hplain.2⟩
        rw [hresolve, set_of_plainData hfound hproperty hplain.1 hplain.2]

theorem setGlobalVariable_spec (hvalid : Slot.Valid environment name slot) :
    ((environment.setGlobalVariable slot name value inStrictMode moves).1 =
        environment.resolveSet name value inStrictMode moves ↔
      ¬ (inStrictMode = true ∧ environment.OnlyInherited name)) ∧
    Slot.Valid environment name
      (environment.setGlobalVariable slot name value inStrictMode moves).2 := by
  rw [setGlobalVariable]
  cases hindex : slot.lexicalIndexCache with
  | none => exact setGlobalVariableSlowCase_spec hvalid
  | some index =>
    simp only
    split
    · rename_i hhit
      obtain ⟨rfl, hstructure⟩ := hhit
      obtain ⟨place, property, haddress, hfound, hproperty, hmode, hwritable⟩ :=
        hvalid.address hstructure
      have hrecord := findRecord_of_hit hvalid hindex hstructure
      refine ⟨iff_of_true ?_ (by simp [OnlyInherited, hfound]), hvalid⟩
      rw [haddress, storeAddress_eq hproperty, resolveSet_of_property hrecord hfound,
        set_of_plainData hfound hproperty hmode hwritable]
    · split
      · rename_i hnone
        have hrecord := hvalid.lexical hnone index hindex
        refine ⟨iff_of_true ?_ (by simp [OnlyInherited, hrecord]), hvalid⟩
        rw [resolveSet, hrecord]
      · exact setGlobalVariableSlowCase_spec hvalid

theorem evolves_setGlobalVariable : Evolves environment
      (environment.setGlobalVariable slot name value inStrictMode moves).1.2 := by
  have hslow : Evolves environment
      (environment.setGlobalVariableSlowCase slot name value inStrictMode moves).1.2 := by
    rw [setGlobalVariableSlowCase]
    split
    · exact evolves_assignRecord _ value
    · split
      · split
        · exact .refl environment
        · exact evolves_set value inStrictMode moves
      · split
        · exact .refl environment
        · split
          · exact evolves_set value inStrictMode moves
          · exact evolves_storeProperty _ _
  rw [setGlobalVariable]
  split
  · exact hslow
  · split
    · exact evolves_storeAddress _ value
    · split
      · exact evolves_assignRecord _ value
      · exact hslow

end Set

end Environment

def State.Valid (state : State Name Value Callable) : Prop :=
  ∀ name, Slot.Valid state.environment name (state.slots name)

theorem State.Valid.step {state : State Name Value Callable} (hvalid : state.Valid)
    (operation : Operation Name Value Callable) : (state.step operation).Valid := by
  have hchange : ∀ operation other,
      Slot.Valid (state.environment.change operation) other (state.slots other) :=
    fun operation other => (hvalid other).evolve (Environment.evolves_change operation)
  cases operation with
  | getGlobalVariable name =>
    intro other
    by_cases hname : other = name
    · cases hname
      simp only [State.step, Function.update_self]
      exact (Environment.getGlobalVariable_spec (hvalid _)).2
    · simp only [State.step, Function.update_of_ne hname]
      exact hvalid other
  | setGlobalVariable name value inStrictMode moves =>
    intro other
    by_cases hname : other = name
    · cases hname
      simp only [State.step, Function.update_self]
      exact (Environment.setGlobalVariable_spec (hvalid _)).2.evolve
        Environment.evolves_setGlobalVariable
    · simp only [State.step, Function.update_of_ne hname]
      exact (hvalid other).evolve Environment.evolves_setGlobalVariable
  | defineProperty name property moves => exact hchange (.defineProperty name property moves)
  | deleteProperty name moves => exact hchange (.deleteProperty name moves)
  | preventExtensions => exact hchange (.preventExtensions)
  | changePrototypes prototypes => exact hchange (.changePrototypes prototypes)
  | declare name isMutable => exact hchange (.declare name isMutable)
  | initializeBinding name value => exact hchange (.initializeBinding name value)

theorem State.valid_run (environment : Environment Name Value Callable)
    (history : List (Operation Name Value Callable)) : (State.run environment history).Valid := by
  apply List.foldlRecOn history
  · exact fun name => .empty environment name
  · exact fun _ hvalid operation _ => hvalid.step operation

/-- After every history a read answers what the name resolves to, a write does what it resolves to
unless it is a strict one of a name that is only inherited, and an address that the structure
vouches for is the one of the name in the present values. -/
theorem globalVariable_resolves_iff (environment : Environment Name Value Callable)
    (history : List (Operation Name Value Callable)) (name : Name) :
    let state := State.run environment history
    (state.environment.getGlobalVariable (state.slots name) name).1 =
        state.environment.resolveGet name ∧
      (∀ value inStrictMode moves,
        (state.environment.setGlobalVariable (state.slots name) name value inStrictMode moves).1 =
            state.environment.resolveSet name value inStrictMode moves ↔
          ¬ (inStrictMode = true ∧ state.environment.OnlyInherited name)) ∧
      ((state.slots name).cachedStructure = some state.environment.objectStructure →
        ∃ index, (state.slots name).cachedAddress = some (state.environment.buffer, index) ∧
          state.environment.findProperty name = some index) := by
  intro state
  have hvalid : Slot.Valid state.environment name (state.slots name) :=
    State.valid_run environment history name
  refine ⟨(Environment.getGlobalVariable_spec hvalid).1,
    fun value inStrictMode moves => (Environment.setGlobalVariable_spec hvalid).1, fun hsame => ?_⟩
  obtain ⟨index, -, haddress, hfound, -⟩ := hvalid.address hsame
  exact ⟨index, haddress, hfound⟩

/-- A global object whose prototype has a property 0 of the value 1. -/
def inheritingEnvironment : Environment Nat Nat Nat where
  records := []
  objectStructure := 0
  buffer := 0
  properties := []
  isExtensible := true
  prototypes := [fun name =>
    if name = 0 then some ⟨.plainData, true, true, true, .value 1⟩ else none]

/-- A strict write of an inherited name is refused, where one that resolves the name creates a
property. -/
theorem strict_write_of_inherited_name_is_refused :
    ¬ ∀ (environment : Environment Nat Nat Nat) (history : List (Operation Nat Nat Nat))
        (name value : Nat) (inStrictMode moves : Bool),
      ((State.run environment history).environment.setGlobalVariable
          ((State.run environment history).slots name) name value inStrictMode moves).1 =
        (State.run environment history).environment.resolveSet name value inStrictMode moves := by
  intro hresolves
  have hwrite := congrArg Prod.fst (hresolves inheritingEnvironment [] 0 2 true false)
  revert hwrite
  decide

end Escargot.Interpreter.GlobalVariable
