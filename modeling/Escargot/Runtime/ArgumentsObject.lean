/-
# Arguments objects

An arguments object keeps its indexed arguments outside its property slots, in
a map whose entries hold a value or name a parameter of the function. Only when
the attributes of an index change does the index get a slot, and then the slot
holds the attributes while the map keeps the value. The abstract object is that
of the specification: an ordinary object with a parameter map beside it.

Parameter assignments go to the function's environment record, which is part of
the state here.
-/

import Escargot.Runtime.GetResult

namespace Escargot.Runtime

open Foundation

/-- Property keys: the indexes, the keys every arguments object starts with, and the others. -/
inductive ArgumentsKey (κ : Type)
  | index (i : Nat)
  | length
  | iterator
  | callee
  | other (key : κ)
  deriving DecidableEq

def ArgumentsKey.tryToUseAsIndexProperty {κ : Type} : ArgumentsKey κ → Option Nat
  | index i => some i
  | _ => none

abbrev ScriptValue := {v : Value // v.isEmpty = false}

inductive SetReceiver
  | self
  | otherObject
  | primitive
  deriving DecidableEq

/-- What a `set` ends with: a result, a setter that is called, or a step that goes on in the
prototype or in the receiver, without the object. -/
inductive SetAnswer
  | returned (success : Bool)
  | callsSetter (setter : AccessorFunction)
  | goesToPrototype
  | goesToReceiver
  deriving DecidableEq

/-- A descriptor whose value, if it has one, is a value of a script. -/
structure ArgumentsDescriptor extends CallerDescriptor where
  isScriptValue : desc.value.isEmpty = false

/-- The operations on an arguments object and on the parameters of its function. What the
prototype chain finds is an input. -/
inductive ArgumentsOp (N κ : Type)
  | assignParameter (name : N) (v : ScriptValue)
  | readParameter (name : N)
  | getOwnProperty (key : ArgumentsKey κ)
  | get (key : ArgumentsKey κ) (receiver : Value) (inherited : Option GetResult)
  | getIndexedProperty (key : ArgumentsKey κ) (receiver : Value) (inherited : Option GetResult)
  | getIndexedPropertyValue (key : ArgumentsKey κ) (property receiver : Value)
      (inherited : Option GetResult)
  | hasProperty (key : ArgumentsKey κ) (inherited : Bool)
  | hasIndexedProperty (key : ArgumentsKey κ) (inherited : Bool)
  | set (key : ArgumentsKey κ) (v : ScriptValue) (receiver : SetReceiver)
  | setIndexedProperty (key : ArgumentsKey κ) (v : ScriptValue)
  | defineOwnProperty (key : ArgumentsKey κ) (desc : ArgumentsDescriptor)
  | deleteOwnProperty (key : ArgumentsKey κ)
  | preventExtensions

inductive ArgumentsAnswer
  | done
  | value (v : ObservedValue)
  | property (fields : Option (PropertyFields ObservedValue AccessorFunction))
  | lookup (answer : LookupAnswer ObservedValue)
  | boolean (b : Bool)
  | set (answer : SetAnswer)
  deriving DecidableEq

/-- An entry of `m_parameterMap`: a value, empty once the argument is unmapped, and the name of
the parameter it stands for. -/
structure ParameterMapEntry (N : Type) where
  first : EncodedValue
  second : Option N

/-- An arguments object with the record its parameters live in. `m_modifiedArguments` is
allocated when an argument first gets a slot. -/
structure ArgumentsObject (N κ : Type) where
  argc : Nat
  parameterMap : Nat → ParameterMapEntry N
  modifiedArguments : Option (Nat → Bool)
  object : PropertyObject (ArgumentsKey κ) Empty
  targetRecord : N → Value

/-- What the constructor stores besides the arguments. -/
structure ArgumentsBuiltins where
  arrayPrototypeValues : Value
  sourceFunctionObject : Value
  thrower : AccessorFunction

namespace ArgumentsObject

variable {N κ : Type} [DecidableEq N] [DecidableEq κ]

variable (a : ArgumentsObject N κ) (key : ArgumentsKey κ) (property : Value)
  (inherited : Option GetResult)

variable (index : Option Nat)

def isModifiedArgument : Bool :=
  match a.modifiedArguments with
  | none => false
  | some modified =>
    match index with
    | some i => decide (i < a.argc) && modified i
    | none => false

def isMatchedArgument : Bool :=
  match index with
  | some i => decide (i < a.argc) && !(a.parameterMap i).first.isEmpty
  | none => false

def setModifiedArgument : ArgumentsObject N κ :=
  match index with
  | some i =>
    let modified := a.modifiedArguments.getD fun _ => false
    let modified := if i < a.argc then Function.update modified i true else modified
    { a with modifiedArguments := some modified }
  | none => a

variable (i : Nat) (v : Value)

/-- `ArgumentsObjectNativeGetter` for an entry with a name, else the value in the map. -/
def getIndexedPropertyValueQuickly : Value :=
  match (a.parameterMap i).second with
  | some name => a.targetRecord name
  | none => (a.parameterMap i).first.toValue

/-- `ArgumentsObjectNativeSetter` for an entry with a name, else the entry itself. -/
def setIndexedPropertyValueQuickly : ArgumentsObject N κ :=
  match (a.parameterMap i).second with
  | some name => { a with targetRecord := Function.update a.targetRecord name v }
  | none =>
    let entry := ⟨(a.parameterMap i).first.assign v, none⟩
    { a with parameterMap := Function.update a.parameterMap i entry }

/-- `m_parameterMap[index].first = Value(Value::EmptyValue)`. -/
def unmap : ArgumentsObject N κ :=
  let entry := ⟨⟨.empty⟩, (a.parameterMap i).second⟩
  { a with parameterMap := Function.update a.parameterMap i entry }

/-- `Object::getOwnProperty`. -/
def getOwnPropertyOfObject : Option GetResult := (a.object.properties key).map GetResult.ofProperty

def getOwnProperty : Option GetResult :=
  match key.tryToUseAsIndexProperty with
  | some i =>
    if !a.isModifiedArgument (some i) && a.isMatchedArgument (some i) then
      some (.data (a.getIndexedPropertyValueQuickly i) true true true)
    else
      let result := a.getOwnPropertyOfObject key
      if a.isMatchedArgument (some i) then
        result.map (·.withValue (a.getIndexedPropertyValueQuickly i))
      else result
  | none => a.getOwnPropertyOfObject key

def hasProperty (inherited : Bool) : Bool :=
  let index := key.tryToUseAsIndexProperty
  if !a.isModifiedArgument index && a.isMatchedArgument index then true
  else (a.getOwnProperty key).isSome || inherited

variable (desc : PropertyDescriptor)

/-- `DerivedObject::defineOwnProperty`. -/
def defineInObject : ArgumentsObject N κ × DefineCompletion :=
  let result := a.object.defineOwnPropertyMethod key desc
  ({ a with object := result.1 }, result.2)

/-- The slot an argument gets, made even when the object is not extensible. -/
def initializeProperty : ArgumentsObject N κ :=
  let a := a.setModifiedArgument (some i)
  let extensibleBefore := a.object.isExtensible
  let initDesc : PropertyDescriptor :=
    .data (some (a.getIndexedPropertyValueQuickly i)) (some true) (some true) (some true)
  let unlimited : PropertyObject (ArgumentsKey κ) Empty := { a.object with isExtensible := true }
  let defined := (unlimited.defineOwnPropertyMethod key initDesc).1
  { a with object := { defined with isExtensible := extensibleBefore } }

def defineOwnProperty : ArgumentsObject N κ × DefineCompletion :=
  match key.tryToUseAsIndexProperty with
  | none => a.defineInObject key desc
  | some i =>
    if a.isMatchedArgument (some i) then
      let a := if desc.isValuePresent then a.setIndexedPropertyValueQuickly i desc.value else a
      if desc.isWritable && desc.isConfigurable && desc.isEnumerable &&
          !desc.isAccessorDescriptor && !a.isModifiedArgument (some i) then
        (a, .returned true)
      else
        let a := if !a.isModifiedArgument (some i) then a.initializeProperty key i else a
        if (desc.isWritablePresent && !desc.isWritable) || desc.isAccessorDescriptor then
          let newDesc :=
            if !desc.isAccessorDescriptor then desc.setValue (a.getIndexedPropertyValueQuickly i)
            else desc
          ((a.unmap i).setModifiedArgument (some i)).defineInObject key newDesc
        else a.defineInObject key desc
    else a.defineInObject key desc

/-- `Object::deleteOwnProperty`, which asks the virtual `getOwnProperty`. -/
def deleteInObject : ArgumentsObject N κ × Bool :=
  match a.getOwnProperty key with
  | none => (a, true)
  | some result =>
    if result.isConfigurable then ({ a with object := a.object.setProperty key none }, true)
    else (a, false)

def deleteOwnProperty : ArgumentsObject N κ × Bool :=
  let index := key.tryToUseAsIndexProperty
  let hasPropertyInObject := a.isModifiedArgument index || !a.isMatchedArgument index
  let (a, deleted) := if hasPropertyInObject then a.deleteInObject key else (a, true)
  if deleted then
    let a :=
      match index with
      | some i => if a.isMatchedArgument index then a.unmap i else a
      | none => a
    (a.setModifiedArgument index, true)
  else (a, false)

/-- `Object::get`: the own property, or what the prototype chain finds. -/
def get : Option GetResult := (a.getOwnProperty key).or inherited

def getIndexedProperty : Option GetResult :=
  match key.tryToUseAsIndexProperty with
  | some i =>
    if !a.isModifiedArgument (some i) && a.isMatchedArgument (some i) then
      some (.data (a.getIndexedPropertyValueQuickly i) true true true)
    else
      let result := a.get key inherited
      if a.isMatchedArgument (some i) then
        result.map (·.withValue (a.getIndexedPropertyValueQuickly i))
      else result
  | none => a.get key inherited

/-- A getter that is found is called with the property as its receiver. -/
def getIndexedPropertyValue : LookupAnswer Value :=
  match key.tryToUseAsIndexProperty with
  | some i =>
    if !a.isModifiedArgument (some i) && a.isMatchedArgument (some i) then
      .value (a.getIndexedPropertyValueQuickly i)
    else if a.isMatchedArgument (some i) then .value (a.getIndexedPropertyValueQuickly i)
    else .ofResult property (a.get key inherited)
  | none => .ofResult property (a.get key inherited)

def hasIndexedProperty (inherited : Bool) : Bool :=
  let index := key.tryToUseAsIndexProperty
  if !a.isModifiedArgument index && a.isMatchedArgument index then true
  else if a.isMatchedArgument index then (a.getOwnPropertyOfObject key).isSome
  else a.hasProperty key inherited

variable (receiver : SetReceiver)

/-- `Object::set`, up to the point where it leaves the object. -/
def setInObject : ArgumentsObject N κ × Option SetAnswer :=
  match a.getOwnProperty key with
  | none => (a, some .goesToPrototype)
  | some (.data _ isWritable _ _) =>
    if !isWritable then (a, some (.returned false))
    else
      match receiver with
      | .primitive => (a, some (.returned false))
      | .otherObject => (a, some .goesToReceiver)
      | .self =>
        match a.defineOwnProperty key (.data (some v) none none none) with
        | (a, .returned success) => (a, some (.returned success))
        | (a, _) => (a, none)
  | some (.accessor getterSetter _ _) =>
    match getterSetter.setter with
    | some (.callable address) => (a, some (.callsSetter (.callable address)))
    | _ => (a, some (.returned false))

def set : ArgumentsObject N κ × Option SetAnswer :=
  if receiver ≠ .self then a.setInObject key v receiver
  else
    match key.tryToUseAsIndexProperty with
    | some i =>
      if a.isMatchedArgument (some i) then
        (a.setIndexedPropertyValueQuickly i v, some (.returned true))
      else a.setInObject key v receiver
    | none => a.setInObject key v receiver

/-- Every caller passes the object itself as the receiver. -/
def setIndexedProperty : ArgumentsObject N κ × Option SetAnswer :=
  match key.tryToUseAsIndexProperty with
  | some i =>
    if a.isMatchedArgument (some i) then
      (a.setIndexedPropertyValueQuickly i v, some (.returned true))
    else a.setInObject key v .self
  | none => a.setInObject key v .self

/-- One operation; `none` where a native setter would be missing or throw. -/
def step : ArgumentsOp N κ → Option (ArgumentsObject N κ × ArgumentsAnswer)
  | .assignParameter name v =>
    some ({ a with targetRecord := Function.update a.targetRecord name v.1 }, .done)
  | .readParameter name => some (a, .value (a.targetRecord name).observed)
  | .getOwnProperty key => some (a, .property ((a.getOwnProperty key).map GetResult.fields))
  | .get key receiver inherited =>
    some (a, .lookup (LookupAnswer.ofResult receiver (a.get key inherited)).observed)
  | .getIndexedProperty key receiver inherited =>
    some (a, .lookup
      (LookupAnswer.ofResult receiver (a.getIndexedProperty key inherited)).observed)
  | .getIndexedPropertyValue key property _ inherited =>
    some (a, .lookup (a.getIndexedPropertyValue key property inherited).observed)
  | .hasProperty key inherited => some (a, .boolean (a.hasProperty key inherited))
  | .hasIndexedProperty key inherited => some (a, .boolean (a.hasIndexedProperty key inherited))
  | .set key v receiver =>
    let result := a.set key v.1 receiver
    result.2.map fun answer => (result.1, .set answer)
  | .setIndexedProperty key v =>
    let result := a.setIndexedProperty key v.1
    result.2.map fun answer => (result.1, .set answer)
  | .defineOwnProperty key desc =>
    match a.defineOwnProperty key desc.desc with
    | (a, .returned success) => some (a, .boolean success)
    | _ => none
  | .deleteOwnProperty key =>
    let result := a.deleteOwnProperty key
    some (result.1, .boolean result.2)
  | .preventExtensions =>
    some ({ a with object := { a.object with isExtensible := false } }, .boolean true)

/-- The loop over the parameter names from the last to the first: the first occurrence it
meets of a name maps its index. -/
def mapParameterNames (len : Nat) : List (N × Nat) → List N → (Nat → ParameterMapEntry N) →
    (Nat → ParameterMapEntry N)
  | [], _, parameterMap => parameterMap
  | (name, index) :: rest, mappedNames, parameterMap =>
    if name ∈ mappedNames then mapParameterNames len rest mappedNames parameterMap
    else
      mapParameterNames len rest (name :: mappedNames)
        (if index < len then
          Function.update parameterMap index ⟨.ofValue .undefined, some name⟩
        else parameterMap)

variable (builtins : ArgumentsBuiltins) (isMapped : Bool)

/-- The slots of `defaultStructureForMappedArgumentsObject` and of its unmapped sibling. -/
def initialProperties (len : Nat) : ArgumentsKey κ → Option (OwnProperty Empty)
  | .length => some (.plainData (.ofValue (.int32 (.ofNat len))) true false true)
  | .iterator => some (.plainData (.ofValue builtins.arrayPrototypeValues) true false true)
  | .callee =>
    if isMapped then some (.plainData (.ofValue builtins.sourceFunctionObject) true false true)
    else some (.jsGetterSetter ⟨some builtins.thrower, some builtins.thrower⟩ false false)
  | _ => none

/-- `ArgumentsObject::ArgumentsObject`. -/
def create (parameterNames : List N)
    (argv : List ScriptValue) (record : N → Value) : ArgumentsObject N κ where
  argc := argv.length
  parameterMap :=
    let parameterMap : Nat → ParameterMapEntry N :=
      fun i => ⟨.ofValue ((argv.map Subtype.val).getD i .undefined), none⟩
    if isMapped then
      mapParameterNames argv.length parameterNames.zipIdx.reverse [] parameterMap
    else parameterMap
  modifiedArguments := none
  object := ⟨initialProperties builtins isMapped argv.length, true, false⟩
  targetRecord := record

end ArgumentsObject

end Escargot.Runtime
