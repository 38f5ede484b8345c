/-
# Proxies

The internal methods of a proxy: each asks the handler for a trap, calls it, and
checks what it answers against the target. The target may be any object, the traps
may do anything: both are computations over a heap that is not looked into. What is
recorded besides is each function that the proxy itself calls, with its arguments.
-/

import Escargot.Runtime.GetResult

namespace Escargot.Runtime

open Foundation

def Value.toBoolean : Value → Bool
  | .boolean b => b
  | .int32 i => i != 0
  | .double d => !(d.isnan || d.isZero)
  | .string _ s => s.length != 0
  | .bigInt _ n => n != 0
  | .symbol _ => true
  | .object _ => true
  | _ => false

def Value.isUndefinedOrNull (v : Value) : Bool := v == .undefined || v == .null

def Value.isObject : Value → Bool
  | .object _ => true
  | _ => false

namespace Proxy

/-- An exception: an error that `ErrorObject::throwBuiltinError` makes, or a value that user code
threw. -/
inductive Thrown
  | typeError (message : String)
  | value (v : Value)

/-- A call of `Object::call`. -/
structure UserCall where
  callee : Value
  thisValue : Value
  arguments : List Value

/-- The heap and the calls made so far, the last one first. -/
abbrev World (W : Type) := W × List UserCall

abbrev Machine (W α : Type) := EStateM Thrown (World W) α

/-- An object or null. -/
abbrev PrototypeValue := {v : Value // v.isObject = true ∨ v = .null}

structure TargetMethods (W κ : Type) where
  getOwnProperty : κ → EStateM Thrown W (Option GetResult)
  defineOwnProperty : κ → CallerDescriptor → EStateM Thrown W Bool
  deleteOwnProperty : κ → EStateM Thrown W Bool
  hasProperty : κ → EStateM Thrown W Bool
  get : κ → Value → EStateM Thrown W (Option GetResult)
  set : κ → Value → Value → EStateM Thrown W Bool
  ownPropertyKeys : EStateM Thrown W (List κ)
  isExtensible : EStateM Thrown W Bool
  preventExtensions : EStateM Thrown W Bool
  getPrototype : EStateM Thrown W PrototypeValue
  setPrototype : PrototypeValue → EStateM Thrown W Bool

/-- What a proxy uses of the engine. Reading a property of an arbitrary object and calling a
function run user code. -/
structure Engine (W κ : Type) where
  target : TargetMethods W κ
  getV : Value → String → EStateM Thrown W Value
  isCallable : Value → Bool
  call : UserCall → EStateM Thrown W Value
  toPropertyKeyValue : κ → Value
  fromObjectPropertyDescriptor : PropertyDescriptor → EStateM Thrown W Value
  toObjectPropertyDescriptor : Value → EStateM Thrown W CallerDescriptor
  createListFromArrayLike : Value → EStateM Thrown W (List κ)

end Proxy

/-- `ProxyObject`: itself, its target and its handler, which is null once it is revoked. -/
structure ProxyObject (W κ : Type) where
  self : Value
  target : Value
  handler : Option Value
  engine : Proxy.Engine W κ

namespace Proxy

def completePropertyDescriptor : PropertyDescriptor → PropertyDescriptor
  | .data value writable enumerable configurable =>
    .data (some (value.getD .undefined)) (some (writable.getD false))
      (some (enumerable.getD false)) (some (configurable.getD false))
  | .accessor getterSetter enumerable configurable =>
    .accessor ⟨some (getterSetter.getter.getD .undefined),
      some (getterSetter.setter.getD .undefined)⟩ (some (enumerable.getD false))
      (some (configurable.getD false))

/-- The answer that is made of a complete descriptor. -/
def resultOfDescriptor (desc : PropertyDescriptor) : GetResult :=
  if desc.isDataDescriptor then
    .data desc.value desc.isWritable desc.isEnumerable desc.isConfigurable
  else .accessor desc.getterSetter desc.isEnumerable desc.isConfigurable

/-- The property that `isCompatiblePropertyDescriptor` compares with. -/
def toOwnProperty : GetResult → OwnProperty Empty
  | .data v w e c => .plainData ⟨v⟩ w e c
  | .accessor getterSetter e c => .jsGetterSetter getterSetter e c

def isDataProperty : GetResult → Bool
  | .data .. => true
  | .accessor .. => false

def isWritable : GetResult → Bool
  | .data _ w _ _ => w
  | .accessor .. => false

def functionValue : AccessorFunction → Value
  | .undefined => .undefined
  | .callable address => .object address

end Proxy

namespace ProxyObject

open Proxy

variable {W κ α : Type} [DecidableEq κ]

def onHeap (x : EStateM Thrown W α) : Machine W α := fun world =>
  match x world.1 with
  | .ok a heap => .ok a (heap, world.2)
  | .error e heap => .error e (heap, world.2)

def call (p : ProxyObject W κ) (userCall : UserCall) : Machine W Value := fun world =>
  onHeap (p.engine.call userCall) (world.1, userCall :: world.2)

def getMethod (p : ProxyObject W κ) (handler : Value) (name : String) :
    Machine W (Option Value) := do
  let func ← onHeap (p.engine.getV handler name)
  if func.isUndefinedOrNull then pure none
  else if !p.engine.isCallable func then
    throw (.typeError "%s: return value of getMethod is not callable")
  else pure (some func)

variable (p : ProxyObject W κ)

/-- How every internal method starts. -/
def withTrap (message name : String) (target : Machine W α)
    (present : Value → Value → Machine W α) : Machine W α :=
  match p.handler with
  | none => throw (.typeError message)
  | some handler => do
      match ← p.getMethod handler name with
      | none => target
      | some trap => present handler trap

def handlerIsNull : String := "%s: Proxy handler should not be null."

def proxyTypeError : String := "%s: Proxy Type Error"

/-- `ObjectGetResult::value`. -/
def valueOf (result : Option GetResult) (receiver : Value) : Machine W Value :=
  match LookupAnswer.ofResult receiver result with
  | .value v => pure v
  | .callsGetter getter receiver => p.call ⟨functionValue getter, receiver, []⟩

def callDefinePropertyTrap (handler trap : Value) (key : κ)
    (desc : CallerDescriptor) : Machine W Value := do
  let descObj ← onHeap (p.engine.fromObjectPropertyDescriptor desc.desc)
  p.call ⟨trap, handler, [p.target, p.engine.toPropertyKeyValue key, descObj]⟩

variable (desc : PropertyDescriptor) (targetDesc : Option GetResult)

/-- The checks of `defineOwnProperty`. -/
def definitionIsRefused (extensibleTarget : Bool) : Bool :=
  let settingConfigFalse := desc.isConfigurablePresent && !desc.isConfigurable
  match targetDesc with
  | none => !extensibleTarget || settingConfigFalse
  | some current =>
    !PropertyObject.isCompatiblePropertyDescriptor extensibleTarget desc
        (some (toOwnProperty current)) ||
      (settingConfigFalse && current.isConfigurable) ||
      (isDataProperty current && !current.isConfigurable && isWritable current &&
        (desc.isWritablePresent && !desc.isWritable))

def defineOwnProperty (p : ProxyObject W κ) (key : κ) (desc : CallerDescriptor) : Machine W Bool :=
  p.withTrap handlerIsNull "defineProperty" (onHeap (p.engine.target.defineOwnProperty key desc))
    fun handler trap => do
      let trapResult ← p.callDefinePropertyTrap handler trap key desc
      if !trapResult.toBoolean then pure false
      else do
        let targetDesc ← onHeap (p.engine.target.getOwnProperty key)
        let extensibleTarget ← onHeap p.engine.target.isExtensible
        if definitionIsRefused desc.desc targetDesc extensibleTarget then
          throw (.typeError proxyTypeError)
        else pure true

/-- What `deleteOwnProperty` and `getOwnProperty` check of a property that is said to be absent.
The value of the property is asked for, and an undefined one counts as no property. -/
def checkAbsent (answer : α) : Machine W α := do
  let v ← p.valueOf targetDesc p.target
  if v == .undefined then pure answer
  else if !targetDesc.all GetResult.isConfigurable then throw (.typeError proxyTypeError)
  else do
    let extensibleTarget ← onHeap p.engine.target.isExtensible
    if !extensibleTarget then throw (.typeError proxyTypeError) else pure answer

def deleteOwnProperty (p : ProxyObject W κ) (key : κ) : Machine W Bool :=
  p.withTrap handlerIsNull "deleteProperty" (onHeap (p.engine.target.deleteOwnProperty key))
    fun handler trap => do
      let trapResult ← p.call ⟨trap, handler, [p.target, p.engine.toPropertyKeyValue key]⟩
      if !trapResult.toBoolean then pure false
      else do
        let targetDesc ← onHeap (p.engine.target.getOwnProperty key)
        p.checkAbsent targetDesc true

/-- The checks of `getOwnProperty` on a descriptor that is reported. -/
def reportIsRefused (resultDesc : PropertyDescriptor) (targetDesc : Option GetResult)
    (extensibleTarget : Bool) : Bool :=
  !PropertyObject.isCompatiblePropertyDescriptor extensibleTarget resultDesc
      (targetDesc.map toOwnProperty) ||
    (!resultDesc.isConfigurable &&
      ((!targetDesc.isSome || targetDesc.any GetResult.isConfigurable) ||
        (resultDesc.isWritablePresent && !resultDesc.isWritable && targetDesc.any isWritable)))

def getOwnProperty (p : ProxyObject W κ) (key : κ) : Machine W (Option GetResult) :=
  p.withTrap handlerIsNull "getOwnPropertyDescriptor"
    (onHeap (p.engine.target.getOwnProperty key)) fun handler trap => do
      let trapResultObj ← p.call ⟨trap, handler, [p.target, p.engine.toPropertyKeyValue key]⟩
      if !trapResultObj.isObject && trapResultObj != .undefined then
        throw (.typeError proxyTypeError)
      else do
        let targetDesc ← onHeap (p.engine.target.getOwnProperty key)
        if trapResultObj == .undefined then p.checkAbsent targetDesc none
        else do
          let resultDesc ← onHeap (p.engine.toObjectPropertyDescriptor trapResultObj)
          let resultDesc := completePropertyDescriptor resultDesc.desc
          let extensibleTarget ← onHeap p.engine.target.isExtensible
          if reportIsRefused resultDesc targetDesc extensibleTarget then
            throw (.typeError "Proxy::getOwnPropertyDescriptor error")
          else pure (some (resultOfDescriptor resultDesc))

def preventExtensions (p : ProxyObject W κ) : Machine W Bool :=
  p.withTrap handlerIsNull "preventExtensions" (onHeap p.engine.target.preventExtensions)
    fun handler trap => do
      let trapResult ← p.call ⟨trap, handler, [p.target]⟩
      if trapResult.toBoolean then do
        let targetIsExtensible ← onHeap p.engine.target.isExtensible
        if targetIsExtensible then throw (.typeError proxyTypeError) else pure true
      else pure false

def hasProperty (p : ProxyObject W κ) (key : κ) : Machine W Bool :=
  p.withTrap handlerIsNull "has" (onHeap (p.engine.target.hasProperty key))
    fun handler trap => do
      let trapResult ← p.call ⟨trap, handler, [p.target, p.engine.toPropertyKeyValue key]⟩
      if !trapResult.toBoolean then do
        let targetDesc ← onHeap (p.engine.target.getOwnProperty key)
        match targetDesc with
        | none => pure false
        | some current =>
          if !current.isConfigurable then throw (.typeError proxyTypeError)
          else do
            let extensibleTarget ← onHeap p.engine.target.isExtensible
            if !extensibleTarget then throw (.typeError proxyTypeError) else pure false
      else pure true

/-- The pair of loops that looks for equal entries. -/
def hasDuplicates : List κ → Bool
  | [] => false
  | key :: rest => rest.contains key || hasDuplicates rest

def classifyKeys (p : ProxyObject W κ) : List κ → Machine W (List κ × List κ)
  | [] => pure ([], [])
  | key :: rest => do
      let desc ← onHeap (p.engine.target.getOwnProperty key)
      let classified ← p.classifyKeys rest
      if desc.any (!GetResult.isConfigurable ·) then
        pure (classified.1, key :: classified.2)
      else pure (key :: classified.1, classified.2)

def eraseEqual (key : κ) : List κ → List κ × Bool
  | [] => ([], false)
  | entry :: rest =>
    let erased := eraseEqual key rest
    if entry = key then (erased.1, true) else (entry :: erased.1, erased.2)

def eraseKeys : List κ → List κ → Option (List κ)
  | [], unchecked => some unchecked
  | key :: rest, unchecked =>
    let erased := eraseEqual key unchecked
    if erased.2 then eraseKeys rest erased.1 else none

def duplicatedEntries : String := "%s Contains duplacted entries."

/-- The checks of `ownPropertyKeys`, with the error of the first that fails. -/
def checkKeys (trapResult : List κ) (extensibleTarget : Bool)
    (configurableKeys nonconfigurableKeys : List κ) : Machine W (List κ) :=
  if extensibleTarget && nonconfigurableKeys.isEmpty then pure trapResult
  else
    match eraseKeys nonconfigurableKeys trapResult with
    | none =>
      throw (.typeError
        "%s: the key of targetNonconfigurableKeys is not an element of uncheckedResultKeys.")
    | some unchecked =>
      if extensibleTarget then pure trapResult
      else
        match eraseKeys configurableKeys unchecked with
        | none =>
          throw (.typeError
            "%s: the key of targetConfigurableKeys is not an element of uncheckedResultKeys.")
        | some unchecked =>
          if !unchecked.isEmpty then throw (.typeError "%s: uncheckedResultKeys is not empty")
          else pure trapResult

def ownPropertyKeys (p : ProxyObject W κ) : Machine W (List κ) :=
  p.withTrap handlerIsNull "ownKeys" (onHeap p.engine.target.ownPropertyKeys)
    fun handler trap => do
      let trapResultArray ← p.call ⟨trap, handler, [p.target]⟩
      let trapResult ← onHeap (p.engine.createListFromArrayLike trapResultArray)
      if hasDuplicates trapResult then throw (.typeError duplicatedEntries)
      else do
        let extensibleTarget ← onHeap p.engine.target.isExtensible
        let targetKeys ← onHeap p.engine.target.ownPropertyKeys
        let classified ← p.classifyKeys targetKeys
        checkKeys trapResult extensibleTarget classified.1 classified.2

def isExtensible (p : ProxyObject W κ) : Machine W Bool :=
  p.withTrap handlerIsNull "isExtensible" (onHeap p.engine.target.isExtensible)
    fun handler trap => do
      let trapResult ← p.call ⟨trap, handler, [p.target]⟩
      let targetResult ← onHeap p.engine.target.isExtensible
      if targetResult != trapResult.toBoolean then throw (.typeError proxyTypeError)
      else pure trapResult.toBoolean

def setPrototype (p : ProxyObject W κ) (value : PrototypeValue) : Machine W Bool :=
  p.withTrap handlerIsNull "setPrototypeOf" (onHeap (p.engine.target.setPrototype value))
    fun handler trap => do
      let trapResult ← p.call ⟨trap, handler, [p.target, value.1]⟩
      if !trapResult.toBoolean then pure false
      else do
        let extensibleTarget ← onHeap p.engine.target.isExtensible
        if extensibleTarget then pure true
        else do
          let targetProto ← onHeap p.engine.target.getPrototype
          if value.1 != targetProto.1 then throw (.typeError proxyTypeError) else pure true

def getPrototype (p : ProxyObject W κ) : Machine W Value :=
  p.withTrap handlerIsNull "getPrototypeOf"
    (Subtype.val <$> onHeap p.engine.target.getPrototype) fun handler trap => do
      let handlerProto ← p.call ⟨trap, handler, [p.target]⟩
      if !handlerProto.isObject && handlerProto != .null then throw (.typeError proxyTypeError)
      else do
        let extensibleTarget ← onHeap p.engine.target.isExtensible
        if extensibleTarget then pure handlerProto
        else do
          let targetProto ← onHeap p.engine.target.getPrototype
          if handlerProto != targetProto.1 then throw (.typeError proxyTypeError)
          else pure handlerProto

def isMissing (half : Option AccessorFunction) : Bool := half.getD .undefined == .undefined

/-- The checks of `get`. The values are compared as encoded words. -/
def getIsRefused (trapResult : Value) : Option GetResult → Bool
  | none => false
  | some (.data v w _ c) => !c && !w && trapResult != v
  | some (.accessor getterSetter _ c) =>
    !c && isMissing getterSetter.getter && trapResult != .undefined

/-- `get`, whose trap is called with the proxy as the receiver, and the value that its caller asks
the result for. -/
def get (p : ProxyObject W κ) (key : κ) (receiver : Value) : Machine W Value :=
  p.withTrap handlerIsNull "get"
    (do
      let result ← onHeap (p.engine.target.get key receiver)
      p.valueOf result receiver)
    fun handler trap => do
      let trapResult ←
        p.call ⟨trap, handler, [p.target, p.engine.toPropertyKeyValue key, p.self]⟩
      let targetDesc ← onHeap (p.engine.target.getOwnProperty key)
      if getIsRefused trapResult targetDesc then throw (.typeError "%s: Proxy Type Error.")
      else pure trapResult

def setIsRefused (v : Value) : Option GetResult → Bool
  | none => false
  | some (.data u w _ c) => !c && !w && v != u
  | some (.accessor getterSetter _ c) => !c && isMissing getterSetter.setter

def set (p : ProxyObject W κ) (key : κ) (v receiver : Value) : Machine W Bool :=
  p.withTrap "%s: Proxy Type Error." "set" (onHeap (p.engine.target.set key v receiver))
    fun handler trap => do
      let trapResult ←
        p.call ⟨trap, handler, [p.target, p.engine.toPropertyKeyValue key, v, receiver]⟩
      if !trapResult.toBoolean then pure false
      else do
        let targetDesc ← onHeap (p.engine.target.getOwnProperty key)
        if setIsRefused v targetDesc then throw (.typeError "%s: Proxy Type Error.")
        else pure true

end ProxyObject

end Escargot.Runtime
