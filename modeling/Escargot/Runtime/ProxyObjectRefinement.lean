/-
# Proxies and the essential invariants

The internal methods of the specification, over the same traps and targets, and when
the code does the same. It does not where a property is taken for absent because its
value is undefined, where values are compared as words, where the `get` trap gets the
proxy for its receiver, and where the trap's answer is read before the target is asked
for its extensibility.

A target whose properties can be read without running user code is then reported as it
is, as far as the essential invariants promise.
-/

import Escargot.Foundation.Computation
import Escargot.Runtime.ProxyObject

namespace Escargot.Runtime

open List Foundation

namespace Proxy

/-- What JavaScript sees of an exception. -/
def Thrown.meaning : Thrown → Option Value
  | typeError _ => none
  | value v => some v

/-- The internal methods. -/
inductive ProxyOp (κ : Type)
  | getOwnProperty (key : κ)
  | defineOwnProperty (key : κ) (desc : CallerDescriptor)
  | deleteOwnProperty (key : κ)
  | hasProperty (key : κ)
  | get (key : κ) (receiver : Value)
  | set (key : κ) (v receiver : Value)
  | ownPropertyKeys
  | isExtensible
  | preventExtensions
  | getPrototype
  | setPrototype (value : PrototypeValue)

inductive ProxyAnswer (κ : Type)
  | property (fields : Option (PropertyFields ObservedValue AccessorFunction))
  | boolean (b : Bool)
  | value (v : Value)
  | keys (keys : List κ)

def ProxyOp.trapName {κ : Type} : ProxyOp κ → String
  | getOwnProperty _ => "getOwnPropertyDescriptor"
  | defineOwnProperty _ _ => "defineProperty"
  | deleteOwnProperty _ => "deleteProperty"
  | hasProperty _ => "has"
  | get _ _ => "get"
  | set _ _ _ => "set"
  | ownPropertyKeys => "ownKeys"
  | isExtensible => "isExtensible"
  | preventExtensions => "preventExtensions"
  | getPrototype => "getPrototypeOf"
  | setPrototype _ => "setPrototypeOf"

end Proxy

open Proxy

namespace ProxyObject

variable {W κ α : Type} [DecidableEq κ]

variable (p : ProxyObject W κ) (targetDesc : Option GetResult) (trapResultObj : Value)
  (world : World W)

/-- The code. -/
def run : ProxyOp κ → Machine W (ProxyAnswer κ)
  | .getOwnProperty key => (fun result => .property (result.map GetResult.fields)) <$>
      p.getOwnProperty key
  | .defineOwnProperty key desc => .boolean <$> p.defineOwnProperty key desc
  | .deleteOwnProperty key => .boolean <$> p.deleteOwnProperty key
  | .hasProperty key => .boolean <$> p.hasProperty key
  | .get key receiver => .value <$> p.get key receiver
  | .set key v receiver => .boolean <$> p.set key v receiver
  | .ownPropertyKeys => .keys <$> p.ownPropertyKeys
  | .isExtensible => .boolean <$> p.isExtensible
  | .preventExtensions => .boolean <$> p.preventExtensions
  | .getPrototype => .value <$> p.getPrototype
  | .setPrototype value => .boolean <$> p.setPrototype value

variable (extensible : Bool)

/-- `IsCompatiblePropertyDescriptor`. -/
def specIsCompatible (desc : DescriptorFields ObservedValue AccessorFunction)
    (current : Option (PropertyFields ObservedValue AccessorFunction)) : Bool :=
  (desc.validateAndApply Value.undefined.observed AccessorFunction.undefined extensible
    current).isSome

/-- `CompletePropertyDescriptor`. -/
def specComplete (desc : DescriptorFields ObservedValue AccessorFunction) :
    DescriptorFields ObservedValue AccessorFunction :=
  if desc.isAccessor then
    ⟨none, none, some (desc.get.getD .undefined), some (desc.set.getD .undefined),
      some (desc.enumerable.getD false), some (desc.configurable.getD false)⟩
  else
    ⟨some (desc.value.getD Value.undefined.observed), some (desc.writable.getD false), none, none,
      some (desc.enumerable.getD false), some (desc.configurable.getD false)⟩

def throwTypeError : Machine W α := throw (.typeError "")

/-- The start of every internal method. -/
def specWithTrap (name : String) (target : Machine W α)
    (present : Value → Value → Machine W α) : Machine W α := p.withTrap "" name target present

def specDefinitionIsRefused (desc : DescriptorFields ObservedValue AccessorFunction)
    (targetDesc : Option (PropertyFields ObservedValue AccessorFunction))
    (extensibleTarget : Bool) : Bool :=
  let settingConfigFalse := desc.configurable == some false
  match targetDesc with
  | none => !extensibleTarget || settingConfigFalse
  | some current =>
    !specIsCompatible extensibleTarget desc (some current) ||
      (settingConfigFalse && current.configurable) ||
      (match current with
        | .data _ w _ c => !c && w && desc.writable == some false
        | .accessor .. => false)

variable (key : κ)

def specDefineOwnProperty (desc : CallerDescriptor) : Machine W Bool :=
  p.specWithTrap "defineProperty" (onHeap (p.engine.target.defineOwnProperty key desc))
    fun handler trap => do
      let trapResult ← p.callDefinePropertyTrap handler trap key desc
      if !trapResult.toBoolean then pure false
      else do
        let targetDesc ← onHeap (p.engine.target.getOwnProperty key)
        let extensibleTarget ← onHeap p.engine.target.isExtensible
        if specDefinitionIsRefused desc.desc.fields (targetDesc.map GetResult.fields)
            extensibleTarget then throwTypeError
        else pure true

/-- A property that is said to be absent: if the target has it, it is configurable and the target
is extensible. -/
def specCheckAbsent (answer : α) : Machine W α :=
  match targetDesc with
  | none => pure answer
  | some current =>
    if !current.isConfigurable then throwTypeError
    else do
      let extensibleTarget ← onHeap p.engine.target.isExtensible
      if !extensibleTarget then throwTypeError else pure answer

def specDeleteOwnProperty : Machine W Bool :=
  p.specWithTrap "deleteProperty" (onHeap (p.engine.target.deleteOwnProperty key))
    fun handler trap => do
      let trapResult ← p.call ⟨trap, handler, [p.target, p.engine.toPropertyKeyValue key]⟩
      if !trapResult.toBoolean then pure false
      else do
        let targetDesc ← onHeap (p.engine.target.getOwnProperty key)
        p.specCheckAbsent targetDesc true

def specReportIsRefused (resultDesc : DescriptorFields ObservedValue AccessorFunction)
    (targetDesc : Option (PropertyFields ObservedValue AccessorFunction))
    (extensibleTarget : Bool) : Bool :=
  !specIsCompatible extensibleTarget resultDesc targetDesc ||
    (resultDesc.configurable == some false && (match targetDesc with
        | none => true
        | some (.data _ w _ c) => c || (resultDesc.writable == some false && w)
        | some (.accessor _ _ _ c) => c))

variable (trapResult : List κ) (extensibleTarget : Bool)

/-- The last check of [[GetOwnProperty]]. -/
def specReport (resultDesc : CallerDescriptor) :
    Machine W (Option (PropertyFields ObservedValue AccessorFunction)) :=
  let resultDesc := specComplete resultDesc.desc.fields
  if specReportIsRefused resultDesc (targetDesc.map GetResult.fields) extensibleTarget then
    throwTypeError
  else pure (some (resultDesc.create Value.undefined.observed .undefined))

def specGetOwnProperty : Machine W (Option (PropertyFields ObservedValue AccessorFunction)) :=
  p.specWithTrap "getOwnPropertyDescriptor"
    (Option.map GetResult.fields <$> onHeap (p.engine.target.getOwnProperty key))
    fun handler trap => do
      let trapResultObj ← p.call ⟨trap, handler, [p.target, p.engine.toPropertyKeyValue key]⟩
      if !trapResultObj.isObject && trapResultObj != .undefined then throwTypeError
      else do
        let targetDesc ← onHeap (p.engine.target.getOwnProperty key)
        if trapResultObj == .undefined then p.specCheckAbsent targetDesc none
        else do
          let extensibleTarget ← onHeap p.engine.target.isExtensible
          let resultDesc ← onHeap (p.engine.toObjectPropertyDescriptor trapResultObj)
          specReport targetDesc extensibleTarget resultDesc

def specPreventExtensions : Machine W Bool :=
  p.specWithTrap "preventExtensions" (onHeap p.engine.target.preventExtensions)
    fun handler trap => do
      let trapResult ← p.call ⟨trap, handler, [p.target]⟩
      if trapResult.toBoolean then do
        let extensibleTarget ← onHeap p.engine.target.isExtensible
        if extensibleTarget then throwTypeError else pure true
      else pure false

def specHasProperty : Machine W Bool :=
  p.specWithTrap "has" (onHeap (p.engine.target.hasProperty key))
    fun handler trap => do
      let trapResult ← p.call ⟨trap, handler, [p.target, p.engine.toPropertyKeyValue key]⟩
      if !trapResult.toBoolean then do
        let targetDesc ← onHeap (p.engine.target.getOwnProperty key)
        p.specCheckAbsent targetDesc false
      else pure true

/-- The keys that have to be there are taken away one by one. -/
def specEraseKeys : List κ → List κ → Option (List κ)
  | [], unchecked => some unchecked
  | key :: rest, unchecked =>
    if key ∈ unchecked then specEraseKeys rest (unchecked.erase key) else none

def specKeysAreRefused (configurableKeys nonconfigurableKeys : List κ) : Bool :=
  if extensibleTarget && nonconfigurableKeys.isEmpty then false
  else
    match specEraseKeys nonconfigurableKeys trapResult with
    | none => true
    | some unchecked =>
      if extensibleTarget then false
      else
        match specEraseKeys configurableKeys unchecked with
        | none => true
        | some unchecked => !unchecked.isEmpty

def specOwnPropertyKeys : Machine W (List κ) :=
  p.specWithTrap "ownKeys" (onHeap p.engine.target.ownPropertyKeys)
    fun handler trap => do
      let trapResultArray ← p.call ⟨trap, handler, [p.target]⟩
      let trapResult ← onHeap (p.engine.createListFromArrayLike trapResultArray)
      if ¬ trapResult.Nodup then throwTypeError
      else do
        let extensibleTarget ← onHeap p.engine.target.isExtensible
        let targetKeys ← onHeap p.engine.target.ownPropertyKeys
        let classified ← p.classifyKeys targetKeys
        if specKeysAreRefused trapResult extensibleTarget classified.1 classified.2 then
          throwTypeError
        else pure trapResult

def specIsExtensible : Machine W Bool :=
  p.specWithTrap "isExtensible" (onHeap p.engine.target.isExtensible)
    fun handler trap => do
      let trapResult ← p.call ⟨trap, handler, [p.target]⟩
      let targetResult ← onHeap p.engine.target.isExtensible
      if trapResult.toBoolean != targetResult then throwTypeError
      else pure trapResult.toBoolean

def specSameValue (v w : Value) : Bool := v.observed = w.observed

def specSetPrototype (value : PrototypeValue) : Machine W Bool :=
  p.specWithTrap "setPrototypeOf" (onHeap (p.engine.target.setPrototype value))
    fun handler trap => do
      let trapResult ← p.call ⟨trap, handler, [p.target, value.1]⟩
      if !trapResult.toBoolean then pure false
      else do
        let extensibleTarget ← onHeap p.engine.target.isExtensible
        if extensibleTarget then pure true
        else do
          let targetProto ← onHeap p.engine.target.getPrototype
          if !specSameValue value.1 targetProto.1 then throwTypeError else pure true

def specGetPrototype : Machine W Value :=
  p.specWithTrap "getPrototypeOf" (Subtype.val <$> onHeap p.engine.target.getPrototype)
    fun handler trap => do
      let handlerProto ← p.call ⟨trap, handler, [p.target]⟩
      if !handlerProto.isObject && handlerProto != .null then throwTypeError
      else do
        let extensibleTarget ← onHeap p.engine.target.isExtensible
        if extensibleTarget then pure handlerProto
        else do
          let targetProto ← onHeap p.engine.target.getPrototype
          if !specSameValue handlerProto targetProto.1 then throwTypeError
          else pure handlerProto

def specGetIsRefused (trapResult : Value) :
    Option (PropertyFields ObservedValue AccessorFunction) → Bool
  | some (.data v false _ false) => trapResult.observed != v
  | some (.accessor .undefined _ _ false) => trapResult.observed != Value.undefined.observed
  | _ => false

/-- The trap is called with the receiver. -/
def specGet (receiver : Value) : Machine W Value :=
  p.specWithTrap "get"
    (do
      let result ← onHeap (p.engine.target.get key receiver)
      p.valueOf result receiver)
    fun handler trap => do
      let trapResult ←
        p.call ⟨trap, handler, [p.target, p.engine.toPropertyKeyValue key, receiver]⟩
      let targetDesc ← onHeap (p.engine.target.getOwnProperty key)
      if specGetIsRefused trapResult (targetDesc.map GetResult.fields) then throwTypeError
      else pure trapResult

def specSetIsRefused (v : Value) : Option (PropertyFields ObservedValue AccessorFunction) → Bool
  | some (.data u false _ false) => v.observed != u
  | some (.accessor _ .undefined _ false) => true
  | _ => false

def specSet (v receiver : Value) : Machine W Bool :=
  p.specWithTrap "set" (onHeap (p.engine.target.set key v receiver))
    fun handler trap => do
      let trapResult ←
        p.call ⟨trap, handler, [p.target, p.engine.toPropertyKeyValue key, v, receiver]⟩
      if !trapResult.toBoolean then pure false
      else do
        let targetDesc ← onHeap (p.engine.target.getOwnProperty key)
        if specSetIsRefused v (targetDesc.map GetResult.fields) then throwTypeError
        else pure true

def specRun : ProxyOp κ → Machine W (ProxyAnswer κ)
  | .getOwnProperty key => .property <$> p.specGetOwnProperty key
  | .defineOwnProperty key desc => .boolean <$> p.specDefineOwnProperty key desc
  | .deleteOwnProperty key => .boolean <$> p.specDeleteOwnProperty key
  | .hasProperty key => .boolean <$> p.specHasProperty key
  | .get key receiver => .value <$> p.specGet key receiver
  | .set key v receiver => .boolean <$> p.specSet key v receiver
  | .ownPropertyKeys => .keys <$> p.specOwnPropertyKeys
  | .isExtensible => .boolean <$> p.specIsExtensible
  | .preventExtensions => .boolean <$> p.specPreventExtensions
  | .getPrototype => .value <$> p.specGetPrototype
  | .setPrototype value => .boolean <$> p.specSetPrototype value

/-- The call does what the specification prescribes: it ends in the same heap after the same calls
of functions, with the same answer or an exception of the same kind. -/
def MeetsSpecification (op : ProxyOp κ) (world : World W) : Prop :=
  AgreesAt Thrown.meaning (p.run op) (p.specRun op) world

/-- What holds whenever the handler has the trap. -/
def AtTrap (name : String) (world : World W) (post : Value → Value → World W → Prop) : Prop :=
  ∀ handler, p.handler = some handler → Leaves (p.getMethod handler name) world
    fun trap next => ∀ found, trap = some found → post handler found next

/-- A property that the target has and the trap calls absent: no getter is called to tell, and if
its value is undefined, it is configurable and the target answers at once that it is
extensible. -/
def AbsenceIsChecked : Prop :=
  ∀ current, targetDesc = some current → match LookupAnswer.ofResult p.target (some current) with
    | .callsGetter _ _ => False
    | .value v => v = .undefined → current.isConfigurable = true ∧
        (onHeap p.engine.target.isExtensible : Machine W Bool) world = .ok true world

/-- Whether the target is asked for its extensibility before or after the trap's answer is read
makes no difference to the last check. -/
def OrderIsIrrelevant : Prop :=
  AgreesAt Thrown.meaning
    (do
      let resultDesc ← onHeap (p.engine.toObjectPropertyDescriptor trapResultObj)
      let extensibleTarget ← onHeap p.engine.target.isExtensible
      specReport targetDesc extensibleTarget resultDesc : Machine W _)
    (do
      let extensibleTarget ← onHeap p.engine.target.isExtensible
      let resultDesc ← onHeap (p.engine.toObjectPropertyDescriptor trapResultObj)
      specReport targetDesc extensibleTarget resultDesc) world

def SameValueIsSameWord (v : Value) (targetDesc : Option GetResult) : Prop :=
  ∀ u e, targetDesc = some (.data u false e false) → v.observed = u.observed → v = u

/-- When a call meets the specification. -/
def Condition (op : ProxyOp κ) (world : World W) : Prop :=
  match op with
  | .deleteOwnProperty key =>
    p.AtTrap "deleteProperty" world fun handler trap called =>
      Leaves (p.call ⟨trap, handler, [p.target, p.engine.toPropertyKeyValue key]⟩) called
        fun trapResult returned => trapResult.toBoolean = true →
          Leaves (onHeap (p.engine.target.getOwnProperty key)) returned p.AbsenceIsChecked
  | .getOwnProperty key =>
    p.AtTrap "getOwnPropertyDescriptor" world fun handler trap called =>
      Leaves (p.call ⟨trap, handler, [p.target, p.engine.toPropertyKeyValue key]⟩) called
        fun trapResultObj returned =>
          Leaves (onHeap (p.engine.target.getOwnProperty key)) returned
            fun targetDesc next =>
              (trapResultObj = .undefined → p.AbsenceIsChecked targetDesc next) ∧
                (trapResultObj.isObject = true → p.OrderIsIrrelevant targetDesc trapResultObj next)
  | .get key receiver =>
    p.AtTrap "get" world fun handler trap called => receiver = p.self ∧
      Leaves (p.call ⟨trap, handler, [p.target, p.engine.toPropertyKeyValue key, p.self]⟩) called
        fun trapResult returned =>
          Leaves (onHeap (p.engine.target.getOwnProperty key)) returned
            fun targetDesc _ => SameValueIsSameWord trapResult targetDesc
  | .set key v receiver =>
    p.AtTrap "set" world fun handler trap called =>
      Leaves (p.call ⟨trap, handler, [p.target, p.engine.toPropertyKeyValue key, v, receiver]⟩)
        called fun trapResult returned => trapResult.toBoolean = true →
          Leaves (onHeap (p.engine.target.getOwnProperty key)) returned
            fun targetDesc _ => SameValueIsSameWord v targetDesc
  | _ => True

theorem fields_toOwnProperty (result : GetResult) :
    (toOwnProperty result).fields = result.fields := by
  cases result <;> rfl

theorem specIsCompatible_some (desc : DescriptorFields ObservedValue AccessorFunction)
    (current : PropertyFields ObservedValue AccessorFunction) :
    specIsCompatible extensible desc (some current) = desc.isValid current := by
  rw [specIsCompatible, DescriptorFields.validateAndApply_some]
  cases desc.isValid current <;> rfl

variable {desc : PropertyDescriptor}

theorem isCompatible_eq (hdesc : desc.HasHalf) (current : Option GetResult) :
    PropertyObject.isCompatiblePropertyDescriptor extensible desc (current.map toOwnProperty) =
      specIsCompatible extensible desc.fields (current.map GetResult.fields) := by
  cases current with
  | none => cases extensible <;> rfl
  | some current =>
    rw [Option.map_some, Option.map_some, specIsCompatible_some,
      PropertyObject.isCompatiblePropertyDescriptor_some extensible hdesc, fields_toOwnProperty]

theorem configurable_beq_false (desc : PropertyDescriptor) :
    (desc.isConfigurablePresent && !desc.isConfigurable) =
      (desc.fields.configurable == some false) := by
  rcases desc with ⟨value, writable, enumerable, _ | _ | _⟩ | ⟨getterSetter, enumerable, _ | _ | _⟩ <;>
    rfl

theorem writable_beq_false (desc : PropertyDescriptor) :
    (desc.isWritablePresent && !desc.isWritable) = (desc.fields.writable == some false) := by
  rcases desc with ⟨value, _ | _ | _, enumerable, configurable⟩ | ⟨getterSetter, _, _⟩ <;> rfl

theorem definitionIsRefused_eq (hdesc : desc.HasHalf) (targetDesc : Option GetResult)
    (extensibleTarget : Bool) :
    definitionIsRefused desc targetDesc extensibleTarget =
      specDefinitionIsRefused desc.fields (targetDesc.map GetResult.fields) extensibleTarget := by
  rw [definitionIsRefused.eq_def, specDefinitionIsRefused.eq_def, configurable_beq_false,
    writable_beq_false]
  cases targetDesc with
  | none => rfl
  | some current =>
    have hcompatible := isCompatible_eq extensibleTarget hdesc (some current)
    rw [Option.map_some, Option.map_some] at hcompatible
    rw [Option.map_some]
    dsimp only
    rw [hcompatible, GetResult.configurable_fields]
    cases current with
    | data v w e c => cases c <;> cases w <;> rfl
    | accessor getterSetter e c => rfl

theorem fields_completePropertyDescriptor (hdesc : desc.HasHalf) :
    (completePropertyDescriptor desc).fields = specComplete desc.fields := by
  rw [specComplete, PropertyDescriptor.isAccessor_fields hdesc]
  cases desc with
  | data value writable enumerable configurable =>
    rcases value with _ | _ <;> rcases writable with _ | _ <;> rfl
  | accessor getterSetter enumerable configurable => rfl

theorem hasHalf_completePropertyDescriptor (desc : PropertyDescriptor) :
    (completePropertyDescriptor desc).HasHalf := by
  cases desc with
  | data _ _ _ _ => exact trivial
  | accessor _ _ _ => exact .inl rfl

theorem fields_resultOfDescriptor (desc : PropertyDescriptor) :
    (resultOfDescriptor (completePropertyDescriptor desc)).fields =
      (completePropertyDescriptor desc).fields.create Value.undefined.observed .undefined := by
  rcases desc with ⟨value, writable, enumerable, configurable⟩ | ⟨getterSetter, enumerable, configurable⟩
  · rcases writable with _ | _ | _ <;> rcases enumerable with _ | _ | _ <;>
      rcases configurable with _ | _ | _ <;> rfl
  · rcases enumerable with _ | _ | _ <;> rcases configurable with _ | _ | _ <;> rfl

theorem reportIsRefused_eq (hdesc : desc.HasHalf) (targetDesc : Option GetResult)
    (extensibleTarget : Bool) :
    reportIsRefused (completePropertyDescriptor desc) targetDesc extensibleTarget =
      specReportIsRefused (specComplete desc.fields) (targetDesc.map GetResult.fields)
        extensibleTarget := by
  have hpresent : (completePropertyDescriptor desc).isConfigurable =
      !((completePropertyDescriptor desc).fields.configurable == some false) := by
    rcases desc with ⟨_, _, _, _ | _ | _⟩ | ⟨_, _, _ | _ | _⟩ <;> rfl
  rw [reportIsRefused.eq_def, specReportIsRefused.eq_def,
    isCompatible_eq extensibleTarget (hasHalf_completePropertyDescriptor desc), writable_beq_false,
    hpresent, fields_completePropertyDescriptor hdesc, Bool.not_not]
  congr 2
  cases targetDesc with
  | none => rfl
  | some current => cases current <;> simp [GetResult.fields, GetResult.isConfigurable, isWritable]

section Agreement

theorem agreesAt_throwTypeError (message : String) (world : World W) :
    AgreesAt Thrown.meaning (throw (.typeError message) : Machine W α) throwTypeError world :=
  agreesAt_throw _ _ rfl world

theorem agreesAt_refusal_iff (message : String) (refused refused' : Bool) (answer : α)
    (world : World W) :
    AgreesAt Thrown.meaning
        (if refused then throw (.typeError message) else pure answer : Machine W α)
        (if refused' then throwTypeError else pure answer) world ↔ refused = refused' := by
  cases refused <;> cases refused'
  · exact iff_of_true (AgreesAt.refl _ world) rfl
  · exact iff_of_false (not_agreesAt_pure_throw _ _ world) nofun
  · exact iff_of_false (fun h => not_agreesAt_pure_throw _ _ world h.symm) nofun
  · exact iff_of_true (agreesAt_throwTypeError _ world) rfl

variable (p : ProxyObject W κ)

omit [DecidableEq κ] in
theorem agreesAt_withTrap_iff (message name : String) {target target' : Machine W α}
    (htarget : ∀ world, AgreesAt Thrown.meaning target target' world)
    (present present' : Value → Value → Machine W α) (world : World W) :
    AgreesAt Thrown.meaning (p.withTrap message name target present)
        (p.specWithTrap name target' present') world ↔
      p.AtTrap name world fun handler trap next =>
        AgreesAt Thrown.meaning (present handler trap) (present' handler trap) next := by
  unfold specWithTrap withTrap AtTrap
  cases p.handler with
  | none => exact iff_of_true (agreesAt_throw _ _ rfl world) nofun
  | some handler =>
    rw [agreesAt_bind_iff]
    constructor
    · intro h found hfound
      cases hfound
      refine h.mono fun trap next hnext found hfound => ?_
      subst hfound
      exact hnext
    · intro h
      refine (h handler rfl).mono fun trap next hnext => ?_
      cases trap with
      | none => exact htarget next
      | some found => exact hnext found rfl

variable {world : World W}

omit [DecidableEq κ] in
theorem AtTrap.congr {p : ProxyObject W κ} {name : String}
    {post post' : Value → Value → World W → Prop}
    (h : ∀ handler trap next, post handler trap next ↔ post' handler trap next) :
    p.AtTrap name world post ↔ p.AtTrap name world post' := by
  have heq : post = post' := funext fun handler => funext fun trap => funext fun next =>
    propext (h handler trap next)
  rw [heq]

omit [DecidableEq κ] in
theorem atTrap_of_forall {p : ProxyObject W κ} {name : String}
    {post : Value → Value → World W → Prop} (h : ∀ handler trap next, post handler trap next) :
    p.AtTrap name world post :=
  fun handler _ _ next _ found _ => h handler found next

variable {β : Type} {γ : Type} {x : Machine W β}

theorem leaves_congr {post post' : β → World W → Prop} (h : ∀ b next, post b next ↔ post' b next) :
    Leaves x world post ↔ Leaves x world post' := by
  have heq : post = post' := funext fun b => funext fun next => propext (h b next)
  rw [heq]

theorem leaves_of_forall {post : β → World W → Prop} (h : ∀ b next, post b next) :
    Leaves x world post :=
  fun b next _ => h b next

theorem agreesAt_bind {f g : β → Machine W γ}
    (h : ∀ b next, AgreesAt Thrown.meaning (f b) (g b) next) :
    AgreesAt Thrown.meaning (x >>= f) (x >>= g) world :=
  (agreesAt_bind_iff x f g world).mpr (leaves_of_forall h)

omit [DecidableEq κ] in
theorem agreesAt_withTrap {message name : String} {target : Machine W β}
    {present present' : Value → Value → Machine W β}
    (h : ∀ handler trap next,
      AgreesAt Thrown.meaning (present handler trap) (present' handler trap) next) :
    AgreesAt Thrown.meaning (p.withTrap message name target present)
      (p.specWithTrap name target present') world :=
  (agreesAt_withTrap_iff p _ _ (fun next => AgreesAt.refl _ next) _ _ world).mpr
    (atTrap_of_forall h)

variable (key : κ)

section

omit [DecidableEq κ]

theorem agreesAt_defineOwnProperty (desc : CallerDescriptor) (world : World W) :
    AgreesAt Thrown.meaning (p.defineOwnProperty key desc) (p.specDefineOwnProperty key desc)
      world := by
  refine agreesAt_withTrap p fun handler trap called => ?_
  refine agreesAt_bind fun trapResult returned => ?_
  cases trapResult.toBoolean with
  | false => exact AgreesAt.refl _ returned
  | true =>
    refine agreesAt_bind fun targetDesc next => ?_
    refine agreesAt_bind fun extensibleTarget last => ?_
    rw [definitionIsRefused_eq desc.hasHalf]
    exact (agreesAt_refusal_iff _ _ _ _ last).mpr rfl

theorem agreesAt_preventExtensions (world : World W) :
    AgreesAt Thrown.meaning p.preventExtensions p.specPreventExtensions world := by
  refine agreesAt_withTrap p fun handler trap called => ?_
  refine agreesAt_bind fun trapResult returned => ?_
  split
  · refine agreesAt_bind fun extensibleTarget last => ?_
    exact (agreesAt_refusal_iff _ _ _ _ last).mpr rfl
  · exact AgreesAt.refl _ returned

theorem agreesAt_hasProperty (world : World W) :
    AgreesAt Thrown.meaning (p.hasProperty key) (p.specHasProperty key) world := by
  refine agreesAt_withTrap p fun handler trap called => ?_
  refine agreesAt_bind fun trapResult returned => ?_
  split
  · refine agreesAt_bind fun targetDesc next => ?_
    cases targetDesc with
    | none => exact AgreesAt.refl _ next
    | some current =>
      unfold specCheckAbsent
      dsimp only
      split
      · exact agreesAt_throwTypeError _ next
      · refine agreesAt_bind fun extensibleTarget last => ?_
        exact (agreesAt_refusal_iff _ _ _ _ last).mpr rfl
  · exact AgreesAt.refl _ returned

theorem agreesAt_isExtensible (world : World W) :
    AgreesAt Thrown.meaning p.isExtensible p.specIsExtensible world := by
  refine agreesAt_withTrap p fun handler trap called => ?_
  refine agreesAt_bind fun trapResult returned => ?_
  refine agreesAt_bind fun targetResult last => ?_
  rw [bne_comm]
  exact (agreesAt_refusal_iff _ _ _ _ last).mpr rfl

end

theorem specSameValue_eq (value other : PrototypeValue) :
    specSameValue value.1 other.1 = (value.1 == other.1) := by
  rw [specSameValue, Bool.eq_iff_iff, decide_eq_true_iff, beq_iff_eq]
  refine ⟨fun h => ?_, fun h => by rw [h]⟩
  have hidentity := congrArg Prod.fst h
  have himmediate : ∀ v : PrototypeValue, v.1.identity = .immediate v.1 := by
    rintro ⟨v, hobject | rfl⟩
    · cases v with
      | object address => rfl
      | _ => cases hobject
    · rfl
  change value.1.identity = other.1.identity at hidentity
  rw [himmediate, himmediate] at hidentity
  injection hidentity

omit [DecidableEq κ] in
theorem agreesAt_setPrototype (value : PrototypeValue) (world : World W) :
    AgreesAt Thrown.meaning (p.setPrototype value) (p.specSetPrototype value) world := by
  refine agreesAt_withTrap p fun handler trap called => ?_
  refine agreesAt_bind fun trapResult returned => ?_
  split
  · exact AgreesAt.refl _ returned
  · refine agreesAt_bind fun extensibleTarget next => ?_
    split
    · exact AgreesAt.refl _ next
    · refine agreesAt_bind fun targetProto last => ?_
      rw [specSameValue_eq, ← bne]
      exact (agreesAt_refusal_iff _ _ _ _ last).mpr rfl

omit [DecidableEq κ] in
theorem agreesAt_getPrototype (world : World W) :
    AgreesAt Thrown.meaning p.getPrototype p.specGetPrototype world := by
  refine agreesAt_withTrap p fun handler trap called => ?_
  refine agreesAt_bind fun handlerProto returned => ?_
  split
  · exact agreesAt_throwTypeError _ returned
  · rename_i hproto
    refine agreesAt_bind fun extensibleTarget next => ?_
    split
    · exact AgreesAt.refl _ next
    · refine agreesAt_bind fun targetProto last => ?_
      have hvalue : handlerProto.isObject = true ∨ handlerProto = .null := by
        simpa [or_iff_not_imp_left] using hproto
      rw [specSameValue_eq ⟨handlerProto, hvalue⟩, ← bne]
      exact (agreesAt_refusal_iff _ _ _ _ last).mpr rfl

theorem hasDuplicates_iff (keys : List κ) : hasDuplicates keys = true ↔ ¬ keys.Nodup := by
  induction keys with
  | nil => simp [hasDuplicates]
  | cons key rest ih =>
    rw [hasDuplicates, Bool.or_eq_true, ih, contains_iff_mem, nodup_cons]
    tauto

theorem eraseEqual_eq {keys : List κ} (hnodup : keys.Nodup) :
    eraseEqual key keys = (keys.erase key, decide (key ∈ keys)) := by
  induction keys with
  | nil => rfl
  | cons entry rest ih =>
    obtain ⟨hnew, hnodup⟩ := List.nodup_cons.mp hnodup
    rw [eraseEqual, ih hnodup]
    by_cases hentry : entry = key
    · subst hentry
      simp [erase_of_not_mem hnew]
    · rw [if_neg hentry, erase_cons_tail (by simpa using hentry)]
      simp [Ne.symm hentry]

theorem eraseKeys_eq (keys : List κ) : ∀ {unchecked : List κ}, unchecked.Nodup →
      eraseKeys keys unchecked = specEraseKeys keys unchecked ∧
        ∀ rest, specEraseKeys keys unchecked = some rest → rest.Nodup := by
  induction keys with
  | nil =>
    intro unchecked hnodup
    refine ⟨rfl, fun rest hrest => ?_⟩
    cases hrest
    exact hnodup
  | cons key keys ih =>
    intro unchecked hnodup
    rw [eraseKeys, specEraseKeys, eraseEqual_eq key hnodup]
    by_cases hmem : key ∈ unchecked
    · simpa [hmem] using ih (hnodup.erase key)
    · simp [hmem]

theorem agreesAt_checkKeys {trapResult : List κ} (hnodup : trapResult.Nodup)
    (extensibleTarget : Bool) (configurableKeys nonconfigurableKeys : List κ) (world : World W) :
    AgreesAt Thrown.meaning
      (checkKeys trapResult extensibleTarget configurableKeys nonconfigurableKeys : Machine W _)
      (if specKeysAreRefused trapResult extensibleTarget configurableKeys nonconfigurableKeys then
        throwTypeError
      else pure trapResult) world := by
  unfold checkKeys specKeysAreRefused
  obtain ⟨hfirst, hkeeps⟩ := eraseKeys_eq nonconfigurableKeys hnodup
  rw [hfirst]
  cases extensibleTarget && nonconfigurableKeys.isEmpty with
  | true => exact AgreesAt.refl _ world
  | false =>
    cases herased : specEraseKeys nonconfigurableKeys trapResult with
    | none => exact agreesAt_throwTypeError _ world
    | some unchecked =>
      obtain ⟨hsecond, -⟩ := eraseKeys_eq configurableKeys (hkeeps unchecked herased)
      dsimp only
      rw [hsecond]
      cases extensibleTarget with
      | true => exact AgreesAt.refl _ world
      | false =>
        simp only [Bool.false_eq_true, if_false]
        cases specEraseKeys configurableKeys unchecked with
        | none => exact agreesAt_throwTypeError _ world
        | some rest => exact (agreesAt_refusal_iff _ (!rest.isEmpty) _ trapResult world).mpr rfl

theorem agreesAt_ownPropertyKeys (world : World W) :
    AgreesAt Thrown.meaning p.ownPropertyKeys p.specOwnPropertyKeys world := by
  refine agreesAt_withTrap p fun handler trap called => ?_
  refine agreesAt_bind fun trapResultArray returned => ?_
  refine agreesAt_bind fun trapResult read => ?_
  by_cases hnodup : trapResult.Nodup
  · rw [if_neg (fun h => (hasDuplicates_iff trapResult).mp h hnodup), if_neg (not_not.mpr hnodup),
      agreesAt_bind_iff]
    refine leaves_of_forall fun extensibleTarget asked => ?_
    refine agreesAt_bind fun targetKeys listed => ?_
    rw [agreesAt_bind_iff]
    exact leaves_of_forall fun classified last => agreesAt_checkKeys hnodup _ _ _ last
  · rw [if_pos ((hasDuplicates_iff trapResult).mpr hnodup), if_pos hnodup]
    exact agreesAt_throwTypeError _ read

theorem bne_eq_bne_iff (v u : Value) :
    (v != u) = (v.observed != u.observed) ↔ (v.observed = u.observed → v = u) := by
  by_cases hvalue : v = u
  · subst hvalue
    simp
  · simp [bne, hvalue]

theorem bne_undefined (v : Value) :
    (v != .undefined) = (v.observed != Value.undefined.observed) := by
  rw [bne_eq_bne_iff]
  intro h
  have hidentity := congrArg Prod.fst h
  cases v <;> first | rfl | cases hidentity

theorem getIsRefused_eq_iff (trapResult : Value) (targetDesc : Option GetResult) :
    getIsRefused trapResult targetDesc =
        specGetIsRefused trapResult (targetDesc.map GetResult.fields) ↔
      SameValueIsSameWord trapResult targetDesc := by
  rcases targetDesc with _ | ⟨v, w, e, c⟩ | ⟨⟨getter, setter⟩, e, c⟩
  · exact iff_of_true rfl nofun
  · cases c <;> cases w
    · refine (bne_eq_bne_iff trapResult v).trans ⟨fun h u e' heq => ?_, fun h => h v e rfl⟩
      cases heq
      exact h
    · exact iff_of_true rfl nofun
    · exact iff_of_true rfl nofun
    · exact iff_of_true rfl nofun
  · refine iff_of_true ?_ nofun
    cases c
    · rcases getter with _ | _ | address
      · exact bne_undefined trapResult
      · exact bne_undefined trapResult
      · rfl
    · rcases getter with _ | _ | address <;> rfl

theorem setIsRefused_eq_iff (v : Value) (targetDesc : Option GetResult) :
    setIsRefused v targetDesc = specSetIsRefused v (targetDesc.map GetResult.fields) ↔
      SameValueIsSameWord v targetDesc := by
  rcases targetDesc with _ | ⟨u, w, e, c⟩ | ⟨⟨getter, setter⟩, e, c⟩
  · exact iff_of_true rfl nofun
  · cases c <;> cases w
    · refine (bne_eq_bne_iff v u).trans ⟨fun h u' e' heq => ?_, fun h => h u e rfl⟩
      cases heq
      exact h
    · exact iff_of_true rfl nofun
    · exact iff_of_true rfl nofun
    · exact iff_of_true rfl nofun
  · refine iff_of_true ?_ nofun
    cases c <;> rcases setter with _ | _ | address <;> rfl

omit [DecidableEq κ] in
theorem agreesAt_set_iff (v receiver : Value) (world : World W) :
    AgreesAt Thrown.meaning (p.set key v receiver) (p.specSet key v receiver) world ↔
      p.Condition (.set key v receiver) world := by
  unfold set specSet Condition
  rw [agreesAt_withTrap_iff p _ _ fun next => AgreesAt.refl _ next]
  refine AtTrap.congr fun handler trap called => ?_
  rw [agreesAt_bind_iff]
  refine leaves_congr fun trapResult returned => ?_
  cases htrue : trapResult.toBoolean with
  | false => exact iff_of_true (AgreesAt.refl _ returned) nofun
  | true =>
    simp only [Bool.not_true, Bool.false_eq_true, if_false, forall_true_left]
    rw [agreesAt_bind_iff]
    refine leaves_congr fun targetDesc next => ?_
    rw [agreesAt_refusal_iff, setIsRefused_eq_iff]

/-- A computation that calls no function. -/
def KeepsCalls (x : Machine W α) : Prop := ∀ world, (finalState (x world)).2 = world.2

theorem keepsCalls_pure (a : α) : KeepsCalls (pure a : Machine W α) := fun _ => rfl

variable (e : Thrown) (refused : Bool) {x : Machine W α}

theorem keepsCalls_throw : KeepsCalls (throw e : Machine W α) := fun _ => rfl

theorem keepsCalls_onHeap (x : EStateM Thrown W α) : KeepsCalls (onHeap x) := by
  intro world
  unfold onHeap
  cases x world.1 <;> rfl

theorem KeepsCalls.bind {f : α → Machine W β} (hx : KeepsCalls x)
    (hf : ∀ a, KeepsCalls (f a)) : KeepsCalls (x >>= f) := by
  intro world
  have hcalls := hx world
  cases hresult : x world with
  | ok a next =>
    rw [hresult] at hcalls
    rw [bind_of_ok hresult]
    exact (hf a next).trans hcalls
  | error e next =>
    rw [hresult] at hcalls
    rw [bind_of_error hresult]
    exact hcalls

theorem keepsCalls_refusal (hx : KeepsCalls x) : KeepsCalls (if refused then throw e else x) := by
  split
  · exact keepsCalls_throw e
  · exact hx

omit [DecidableEq κ] in
theorem calls_call_bind (userCall : UserCall) {f : Value → Machine W α}
    (hf : ∀ v, KeepsCalls (f v)) (world : World W) :
    (finalState ((p.call userCall >>= f) world)).2 = userCall :: world.2 :=
  (keepsCalls_onHeap (p.engine.call userCall)).bind hf (world.1, userCall :: world.2)

omit [DecidableEq κ] in
theorem agreesAt_get_iff (receiver : Value) (world : World W) :
    AgreesAt Thrown.meaning (p.get key receiver) (p.specGet key receiver) world ↔
      p.Condition (.get key receiver) world := by
  unfold get specGet Condition
  rw [agreesAt_withTrap_iff p _ _ fun next => AgreesAt.refl _ next]
  refine AtTrap.congr fun handler trap called => ?_
  have hself : AgreesAt Thrown.meaning
      (do
        let trapResult ←
          p.call ⟨trap, handler, [p.target, p.engine.toPropertyKeyValue key, p.self]⟩
        let targetDesc ← onHeap (p.engine.target.getOwnProperty key)
        if getIsRefused trapResult targetDesc then throw (.typeError "%s: Proxy Type Error.")
        else pure trapResult)
      (do
        let trapResult ←
          p.call ⟨trap, handler, [p.target, p.engine.toPropertyKeyValue key, p.self]⟩
        let targetDesc ← onHeap (p.engine.target.getOwnProperty key)
        if specGetIsRefused trapResult (targetDesc.map GetResult.fields) then throwTypeError
        else pure trapResult) called ↔
      Leaves (p.call ⟨trap, handler, [p.target, p.engine.toPropertyKeyValue key, p.self]⟩) called
        fun trapResult returned =>
          Leaves (onHeap (p.engine.target.getOwnProperty key)) returned
            fun targetDesc _ => SameValueIsSameWord trapResult targetDesc := by
    rw [agreesAt_bind_iff]
    refine leaves_congr fun trapResult returned => ?_
    rw [agreesAt_bind_iff]
    refine leaves_congr fun targetDesc next => ?_
    rw [agreesAt_refusal_iff, getIsRefused_eq_iff]
  by_cases hreceiver : receiver = p.self
  · rw [hreceiver]
    exact hself.trans (and_iff_right rfl).symm
  · refine iff_of_false (fun hagrees => hreceiver ?_) fun h => hreceiver h.1
    have hcode := calls_call_bind p
      ⟨trap, handler, [p.target, p.engine.toPropertyKeyValue key, p.self]⟩
      (fun v => (keepsCalls_onHeap (p.engine.target.getOwnProperty key)).bind fun result =>
        keepsCalls_refusal (.typeError "%s: Proxy Type Error.") (getIsRefused v result)
          (keepsCalls_pure v)) called
    have hspec := calls_call_bind p
      ⟨trap, handler, [p.target, p.engine.toPropertyKeyValue key, receiver]⟩
      (fun v => (keepsCalls_onHeap (p.engine.target.getOwnProperty key)).bind fun result =>
        keepsCalls_refusal (.typeError "") (specGetIsRefused v (result.map GetResult.fields))
          (keepsCalls_pure v)) called
    have hcalls := hcode.symm.trans ((congrArg Prod.snd hagrees.finalState_eq).trans hspec)
    injection hcalls with hcall
    injection hcall with _ _ harguments
    simpa using harguments.symm

section

omit [DecidableEq κ]

variable (targetDesc : Option GetResult) (answer : α)

theorem keepsCalls_specCheckAbsent : KeepsCalls (p.specCheckAbsent targetDesc answer) := by
  cases targetDesc with
  | none => exact keepsCalls_pure answer
  | some current =>
    refine keepsCalls_refusal _ _ ((keepsCalls_onHeap _).bind fun extensibleTarget => ?_)
    exact keepsCalls_refusal _ _ (keepsCalls_pure answer)

theorem agreesAt_extensible (world : World W) : AgreesAt Thrown.meaning (do
        let extensibleTarget ← onHeap p.engine.target.isExtensible
        if !extensibleTarget then throw (.typeError proxyTypeError) else pure answer)
      (do
        let extensibleTarget ← onHeap p.engine.target.isExtensible
        if !extensibleTarget then throwTypeError else pure answer : Machine W α) world := by
  rw [agreesAt_bind_iff]
  exact leaves_of_forall fun extensibleTarget last =>
    (agreesAt_refusal_iff _ (!extensibleTarget) _ answer last).mpr rfl

/-- An answer is given at once, where the target would be asked. -/
theorem agreesAt_pure_specCheckAbsent (current : GetResult) (answer : α) (world : World W) :
    AgreesAt Thrown.meaning (pure answer) (p.specCheckAbsent (some current) answer) world ↔
      current.isConfigurable = true ∧
        (onHeap p.engine.target.isExtensible : Machine W Bool) world = .ok true world := by
  unfold specCheckAbsent
  dsimp only
  cases current.isConfigurable with
  | false =>
    exact iff_of_false (not_agreesAt_pure_throw _ _ world) fun h => absurd h.1 Bool.false_ne_true
  | true =>
    simp only [Bool.not_true, Bool.false_eq_true, if_false, true_and]
    cases hasked : (onHeap p.engine.target.isExtensible : Machine W Bool) world with
    | error e next =>
      refine iff_of_false (fun h => ?_) fun hok => by cases hok
      rw [AgreesAt, bind_of_error hasked] at h
      cases h
    | ok extensibleTarget next =>
      rw [AgreesAt, bind_of_ok hasked]
      cases extensibleTarget with
      | false => exact iff_of_false (fun hagrees => by cases hagrees) fun hok => by cases hok
      | true =>
        constructor
        · intro h
          cases h
          rfl
        · intro h
          cases h
          rfl

theorem agreesAt_checkAbsent_iff (world : World W) :
    AgreesAt Thrown.meaning (p.checkAbsent targetDesc answer)
        (p.specCheckAbsent targetDesc answer) world ↔ p.AbsenceIsChecked targetDesc world := by
  cases targetDesc with
  | none => exact iff_of_true (AgreesAt.refl _ world) nofun
  | some current =>
    have hchecked : p.AbsenceIsChecked (some current) world ↔
        match LookupAnswer.ofResult p.target (some current) with
        | .callsGetter _ _ => False
        | .value v => v = .undefined → current.isConfigurable = true ∧
            (onHeap p.engine.target.isExtensible : Machine W Bool) world = .ok true world :=
      ⟨fun h => h current rfl, fun h other hother => by cases hother; exact h⟩
    rw [hchecked]
    unfold checkAbsent valueOf
    cases LookupAnswer.ofResult p.target (some current) with
    | callsGetter getter receiver =>
      refine iff_of_false (fun hagrees => ?_) not_false
      have hcalls := congrArg Prod.snd hagrees.finalState_eq
      rw [keepsCalls_specCheckAbsent p (some current) answer world] at hcalls
      rw [calls_call_bind p ⟨functionValue getter, receiver, []⟩ ?_ world] at hcalls
      · exact absurd (congrArg List.length hcalls) (by simp)
      · intro v
        split
        · exact keepsCalls_pure answer
        · refine keepsCalls_refusal _ _ ((keepsCalls_onHeap _).bind fun extensibleTarget => ?_)
          exact keepsCalls_refusal _ _ (keepsCalls_pure answer)
    | value v =>
      rw [pure_bind]
      by_cases hundefined : v = .undefined
      · subst hundefined
        simp only [BEq.rfl, if_true, forall_true_left]
        exact agreesAt_pure_specCheckAbsent p current answer world
      · refine iff_of_true ?_ fun h => absurd h hundefined
        rw [if_neg (by simpa using hundefined)]
        unfold specCheckAbsent
        dsimp only [Option.all_some]
        by_cases hconfigurable : current.isConfigurable = true
        · simp only [hconfigurable, Bool.not_true, Bool.false_eq_true, if_false]
          exact agreesAt_extensible p answer world
        · simp only [eq_false_of_ne_true hconfigurable, Bool.not_false, if_true]
          exact agreesAt_throwTypeError _ world

theorem agreesAt_deleteOwnProperty_iff (world : World W) :
    AgreesAt Thrown.meaning (p.deleteOwnProperty key) (p.specDeleteOwnProperty key) world ↔
      p.Condition (.deleteOwnProperty key) world := by
  unfold deleteOwnProperty specDeleteOwnProperty Condition
  rw [agreesAt_withTrap_iff p _ _ fun next => AgreesAt.refl _ next]
  refine AtTrap.congr fun handler trap called => ?_
  rw [agreesAt_bind_iff]
  refine leaves_congr fun trapResult returned => ?_
  cases htrue : trapResult.toBoolean with
  | false => exact iff_of_true (AgreesAt.refl _ returned) nofun
  | true =>
    simp only [Bool.not_true, Bool.false_eq_true, if_false, forall_true_left]
    rw [agreesAt_bind_iff]
    exact leaves_congr fun targetDesc next => agreesAt_checkAbsent_iff p targetDesc true next

end

section

omit [DecidableEq κ]

theorem map_withTrap (f : α → β) (p : ProxyObject W κ) (message name : String)
    (target : Machine W α) (present : Value → Value → Machine W α) :
    f <$> p.withTrap message name target present =
      p.withTrap message name (f <$> target) fun handler trap => f <$> present handler trap := by
  unfold withTrap
  cases p.handler with
  | none => rfl
  | some handler =>
    rw [map_bind]
    congr 1
    funext found
    cases found <;> rfl

theorem map_checkAbsent (f : α → β) (p : ProxyObject W κ) (targetDesc : Option GetResult)
    (answer : α) :
    f <$> p.checkAbsent targetDesc answer = p.checkAbsent targetDesc (f answer) := by
  unfold checkAbsent
  rw [map_bind]
  congr 1
  funext v
  split
  · rfl
  · split
    · rfl
    · rw [map_bind]
      congr 1
      funext extensibleTarget
      cases extensibleTarget <;> rfl

/-- The last check of the code is that of the specification, in the code's order. -/
theorem agreesAt_report (targetDesc : Option GetResult) (trapResultObj : Value) (world : World W) :
    AgreesAt Thrown.meaning
      (Option.map GetResult.fields <$> do
        let resultDesc ← onHeap (p.engine.toObjectPropertyDescriptor trapResultObj)
        let resultDesc := completePropertyDescriptor resultDesc.desc
        let extensibleTarget ← onHeap p.engine.target.isExtensible
        if reportIsRefused resultDesc targetDesc extensibleTarget then
          throw (.typeError "Proxy::getOwnPropertyDescriptor error")
        else pure (some (resultOfDescriptor resultDesc)))
      (do
        let resultDesc ← onHeap (p.engine.toObjectPropertyDescriptor trapResultObj)
        let extensibleTarget ← onHeap p.engine.target.isExtensible
        specReport targetDesc extensibleTarget resultDesc : Machine W _) world := by
  rw [map_bind, agreesAt_bind_iff]
  refine leaves_of_forall fun resultDesc next => ?_
  rw [map_bind, agreesAt_bind_iff]
  refine leaves_of_forall fun extensibleTarget last => ?_
  unfold specReport
  rw [reportIsRefused_eq resultDesc.hasHalf]
  by_cases hrefused : specReportIsRefused (specComplete resultDesc.desc.fields)
      (targetDesc.map GetResult.fields) extensibleTarget = true
  · rw [if_pos hrefused, if_pos hrefused]
    exact agreesAt_throwTypeError _ last
  · rw [if_neg hrefused, if_neg hrefused, map_pure, Option.map_some, fields_resultOfDescriptor,
      fields_completePropertyDescriptor resultDesc.hasHalf]
    exact AgreesAt.refl _ last

theorem agreesAt_getOwnProperty_iff (world : World W) :
    AgreesAt Thrown.meaning (Option.map GetResult.fields <$> p.getOwnProperty key)
        (p.specGetOwnProperty key) world ↔
      p.Condition (.getOwnProperty key) world := by
  unfold getOwnProperty specGetOwnProperty Condition
  rw [map_withTrap, agreesAt_withTrap_iff p _ _ fun next => AgreesAt.refl _ next]
  refine AtTrap.congr fun handler trap called => ?_
  rw [map_bind, agreesAt_bind_iff]
  refine leaves_congr fun trapResultObj returned => ?_
  by_cases hobject : trapResultObj.isObject = true
  · have hdefined : trapResultObj ≠ .undefined := by
      rintro rfl
      cases hobject
    have hbeq : (trapResultObj == .undefined) = false := beq_eq_false_iff_ne.mpr hdefined
    simp only [hobject, hbeq, hdefined, Bool.not_true, Bool.false_and, Bool.false_eq_true, if_false,
      false_implies, true_and, forall_true_left]
    rw [map_bind, agreesAt_bind_iff]
    refine leaves_congr fun targetDesc next => ?_
    have hreport := agreesAt_report p targetDesc trapResultObj next
    exact ⟨fun h => hreport.symm.trans h, fun h => hreport.trans h⟩
  · by_cases hundefined : trapResultObj = .undefined
    · subst hundefined
      simp only [Value.isObject, bne_self_eq_false, Bool.and_false, Bool.false_eq_true, if_false,
        BEq.rfl, if_true, forall_true_left, false_implies, and_true]
      rw [map_bind, agreesAt_bind_iff]
      refine leaves_congr fun targetDesc next => ?_
      rw [map_checkAbsent, Option.map_none]
      exact agreesAt_checkAbsent_iff p targetDesc none next
    · have hbne : (trapResultObj != .undefined) = true := bne_iff_ne.mpr hundefined
      have hfalse : trapResultObj.isObject = false := eq_false_of_ne_true hobject
      simp only [hfalse, hbne, Bool.not_false, Bool.and_self, if_true]
      refine iff_of_true (agreesAt_throwTypeError _ returned) (leaves_of_forall fun _ _ => ?_)
      exact ⟨fun h => absurd h hundefined, nofun⟩

end

end Agreement

end ProxyObject

end Escargot.Runtime
