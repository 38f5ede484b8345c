/-
# Arguments objects refine the specification

The arguments object of the specification is an ordinary object with a parameter
map: for a mapped index the value is that of the parameter. The relation to the
code says, index by index, where the value and the attributes are.

The code writes the value and unmaps the index before the definition is
validated. A definition that is rejected must therefore not ask for anything new,
or the object changes although it answers false.
-/

import Escargot.Runtime.ArgumentsObject

namespace Escargot.Runtime

open List Option
open Function (update_eq_self update_idem update_of_ne update_self)

open Foundation

/-- The arguments exotic object, with the environment that its parameter map refers to. -/
structure SpecArguments (N κ : Type) where
  properties : ArgumentsKey κ → Option (PropertyFields ObservedValue AccessorFunction)
  isExtensible : Bool
  parameterMap : Nat → Option N
  environment : N → ObservedValue

namespace SpecArguments

variable {N κ : Type} [DecidableEq N] [DecidableEq κ]
  (s : SpecArguments N κ) (key : ArgumentsKey κ) (v : ObservedValue) (receiver : SetReceiver)

/-- The parameter that the key is mapped to. -/
def mappedName : Option N := key.tryToUseAsIndexProperty.bind s.parameterMap

/-- The value replaced by another one. -/
def withValue : PropertyFields ObservedValue AccessorFunction →
    PropertyFields ObservedValue AccessorFunction
  | .data _ w e c => .data v w e c
  | fields => fields

def getOwnProperty : Option (PropertyFields ObservedValue AccessorFunction) :=
  match s.mappedName key with
  | some name => (s.properties key).map (withValue (s.environment name))
  | none => s.properties key

/-- `Set(map, P, V)`. -/
def assign (name : N) (v : ObservedValue) : SpecArguments N κ :=
  { s with environment := Function.update s.environment name v }

def assignPresent (name : N) (value : Option ObservedValue) : SpecArguments N κ :=
  match value with
  | some v => s.assign name v
  | none => s

/-- `map.[[Delete]](P)`. -/
def unmap : SpecArguments N κ :=
  match key.tryToUseAsIndexProperty with
  | some i => { s with parameterMap := Function.update s.parameterMap i none }
  | none => s

variable (desc : DescriptorFields ObservedValue AccessorFunction)

def newArgDesc : DescriptorFields ObservedValue AccessorFunction :=
  match s.mappedName key with
  | some name =>
    if desc.value.isNone && desc.writable == some false then
      { desc with value := some (s.environment name) }
    else desc
  | none => desc

/-- [[DefineOwnProperty]]. The stored value of a mapped index is never read, so the current
property is taken with the value of the parameter. -/
def defineOwnProperty : SpecArguments N κ × Bool :=
  match (s.newArgDesc key desc).validateAndApply Value.undefined.observed .undefined
      s.isExtensible (s.getOwnProperty key) with
  | none => (s, false)
  | some fields =>
    let mapped := s.mappedName key
    let s := { s with properties := Function.update s.properties key (some fields) }
    match mapped with
    | none => (s, true)
    | some name =>
      if desc.isAccessor then (s.unmap key, true)
      else
        let s := s.assignPresent name desc.value
        if desc.writable == some false then (s.unmap key, true) else (s, true)

def removeProperty : SpecArguments N κ :=
  { s with properties := Function.update s.properties key none }

def delete : SpecArguments N κ × Bool :=
  match s.getOwnProperty key with
  | none => (s.unmap key, true)
  | some fields =>
    if fields.configurable then ((s.removeProperty key).unmap key, true) else (s, false)

def lookup (receiver : Value) :
    Option (PropertyFields ObservedValue AccessorFunction) → LookupAnswer ObservedValue
  | none => .value Value.undefined.observed
  | some (.data v _ _ _) => .value v
  | some (.accessor (.callable address) _ _ _) => .callsGetter (.callable address) receiver
  | some (.accessor .undefined _ _ _) => .value Value.undefined.observed

def get (receiver : Value) (inherited : Option (PropertyFields ObservedValue AccessorFunction)) :
    LookupAnswer ObservedValue :=
  lookup receiver ((s.getOwnProperty key).or inherited)

def hasProperty (inherited : Bool) : Bool := (s.getOwnProperty key).isSome || inherited

/-- `OrdinarySetWithOwnDescriptor`, up to the point where it leaves the object. -/
def ordinarySet : SpecArguments N κ × SetAnswer :=
  match s.getOwnProperty key with
  | none => (s, .goesToPrototype)
  | some (.data _ writable _ _) =>
    if !writable then (s, .returned false)
    else
      match receiver with
      | .primitive => (s, .returned false)
      | .otherObject => (s, .goesToReceiver)
      | .self =>
        let result := s.defineOwnProperty key ⟨some v, none, none, none, none, none⟩
        (result.1, .returned result.2)
  | some (.accessor _ (.callable address) _ _) => (s, .callsSetter (.callable address))
  | some (.accessor _ .undefined _ _) => (s, .returned false)

def set : SpecArguments N κ × SetAnswer :=
  let mapped := if receiver = .self then s.mappedName key else none
  let s := match mapped with
    | some name => s.assign name v
    | none => s
  s.ordinarySet key v receiver

/-- One operation. -/
def step : ArgumentsOp N κ → SpecArguments N κ × ArgumentsAnswer
  | .assignParameter name v => (s.assign name v.1.observed, .done)
  | .readParameter name => (s, .value (s.environment name))
  | .getOwnProperty key => (s, .property (s.getOwnProperty key))
  | .get key receiver inherited =>
    (s, .lookup (s.get key receiver (inherited.map GetResult.fields)))
  | .getIndexedProperty key receiver inherited =>
    (s, .lookup (s.get key receiver (inherited.map GetResult.fields)))
  | .getIndexedPropertyValue key _ receiver inherited =>
    (s, .lookup (s.get key receiver (inherited.map GetResult.fields)))
  | .hasProperty key inherited => (s, .boolean (s.hasProperty key inherited))
  | .hasIndexedProperty key inherited => (s, .boolean (s.hasProperty key inherited))
  | .set key v receiver =>
    let result := s.set key v.1.observed receiver
    (result.1, .set result.2)
  | .setIndexedProperty key v =>
    let result := s.set key v.1.observed .self
    (result.1, .set result.2)
  | .defineOwnProperty key desc =>
    let result := s.defineOwnProperty key desc.desc.fields
    (result.1, .boolean result.2)
  | .deleteOwnProperty key =>
    let result := s.delete key
    (result.1, .boolean result.2)
  | .preventExtensions => ({ s with isExtensible := false }, .boolean true)

variable (builtins : ArgumentsBuiltins) (isMapped : Bool) (parameterNames : List N)
  (argv : List ScriptValue)

/-- The properties after `CreateMappedArgumentsObject` and `CreateUnmappedArgumentsObject`. -/
def initialProperties : ArgumentsKey κ → Option (PropertyFields ObservedValue AccessorFunction)
  | .index i => argv[i]?.map fun v => .data v.1.observed true true true
  | .length => some (.data (Value.int32 (.ofNat argv.length)).observed true false true)
  | .iterator => some (.data builtins.arrayPrototypeValues.observed true false true)
  | .callee =>
    if isMapped then some (.data builtins.sourceFunctionObject.observed true false true)
    else some (.accessor builtins.thrower builtins.thrower false false)
  | .other _ => none

/-- An argument is mapped to its parameter, unless a later parameter has the same name. -/
def create (record : N → Value) : SpecArguments N κ where
  properties := initialProperties builtins isMapped argv
  isExtensible := true
  parameterMap i :=
    if isMapped ∧ i < argv.length then
      parameterNames[i]?.filter fun name => name ∉ parameterNames.drop (i + 1)
    else none
  environment name := (record name).observed

end SpecArguments

theorem EncodedValue.isEmpty_slotOfValue (v : Value) : (ofValue v).isEmpty = v.isEmpty := by
  cases v with
  | double d =>
    simp only [ofValue]
    split
    · split <;> rfl
    · rfl
  | _ => rfl

theorem EncodedValue.isEmpty_assign (slot : EncodedValue) (v : Value) :
    (slot.assign v).isEmpty = v.isEmpty := by
  cases v with
  | double d =>
    simp only [assign]
    split <;> rfl
  | _ => rfl

theorem EncodedValue.observed_ofValue (v : Value) : (ofValue v).toValue.observed = v.observed :=
  Value.observed_eq_of_sameValue (sameValue_ofValue v)

theorem EncodedValue.observed_assign (slot : EncodedValue) (v : Value) :
    (slot.assign v).toValue.observed = v.observed :=
  Value.observed_eq_of_sameValue (sameValue_assign slot v)

namespace PropertyObject

variable {κ : Type} [DecidableEq κ] {o : PropertyObject κ Empty} {key : κ}

/-- No builtin waits for its first use. -/
def IsInstalled (o : PropertyObject κ Empty) : Prop :=
  ∀ key builtin, o.properties key ≠ some (.uninstalled builtin)

theorem IsInstalled.setProperty (ho : o.IsInstalled) {property : Option (OwnProperty Empty)}
    (hproperty : ∀ builtin, property ≠ some (.uninstalled builtin)) :
    (o.setProperty key property).IsInstalled := by
  intro other builtin
  show Function.update o.properties key property other ≠ _
  by_cases hkey : other = key
  · subst hkey
    rw [update_self]
    exact hproperty builtin
  · rw [update_of_ne hkey]
    exact ho other builtin

theorem IsInstalled.setOwnDataPropertyInner (ho : o.IsInstalled) (item : OwnProperty Empty)
    (v : Value) : (o.setOwnDataPropertyInner key item v).1.IsInstalled := by
  cases item with
  | plainData slot w e c => exact ho.setProperty (by simp)
  | jsGetterSetter _ _ _ => exact ho
  | native _ privateData => exact privateData.elim
  | uninstalled _ => exact ho

theorem replaceDescriptor_ne_uninstalled {item : OwnProperty Empty}
    (hitem : ∀ builtin, item ≠ .uninstalled builtin) (newDesc : PropertyDescriptor)
    (builtin : Value) : replaceDescriptor item newDesc ≠ .uninstalled builtin := by
  cases item with
  | plainData _ _ _ _ => simp [replaceDescriptor]
  | jsGetterSetter _ _ _ => simp [replaceDescriptor]
  | native _ privateData => exact privateData.elim
  | uninstalled waiting => exact absurd rfl (hitem waiting)

theorem IsInstalled.writeProperty (ho : o.IsInstalled) {item : OwnProperty Empty}
    (hitem : ∀ builtin, item ≠ .uninstalled builtin) (desc newDesc : PropertyDescriptor)
    (shouldDelete : Bool) :
    (o.writeProperty key item desc newDesc shouldDelete).1.IsInstalled := by
  rw [PropertyObject.writeProperty]
  split
  · split
    · refine (ho.setProperty fun builtin h => ?_).setOwnDataPropertyInner _ _
      exact replaceDescriptor_ne_uninstalled hitem newDesc builtin (Option.some.inj h)
    · split
      · exact ho.setOwnDataPropertyInner _ _
      · exact ho
  · split <;> exact ho.setProperty (by simp)

theorem toOwnProperty_ne_uninstalled (desc : PropertyDescriptor) (builtin : Value) :
    (desc.toOwnProperty : OwnProperty Empty) ≠ .uninstalled builtin := by
  cases desc <;> simp [PropertyDescriptor.toOwnProperty]

theorem IsInstalled.define (ho : o.IsInstalled) (key : κ) (desc : PropertyDescriptor) :
    (o.defineOwnPropertyMethod key desc).1.IsInstalled := by
  rw [defineOwnPropertyMethod.eq_def]
  cases hcurrent : o.properties key with
  | none =>
    dsimp only
    split
    · exact ho
    · refine ho.setProperty fun builtin h => ?_
      exact toOwnProperty_ne_uninstalled desc builtin (Option.some.inj h)
  | some current =>
    have hitem : ∀ builtin, current ≠ .uninstalled builtin := by
      rintro builtin rfl
      exact ho key builtin hcurrent
    have hread : o.readCurrent key current = (o, current, current.value) := by
      cases current with
      | uninstalled builtin => exact absurd rfl (hitem builtin)
      | _ => rfl
    dsimp only
    rw [hread]
    split
    · exact ho
    · split
      · exact ho
      · split
        · exact ho
        · exact ho.writeProperty hitem _ _ _

/-- What `ValidateAndApplyPropertyDescriptor` leaves of an object. -/
structure DefinedAs (o after : PropertyObject κ Empty) (key : κ)
    (next : Option (PropertyFields ObservedValue AccessorFunction)) : Prop where
  observe : after.observe = Function.update o.observe key (next.or (o.observe key))
  isExtensible : after.isExtensible = o.isExtensible
  isInstalled : o.IsInstalled → after.IsInstalled

theorem define_spec (ho : o.IsInstalled) (key : κ) {desc : PropertyDescriptor}
    (hdesc : desc.HasHalf) :
    ∃ after, o.defineOwnPropertyMethod key desc = (after, .returned
          (validateAndApplyPropertyDescriptor o.isExtensible desc (o.observe key)).isSome) ∧
      DefinedAs o after key
        (validateAndApplyPropertyDescriptor o.isExtensible desc (o.observe key)) := by
  have hstores : o.StoresWritten key desc := by
    rw [StoresWritten]
    split
    · rename_i privateData _
      exact privateData.elim
    · rename_i builtin hcurrent
      exact absurd hcurrent (ho key builtin)
    · trivial
  obtain ⟨hresult, hextensible, -⟩ := (meetsSpecification_iff o key hdesc).mpr hstores
  refine ⟨(o.defineOwnPropertyMethod key desc).1, Prod.ext rfl ?_, ?_, hextensible,
    fun h => h.define key desc⟩
  · split at hresult <;> rename_i hnext <;> rw [hnext] <;> exact hresult.1
  · split at hresult
    · rename_i hnext
      rw [hnext, none_or, update_eq_self]
      exact hresult.2
    · rename_i hnext
      rw [hnext]
      exact hresult.2

end PropertyObject

namespace ArgumentsObject

variable {N κ : Type} [DecidableEq N] [DecidableEq κ] {a a' : ArgumentsObject N κ}
  {s s' : SpecArguments N κ} {i : Nat} {key : ArgumentsKey κ}

/-- A matched argument: its value is in the map or in the environment, and its attributes are in
its slot, if it has one. The value in the slot means nothing. -/
structure ArgumentRefines (a : ArgumentsObject N κ) (s : SpecArguments N κ) (i : Nat)
    (stored : ObservedValue) (e c : Bool) : Prop where
  properties : s.properties (.index i) = some (.data stored true e c)
  parameterMap : s.parameterMap i = (a.parameterMap i).second
  first : (a.parameterMap i).second = none → (a.parameterMap i).first.toValue.observed = stored
  slot : a.isModifiedArgument (some i) = true →
    ∃ w, a.object.observe (.index i) = some (.data w true e c)
  noSlot : a.isModifiedArgument (some i) = false →
    a.object.observe (.index i) = none ∧ e = true ∧ c = true

def RefinesAt (a : ArgumentsObject N κ) (s : SpecArguments N κ) (key : ArgumentsKey κ) : Prop :=
  match key with
  | .index i =>
    if a.isMatchedArgument (some i) then ∃ stored e c, ArgumentRefines a s i stored e c
    else s.parameterMap i = none ∧ a.object.observe (.index i) = s.properties (.index i)
  | key => a.object.observe key = s.properties key

structure Refines (a : ArgumentsObject N κ) (s : SpecArguments N κ) : Prop where
  environment : ∀ name, (a.targetRecord name).observed = s.environment name
  isExtensible : a.object.isExtensible = s.isExtensible
  isInstalled : a.object.IsInstalled
  refinesAt : ∀ key, RefinesAt a s key

omit [DecidableEq N] [DecidableEq κ] in
theorem refinesAt_of_not_matched
    (hmatched : a.isMatchedArgument key.tryToUseAsIndexProperty = false)
    (hmapped : s.mappedName key = none) (hobserve : a.object.observe key = s.properties key) :
    RefinesAt a s key := by
  cases key with
  | index i =>
    rw [RefinesAt, if_neg (Bool.not_eq_true _ ▸ hmatched)]
    exact ⟨hmapped, hobserve⟩
  | _ => exact hobserve

variable {stored : ObservedValue} {e c : Bool}

section

omit [DecidableEq N] [DecidableEq κ]

theorem refinesAt_of_matched (hmatched : a.isMatchedArgument (some i) = true)
    (h : ArgumentRefines a s i stored e c) : RefinesAt a s (.index i) := by
  rw [RefinesAt, if_pos hmatched]
  exact ⟨stored, e, c, h⟩

theorem Refines.slot (h : Refines a s)
    (hmatched : a.isMatchedArgument key.tryToUseAsIndexProperty = false) :
    s.mappedName key = none ∧ a.object.observe key = s.properties key := by
  have hat := h.refinesAt key
  cases key with
  | index i =>
    rw [RefinesAt, if_neg (Bool.not_eq_true _ ▸ hmatched)] at hat
    exact hat
  | _ => exact ⟨rfl, hat⟩

theorem Refines.argument (h : Refines a s) (hmatched : a.isMatchedArgument (some i) = true) :
    ∃ stored e c, ArgumentRefines a s i stored e c := by
  have hat := h.refinesAt (.index i)
  rw [RefinesAt, if_pos hmatched] at hat
  exact hat

theorem isMatchedArgument_congr {index : Option Nat} (hargc : a'.argc = a.argc)
    (hmap : ∀ i, index = some i → a'.parameterMap i = a.parameterMap i) :
    a'.isMatchedArgument index = a.isMatchedArgument index := by
  cases index with
  | none => rfl
  | some i => rw [isMatchedArgument, isMatchedArgument, hargc, hmap i rfl]

end

/-- Nothing but the contents of one key changes in the object. -/
structure KeepsOthers (a a' : ArgumentsObject N κ) (key : ArgumentsKey κ) : Prop where
  argc : a'.argc = a.argc
  parameterMap : ∀ i, .index i ≠ key → a'.parameterMap i = a.parameterMap i
  modified : ∀ i, .index i ≠ key → a'.isModifiedArgument (some i) = a.isModifiedArgument (some i)
  observe : ∀ other, other ≠ key → a'.object.observe other = a.object.observe other
  isExtensible : a'.object.isExtensible = a.object.isExtensible
  isInstalled : a.object.IsInstalled → a'.object.IsInstalled

omit [DecidableEq N] [DecidableEq κ] in
theorem KeepsOthers.refl (a : ArgumentsObject N κ) (key : ArgumentsKey κ) : KeepsOthers a a key :=
  ⟨rfl, fun _ _ => rfl, fun _ _ => rfl, fun _ _ => rfl, rfl, id⟩

omit [DecidableEq N] [DecidableEq κ] in
theorem KeepsOthers.trans {a'' : ArgumentsObject N κ} (h : KeepsOthers a a' key)
    (h' : KeepsOthers a' a'' key) : KeepsOthers a a'' key where
  argc := h'.argc.trans h.argc
  parameterMap i hi := (h'.parameterMap i hi).trans (h.parameterMap i hi)
  modified i hi := (h'.modified i hi).trans (h.modified i hi)
  observe other hother := (h'.observe other hother).trans (h.observe other hother)
  isExtensible := h'.isExtensible.trans h.isExtensible
  isInstalled ha := h'.isInstalled (h.isInstalled ha)

/-- Nothing but one key and the environment changes in the specification. -/
structure SpecKeepsOthers (s s' : SpecArguments N κ) (key : ArgumentsKey κ) : Prop where
  properties : ∀ other, other ≠ key → s'.properties other = s.properties other
  parameterMap : ∀ i, .index i ≠ key → s'.parameterMap i = s.parameterMap i
  isExtensible : s'.isExtensible = s.isExtensible

section

omit [DecidableEq N] [DecidableEq κ]

theorem ArgumentRefines.congr (h : ArgumentRefines a s i stored e c)
    (hkeeps : KeepsOthers a a' key) (hspec : SpecKeepsOthers s s' key) (hi : .index i ≠ key) :
    ArgumentRefines a' s' i stored e c where
  properties := (hspec.properties _ hi).trans h.properties
  parameterMap := by
    rw [hspec.parameterMap i hi, hkeeps.parameterMap i hi]
    exact h.parameterMap
  first := by
    rw [hkeeps.parameterMap i hi]
    exact h.first
  slot := by
    rw [hkeeps.modified i hi, hkeeps.observe _ hi]
    exact h.slot
  noSlot := by
    rw [hkeeps.modified i hi, hkeeps.observe _ hi]
    exact h.noSlot

theorem Refines.update (h : Refines a s) (hkeeps : KeepsOthers a a' key)
    (hspec : SpecKeepsOthers s s' key)
    (henvironment : ∀ name, (a'.targetRecord name).observed = s'.environment name)
    (hat : RefinesAt a' s' key) : Refines a' s' where
  environment := henvironment
  isExtensible := by rw [hkeeps.isExtensible, hspec.isExtensible, h.isExtensible]
  isInstalled := hkeeps.isInstalled h.isInstalled
  refinesAt other := by
    by_cases hother : other = key
    · exact hother ▸ hat
    have hsame : a'.isMatchedArgument other.tryToUseAsIndexProperty =
        a.isMatchedArgument other.tryToUseAsIndexProperty := by
      refine isMatchedArgument_congr hkeeps.argc fun i hi => hkeeps.parameterMap i ?_
      cases other with
      | index j =>
        cases hi
        exact hother
      | _ => cases hi
    cases hmatched : a.isMatchedArgument other.tryToUseAsIndexProperty with
    | false =>
      obtain ⟨hmapped, hobserve⟩ := h.slot hmatched
      refine refinesAt_of_not_matched (hsame.trans hmatched) ?_ ?_
      · cases other with
        | index i => exact (hspec.parameterMap i hother).trans hmapped
        | _ => rfl
      · rw [hkeeps.observe other hother, hspec.properties other hother, hobserve]
    | true =>
      cases other with
      | index i =>
        obtain ⟨stored, e, c, hargument⟩ := h.argument hmatched
        exact refinesAt_of_matched (hsame.trans hmatched)
          (hargument.congr hkeeps hspec hother)
      | _ => cases hmatched

theorem RefinesAt.congr (h : RefinesAt a s key) {object : PropertyObject (ArgumentsKey κ) Empty}
    (hobserve : object.observe = a.object.observe) (targetRecord : N → Value)
    (isExtensible : Bool) (environment : N → ObservedValue) :
    RefinesAt { a with object, targetRecord } { s with isExtensible, environment } key := by
  cases key with
  | index i =>
    cases hmatched : a.isMatchedArgument (some i) with
    | true =>
      rw [RefinesAt, if_pos hmatched] at h
      obtain ⟨stored, e, c, hargument⟩ := h
      refine refinesAt_of_matched hmatched
        (show ArgumentRefines _ _ i stored e c from ⟨hargument.properties,
          hargument.parameterMap, hargument.first, fun hmodified => ?_, fun hmodified => ?_⟩)
      · exact hobserve ▸ hargument.slot hmodified
      · exact hobserve ▸ hargument.noSlot hmodified
    | false =>
      rw [RefinesAt, if_neg (Bool.not_eq_true _ ▸ hmatched)] at h
      exact refinesAt_of_not_matched hmatched h.1 ((congrFun hobserve _).trans h.2)
  | _ => exact (congrFun hobserve _).trans h

end

def argumentValue (a : ArgumentsObject N κ) (i : Nat) : ObservedValue :=
  (a.getIndexedPropertyValueQuickly i).observed

omit [DecidableEq N] [DecidableEq κ] in
theorem ArgumentRefines.getOwnProperty (h : Refines a s)
    (hargument : ArgumentRefines a s i stored e c) :
    s.getOwnProperty (.index i) = some (.data (a.argumentValue i) true e c) := by
  have hmapped : s.mappedName (.index i) = (a.parameterMap i).second := hargument.parameterMap
  rw [SpecArguments.getOwnProperty, hmapped, hargument.properties, argumentValue,
    getIndexedPropertyValueQuickly]
  cases hsecond : (a.parameterMap i).second with
  | none =>
    dsimp only
    rw [hargument.first hsecond]
  | some name =>
    rw [h.environment name]
    rfl

omit [DecidableEq N] [DecidableEq κ] in
theorem fields_getOwnPropertyOfObject (a : ArgumentsObject N κ) (key : ArgumentsKey κ) :
    (a.getOwnPropertyOfObject key).map GetResult.fields = a.object.observe key := by
  rw [getOwnPropertyOfObject, Option.map_map, PropertyObject.observe]
  exact congrArg (Option.map · _) (funext GetResult.fields_ofProperty)

theorem fields_withValue (v : Value) (result : GetResult) :
    (result.withValue v).fields = SpecArguments.withValue v.observed result.fields := by
  cases result <;> rfl

section

omit [DecidableEq N] [DecidableEq κ]

theorem getOwnProperty_of_matched (hmatched : a.isMatchedArgument (some i) = true)
    (hargument : ArgumentRefines a s i stored e c) :
    (a.getOwnProperty (.index i)).map GetResult.fields =
      some (.data (a.argumentValue i) true e c) := by
  rw [getOwnProperty, ArgumentsKey.tryToUseAsIndexProperty]
  dsimp only
  cases hmodified : a.isModifiedArgument (some i) with
  | false =>
    obtain ⟨-, rfl, rfl⟩ := hargument.noSlot hmodified
    rw [hmatched]
    rfl
  | true =>
    obtain ⟨w, hslot⟩ := hargument.slot hmodified
    rw [hmatched, if_neg (by decide), if_pos rfl, Option.map_map,
      show GetResult.fields ∘ (·.withValue (a.getIndexedPropertyValueQuickly i)) =
        SpecArguments.withValue (a.argumentValue i) ∘ GetResult.fields from
        funext fun result => fields_withValue _ result,
      ← Option.map_map, fields_getOwnPropertyOfObject, hslot]
    rfl

theorem getOwnProperty_of_not_matched
    (hmatched : a.isMatchedArgument key.tryToUseAsIndexProperty = false) :
    a.getOwnProperty key = a.getOwnPropertyOfObject key := by
  cases key with
  | index i =>
    have hmatched : a.isMatchedArgument (some i) = false := hmatched
    rw [getOwnProperty, ArgumentsKey.tryToUseAsIndexProperty]
    dsimp only
    rw [hmatched, Bool.and_false]
    rfl
  | _ => rfl

theorem eq_index_of_matched (h : a.isMatchedArgument key.tryToUseAsIndexProperty = true) :
    ∃ i, key = .index i ∧ a.isMatchedArgument (some i) = true := by
  cases key with
  | index i => exact ⟨i, rfl, h⟩
  | _ => cases h

theorem Refines.getOwnProperty (h : Refines a s) (key : ArgumentsKey κ) :
    (a.getOwnProperty key).map GetResult.fields = s.getOwnProperty key := by
  cases hmatched : a.isMatchedArgument key.tryToUseAsIndexProperty with
  | false =>
    obtain ⟨hmapped, hobserve⟩ := h.slot hmatched
    rw [getOwnProperty_of_not_matched hmatched, fields_getOwnPropertyOfObject, hobserve,
      SpecArguments.getOwnProperty, hmapped]
  | true =>
    obtain ⟨i, rfl, hmatched⟩ := eq_index_of_matched hmatched
    obtain ⟨stored, e, c, hargument⟩ := h.argument hmatched
    rw [getOwnProperty_of_matched hmatched hargument, hargument.getOwnProperty h]

end

theorem observed_ofResult (receiver : Value) (result : Option GetResult) :
    (LookupAnswer.ofResult receiver result).observed =
      SpecArguments.lookup receiver (result.map GetResult.fields) := by
  rcases result with _ | ⟨v, w, e, c⟩ | ⟨⟨getter, setter⟩, e, c⟩
  · rfl
  · rfl
  · rcases getter with _ | _ | address <;> rfl

section

omit [DecidableEq N] [DecidableEq κ]

theorem Refines.get (h : Refines a s) (key : ArgumentsKey κ) (receiver : Value)
    (inherited : Option GetResult) :
    (LookupAnswer.ofResult receiver (a.get key inherited)).observed =
      s.get key receiver (inherited.map GetResult.fields) := by
  rw [observed_ofResult, ArgumentsObject.get, SpecArguments.get, ← h.getOwnProperty key]
  cases a.getOwnProperty key <;> rfl

theorem Refines.getOwnProperty_isMatched (h : Refines a s)
    (hmatched : a.isMatchedArgument (some i) = true) :
    ∃ e c, a.getOwnProperty (.index i) =
      some (.data (a.getIndexedPropertyValueQuickly i) true e c) := by
  obtain ⟨stored, e, c, hargument⟩ := h.argument hmatched
  have hfields := getOwnProperty_of_matched hmatched hargument
  rw [ArgumentsObject.getOwnProperty, ArgumentsKey.tryToUseAsIndexProperty] at hfields ⊢
  dsimp only at hfields ⊢
  cases hmodified : a.isModifiedArgument (some i) with
  | false =>
    rw [hmatched]
    exact ⟨true, true, rfl⟩
  | true =>
    rw [hmatched, hmodified, if_neg (by decide), if_pos rfl] at hfields
    rw [hmatched, if_neg (by decide), if_pos rfl]
    cases hslot : a.getOwnPropertyOfObject (.index i) with
    | none =>
      rw [hslot] at hfields
      cases hfields
    | some result =>
      rw [hslot] at hfields
      cases result with
      | data v w e' c' =>
        injection hfields with hfields
        injection hfields with _ hw _ _
        subst hw
        exact ⟨e', c', rfl⟩
      | accessor getterSetter e' c' => cases hfields

theorem Refines.getIndexedProperty (h : Refines a s) (key : ArgumentsKey κ)
    (inherited : Option GetResult) :
    (a.getIndexedProperty key inherited).map GetResult.fields =
      (a.get key inherited).map GetResult.fields := by
  cases hmatched : a.isMatchedArgument key.tryToUseAsIndexProperty with
  | false =>
    cases key with
    | index i =>
      have hmatched : a.isMatchedArgument (some i) = false := hmatched
      rw [ArgumentsObject.getIndexedProperty, ArgumentsKey.tryToUseAsIndexProperty]
      dsimp only
      rw [hmatched, Bool.and_false]
      rfl
    | _ => rfl
  | true =>
    obtain ⟨i, rfl, hindex⟩ := eq_index_of_matched hmatched
    obtain ⟨e, c, hown⟩ := h.getOwnProperty_isMatched hindex
    rw [ArgumentsObject.getIndexedProperty, ArgumentsKey.tryToUseAsIndexProperty]
    dsimp only
    rw [ArgumentsObject.get, hown]
    split
    · rename_i hfirst
      rw [ArgumentsObject.getOwnProperty, ArgumentsKey.tryToUseAsIndexProperty] at hown
      dsimp only at hown
      rw [if_pos hfirst, Option.some.injEq, GetResult.data.injEq] at hown
      obtain ⟨-, -, rfl, rfl⟩ := hown
      rfl
    · rfl

theorem Refines.getIndexedPropertyValue (h : Refines a s) (key : ArgumentsKey κ)
    (property : Value) (inherited : Option GetResult) :
    a.getIndexedPropertyValue key property inherited =
      LookupAnswer.ofResult property (a.get key inherited) := by
  cases hmatched : a.isMatchedArgument key.tryToUseAsIndexProperty with
  | false =>
    cases key with
    | index i =>
      have hmatched : a.isMatchedArgument (some i) = false := hmatched
      rw [ArgumentsObject.getIndexedPropertyValue, ArgumentsKey.tryToUseAsIndexProperty]
      dsimp only
      rw [hmatched, Bool.and_false]
      rfl
    | _ => rfl
  | true =>
    obtain ⟨i, rfl, hindex⟩ := eq_index_of_matched hmatched
    obtain ⟨e, c, hown⟩ := h.getOwnProperty_isMatched hindex
    rw [ArgumentsObject.getIndexedPropertyValue, ArgumentsKey.tryToUseAsIndexProperty]
    dsimp only
    rw [ArgumentsObject.get, hown, if_pos hindex, ite_self]
    rfl

theorem Refines.hasProperty (h : Refines a s) (key : ArgumentsKey κ) (inherited : Bool) :
    a.hasProperty key inherited = s.hasProperty key inherited := by
  rw [SpecArguments.hasProperty, ← h.getOwnProperty key, isSome_map, ArgumentsObject.hasProperty]
  split
  · rename_i hfirst
    obtain ⟨i, rfl, hmatched⟩ := eq_index_of_matched (Bool.and_eq_true _ _ ▸ hfirst).2
    obtain ⟨e, c, hown⟩ := h.getOwnProperty_isMatched hmatched
    rw [hown]
    rfl
  · rfl

theorem Refines.hasIndexedProperty (h : Refines a s) (key : ArgumentsKey κ) (inherited : Bool) :
    a.hasIndexedProperty key inherited = s.hasProperty key inherited := by
  cases hmatched : a.isMatchedArgument key.tryToUseAsIndexProperty with
  | false =>
    rw [← h.hasProperty, ArgumentsObject.hasIndexedProperty]
    rw [hmatched, Bool.and_false]
    rfl
  | true =>
    obtain ⟨i, rfl, hindex⟩ := eq_index_of_matched hmatched
    obtain ⟨stored, e, c, hargument⟩ := h.argument hindex
    rw [SpecArguments.hasProperty, hargument.getOwnProperty h, isSome_some, Bool.true_or,
      ArgumentsObject.hasIndexedProperty, ArgumentsKey.tryToUseAsIndexProperty]
    cases hmodified : a.isModifiedArgument (some i) with
    | false =>
      rw [hindex]
      rfl
    | true =>
      obtain ⟨w, hslot⟩ := hargument.slot hmodified
      have hsome := congrArg Option.isSome (fields_getOwnPropertyOfObject a (.index i))
      rw [isSome_map, hslot] at hsome
      rw [hindex]
      exact hsome

end

def writtenEnvironment (environment : N → ObservedValue) (mapped : Option N)
    (value : Option ObservedValue) : N → ObservedValue :=
  match mapped, value with
  | some name, some v => Function.update environment name v
  | _, _ => environment

@[simp]
theorem writtenEnvironment_unmapped (environment : N → ObservedValue)
    (value : Option ObservedValue) : writtenEnvironment environment none value = environment :=
  rfl

@[simp]
theorem writtenEnvironment_none (environment : N → ObservedValue) (mapped : Option N) :
    writtenEnvironment environment mapped none = environment := by
  cases mapped <;> rfl

@[simp]
theorem writtenEnvironment_some (environment : N → ObservedValue) (name : N) (v : ObservedValue) :
    writtenEnvironment environment (some name) (some v) = Function.update environment name v :=
  rfl

structure Written (a a' : ArgumentsObject N κ) (i : Nat) (value : Option ObservedValue) :
    Prop where
  keeps : KeepsOthers a a' (.index i)
  object : a'.object = a.object
  modified : a'.isModifiedArgument (some i) = a.isModifiedArgument (some i)
  matched : a'.isMatchedArgument (some i) = true
  second : (a'.parameterMap i).second = (a.parameterMap i).second
  first : (a.parameterMap i).second = none → (a'.parameterMap i).first.toValue.observed =
    value.getD (a.parameterMap i).first.toValue.observed
  environment : ∀ name, (a'.targetRecord name).observed =
    writtenEnvironment (fun name => (a.targetRecord name).observed) (a.parameterMap i).second
      value name
  argumentValue : a'.argumentValue i = value.getD (a.argumentValue i)

omit [DecidableEq κ] in
theorem written_setIndexedPropertyValueQuickly
    (hmatched : a.isMatchedArgument (some i) = true) {v : Value} (hv : v.isEmpty = false) :
    Written a (a.setIndexedPropertyValueQuickly i v) i (some v.observed) := by
  rw [isMatchedArgument, Bool.and_eq_true, decide_eq_true_eq] at hmatched
  rw [setIndexedPropertyValueQuickly]
  cases hsecond : (a.parameterMap i).second with
  | some name =>
    refine ⟨⟨rfl, fun _ _ => rfl, fun _ _ => rfl, fun _ _ => rfl, rfl, id⟩, rfl, rfl, ?_, rfl,
      ?_, fun other => ?_, ?_⟩
    · simp [isMatchedArgument, hmatched]
    · intro h
      cases hsecond.symm.trans h
    · rw [hsecond, writtenEnvironment_some]
      by_cases hother : other = name
      · subst hother
        simp
      · simp [update_of_ne hother]
    · simp [argumentValue, getIndexedPropertyValueQuickly, hsecond]
  | none =>
    refine ⟨⟨rfl, fun j hj => ?_, fun _ _ => rfl, fun _ _ => rfl, rfl, id⟩, rfl, rfl, ?_, ?_, ?_,
      fun name => ?_, ?_⟩
    · exact update_of_ne (fun h => hj (congrArg _ h)) _ _
    · simp [isMatchedArgument, hmatched.1, EncodedValue.isEmpty_assign, hv]
    · simp [hsecond]
    · intro _
      simp [EncodedValue.observed_assign]
    · rw [hsecond]
      rfl
    · simp [argumentValue, getIndexedPropertyValueQuickly, EncodedValue.observed_assign]

/-- The first thing that a definition does to a matched argument. -/
def writeValue (a : ArgumentsObject N κ) (i : Nat) (desc : PropertyDescriptor) :
    ArgumentsObject N κ :=
  if desc.isValuePresent then a.setIndexedPropertyValueQuickly i desc.value else a

theorem PropertyDescriptor.value_fields (desc : PropertyDescriptor) :
    desc.fields.value = if desc.isValuePresent then some desc.value.observed else none := by
  cases desc with
  | data value _ _ _ => cases value <;> rfl
  | accessor _ _ _ => rfl

omit [DecidableEq κ] in
theorem written_writeValue (hmatched : a.isMatchedArgument (some i) = true)
    {desc : PropertyDescriptor} (hdesc : desc.value.isEmpty = false) :
    Written a (a.writeValue i desc) i desc.fields.value := by
  rw [writeValue, PropertyDescriptor.value_fields]
  split
  · exact written_setIndexedPropertyValueQuickly hmatched hdesc
  · refine ⟨KeepsOthers.refl a _, rfl, rfl, hmatched, rfl, fun _ => rfl, fun name => ?_, rfl⟩
    rw [writtenEnvironment_none]

omit [DecidableEq κ] in
theorem Refines.write {stored' : ObservedValue} {value : Option ObservedValue} (h : Refines a s)
    (hargument : ArgumentRefines a s i stored e c) (hwritten : Written a a' i value)
    (hspec : SpecKeepsOthers s s' (.index i))
    (henvironment : s'.environment =
      writtenEnvironment s.environment (s.mappedName (.index i)) value)
    (hmapped : s'.mappedName (.index i) = s.mappedName (.index i))
    (hproperties : s'.properties (.index i) = some (.data stored' true e c))
    (hstored : s.mappedName (.index i) = none → stored' = value.getD stored) :
    Refines a' s' := by
  have hsecond : s.mappedName (.index i) = (a.parameterMap i).second := hargument.parameterMap
  refine h.update hwritten.keeps hspec (fun name => ?_) (refinesAt_of_matched hwritten.matched
    (show ArgumentRefines a' s' i stored' e c from
      ⟨hproperties, ?_, fun hnone => ?_, ?_, ?_⟩))
  · rw [hwritten.environment name, henvironment, hsecond,
      show (fun name => (a.targetRecord name).observed) = s.environment from funext h.environment]
  · rw [hwritten.second, ← hsecond]
    exact hmapped
  · rw [hwritten.second] at hnone
    rw [hwritten.first hnone, hargument.first hnone, hstored (hsecond.trans hnone)]
  · rw [hwritten.modified, hwritten.object]
    exact hargument.slot
  · rw [hwritten.modified, hwritten.object]
    exact hargument.noSlot

section

omit [DecidableEq N] [DecidableEq κ]

theorem keepsOthers_setModifiedArgument (a : ArgumentsObject N κ) (i : Nat) :
    KeepsOthers a (a.setModifiedArgument (some i)) (.index i) := by
  refine ⟨rfl, fun _ _ => rfl, fun j hj => ?_, fun _ _ => rfl, rfl, id⟩
  have hne : j ≠ i := fun h => hj (congrArg _ h)
  rw [isModifiedArgument, isModifiedArgument, setModifiedArgument]
  cases a.modifiedArguments with
  | none =>
    dsimp only [getD_none]
    split
    · rw [update_of_ne hne, Bool.and_false]
    · rw [Bool.and_false]
  | some modified =>
    dsimp only [getD_some]
    split
    · rw [update_of_ne hne]
    · rfl

variable (a)

theorem isModifiedArgument_setModifiedArgument (hi : i < a.argc) :
    (a.setModifiedArgument (some i)).isModifiedArgument (some i) = true := by
  simp [isModifiedArgument, setModifiedArgument, hi]

theorem keepsOthers_unmap (i : Nat) : KeepsOthers a (a.unmap i) (.index i) :=
  ⟨rfl, fun _ hj => update_of_ne (fun h => hj (congrArg _ h)) _ _, fun _ _ => rfl,
    fun _ _ => rfl, rfl, id⟩

theorem isMatchedArgument_unmap (i : Nat) : (a.unmap i).isMatchedArgument (some i) = false := by
  simp only [isMatchedArgument, unmap, update_self]
  exact Bool.and_false _

end

omit [DecidableEq N] in
theorem defineInObject_spec (ha : a.object.IsInstalled) (key : ArgumentsKey κ)
    {desc : PropertyDescriptor} (hdesc : desc.HasHalf)
    {next : Option (PropertyFields ObservedValue AccessorFunction)}
    (hnext : validateAndApplyPropertyDescriptor a.object.isExtensible desc
      (a.object.observe key) = next) :
    ∃ object, a.defineInObject key desc = ({ a with object }, .returned next.isSome) ∧
      object.observe key = next.or (a.object.observe key) ∧
      KeepsOthers a { a with object } key := by
  obtain ⟨after, hdefine, hdefined⟩ := PropertyObject.define_spec ha key hdesc
  rw [hnext] at hdefine hdefined
  refine ⟨after, by rw [defineInObject, hdefine], ?_, rfl, fun _ _ => rfl, fun _ _ => rfl,
    fun other hother => ?_, hdefined.isExtensible, hdefined.isInstalled⟩
  · rw [hdefined.observe, update_self]
  · show after.observe other = _
    rw [hdefined.observe, update_of_ne hother]

/-- The slot of a matched argument, made if there is none. -/
def ensureSlot (a : ArgumentsObject N κ) (i : Nat) : ArgumentsObject N κ :=
  if !a.isModifiedArgument (some i) then a.initializeProperty (.index i) i else a

/-- A matched argument has a slot with the given attributes. -/
structure Slotted (a a' : ArgumentsObject N κ) (i : Nat) (e c : Bool) : Prop where
  keeps : KeepsOthers a a' (.index i)
  targetRecord : a'.targetRecord = a.targetRecord
  parameterMap : a'.parameterMap = a.parameterMap
  modified : a'.isModifiedArgument (some i) = true
  slot : ∃ w, a'.object.observe (.index i) = some (.data w true e c)

omit [DecidableEq N] in
theorem slotted_initializeProperty (ha : a.object.IsInstalled) (hi : i < a.argc)
    (hobserve : a.object.observe (.index i) = none) :
    Slotted a (a.initializeProperty (.index i) i) i true true := by
  have hhalf : PropertyDescriptor.HasHalf
      (.data (some ((a.setModifiedArgument (some i)).getIndexedPropertyValueQuickly i))
        (some true) (some true) (some true)) := trivial
  obtain ⟨after, hdefine, hdefined⟩ := PropertyObject.define_spec
    (o := { a.object with isExtensible := true }) ha (.index i) hhalf
  have hnext : (show PropertyObject (ArgumentsKey κ) Empty from
      { a.object with isExtensible := true }).observe (.index i) = none := hobserve
  rw [hnext] at hdefined
  have hslots : (a.initializeProperty (.index i) i).object.observe = after.observe := by
    funext key
    exact congrArg (fun result => PropertyObject.observe result.1 key) hdefine
  have hmodified := keepsOthers_setModifiedArgument a i
  refine ⟨⟨rfl, fun _ _ => rfl, fun j hj => hmodified.modified j hj, fun other hother => ?_, rfl,
    fun _ => ?_⟩, rfl, rfl, isModifiedArgument_setModifiedArgument a hi, ?_⟩
  · rw [hslots, hdefined.observe, update_of_ne hother]
    rfl
  · intro key builtin
    have hinstalled := hdefined.isInstalled ha key builtin
    intro h
    exact hinstalled ((congrArg (fun result => result.1.properties key) hdefine).symm.trans h)
  · rw [hslots, hdefined.observe, update_self]
    exact ⟨_, rfl⟩

omit [DecidableEq N] in
theorem slotted_ensureSlot (ha : a.object.IsInstalled) (hi : i < a.argc)
    (hslot : a.isModifiedArgument (some i) = true →
      ∃ w, a.object.observe (.index i) = some (.data w true e c))
    (hnoSlot : a.isModifiedArgument (some i) = false →
      a.object.observe (.index i) = none ∧ e = true ∧ c = true) :
    Slotted a (a.ensureSlot i) i e c := by
  rw [ensureSlot]
  cases hmodified : a.isModifiedArgument (some i) with
  | false =>
    obtain ⟨hobserve, rfl, rfl⟩ := hnoSlot hmodified
    exact slotted_initializeProperty ha hi hobserve
  | true => exact ⟨KeepsOthers.refl a _, rfl, rfl, hmodified, hslot hmodified⟩

/-- The definition removes the index from the parameter map. -/
def specUnmaps (desc : DescriptorFields ObservedValue AccessorFunction) : Bool :=
  desc.isAccessor || desc.writable == some false

/-- What a definition with the given result changes in the specification. -/
structure SpecDefined (s s' : SpecArguments N κ) (key : ArgumentsKey κ)
    (desc : DescriptorFields ObservedValue AccessorFunction)
    (fields : PropertyFields ObservedValue AccessorFunction) : Prop where
  keeps : SpecKeepsOthers s s' key
  properties : s'.properties key = some fields
  environment : s'.environment = writtenEnvironment s.environment (s.mappedName key) desc.value
  mappedName : s'.mappedName key = if specUnmaps desc then none else s.mappedName key

section

omit [DecidableEq N] [DecidableEq κ]

variable (s) (key)

theorem specKeepsOthers_unmap : SpecKeepsOthers s (s.unmap key) key := by
  cases key with
  | index i =>
    exact ⟨fun _ _ => rfl, fun j hj => update_of_ne (fun h => hj (congrArg _ h)) _ _, rfl⟩
  | _ => exact ⟨fun _ _ => rfl, fun _ _ => rfl, rfl⟩

theorem mappedName_unmap : (s.unmap key).mappedName key = none := by
  cases key with
  | index i =>
    show Function.update s.parameterMap i none i = none
    rw [update_self]
  | _ => rfl

theorem properties_unmap :
    (s.unmap key).properties = s.properties ∧ (s.unmap key).environment = s.environment := by
  cases key <;> exact ⟨rfl, rfl⟩

end

variable {desc : DescriptorFields ObservedValue AccessorFunction}
  {fields : PropertyFields ObservedValue AccessorFunction}

omit [DecidableEq κ] in
theorem specDefined_of_assigned
    (hkeeps : SpecKeepsOthers s s' key) (hproperties : s'.properties key = some fields)
    (henvironment : s'.environment = writtenEnvironment s.environment (s.mappedName key) desc.value)
    (hmapped : s'.mappedName key = s.mappedName key) :
    SpecDefined s (if specUnmaps desc then s'.unmap key else s') key desc fields := by
  split
  · rename_i hunmaps
    have hunmap := specKeepsOthers_unmap s' key
    obtain ⟨hsame, hsameEnvironment⟩ := properties_unmap s' key
    refine ⟨⟨fun other hother => ?_, fun i hi => ?_, ?_⟩, ?_, ?_, ?_⟩
    · rw [hunmap.properties other hother, hkeeps.properties other hother]
    · rw [hunmap.parameterMap i hi, hkeeps.parameterMap i hi]
    · rw [hunmap.isExtensible, hkeeps.isExtensible]
    · rw [hsame, hproperties]
    · rw [hsameEnvironment, henvironment]
    · rw [mappedName_unmap, if_pos hunmaps]
  · rename_i hunmaps
    exact ⟨hkeeps, hproperties, henvironment, by rw [hmapped, if_neg hunmaps]⟩

theorem specDefine_rejected
    (hnext : (s.newArgDesc key desc).validateAndApply Value.undefined.observed .undefined
      s.isExtensible (s.getOwnProperty key) = none) :
    s.defineOwnProperty key desc = (s, false) := by
  rw [SpecArguments.defineOwnProperty, hnext]

theorem specDefine_accepted (hdesc : desc.isAccessor = true → desc.value = none)
    (hnext : (s.newArgDesc key desc).validateAndApply Value.undefined.observed .undefined
      s.isExtensible (s.getOwnProperty key) = some fields) :
    ∃ s', s.defineOwnProperty key desc = (s', true) ∧ SpecDefined s s' key desc fields := by
  have hupdate : SpecKeepsOthers s
      { s with properties := Function.update s.properties key (some fields) } key :=
    ⟨fun other hother => update_of_ne hother _ _, fun _ _ => rfl, rfl⟩
  have hself : Function.update s.properties key (some fields) key = some fields := update_self ..
  rw [SpecArguments.defineOwnProperty, hnext]
  dsimp only
  cases hmapped : s.mappedName key with
  | none =>
    refine ⟨_, rfl, hupdate, hself, ?_, ?_⟩
    · rw [hmapped, writtenEnvironment_unmapped]
    · rw [hmapped, ite_self]
      exact hmapped
  | some name =>
    cases haccessor : desc.isAccessor with
    | true =>
      have hassigned : SpecDefined s _ key desc fields :=
        specDefined_of_assigned hupdate hself
          (by rw [hdesc haccessor, writtenEnvironment_none]) rfl
      rw [specUnmaps, haccessor, Bool.true_or, if_pos rfl] at hassigned
      exact ⟨_, rfl, hassigned⟩
    | false =>
      have hassigned : SpecDefined s (if specUnmaps desc then
          (SpecArguments.assignPresent { s with
            properties := Function.update s.properties key (some fields) } name
            desc.value).unmap key
          else SpecArguments.assignPresent { s with
            properties := Function.update s.properties key (some fields) } name desc.value)
          key desc fields := by
        refine specDefined_of_assigned ?_ ?_ ?_ ?_
        · cases desc.value <;>
            exact ⟨hupdate.properties, hupdate.parameterMap, hupdate.isExtensible⟩
        · cases desc.value <;> exact hself
        · rw [hmapped]
          cases desc.value <;> rfl
        · cases desc.value <;> rfl
      dsimp only
      rw [if_neg Bool.false_ne_true]
      rw [specUnmaps, haccessor, Bool.false_or] at hassigned
      split at hassigned
      · rename_i hwritable
        rw [if_pos hwritable]
        exact ⟨_, rfl, hassigned⟩
      · rename_i hwritable
        rw [if_neg hwritable]
        exact ⟨_, rfl, hassigned⟩

/-- The definition removes the argument from the map. -/
def unmaps (desc : PropertyDescriptor) : Bool :=
  (desc.isWritablePresent && !desc.isWritable) || desc.isAccessorDescriptor

theorem specUnmaps_fields {desc : PropertyDescriptor} (hdesc : desc.HasHalf) :
    specUnmaps desc.fields = unmaps desc := by
  rw [specUnmaps, unmaps, PropertyDescriptor.isAccessor_fields hdesc, Bool.or_comm]
  congr 1
  cases desc with
  | data _ writable _ _ => rcases writable with _ | _ | _ <;> rfl
  | accessor _ _ _ => rfl

variable (a) (i)

/-- The definition that changes nothing but the value of an argument without a slot. -/
def changesValueOnly (desc : PropertyDescriptor) : Bool :=
  desc.isWritable && desc.isConfigurable && desc.isEnumerable && !desc.isAccessorDescriptor &&
    !a.isModifiedArgument (some i)

/-- The descriptor that a slot of an unmapped argument is defined with. -/
def unmappedDesc (desc : PropertyDescriptor) : PropertyDescriptor :=
  if !desc.isAccessorDescriptor then desc.setValue (a.getIndexedPropertyValueQuickly i) else desc

variable {a} {i}

theorem defineOwnProperty_of_matched (hmatched : a.isMatchedArgument (some i) = true)
    (desc : PropertyDescriptor) :
    a.defineOwnProperty (.index i) desc = if changesValueOnly (a.writeValue i desc) i desc then
        (a.writeValue i desc, .returned true)
      else if unmaps desc then
        ((((a.writeValue i desc).ensureSlot i).unmap i).setModifiedArgument
          (some i)).defineInObject (.index i)
            (unmappedDesc ((a.writeValue i desc).ensureSlot i) i desc)
      else ((a.writeValue i desc).ensureSlot i).defineInObject (.index i) desc := by
  rw [defineOwnProperty, ArgumentsKey.tryToUseAsIndexProperty]
  dsimp only
  rw [if_pos hmatched]
  rfl

variable (a) (i) (key)

/-- A definition that is rejected for a matched argument asks for nothing new: its value, if it
has one, is the value the argument has, and it unmaps the argument only if no parameter is mapped
and the slot holds the value of the argument. -/
def RejectsNothingNew (desc : PropertyDescriptor) : Prop :=
  (desc.isValuePresent = true → desc.value.observed = a.argumentValue i) ∧
    (unmaps desc = true → (a.parameterMap i).second = none ∧
      (a.getOwnPropertyOfObject (.index i)).map GetResult.fields =
        (a.getOwnProperty (.index i)).map GetResult.fields)

/-- The definition is valid for the current property. -/
def isAccepted (desc : PropertyDescriptor) : Bool :=
  (a.getOwnProperty key).all fun current => desc.fields.isValid current.fields

variable {a} {i} {key}

omit [DecidableEq N] [DecidableEq κ] in
theorem Refines.congr_object (h : Refines a s) {object : PropertyObject (ArgumentsKey κ) Empty}
    (hkeeps : KeepsOthers a { a with object } key)
    (hobserve : object.observe key = a.object.observe key) :
    Refines { a with object } s := by
  refine h.update hkeeps ⟨fun _ _ => rfl, fun _ _ => rfl, rfl⟩ h.environment ?_
  cases hmatched : a.isMatchedArgument key.tryToUseAsIndexProperty with
  | false =>
    obtain ⟨hmapped, hslot⟩ := h.slot hmatched
    exact refinesAt_of_not_matched hmatched hmapped (hobserve.trans hslot)
  | true =>
    obtain ⟨i, rfl, hindex⟩ := eq_index_of_matched hmatched
    obtain ⟨stored, e, c, hargument⟩ := h.argument hindex
    refine refinesAt_of_matched hindex (show ArgumentRefines { a with object } s i stored e c from
      ⟨hargument.properties, hargument.parameterMap, hargument.first, fun hmodified => ?_,
        fun hmodified => ?_⟩)
    · show ∃ w, object.observe _ = _
      rw [hobserve]
      exact hargument.slot hmodified
    · show object.observe _ = _ ∧ _
      rw [hobserve]
      exact hargument.noSlot hmodified

section Matched

variable {stored : ObservedValue} {e c : Bool} {desc : PropertyDescriptor}

section

omit [DecidableEq N] [DecidableEq κ]

theorem isAccepted_of_matched (hmatched : a.isMatchedArgument (some i) = true)
    (hargument : ArgumentRefines a s i stored e c) (desc : PropertyDescriptor) :
    a.isAccepted (.index i) desc = desc.fields.isValid (.data (a.argumentValue i) true e c) := by
  have hown := getOwnProperty_of_matched hmatched hargument
  rw [map_eq_some_iff] at hown
  obtain ⟨current, hcurrent, hfields⟩ := hown
  rw [isAccepted, hcurrent, all_some, hfields]

theorem isValid_newArgDesc (s : SpecArguments N κ) (key : ArgumentsKey κ)
    (desc : DescriptorFields ObservedValue AccessorFunction) (v : ObservedValue) (e c : Bool) :
    (s.newArgDesc key desc).isValid (.data v true e c) = desc.isValid (.data v true e c) := by
  rw [SpecArguments.newArgDesc]
  split
  · split
    · rename_i hwritable
      rw [Bool.and_eq_true, beq_iff_eq] at hwritable
      exact DescriptorFields.isValid_withValue (by rw [hwritable.2]; rfl) _ _ _ _
    · rfl
  · rfl

theorem applyTo_newArgDesc {fields : DescriptorFields ObservedValue AccessorFunction}
    {v : ObservedValue} (hvalue : ∀ name, s.mappedName key = some name → s.environment name = v) :
    (s.newArgDesc key fields).applyTo Value.undefined.observed AccessorFunction.undefined
        (.data v true e c) =
      fields.applyTo Value.undefined.observed .undefined (.data v true e c) := by
  rw [SpecArguments.newArgDesc]
  split
  · rename_i name hmapped
    split
    · rename_i hwritable
      rw [Bool.and_eq_true, isNone_iff_eq_none] at hwritable
      rw [hvalue name hmapped]
      obtain ⟨value, writable, get, set, enumerable, configurable⟩ := fields
      obtain rfl : value = none := hwritable.1
      rfl
    · rfl
  · rfl

theorem ArgumentRefines.environment (h : Refines a s)
    (hargument : ArgumentRefines a s i stored e c) :
    ∀ name, s.mappedName (.index i) = some name → s.environment name = a.argumentValue i := by
  intro name hmapped
  have hsecond : (a.parameterMap i).second = some name := hargument.parameterMap.symm.trans hmapped
  rw [argumentValue, getIndexedPropertyValueQuickly, hsecond]
  exact (h.environment name).symm

theorem ArgumentRefines.stored_eq (hargument : ArgumentRefines a s i stored e c)
    (hmapped : s.mappedName (.index i) = none) : stored = a.argumentValue i := by
  have hsecond : (a.parameterMap i).second = none := hargument.parameterMap.symm.trans hmapped
  rw [argumentValue, getIndexedPropertyValueQuickly, hsecond]
  exact (hargument.first hsecond).symm

end

/-- What a definition that keeps the argument in the map leaves of a property. -/
theorem applyTo_of_not_unmaps (hdesc : desc.HasHalf) (hunmaps : unmaps desc = false)
    (v : ObservedValue) (e c : Bool) :
    desc.fields.applyTo Value.undefined.observed .undefined (.data v true e c) =
      .data (desc.fields.value.getD v) true (desc.fields.enumerable.getD e)
        (desc.fields.configurable.getD c) := by
  rw [← specUnmaps_fields hdesc, specUnmaps, Bool.or_eq_false_iff, beq_eq_false_iff_ne] at hunmaps
  rw [DescriptorFields.applyTo_writable hunmaps.1]
  congr 1
  rcases hwritable : desc.fields.writable with _ | _ | _
  · rfl
  · exact absurd hwritable hunmaps.2
  · rfl

section

omit [DecidableEq N] [DecidableEq κ]

theorem validateAndApply_of_slot {extensible : Bool} (desc : PropertyDescriptor)
    (v w : ObservedValue) :
    validateAndApplyPropertyDescriptor extensible desc (some (.data w true e c)) =
      if desc.fields.isValid (.data v true e c) then
        some (desc.fields.applyTo Value.undefined.observed .undefined (.data w true e c))
      else none := by
  rw [validateAndApplyPropertyDescriptor, DescriptorFields.validateAndApply_some,
    DescriptorFields.isValid_writable _ w v]

theorem validateAndApply_unmappedDesc {extensible : Bool} (hdesc : desc.HasHalf)
    (hunmaps : unmaps desc = true) {v : ObservedValue}
    (hvalue : a.argumentValue i = desc.fields.value.getD v) (w : ObservedValue) :
    validateAndApplyPropertyDescriptor extensible (unmappedDesc a i desc)
        (some (.data w true e c)) =
      if desc.fields.isValid (.data v true e c) then
        some (desc.fields.applyTo Value.undefined.observed .undefined (.data v true e c))
      else none := by
  rw [validateAndApply_of_slot _ v w]
  cases desc with
  | accessor getterSetter enumerable configurable =>
    have hsame : unmappedDesc a i (.accessor getterSetter enumerable configurable) =
        .accessor getterSetter enumerable configurable := rfl
    rw [hsame, DescriptorFields.applyTo_accessor (PropertyDescriptor.isAccessor_fields hdesc) w v]
  | data value writable enumerable configurable =>
    have hwritable : writable.isSome = true := by
      rcases writable with _ | _
      · cases hunmaps
      · rfl
    have hfields : (unmappedDesc a i (.data value writable enumerable configurable)).fields =
        { (PropertyDescriptor.data value writable enumerable configurable).fields with
          value := some (a.argumentValue i) } := rfl
    rw [hfields, DescriptorFields.isValid_withValue hwritable,
      DescriptorFields.applyTo_writable rfl, DescriptorFields.applyTo_writable rfl, hvalue]
    rfl

theorem hasHalf_unmappedDesc (hdesc : desc.HasHalf) : (unmappedDesc a i desc).HasHalf := by
  cases desc with
  | data _ _ _ _ => exact trivial
  | accessor _ _ _ => exact hdesc

theorem lt_argc_of_matched (hmatched : a.isMatchedArgument (some i) = true) : i < a.argc := by
  rw [isMatchedArgument, Bool.and_eq_true, decide_eq_true_eq] at hmatched
  exact hmatched.1

end

variable {a₁ : ArgumentsObject N κ}

theorem Written.slotted {value : Option ObservedValue} (hwritten : Written a a₁ i value)
    (h : Refines a s) (hargument : ArgumentRefines a s i stored e c) :
    Slotted a₁ (a₁.ensureSlot i) i e c := by
  refine slotted_ensureSlot ?_ (lt_argc_of_matched hwritten.matched) ?_ ?_
  · rw [hwritten.object]
    exact h.isInstalled
  · rw [hwritten.modified, hwritten.object]
    exact hargument.slot
  · rw [hwritten.modified, hwritten.object]
    exact hargument.noSlot

omit [DecidableEq κ] in
theorem SpecDefined.environment_eq {fields : PropertyFields ObservedValue AccessorFunction}
    (hdefined : SpecDefined s s' (.index i) desc.fields fields) (h : Refines a s)
    (hargument : ArgumentRefines a s i stored e c) (hwritten : Written a a₁ i desc.fields.value)
    (name : N) :
    (a₁.targetRecord name).observed = s'.environment name := by
  have hsecond : s.mappedName (.index i) = (a.parameterMap i).second := hargument.parameterMap
  rw [hwritten.environment name, hdefined.environment, hsecond,
    show (fun name => (a.targetRecord name).observed) = s.environment from funext h.environment]

variable {a₂ : ArgumentsObject N κ}

theorem Refines.define_slot (h : Refines a s)
    (hargument : ArgumentRefines a s i stored e c) (hwritten : Written a a₁ i desc.fields.value)
    (hslotted : Slotted a₁ a₂ i e c) (hdesc : desc.HasHalf) (hunmaps : unmaps desc = false)
    (hvalid : desc.fields.isValid (.data (a.argumentValue i) true e c) = true)
    (hdefined : SpecDefined s s' (.index i) desc.fields
      (desc.fields.applyTo Value.undefined.observed .undefined
        (.data (a.argumentValue i) true e c))) :
    ∃ a', a₂.defineInObject (.index i) desc = (a', .returned true) ∧ Refines a' s' := by
  obtain ⟨w, hslot⟩ := hslotted.slot
  have hinstalled := hslotted.keeps.isInstalled (hwritten.keeps.isInstalled h.isInstalled)
  have hnext : validateAndApplyPropertyDescriptor a₂.object.isExtensible desc
      (a₂.object.observe (.index i)) = some (.data (desc.fields.value.getD w) true
        (desc.fields.enumerable.getD e) (desc.fields.configurable.getD c)) := by
    rw [hslot, validateAndApply_of_slot _ (a.argumentValue i), hvalid, if_pos rfl,
      applyTo_of_not_unmaps hdesc hunmaps]
  obtain ⟨object, hdefine, hobserve, hkeeps⟩ := defineInObject_spec hinstalled (.index i) hdesc hnext
  have hmapped : s'.mappedName (.index i) = s.mappedName (.index i) := by
    rw [hdefined.mappedName, specUnmaps_fields hdesc, hunmaps, if_neg Bool.false_ne_true]
  have hproperties := hdefined.properties
  rw [applyTo_of_not_unmaps hdesc hunmaps] at hproperties
  have hmap : a₂.parameterMap i = a₁.parameterMap i := congrFun hslotted.parameterMap i
  refine ⟨_, hdefine, h.update ((hwritten.keeps.trans hslotted.keeps).trans hkeeps)
    hdefined.keeps (fun name => ?_) (refinesAt_of_matched ?_
      (show ArgumentRefines { a₂ with object } s' i (desc.fields.value.getD (a.argumentValue i))
        (desc.fields.enumerable.getD e) (desc.fields.configurable.getD c) from
        ⟨hproperties, ?_, fun hnone => ?_, fun _ => ⟨_, hobserve⟩, fun hmodified => ?_⟩))⟩
  · show (a₂.targetRecord name).observed = _
    rw [hslotted.targetRecord]
    exact hdefined.environment_eq h hargument hwritten name
  · rw [← hwritten.matched]
    exact isMatchedArgument_congr hslotted.keeps.argc fun j hj => congrFun hslotted.parameterMap j
  · show s'.mappedName (.index i) = (a₂.parameterMap i).second
    rw [hmapped, hmap, hwritten.second]
    exact hargument.parameterMap
  · show (a₂.parameterMap i).first.toValue.observed = _
    have hsecond : (a.parameterMap i).second = none := by
      rw [← hwritten.second, ← hmap]
      exact hnone
    rw [hmap, hwritten.first hsecond, hargument.first hsecond,
      hargument.stored_eq (hargument.parameterMap.trans hsecond)]
  · cases hslotted.modified.symm.trans hmodified

theorem Refines.define_unmapped (h : Refines a s)
    (hargument : ArgumentRefines a s i stored e c) (hwritten : Written a a₁ i desc.fields.value)
    (hslotted : Slotted a₁ a₂ i e c) (hdesc : desc.HasHalf) (hunmaps : unmaps desc = true)
    (hvalid : desc.fields.isValid (.data (a.argumentValue i) true e c) = true)
    (hdefined : SpecDefined s s' (.index i) desc.fields
      (desc.fields.applyTo Value.undefined.observed .undefined
        (.data (a.argumentValue i) true e c))) :
    ∃ a', ((a₂.unmap i).setModifiedArgument (some i)).defineInObject (.index i)
        (unmappedDesc a₂ i desc) = (a', .returned true) ∧ Refines a' s' := by
  obtain ⟨w, hslot⟩ := hslotted.slot
  have hunmap := (keepsOthers_unmap a₂ i).trans (keepsOthers_setModifiedArgument (a₂.unmap i) i)
  have hinstalled := hunmap.isInstalled
    (hslotted.keeps.isInstalled (hwritten.keeps.isInstalled h.isInstalled))
  have hvalue : a₂.argumentValue i = desc.fields.value.getD (a.argumentValue i) := by
    rw [← hwritten.argumentValue, argumentValue, argumentValue, getIndexedPropertyValueQuickly,
      getIndexedPropertyValueQuickly, hslotted.parameterMap, hslotted.targetRecord]
  have hnext : validateAndApplyPropertyDescriptor a₂.object.isExtensible
      (unmappedDesc a₂ i desc) (a₂.object.observe (.index i)) =
        some (desc.fields.applyTo Value.undefined.observed .undefined
          (.data (a.argumentValue i) true e c)) := by
    rw [hslot, validateAndApply_unmappedDesc hdesc hunmaps hvalue, hvalid, if_pos rfl]
  obtain ⟨object, hdefine, hobserve, hkeeps⟩ :=
    defineInObject_spec hinstalled (.index i) (hasHalf_unmappedDesc hdesc) hnext
  have hmapped : s'.mappedName (.index i) = none := by
    rw [hdefined.mappedName, specUnmaps_fields hdesc, hunmaps, if_pos rfl]
  refine ⟨_, hdefine, h.update (((hwritten.keeps.trans hslotted.keeps).trans hunmap).trans hkeeps)
    hdefined.keeps (fun name => ?_) (refinesAt_of_not_matched ?_ hmapped ?_)⟩
  · show (a₂.targetRecord name).observed = _
    rw [hslotted.targetRecord]
    exact hdefined.environment_eq h hargument hwritten name
  · exact isMatchedArgument_unmap a₂ i
  · rw [hdefined.properties]
    exact hobserve

theorem value_eq_none_of_isAccessor (desc : PropertyDescriptor)
    (haccessor : desc.fields.isAccessor = true) : desc.fields.value = none := by
  cases desc with
  | data _ _ _ _ => cases haccessor
  | accessor _ _ _ => rfl

omit [DecidableEq N] [DecidableEq κ] in
theorem fields_of_changesValueOnly (hfast : changesValueOnly a i desc = true) :
    a.isModifiedArgument (some i) = false ∧ unmaps desc = false ∧
      desc.fields.enumerable = some true ∧ desc.fields.configurable = some true := by
  cases desc with
  | accessor _ _ _ => simp [changesValueOnly, PropertyDescriptor.isAccessorDescriptor] at hfast
  | data value writable enumerable configurable =>
    simp only [changesValueOnly, Bool.and_eq_true, Bool.not_eq_true',
      PropertyDescriptor.isWritable, PropertyDescriptor.isConfigurable,
      PropertyDescriptor.isEnumerable, PropertyDescriptor.writable?,
      PropertyDescriptor.configurable?, PropertyDescriptor.enumerable?, beq_iff_eq] at hfast
    obtain ⟨⟨⟨⟨rfl, rfl⟩, rfl⟩, -⟩, hmodified⟩ := hfast
    exact ⟨hmodified, rfl, rfl, rfl⟩

theorem Refines.define_accepted (h : Refines a s) (hmatched : a.isMatchedArgument (some i) = true)
    (hargument : ArgumentRefines a s i stored e c) (hdesc : desc.HasHalf)
    (hscript : desc.value.isEmpty = false)
    (hvalid : desc.fields.isValid (.data (a.argumentValue i) true e c) = true) :
    ∃ a' s', a.defineOwnProperty (.index i) desc = (a', .returned true) ∧
      s.defineOwnProperty (.index i) desc.fields = (s', true) ∧ Refines a' s' := by
  have hnext : (s.newArgDesc (.index i) desc.fields).validateAndApply Value.undefined.observed
      .undefined s.isExtensible (s.getOwnProperty (.index i)) =
      some (desc.fields.applyTo Value.undefined.observed .undefined
        (.data (a.argumentValue i) true e c)) := by
    rw [hargument.getOwnProperty h, DescriptorFields.validateAndApply_some, isValid_newArgDesc,
      hvalid, if_pos rfl, applyTo_newArgDesc (hargument.environment h)]
  obtain ⟨s', hspec, hdefined⟩ := specDefine_accepted (value_eq_none_of_isAccessor desc) hnext
  have hwritten := written_writeValue hmatched hscript
  have hslotted := hwritten.slotted h hargument
  rw [defineOwnProperty_of_matched hmatched]
  cases hfast : changesValueOnly (a.writeValue i desc) i desc with
  | true =>
    obtain ⟨hmodified, hunmaps, henumerable, hconfigurable⟩ := fields_of_changesValueOnly hfast
    rw [hwritten.modified] at hmodified
    obtain ⟨-, rfl, rfl⟩ := hargument.noSlot hmodified
    have hproperties := hdefined.properties
    rw [applyTo_of_not_unmaps hdesc hunmaps, henumerable, hconfigurable] at hproperties
    refine ⟨_, s', rfl, hspec, h.write hargument hwritten hdefined.keeps hdefined.environment ?_
      hproperties fun hmapped => ?_⟩
    · rw [hdefined.mappedName, specUnmaps_fields hdesc, hunmaps, if_neg Bool.false_ne_true]
    · rw [hargument.stored_eq hmapped]
  | false =>
    rw [if_neg Bool.false_ne_true]
    cases hunmaps : unmaps desc with
    | true =>
      obtain ⟨a', hdefine, hrefines⟩ :=
        h.define_unmapped hargument hwritten hslotted hdesc hunmaps hvalid hdefined
      exact ⟨a', s', hdefine, hspec, hrefines⟩
    | false =>
      obtain ⟨a', hdefine, hrefines⟩ :=
        h.define_slot hargument hwritten hslotted hdesc hunmaps hvalid hdefined
      exact ⟨a', s', hdefine, hspec, hrefines⟩

theorem Refines.define_rejected (h : Refines a s) (hmatched : a.isMatchedArgument (some i) = true)
    (hargument : ArgumentRefines a s i stored e c) (hdesc : desc.HasHalf)
    (hscript : desc.value.isEmpty = false)
    (hvalid : desc.fields.isValid (.data (a.argumentValue i) true e c) = false)
    (hnew : a.RejectsNothingNew i desc) :
    ∃ a' s', a.defineOwnProperty (.index i) desc = (a', .returned false) ∧
      s.defineOwnProperty (.index i) desc.fields = (s', false) ∧ Refines a' s' := by
  have hnext : (s.newArgDesc (.index i) desc.fields).validateAndApply Value.undefined.observed
      .undefined s.isExtensible (s.getOwnProperty (.index i)) = none := by
    rw [hargument.getOwnProperty h, DescriptorFields.validateAndApply_some, isValid_newArgDesc,
      hvalid, if_neg Bool.false_ne_true]
  have hspec := specDefine_rejected hnext
  have hwritten := written_writeValue hmatched hscript
  -- only an argument with a slot can have attributes that reject
  have hmodified : a.isModifiedArgument (some i) = true := by
    cases hmodified : a.isModifiedArgument (some i) with
    | true => rfl
    | false =>
      obtain ⟨-, -, rfl⟩ := hargument.noSlot hmodified
      cases hvalid
  have hmodified' : (a.writeValue i desc).isModifiedArgument (some i) = true :=
    hwritten.modified.trans hmodified
  have hvalue : ∀ v, desc.fields.value = some v → v = a.argumentValue i := by
    intro v hv
    rw [PropertyDescriptor.value_fields] at hv
    split at hv
    · rename_i hpresent
      cases hv
      exact hnew.1 hpresent
    · cases hv
  have hrefines : Refines (a.writeValue i desc) s := by
    refine h.write hargument hwritten ⟨fun _ _ => rfl, fun _ _ => rfl, rfl⟩ ?_ rfl
      hargument.properties fun hmapped => ?_
    · cases hmapped : s.mappedName (.index i) with
      | none => rw [writtenEnvironment_unmapped]
      | some name =>
        cases hpresent : desc.fields.value with
        | none => rw [writtenEnvironment_none]
        | some v =>
          rw [writtenEnvironment_some, hvalue v hpresent,
            ← hargument.environment h name hmapped, update_eq_self]
    · cases hpresent : desc.fields.value with
      | none => rfl
      | some v => exact (hargument.stored_eq hmapped).trans (hvalue v hpresent).symm
  obtain ⟨w, hslot⟩ := hargument.slot hmodified
  rw [← hwritten.object] at hslot
  have hensure : (a.writeValue i desc).ensureSlot i = a.writeValue i desc := by
    rw [ensureSlot, hmodified']
    rfl
  have hfast : changesValueOnly (a.writeValue i desc) i desc = false := by
    rw [changesValueOnly, hmodified']
    exact Bool.and_false _
  rw [defineOwnProperty_of_matched hmatched, hfast, if_neg Bool.false_ne_true, hensure]
  cases hunmaps : unmaps desc with
  | false =>
    have hrejected : validateAndApplyPropertyDescriptor
        (a.writeValue i desc).object.isExtensible desc
        ((a.writeValue i desc).object.observe (.index i)) = none := by
      rw [hslot, validateAndApply_of_slot _ (a.argumentValue i), hvalid, if_neg Bool.false_ne_true]
    obtain ⟨object, hdefine, hobserve, hkeeps⟩ :=
      defineInObject_spec hrefines.isInstalled (.index i) hdesc hrejected
    exact ⟨_, s, hdefine, hspec, hrefines.congr_object hkeeps hobserve⟩
  | true =>
    obtain ⟨hsecond, hsame⟩ := hnew.2 hunmaps
    have hvalue' : (a.writeValue i desc).argumentValue i =
        desc.fields.value.getD (a.argumentValue i) := hwritten.argumentValue
    have hrejected : validateAndApplyPropertyDescriptor
        (a.writeValue i desc).object.isExtensible (unmappedDesc (a.writeValue i desc) i desc)
        ((a.writeValue i desc).object.observe (.index i)) = none := by
      rw [hslot, validateAndApply_unmappedDesc hdesc hunmaps hvalue', hvalid,
        if_neg Bool.false_ne_true]
    have hunmap := (keepsOthers_unmap (a.writeValue i desc) i).trans
      (keepsOthers_setModifiedArgument ((a.writeValue i desc).unmap i) i)
    obtain ⟨object, hdefine, hobserve, hkeeps⟩ :=
      defineInObject_spec (hunmap.isInstalled hrefines.isInstalled) (.index i)
        (hasHalf_unmappedDesc hdesc) hrejected
    have hmapped : s.mappedName (.index i) = none := hargument.parameterMap.trans hsecond
    refine ⟨_, s, hdefine, hspec, hrefines.update (hunmap.trans hkeeps)
      ⟨fun _ _ => rfl, fun _ _ => rfl, rfl⟩ hrefines.environment
      (refinesAt_of_not_matched (isMatchedArgument_unmap (a.writeValue i desc) i) hmapped ?_)⟩
    rw [fields_getOwnPropertyOfObject, getOwnProperty_of_matched hmatched hargument,
      ← hwritten.object] at hsame
    rw [hargument.properties, hargument.stored_eq hmapped]
    exact hobserve.trans hsame

end Matched

theorem defineOwnProperty_of_not_matched
    (hmatched : a.isMatchedArgument key.tryToUseAsIndexProperty = false)
    (desc : PropertyDescriptor) : a.defineOwnProperty key desc = a.defineInObject key desc := by
  cases key with
  | index i =>
    have hmatched : a.isMatchedArgument (some i) = false := hmatched
    rw [defineOwnProperty, ArgumentsKey.tryToUseAsIndexProperty]
    dsimp only
    rw [hmatched]
    rfl
  | _ => rfl

theorem Refines.define_of_not_matched (h : Refines a s)
    (hmatched : a.isMatchedArgument key.tryToUseAsIndexProperty = false)
    {desc : PropertyDescriptor} (hdesc : desc.HasHalf) :
    ∃ a' s' success, a.defineOwnProperty key desc = (a', .returned success) ∧
      s.defineOwnProperty key desc.fields = (s', success) ∧ Refines a' s' := by
  obtain ⟨hmapped, hslot⟩ := h.slot hmatched
  have hcurrent : s.getOwnProperty key = a.object.observe key := by
    rw [SpecArguments.getOwnProperty, hmapped, hslot]
  have hsame : s.newArgDesc key desc.fields = desc.fields := by
    rw [SpecArguments.newArgDesc, hmapped]
  rw [defineOwnProperty_of_not_matched hmatched]
  cases hnext : validateAndApplyPropertyDescriptor a.object.isExtensible desc
      (a.object.observe key) with
  | none =>
    obtain ⟨object, hdefine, hobserve, hkeeps⟩ := defineInObject_spec h.isInstalled key hdesc hnext
    refine ⟨_, s, false, hdefine, specDefine_rejected ?_, h.congr_object hkeeps hobserve⟩
    rw [hsame, hcurrent, ← h.isExtensible]
    exact hnext
  | some fields =>
    obtain ⟨object, hdefine, hobserve, hkeeps⟩ := defineInObject_spec h.isInstalled key hdesc hnext
    obtain ⟨s', hspec, hdefined⟩ : ∃ s', s.defineOwnProperty key desc.fields = (s', true) ∧
        SpecDefined s s' key desc.fields fields := by
      refine specDefine_accepted (value_eq_none_of_isAccessor desc) ?_
      rw [hsame, hcurrent, ← h.isExtensible]
      exact hnext
    have hstill : s'.mappedName key = none := by rw [hdefined.mappedName, hmapped, ite_self]
    refine ⟨_, s', true, hdefine, hspec, h.update hkeeps hdefined.keeps (fun name => ?_)
      (refinesAt_of_not_matched hmatched hstill ?_)⟩
    · rw [hdefined.environment, hmapped, writtenEnvironment_unmapped]
      exact h.environment name
    · rw [hdefined.properties]
      exact hobserve

variable (a) (key)

omit [DecidableEq N] [DecidableEq κ] in
theorem keepsOthers_markModified :
    KeepsOthers a (a.setModifiedArgument key.tryToUseAsIndexProperty) key := by
  cases key with
  | index i => exact keepsOthers_setModifiedArgument a i
  | _ => exact KeepsOthers.refl a _

def removeSlot : ArgumentsObject N κ := { a with object := a.object.setProperty key none }

variable {a} {key}

section

omit [DecidableEq N]

variable (a) (key) (s)

theorem keepsOthers_removeSlot : KeepsOthers a (a.removeSlot key) key where
  argc := rfl
  parameterMap _ _ := rfl
  modified _ _ := rfl
  observe other hother := by
    show (a.object.setProperty key none).observe other = _
    rw [PropertyObject.observe_setProperty, update_of_ne hother]
  isExtensible := rfl
  isInstalled ha := ha.setProperty (by simp)

theorem observe_removeSlot : (a.removeSlot key).object.observe key = none := by
  show (a.object.setProperty key none).observe key = none
  rw [PropertyObject.observe_setProperty, update_self]
  rfl

theorem specKeepsOthers_removed : SpecKeepsOthers s ((s.removeProperty key).unmap key) key := by
  have hunmap := specKeepsOthers_unmap (s.removeProperty key) key
  exact ⟨fun other hother => (hunmap.properties other hother).trans (update_of_ne hother _ _),
    hunmap.parameterMap, hunmap.isExtensible⟩

variable {a} {key} {s}

theorem Refines.removed (h : Refines a s) (hkeeps : KeepsOthers a a' key)
    (hrecord : a'.targetRecord = a.targetRecord)
    (hmatched : a'.isMatchedArgument key.tryToUseAsIndexProperty = false)
    (hobserve : a'.object.observe key = none) :
    Refines a' ((s.removeProperty key).unmap key) := by
  obtain ⟨hproperties, henvironment⟩ := properties_unmap (s.removeProperty key) key
  refine h.update hkeeps (specKeepsOthers_removed s key) (fun name => ?_)
    (refinesAt_of_not_matched hmatched (mappedName_unmap _ _) ?_)
  · rw [hrecord, henvironment]
    exact h.environment name
  · rw [hobserve, hproperties]
    show none = Function.update s.properties key none key
    rw [update_self]

theorem Refines.delete_of_not_matched (h : Refines a s)
    (hmatched : a.isMatchedArgument key.tryToUseAsIndexProperty = false) :
    ∃ a' s' success, a.deleteOwnProperty key = (a', success) ∧
      s.delete key = (s', success) ∧ Refines a' s' := by
  obtain ⟨hmapped, hslot⟩ := h.slot hmatched
  have hown := h.getOwnProperty key
  -- what the code does once the slot is gone
  have hdelete : ∀ o : ArgumentsObject N κ,
      o.isMatchedArgument key.tryToUseAsIndexProperty = false →
      a.deleteInObject key = (o, true) →
      a.deleteOwnProperty key = (o.setModifiedArgument key.tryToUseAsIndexProperty, true) := by
    intro o ho hobject
    rw [deleteOwnProperty]
    simp only [hmatched, Bool.not_false, Bool.or_true, if_true, hobject]
    cases key with
    | index i =>
      have ho : o.isMatchedArgument (some i) = false := ho
      simp [ArgumentsKey.tryToUseAsIndexProperty, ho]
    | _ => rfl
  cases hresult : a.getOwnProperty key with
  | none =>
    rw [hresult] at hown
    have hspec : s.delete key = (s.unmap key, true) := by
      rw [SpecArguments.delete, ← hown]
      rfl
    refine ⟨_, _, true, hdelete a hmatched (by rw [deleteInObject, hresult]), hspec,
      h.update (keepsOthers_markModified a key) (specKeepsOthers_unmap s key) (fun name => ?_)
        (refinesAt_of_not_matched ?_ (mappedName_unmap s key) ?_)⟩
    · rw [(properties_unmap s key).2]
      cases key <;> exact h.environment name
    · cases key <;> exact hmatched
    · rw [(properties_unmap s key).1]
      cases key <;> exact hslot
  | some result =>
    rw [hresult] at hown
    have hspec : s.delete key = if result.isConfigurable then
        ((s.removeProperty key).unmap key, true) else (s, false) := by
      rw [SpecArguments.delete, ← hown, ← GetResult.configurable_fields]
      rfl
    rw [hspec]
    cases hconfigurable : result.isConfigurable with
    | false =>
      refine ⟨a, s, false, ?_, rfl, h⟩
      have hobject : a.deleteInObject key = (a, false) := by
        rw [deleteInObject, hresult]
        dsimp only
        rw [hconfigurable]
        rfl
      rw [deleteOwnProperty]
      simp only [hmatched, Bool.not_false, Bool.or_true, if_true, hobject]
      rfl
    | true =>
      refine ⟨_, _, true, hdelete (a.removeSlot key) hmatched ?_, rfl,
        h.removed ((keepsOthers_removeSlot a key).trans (keepsOthers_markModified _ key))
          ?_ ?_ ?_⟩
      · rw [deleteInObject, hresult]
        dsimp only
        rw [hconfigurable]
        rfl
      · cases key <;> rfl
      · cases key <;> exact hmatched
      · cases key <;> exact observe_removeSlot a _

theorem Refines.delete_of_matched (h : Refines a s)
    (hmatched : a.isMatchedArgument (some i) = true) :
    ∃ a' s' success, a.deleteOwnProperty (.index i) = (a', success) ∧
      s.delete (.index i) = (s', success) ∧ Refines a' s' := by
  obtain ⟨stored, e, c, hargument⟩ := h.argument hmatched
  have hspec : s.delete (.index i) =
      if c then ((s.removeProperty (.index i)).unmap (.index i), true) else (s, false) := by
    rw [SpecArguments.delete, hargument.getOwnProperty h]
    rfl
  obtain ⟨e', c', hown⟩ := h.getOwnProperty_isMatched hmatched
  have hfields := getOwnProperty_of_matched hmatched hargument
  rw [hown, map_some, Option.some.injEq, GetResult.fields, PropertyFields.data.injEq] at hfields
  obtain ⟨-, -, rfl, rfl⟩ := hfields
  have hunmap := (keepsOthers_unmap a i).trans (keepsOthers_setModifiedArgument (a.unmap i) i)
  rw [hspec]
  cases hmodified : a.isModifiedArgument (some i) with
  | false =>
    obtain ⟨hslot, rfl, rfl⟩ := hargument.noSlot hmodified
    refine ⟨(a.unmap i).setModifiedArgument (some i), _, true, ?_, rfl,
      h.removed hunmap rfl (isMatchedArgument_unmap a i) hslot⟩
    simp [deleteOwnProperty, ArgumentsKey.tryToUseAsIndexProperty, hmodified, hmatched]
  | true =>
    cases c' with
    | false =>
      refine ⟨a, s, false, ?_, rfl, h⟩
      simp [deleteOwnProperty, ArgumentsKey.tryToUseAsIndexProperty, hmodified, deleteInObject,
        hown, GetResult.isConfigurable]
    | true =>
      have hremove := keepsOthers_removeSlot a (.index i)
      have hstill : (a.removeSlot (.index i)).isMatchedArgument (some i) = true := hmatched
      have hunmap := (keepsOthers_unmap (a.removeSlot (.index i)) i).trans
        (keepsOthers_setModifiedArgument ((a.removeSlot (.index i)).unmap i) i)
      refine ⟨((a.removeSlot (.index i)).unmap i).setModifiedArgument (some i), _, true, ?_, rfl,
        h.removed (hremove.trans hunmap) rfl
          (isMatchedArgument_unmap (a.removeSlot (.index i)) i) (observe_removeSlot a _)⟩
      have hdelete : a.deleteInObject (.index i) = (a.removeSlot (.index i), true) := by
        rw [deleteInObject, hown]
        rfl
      simp [deleteOwnProperty, ArgumentsKey.tryToUseAsIndexProperty, hmodified, hdelete, hstill]

theorem Refines.delete (h : Refines a s) (key : ArgumentsKey κ) :
    ∃ a' s' success, a.deleteOwnProperty key = (a', success) ∧
      s.delete key = (s', success) ∧ Refines a' s' := by
  cases hmatched : a.isMatchedArgument key.tryToUseAsIndexProperty with
  | false => exact h.delete_of_not_matched hmatched
  | true =>
    obtain ⟨i, rfl, hindex⟩ := eq_index_of_matched hmatched
    exact h.delete_of_matched hindex

end

omit [DecidableEq N] [DecidableEq κ] in
theorem hasHalf_value (v : Value) :
    PropertyDescriptor.HasHalf (.data (some v) none none none) := trivial

theorem Refines.setInObject (h : Refines a s) (key : ArgumentsKey κ) (v : ScriptValue)
    (receiver : SetReceiver)
    (hreceiver : receiver = .self → a.isMatchedArgument key.tryToUseAsIndexProperty = false) :
    ∃ a' s' answer, a.setInObject key v.1 receiver = (a', some answer) ∧
      s.ordinarySet key v.1.observed receiver = (s', answer) ∧ Refines a' s' := by
  have hown := h.getOwnProperty key
  rw [ArgumentsObject.setInObject.eq_def, SpecArguments.ordinarySet.eq_def, ← hown]
  cases a.getOwnProperty key with
  | none => exact ⟨a, s, _, rfl, rfl, h⟩
  | some result =>
    cases result with
    | data value w e c =>
      cases w with
      | false => exact ⟨a, s, _, rfl, rfl, h⟩
      | true =>
        cases receiver with
        | primitive => exact ⟨a, s, _, rfl, rfl, h⟩
        | otherObject => exact ⟨a, s, _, rfl, rfl, h⟩
        | self =>
          obtain ⟨a', s', success, hdefine, hspec, hrefines⟩ :=
            h.define_of_not_matched (hreceiver rfl) (hasHalf_value v.1)
          have hspec : s.defineOwnProperty key
              ⟨some v.1.observed, none, none, none, none, none⟩ = (s', success) := hspec
          refine ⟨a', s', .returned success, ?_, ?_, hrefines⟩
          · simp only [hdefine]
            rfl
          · simp only [map_some, GetResult.fields, hspec]
            rfl
    | accessor getterSetter e c =>
      obtain ⟨getter, setter⟩ := getterSetter
      rcases setter with _ | _ | address <;> exact ⟨a, s, _, rfl, rfl, h⟩

variable {u : ObservedValue} (v : ObservedValue)

/-- The definition that ends a `set`. -/
def valueOnly : DescriptorFields ObservedValue AccessorFunction :=
  ⟨some v, none, none, none, none, none⟩

theorem specDefine_valueOnly (hown : s.getOwnProperty key = some (.data u true e c)) :
    ∃ s', s.defineOwnProperty key (valueOnly v) = (s', true) ∧
      SpecDefined s s' key (valueOnly v) (.data v true e c) := by
  have hsame : s.newArgDesc key (valueOnly v) = valueOnly v := by
    rw [SpecArguments.newArgDesc]
    cases s.mappedName key <;> rfl
  refine specDefine_accepted (fun haccessor => by cases haccessor) ?_
  rw [hsame, hown, DescriptorFields.validateAndApply_some,
    show (valueOnly v).isValid (.data u true e c) = true by cases c <;> rfl, if_pos rfl]
  rfl

/-- The specification assigns the parameter first and then defines the property. -/
theorem specSet_of_writable (hown : s.getOwnProperty key = some (.data u true e c)) :
    ∃ s', s.set key v .self = (s', .returned true) ∧ SpecKeepsOthers s s' key ∧
      s'.environment = writtenEnvironment s.environment (s.mappedName key) (some v) ∧
      s'.mappedName key = s.mappedName key ∧
      s'.properties key = some (.data v true e c) := by
  rw [SpecArguments.set, if_pos rfl]
  cases hmapped : s.mappedName key with
  | none =>
    obtain ⟨s', hdefine, hdefined⟩ := specDefine_valueOnly v hown
    refine ⟨s', ?_, hdefined.keeps, ?_, ?_, hdefined.properties⟩
    · rw [SpecArguments.ordinarySet, hown]
      dsimp only
      rw [show (⟨some v, none, none, none, none, none⟩ : DescriptorFields _ _) = valueOnly v
        from rfl, hdefine]
      rfl
    · rw [hdefined.environment, hmapped]
      rfl
    · rw [hdefined.mappedName, hmapped, ite_self]
  | some name =>
    have hassigned : (s.assign name v).getOwnProperty key = some (.data v true e c) := by
      rw [SpecArguments.getOwnProperty, hmapped] at hown
      have hmapped' : (s.assign name v).mappedName key = some name := hmapped
      rw [SpecArguments.getOwnProperty, hmapped']
      show (s.properties key).map (SpecArguments.withValue
        (Function.update s.environment name v name)) = _
      rw [update_self]
      dsimp only at hown
      cases hfields : s.properties key with
      | none =>
        rw [hfields] at hown
        cases hown
      | some fields =>
        rw [hfields] at hown
        cases fields with
        | data _ _ _ _ =>
          cases hown
          rfl
        | accessor _ _ _ _ => cases hown
    obtain ⟨s', hdefine, hdefined⟩ := specDefine_valueOnly v hassigned
    refine ⟨s', ?_, ⟨hdefined.keeps.properties, hdefined.keeps.parameterMap,
      hdefined.keeps.isExtensible⟩, ?_, ?_, hdefined.properties⟩
    · rw [SpecArguments.ordinarySet, hassigned]
      rw [show (⟨some v, none, none, none, none, none⟩ : DescriptorFields _ _) = valueOnly v
        from rfl, hdefine]
      rfl
    · have hmapped' : (s.assign name v).mappedName key = some name := hmapped
      rw [hdefined.environment, hmapped']
      show Function.update (Function.update s.environment name v) name v = _
      rw [update_idem]
      rfl
    · rw [hdefined.mappedName]
      exact hmapped

theorem Refines.set_of_matched (h : Refines a s) (hmatched : a.isMatchedArgument (some i) = true)
    (v : ScriptValue) :
    ∃ s', s.set (.index i) v.1.observed .self = (s', .returned true) ∧
      Refines (a.setIndexedPropertyValueQuickly i v.1) s' := by
  obtain ⟨stored, e, c, hargument⟩ := h.argument hmatched
  obtain ⟨s', hspec, hkeeps, henvironment, hmapped, hproperties⟩ :=
    specSet_of_writable v.1.observed (hargument.getOwnProperty h)
  exact ⟨s', hspec, h.write hargument (written_setIndexedPropertyValueQuickly hmatched v.2) hkeeps
    henvironment hmapped hproperties fun _ => rfl⟩

theorem Refines.setIndexedProperty (h : Refines a s) (key : ArgumentsKey κ) (v : ScriptValue) :
    ∃ a' s' answer, a.setIndexedProperty key v.1 = (a', some answer) ∧
      s.set key v.1.observed .self = (s', answer) ∧ Refines a' s' := by
  cases hmatched : a.isMatchedArgument key.tryToUseAsIndexProperty with
  | false =>
    obtain ⟨hmapped, -⟩ := h.slot hmatched
    obtain ⟨a', s', answer, hset, hspec, hrefines⟩ := h.setInObject key v .self fun _ => hmatched
    refine ⟨a', s', answer, ?_, ?_, hrefines⟩
    · rw [← hset, ArgumentsObject.setIndexedProperty]
      cases key with
      | index i =>
        have hmatched : a.isMatchedArgument (some i) = false := hmatched
        simp [ArgumentsKey.tryToUseAsIndexProperty, hmatched]
      | _ => rfl
    · rw [← hspec, SpecArguments.set, if_pos rfl, hmapped]
  | true =>
    obtain ⟨i, rfl, hindex⟩ := eq_index_of_matched hmatched
    obtain ⟨s', hspec, hrefines⟩ := h.set_of_matched hindex v
    refine ⟨_, s', _, ?_, hspec, hrefines⟩
    simp [ArgumentsObject.setIndexedProperty, ArgumentsKey.tryToUseAsIndexProperty, hindex]

theorem Refines.set (h : Refines a s) (key : ArgumentsKey κ) (v : ScriptValue)
    (receiver : SetReceiver) :
    ∃ a' s' answer, a.set key v.1 receiver = (a', some answer) ∧
      s.set key v.1.observed receiver = (s', answer) ∧ Refines a' s' := by
  rw [ArgumentsObject.set]
  split
  · rename_i hreceiver
    obtain ⟨a', s', answer, hset, hspec, hrefines⟩ :=
      h.setInObject key v receiver fun hself => absurd hself hreceiver
    refine ⟨a', s', answer, hset, ?_, hrefines⟩
    rw [← hspec, SpecArguments.set, if_neg hreceiver]
  · rename_i hreceiver
    obtain rfl := not_not.mp hreceiver
    exact h.setIndexedProperty key v

/-- A definition that is rejected for a matched argument asks for nothing new, and the getter that
`getIndexedPropertyValue` finds, if it finds one, is to be called with the property. -/
def MeetsCondition (a : ArgumentsObject N κ) : ArgumentsOp N κ → Prop
  | .defineOwnProperty (.index i) desc =>
    a.isMatchedArgument (some i) = true → a.isAccepted (.index i) desc.desc = false →
      a.RejectsNothingNew i desc.desc
  | .getIndexedPropertyValue key property receiver inherited =>
    property = receiver ∨ ((a.getOwnProperty key).or inherited).all (!GetResult.hasGetter ·) = true
  | _ => True

theorem Refines.defineOwnProperty (h : Refines a s) (key : ArgumentsKey κ)
    (desc : ArgumentsDescriptor) (hguard : MeetsCondition a (.defineOwnProperty key desc)) :
    ∃ a' s' success, a.defineOwnProperty key desc.desc = (a', .returned success) ∧
      s.defineOwnProperty key desc.desc.fields = (s', success) ∧ Refines a' s' := by
  cases hmatched : a.isMatchedArgument key.tryToUseAsIndexProperty with
  | false => exact h.define_of_not_matched hmatched desc.hasHalf
  | true =>
    obtain ⟨i, rfl, hindex⟩ := eq_index_of_matched hmatched
    obtain ⟨stored, e, c, hargument⟩ := h.argument hindex
    have haccepted := isAccepted_of_matched hindex hargument desc.desc
    cases hvalid : desc.desc.fields.isValid (.data (a.argumentValue i) true e c) with
    | true =>
      obtain ⟨a', s', hdefine, hspec, hrefines⟩ :=
        h.define_accepted hindex hargument desc.hasHalf desc.isScriptValue hvalid
      exact ⟨a', s', true, hdefine, hspec, hrefines⟩
    | false =>
      obtain ⟨a', s', hdefine, hspec, hrefines⟩ := h.define_rejected hindex hargument
        desc.hasHalf desc.isScriptValue hvalid (hguard hindex (haccepted.trans hvalid))
      exact ⟨a', s', false, hdefine, hspec, hrefines⟩

/-- One operation answers as the specification does and keeps the relation. -/
theorem simulation : GuardedSimulation (step (N := N) (κ := κ)) SpecArguments.step MeetsCondition
    Refines (· = ·) where
  step_related := by
    intro a s op h hguard
    cases op with
    | assignParameter name v =>
      refine ⟨_, _, rfl, rfl, ⟨fun other => ?_, h.isExtensible, h.isInstalled, fun key =>
        (h.refinesAt key).congr rfl _ _ _⟩⟩
      show (Function.update a.targetRecord name v.1 other).observed =
        Function.update s.environment name v.1.observed other
      by_cases hother : other = name
      · subst hother
        rw [update_self, update_self]
      · rw [update_of_ne hother, update_of_ne hother]
        exact h.environment other
    | readParameter name => exact ⟨_, _, rfl, congrArg ArgumentsAnswer.value (h.environment name), h⟩
    | getOwnProperty key =>
      exact ⟨_, _, rfl, congrArg ArgumentsAnswer.property (h.getOwnProperty key), h⟩
    | get key receiver inherited =>
      exact ⟨_, _, rfl, congrArg ArgumentsAnswer.lookup (h.get key receiver inherited), h⟩
    | getIndexedProperty key receiver inherited =>
      refine ⟨_, _, rfl, congrArg ArgumentsAnswer.lookup ?_, h⟩
      rw [observed_ofResult, h.getIndexedProperty, ← observed_ofResult]
      exact h.get key receiver inherited
    | getIndexedPropertyValue key property receiver inherited =>
      refine ⟨_, _, rfl, congrArg ArgumentsAnswer.lookup ?_, h⟩
      have hsame : LookupAnswer.ofResult property (a.get key inherited) =
          LookupAnswer.ofResult receiver (a.get key inherited) := by
        rcases hguard with rfl | hnone
        · rfl
        · exact LookupAnswer.ofResult_of_no_getter hnone property receiver
      rw [h.getIndexedPropertyValue, hsame]
      exact h.get key receiver inherited
    | hasProperty key inherited =>
      exact ⟨_, _, rfl, congrArg ArgumentsAnswer.boolean (h.hasProperty key inherited), h⟩
    | hasIndexedProperty key inherited =>
      exact ⟨_, _, rfl, congrArg ArgumentsAnswer.boolean (h.hasIndexedProperty key inherited), h⟩
    | set key v receiver =>
      obtain ⟨a', s', answer, hset, hspec, hrefines⟩ := h.set key v receiver
      refine ⟨a', .set answer, ?_, ?_, ?_⟩
      · simp only [step, hset, map_some]
      · simp only [SpecArguments.step, hspec]
      · simp only [SpecArguments.step, hspec]
        exact hrefines
    | setIndexedProperty key v =>
      obtain ⟨a', s', answer, hset, hspec, hrefines⟩ := h.setIndexedProperty key v
      refine ⟨a', .set answer, ?_, ?_, ?_⟩
      · simp only [step, hset, map_some]
      · simp only [SpecArguments.step, hspec]
      · simp only [SpecArguments.step, hspec]
        exact hrefines
    | defineOwnProperty key desc =>
      obtain ⟨a', s', success, hdefine, hspec, hrefines⟩ := h.defineOwnProperty key desc hguard
      refine ⟨a', .boolean success, ?_, ?_, ?_⟩
      · simp only [step, hdefine]
      · simp only [SpecArguments.step, hspec]
      · simp only [SpecArguments.step, hspec]
        exact hrefines
    | deleteOwnProperty key =>
      obtain ⟨a', s', success, hdelete, hspec, hrefines⟩ := h.delete key
      refine ⟨a', .boolean success, ?_, ?_, ?_⟩
      · simp only [step, hdelete]
      · simp only [SpecArguments.step, hspec]
      · simp only [SpecArguments.step, hspec]
        exact hrefines
    | preventExtensions =>
      have hobserve : (show PropertyObject (ArgumentsKey κ) Empty from
          { a.object with isExtensible := false }).observe = a.object.observe := rfl
      exact ⟨_, _, rfl, rfl, ⟨h.environment, rfl, h.isInstalled, fun key =>
        (h.refinesAt key).congr hobserve _ _ _⟩⟩

omit [DecidableEq κ] in
theorem mapParameterNames_spec (len : Nat) (parameterNames : List N) :
    ∀ (mappedNames : List N) (parameterMap : Nat → ParameterMapEntry N) (i : Nat),
      mapParameterNames len parameterNames.zipIdx.reverse mappedNames parameterMap i =
        match parameterNames[i]?.filter fun name =>
            name ∉ parameterNames.drop (i + 1) ∧ name ∉ mappedNames with
        | some name => if i < len then ⟨.ofValue .undefined, some name⟩ else parameterMap i
        | none => parameterMap i := by
  induction parameterNames using List.reverseRecOn with
  | nil => intro mappedNames parameterMap i; rfl
  | append_singleton names last ih =>
    intro mappedNames parameterMap i
    have hzip : (names ++ [last]).zipIdx.reverse =
        (last, names.length) :: names.zipIdx.reverse := by
      simp [zipIdx_append]
    rw [hzip, mapParameterNames]
    rcases Nat.lt_trichotomy i names.length with hi | rfl | hi
    · have hget : (names ++ [last])[i]? = names[i]? := getElem?_append_left hi
      have hdrop : (names ++ [last]).drop (i + 1) = names.drop (i + 1) ++ [last] :=
        drop_append_of_le_length hi
      rw [hget, hdrop]
      split
      · rename_i hlast
        have hsame : (fun name => decide (name ∉ names.drop (i + 1) ++ [last] ∧
            name ∉ mappedNames)) =
            fun name => decide (name ∉ names.drop (i + 1) ∧ name ∉ mappedNames) := by
          funext name
          rw [decide_eq_decide, mem_append, mem_singleton, not_or]
          refine ⟨fun h => ⟨h.1.1, h.2⟩, fun h => ⟨⟨h.1, ?_⟩, h.2⟩⟩
          rintro rfl
          exact h.2 hlast
        rw [ih, hsame]
      · have hsame : (fun name => decide (name ∉ names.drop (i + 1) ++ [last] ∧
            name ∉ mappedNames)) =
            fun name => decide (name ∉ names.drop (i + 1) ∧ name ∉ last :: mappedNames) := by
          funext name
          rw [decide_eq_decide, mem_append, mem_singleton, mem_cons, not_or, not_or, and_assoc]
        have hmap : (if names.length < len then
            Function.update parameterMap names.length ⟨.ofValue .undefined, some last⟩
            else parameterMap) i = parameterMap i := by
          split
          · exact update_of_ne (Nat.ne_of_lt hi) _ _
          · rfl
        rw [ih, hsame, hmap]
    · have hget : (names ++ [last])[names.length]? = some last := by simp
      have hdrop : (names ++ [last]).drop (names.length + 1) = [] := by simp
      rw [hget, hdrop]
      split
      · rename_i hlast
        rw [ih, getElem?_eq_none (Nat.le_refl _)]
        simp [filter_some, hlast]
      · rename_i hlast
        rw [ih, getElem?_eq_none (Nat.le_refl _)]
        simp only [filter_none, not_mem_nil, not_false_eq_true, hlast, and_self,
          decide_true, filter_some, if_true]
        split <;> simp
    · have hget : (names ++ [last])[i]? = none := by simpa using Nat.succ_le_of_lt hi
      rw [hget]
      split
      · rw [ih, getElem?_eq_none (Nat.le_of_lt hi)]
        rfl
      · rw [ih, getElem?_eq_none (Nat.le_of_lt hi)]
        simp only [filter_none]
        split
        · exact update_of_ne (Nat.ne_of_gt hi) _ _
        · rfl

section Create

variable (builtins : ArgumentsBuiltins) (isMapped : Bool) (parameterNames : List N)
  (argv : List ScriptValue) (record : N → Value)

omit [DecidableEq κ] in
theorem parameterMap_create (i : Nat) :
    (create (κ := κ) builtins isMapped parameterNames argv record).parameterMap i =
      match (SpecArguments.create (κ := κ) builtins isMapped parameterNames argv
        record).parameterMap i with
      | some name => ⟨.ofValue .undefined, some name⟩
      | none => ⟨.ofValue ((argv.map Subtype.val).getD i .undefined), none⟩ := by
  cases isMapped with
  | false => simp [create, SpecArguments.create]
  | true =>
    simp only [create, SpecArguments.create, if_true, true_and, mapParameterNames_spec,
      not_mem_nil, not_false_eq_true, and_true]
    by_cases hi : i < argv.length
    · simp only [if_pos hi]
    · simp only [if_neg hi]
      split <;> rfl

theorem fields_ofValue (v : Value) (w e c : Bool) :
    (OwnProperty.plainData (.ofValue v) w e c : OwnProperty Empty).fields =
      .data v.observed w e c := by
  rw [OwnProperty.fields, EncodedValue.observed_ofValue]

omit [DecidableEq κ] in
/-- The object that the constructor makes is that of the specification. -/
theorem refines_create : Refines (create (κ := κ) builtins isMapped parameterNames argv record)
    (SpecArguments.create builtins isMapped parameterNames argv record) where
  environment _ := rfl
  isExtensible := rfl
  isInstalled := by
    intro key builtin
    cases key with
    | callee => cases isMapped <;> nofun
    | _ => nofun
  refinesAt key := by
    have hentry := parameterMap_create (κ := κ) builtins isMapped parameterNames argv record
    cases key with
    | index i =>
      by_cases hi : i < argv.length
      · have hget : argv[i]? = some (argv.get ⟨i, hi⟩) := getElem?_eq_getElem hi
        refine refinesAt_of_matched ?_ (show ArgumentRefines _ _ i (argv.get ⟨i, hi⟩).1.observed
          true true from ⟨?_, ?_, fun hnone => ?_, fun hmodified => ?_, fun _ => ⟨rfl, rfl, rfl⟩⟩)
        · have hfirst : ((create (κ := κ) builtins isMapped parameterNames argv
              record).parameterMap i).first.isEmpty = false := by
            rw [hentry]
            split
            · rfl
            · rw [EncodedValue.isEmpty_slotOfValue]
              simpa [hget] using (argv.get ⟨i, hi⟩).2
          rw [isMatchedArgument, hfirst]
          exact Bool.and_eq_true _ _ ▸ ⟨decide_eq_true hi, rfl⟩
        · show argv[i]?.map _ = _
          rw [hget]
          rfl
        · rw [hentry]
          split <;> rename_i hsome <;> exact hsome
        · rw [hentry] at hnone ⊢
          split at hnone
          · cases hnone
          · simp [EncodedValue.observed_ofValue, hget]
        · cases hmodified
      · have hget : argv[i]? = none := getElem?_eq_none (Nat.le_of_not_lt hi)
        refine refinesAt_of_not_matched ?_ ?_ ?_
        · exact Bool.and_eq_false_iff.mpr (.inl (decide_eq_false hi))
        · exact if_neg fun h => hi h.2
        · show none = argv[i]?.map _
          rw [hget]
          rfl
    | length => exact congrArg some (fields_ofValue _ true false true)
    | iterator => exact congrArg some (fields_ofValue _ true false true)
    | callee =>
      cases isMapped with
      | true => exact congrArg some (fields_ofValue _ true false true)
      | false => rfl
    | other _ => rfl

end Create

/-- The parameter that an index stands for. -/
def mappedParameter (a : ArgumentsObject N κ) (i : Nat) : Option N :=
  if a.isMatchedArgument (some i) then (a.parameterMap i).second else none

/-- Two objects that no operation tells apart. -/
structure LooksLike (a a' : ArgumentsObject N κ) : Prop where
  getOwnProperty : ∀ key,
    (a'.getOwnProperty key).map GetResult.fields = (a.getOwnProperty key).map GetResult.fields
  targetRecord : ∀ name, (a'.targetRecord name).observed = (a.targetRecord name).observed
  mappedParameter : ∀ i, a'.mappedParameter i = a.mappedParameter i

omit [DecidableEq N] [DecidableEq κ] in
theorem Refines.mappedParameter (h : Refines a s) (i : Nat) :
    a.mappedParameter i = s.parameterMap i := by
  rw [ArgumentsObject.mappedParameter]
  split
  · rename_i hmatched
    obtain ⟨stored, e, c, hargument⟩ := h.argument hmatched
    exact hargument.parameterMap.symm
  · rename_i hmatched
    have hindex : a.isMatchedArgument
        (ArgumentsKey.index i : ArgumentsKey κ).tryToUseAsIndexProperty = false :=
      Bool.not_eq_true _ ▸ hmatched
    exact (h.slot hindex).1.symm

omit [DecidableEq N] [DecidableEq κ] in
theorem Refines.looksLike (h : Refines a s) (h' : Refines a' s) : LooksLike a a' where
  getOwnProperty key := (h'.getOwnProperty key).trans (h.getOwnProperty key).symm
  targetRecord name := (h'.environment name).trans (h.environment name).symm
  mappedParameter i := (h'.mappedParameter i).trans (h.mappedParameter i).symm

/-- A definition that the specification rejects changes nothing. -/
theorem specDefine_false (hdesc : desc.isAccessor = true → desc.value = none)
    (hfalse : s.defineOwnProperty key desc = (s', false)) : s' = s := by
  cases hnext : (s.newArgDesc key desc).validateAndApply Value.undefined.observed .undefined
      s.isExtensible (s.getOwnProperty key) with
  | none =>
    rw [specDefine_rejected hnext] at hfalse
    exact (congrArg Prod.fst hfalse).symm
  | some fields =>
    obtain ⟨s'', hdefine, -⟩ := specDefine_accepted hdesc hnext
    rw [hdefine] at hfalse
    cases hfalse

theorem Refines.rejected (h : Refines a s) (key : ArgumentsKey κ) (desc : ArgumentsDescriptor)
    (hguard : MeetsCondition a (.defineOwnProperty key desc))
    (hfalse : (a.defineOwnProperty key desc.desc).2 = .returned false) :
    LooksLike a (a.defineOwnProperty key desc.desc).1 := by
  obtain ⟨a', s', success, hdefine, hspec, hrefines⟩ := h.defineOwnProperty key desc hguard
  rw [hdefine] at hfalse ⊢
  cases hfalse
  obtain rfl := specDefine_false (value_eq_none_of_isAccessor desc.desc) hspec
  exact h.looksLike hrefines

instance (a : ArgumentsObject N κ) (i : Nat) (desc : PropertyDescriptor) :
    Decidable (a.RejectsNothingNew i desc) :=
  inferInstanceAs (Decidable (_ ∧ _))

instance (a : ArgumentsObject N κ) (op : ArgumentsOp N κ) : Decidable (MeetsCondition a op) :=
  match op with
  | .defineOwnProperty (.index i) desc =>
    inferInstanceAs (Decidable (_ → _ → a.RejectsNothingNew i desc.desc))
  | .getIndexedPropertyValue .. => inferInstanceAs (Decidable (_ ∨ _))
  | .defineOwnProperty .length _ => isTrue trivial
  | .defineOwnProperty .iterator _ => isTrue trivial
  | .defineOwnProperty .callee _ => isTrue trivial
  | .defineOwnProperty (.other _) _ => isTrue trivial
  | .assignParameter .. => isTrue trivial
  | .readParameter _ => isTrue trivial
  | .getOwnProperty _ => isTrue trivial
  | .get .. => isTrue trivial
  | .getIndexedProperty .. => isTrue trivial
  | .hasProperty .. => isTrue trivial
  | .hasIndexedProperty .. => isTrue trivial
  | .set .. => isTrue trivial
  | .setIndexedProperty .. => isTrue trivial
  | .deleteOwnProperty _ => isTrue trivial
  | .preventExtensions => isTrue trivial

/-- In every run whose rejected definitions ask for nothing new and whose getters are called with
the property, every answer is that of the specification. Afterwards the own properties, the
parameters and the map are those of the specification, and a definition that is rejected leaves
them alone. -/
theorem arguments_object_refines_specification (builtins : ArgumentsBuiltins) (isMapped : Bool)
    (parameterNames : List N) (argv : List ScriptValue) (record : N → Value)
    (ops : List (ArgumentsOp N κ))
    (hguarded : Guarded step MeetsCondition ops
      (create builtins isMapped parameterNames argv record)) :
    ∃ last outs, run step ops (create builtins isMapped parameterNames argv record) =
        some (last, outs) ∧
      let spec := referenceRun SpecArguments.step ops
        (SpecArguments.create builtins isMapped parameterNames argv record)
      outs = spec.2 ∧
        (∀ key, (last.getOwnProperty key).map GetResult.fields = spec.1.getOwnProperty key) ∧
        (∀ name, (last.targetRecord name).observed = spec.1.environment name) ∧
        (∀ i, last.mappedParameter i = spec.1.parameterMap i) ∧
        ∀ key desc, MeetsCondition last (.defineOwnProperty key desc) →
          (last.defineOwnProperty key desc.desc).2 = .returned false →
            LooksLike last (last.defineOwnProperty key desc.desc).1 := by
  obtain ⟨last, outs, hrun, hagree, hrefines⟩ := simulation.run_related ops
    (refines_create builtins isMapped parameterNames argv record) hguarded
  rw [forall₂_eq_eq_eq] at hagree
  exact ⟨last, outs, hrun, hagree, hrefines.getOwnProperty, hrefines.environment,
    hrefines.mappedParameter, hrefines.rejected⟩

/-- `function f(a) {}` called with the number 1. -/
def oneArgument : ArgumentsObject String Empty :=
  create ⟨.undefined, .undefined, .undefined⟩ true ["a"] [⟨.int32 1, rfl⟩] fun _ => .int32 1

def specOneArgument : SpecArguments String Empty :=
  SpecArguments.create ⟨.undefined, .undefined, .undefined⟩ true ["a"] [⟨.int32 1, rfl⟩]
    fun _ => .int32 1

/-- `Object.defineProperty(arguments, 0, {configurable: false})`. -/
def notConfigurable : ArgumentsOp String Empty :=
  .defineOwnProperty (.index 0) ⟨⟨.data none none none (some false), trivial⟩, rfl⟩

/-- `Reflect.defineProperty(arguments, 0, {value: 2, configurable: true})`. -/
def configurableTwo : ArgumentsOp String Empty :=
  .defineOwnProperty (.index 0) ⟨⟨.data (some (.int32 2)) none none (some true), trivial⟩, rfl⟩

/-- A run that meets the condition: the parameter and the index share their value until the index
becomes read-only. -/
theorem arguments_object_refines_specification_shared :
    ∃ last outs, run step [.assignParameter "a" ⟨.int32 5, rfl⟩,
        .set (.index 0) ⟨.int32 6, rfl⟩ .self, notConfigurable, .readParameter "a",
        .getOwnProperty (.index 0)] oneArgument = some (last, outs) ∧
      outs = (referenceRun SpecArguments.step [.assignParameter "a" ⟨.int32 5, rfl⟩,
        .set (.index 0) ⟨.int32 6, rfl⟩ .self, notConfigurable, .readParameter "a",
        .getOwnProperty (.index 0)] specOneArgument).2 := by
  obtain ⟨last, outs, hrun, houts, -⟩ := arguments_object_refines_specification
    (κ := Empty) ⟨.undefined, .undefined, .undefined⟩ true ["a"] [⟨.int32 1, rfl⟩]
    (fun _ => .int32 1)
    [.assignParameter "a" ⟨.int32 5, rfl⟩, .set (.index 0) ⟨.int32 6, rfl⟩ .self,
      notConfigurable, .readParameter "a", .getOwnProperty (.index 0)] (by decide +kernel)
  exact ⟨last, outs, hrun, houts⟩

/-- A definition that returns false changes the parameter, and `getIndexedPropertyValue` calls a
getter with the property. -/
theorem rejected_definition_writes :
    ((run step [notConfigurable, configurableTwo, .readParameter "a"] oneArgument).map Prod.snd =
        some [.boolean true, .boolean false, .value (Value.int32 2).observed] ∧
      (referenceRun SpecArguments.step [notConfigurable, configurableTwo, .readParameter "a"]
        specOneArgument).2 =
        [.boolean true, .boolean false, .value (Value.int32 1).observed]) ∧
    (run step [.defineOwnProperty (.index 0)
          ⟨⟨.accessor ⟨some (.callable 7), none⟩ none none, .inl rfl⟩, rfl⟩,
        .getIndexedPropertyValue (.index 0) (.int32 0) (.object 1) none]
        oneArgument).map Prod.snd ≠
      some (referenceRun SpecArguments.step [.defineOwnProperty (.index 0)
          ⟨⟨.accessor ⟨some (.callable 7), none⟩ none none, .inl rfl⟩, rfl⟩,
        .getIndexedPropertyValue (.index 0) (.int32 0) (.object 1) none] specOneArgument).2 := by
  refine ⟨⟨?_, ?_⟩, ?_⟩
  · decide +kernel
  · decide +kernel
  · decide +kernel

end ArgumentsObject

end Escargot.Runtime
