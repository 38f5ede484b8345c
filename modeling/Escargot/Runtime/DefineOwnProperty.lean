/-
# Defining own properties

`Object::defineOwnPropertyMethod` with everything it reads and writes: plain data
properties, pairs of JavaScript functions, and data properties that native
functions keep, such as the `lastIndex` of a RegExp or the builtins of the global
object that are installed on first use. It is compared with
`ValidateAndApplyPropertyDescriptor` and with `isCompatiblePropertyDescriptor`, the
second implementation of the same decisions.

A native property is written through its setter even where nothing changes. A
setter that refuses then makes a definition fail that has to succeed.
-/

import Escargot.Foundation.PropertyFields
import Escargot.Foundation.Run
import Escargot.Runtime.Value

namespace Escargot.Runtime

open Option
open Function (update_idem update_of_ne update_self)

open Escargot.Foundation

namespace Value

def numberSameValue (a b : Double) : Bool :=
  if a.isnan || b.isnan then a.isnan && b.isnan else a.eq b && a.signbit == b.signbit

/-- `Value::equalsToByTheSameValueAlgorithm`. Where the source compares the encoded words,
equal words are equal values. -/
def equalsToByTheSameValueAlgorithm (self val : Value) : Bool :=
  if !val.isPointerValue then
    match self.asNumber?, val.asNumber? with
    | some a, some b => numberSameValue a b
    | _, _ => self = val
  else if self = val then true
  else
    match self, val with
    | string _ s, string _ t => s.equals t
    | bigInt _ m, bigInt _ n => m == n
    | _, _ => false

def zeroSign (d : Double) : Option Bool := if d.isZero then some d.signbit else none

/-- What JavaScript can tell of a value: its identity, with the sign of a zero. -/
def observed (v : Value) : Identity × Option Bool := (v.identity, v.asNumber?.bind zeroSign)

variable {v : Value} {d : Double}

theorem isZero_of_isnan (h : d.isnan = true) : d.isZero = false := by
  rw [Double.isnan, decide_eq_true_eq, UInt64.lt_iff_toNat_lt] at h
  rw [Double.isZero, beq_eq_false_iff_ne]
  intro hzero
  rw [hzero] at h
  simp at h

theorem isZero_eq_of_numberIdentity_eq {a b : Double} (h : numberIdentity a = numberIdentity b) :
    a.isZero = b.isZero := by
  have hzero : ∀ {c d : Double}, numberIdentity c = numberIdentity d → c.isZero = true →
      d.isZero = true := by
    intro c d h hc
    have hnan : c.isnan = false := by
      cases hnan : c.isnan with
      | false => rfl
      | true => exact nomatch hc.symm.trans (isZero_of_isnan hnan)
    rw [numberIdentity, numberIdentity, hnan, hc] at h
    cases hd : d.isZero with
    | true => rfl
    | false =>
      rw [hd] at h
      cases hnan' : d.isnan with
      | true => simp [hnan'] at h
      | false =>
        simp only [hnan', if_true, Bool.false_eq_true, if_false, Option.some.injEq] at h
        rw [← h] at hd
        exact absurd hd (by decide)
  cases ha : a.isZero with
  | true => exact (hzero h ha).symm
  | false =>
    cases hb : b.isZero with
    | false => rfl
    | true => exact (ha.symm.trans (hzero h.symm hb)).symm ▸ rfl

theorem numberSameValue_iff (a b : Double) :
    numberSameValue a b = true ↔ numberIdentity a = numberIdentity b ∧ zeroSign a = zeroSign b := by
  rw [← numberSameValueZero_iff]
  cases hnan : a.isnan || b.isnan with
  | true =>
    have hsame : numberSameValue a b = numberSameValueZero a b := by
      rw [numberSameValue, numberSameValueZero, hnan, if_pos rfl, if_pos rfl]
    rw [hsame]
    refine ⟨fun h => ⟨h, ?_⟩, And.left⟩
    rw [numberSameValueZero, hnan, if_pos rfl, Bool.and_eq_true] at h
    rw [zeroSign, zeroSign, isZero_of_isnan h.1, isZero_of_isnan h.2]
    rfl
  | false =>
    rw [numberSameValue, numberSameValueZero, hnan, if_neg Bool.false_ne_true,
      if_neg Bool.false_ne_true, Bool.and_eq_true, beq_iff_eq]
    refine and_congr_right fun heq => ?_
    have hidentity : numberIdentity a = numberIdentity b := by
      rw [← numberSameValueZero_iff, numberSameValueZero, hnan]
      exact heq
    have hzero := isZero_eq_of_numberIdentity_eq hidentity
    rw [zeroSign, zeroSign, ← hzero]
    cases ha : a.isZero with
    | true => simp
    | false =>
      simp only [Double.eq, ha, Bool.false_and, Bool.or_false, Bool.and_eq_true, beq_iff_eq] at heq
      simp [heq.2]

theorem equalsToByTheSameValueAlgorithm_iff (self val : Value) :
    self.equalsToByTheSameValueAlgorithm val = true ↔ self.observed = val.observed := by
  cases self <;> cases val <;>
    simp [equalsToByTheSameValueAlgorithm, observed, identity, isPointerValue, asNumber?,
      numberSameValue_iff, EString.equals_iff]
  rintro _ rfl
  rfl

theorem identity_of_asNumber? (h : v.asNumber? = some d) :
    v.identity = .number (numberIdentity d) := by
  cases v with
  | int32 i =>
    cases h
    rfl
  | double d =>
    cases h
    rfl
  | _ => cases h

theorem asNumber?_of_identity {d : Option Double} (h : v.identity = .number d) :
    ∃ a, v.asNumber? = some a ∧ numberIdentity a = d := by
  cases v with
  | int32 i => exact ⟨_, rfl, by simpa [identity] using h⟩
  | double a => exact ⟨_, rfl, by simpa [identity] using h⟩
  | _ => cases h

theorem observed_eq_of_sameValue {v w : Value} (h : v.sameValue w) : v.observed = w.observed := by
  obtain ⟨hidentity, hsign⟩ := h
  refine Prod.ext hidentity ?_
  show v.asNumber?.bind zeroSign = w.asNumber?.bind zeroSign
  cases hv : v.asNumber? with
  | some a =>
    obtain ⟨b, hw, hnumber⟩ :=
      asNumber?_of_identity (hidentity.symm.trans (identity_of_asNumber? hv))
    have hzero := isZero_eq_of_numberIdentity_eq hnumber
    rw [hw, bind_some, bind_some, zeroSign, zeroSign, hzero]
    cases ha : a.isZero with
    | true => rw [hsign a b hv hw ha]
    | false => rfl
  | none =>
    cases hw : w.asNumber? with
    | none => rfl
    | some b =>
      obtain ⟨a, ha, -⟩ := asNumber?_of_identity (hidentity.trans (identity_of_asNumber? hw))
      cases hv.symm.trans ha

end Value

/-- What one half of a pair of accessors may be. -/
inductive AccessorFunction
  | undefined
  | callable (address : Nat)
  deriving DecidableEq

/-- `JSGetterSetter`: a half that is empty is `none`. -/
structure JSGetterSetter where
  getter : Option AccessorFunction
  setter : Option AccessorFunction

/-- `ObjectPropertyDescriptor` over the values of the engine: a field that is not present is
`none`. -/
inductive PropertyDescriptor
  | data (value : Option Value) (writable enumerable configurable : Option Bool)
  | accessor (getterSetter : JSGetterSetter) (enumerable configurable : Option Bool)

namespace PropertyDescriptor

def isValuePresent : PropertyDescriptor → Bool
  | data value _ _ _ => value.isSome
  | accessor .. => false

def writable? : PropertyDescriptor → Option Bool
  | data _ writable _ _ => writable
  | accessor .. => none

def enumerable? : PropertyDescriptor → Option Bool
  | data _ _ enumerable _ => enumerable
  | accessor _ enumerable _ => enumerable

def configurable? : PropertyDescriptor → Option Bool
  | data _ _ _ configurable => configurable
  | accessor _ _ configurable => configurable

variable (desc : PropertyDescriptor)

def isWritablePresent : Bool := desc.writable?.isSome

def isEnumerablePresent : Bool := desc.enumerable?.isSome

def isConfigurablePresent : Bool := desc.configurable?.isSome

def isWritable : Bool := desc.writable? == some true

def isEnumerable : Bool := desc.enumerable? == some true

def isConfigurable : Bool := desc.configurable? == some true

def isDataDescriptor : Bool := desc.isValuePresent || desc.isWritablePresent

/-- `!m_isDataProperty`. -/
def isAccessorDescriptor : PropertyDescriptor → Bool
  | data .. => false
  | accessor .. => true

def isGenericDescriptor : Bool := !desc.isDataDescriptor && !desc.isAccessorDescriptor

/-- `value`, which is asked for when it is present. -/
def value : PropertyDescriptor → Value
  | data value _ _ _ => value.getD .undefined
  | accessor .. => .undefined

def getterSetter : PropertyDescriptor → JSGetterSetter
  | data .. => ⟨none, none⟩
  | accessor getterSetter _ _ => getterSetter

def setValue (v : Value) : PropertyDescriptor → PropertyDescriptor
  | data _ writable enumerable configurable => data (some v) writable enumerable configurable
  | desc => desc

def setWritable (b : Bool) : PropertyDescriptor → PropertyDescriptor
  | data value _ enumerable configurable => data value (some b) enumerable configurable
  | desc => desc

def setEnumerable (b : Bool) : PropertyDescriptor → PropertyDescriptor
  | data value writable _ configurable => data value writable (some b) configurable
  | accessor getterSetter _ configurable => accessor getterSetter (some b) configurable

def setConfigurable (b : Bool) : PropertyDescriptor → PropertyDescriptor
  | data value writable enumerable _ => data value writable enumerable (some b)
  | accessor getterSetter enumerable _ => accessor getterSetter enumerable (some b)

def setHalves : PropertyDescriptor → PropertyDescriptor
  | accessor getterSetter enumerable configurable =>
    accessor ⟨desc.getterSetter.getter.or getterSetter.getter,
      desc.getterSetter.setter.or getterSetter.setter⟩ enumerable configurable
  | newDesc => newDesc

def HasHalf : PropertyDescriptor → Prop
  | data .. => True
  | accessor getterSetter _ _ =>
    getterSetter.getter.isSome = true ∨ getterSetter.setter.isSome = true

end PropertyDescriptor

/-- A descriptor as the callers of `defineOwnPropertyMethod` build it. -/
structure CallerDescriptor where
  desc : PropertyDescriptor
  hasHalf : desc.HasHalf

/-- `ObjectPropertyNativeGetterSetterData`. The functions work on the private data of the
property and on slots of the object, both in `σ`. The setter may be a null pointer, and a call
of it may throw. -/
structure NativeGetterSetterData (σ : Type) where
  writable : Bool
  enumerable : Bool
  configurable : Bool
  getter : σ → Value
  setter : Option (σ → Value → Option (σ × Bool))

def NativeGetterSetterData.stores {σ : Type} (nativeData : NativeGetterSetterData σ)
    (privateData : σ) (v : Value) : Bool :=
  match nativeData.setter with
  | none => false
  | some setter =>
    match setter privateData v with
    | some (after, true) => (nativeData.getter after).observed = v.observed
    | _ => false

/-- An own property, with its `ObjectStructurePropertyDescriptor` and the contents of its slot. -/
inductive OwnProperty (σ : Type)
  | plainData (value : EncodedValue) (writable enumerable configurable : Bool)
  | jsGetterSetter (getterSetter : JSGetterSetter) (enumerable configurable : Bool)
  | native (nativeData : NativeGetterSetterData σ) (privateData : σ)
  /-- A builtin of the global object before its first use. Its native getter installs it, which
  redefines the property, and its native setter is null. -/
  | uninstalled (builtin : Value)

namespace OwnProperty

variable {σ : Type}

def isDataProperty : OwnProperty σ → Bool
  | jsGetterSetter .. => false
  | _ => true

def isWritable : OwnProperty σ → Bool
  | plainData _ writable _ _ => writable
  | jsGetterSetter .. => false
  | native nativeData _ => nativeData.writable
  | uninstalled _ => true

def isEnumerable : OwnProperty σ → Bool
  | plainData _ _ enumerable _ => enumerable
  | jsGetterSetter _ enumerable _ => enumerable
  | native nativeData _ => nativeData.enumerable
  | uninstalled _ => false

def isConfigurable : OwnProperty σ → Bool
  | plainData _ _ _ configurable => configurable
  | jsGetterSetter _ _ configurable => configurable
  | native nativeData _ => nativeData.configurable
  | uninstalled _ => true

/-- `getOwnDataPropertyUtilForObject`. -/
def value : OwnProperty σ → Value
  | plainData value _ _ _ => value.toValue
  | jsGetterSetter .. => .undefined
  | native nativeData privateData => nativeData.getter privateData
  | uninstalled builtin => builtin

def getterSetter : OwnProperty σ → JSGetterSetter
  | jsGetterSetter getterSetter _ _ => getterSetter
  | _ => ⟨none, none⟩

/-- The property that `redefineOwnProperty` makes of a builtin. -/
def installed (builtin : Value) : OwnProperty σ :=
  plainData (EncodedValue.assign ⟨.empty⟩ builtin) true false true

/-- `fromObjectStructurePropertyDescriptor`. -/
def toDescriptor (current : OwnProperty σ) (v : Value) : PropertyDescriptor :=
  if current.isDataProperty then
    .data (some v) (some current.isWritable) (some current.isEnumerable)
      (some current.isConfigurable)
  else .accessor current.getterSetter (some current.isEnumerable) (some current.isConfigurable)

end OwnProperty

/-- The property that a descriptor creates, `toObjectStructurePropertyDescriptor` and the value
that is pushed. -/
def PropertyDescriptor.toOwnProperty {σ : Type} : PropertyDescriptor → OwnProperty σ
  | data value writable enumerable configurable =>
    .plainData (.ofValue (value.getD .undefined)) (writable == some true)
      (enumerable == some true) (configurable == some true)
  | accessor getterSetter enumerable configurable =>
    .jsGetterSetter getterSetter (enumerable == some true) (configurable == some true)

/-- The operations that change the properties of an object. -/
inductive PropertyOp (κ : Type)
  | define (key : κ) (desc : CallerDescriptor)
  | delete (key : κ)
  | preventExtensions

inductive DefineCompletion
  | returned (success : Bool)
  | threw
  | nullSetterCalled
  deriving DecidableEq

/-- An ordinary object. The items of a structure that inline caches refer to are copied before
they are changed; those of another structure are changed in place. -/
structure PropertyObject (κ σ : Type) where
  properties : κ → Option (OwnProperty σ)
  isExtensible : Bool
  isReferencedByInlineCache : Bool

namespace PropertyObject

variable {κ σ : Type} [DecidableEq κ] (o : PropertyObject κ σ) (key : κ) (item : OwnProperty σ)

def setProperty (property : Option (OwnProperty σ)) : PropertyObject κ σ :=
  { o with properties := Function.update o.properties key property }

/-- `setOwnDataPropertyUtilForObjectInner` for an item with the contents of its slot. -/
def setOwnDataPropertyInner (newValue : Value) : PropertyObject κ σ × DefineCompletion :=
  match item with
  | .plainData value writable enumerable configurable =>
    (o.setProperty key
      (some (.plainData (value.assign newValue) writable enumerable configurable)),
      .returned true)
  | .native nativeData privateData =>
    match nativeData.setter with
    | none => (o, .nullSetterCalled)
    | some setter =>
      match setter privateData newValue with
      | none => (o, .threw)
      | some (privateData, success) =>
        (o.setProperty key (some (.native nativeData privateData)), .returned success)
  | .uninstalled _ => (o, .nullSetterCalled)
  | .jsGetterSetter .. => (o, .returned false)

variable (newDesc : PropertyDescriptor) (current : OwnProperty σ)

/-- The read of the current value: the object, the item that was found as it reads afterwards,
and the value. Reading a builtin installs it. -/
def readCurrent : PropertyObject κ σ × OwnProperty σ × Value :=
  match current with
  | .uninstalled builtin =>
    (o.setProperty key (some (.installed builtin)),
      if o.isReferencedByInlineCache then .uninstalled builtin else .installed builtin, builtin)
  | current => (o, current, current.value)

/-- The checks that depend on the kinds, with `newDesc` and `shouldDelete` as they leave them;
`none` rejects. -/
def checkKinds (current item : OwnProperty σ) (v : Value) (desc : PropertyDescriptor) :
    Option (PropertyDescriptor × Bool) :=
  if desc.isGenericDescriptor then some (current.toDescriptor v, false)
  else if current.isDataProperty != desc.isDataDescriptor then
    if !current.isConfigurable then none
    else if current.isDataProperty then
      some (.accessor desc.getterSetter (some current.isEnumerable) (some current.isConfigurable),
        true)
    else
      some (.data (some (if desc.isValuePresent then desc.value else .undefined)) none
        (some current.isEnumerable) (some current.isConfigurable), true)
  else if item.isDataProperty && desc.isDataDescriptor then
    if !item.isConfigurable && (!item.isWritable && desc.isWritable) then none
    else if !item.isConfigurable && (!item.isWritable && desc.isValuePresent &&
        !desc.value.equalsToByTheSameValueAlgorithm v) then none
    else some (current.toDescriptor v, false)
  else if !current.isConfigurable && (desc.getterSetter.setter.isSome &&
      desc.getterSetter.setter != some (current.getterSetter.setter.getD .undefined)) then none
  else if !current.isConfigurable && (desc.getterSetter.getter.isSome &&
      desc.getterSetter.getter != some (current.getterSetter.getter.getD .undefined)) then none
  else some (current.toDescriptor v, false)

def setFields (newDesc desc : PropertyDescriptor) : PropertyDescriptor :=
  let newDesc :=
    if newDesc.isDataDescriptor then
      let newDesc :=
        if desc.isValuePresent then newDesc.setValue desc.value
        else if !newDesc.isValuePresent then newDesc.setValue .undefined
        else newDesc
      if desc.isWritablePresent then newDesc.setWritable desc.isWritable else newDesc
    else if desc.isAccessorDescriptor then desc.setHalves newDesc
    else newDesc
  let newDesc :=
    if desc.isConfigurablePresent then newDesc.setConfigurable desc.isConfigurable else newDesc
  if desc.isEnumerablePresent then newDesc.setEnumerable desc.isEnumerable else newDesc

def attributeChanges : Bool :=
  if newDesc.isDataDescriptor && newDesc.isWritablePresent &&
      newDesc.isWritable != current.isWritable then true
  else if newDesc.isEnumerablePresent && newDesc.isEnumerable != current.isEnumerable then true
  else newDesc.isConfigurablePresent && newDesc.isConfigurable != current.isConfigurable

def replaceDescriptor : OwnProperty σ :=
  match item with
  | .native nativeData privateData =>
    .native { nativeData with
      writable := newDesc.isWritable
      enumerable := newDesc.isEnumerable
      configurable := newDesc.isConfigurable } privateData
  | .uninstalled builtin => .uninstalled builtin
  | .plainData value _ _ _ =>
    .plainData value newDesc.isWritable newDesc.isEnumerable newDesc.isConfigurable
  | .jsGetterSetter .. =>
    .plainData ⟨.empty⟩ newDesc.isWritable newDesc.isEnumerable newDesc.isConfigurable

/-- The changes themselves. -/
def writeProperty (desc newDesc : PropertyDescriptor) (shouldDelete : Bool) :
    PropertyObject κ σ × DefineCompletion :=
  if newDesc.isDataDescriptor then
    if shouldDelete then
      let item := replaceDescriptor item newDesc
      (o.setProperty key (some item)).setOwnDataPropertyInner key item newDesc.value
    else if desc.isValuePresent then o.setOwnDataPropertyInner key item newDesc.value
    else (o, .returned true)
  else if shouldDelete then
    (o.setProperty key (some (.jsGetterSetter newDesc.getterSetter newDesc.isEnumerable
      newDesc.isConfigurable)), .returned true)
  else
    (o.setProperty key (some (.jsGetterSetter newDesc.getterSetter item.isEnumerable
      item.isConfigurable)), .returned true)

variable (extensible : Bool) (desc : PropertyDescriptor)

def defineOwnPropertyMethod : PropertyObject κ σ × DefineCompletion :=
  match o.properties key with
  | none =>
    if !o.isExtensible then (o, .returned false)
    else (o.setProperty key (some desc.toOwnProperty), .returned true)
  | some current =>
    if !current.isConfigurable && desc.isConfigurable then (o, .returned false)
    else if !current.isConfigurable && (desc.isEnumerablePresent &&
        desc.isEnumerable != current.isEnumerable) then (o, .returned false)
    else
      let (o, item, v) := o.readCurrent key current
      match checkKinds current item v desc with
      | none => (o, .returned false)
      | some (newDesc, shouldDelete) =>
        let newDesc := setFields newDesc desc
        o.writeProperty key item desc newDesc
          (shouldDelete || attributeChanges newDesc current)

/-- `isCompatiblePropertyDescriptor`, for what `getOwnProperty` answers for a property. -/
def isCompatiblePropertyDescriptor (current : Option (OwnProperty σ)) : Bool :=
  match current with
  | none => extensible
  | some current =>
    if !current.isConfigurable && desc.isConfigurable then false
    else if !current.isConfigurable && (desc.isEnumerablePresent &&
        desc.isEnumerable != current.isEnumerable) then false
    else if desc.isGenericDescriptor then true
    else if current.isDataProperty != desc.isDataDescriptor then current.isConfigurable
    else if current.isDataProperty && desc.isDataDescriptor then
      if !current.isConfigurable && (!current.isWritable && desc.isWritable) then false
      else if !current.isConfigurable && (!current.isWritable && (desc.isValuePresent &&
          !desc.value.equalsToByTheSameValueAlgorithm current.value)) then false
      else true
    else if !current.isDataProperty && desc.isAccessorDescriptor then
      if !current.isConfigurable && (desc.getterSetter.setter.isSome &&
          desc.getterSetter.setter != some (current.getterSetter.setter.getD .undefined)) then
        false
      else if !current.isConfigurable && (desc.getterSetter.getter.isSome &&
          desc.getterSetter.getter != some (current.getterSetter.getter.getD .undefined)) then
        false
      else true
    else true

def deleteOwnProperty : PropertyObject κ σ × Bool :=
  match o.properties key with
  | none => (o, true)
  | some current => if current.isConfigurable then (o.setProperty key none, true) else (o, false)

end PropertyObject

abbrev ObservedValue := Value.Identity × Option Bool

def PropertyDescriptor.fields : PropertyDescriptor → DescriptorFields ObservedValue AccessorFunction
  | data value writable enumerable configurable =>
    ⟨value.map Value.observed, writable, none, none, enumerable, configurable⟩
  | accessor getterSetter enumerable configurable =>
    ⟨none, none, getterSetter.getter, getterSetter.setter, enumerable, configurable⟩

def OwnProperty.fields {σ : Type} : OwnProperty σ → PropertyFields ObservedValue AccessorFunction
  | plainData value writable enumerable configurable =>
    .data value.toValue.observed writable enumerable configurable
  | jsGetterSetter getterSetter enumerable configurable =>
    .accessor (getterSetter.getter.getD .undefined) (getterSetter.setter.getD .undefined)
      enumerable configurable
  | native nativeData privateData =>
    .data (nativeData.getter privateData).observed nativeData.writable nativeData.enumerable
      nativeData.configurable
  | uninstalled builtin => .data builtin.observed true false true

def validateAndApplyPropertyDescriptor (extensible : Bool) (desc : PropertyDescriptor)
    (current : Option (PropertyFields ObservedValue AccessorFunction)) :
    Option (PropertyFields ObservedValue AccessorFunction) :=
  desc.fields.validateAndApply Value.undefined.observed .undefined extensible current

namespace PropertyDescriptor

variable {desc : PropertyDescriptor}

theorem isData_fields (desc : PropertyDescriptor) : desc.fields.isData = desc.isDataDescriptor := by
  cases desc with
  | data value writable enumerable configurable =>
    simp [fields, DescriptorFields.isData, isDataDescriptor, isValuePresent, isWritablePresent,
      writable?]
  | accessor getterSetter enumerable configurable => rfl

theorem isAccessor_fields (hdesc : desc.HasHalf) :
    desc.fields.isAccessor = desc.isAccessorDescriptor := by
  cases desc with
  | data value writable enumerable configurable => rfl
  | accessor getterSetter enumerable configurable =>
    show (getterSetter.getter.isSome || getterSetter.setter.isSome) = true
    rw [Bool.or_eq_true]
    exact hdesc

theorem kinds (desc : PropertyDescriptor) :
    desc.isAccessorDescriptor = true ∧ desc.isDataDescriptor = false ∨
      desc.isAccessorDescriptor = false := by
  cases desc with
  | data _ _ _ _ => exact .inr rfl
  | accessor _ _ _ => exact .inl ⟨rfl, rfl⟩

theorem wellFormed_fields (desc : PropertyDescriptor) : desc.fields.WellFormed := by
  cases desc with
  | data value writable enumerable configurable =>
    rintro ⟨h, -⟩
    cases h
  | accessor getterSetter enumerable configurable =>
    rintro ⟨-, h⟩
    cases h

end PropertyDescriptor

namespace OwnProperty

variable {σ : Type} (property : OwnProperty σ)

theorem isData_fields : property.fields.isData = property.isDataProperty := by
  cases property <;> rfl

theorem configurable_fields : property.fields.configurable = property.isConfigurable := by
  cases property <;> rfl

theorem fields_of_isDataProperty {property : OwnProperty σ} (h : property.isDataProperty = true) :
    property.fields = .data property.value.observed property.isWritable property.isEnumerable
      property.isConfigurable := by
  cases property with
  | jsGetterSetter _ _ _ => cases h
  | _ => rfl

theorem fields_of_not_isDataProperty {property : OwnProperty σ}
    (h : property.isDataProperty = false) :
    property.fields = .accessor (property.getterSetter.getter.getD .undefined)
      (property.getterSetter.setter.getD .undefined) property.isEnumerable
      property.isConfigurable := by
  cases property with
  | jsGetterSetter _ _ _ => rfl
  | _ => cases h

theorem fields_installed (builtin : Value) :
    (installed builtin : OwnProperty σ).fields = (uninstalled builtin : OwnProperty σ).fields := by
  have hsame := Value.observed_eq_of_sameValue (EncodedValue.sameValue_assign ⟨.empty⟩ builtin)
  show PropertyFields.data (EncodedValue.assign ⟨.empty⟩ builtin).value.observed true false true = _
  rw [hsame]
  rfl

end OwnProperty

namespace PropertyObject

variable {κ σ : Type} [DecidableEq κ]

open DescriptorFields (agrees)

theorem attribute_check (field : Option Bool) (b : Bool) :
    (field.isSome && (field == some true) != b) = !agrees field b := by
  rcases field with _ | _ | _ <;> cases b <;> rfl

theorem value_check (field : Option Value) (v : Value) :
    (field.isSome && !(field.getD .undefined).equalsToByTheSameValueAlgorithm v) =
      !agrees (field.map Value.observed) v.observed := by
  cases field with
  | none => rfl
  | some w =>
    have h : w.equalsToByTheSameValueAlgorithm v = (w.observed == v.observed) := by
      rw [Bool.eq_iff_iff, Value.equalsToByTheSameValueAlgorithm_iff, beq_iff_eq]
    simp [agrees, h]

theorem half_check (field : Option AccessorFunction) (half : AccessorFunction) :
    (field.isSome && field != some half) = !agrees field half := by
  cases field with
  | none => rfl
  | some f => simp [agrees, bne]

variable {desc : PropertyDescriptor} {current : OwnProperty σ}

theorem isValid_data (hdesc : desc.HasHalf) (hdata : current.isDataProperty = true)
    (hconfigurable : current.isConfigurable = false) :
    desc.fields.isValid current.fields =
      (!desc.isConfigurable && agrees desc.enumerable? current.isEnumerable &&
        (!desc.isAccessorDescriptor && (!desc.isDataDescriptor || (current.isWritable ||
          (!desc.isWritable && agrees desc.fields.value current.value.observed))))) := by
  rw [OwnProperty.fields_of_isDataProperty hdata, hconfigurable]
  simp only [DescriptorFields.isValid, PropertyFields.configurable, PropertyFields.enumerable,
    DescriptorFields.isGeneric, PropertyDescriptor.isAccessor_fields hdesc,
    PropertyDescriptor.isData_fields, Bool.false_or]
  cases desc with
  | data value writable enumerable configurable =>
    congr 1
    cases PropertyDescriptor.isDataDescriptor (.data value writable enumerable configurable) <;>
      rfl
  | accessor getterSetter enumerable configurable =>
    congr 1

theorem isValid_accessor (hdesc : desc.HasHalf) (hdata : current.isDataProperty = false)
    (hconfigurable : current.isConfigurable = false) :
    desc.fields.isValid current.fields =
      (!desc.isConfigurable && agrees desc.enumerable? current.isEnumerable &&
        (!desc.isDataDescriptor &&
          (agrees desc.getterSetter.setter (current.getterSetter.setter.getD .undefined) &&
            agrees desc.getterSetter.getter (current.getterSetter.getter.getD .undefined)))) := by
  rw [OwnProperty.fields_of_not_isDataProperty hdata, hconfigurable]
  simp only [DescriptorFields.isValid, PropertyFields.configurable, PropertyFields.enumerable,
    DescriptorFields.isGeneric, PropertyDescriptor.isAccessor_fields hdesc,
    PropertyDescriptor.isData_fields, Bool.false_or]
  cases desc with
  | data value writable enumerable configurable =>
    congr 1
    cases PropertyDescriptor.isDataDescriptor (.data value writable enumerable configurable) <;>
      rfl
  | accessor getterSetter enumerable configurable =>
    congr 1

theorem isCompatiblePropertyDescriptor_some (extensible : Bool) (hdesc : desc.HasHalf)
    (current : OwnProperty σ) :
    isCompatiblePropertyDescriptor extensible desc (some current) =
      desc.fields.isValid current.fields := by
  cases hconfigurable : current.isConfigurable with
  | true =>
    have hvalid : desc.fields.isValid current.fields = true := by
      rw [DescriptorFields.isValid.eq_def, OwnProperty.configurable_fields, hconfigurable]
      rfl
    rw [hvalid]
    simp [isCompatiblePropertyDescriptor, hconfigurable]
  | false =>
    have henumerable : (desc.isEnumerablePresent && desc.isEnumerable != current.isEnumerable) =
        !agrees desc.enumerable? current.isEnumerable := attribute_check _ _
    have hvalue : (desc.isValuePresent &&
        !desc.value.equalsToByTheSameValueAlgorithm current.value) =
          !agrees desc.fields.value current.value.observed := by
      cases desc with
      | data value _ _ _ => exact value_check value current.value
      | accessor _ _ _ => rfl
    simp only [isCompatiblePropertyDescriptor, hconfigurable, henumerable, half_check, hvalue]
    cases hdata : current.isDataProperty with
    | true =>
      rw [isValid_data hdesc hdata hconfigurable, PropertyDescriptor.isGenericDescriptor]
      rcases desc.kinds with ⟨haccessor, hkind⟩ | haccessor
      · rw [haccessor, hkind]
        cases desc.isConfigurable <;>
          cases agrees desc.enumerable? current.isEnumerable <;> rfl
      · rw [haccessor]
        cases desc.isConfigurable <;>
          cases agrees desc.enumerable? current.isEnumerable <;>
            cases desc.isDataDescriptor <;> cases current.isWritable <;>
              cases desc.isWritable <;>
                cases agrees desc.fields.value current.value.observed <;> rfl
    | false =>
      rw [isValid_accessor hdesc hdata hconfigurable, PropertyDescriptor.isGenericDescriptor]
      rcases desc.kinds with ⟨haccessor, hkind⟩ | haccessor
      · rw [haccessor, hkind]
        cases desc.isConfigurable <;>
          cases agrees desc.enumerable? current.isEnumerable <;>
            cases agrees desc.getterSetter.setter
              (current.getterSetter.setter.getD .undefined) <;>
              cases agrees desc.getterSetter.getter
                (current.getterSetter.getter.getD .undefined) <;> rfl
      · cases desc with
        | accessor _ _ _ => cases haccessor
        | data value writable enumerable configurable =>
          cases PropertyDescriptor.isConfigurable
              (.data value writable enumerable configurable) <;>
            cases agrees (PropertyDescriptor.enumerable?
                (.data value writable enumerable configurable)) current.isEnumerable <;>
              cases PropertyDescriptor.isDataDescriptor
                (.data value writable enumerable configurable) <;> rfl

structure ReadsAs (current item : OwnProperty σ) (v : Value) : Prop where
  fields : item.fields = current.fields
  value : v.observed = current.value.observed

variable {item : OwnProperty σ} {v : Value}

theorem ReadsAs.isDataProperty (hread : ReadsAs current item v) :
    item.isDataProperty = current.isDataProperty := by
  rw [← OwnProperty.isData_fields, ← OwnProperty.isData_fields, hread.fields]

theorem ReadsAs.isConfigurable (hread : ReadsAs current item v) :
    item.isConfigurable = current.isConfigurable := by
  rw [← OwnProperty.configurable_fields, ← OwnProperty.configurable_fields, hread.fields]

theorem ReadsAs.isWritable (hread : ReadsAs current item v)
    (hdata : current.isDataProperty = true) :
    item.isWritable = current.isWritable := by
  have h := hread.fields
  rw [OwnProperty.fields_of_isDataProperty hdata,
    OwnProperty.fields_of_isDataProperty (hread.isDataProperty.trans hdata)] at h
  injection h

theorem equalsTo_congr {w : Value} (h : v.observed = w.observed) (u : Value) :
    u.equalsToByTheSameValueAlgorithm v = u.equalsToByTheSameValueAlgorithm w := by
  rw [Bool.eq_iff_iff, Value.equalsToByTheSameValueAlgorithm_iff,
    Value.equalsToByTheSameValueAlgorithm_iff, h]

theorem passes_of_isCompatible {extensible : Bool}
    (hcompat : isCompatiblePropertyDescriptor extensible desc (some current) = true) :
    ¬ (!current.isConfigurable && desc.isConfigurable) = true ∧
      ¬ (!current.isConfigurable && (desc.isEnumerablePresent &&
        desc.isEnumerable != current.isEnumerable)) = true := by
  rw [isCompatiblePropertyDescriptor] at hcompat
  split at hcompat
  · cases hcompat
  · split at hcompat
    · cases hcompat
    · exact ⟨by assumption, by assumption⟩

theorem checkKinds_isSome (hread : ReadsAs current item v) (extensible : Bool)
    (hpasses : ¬ (!current.isConfigurable && desc.isConfigurable) = true ∧
      ¬ (!current.isConfigurable && (desc.isEnumerablePresent &&
        desc.isEnumerable != current.isEnumerable)) = true) :
    (checkKinds current item v desc).isSome =
      isCompatiblePropertyDescriptor extensible desc (some current) := by
  rw [isCompatiblePropertyDescriptor, if_neg hpasses.1, if_neg hpasses.2, checkKinds]
  split
  · rfl
  · rename_i hgeneric
    split
    · rename_i hkinds
      cases current.isConfigurable with
      | false => rfl
      | true => cases current.isDataProperty <;> rfl
    · rename_i hkinds
      rw [hread.isDataProperty, hread.isConfigurable, equalsTo_congr hread.value]
      split
      · rename_i hdata
        rw [Bool.and_eq_true] at hdata
        rw [hread.isWritable hdata.1, Bool.and_assoc]
        split
        · rfl
        · split <;> rfl
      · rename_i hdata
        have hboth : !current.isDataProperty && desc.isAccessorDescriptor := by
          rw [PropertyDescriptor.isGenericDescriptor] at hgeneric
          cases hcurrent : current.isDataProperty <;> cases hdesc : desc.isDataDescriptor <;>
            cases haccessor : desc.isAccessorDescriptor <;> simp_all
        split
        · rfl
        · split <;> rfl

theorem setFields_data_data (v : Value) (w e c : Bool) (value : Option Value)
    (writable enumerable configurable : Option Bool) :
    setFields (.data (some v) (some w) (some e) (some c))
        (.data value writable enumerable configurable) =
      .data (some (value.getD v)) (some (writable.getD w)) (some (enumerable.getD e))
        (some (configurable.getD c)) := by
  rcases value with _ | value <;> rcases writable with _ | _ | _ <;>
    rcases enumerable with _ | _ | _ <;> rcases configurable with _ | _ | _ <;> rfl

theorem setFields_accessor_accessor (current getterSetter : JSGetterSetter) (e c : Bool)
    (enumerable configurable : Option Bool) :
    setFields (.accessor current (some e) (some c)) (.accessor getterSetter enumerable configurable)
      = .accessor ⟨getterSetter.getter.or current.getter, getterSetter.setter.or current.setter⟩
          (some (enumerable.getD e)) (some (configurable.getD c)) := by
  rcases enumerable with _ | _ | _ <;> rcases configurable with _ | _ | _ <;> rfl

/-- What `newDesc` becomes for a descriptor without fields of a kind. -/
theorem setFields_accessor_generic (current : JSGetterSetter) (e c : Bool)
    (enumerable configurable : Option Bool) :
    setFields (.accessor current (some e) (some c)) (.data none none enumerable configurable) =
      .accessor current (some (enumerable.getD e)) (some (configurable.getD c)) := by
  rcases enumerable with _ | _ | _ <;> rcases configurable with _ | _ | _ <;> rfl

/-- What `newDesc` becomes where accessors become a data property. -/
theorem setFields_accessor_data (v : Value) (e c : Bool) (value : Option Value)
    (writable enumerable configurable : Option Bool) :
    setFields (.data (some v) none (some e) (some c))
        (.data value writable enumerable configurable) =
      .data (some (value.getD v)) writable (some (enumerable.getD e))
        (some (configurable.getD c)) := by
  rcases value with _ | value <;> rcases writable with _ | _ | _ <;>
    rcases enumerable with _ | _ | _ <;> rcases configurable with _ | _ | _ <;> rfl

theorem attributeChanges_data (v : Value) (writable enumerable configurable : Option Bool) :
    attributeChanges (.data (some v) (some (writable.getD current.isWritable))
        (some (enumerable.getD current.isEnumerable))
        (some (configurable.getD current.isConfigurable))) current =
      !(agrees writable current.isWritable && agrees enumerable current.isEnumerable &&
        agrees configurable current.isConfigurable) := by
  cases hw : current.isWritable <;> cases he : current.isEnumerable <;>
    cases hc : current.isConfigurable <;> rcases writable with _ | _ | _ <;>
      rcases enumerable with _ | _ | _ <;> rcases configurable with _ | _ | _ <;>
        simp [attributeChanges, hw, he, hc, agrees, PropertyDescriptor.isDataDescriptor,
          PropertyDescriptor.isValuePresent, PropertyDescriptor.isWritablePresent,
          PropertyDescriptor.isWritable, PropertyDescriptor.isEnumerablePresent,
          PropertyDescriptor.isEnumerable, PropertyDescriptor.isConfigurablePresent,
          PropertyDescriptor.isConfigurable, PropertyDescriptor.writable?,
          PropertyDescriptor.enumerable?, PropertyDescriptor.configurable?]

theorem checkKinds_same
    (hkind : desc.isGenericDescriptor = true ∨ current.isDataProperty = desc.isDataDescriptor)
    (hsome : (checkKinds current item v desc).isSome = true) :
    checkKinds current item v desc = some (current.toDescriptor v, false) := by
  rw [checkKinds] at hsome ⊢
  split at hsome
  · rename_i hgeneric
    rw [if_pos hgeneric]
  · rename_i hgeneric
    have hsame : ¬ (current.isDataProperty != desc.isDataDescriptor) = true := by
      rcases hkind with h | h
      · exact absurd h hgeneric
      · rw [h, bne_self_eq_false]
        exact Bool.false_ne_true
    rw [if_neg hgeneric, if_neg hsame]
    rw [if_neg hsame] at hsome
    split at hsome
    · rename_i hdata
      rw [if_pos hdata]
      split at hsome
      · cases hsome
      · rename_i hfirst
        rw [if_neg hfirst]
        split at hsome
        · cases hsome
        · rename_i hsecond
          rw [if_neg hsecond]
    · rename_i hdata
      rw [if_neg hdata]
      split at hsome
      · cases hsome
      · rename_i hfirst
        rw [if_neg hfirst]
        split at hsome
        · cases hsome
        · rename_i hsecond
          rw [if_neg hsecond]

theorem checkKinds_toAccessor {getterSetter : JSGetterSetter}
    {enumerable configurable : Option Bool} (hdata : current.isDataProperty = true)
    (hsome : (checkKinds current item v
      (.accessor getterSetter enumerable configurable)).isSome = true) :
    checkKinds current item v (.accessor getterSetter enumerable configurable) =
      some (.accessor getterSetter (some current.isEnumerable) (some current.isConfigurable),
        true) := by
  simp only [checkKinds, hdata] at hsome ⊢
  cases hconfigurable : current.isConfigurable with
  | true => rfl
  | false =>
    rw [hconfigurable] at hsome
    cases hsome

theorem checkKinds_toData (hdata : current.isDataProperty = false)
    (hdesc : desc.isDataDescriptor = true)
    (hsome : (checkKinds current item v desc).isSome = true) :
    checkKinds current item v desc =
      some (.data (some (if desc.isValuePresent then desc.value else .undefined)) none
        (some current.isEnumerable) (some current.isConfigurable), true) := by
  have hgeneric : desc.isGenericDescriptor = false := by
    rw [PropertyDescriptor.isGenericDescriptor, hdesc]
    rfl
  simp only [checkKinds, hdata, hdesc, hgeneric] at hsome ⊢
  cases hconfigurable : current.isConfigurable with
  | true => rfl
  | false =>
    rw [hconfigurable] at hsome
    cases hsome

def observe (o : PropertyObject κ σ) (key : κ) :
    Option (PropertyFields ObservedValue AccessorFunction) :=
  (o.properties key).map OwnProperty.fields

theorem observe_setProperty (o : PropertyObject κ σ) (key : κ) (property : Option (OwnProperty σ)) :
    (o.setProperty key property).observe =
      Function.update o.observe key (property.map OwnProperty.fields) := by
  funext other
  by_cases h : other = key
  · subst h
    simp [observe, setProperty]
  · simp [observe, setProperty, update_of_ne h]

variable {o o' : PropertyObject κ σ}

/-- The object after the read of the value is the same, as far as can be observed. -/
theorem readCurrent_spec {key : κ} (hcurrent : o.properties key = some current)
    (hread : o.readCurrent key current = (o', item, v)) :
    ReadsAs current item v ∧ o'.observe = o.observe ∧ o'.isExtensible = o.isExtensible := by
  cases current with
  | uninstalled builtin =>
    cases hread
    refine ⟨⟨?_, rfl⟩, ?_, rfl⟩
    · split
      · rfl
      · exact OwnProperty.fields_installed _
    · rw [observe_setProperty, map_some, OwnProperty.fields_installed]
      apply Function.update_eq_self_iff.mpr
      rw [observe, hcurrent]
      rfl
  | plainData _ _ _ _ =>
    cases hread
    exact ⟨⟨rfl, rfl⟩, rfl, rfl⟩
  | jsGetterSetter _ _ _ =>
    cases hread
    exact ⟨⟨rfl, rfl⟩, rfl, rfl⟩
  | native _ _ =>
    cases hread
    exact ⟨⟨rfl, rfl⟩, rfl, rfl⟩

theorem define_refused {key : κ} (hcurrent : o.properties key = some current)
    (hcompat : isCompatiblePropertyDescriptor o.isExtensible desc (some current) = false) :
    (o.defineOwnPropertyMethod key desc).2 = .returned false ∧
      (o.defineOwnPropertyMethod key desc).1.observe = o.observe ∧
      (o.defineOwnPropertyMethod key desc).1.isExtensible = o.isExtensible := by
  obtain ⟨⟨o', item, v⟩, hread⟩ : ∃ read, o.readCurrent key current = read := ⟨_, rfl⟩
  obtain ⟨hreads, hobserve, hextensible⟩ := readCurrent_spec hcurrent hread
  simp only [defineOwnPropertyMethod, hcurrent, hread]
  split
  · exact ⟨rfl, rfl, rfl⟩
  · rename_i hfirst
    split
    · exact ⟨rfl, rfl, rfl⟩
    · rename_i hsecond
      have hsome := checkKinds_isSome hreads o.isExtensible ⟨hfirst, hsecond⟩
      rw [hcompat, isSome_eq_false_iff, isNone_iff_eq_none] at hsome
      rw [hsome]
      exact ⟨rfl, hobserve, hextensible⟩

theorem define_of_checkKinds {key : κ} (hcurrent : o.properties key = some current)
    (hcompat : isCompatiblePropertyDescriptor o.isExtensible desc (some current) = true)
    (hread : o.readCurrent key current = (o', item, v)) :
    (checkKinds current item v desc).isSome = true ∧
      ∀ newDesc shouldDelete, checkKinds current item v desc = some (newDesc, shouldDelete) →
        o.defineOwnPropertyMethod key desc = o'.writeProperty key item desc (setFields newDesc desc)
            (shouldDelete || attributeChanges (setFields newDesc desc) current) := by
  have hpasses := passes_of_isCompatible hcompat
  obtain ⟨hreads, -⟩ := readCurrent_spec hcurrent hread
  refine ⟨(checkKinds_isSome hreads o.isExtensible hpasses).trans hcompat, ?_⟩
  intro newDesc shouldDelete hcheck
  simp only [defineOwnPropertyMethod, hcurrent, if_neg hpasses.1, if_neg hpasses.2, hread, hcheck]

structure Defined (o after : PropertyObject κ σ) (key : κ)
    (fields : PropertyFields ObservedValue AccessorFunction) : Prop where
  observe : after.observe = Function.update o.observe key (some fields)
  isExtensible : after.isExtensible = o.isExtensible

theorem defined_setProperty (hobserve : o'.observe = o.observe)
    (hextensible : o'.isExtensible = o.isExtensible) (key : κ) (property : OwnProperty σ) :
    Defined o (o'.setProperty key (some property)) key property.fields :=
  ⟨by rw [observe_setProperty, hobserve]; rfl, hextensible⟩

theorem fields_assign (slot : EncodedValue) (v : Value) (w e c : Bool) :
    (OwnProperty.plainData (slot.assign v) w e c : OwnProperty σ).fields =
      .data v.observed w e c := by
  have hsame := Value.observed_eq_of_sameValue (EncodedValue.sameValue_assign slot v)
  show PropertyFields.data (slot.assign v).value.observed w e c = _
  rw [hsame]

/-- The fields that a valid definition leaves. -/
def appliedFields (desc : PropertyDescriptor) (current : OwnProperty σ) :
    PropertyFields ObservedValue AccessorFunction :=
  desc.fields.applyTo Value.undefined.observed .undefined current.fields

section Accepted

variable {o : PropertyObject κ σ} {key : κ} {current : OwnProperty σ}

theorem some_beq_true (b : Bool) : (some b == some true) = b := by cases b <;> rfl

variable (o) (key)

theorem writeProperty_accessor (item : OwnProperty σ)
    (desc : PropertyDescriptor) (getterSetter : JSGetterSetter) (e c shouldDelete : Bool)
    (h : shouldDelete = true ∨ item.isEnumerable = e ∧ item.isConfigurable = c) :
    o.writeProperty key item desc (.accessor getterSetter (some e) (some c)) shouldDelete =
      (o.setProperty key (some (.jsGetterSetter getterSetter e c)), .returned true) := by
  cases shouldDelete with
  | true => cases e <;> cases c <;> rfl
  | false =>
    rcases h with h | ⟨rfl, rfl⟩
    · cases h
    · rfl

theorem setProperty_setProperty (first second : Option (OwnProperty σ)) :
    (o.setProperty key first).setProperty key second = o.setProperty key second := by
  rw [setProperty, setProperty, update_idem]
  rfl

variable {o} {key}

def isWrittenDirectly : OwnProperty σ → Bool
  | .plainData .. => true
  | .jsGetterSetter .. => true
  | .native .. => false
  | .uninstalled _ => false

variable {item : OwnProperty σ}

theorem writeProperty_replace (o : PropertyObject κ σ) (key : κ)
    (hitem : isWrittenDirectly item = true) (desc : PropertyDescriptor) (v : Value)
    (w : Option Bool) (e c : Bool) :
    ∃ slot : EncodedValue, o.writeProperty key item desc (.data (some v) w (some e) (some c)) true =
      (o.setProperty key (some (.plainData (slot.assign v) (w == some true) e c)),
        .returned true) := by
  cases item with
  | plainData slot _ _ _ =>
    refine ⟨slot, ?_⟩
    cases e <;> cases c <;>
      exact congrArg (·, DefineCompletion.returned true) (setProperty_setProperty o key _ _)
  | jsGetterSetter _ _ _ =>
    refine ⟨⟨.empty⟩, ?_⟩
    cases e <;> cases c <;>
      exact congrArg (·, DefineCompletion.returned true) (setProperty_setProperty o key _ _)
  | native _ _ => cases hitem
  | uninstalled _ => cases hitem

variable {enumerable configurable : Option Bool}

theorem appliedFields_toAccessor {getterSetter : JSGetterSetter}
    (hdesc : (PropertyDescriptor.accessor getterSetter enumerable configurable).HasHalf)
    (hdata : current.isDataProperty = true) :
    appliedFields (.accessor getterSetter enumerable configurable) current =
      .accessor (getterSetter.getter.getD .undefined) (getterSetter.setter.getD .undefined)
        (enumerable.getD current.isEnumerable) (configurable.getD current.isConfigurable) := by
  rw [appliedFields, OwnProperty.fields_of_isDataProperty hdata, DescriptorFields.applyTo,
    PropertyDescriptor.isAccessor_fields hdesc]
  rfl

theorem define_toAccessor (hcurrent : o.properties key = some current)
    {getterSetter : JSGetterSetter}
    (hdesc : (PropertyDescriptor.accessor getterSetter enumerable configurable).HasHalf)
    (hdata : current.isDataProperty = true)
    (hcompat : isCompatiblePropertyDescriptor o.isExtensible
      (.accessor getterSetter enumerable configurable) (some current) = true) :
    ∃ after, o.defineOwnPropertyMethod key (.accessor getterSetter enumerable configurable) =
        (after, .returned true) ∧
      Defined o after key (appliedFields (.accessor getterSetter enumerable configurable)
        current) := by
  obtain ⟨⟨o', item, v⟩, hread⟩ : ∃ read, o.readCurrent key current = read := ⟨_, rfl⟩
  obtain ⟨-, hobserve, hextensible⟩ := readCurrent_spec hcurrent hread
  obtain ⟨hsome, hdefine⟩ := define_of_checkKinds hcurrent hcompat hread
  have hresult := hdefine _ _ (checkKinds_toAccessor hdata hsome)
  rw [setFields_accessor_accessor, Option.or_self, Option.or_self, Bool.true_or,
    writeProperty_accessor _ _ _ _ _ _ _ _ (.inl rfl)] at hresult
  rw [appliedFields_toAccessor hdesc hdata]
  exact ⟨_, hresult, defined_setProperty hobserve hextensible key _⟩

/-- `newDesc` keeps the attributes of a pair of accessors, or they are written. -/
theorem attributeChanges_accessor (getterSetter : JSGetterSetter) (e c : Bool)
    (current : OwnProperty σ) :
    attributeChanges (.accessor getterSetter (some e) (some c)) current = true ∨
      current.isEnumerable = e ∧ current.isConfigurable = c := by
  cases he : current.isEnumerable <;> cases hc : current.isConfigurable <;> cases e <;> cases c <;>
    simp [attributeChanges, he, hc, PropertyDescriptor.isDataDescriptor,
      PropertyDescriptor.isValuePresent, PropertyDescriptor.isWritablePresent,
      PropertyDescriptor.writable?, PropertyDescriptor.isEnumerablePresent,
      PropertyDescriptor.isEnumerable, PropertyDescriptor.isConfigurablePresent,
      PropertyDescriptor.isConfigurable, PropertyDescriptor.enumerable?,
      PropertyDescriptor.configurable?]

theorem define_accessor {getterSetter : JSGetterSetter} {e c : Bool}
    (hcurrent : o.properties key = some (.jsGetterSetter getterSetter e c))
    {desc : PropertyDescriptor} (hdesc : desc.isDataDescriptor = false)
    (hcompat : isCompatiblePropertyDescriptor o.isExtensible desc
      (some (.jsGetterSetter getterSetter e c : OwnProperty σ)) = true) :
    ∃ after, o.defineOwnPropertyMethod key desc = (after, .returned true) ∧ Defined o after key
        (appliedFields desc (.jsGetterSetter getterSetter e c : OwnProperty σ)) := by
  obtain ⟨hsome, hdefine⟩ := define_of_checkKinds hcurrent hcompat rfl
  have hresult := hdefine _ _ (checkKinds_same (.inr hdesc.symm) hsome)
  obtain ⟨newGetterSetter, hnew, hfields⟩ : ∃ newGetterSetter,
      setFields ((OwnProperty.jsGetterSetter getterSetter e c : OwnProperty σ).toDescriptor
        .undefined) desc = .accessor newGetterSetter (some (desc.enumerable?.getD e))
          (some (desc.configurable?.getD c)) ∧
      (OwnProperty.jsGetterSetter newGetterSetter (desc.enumerable?.getD e)
        (desc.configurable?.getD c) : OwnProperty σ).fields =
          appliedFields desc (.jsGetterSetter getterSetter e c : OwnProperty σ) := by
    cases desc with
    | data value writable enumerable configurable =>
      simp only [PropertyDescriptor.isDataDescriptor, PropertyDescriptor.isValuePresent,
        PropertyDescriptor.isWritablePresent, PropertyDescriptor.writable?,
        Bool.or_eq_false_iff, isSome_eq_false_iff, isNone_iff_eq_none] at hdesc
      obtain ⟨rfl, rfl⟩ := hdesc
      exact ⟨_, setFields_accessor_generic getterSetter e c enumerable configurable, rfl⟩
    | accessor getterSetter' enumerable configurable =>
      refine ⟨_, setFields_accessor_accessor getterSetter getterSetter' e c enumerable
        configurable, ?_⟩
      have hor : ∀ first second : Option AccessorFunction,
          (first.or second).getD .undefined = first.getD (second.getD .undefined) := by
        intro first second
        cases first <;> rfl
      show PropertyFields.accessor ((getterSetter'.getter.or getterSetter.getter).getD _)
        ((getterSetter'.setter.or getterSetter.setter).getD _) _ _ = _
      rw [hor, hor]
      rfl
  have hvalue : (OwnProperty.jsGetterSetter getterSetter e c : OwnProperty σ).value =
    .undefined := rfl
  rw [hvalue, hnew, Bool.false_or,
    writeProperty_accessor _ _ _ _ _ _ _ _ (attributeChanges_accessor _ _ _ _)] at hresult
  rw [← hfields]
  exact ⟨_, hresult, defined_setProperty rfl rfl key _⟩

theorem define_toData {getterSetter : JSGetterSetter} {e c : Bool}
    (hcurrent : o.properties key = some (.jsGetterSetter getterSetter e c))
    {desc : PropertyDescriptor} (hdesc : desc.isDataDescriptor = true)
    (hcompat : isCompatiblePropertyDescriptor o.isExtensible desc
      (some (.jsGetterSetter getterSetter e c : OwnProperty σ)) = true) :
    ∃ after, o.defineOwnPropertyMethod key desc = (after, .returned true) ∧ Defined o after key
        (appliedFields desc (.jsGetterSetter getterSetter e c : OwnProperty σ)) := by
  obtain ⟨hsome, hdefine⟩ := define_of_checkKinds hcurrent hcompat rfl
  have hresult := hdefine _ _ (checkKinds_toData rfl hdesc hsome)
  cases desc with
  | accessor _ _ _ => cases hdesc
  | data value writable enumerable configurable =>
    have hvalue : (if (PropertyDescriptor.data value writable enumerable
        configurable).isValuePresent then (PropertyDescriptor.data value writable enumerable
        configurable).value else .undefined) = value.getD .undefined := by
      cases value <;> rfl
    rw [hvalue, setFields_accessor_data, Bool.true_or] at hresult
    obtain ⟨slot, hwrite⟩ := writeProperty_replace o key
      (rfl : isWrittenDirectly (.jsGetterSetter getterSetter e c : OwnProperty σ) = true)
      (.data value writable enumerable configurable) (value.getD (value.getD .undefined)) writable
      (enumerable.getD e) (configurable.getD c)
    refine ⟨_, hresult.trans hwrite, ?_⟩
    have hfields : appliedFields (.data value writable enumerable configurable)
        (.jsGetterSetter getterSetter e c : OwnProperty σ) =
          (OwnProperty.plainData (slot.assign (value.getD (value.getD .undefined)))
            (writable == some true) (enumerable.getD e) (configurable.getD c) :
              OwnProperty σ).fields := by
      rw [fields_assign]
      rcases value with _ | value <;> rcases writable with _ | _ | _
      · cases hdesc
      all_goals rfl
    rw [hfields]
    exact defined_setProperty rfl rfl key _

theorem appliedFields_data (hdata : current.isDataProperty = true) (value : Option Value)
    (writable enumerable configurable : Option Bool) :
    appliedFields (.data value writable enumerable configurable) current =
      .data (value.getD current.value).observed (writable.getD current.isWritable)
        (enumerable.getD current.isEnumerable) (configurable.getD current.isConfigurable) := by
  rw [appliedFields, OwnProperty.fields_of_isDataProperty hdata]
  cases value <;> rfl

theorem define_data (hcurrent : o.properties key = some current)
    (hdata : current.isDataProperty = true) {value : Option Value} {writable : Option Bool}
    (hcompat : isCompatiblePropertyDescriptor o.isExtensible
      (.data value writable enumerable configurable) (some current) = true)
    {o' : PropertyObject κ σ} {v : Value} (hread : o.readCurrent key current = (o', item, v)) :
    o.defineOwnPropertyMethod key (.data value writable enumerable configurable) =
      o'.writeProperty key item (.data value writable enumerable configurable)
        (.data (some (value.getD v)) (some (writable.getD current.isWritable))
          (some (enumerable.getD current.isEnumerable))
          (some (configurable.getD current.isConfigurable)))
        (!(agrees writable current.isWritable && agrees enumerable current.isEnumerable &&
          agrees configurable current.isConfigurable)) := by
  obtain ⟨hsome, hdefine⟩ := define_of_checkKinds hcurrent hcompat hread
  have hkind : (PropertyDescriptor.data value writable enumerable
      configurable).isGenericDescriptor = true ∨ current.isDataProperty =
        (PropertyDescriptor.data value writable enumerable configurable).isDataDescriptor := by
    rw [hdata, PropertyDescriptor.isGenericDescriptor]
    cases PropertyDescriptor.isDataDescriptor (.data value writable enumerable configurable) with
    | true => exact .inr rfl
    | false => exact .inl rfl
  have hdescriptor : current.toDescriptor v = .data (some v) (some current.isWritable)
      (some current.isEnumerable) (some current.isConfigurable) := if_pos hdata
  have hresult := hdefine _ _ (checkKinds_same hkind hsome)
  rw [hdescriptor, setFields_data_data, attributeChanges_data, Bool.false_or] at hresult
  exact hresult

theorem define_plain (hcurrent : o.properties key = some current)
    (hdata : current.isDataProperty = true) {value : Option Value} {writable : Option Bool}
    (hcompat : isCompatiblePropertyDescriptor o.isExtensible
      (.data value writable enumerable configurable) (some current) = true)
    {o' : PropertyObject κ σ} {v : Value} (hread : o.readCurrent key current = (o', item, v))
    (hv : v = current.value) (hitem : isWrittenDirectly item = true) :
    ∃ after, o.defineOwnPropertyMethod key (.data value writable enumerable configurable) =
        (after, .returned true) ∧
      Defined o after key (appliedFields (.data value writable enumerable configurable)
        current) := by
  obtain ⟨hreads, hobserve, hextensible⟩ := readCurrent_spec hcurrent hread
  have hresult := define_data hcurrent hdata hcompat hread
  rw [appliedFields_data hdata]
  subst hv
  cases hkept : agrees writable current.isWritable && agrees enumerable current.isEnumerable &&
      agrees configurable current.isConfigurable with
  | false =>
    rw [hkept] at hresult
    obtain ⟨slot, hwrite⟩ := writeProperty_replace o' key hitem
      (.data value writable enumerable configurable) (value.getD current.value)
      (some (writable.getD current.isWritable)) (enumerable.getD current.isEnumerable)
      (configurable.getD current.isConfigurable)
    rw [some_beq_true] at hwrite
    refine ⟨_, hresult.trans hwrite, ?_⟩
    rw [← fields_assign slot]
    exact defined_setProperty hobserve hextensible key _
  | true =>
    rw [hkept] at hresult
    simp only [Bool.and_eq_true, DescriptorFields.agrees_iff] at hkept
    rw [hkept.1.1, hkept.1.2, hkept.2] at hresult ⊢
    cases item with
    | native _ _ => cases hitem
    | uninstalled _ => cases hitem
    | jsGetterSetter _ _ _ => cases hreads.isDataProperty.trans hdata
    | plainData slot w e c =>
      have hfields := hreads.fields
      rw [OwnProperty.fields_of_isDataProperty hdata] at hfields
      injection hfields with _ hw he hc
      subst hw he hc
      cases value with
      | none =>
        refine ⟨o', hresult, ?_, hextensible⟩
        rw [hobserve, getD_none, ← OwnProperty.fields_of_isDataProperty hdata]
        symm
        apply Function.update_eq_self_iff.mpr
        rw [observe, hcurrent]
        rfl
      | some value =>
        refine ⟨_, hresult, ?_⟩
        rw [getD_some, ← fields_assign slot]
        exact defined_setProperty hobserve hextensible key _

end Accepted

variable (current) (o)

/-- The value that a definition writes to a data property, if it writes one: the new one, or
the current one together with a new attribute. -/
def writtenValue : PropertyDescriptor → Option Value
  | .accessor .. => none
  | .data value writable enumerable configurable =>
    if value.isSome || !(agrees writable current.isWritable &&
        agrees enumerable current.isEnumerable &&
        agrees configurable current.isConfigurable) then some (value.getD current.value)
    else none

variable (key : κ)

/-- A native setter that is called stores the value; a builtin that is written was installed in
place. -/
def StoresWritten (desc : PropertyDescriptor) : Prop :=
  match o.properties key with
  | some (.native nativeData privateData) =>
    isCompatiblePropertyDescriptor o.isExtensible desc
        (some (.native nativeData privateData)) = true →
      ∀ v, writtenValue (.native nativeData privateData) desc = some v →
        nativeData.stores privateData v = true
  | some (.uninstalled builtin) =>
    (writtenValue (.uninstalled builtin : OwnProperty σ) desc).isSome = true →
      o.isReferencedByInlineCache = false
  | _ => True

/-- A call does what `ValidateAndApplyPropertyDescriptor` prescribes, and agrees with
`isCompatiblePropertyDescriptor`. -/
def MeetsSpecification (desc : PropertyDescriptor) : Prop :=
  (match validateAndApplyPropertyDescriptor o.isExtensible desc (o.observe key) with
    | none =>
      (o.defineOwnPropertyMethod key desc).2 = .returned false ∧
        (o.defineOwnPropertyMethod key desc).1.observe = o.observe
    | some fields =>
      (o.defineOwnPropertyMethod key desc).2 = .returned true ∧
        (o.defineOwnPropertyMethod key desc).1.observe =
          Function.update o.observe key (some fields)) ∧
    (o.defineOwnPropertyMethod key desc).1.isExtensible = o.isExtensible ∧
    (isCompatiblePropertyDescriptor o.isExtensible desc (o.properties key) = true ↔
      (o.defineOwnPropertyMethod key desc).2 = .returned true)

theorem setOwnDataPropertyInner_native_iff
    (nativeData : NativeGetterSetterData σ) (privateData : σ) (v : Value) :
    ((o.setOwnDataPropertyInner key (.native nativeData privateData) v).2 = .returned true ∧
        (o.setOwnDataPropertyInner key (.native nativeData privateData) v).1.observe =
          Function.update o.observe key (some (.data v.observed nativeData.writable
            nativeData.enumerable nativeData.configurable))) ↔
      nativeData.stores privateData v = true := by
  rw [setOwnDataPropertyInner, NativeGetterSetterData.stores]
  cases nativeData.setter with
  | none => simp
  | some setter =>
    dsimp only
    cases setter privateData v with
    | none => simp
    | some result =>
      obtain ⟨after, success⟩ := result
      cases success with
      | false => simp
      | true =>
        simp only [true_and, decide_eq_true_eq]
        rw [observe_setProperty]
        constructor
        · intro h
          have hkey := congrFun h key
          simp only [update_self, map_some, Option.some.injEq, OwnProperty.fields] at hkey
          injection hkey
        · intro h
          rw [map_some, OwnProperty.fields, h]

theorem setOwnDataPropertyInner_isExtensible (item : OwnProperty σ) (v : Value) :
    (o.setOwnDataPropertyInner key item v).1.isExtensible = o.isExtensible := by
  cases item with
  | native nativeData privateData =>
    rw [setOwnDataPropertyInner]
    cases nativeData.setter with
    | none => rfl
    | some setter =>
      dsimp only
      cases setter privateData v <;> rfl
  | _ => rfl

variable {current} {o}

section Meets

variable {o : PropertyObject κ σ} {key : κ} {current : OwnProperty σ} {desc : PropertyDescriptor}

section

variable (hcurrent : o.properties key = some current)
include hcurrent

omit [DecidableEq κ] in
theorem validateAndApply_current (hdesc : desc.HasHalf) :
    validateAndApplyPropertyDescriptor o.isExtensible desc (o.observe key) =
      if isCompatiblePropertyDescriptor o.isExtensible desc (some current) then
        some (appliedFields desc current) else none := by
  rw [observe, hcurrent, map_some, validateAndApplyPropertyDescriptor,
    DescriptorFields.validateAndApply_some, isCompatiblePropertyDescriptor_some _ hdesc]
  rfl

theorem meetsSpecification_iff_of_compatible (hdesc : desc.HasHalf)
    (hcompat : isCompatiblePropertyDescriptor o.isExtensible desc (some current) = true) :
    o.MeetsSpecification key desc ↔ (o.defineOwnPropertyMethod key desc).2 = .returned true ∧
        Defined o (o.defineOwnPropertyMethod key desc).1 key (appliedFields desc current) := by
  rw [MeetsSpecification, validateAndApply_current hcurrent hdesc, hcompat, hcurrent, hcompat]
  constructor
  · rintro ⟨⟨hreturned, hobserve⟩, hextensible, -⟩
    exact ⟨hreturned, hobserve, hextensible⟩
  · rintro ⟨hreturned, hobserve, hextensible⟩
    exact ⟨⟨hreturned, hobserve⟩, hextensible, fun _ => hreturned, fun _ => rfl⟩

theorem meetsSpecification_of_defined (hdesc : desc.HasHalf)
    (hcompat : isCompatiblePropertyDescriptor o.isExtensible desc (some current) = true)
    (h : ∃ after, o.defineOwnPropertyMethod key desc = (after, .returned true) ∧
      Defined o after key (appliedFields desc current)) : o.MeetsSpecification key desc := by
  obtain ⟨after, hdefine, hdefined⟩ := h
  rw [meetsSpecification_iff_of_compatible hcurrent hdesc hcompat, hdefine]
  exact ⟨rfl, hdefined⟩

theorem meetsSpecification_of_refused (hdesc : desc.HasHalf)
    (hcompat : isCompatiblePropertyDescriptor o.isExtensible desc (some current) = false) :
    o.MeetsSpecification key desc := by
  obtain ⟨hreturned, hobserve, hextensible⟩ := define_refused hcurrent hcompat
  rw [MeetsSpecification, validateAndApply_current hcurrent hdesc, hcompat, hcurrent, hcompat]
  refine ⟨⟨hreturned, hobserve⟩, hextensible, fun h => (Bool.false_ne_true h).elim, fun h => ?_⟩
  rw [hreturned] at h
  cases h

end

theorem meetsSpecification_of_absent (hcurrent : o.properties key = none)
    (hdesc : desc.HasHalf) : o.MeetsSpecification key desc := by
  have hobserve : o.observe key = none := by
    rw [observe, hcurrent]
    rfl
  have hfields : (desc.toOwnProperty : OwnProperty σ).fields =
      desc.fields.create Value.undefined.observed .undefined := by
    rw [DescriptorFields.create, PropertyDescriptor.isAccessor_fields hdesc]
    cases desc with
    | data value writable enumerable configurable =>
      have hsame := Value.observed_eq_of_sameValue
        (EncodedValue.sameValue_ofValue (value.getD .undefined))
      show PropertyFields.data (EncodedValue.ofValue (value.getD .undefined)).value.observed
        (writable == some true) (enumerable == some true) (configurable == some true) = _
      rw [hsame]
      rcases value with _ | value <;> rcases writable with _ | _ | _ <;>
        rcases enumerable with _ | _ | _ <;> rcases configurable with _ | _ | _ <;> rfl
    | accessor getterSetter enumerable configurable =>
      rcases enumerable with _ | _ | _ <;> rcases configurable with _ | _ | _ <;> rfl
  rw [MeetsSpecification, hobserve, hcurrent, defineOwnPropertyMethod.eq_def, hcurrent]
  cases hextensible : o.isExtensible with
  | false =>
    exact ⟨⟨rfl, rfl⟩, hextensible, fun h => (Bool.false_ne_true h).elim, fun h => by cases h⟩
  | true =>
    refine ⟨⟨rfl, ?_⟩, hextensible, fun _ => rfl, fun _ => rfl⟩
    show (o.setProperty key (some desc.toOwnProperty)).observe = _
    rw [observe_setProperty, map_some, hfields]

def withAttributes (nativeData : NativeGetterSetterData σ) (w e c : Bool) :
    NativeGetterSetterData σ :=
  { nativeData with writable := w, enumerable := e, configurable := c }

theorem writeProperty_native (o : PropertyObject κ σ) (key : κ)
    (nativeData : NativeGetterSetterData σ) (privateData : σ) (desc : PropertyDescriptor)
    (v : Value) (w e c : Bool) :
    o.writeProperty key (.native nativeData privateData) desc
        (.data (some v) (some w) (some e) (some c)) true =
      setOwnDataPropertyInner
        (o.setProperty key (some (.native (withAttributes nativeData w e c) privateData))) key
        (.native (withAttributes nativeData w e c) privateData) v := by
  cases w <;> cases e <;> cases c <;> rfl

theorem meetsSpecification_native_iff {nativeData : NativeGetterSetterData σ} {privateData : σ}
    (hcurrent : o.properties key = some (.native nativeData privateData))
    {value : Option Value} {writable enumerable configurable : Option Bool}
    (hcompat : isCompatiblePropertyDescriptor o.isExtensible
      (.data value writable enumerable configurable)
      (some (.native nativeData privateData)) = true) :
    o.MeetsSpecification key (.data value writable enumerable configurable) ↔
      ∀ v, writtenValue (.native nativeData privateData)
        (.data value writable enumerable configurable) = some v →
          nativeData.stores privateData v = true := by
  have hhalf : (PropertyDescriptor.data value writable enumerable configurable).HasHalf := trivial
  have hresult := define_data hcurrent rfl hcompat rfl
  rw [meetsSpecification_iff_of_compatible hcurrent hhalf hcompat, hresult,
    appliedFields_data rfl, writtenValue]
  cases hkept : agrees writable (OwnProperty.native nativeData privateData).isWritable &&
      agrees enumerable (OwnProperty.native nativeData privateData).isEnumerable &&
      agrees configurable (OwnProperty.native nativeData privateData).isConfigurable with
  | false =>
    -- the descriptor is replaced first, and the setter is called on the new item
    rw [Bool.not_false, Bool.or_true, if_pos rfl, writeProperty_native]
    have hwrite := fun w e c v => setOwnDataPropertyInner_native_iff
      (o.setProperty key (some (.native (withAttributes nativeData w e c) privateData))) key
      (withAttributes nativeData w e c) privateData v
    have hstores : ∀ w e c, (withAttributes nativeData w e c).stores = nativeData.stores :=
      fun _ _ _ => rfl
    simp only [observe_setProperty, update_idem, hstores] at hwrite
    constructor
    · rintro ⟨hreturned, hdefined⟩ v hv
      cases hv
      exact (hwrite _ _ _ _).mp ⟨hreturned, hdefined.observe⟩
    · intro h
      obtain ⟨hreturned, hobserve⟩ := (hwrite (writable.getD nativeData.writable)
        (enumerable.getD nativeData.enumerable) (configurable.getD nativeData.configurable) _).mpr
        (h _ rfl)
      exact ⟨hreturned, hobserve, setOwnDataPropertyInner_isExtensible _ _ _ _⟩
  | true =>
    simp only [Bool.and_eq_true, DescriptorFields.agrees_iff] at hkept
    rw [hkept.1.1, hkept.1.2, hkept.2]
    cases value with
    | none =>
      refine ⟨fun _ v hv => (by cases hv), fun _ => ⟨rfl, ?_, rfl⟩⟩
      symm
      apply Function.update_eq_self_iff.mpr
      rw [observe, hcurrent]
      rfl
    | some value =>
      have hwrite := setOwnDataPropertyInner_native_iff o key nativeData privateData value
      constructor
      · rintro ⟨hreturned, hdefined⟩ v hv
        cases hv
        exact hwrite.mp ⟨hreturned, hdefined.observe⟩
      · intro h
        obtain ⟨hreturned, hobserve⟩ := hwrite.mpr (h value rfl)
        exact ⟨hreturned, hobserve, setOwnDataPropertyInner_isExtensible o key
          (.native nativeData privateData) value⟩

theorem meetsSpecification_uninstalled_iff {builtin : Value}
    (hcurrent : o.properties key = some (.uninstalled builtin)) {value : Option Value}
    {writable enumerable configurable : Option Bool}
    (hcompat : isCompatiblePropertyDescriptor o.isExtensible
      (.data value writable enumerable configurable)
      (some (.uninstalled builtin : OwnProperty σ)) = true) :
    o.MeetsSpecification key (.data value writable enumerable configurable) ↔
      ((writtenValue (.uninstalled builtin : OwnProperty σ)
        (.data value writable enumerable configurable)).isSome = true →
          o.isReferencedByInlineCache = false) := by
  have hhalf : (PropertyDescriptor.data value writable enumerable configurable).HasHalf := trivial
  cases hcache : o.isReferencedByInlineCache with
  | false =>
    refine ⟨fun _ _ => rfl, fun _ => ?_⟩
    apply meetsSpecification_of_defined hcurrent hhalf hcompat
    have hread : o.readCurrent key (.uninstalled builtin) =
        (o.setProperty key (some (.installed builtin)), .installed builtin, builtin) := by
      rw [readCurrent, hcache]
      rfl
    exact define_plain hcurrent rfl hcompat hread rfl rfl
  | true =>
    have hread : o.readCurrent key (.uninstalled builtin) =
        (o.setProperty key (some (.installed builtin)), .uninstalled builtin, builtin) := by
      rw [readCurrent, hcache]
      rfl
    obtain ⟨-, hobserve, hextensible⟩ := readCurrent_spec hcurrent hread
    have hresult := define_data hcurrent rfl hcompat hread
    rw [meetsSpecification_iff_of_compatible hcurrent hhalf hcompat, hresult,
      appliedFields_data rfl, writtenValue]
    cases hkept : agrees writable (OwnProperty.uninstalled builtin : OwnProperty σ).isWritable &&
        agrees enumerable (OwnProperty.uninstalled builtin : OwnProperty σ).isEnumerable &&
        agrees configurable
          (OwnProperty.uninstalled builtin : OwnProperty σ).isConfigurable with
    | false =>
      rw [Bool.not_false, Bool.or_true, if_pos rfl]
      refine ⟨fun h => ?_, fun h => (Bool.false_ne_true (h rfl).symm).elim⟩
      cases h.1
    | true =>
      simp only [Bool.and_eq_true, DescriptorFields.agrees_iff] at hkept
      rw [hkept.1.1, hkept.1.2, hkept.2]
      cases value with
      | some value =>
        refine ⟨fun h => ?_, fun h => (Bool.false_ne_true (h rfl).symm).elim⟩
        cases h.1
      | none =>
        refine ⟨fun _ h => (by cases h), fun _ => ⟨rfl, ?_, hextensible⟩⟩
        show (o.setProperty key (some (.installed builtin))).observe = _
        rw [hobserve]
        symm
        apply Function.update_eq_self_iff.mpr
        rw [observe, hcurrent]
        rfl

theorem meetsSpecification_iff (o : PropertyObject κ σ) (key : κ) (hdesc : desc.HasHalf) :
    o.MeetsSpecification key desc ↔ o.StoresWritten key desc := by
  rw [StoresWritten]
  cases hcurrent : o.properties key with
  | none => exact iff_of_true (meetsSpecification_of_absent hcurrent hdesc) trivial
  | some current =>
    cases hcompat : isCompatiblePropertyDescriptor o.isExtensible desc (some current) with
    | false =>
      refine iff_of_true (meetsSpecification_of_refused hcurrent hdesc hcompat) ?_
      cases current with
      | native nativeData privateData =>
        intro h
        cases hcompat.symm.trans h
      | uninstalled builtin =>
        rw [isCompatiblePropertyDescriptor_some _ hdesc] at hcompat
        cases hcompat
      | plainData _ _ _ _ => trivial
      | jsGetterSetter _ _ _ => trivial
    | true =>
      cases desc with
      | accessor getterSetter enumerable configurable =>
        refine iff_of_true (meetsSpecification_of_defined hcurrent hdesc hcompat ?_) ?_
        · cases current with
          | jsGetterSetter _ _ _ => exact define_accessor hcurrent rfl hcompat
          | plainData _ _ _ _ => exact define_toAccessor hcurrent hdesc rfl hcompat
          | native _ _ => exact define_toAccessor hcurrent hdesc rfl hcompat
          | uninstalled _ => exact define_toAccessor hcurrent hdesc rfl hcompat
        · cases current with
          | native _ _ =>
            intro _ v hv
            cases hv
          | uninstalled _ =>
            intro h
            cases h
          | plainData _ _ _ _ => trivial
          | jsGetterSetter _ _ _ => trivial
      | data value writable enumerable configurable =>
        cases current with
        | plainData slot w e c =>
          refine iff_of_true (meetsSpecification_of_defined hcurrent hdesc hcompat ?_)
            trivial
          exact define_plain hcurrent rfl hcompat rfl rfl rfl
        | jsGetterSetter getterSetter e c =>
          refine iff_of_true (meetsSpecification_of_defined hcurrent hdesc hcompat ?_)
            trivial
          cases hkind : PropertyDescriptor.isDataDescriptor
              (.data value writable enumerable configurable) with
          | true => exact define_toData hcurrent hkind hcompat
          | false => exact define_accessor hcurrent hkind hcompat
        | native nativeData privateData =>
          rw [meetsSpecification_native_iff hcurrent hcompat]
          exact ⟨fun h _ => h, fun h => h hcompat⟩
        | uninstalled builtin => exact meetsSpecification_uninstalled_iff hcurrent hcompat

end Meets

/-- One operation; `none` when the program calls a null pointer. -/
def step (o : PropertyObject κ σ) : PropertyOp κ → Option (PropertyObject κ σ × DefineCompletion)
  | .define key desc =>
    match o.defineOwnPropertyMethod key desc.desc with
    | (_, .nullSetterCalled) => none
    | (after, completion) => some (after, completion)
  | .delete key => some ((o.deleteOwnProperty key).1, .returned (o.deleteOwnProperty key).2)
  | .preventExtensions => some ({ o with isExtensible := false }, .returned true)

def storesWritten (o : PropertyObject κ σ) : PropertyOp κ → Prop
  | .define key desc => o.StoresWritten key desc.desc
  | _ => True

theorem observe_of_meetsSpecification {key other : κ} (hmeets : o.MeetsSpecification key desc)
    {fields : PropertyFields ObservedValue AccessorFunction} (hfixed : fields.isFixed = true)
    (hfields : o.observe other = some fields) :
    (o.defineOwnPropertyMethod key desc).1.observe other = some fields := by
  have hresult := hmeets.1
  split at hresult
  · rw [hresult.2]
    exact hfields
  · rename_i next hnext
    rw [hresult.2]
    by_cases hkey : other = key
    · subst hkey
      rw [hfields] at hnext
      rw [update_self, DescriptorFields.eq_of_validateAndApply_of_isFixed
        desc.wellFormed_fields hfixed hnext]
    · rw [update_of_ne hkey]
      exact hfields

theorem step_spec {op : PropertyOp κ} (hguard : storesWritten o op) :
    ∃ after completion, step o op = some (after, completion) ∧
      ∀ key fields, o.observe key = some fields → fields.isFixed = true →
        after.observe key = some fields := by
  cases op with
  | define key desc =>
    have hmeets := (meetsSpecification_iff o key desc.hasHalf).mpr hguard
    have hreturned : ∃ success,
        (o.defineOwnPropertyMethod key desc.desc).2 = .returned success := by
      have hresult := hmeets.1
      split at hresult
      · exact ⟨false, hresult.1⟩
      · exact ⟨true, hresult.1⟩
    obtain ⟨success, hsuccess⟩ := hreturned
    refine ⟨_, .returned success, ?_, fun other fields hfields hfixed =>
      observe_of_meetsSpecification hmeets hfixed hfields⟩
    rw [step]
    split
    · rename_i hnull
      rw [hnull] at hsuccess
      cases hsuccess
    · rename_i after completion _ hdefine
      rw [hdefine] at hsuccess ⊢
      cases hsuccess
      rfl
  | delete key =>
    refine ⟨_, _, rfl, fun other fields hfields hfixed => ?_⟩
    rw [deleteOwnProperty]
    split
    · exact hfields
    · rename_i current hcurrent
      split
      · rename_i hconfigurable
        have hne : other ≠ key := by
          rintro rfl
          rw [observe, hcurrent, map_some, Option.some.injEq] at hfields
          subst hfields
          cases current <;> simp_all [OwnProperty.fields, PropertyFields.isFixed,
            OwnProperty.isConfigurable]
        rw [observe_setProperty, update_of_ne hne]
        exact hfields
      · exact hfields
  | preventExtensions => exact ⟨_, _, rfl, fun _ _ hfields _ => hfields⟩

/-- A definition does what `ValidateAndApplyPropertyDescriptor` prescribes, and agrees with
`isCompatiblePropertyDescriptor`, exactly when what it writes is stored. In every run of such
definitions a data property that is neither configurable nor writable keeps its value, and an
accessor that is not configurable keeps its functions. -/
theorem define_own_property_meets_specification {κ σ : Type} [DecidableEq κ] :
    (∀ (o : PropertyObject κ σ) (key : κ) (desc : CallerDescriptor),
      o.MeetsSpecification key desc.desc ↔ o.StoresWritten key desc.desc) ∧
    ∀ (ops : List (PropertyOp κ)) (o : PropertyObject κ σ), Guarded step storesWritten ops o →
      ∃ last completions, run step ops o = some (last, completions) ∧
        ∀ key fields, o.observe key = some fields → fields.isFixed = true →
          last.observe key = some fields := by
  refine ⟨fun o key desc => meetsSpecification_iff o key desc.hasHalf, fun ops => ?_⟩
  induction ops with
  | nil => exact fun o _ => ⟨o, [], rfl, fun _ _ hfields _ => hfields⟩
  | cons op ops ih =>
    intro o hguarded
    obtain ⟨after, completion, hstep, hkeeps⟩ := step_spec hguarded.head
    obtain ⟨last, completions, hrun, hrest⟩ := ih after (hguarded.tail hstep)
    refine ⟨last, completion :: completions, ?_, fun key fields hfields hfixed =>
      hrest key fields (hkeeps key fields hfields hfixed) hfixed⟩
    rw [run_cons_of_step hstep, hrun]
    rfl

end PropertyObject

namespace PropertyObject

variable {κ σ : Type} [DecidableEq κ]

/-- Whether what is written is stored can be computed. -/
instance (o : PropertyObject κ σ) (key : κ) (desc : PropertyDescriptor) :
    Decidable (o.StoresWritten key desc) :=
  match hcurrent : o.properties key with
  | none => isTrue (by rw [StoresWritten, hcurrent]; trivial)
  | some (.plainData ..) => isTrue (by rw [StoresWritten, hcurrent]; trivial)
  | some (.jsGetterSetter ..) => isTrue (by rw [StoresWritten, hcurrent]; trivial)
  | some (.native nativeData privateData) =>
    decidable_of_iff
      (isCompatiblePropertyDescriptor o.isExtensible desc
          (some (.native nativeData privateData)) = true →
        (writtenValue (.native nativeData privateData) desc).all
          (nativeData.stores privateData) = true)
      (by
        rw [StoresWritten, hcurrent]
        refine imp_congr_right fun _ => ?_
        cases writtenValue (.native nativeData privateData) desc <;> simp)
  | some (.uninstalled builtin) =>
    decidable_of_iff
      ((writtenValue (.uninstalled builtin : OwnProperty σ) desc).isSome = true →
        o.isReferencedByInlineCache = false)
      (by rw [StoresWritten, hcurrent])

instance (o : PropertyObject κ σ) (op : PropertyOp κ) : Decidable (storesWritten o op) :=
  match op with
  | .define key desc => inferInstanceAs (Decidable (o.StoresWritten key desc.desc))
  | .delete _ => isTrue trivial
  | .preventExtensions => isTrue trivial

end PropertyObject

/-- The slots of a `RegExpObject` that the native functions of its `lastIndex` use. -/
structure RegExpLastIndex where
  lastIndex : Value
  hasNonWritableLastIndexRegExpObject : Bool
  isStickyOrGlobal : Bool

namespace RegExpLastIndex

/-- `RegExpObject::setLastIndex`, which throws or sets it. -/
def setLastIndex (regexp : RegExpLastIndex) (v : Value) : Option (RegExpLastIndex × Bool) :=
  if regexp.hasNonWritableLastIndexRegExpObject && regexp.isStickyOrGlobal then none
  else some ({ regexp with lastIndex := v }, true)

/-- `regexpLastIndexGetterSetterData`. -/
def getterSetterData : NativeGetterSetterData RegExpLastIndex where
  writable := true
  enumerable := false
  configurable := false
  getter := lastIndex
  setter := some setLastIndex

def newGlobal : PropertyObject String RegExpLastIndex where
  properties key :=
    if key = "lastIndex" then some (.native getterSetterData ⟨.int32 0, false, true⟩) else none
  isExtensible := true
  isReferencedByInlineCache := false

/-- `RegExpObject::defineOwnProperty`, which takes note of a `lastIndex` that is not writable. -/
def defineOwnProperty (o : PropertyObject String RegExpLastIndex) (key : String)
    (desc : PropertyDescriptor) : PropertyObject String RegExpLastIndex × DefineCompletion :=
  let (after, completion) := o.defineOwnPropertyMethod key desc
  if completion = .returned true ∧ key = "lastIndex" then
    match after.properties key with
    | some (.native nativeData regexp) =>
      if nativeData.writable then (after, completion)
      else (after.setProperty key (some (.native nativeData
        { regexp with hasNonWritableLastIndexRegExpObject := true })), completion)
    | _ => (after, completion)
  else (after, completion)

def frozen : PropertyObject String RegExpLastIndex :=
  (defineOwnProperty newGlobal "lastIndex" (.data none (some false) none none)).1

end RegExpLastIndex

namespace PropertyObject

open RegExpLastIndex

/-- A RegExp whose `lastIndex` was set and made read-only. -/
def readOnlyLastIndex : PropertyObject String RegExpLastIndex :=
  (newGlobal.defineOwnPropertyMethod "lastIndex" (.data (some (.int32 3)) (some false) none none)).1

/-- It is deleted and written in vain, and another property comes and goes. -/
def attempts : List (PropertyOp String) :=
  [.delete "lastIndex", .define "lastIndex" ⟨.data (some (.int32 4)) none none none, trivial⟩,
    .define "note" ⟨.data (some (.int32 1)) none none (some true), trivial⟩, .delete "note",
    .preventExtensions]

theorem readOnlyLastIndex_keeps_contents :
    newGlobal.MeetsSpecification "lastIndex" (.data (some (.int32 3)) (some false) none none) ∧
      ∃ last completions fields, run step attempts readOnlyLastIndex = some (last, completions) ∧
        readOnlyLastIndex.observe "lastIndex" = some fields ∧ fields.isFixed = true ∧
          last.observe "lastIndex" = some fields := by
  have hfixed : (readOnlyLastIndex.observe "lastIndex").map (·.isFixed) = some true := by
    decide +kernel
  obtain ⟨fields, hfields, hisFixed⟩ := Option.map_eq_some_iff.mp hfixed
  obtain ⟨last, completions, hrun, hkeeps⟩ := define_own_property_meets_specification.2 attempts
    readOnlyLastIndex (by decide +kernel)
  exact ⟨(define_own_property_meets_specification.1 newGlobal "lastIndex"
      ⟨.data (some (.int32 3)) (some false) none none, trivial⟩).mpr (by decide +kernel),
    last, completions, fields, hrun, hfields, hisFixed, hkeeps _ fields hfields hisFixed⟩

/-- Defining the `lastIndex` that is there already. -/
theorem frozen_rejects_same_value :
    (defineOwnProperty newGlobal "lastIndex" (.data none (some false) none none)).2 =
        .returned true ∧
      validateAndApplyPropertyDescriptor frozen.isExtensible
          (.data (some (.int32 0)) none none none) (frozen.observe "lastIndex") =
        frozen.observe "lastIndex" ∧
      (frozen.observe "lastIndex").isSome = true ∧
      isCompatiblePropertyDescriptor frozen.isExtensible (.data (some (.int32 0)) none none none)
        (frozen.properties "lastIndex") = true ∧
      (frozen.defineOwnPropertyMethod "lastIndex" (.data (some (.int32 0)) none none none)).2 =
        .threw ∧
      ¬ frozen.MeetsSpecification "lastIndex" (.data (some (.int32 0)) none none none) := by
  have hthrew : (frozen.defineOwnPropertyMethod "lastIndex"
      (.data (some (.int32 0)) none none none)).2 = .threw := by
    decide +kernel
  refine ⟨by decide +kernel, by decide +kernel, by decide +kernel, by decide +kernel, hthrew, ?_⟩
  intro hmeets
  have hcompat := hmeets.2.2.mp (by decide +kernel)
  cases hcompat

end PropertyObject

end Escargot.Runtime
