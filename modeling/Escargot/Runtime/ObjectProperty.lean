/-
# Properties and property descriptors

The property a key of an ordinary object has, the descriptors that
`[[DefineOwnProperty]]` is given, and what `Object::defineOwnPropertyMethod`
makes of the two. Property values are kept abstract: all the code needs of them
is `undefined` and the `SameValue` comparison.
-/

import Mathlib

namespace Escargot.Runtime

/-- What property code uses of the values it stores. -/
class PropertyValue (α : Type) where
  undefined : α
  sameValue : α → α → Bool

/-- An own property. A missing half of an accessor pair is `none`. -/
inductive Property (α : Type)
  | data (value : α) (writable enumerable configurable : Bool)
  | accessor (getter setter : Option α) (enumerable configurable : Bool)
  deriving DecidableEq

namespace Property

variable {α : Type}

/-- A data property with all attributes. -/
def plain (value : α) : Property α := data value true true true

def isDataProperty : Property α → Bool
  | data .. => true
  | accessor .. => false

def isEnumerable : Property α → Bool
  | data _ _ enumerable _ => enumerable
  | accessor _ _ enumerable _ => enumerable

def isConfigurable : Property α → Bool
  | data _ _ _ configurable => configurable
  | accessor _ _ _ configurable => configurable

end Property

/-- `ObjectPropertyDescriptor`: a field that is not present is `none`. -/
inductive ObjectPropertyDescriptor (α : Type)
  | data (value : Option α) (writable enumerable configurable : Option Bool)
  | accessor (getter setter : Option α) (enumerable configurable : Option Bool)

namespace ObjectPropertyDescriptor

variable {α : Type}

/-- `ObjectPropertyDescriptor(value, AllPresent)`. -/
def allPresent (value : α) : ObjectPropertyDescriptor α :=
  data (some value) (some true) (some true) (some true)

/-- `ObjectPropertyDescriptor(value)`. -/
def valueAlone (value : α) : ObjectPropertyDescriptor α := data (some value) none none none

def isValuePresent : ObjectPropertyDescriptor α → Bool
  | data value _ _ _ => value.isSome
  | accessor .. => false

def isWritablePresent : ObjectPropertyDescriptor α → Bool
  | data _ writable _ _ => writable.isSome
  | accessor .. => false

def isDataDescriptor (desc : ObjectPropertyDescriptor α) : Bool :=
  desc.isValuePresent || desc.isWritablePresent

def isAccessorDescriptor : ObjectPropertyDescriptor α → Bool
  | data .. => false
  | accessor .. => true

def isGenericDescriptor (desc : ObjectPropertyDescriptor α) : Bool :=
  !desc.isDataDescriptor && !desc.isAccessorDescriptor

def enumerable? : ObjectPropertyDescriptor α → Option Bool
  | data _ _ enumerable _ => enumerable
  | accessor _ _ enumerable _ => enumerable

def configurable? : ObjectPropertyDescriptor α → Option Bool
  | data _ _ _ configurable => configurable
  | accessor _ _ _ configurable => configurable

def isDataWritableEnumerableConfigurable : ObjectPropertyDescriptor α → Bool
  | data (some _) (some true) (some true) (some true) => true
  | _ => false

def isValuePresentAlone : ObjectPropertyDescriptor α → Bool
  | data (some _) none none none => true
  | _ => false

def value? : ObjectPropertyDescriptor α → Option α
  | data value _ _ _ => value
  | accessor .. => none

variable [PropertyValue α]

/-- The property that a descriptor creates where there is none yet. -/
def toProperty : ObjectPropertyDescriptor α → Property α
  | data value writable enumerable configurable =>
    .data (value.getD PropertyValue.undefined) (writable.getD false) (enumerable.getD false)
      (configurable.getD false)
  | accessor getter setter enumerable configurable =>
    .accessor getter setter (enumerable.getD false) (configurable.getD false)

def sameHalf (desc current : Option α) : Bool :=
  match desc with
  | none => true
  | some f => PropertyValue.sameValue f (current.getD PropertyValue.undefined)

/-- The checks of `defineOwnPropertyMethod` against the current property. -/
def isRejected (desc : ObjectPropertyDescriptor α) (current : Property α) : Bool :=
  !current.isConfigurable && (desc.configurable? == some true ||
      (desc.enumerable?.isSome && desc.enumerable? != some current.isEnumerable) ||
      (!desc.isGenericDescriptor && match current, desc with
        | .data value writable _ _, .data value' writable' _ _ =>
          !writable && (writable' == some true || match value' with
            | none => false
            | some v => !PropertyValue.sameValue v value)
        | .accessor getter setter _ _, .accessor getter' setter' _ _ =>
          !sameHalf setter' setter || !sameHalf getter' getter
        -- A data property never becomes an accessor pair, nor the other way round.
        | _, _ => true))

/-- The property after a definition that was not rejected. -/
def apply (desc : ObjectPropertyDescriptor α) (current : Property α) : Property α :=
  let enumerable := desc.enumerable?.getD current.isEnumerable
  let configurable := desc.configurable?.getD current.isConfigurable
  match desc, current with
  | data value' writable' _ _, .data value writable _ _ =>
    .data (value'.getD value) (writable'.getD writable) enumerable configurable
  | accessor getter' setter' _ _, .accessor getter setter _ _ =>
    .accessor (getter'.or getter) (setter'.or setter) enumerable configurable
  | accessor getter' setter' _ _, .data .. => .accessor getter' setter' enumerable configurable
  | data value' writable' _ _, .accessor getter setter _ _ =>
    if desc.isGenericDescriptor then .accessor getter setter enumerable configurable
    else .data (value'.getD PropertyValue.undefined) (writable'.getD false) enumerable configurable

end ObjectPropertyDescriptor

/-- The own properties of an object with the flag of its rare data. The keys are
left abstract. -/
@[ext]
structure OrdinaryObject (κ α : Type) where
  properties : κ → Option (Property α)
  isExtensible : Bool

namespace OrdinaryObject

variable {κ α : Type} [DecidableEq κ]

def setProperty (o : OrdinaryObject κ α) (key : κ) (property : Option (Property α)) :
    OrdinaryObject κ α :=
  { o with properties := Function.update o.properties key property }

def defineOwnPropertyMethod [PropertyValue α] (o : OrdinaryObject κ α) (key : κ)
    (desc : ObjectPropertyDescriptor α) : OrdinaryObject κ α × Bool :=
  match o.properties key with
  | none => if o.isExtensible then (o.setProperty key (some desc.toProperty), true) else (o, false)
  | some current =>
    if desc.isRejected current then (o, false)
    else (o.setProperty key (some (desc.apply current)), true)

def deleteOwnProperty (o : OrdinaryObject κ α) (key : κ) : OrdinaryObject κ α × Bool :=
  match o.properties key with
  | none => (o, true)
  | some current => if current.isConfigurable then (o.setProperty key none, true) else (o, false)

variable [PropertyValue α]

theorem defineOwnPropertyMethod_absent {o : OrdinaryObject κ α} (hext : o.isExtensible = true)
    {key : κ} (habsent : o.properties key = none) (desc : ObjectPropertyDescriptor α) :
    o.defineOwnPropertyMethod key desc = (o.setProperty key (some desc.toProperty), true) := by
  simp only [defineOwnPropertyMethod, habsent, hext, if_true]

theorem defineOwnPropertyMethod_plain {o : OrdinaryObject κ α} {key : κ} {old new : α}
    (hplain : o.properties key = some (.plain old)) {desc : ObjectPropertyDescriptor α}
    (hvalue : desc.value? = some new)
    (hdesc : desc.isValuePresentAlone = true ∨ desc.isDataWritableEnumerableConfigurable = true) :
    o.defineOwnPropertyMethod key desc = (o.setProperty key (some (.plain new)), true) := by
  have happly : desc.apply (.plain old) = .plain new := by
    match desc, hvalue, hdesc with
    | .data (some _) none none none, rfl, _ => rfl
    | .data (some _) (some true) (some true) (some true), rfl, _ => rfl
  have haccepted : desc.isRejected (.plain old) = false := rfl
  simp only [defineOwnPropertyMethod, hplain, haccepted, happly, Bool.false_eq_true, if_false]

theorem toProperty_eq_plain {desc : ObjectPropertyDescriptor α} {value : α}
    (hvalue : desc.value? = some value)
    (hdesc : desc.isDataWritableEnumerableConfigurable = true) :
    desc.toProperty = .plain value := by
  match desc, hvalue, hdesc with
  | .data (some _) (some true) (some true) (some true), rfl, _ => rfl

end OrdinaryObject

end Escargot.Runtime
