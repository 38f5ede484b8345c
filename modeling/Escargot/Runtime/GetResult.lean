/-
# Results of lookups

`ObjectGetResult`: what an object answers for a property of its own, and the value
that a lookup ends with. A getter is called by whoever asked.
-/

import Escargot.Runtime.DefineOwnProperty

namespace Escargot.Runtime

open Foundation

/-- `ObjectGetResult` of an own property. -/
inductive GetResult
  | data (value : Value) (isWritable isEnumerable isConfigurable : Bool)
  | accessor (getterSetter : JSGetterSetter) (isEnumerable isConfigurable : Bool)

namespace GetResult

def isConfigurable : GetResult → Bool
  | data _ _ _ c => c
  | accessor _ _ c => c

/-- The value replaced by another one. -/
def withValue (v : Value) : GetResult → GetResult
  | data _ w e c => data v w e c
  | result => result

def fields : GetResult → PropertyFields ObservedValue AccessorFunction
  | data v w e c => .data v.observed w e c
  | accessor getterSetter e c =>
    .accessor (getterSetter.getter.getD .undefined) (getterSetter.setter.getD .undefined) e c

/-- `Object::getOwnProperty` of a slot. -/
def ofProperty {σ : Type} (property : OwnProperty σ) : GetResult :=
  if property.isDataProperty then
    data property.value property.isWritable property.isEnumerable property.isConfigurable
  else accessor property.getterSetter property.isEnumerable property.isConfigurable

end GetResult

inductive LookupAnswer (α : Type)
  | value (v : α)
  | callsGetter (getter : AccessorFunction) (receiver : Value)
  deriving DecidableEq

namespace LookupAnswer

def observed : LookupAnswer Value → LookupAnswer ObservedValue
  | value v => value v.observed
  | callsGetter getter receiver => callsGetter getter receiver

/-- `ObjectGetResult::value`. -/
def ofResult (receiver : Value) : Option GetResult → LookupAnswer Value
  | none => value .undefined
  | some (.data v _ _ _) => value v
  | some (.accessor getterSetter _ _) =>
    match getterSetter.getter with
    | some (.callable address) => callsGetter (.callable address) receiver
    | _ => value .undefined

end LookupAnswer

def GetResult.hasGetter : GetResult → Bool
  | .accessor ⟨some (.callable _), _⟩ _ _ => true
  | _ => false

theorem GetResult.fields_ofProperty (property : OwnProperty Empty) :
    (GetResult.ofProperty property).fields = property.fields := by
  cases property with
  | native _ privateData => exact privateData.elim
  | _ => rfl

theorem GetResult.configurable_fields (result : GetResult) :
    result.fields.configurable = result.isConfigurable := by
  cases result <;> rfl

theorem LookupAnswer.ofResult_of_no_getter {result : Option GetResult}
    (h : result.all (!GetResult.hasGetter ·) = true) (property receiver : Value) :
    ofResult property result = ofResult receiver result := by
  rcases result with _ | ⟨v, w, e, c⟩ | ⟨⟨getter, setter⟩, e, c⟩
  · rfl
  · rfl
  · rcases getter with _ | _ | address
    · rfl
    · rfl
    · cases h

end Escargot.Runtime
