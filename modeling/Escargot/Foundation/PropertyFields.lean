/-
# Property descriptors of ECMAScript

`ValidateAndApplyPropertyDescriptor` over arbitrary values and functions. Values
are taken up to `SameValue`, so that the comparison of the algorithm is equality.
The steps that return early for a descriptor without fields, or with fields that
are all there already, turn out to be redundant.
-/

import Mathlib

namespace Escargot.Foundation

open Option

variable {α φ : Type*}

inductive PropertyFields (α φ : Type*)
  | data (value : α) (writable enumerable configurable : Bool)
  | accessor (get set : φ) (enumerable configurable : Bool)
  deriving DecidableEq

namespace PropertyFields

def isData : PropertyFields α φ → Bool
  | data .. => true
  | accessor .. => false

def enumerable : PropertyFields α φ → Bool
  | data _ _ enumerable _ => enumerable
  | accessor _ _ enumerable _ => enumerable

def configurable : PropertyFields α φ → Bool
  | data _ _ _ configurable => configurable
  | accessor _ _ _ configurable => configurable

/-- A property whose contents are fixed: a data property that is neither configurable nor
writable, or an accessor that is not configurable. -/
def isFixed : PropertyFields α φ → Bool
  | data _ writable _ configurable => !writable && !configurable
  | accessor _ _ _ configurable => !configurable

end PropertyFields

@[ext]
structure DescriptorFields (α φ : Type*) where
  value : Option α
  writable : Option Bool
  get : Option φ
  set : Option φ
  enumerable : Option Bool
  configurable : Option Bool
  deriving DecidableEq

namespace DescriptorFields

variable (desc : DescriptorFields α φ)

def isAccessor : Bool := desc.get.isSome || desc.set.isSome

def isData : Bool := desc.value.isSome || desc.writable.isSome

def isGeneric : Bool := !desc.isAccessor && !desc.isData

/-- A field that is absent, or present with the given contents. -/
def agrees [DecidableEq α] (field : Option α) (x : α) : Bool :=
  match field with
  | none => true
  | some y => y == x

section

variable [DecidableEq α] [DecidableEq φ] (undefined : α) (undefinedFunction : φ)

def create (desc : DescriptorFields α φ) : PropertyFields α φ :=
  if desc.isAccessor then
    .accessor (desc.get.getD undefinedFunction) (desc.set.getD undefinedFunction)
      (desc.enumerable.getD false) (desc.configurable.getD false)
  else
    .data (desc.value.getD undefined) (desc.writable.getD false) (desc.enumerable.getD false)
      (desc.configurable.getD false)

def occursIn (desc : DescriptorFields α φ) (current : PropertyFields α φ) : Bool :=
  agrees desc.enumerable current.enumerable && agrees desc.configurable current.configurable &&
    match current with
    | .data value writable _ _ =>
      agrees desc.value value && agrees desc.writable writable && !desc.isAccessor
    | .accessor get set _ _ => agrees desc.get get && agrees desc.set set && !desc.isData

/-- Steps 5 to 9: the checks against a property that is not configurable. -/
def isValid (desc : DescriptorFields α φ) (current : PropertyFields α φ) : Bool :=
  current.configurable ||
    (desc.configurable != some true && agrees desc.enumerable current.enumerable &&
      (desc.isGeneric || match current with
        | .data value writable _ _ =>
          desc.isData && (writable || (desc.writable != some true && agrees desc.value value))
        | .accessor get set _ _ => !desc.isData && agrees desc.set set && agrees desc.get get))

/-- Steps 7 and 10: convert the property if its kind changes, then set the fields that are
present. -/
def applyTo (desc : DescriptorFields α φ) (current : PropertyFields α φ) : PropertyFields α φ :=
  let enumerable := desc.enumerable.getD current.enumerable
  let configurable := desc.configurable.getD current.configurable
  match current with
  | .data value writable _ _ =>
    if desc.isAccessor then
      .accessor (desc.get.getD undefinedFunction) (desc.set.getD undefinedFunction) enumerable
        configurable
    else .data (desc.value.getD value) (desc.writable.getD writable) enumerable configurable
  | .accessor get set _ _ =>
    if desc.isData then
      .data (desc.value.getD undefined) (desc.writable.getD false) enumerable configurable
    else .accessor (desc.get.getD get) (desc.set.getD set) enumerable configurable

/-- `ValidateAndApplyPropertyDescriptor`: the property afterwards, or `none` for false. -/
def validateAndApply (extensible : Bool) (desc : DescriptorFields α φ) :
    Option (PropertyFields α φ) → Option (PropertyFields α φ)
  | none => if extensible then some (desc.create undefined undefinedFunction) else none
  | some current =>
    -- step 3
    if desc = ⟨none, none, none, none, none, none⟩ then some current
    else if desc.occursIn current then some current
    else if desc.isValid current then some (desc.applyTo undefined undefinedFunction current)
    else none

variable {undefined undefinedFunction}

def WellFormed (desc : DescriptorFields α φ) : Prop :=
  ¬ (desc.isAccessor = true ∧ desc.isData = true)

theorem agrees_iff {β : Type*} [DecidableEq β] {field : Option β} {x : β} :
    agrees field x = true ↔ field.getD x = x := by
  cases field with
  | none => simp [agrees]
  | some y => simp [agrees]

theorem ne_some_true_of_agrees {field : Option Bool} (h : agrees field false = true) :
    (field != some true) = true := by
  rcases field with _ | _ | _
  · rfl
  · rfl
  · cases h

variable {desc : DescriptorFields α φ} {current : PropertyFields α φ}

theorem isValid_of_occursIn (hoccurs : desc.occursIn current = true) :
    desc.isValid current = true := by
  cases hconfigurable : current.configurable with
  | true => simp [isValid, hconfigurable]
  | false =>
    cases current with
    | data value writable enumerable configurable =>
      simp only [occursIn, Bool.and_eq_true, Bool.not_eq_true'] at hoccurs
      obtain ⟨⟨henumerable, hagrees⟩, ⟨hvalue, hwritable⟩, haccessor⟩ := hoccurs
      rw [hconfigurable] at hagrees
      have hnot := ne_some_true_of_agrees hagrees
      simp only [isValid, hconfigurable, hnot, henumerable, isGeneric, haccessor, hvalue]
      cases desc.isData with
      | false => rfl
      | true =>
        cases writable with
        | true => rfl
        | false => simp [ne_some_true_of_agrees hwritable]
    | accessor get set enumerable configurable =>
      simp only [occursIn, Bool.and_eq_true, Bool.not_eq_true'] at hoccurs
      obtain ⟨⟨henumerable, hagrees⟩, ⟨hget, hset⟩, hdata⟩ := hoccurs
      rw [hconfigurable] at hagrees
      have hnot := ne_some_true_of_agrees hagrees
      simp [isValid, hconfigurable, hnot, henumerable, hdata, hget, hset]

theorem applyTo_of_occursIn (hoccurs : desc.occursIn current = true) :
    desc.applyTo undefined undefinedFunction current = current := by
  cases current with
  | data value writable enumerable configurable =>
    simp only [occursIn, Bool.and_eq_true, Bool.not_eq_true', agrees_iff] at hoccurs
    obtain ⟨⟨henumerable, hconfigurable⟩, ⟨hvalue, hwritable⟩, haccessor⟩ := hoccurs
    simp only [applyTo, haccessor, henumerable, hconfigurable, hvalue, hwritable]
    rfl
  | accessor get set enumerable configurable =>
    simp only [occursIn, Bool.and_eq_true, Bool.not_eq_true', agrees_iff] at hoccurs
    obtain ⟨⟨henumerable, hconfigurable⟩, ⟨hget, hset⟩, hdata⟩ := hoccurs
    simp only [applyTo, hdata, henumerable, hconfigurable, hget, hset]
    rfl

theorem validateAndApply_some (extensible : Bool) (desc : DescriptorFields α φ)
    (current : PropertyFields α φ) :
    validateAndApply undefined undefinedFunction extensible desc (some current) =
      if desc.isValid current then some (desc.applyTo undefined undefinedFunction current)
      else none := by
  have hoccurs : desc = ⟨none, none, none, none, none, none⟩ → desc.occursIn current = true := by
    rintro rfl
    cases current <;> rfl
  rw [validateAndApply]
  split
  · rename_i hempty
    rw [if_pos (isValid_of_occursIn (hoccurs hempty)), applyTo_of_occursIn (hoccurs hempty)]
  · split
    · rename_i h
      rw [if_pos (isValid_of_occursIn h), applyTo_of_occursIn h]
    · rfl

theorem isValid_writable (desc : DescriptorFields α φ) (v w : α) (e c : Bool) :
    desc.isValid (.data v true e c) = desc.isValid (.data w true e c) := rfl

theorem isValid_withValue (hdesc : desc.writable.isSome = true) (u v : α) (e c : Bool) :
    ({ desc with value := some u } : DescriptorFields α φ).isValid (.data v true e c) =
      desc.isValid (.data v true e c) := by
  simp [isValid, isGeneric, isData, isAccessor, hdesc]

omit [DecidableEq α] [DecidableEq φ] in
theorem applyTo_writable (hdesc : desc.isAccessor = false) (v : α) (e c : Bool) :
    desc.applyTo undefined undefinedFunction (.data v true e c) =
      .data (desc.value.getD v) (desc.writable.getD true) (desc.enumerable.getD e)
        (desc.configurable.getD c) := by
  simp [applyTo, hdesc, PropertyFields.enumerable, PropertyFields.configurable]

omit [DecidableEq α] [DecidableEq φ] in
/-- An accessor replaces a writable property whatever its value is. -/
theorem applyTo_accessor (hdesc : desc.isAccessor = true) (v w : α) (e c : Bool) :
    desc.applyTo undefined undefinedFunction (.data v true e c) =
      desc.applyTo undefined undefinedFunction (.data w true e c) := by
  simp [applyTo, hdesc, PropertyFields.enumerable, PropertyFields.configurable]

theorem getD_false_of_ne {field : Option Bool} (h : (field != some true) = true) :
    field.getD false = false := by
  rcases field with _ | _ | _
  · rfl
  · rfl
  · cases h

/-- A definition that is valid for a property with fixed contents changes nothing. -/
theorem applyTo_of_isFixed (hdesc : desc.WellFormed) (hfixed : current.isFixed = true)
    (hvalid : desc.isValid current = true) :
    desc.applyTo undefined undefinedFunction current = current := by
  cases current with
  | data value writable enumerable configurable =>
    simp only [PropertyFields.isFixed, Bool.and_eq_true, Bool.not_eq_true'] at hfixed
    obtain ⟨rfl, rfl⟩ := hfixed
    simp only [isValid, PropertyFields.configurable, Bool.false_or, Bool.and_eq_true,
      agrees_iff] at hvalid
    obtain ⟨⟨hconfigurable, henumerable⟩, hkind⟩ := hvalid
    have hparts : desc.isAccessor = false ∧ desc.writable.getD false = false ∧
        desc.value.getD value = value := by
      cases hdata : desc.isData with
      | false =>
        simp only [isGeneric, hdata, Bool.false_and, Bool.or_false, Bool.not_false,
          Bool.and_true, Bool.not_eq_true'] at hkind
        simp only [isData, Bool.or_eq_false_iff, isSome_eq_false_iff, isNone_iff_eq_none] at hdata
        exact ⟨hkind, by rw [hdata.2]; rfl, by rw [hdata.1]; rfl⟩
      | true =>
        have haccessor : desc.isAccessor = false := by
          rw [← Bool.not_eq_true]
          exact fun h => hdesc ⟨h, hdata⟩
        simp only [isGeneric, hdata, Bool.not_true, Bool.and_false, Bool.false_or,
          Bool.true_and, Bool.and_eq_true, agrees_iff] at hkind
        exact ⟨haccessor, getD_false_of_ne hkind.1, hkind.2⟩
    simp only [applyTo, hparts.1, hparts.2.1, hparts.2.2, henumerable,
      PropertyFields.configurable, getD_false_of_ne hconfigurable]
    rfl
  | accessor get set enumerable configurable =>
    simp only [PropertyFields.isFixed, Bool.not_eq_true'] at hfixed
    subst hfixed
    simp only [isValid, PropertyFields.configurable, Bool.false_or, Bool.and_eq_true,
      agrees_iff] at hvalid
    obtain ⟨⟨hconfigurable, henumerable⟩, hkind⟩ := hvalid
    have hparts : desc.isData = false ∧ desc.get.getD get = get ∧ desc.set.getD set = set := by
      cases haccessor : desc.isAccessor with
      | false =>
        simp only [isAccessor, Bool.or_eq_false_iff, isSome_eq_false_iff,
          isNone_iff_eq_none] at haccessor
        refine ⟨?_, by rw [haccessor.1]; rfl, by rw [haccessor.2]; rfl⟩
        cases hdata : desc.isData with
        | false => rfl
        | true => simp [isGeneric, hdata] at hkind
      | true =>
        simp only [isGeneric, haccessor, Bool.not_true, Bool.false_and, Bool.false_or,
          Bool.and_eq_true, Bool.not_eq_true', agrees_iff] at hkind
        exact ⟨hkind.1.1, hkind.2, hkind.1.2⟩
    simp only [applyTo, hparts.1, hparts.2.1, hparts.2.2, henumerable,
      PropertyFields.configurable, getD_false_of_ne hconfigurable]
    rfl

theorem eq_of_validateAndApply_of_isFixed {extensible : Bool} (hdesc : desc.WellFormed)
    {next : PropertyFields α φ} (hfixed : current.isFixed = true)
    (hnext : validateAndApply undefined undefinedFunction extensible desc (some current) =
      some next) : next = current := by
  rw [validateAndApply_some] at hnext
  split at hnext
  · rename_i hvalid
    cases hnext
    exact applyTo_of_isFixed hdesc hfixed hvalid
  · cases hnext

end

end DescriptorFields

end Escargot.Foundation
