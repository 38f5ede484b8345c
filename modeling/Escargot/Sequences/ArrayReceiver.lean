/-
# Receivers of array builtins

An array in fast mode has its elements in slots, and its prototypes have no
elements. Every other object is an array-like whose elements are properties. A
builtin calls the same functions on both.
-/

import Escargot.Builtins.BuiltinArrayUnshift
import Escargot.Runtime.ArrayObject
import Escargot.Sequences.NextIndexForward

namespace Escargot.Builtins

open List Option Escargot.Runtime

/-- An array in fast mode: the slots of its raw storage, where `none` is Empty, and the ordinary
part of the object. -/
structure FastArray (α : Type) where
  slots : List (Option α)
  isLengthPropertyWritable : Bool
  rest : ArrayLike α
  fits : slots.length < 2 ^ 32
  clean : ∀ prototype ∈ rest.prototypes, prototype.isOrdinary = true ∧
    ∀ n, prototype.getOwnProperty (.index n) = none

/-- An object in one of its forms. -/
inductive ArrayReceiver (α : Type)
  | fast (a : FastArray α)
  | other (o : ArrayLike α)

/-- An object after a step, and the exception if there is one. `cannotDelete` is also the exception
of a definition that is rejected. -/
abbrev Receives (α : Type) := ArrayReceiver α × Option ArrayException

variable {α : Type} (slots : List (Option α)) (length : Nat)

/-- The slots of a storage that is resized. -/
def resize : List (Option α) := slots.take length ++ List.replicate (length - slots.length) none

theorem length_resize : (resize slots length).length = length := by
  rw [resize, length_append, length_take, length_replicate]
  omega

namespace FastArray

variable {α : Type} (a : FastArray α)

def withSlots (slots : List (Option α)) (h : slots.length < 2 ^ 32) : FastArray α :=
  { a with
    slots := slots
    fits := h }

def writeSlot (n : Nat) (value : Option α) : FastArray α :=
  a.withSlots (a.slots.set n value) (by rw [length_set]; exact a.fits)

def slot (n : Nat) : Option α := (a.slots[n]?).join

/-- A change of the ordinary part, for a key that is no array index. -/
def changeRest (rest : ArrayLike α) (h : rest.prototypes = a.rest.prototypes) : FastArray α :=
  { a with
    rest := rest
    clean := by
      rw [h]
      exact a.clean }

end FastArray

namespace ArrayLike

variable {α : Type} (o : ArrayLike α) (key : ArrayKey) (value : α)

/-- `defineOwnProperty` with a value and all attributes. -/
def define : ArrayLike α × Bool :=
  match o.getOwnProperty key with
  | some property =>
    if property.isConfigurable then (o.put key (.plain value), true) else (o, false)
  | none => o.create key value

theorem touches_define : Touches key o (o.define key value).1 := by
  rw [define]
  split
  · split
    · exact touches_put o key _
    · exact .refl key o
  · exact touches_create o key value

end ArrayLike

namespace ArrayReceiver

variable {α : Type} (n : Nat) (value : α) (o : ArrayReceiver α)

def hasIndexedProperty (n : Nat) : Option (Property α) :=
  match o with
  | .fast a =>
    if n < invalidIndexPropertyValue then ((a.slot n).map .plain).or (a.rest.inherited (.index n))
    else a.rest.hasProperty (.index n)
  | .other o => o.hasProperty (.index n)

/-- `setThrowsException` and `setIndexedPropertyThrowsException` of an index. -/
def setElement : Receives α :=
  match o with
  | .fast a =>
    if n < a.slots.length then (.fast (a.writeSlot n (some value)), none)
    else if h : n < invalidIndexPropertyValue then
      if a.rest.isExtensible ∧ a.isLengthPropertyWritable then
        (.fast (a.withSlots (resize a.slots n ++ [some value]) (by
          rw [length_append, length_resize]
          exact Nat.succ_lt_succ h)), none)
      else (.fast a, some (.cannotWrite (.index n)))
    else
      (.fast (a.changeRest (a.rest.set (.index n) value).1 (a.rest.touches_set _ _).prototypes),
        if (a.rest.set (.index n) value).2 then none else some (.cannotWrite (.index n)))
  | .other o => (.other (o.setThrowsException (.index n) value).1,
      (o.setThrowsException (.index n) value).2)

/-- `defineOwnPropertyThrowsException` of an index, with a value and all attributes. -/
def defineElement : Receives α :=
  match o with
  | .fast a =>
    if n < a.slots.length then (.fast (a.writeSlot n (some value)), none)
    else if h : n < invalidIndexPropertyValue then
      if a.rest.isExtensible ∧ a.isLengthPropertyWritable then
        (.fast (a.withSlots (resize a.slots n ++ [some value]) (by
          rw [length_append, length_resize]
          exact Nat.succ_lt_succ h)), none)
      else (.fast a, some (.cannotDelete (.index n)))
    else
      (.fast (a.changeRest (a.rest.define (.index n) value).1
        (a.rest.touches_define _ _).prototypes),
        if (a.rest.define (.index n) value).2 then none else some (.cannotDelete (.index n)))
  | .other o => (.other (o.define (.index n) value).1,
      if (o.define (.index n) value).2 then none else some (.cannotDelete (.index n)))

/-- `deleteOwnPropertyThrowsException` of an index. -/
def deleteElement : Receives α :=
  match o with
  | .fast a =>
    if n < a.slots.length then (.fast (a.writeSlot n none), none)
    else if n < invalidIndexPropertyValue then (.fast a, none)
    else
      (.fast (a.changeRest (a.rest.deleteOwnProperty (.index n)).1
        (a.rest.touches_deleteOwnProperty _).prototypes),
        if (a.rest.deleteOwnProperty (.index n)).2 then none else some (.cannotDelete (.index n)))
  | .other o => (.other (o.deleteOwnPropertyThrowsException (.index n)).1,
      (o.deleteOwnPropertyThrowsException (.index n)).2)

end ArrayReceiver

namespace UnshiftCall

variable {α : Type} (call : UnshiftCall α)

open ArrayReceiver

/-- `Object::length`. -/
def receiverLength : ArrayReceiver α → Nat
  | .fast a => a.slots.length
  | .other o => call.length o

variable (length : Nat) (o : ArrayReceiver α)

/-- `setThrowsException` of `length`. -/
def setReceiverLength : Receives α :=
  match o with
  | .fast a =>
    if !a.isLengthPropertyWritable then
      (.fast a, some (.cannotWrite (.string NonFastArray.lengthName)))
    else if h : length < 2 ^ 32 then
      (.fast (a.withSlots (resize a.slots length) (by rw [length_resize]; exact h)), none)
    else (.fast a, some .invalidArrayLength)
  | .other o => (.other (call.setLength length o).1, (call.setLength length o).2)

/-- The objects that the search for the next index goes through. -/
def enumerations : List EnumeratedObject :=
  match o with
  | .fast a =>
    ⟨true, call.numberOf NonFastArray.lengthName ::
      (((List.range a.slots.length).filter fun n => (a.slot n).isSome).map Int.ofNat ++
        a.rest.properties.filterMap fun item => NonFastArray.indexOfKey call.numberOf item.1)⟩ ::
      a.rest.prototypes.map fun prototype => ⟨prototype.isOrdinary, prototype.indices⟩
  | .other o =>
    call.enumeration o ::
      o.prototypes.map fun prototype => ⟨prototype.isOrdinary, prototype.indices⟩

/-- `Object::nextIndexForward` of the receiver. -/
def indexForward (cur stop : Nat) : Nat := (nextIndexForward (call.enumerations o) cur stop).toNat

/-- `Object::nextIndexBackward` of the receiver. -/
def indexBackward (cur stop : Nat) : Int := nextIndexBackward (call.enumerations o) cur stop

section Search

variable {o : ArrayReceiver α} {cur stop n : Nat}

/-- An element that the receiver has is enumerated, unless the search gives up. -/
theorem enumerated_of_hasIndexedProperty (h : (o.hasIndexedProperty n).isSome) :
    (∃ object ∈ call.enumerations o, (n : Int) ∈ object.indices) ∨
      ∃ object ∈ call.enumerations o, object.isOrdinary = false := by
  have hinherited : ∀ {rest : ArrayLike α}, (rest.inherited (.index n)).isSome →
      ∃ object ∈ rest.prototypes.map fun prototype =>
          (⟨prototype.isOrdinary, prototype.indices⟩ : EnumeratedObject),
        (n : Int) ∈ object.indices ∨ object.isOrdinary = false := by
    intro rest hsome
    rw [ArrayLike.inherited, findSome?_isSome_iff] at hsome
    obtain ⟨prototype, hmem, hsome⟩ := hsome
    refine ⟨_, List.mem_map_of_mem hmem, ?_⟩
    cases hordinary : prototype.isOrdinary with
    | false => exact .inr rfl
    | true => exact .inl (prototype.enumerated hordinary n hsome)
  have hown : ∀ {rest : ArrayLike α}, (rest.getOwnProperty (.index n)).isSome →
      (n : Int) ∈ rest.properties.filterMap fun item =>
        NonFastArray.indexOfKey call.numberOf item.1 :=
    fun hsome => (mem_filterMap_iff (n : Int)).mpr ⟨_, hsome, rfl⟩
  cases o with
  | other o =>
    change (o.hasProperty (.index n)).isSome at h
    rw [ArrayLike.hasProperty, isSome_or, Bool.or_eq_true] at h
    rcases h with h | h
    · exact .inl ⟨_, mem_cons_self, mem_append_right _ (hown h)⟩
    · obtain ⟨object, hmem, h | h⟩ := hinherited h
      · exact .inl ⟨object, mem_cons_of_mem _ hmem, h⟩
      · exact .inr ⟨object, mem_cons_of_mem _ hmem, h⟩
  | fast a =>
    rw [ArrayReceiver.hasIndexedProperty] at h
    split at h
    · rw [isSome_or, Bool.or_eq_true] at h
      rcases h with h | h
      · left
        refine ⟨_, mem_cons_self, mem_cons_of_mem _ (mem_append_left _ ?_)⟩
        apply List.mem_map_of_mem (f := Int.ofNat)
        rw [isSome_map] at h
        refine List.mem_filter.mpr ⟨List.mem_range.mpr ?_, h⟩
        by_contra hge
        rw [FastArray.slot, getElem?_eq_none (Nat.not_lt.mp hge)] at h
        cases h
      · obtain ⟨object, hmem, h | h⟩ := hinherited h
        · exact .inl ⟨object, mem_cons_of_mem _ hmem, h⟩
        · exact .inr ⟨object, mem_cons_of_mem _ hmem, h⟩
    · rw [ArrayLike.hasProperty, isSome_or, Bool.or_eq_true] at h
      rcases h with h | h
      · left
        exact ⟨_, mem_cons_self, mem_cons_of_mem _ (mem_append_right _ (hown h))⟩
      · obtain ⟨object, hmem, h | h⟩ := hinherited h
        · exact .inl ⟨object, mem_cons_of_mem _ hmem, h⟩
        · exact .inr ⟨object, mem_cons_of_mem _ hmem, h⟩

theorem indexForward_bounds (h : cur < stop) :
    cur < call.indexForward o cur stop ∧ call.indexForward o cur stop ≤ stop := by
  have hspec := nextIndexForward_spec (call.enumerations o) (show (cur : Int) + 1 ≤ stop by omega)
  rw [indexForward]
  omega

/-- There is no element between the position and what is found above it. -/
theorem hasIndexedProperty_of_lt_indexForward (h : cur < stop) (hlow : cur < n)
    (hhigh : n < call.indexForward o cur stop) : o.hasIndexedProperty n = none := by
  have hspec := nextIndexForward_spec (call.enumerations o) (show (cur : Int) + 1 ≤ stop by omega)
  by_contra hsome
  rw [indexForward] at hhigh
  rcases call.enumerated_of_hasIndexedProperty (Option.isSome_iff_ne_none.mpr hsome) with
    ⟨object, hmem, hindex⟩ | ⟨object, hmem, hordinary⟩
  · have hle := hspec.2.2 object hmem n hindex (by omega) (by omega)
    omega
  · have hstop : nextIndexForward (call.enumerations o) cur stop = min (stop : Int) (cur + 1) :=
      nextIndexForward_of_not_isOrdinary hmem hordinary
    omega

theorem indexBackward_le (h : stop ≤ cur) : call.indexBackward o cur stop ≤ cur :=
  nextIndexBackward_le (by omega)

theorem indexBackward_bounds (h : stop < cur) :
    stop ≤ call.indexBackward o cur stop ∧ call.indexBackward o cur stop < cur := by
  have hspec := nextIndexBackward_spec (call.enumerations o) (show (stop : Int) ≤ cur - 1 by omega)
  rw [indexBackward]
  omega

/-- There is no element between what is found below the position and the position. -/
theorem hasIndexedProperty_of_indexBackward_lt (h : stop < cur) (hhigh : n < cur)
    (hlow : call.indexBackward o cur stop < n) : o.hasIndexedProperty n = none := by
  have hspec := nextIndexBackward_spec (call.enumerations o) (show (stop : Int) ≤ cur - 1 by omega)
  by_contra hsome
  rw [indexBackward] at hlow
  rcases call.enumerated_of_hasIndexedProperty (Option.isSome_iff_ne_none.mpr hsome) with
    ⟨object, hmem, hindex⟩ | ⟨object, hmem, hordinary⟩
  · have hle := hspec.2.2 object hmem n hindex (by omega) (by omega)
    omega
  · rw [nextIndexBackward_of_not_isOrdinary hmem hordinary] at hlow
    omega

end Search

end UnshiftCall

end Escargot.Builtins
