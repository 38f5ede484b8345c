/-
# Array objects

An array is in fast mode, with its elements in the raw storage, or in non-fast
mode, with its elements as ordinary properties. Every operation has a path for
each mode. Both modes are compared step by step: as long as the raw storage
shows no stale element and overruns no buffer, a program cannot tell them apart.

No object of the prototype chain has an index property: fast mode is given up
for every array before one appears.
-/

import Escargot.Runtime.ArrayStorage
import Escargot.Runtime.ObjectProperty

namespace Escargot.Runtime

open List Option
open Function (update_eq_self_iff update_of_ne)

open Escargot.Foundation

/-- `Value::InvalidIndexPropertyValue`: array indices are below it. -/
def invalidIndexPropertyValue : Nat := 2 ^ 32 - 1

abbrev ArrayIndex := { n : Nat // n < invalidIndexPropertyValue }

/-- An array, in one of its modes. Keys are numbers, which name an element when
they are array indices and an ordinary property otherwise. -/
inductive ArrayObject (α : Type)
  | fast (object : OrdinaryObject Nat α) (isLengthPropertyWritable : Bool)
      (storage : FastModeStorage α)
  | nonFast (object : OrdinaryObject Nat α) (isLengthPropertyWritable : Bool)
      (arrayLength : Nat)

/-- What an operation answers: a truth value, a property that was read, a
length, the setter that was called, or an exception. -/
inductive ArrayResult (α : Type)
  | boolean (b : Bool)
  | property (p : Option (Property α))
  | length (n : Nat)
  | setterCalled (setter : α)
  | typeError
  | rangeError
  | done

namespace ArrayObject

variable {α : Type}

/-- `ESCARGOT_ARRAY_NON_FASTMODE_MIN_SIZE`. -/
def nonFastModeMinSize : Nat := 65536 * 16

/-- `ESCARGOT_ARRAY_NON_FASTMODE_START_MIN_GAP`. -/
def nonFastModeStartMinGap : Nat := 1024

/-- `maxSize` in `setArrayLength`. -/
def fastModeMaxSize : Nat := (2 ^ 32 - 1) / 2

def newFast : ArrayObject α := fast ⟨fun _ => none, true⟩ true (.empty none)

def newNonFast : ArrayObject α := nonFast ⟨fun _ => none, true⟩ true 0

def arrayLength : ArrayObject α → Nat
  | fast _ _ storage => storage.arrayLength
  | nonFast _ _ length => length

def object : ArrayObject α → OrdinaryObject Nat α
  | fast object _ _ => object
  | nonFast object _ _ => object

def isLengthPropertyWritable : ArrayObject α → Bool
  | fast _ writable _ => writable
  | nonFast _ writable _ => writable

def withObject : ArrayObject α → OrdinaryObject Nat α → ArrayObject α
  | fast _ writable storage, object => fast object writable storage
  | nonFast _ writable length, object => nonFast object writable length

/-- `ArrayObject::getVirtualValue` for numeric keys. -/
def getVirtualValue : ArrayObject α → Nat → Option (Property α)
  | fast _ _ storage, key =>
    if key < invalidIndexPropertyValue ∧ key < storage.arrayLength then
      (storage.fastModeData key).map .plain
    else none
  | nonFast _ _ _, _ => none

variable (a : ArrayObject α) (key : Nat)

def getOwnProperty : Option (Property α) :=
  match a.getVirtualValue key with
  | some property => some property
  | none => a.object.properties key

/-- `ArrayObject::getIndexedProperty`; `isDirect` says that the key value is a
number or a string, so that the fast path applies. -/
def getIndexedProperty (isDirect : Bool) : Option (Property α) :=
  match a with
  | fast _ _ storage =>
    if isDirect ∧ key < invalidIndexPropertyValue ∧ key < storage.arrayLength ∧
        (storage.fastModeData key).isSome then
      (storage.fastModeData key).map .plain
    else a.getOwnProperty key
  | nonFast _ _ _ => a.getOwnProperty key

def deleteOwnProperty (a : ArrayObject α) (key : Nat) : ArrayObject α × Bool :=
  match a with
  | fast object writable storage =>
    if key < invalidIndexPropertyValue ∧ key < storage.arrayLength then
      (fast object writable (storage.write key none), true)
    else
      let deleted := object.deleteOwnProperty key
      (fast deleted.1 writable storage, deleted.2)
  | nonFast object writable length =>
    let deleted := object.deleteOwnProperty key
    (nonFast deleted.1 writable length, deleted.2)

/-- `Object::nextIndexBackward`: the largest key below `cur` that has a property. -/
def nextIndexBackward (object : OrdinaryObject Nat α) : Nat → Option Nat
  | 0 => none
  | cur + 1 => if (object.properties cur).isSome then some cur else nextIndexBackward object cur

/-- The loop of `setArrayLength` in non-fast mode. It removes properties from the
end, and stops with the length left when one of them cannot be removed. Each
round lowers `oldLen`, so `oldLen` rounds are enough. -/
def shrinkLoop (newLen : Nat) : (rounds oldLen : Nat) → OrdinaryObject Nat α →
    OrdinaryObject Nat α × Option Nat
  | 0, _, object => (object, none)
  | rounds + 1, oldLen, object =>
    if newLen < oldLen then
      let key :=
        if (object.properties (oldLen - 1)).isSome then some (oldLen - 1)
        else nextIndexBackward object (oldLen - 1)
      match key with
      | none => (object, none)
      | some key =>
        if key < newLen then (object, none)
        else if (object.deleteOwnProperty key).2 then
          shrinkLoop newLen rounds key (object.deleteOwnProperty key).1
        else (object, some (key + 1))
    else (object, none)

/-- `setArrayLength` in non-fast mode. -/
def setNonFastLength (object : OrdinaryObject Nat α) (writable : Bool) (oldLen newLen : Nat) :
    ArrayObject α × Bool :=
  match shrinkLoop newLen oldLen oldLen object with
  | (left, none) => (nonFast left writable newLen, true)
  | (left, some blocked) => (nonFast left writable blocked, false)

def leavesFastMode (oldLength newLength : Nat) (considerHole : Bool) : Bool :=
  nonFastModeMinSize < newLength && considerHole && oldLength < newLength &&
    (nonFastModeStartMinGap < newLength - oldLength || fastModeMaxSize ≤ newLength)

section Operations

variable [PropertyValue α]

/-- `ArrayObject::convertIntoNonFastMode`. A fast mode array is extensible, so
the definitions never throw. -/
def convertIntoNonFastMode : ArrayObject α → ArrayObject α
  | fast object writable storage =>
    let define (o : OrdinaryObject Nat α) (i : Nat) :=
      match storage.fastModeData i with
      | none => o
      | some value => (o.defineOwnPropertyMethod i (.allPresent value)).1
    nonFast ((List.range storage.arrayLength).foldl define object) writable storage.arrayLength
  | a => a

section Storage

variable (build : BufferBuild) (garbage : Nat → Option α)

/-- `ArrayObject::setArrayLength`. A copy past the end of a buffer leaves no
defined state behind. -/
def setArrayLength (a : ArrayObject α) (newLength : Nat)
    (useFitStorage considerHole clearNewSlots : Bool) : Option (ArrayObject α × Bool) :=
  match a with
  | fast object writable storage =>
    if storage.arrayLength < newLength ∧ writable = false then some (a, false)
    else if leavesFastMode storage.arrayLength newLength considerHole then
      match a.convertIntoNonFastMode with
      | nonFast object writable length => some (setNonFastLength object writable length newLength)
      | converted => some (converted, true)
    else
      let resized := storage.setArrayLength build garbage newLength useFitStorage clearNewSlots
      if resized.2.all (fun copy => copy.fits) then
        let next := fast object writable resized.1
        if storage.arrayLength ≠ newLength ∧ writable = false then
          some (next.convertIntoNonFastMode, true)
        else some (next, true)
      else none
  | nonFast object writable length => some (setNonFastLength object writable length newLength)

variable (a : ArrayObject α) (newLen : Nat)
  (storage : FastModeStorage α) (key : Nat) (desc : ObjectPropertyDescriptor α)

/-- The part of `ArrayObject::defineOwnProperty` after the label `NonFastPath`. -/
def defineInNonFastPath : Option (ArrayObject α × Bool) :=
  let defined := a.object.defineOwnPropertyMethod key desc
  if key < invalidIndexPropertyValue then
    if a.arrayLength ≤ key ∧ a.isLengthPropertyWritable = false then some (a, false)
    else if defined.2 = false then some (a, false)
    else if a.arrayLength ≤ key then
      (a.withObject defined.1).setArrayLength build garbage (key + 1) false true true
    else some (a.withObject defined.1, true)
  else some (a.withObject defined.1, defined.2)

/-- The descriptor keeps the element of a fast mode array plain. -/
def staysPlain : Bool :=
  if key < storage.arrayLength ∧ (storage.fastModeData key).isSome then
    desc.isValuePresentAlone || desc.isDataWritableEnumerableConfigurable
  else desc.isDataWritableEnumerableConfigurable

variable (isUInt32 : Bool) (value : α)

/-- Grow a fast mode array to hold the key and write the element there, or go on
with the array as it is when it left fast mode. -/
def growAndWrite (otherwise : ArrayObject α → Option (ArrayObject α × ArrayResult α)) :
    Option (ArrayObject α × ArrayResult α) :=
  match a.setArrayLength build garbage (key + 1) false true true with
  | none => none
  | some (fast object writable storage, true) =>
    some (fast object writable (storage.write key (some value)), .boolean true)
  | some (next, _) => otherwise next

def answer : Option (ArrayObject α × Bool) → Option (ArrayObject α × ArrayResult α)
  | none => none
  | some (a, b) => some (a, .boolean b)

/-- `ArrayObject::defineOwnProperty` for numeric keys. -/
def defineOwnProperty : Option (ArrayObject α × ArrayResult α) :=
  match a with
  | fast object writable storage =>
    if key < invalidIndexPropertyValue then
      match staysPlain storage key desc, desc.value? with
      | true, some value =>
        if storage.arrayLength ≤ key then
          if object.isExtensible then
            a.growAndWrite build garbage key value fun next =>
              answer (next.defineInNonFastPath build garbage key desc)
          else answer (a.defineInNonFastPath build garbage key desc)
        else some (fast object writable (storage.write key (some value)), .boolean true)
      | _, _ => answer (a.convertIntoNonFastMode.defineInNonFastPath build garbage key desc)
    else answer (a.defineInNonFastPath build garbage key desc)
  | nonFast _ _ _ => answer (a.defineInNonFastPath build garbage key desc)

/-- `Object::set` with the array as the receiver. A key without own property is
looked up on the prototype chain, where there is none, and created. -/
def set : Option (ArrayObject α × ArrayResult α) :=
  match a.getOwnProperty key with
  | none => a.defineOwnProperty build garbage key (.allPresent value)
  | some (.data _ writable _ _) =>
    if writable then a.defineOwnProperty build garbage key (.valueAlone value)
    else some (a, .boolean false)
  | some (.accessor _ setter _ _) =>
    match setter with
    | none => some (a, .boolean false)
    | some f =>
      if PropertyValue.sameValue f (PropertyValue.undefined : α) then some (a, .boolean false)
      else some (a, .setterCalled f)

/-- `ArrayObject::setIndexedProperty`; `isUInt32` says that the key value is a
number that fits. -/
def setIndexedProperty : Option (ArrayObject α × ArrayResult α) :=
  match a with
  | fast object writable storage =>
    if isUInt32 ∧ key < invalidIndexPropertyValue then
      if storage.arrayLength ≤ key then
        if object.isExtensible then
          a.growAndWrite build garbage key value fun next => next.set build garbage key value
        else some (a, .boolean false)
      else some (fast object writable (storage.write key (some value)), .boolean true)
    else a.set build garbage key value
  | nonFast _ _ _ => a.set build garbage key value

/-- `ArrayObject::defineOwnProperty` of `length` with a descriptor that holds a
value alone. -/
def defineLength : Option (ArrayObject α × ArrayResult α) :=
  if 2 ^ 32 ≤ newLen then some (a, .rangeError)
  else if a.isLengthPropertyWritable = false ∧ a.arrayLength ≠ newLen then some (a, .boolean false)
  else if a.arrayLength ≠ newLen then
    answer (a.setArrayLength build garbage newLen false true true)
  else some (a, .boolean true)

/-- `Object::set` of `length`. -/
def setLength : Option (ArrayObject α × ArrayResult α) :=
  if a.isLengthPropertyWritable then a.defineLength build garbage newLen
  else some (a, .boolean false)

/-- The assignment `array.length = newLen` in a program: a fast mode array goes
to `ArrayObject::setArrayLength` with a `Value` at once. -/
def assignLength : Option (ArrayObject α × ArrayResult α) :=
  match a with
  | fast _ _ _ =>
    if 2 ^ 32 ≤ newLen then some (a, .rangeError)
    else answer (a.setArrayLength build garbage newLen true true true)
  | nonFast _ _ _ => a.setLength build garbage newLen

/-- The element loop of `builtinArrayPush`. -/
def pushLoop (a : ArrayObject α) (n : Nat) : List α → Option (ArrayObject α × ArrayResult α)
  | [] =>
    -- The final store to `length` fails only by an exception.
    match a.setLength build garbage n with
    | none => none
    | some (next, .rangeError) => some (next, .rangeError)
    | some (next, _) => some (next, .length n)
  | value :: values =>
    match a.setIndexedProperty build garbage n (n < 2 ^ 32) value with
    | none => none
    | some (next, .boolean false) => some (next, .typeError)
    | some (next, _) => next.pushLoop (n + 1) values

/-- The writes of `pushIntoFastModeElements`. -/
def writeAll (storage : FastModeStorage α) (start : Nat) : List α → FastModeStorage α
  | [] => storage
  | value :: values => writeAll (storage.write start (some value)) (start + 1) values

/-- `builtinArrayPush`. -/
def push (values : List α) : Option (ArrayObject α × ArrayResult α) :=
  let n := a.arrayLength
  match a with
  | fast object _ _ =>
    if values ≠ [] ∧ object.isExtensible ∧ n + values.length ≤ 2 ^ 32 - 1 then
      -- `pushIntoFastModeElements`
      match a.setArrayLength build garbage (n + values.length) false true false with
      | none => none
      | some (fast object writable storage, true) =>
        some (fast object writable (writeAll storage n values), .length (n + values.length))
      | some (next, _) => next.pushLoop build garbage n values
    else a.pushLoop build garbage n values
  | nonFast _ _ _ => a.pushLoop build garbage n values

inductive Operation (α : Type)
  | define (index : ArrayIndex) (desc : ObjectPropertyDescriptor α)
  | set (index : ArrayIndex) (isUInt32 : Bool) (value : α)
  | delete (index : ArrayIndex)
  | assignLength (newLen : Nat)
  | setLength (newLen : Nat)
  | defineLength (newLen : Nat)
  | push (values : List α)
  | get (index : ArrayIndex) (isDirect : Bool)
  | getLength
  | convertIntoNonFastMode

def apply : Operation α → Option (ArrayObject α × ArrayResult α)
  | .define index desc => a.defineOwnProperty build garbage index.1 desc
  | .set index isUInt32 value => a.setIndexedProperty build garbage index.1 isUInt32 value
  | .delete index =>
    some ((a.deleteOwnProperty index.1).1, .boolean (a.deleteOwnProperty index.1).2)
  | .assignLength newLen => a.assignLength build garbage newLen
  | .setLength newLen => a.setLength build garbage newLen
  | .defineLength newLen => a.defineLength build garbage newLen
  | .push values => a.push build garbage values
  | .get index isDirect => some (a, .property (a.getIndexedProperty index.1 isDirect))
  | .getLength => some (a, .length a.arrayLength)
  | .convertIntoNonFastMode => some (a.convertIntoNonFastMode, .done)

/-- What a program can see of an array: its length and its own properties. -/
def observe : Nat × (Nat → Option (Property α)) := (a.arrayLength, a.getOwnProperty)

/-- One operation, with all that can be seen afterwards. -/
def step (op : Operation α) :
    Option (ArrayObject α × (ArrayResult α × Nat × (Nat → Option (Property α)))) :=
  (a.apply build garbage op).map fun (next, result) => (next, result, next.observe)

end Storage

end Operations

def elements (object : OrdinaryObject Nat α) (storage : FastModeStorage α) (i : Nat) :
    Option (Property α) :=
  if i < storage.arrayLength then (storage.fastModeData i).map .plain else object.properties i

structure FastInvariant (object : OrdinaryObject Nat α) (writable : Bool)
    (storage : FastModeStorage α) : Prop where
  wellFormed : storage.WellFormed
  spare : storage.trackedCapacity ≠ 0 → FastModeStorage.exactAllocMaxLength < storage.arrayLength
  length_lt : storage.arrayLength < fastModeMaxSize
  noIndex : ∀ i < invalidIndexPropertyValue, object.properties i = none
  extensible : object.isExtensible = true
  lengthWritable : writable = true

def Invariant : ArrayObject α → Prop
  | fast object writable storage => FastInvariant object writable storage
  | nonFast _ _ _ => True

theorem newFast_invariant : (newFast : ArrayObject α).Invariant :=
  { wellFormed := FastModeStorage.empty_wellFormed none (.inl rfl)
    spare := fun h => (h rfl).elim
    length_lt := show 0 < fastModeMaxSize by decide
    noIndex := fun _ _ => rfl
    extensible := rfl
    lengthWritable := rfl }

theorem fastModeMaxSize_lt : fastModeMaxSize < invalidIndexPropertyValue := by decide

namespace FastInvariant

variable {object : OrdinaryObject Nat α} {writable : Bool} {storage : FastModeStorage α}

theorem length_lt_invalid (inv : FastInvariant object writable storage) :
    storage.arrayLength < invalidIndexPropertyValue :=
  inv.length_lt.trans fastModeMaxSize_lt

theorem write (inv : FastInvariant object writable storage) (key : Nat) (value : Option α) :
    FastInvariant object writable (storage.write key value) :=
  { inv with wellFormed := inv.wellFormed.write key value }

end FastInvariant

variable {storage : FastModeStorage α}

theorem getOwnProperty_fast {object : OrdinaryObject Nat α} {writable : Bool}
    (inv : FastInvariant object writable storage) (key : Nat) :
    (fast object writable storage).getOwnProperty key = elements object storage key := by
  have hlength := inv.length_lt_invalid
  simp only [getOwnProperty, getVirtualValue, elements, ArrayObject.object]
  by_cases hkey : key < storage.arrayLength
  · rw [if_pos ⟨hkey.trans hlength, hkey⟩, if_pos hkey]
    cases hslot : storage.fastModeData key with
    | none => exact inv.noIndex key (hkey.trans hlength)
    | some value => rfl
  · rw [if_neg (fun h => hkey h.2), if_neg hkey]

theorem elements_write {object : OrdinaryObject Nat α} {key : Nat}
    (hkey : key < storage.arrayLength) (value : Option α) :
    elements object (storage.write key value) =
      Function.update (elements object storage) key (value.map .plain) := by
  funext i
  by_cases hi : i = key
  · subst hi
    simp [elements, FastModeStorage.write, hkey]
  · simp [elements, FastModeStorage.write, update_of_ne hi]

variable [PropertyValue α]

theorem foldl_define {object : OrdinaryObject Nat α} (hext : object.isExtensible = true)
    (data : Nat → Option α) (n : Nat) (habsent : ∀ i < n, object.properties i = none) :
    (List.range n).foldl (fun o i =>
        match data i with
        | none => o
        | some value => (o.defineOwnPropertyMethod i (.allPresent value)).1) object =
      ⟨fun i => if i < n then (data i).map .plain else object.properties i, true⟩ := by
  induction n with
  | zero =>
    rw [← hext]
    rfl
  | succ n ih =>
    rw [range_succ, foldl_append, ih (fun i hi => habsent i (by omega))]
    simp only [foldl_cons, foldl_nil]
    cases hslot : data n with
    | none =>
      dsimp only
      congr 1
      funext i
      by_cases hi : i = n
      · subst hi
        simp [hslot, habsent i (by omega)]
      · simp only [show (i < n + 1) = (i < n) by rw [eq_iff_iff]; omega]
    | some value =>
      dsimp only
      rw [OrdinaryObject.defineOwnPropertyMethod_absent rfl (by simp [habsent n (by omega)])]
      simp only [OrdinaryObject.setProperty]
      congr 1
      funext i
      by_cases hi : i = n
      · subst hi
        simp [hslot]
        rfl
      · rw [update_of_ne hi]
        simp only [show (i < n + 1) = (i < n) by rw [eq_iff_iff]; omega]

theorem convertIntoNonFastMode_fast {object : OrdinaryObject Nat α} {writable : Bool}
    (inv : FastInvariant object writable storage) :
    (fast object writable storage).convertIntoNonFastMode =
      nonFast ⟨elements object storage, true⟩ true storage.arrayLength := by
  have hlength := inv.length_lt_invalid
  simp only [convertIntoNonFastMode, inv.lengthWritable]
  rw [foldl_define inv.extensible storage.fastModeData storage.arrayLength
    (fun i hi => inv.noIndex i (hi.trans hlength))]
  rfl

/-- Leaving fast mode changes neither the length nor any own property. -/
theorem observe_convertIntoNonFastMode {a : ArrayObject α} (inv : a.Invariant) :
    a.convertIntoNonFastMode.observe = a.observe := by
  cases a with
  | fast object writable storage =>
    rw [convertIntoNonFastMode_fast inv]
    unfold observe
    congr 1
    funext key
    rw [getOwnProperty_fast inv]
    rfl
  | nonFast => rfl

omit [PropertyValue α] in
theorem nextIndexBackward_eq_none {object : OrdinaryObject Nat α} {cur : Nat}
    (h : nextIndexBackward object cur = none) : ∀ i < cur, object.properties i = none := by
  induction cur with
  | zero => exact fun i hi => absurd hi (Nat.not_lt_zero i)
  | succ cur ih =>
    rw [nextIndexBackward] at h
    split at h
    · cases h
    · rename_i hnone
      intro i hi
      by_cases hcur : i = cur
      · exact hcur ▸ Option.not_isSome_iff_eq_none.mp hnone
      · exact ih h i (by omega)

omit [PropertyValue α] in
theorem nextIndexBackward_eq_some {object : OrdinaryObject Nat α} {cur key : Nat}
    (h : nextIndexBackward object cur = some key) :
    key < cur ∧ (object.properties key).isSome ∧
      ∀ i, key < i → i < cur → object.properties i = none := by
  induction cur with
  | zero => cases h
  | succ cur ih =>
    rw [nextIndexBackward] at h
    split at h
    · rename_i hsome
      cases h
      exact ⟨by omega, hsome, fun i _ _ => by omega⟩
    · rename_i hnone
      obtain ⟨hlt, hsome, hbetween⟩ := ih h
      refine ⟨by omega, hsome, fun i hkey hcur => ?_⟩
      by_cases hi : i = cur
      · exact hi ▸ Option.not_isSome_iff_eq_none.mp hnone
      · exact hbetween i hkey (by omega)

/-- The object without its properties in `[start, stop)`. -/
def removeRange (object : OrdinaryObject Nat α) (start stop : Nat) : OrdinaryObject Nat α :=
  { object with
    properties := fun i => if start ≤ i ∧ i < stop then none else object.properties i }

section

omit [PropertyValue α]

theorem removeRange_eq_self {object : OrdinaryObject Nat α} {start stop : Nat}
    (habsent : ∀ i, start ≤ i → i < stop → object.properties i = none) :
    removeRange object start stop = object := by
  ext1
  · funext i
    simp only [removeRange]
    split
    · rename_i hi
      exact (habsent i hi.1 hi.2).symm
    · rfl
  · rfl

theorem removeRange_setProperty {object : OrdinaryObject Nat α} {start key stop : Nat}
    (hstart : start ≤ key) (hstop : key < stop)
    (habove : ∀ i, key < i → i < stop → object.properties i = none) :
    removeRange (object.setProperty key none) start key = removeRange object start stop := by
  ext1
  · funext i
    simp only [removeRange, OrdinaryObject.setProperty]
    by_cases hi : i = key
    · subst hi
      simp [hstart, hstop]
    · rw [update_of_ne hi]
      by_cases hlow : start ≤ i ∧ i < key
      · rw [if_pos hlow, if_pos (by omega)]
      · rw [if_neg hlow]
        split
        · exact habove i (by omega) (by omega)
        · rfl
  · rfl

theorem shrinkLoop_eq {newLen : Nat} (rounds : Nat) {oldLen : Nat} {object : OrdinaryObject Nat α}
    (hrounds : oldLen ≤ rounds)
    (hconfigurable : ∀ i property, newLen ≤ i → i < oldLen →
      object.properties i = some property → property.isConfigurable = true) :
    shrinkLoop newLen rounds oldLen object = (removeRange object newLen oldLen, none) := by
  induction rounds generalizing oldLen object with
  | zero => rw [shrinkLoop, removeRange_eq_self (fun i _ _ => by omega)]
  | succ rounds ih =>
    rw [shrinkLoop]
    split
    · rename_i hlt
      have htop : (if (object.properties (oldLen - 1)).isSome then some (oldLen - 1)
          else nextIndexBackward object (oldLen - 1)) = nextIndexBackward object oldLen := by
        obtain ⟨n, rfl⟩ : ∃ n, oldLen = n + 1 := ⟨oldLen - 1, by omega⟩
        rfl
      rw [htop]
      cases hnext : nextIndexBackward object oldLen with
      | none =>
        have habsent := nextIndexBackward_eq_none hnext
        rw [removeRange_eq_self (fun i _ hi => habsent i hi)]
      | some key =>
        -- The key is the last one with a property: those above are absent.
        obtain ⟨hkey, hsome, habove⟩ := nextIndexBackward_eq_some hnext
        dsimp only
        split
        · rw [removeRange_eq_self (fun i hlow hi => habove i (by omega) hi)]
        · rename_i hinside
          obtain ⟨property, hproperty⟩ := Option.isSome_iff_exists.mp hsome
          have hdelete : object.deleteOwnProperty key = (object.setProperty key none, true) := by
            simp only [OrdinaryObject.deleteOwnProperty, hproperty,
              hconfigurable key property (by omega) hkey hproperty, if_true]
          rw [hdelete, if_pos rfl, ih (by omega), removeRange_setProperty (by omega) hkey habove]
          intro i other hlow hhigh hother
          simp only [OrdinaryObject.setProperty] at hother
          rw [update_of_ne (by omega)] at hother
          exact hconfigurable i other hlow (by omega) hother
    · rw [removeRange_eq_self (fun i _ _ => by omega)]

theorem setNonFastLength_grow (object : OrdinaryObject Nat α) (writable : Bool)
    {oldLen newLen : Nat} (hgrow : oldLen ≤ newLen) :
    setNonFastLength object writable oldLen newLen = (nonFast object writable newLen, true) := by
  rw [setNonFastLength, shrinkLoop_eq oldLen le_rfl (fun i _ hlow hhigh => by omega),
    removeRange_eq_self (fun i _ _ => by omega)]

end

section Resize

variable {build : BufferBuild} {garbage : Nat → Option α}
variable {object : OrdinaryObject Nat α} {writable : Bool} {storage : FastModeStorage α}
  {newLength : Nat} {useFitStorage clearNewSlots : Bool}

section

variable (inv : FastInvariant object writable storage)
include inv

theorem setArrayLength_stays {considerHole : Bool}
    (hstay : leavesFastMode storage.arrayLength newLength considerHole = false)
    (hfits : ¬ storage.overruns build newLength useFitStorage) :
    (fast object writable storage).setArrayLength build garbage newLength useFitStorage
        considerHole clearNewSlots =
      some (fast object writable
        (storage.setArrayLength build garbage newLength useFitStorage clearNewSlots).1, true) := by
  have hcopies := (FastModeStorage.copies_fit_iff build garbage storage newLength useFitStorage
    clearNewSlots).mpr hfits
  have hall : (storage.setArrayLength build garbage newLength useFitStorage clearNewSlots).2.all
      (fun copy => copy.fits) = true := by
    cases hcopy : (storage.setArrayLength build garbage newLength useFitStorage clearNewSlots).2 with
    | none => rfl
    | some copy => exact decide_eq_true (hcopies copy hcopy)
  simp only [setArrayLength, hstay, hall, inv.lengthWritable, Bool.true_eq_false, and_false,
    Bool.false_eq_true, if_false, if_true]

theorem setArrayLength_leaves {considerHole : Bool}
    (hleave : leavesFastMode storage.arrayLength newLength considerHole = true) :
    (fast object writable storage).setArrayLength build garbage newLength useFitStorage
        considerHole clearNewSlots =
      some (nonFast ⟨elements object storage, true⟩ true newLength, true) := by
  have hgrow : storage.arrayLength ≤ newLength := by
    simp only [leavesFastMode, Bool.and_eq_true, decide_eq_true_eq] at hleave
    omega
  simp only [setArrayLength, hleave, inv.lengthWritable, Bool.true_eq_false, and_false, if_false,
    if_true]
  have hconvert := convertIntoNonFastMode_fast inv
  rw [inv.lengthWritable] at hconvert
  rw [hconvert]
  dsimp only
  rw [setNonFastLength_grow _ _ hgrow]

omit [PropertyValue α] in
theorem FastInvariant.resize (hstay : leavesFastMode storage.arrayLength newLength true = false)
    (useFitStorage clearNewSlots : Bool) :
    FastInvariant object writable
      (storage.setArrayLength build garbage newLength useFitStorage clearNewSlots).1 where
  wellFormed := inv.wellFormed.setArrayLength build garbage newLength useFitStorage clearNewSlots
  spare := by
    rw [FastModeStorage.setArrayLength_arrayLength]
    exact FastModeStorage.setArrayLength_spare build garbage inv.spare newLength useFitStorage
      clearNewSlots
  length_lt := by
    have hold := inv.length_lt
    rw [FastModeStorage.setArrayLength_arrayLength]
    simp only [leavesFastMode, Bool.and_eq_false_iff, Bool.or_eq_false_iff,
      decide_eq_false_iff_not, Bool.true_eq_false, or_false] at hstay
    rcases hstay with (hsmall | hshrink) | hbound
    · exact lt_of_le_of_lt (Nat.le_of_not_lt hsmall) (by decide)
    · omega
    · omega
  noIndex := inv.noIndex
  extensible := inv.extensible
  lengthWritable := inv.lengthWritable

omit [PropertyValue α] in
theorem elements_resize (hvalid : newLength ≤ invalidIndexPropertyValue)
    (hclean : ¬ storage.exposesStale build newLength useFitStorage clearNewSlots) :
    (⟨elements object
        (storage.setArrayLength build garbage newLength useFitStorage clearNewSlots).1, true⟩ :
        OrdinaryObject Nat α) =
      removeRange ⟨elements object storage, true⟩ newLength storage.arrayLength := by
  have hlength := inv.length_lt_invalid
  have hnew := (FastModeStorage.new_slots_empty_iff inv.wellFormed build garbage newLength
    useFitStorage clearNewSlots).mpr hclean
  ext1
  · funext i
    simp only [removeRange, elements, FastModeStorage.setArrayLength_arrayLength]
    by_cases hi : i < newLength
    · rw [if_pos hi, if_neg (by omega)]
      by_cases hold : i < storage.arrayLength
      · rw [if_pos hold, FastModeStorage.setArrayLength_keeps inv.wellFormed build garbage
          useFitStorage clearNewSlots hold hi]
      · rw [if_neg hold, hnew i (by omega) hi, inv.noIndex i (by omega)]
        rfl
    · rw [if_neg hi]
      by_cases hold : i < storage.arrayLength
      · rw [if_pos ⟨by omega, hold⟩, inv.noIndex i (by omega)]
      · rw [if_neg (by omega), if_neg hold]
  · rfl

end

omit [PropertyValue α] in
theorem setNonFastLength_elements (newLen : Nat) :
    setNonFastLength ⟨elements object storage, true⟩ true storage.arrayLength newLen =
      (nonFast (removeRange ⟨elements object storage, true⟩ newLen storage.arrayLength) true newLen,
        true) := by
  rw [setNonFastLength, shrinkLoop_eq storage.arrayLength le_rfl]
  intro i property _ hi hproperty
  simp only [elements, if_pos hi, map_eq_some_iff] at hproperty
  obtain ⟨value, -, rfl⟩ := hproperty
  rfl

/-- The array behaves on the function as its non-fast form does. -/
def Commutes {β : Type} (f : ArrayObject α → Option (ArrayObject α × β)) (a : ArrayObject α) :
    Prop :=
  ∃ next out, f a = some (next, out) ∧
    f a.convertIntoNonFastMode = some (next.convertIntoNonFastMode, out) ∧ next.Invariant

theorem Commutes.of_nonFast {β : Type} {f : ArrayObject α → Option (ArrayObject α × β)}
    {length length' : Nat} {object' : OrdinaryObject Nat α} {writable' : Bool} {out : β}
    (h : f (nonFast object writable length) = some (nonFast object' writable' length', out)) :
    Commutes f (nonFast object writable length) :=
  ⟨nonFast object' writable' length', out, h, h, trivial⟩

variable (build garbage) in
theorem setArrayLength_commutes (inv : FastInvariant object writable storage) (newLength : Nat)
    (hvalid : newLength ≤ invalidIndexPropertyValue)
    (hguard : leavesFastMode storage.arrayLength newLength true = true ∨
      ¬ storage.exposesStale build newLength useFitStorage clearNewSlots ∧
        ¬ storage.overruns build newLength useFitStorage)
    (useFitStorage' considerHole' clearNewSlots' : Bool) :
    ∃ next, (fast object writable storage).setArrayLength build garbage newLength useFitStorage true
        clearNewSlots = some (next, true) ∧
      (fast object writable storage).convertIntoNonFastMode.setArrayLength build garbage newLength
        useFitStorage' considerHole' clearNewSlots' = some (next.convertIntoNonFastMode, true) ∧
      next.Invariant := by
  rw [convertIntoNonFastMode_fast inv]
  simp only [show ∀ o w n, (nonFast o w n : ArrayObject α).setArrayLength build garbage newLength
    useFitStorage' considerHole' clearNewSlots' = some (setNonFastLength o w n newLength)
    from fun _ _ _ => rfl]
  cases hleave : leavesFastMode storage.arrayLength newLength true with
  | true =>
    have hgrow : storage.arrayLength ≤ newLength := by
      simp only [leavesFastMode, Bool.and_eq_true, decide_eq_true_eq] at hleave
      omega
    refine ⟨_, setArrayLength_leaves inv hleave, ?_, trivial⟩
    rw [setNonFastLength_grow _ _ hgrow]
    rfl
  | false =>
    obtain ⟨hclean, hfits⟩ := hguard.resolve_left (by simp [hleave])
    have hresize : FastInvariant object writable
        (storage.setArrayLength build garbage newLength useFitStorage clearNewSlots).1 :=
      inv.resize hleave useFitStorage clearNewSlots
    refine ⟨_, setArrayLength_stays inv hleave hfits, ?_, hresize⟩
    rw [setNonFastLength_elements, convertIntoNonFastMode_fast hresize,
      elements_resize inv hvalid hclean, FastModeStorage.setArrayLength_arrayLength]

end Resize

section NonFast

variable (build : BufferBuild) (garbage : Nat → Option α)
variable (object : OrdinaryObject Nat α) (writable : Bool) (length : Nat)

def ReturnsNonFast {β : Type} (result : Option (ArrayObject α × β)) : Prop :=
  ∃ object writable length out, result = some (nonFast object writable length, out)

variable (newLen : Nat)

omit [PropertyValue α] in
theorem setNonFastLength_returns :
    ReturnsNonFast (some (setNonFastLength object writable length newLen)) := by
  unfold setNonFastLength
  split
  · exact ⟨_, _, _, _, rfl⟩
  · exact ⟨_, _, _, _, rfl⟩

omit [PropertyValue α] in
theorem ReturnsNonFast.answer {result : Option (ArrayObject α × Bool)}
    (h : ReturnsNonFast result) : ReturnsNonFast (ArrayObject.answer result) := by
  obtain ⟨object, writable, length, out, rfl⟩ := h
  exact ⟨object, writable, length, .boolean out, rfl⟩

theorem defineInNonFastPath_returns (key : Nat) (desc : ObjectPropertyDescriptor α) : ReturnsNonFast
      ((nonFast object writable length).defineInNonFastPath build garbage key desc) := by
  unfold defineInNonFastPath
  dsimp only
  split
  · split
    · exact ⟨_, _, _, _, rfl⟩
    · split
      · exact ⟨_, _, _, _, rfl⟩
      · split
        · exact setNonFastLength_returns _ _ _ _
        · exact ⟨_, _, _, _, rfl⟩
  · exact ⟨_, _, _, _, rfl⟩

theorem set_returns (key : Nat) (value : α) :
    ReturnsNonFast ((nonFast object writable length).set build garbage key value) := by
  unfold set
  split
  · exact (defineInNonFastPath_returns build garbage object writable length key _).answer
  · split
    · exact (defineInNonFastPath_returns build garbage object writable length key _).answer
    · exact ⟨_, _, _, _, rfl⟩
  · split
    · exact ⟨_, _, _, _, rfl⟩
    · split
      · exact ⟨_, _, _, _, rfl⟩
      · exact ⟨_, _, _, _, rfl⟩

theorem defineLength_returns :
    ReturnsNonFast ((nonFast object writable length).defineLength build garbage newLen) := by
  unfold defineLength
  split
  · exact ⟨_, _, _, _, rfl⟩
  · split
    · exact ⟨_, _, _, _, rfl⟩
    · split
      · exact (setNonFastLength_returns object writable length newLen).answer
      · exact ⟨_, _, _, _, rfl⟩

theorem setLength_returns :
    ReturnsNonFast ((nonFast object writable length).setLength build garbage newLen) := by
  unfold setLength
  split
  · exact defineLength_returns build garbage object writable length newLen
  · exact ⟨_, _, _, _, rfl⟩

theorem pushLoop_returns (n : Nat) (values : List α) :
    ReturnsNonFast ((nonFast object writable length).pushLoop build garbage n values) := by
  induction values generalizing object writable length n with
  | nil =>
    obtain ⟨object', writable', length', out, h⟩ :=
      setLength_returns build garbage object writable length n
    rw [pushLoop, h]
    cases out <;> exact ⟨_, _, _, _, rfl⟩
  | cons value values ih =>
    obtain ⟨object', writable', length', out, h⟩ :=
      set_returns build garbage object writable length n value
    have hset : (nonFast object writable length).setIndexedProperty build garbage n
        (decide (n < 2 ^ 32)) value = some (nonFast object' writable' length', out) := h
    rw [pushLoop, hset]
    split
    · rename_i heq
      cases heq
    · rename_i heq
      cases heq
      exact ⟨_, _, _, _, rfl⟩
    · rename_i heq
      cases heq
      exact ih _ _ _ _

theorem apply_returns (op : Operation α) :
    ReturnsNonFast ((nonFast object writable length).apply build garbage op) := by
  cases op with
  | define index desc =>
    exact (defineInNonFastPath_returns build garbage object writable length index.1 desc).answer
  | set index isUInt32 value => exact set_returns build garbage object writable length index.1 value
  | delete => exact ⟨_, _, _, _, rfl⟩
  | assignLength newLen => exact setLength_returns build garbage object writable length newLen
  | setLength newLen => exact setLength_returns build garbage object writable length newLen
  | defineLength newLen => exact defineLength_returns build garbage object writable length newLen
  | push values => exact pushLoop_returns build garbage object writable length length values
  | get => exact ⟨_, _, _, _, rfl⟩
  | getLength => exact ⟨_, _, _, _, rfl⟩
  | convertIntoNonFastMode => exact ⟨_, _, _, _, rfl⟩

end NonFast

section Operations

variable (build : BufferBuild) (garbage : Nat → Option α)
variable {object : OrdinaryObject Nat α} {writable : Bool} {storage : FastModeStorage α}
variable {properties : Nat → Option (Property α)} {length key : Nat}

theorem defineInNonFastPath_absent (hkey : key < invalidIndexPropertyValue)
    (habsent : properties key = none) (desc : ObjectPropertyDescriptor α) :
    (nonFast ⟨properties, true⟩ true length).defineInNonFastPath build garbage key desc =
      some (nonFast ⟨Function.update properties key (some desc.toProperty), true⟩ true
        (max length (key + 1)), true) := by
  simp only [defineInNonFastPath, ArrayObject.object, arrayLength, isLengthPropertyWritable,
    OrdinaryObject.defineOwnPropertyMethod_absent (o := ⟨properties, true⟩) rfl habsent,
    if_pos hkey, Bool.true_eq_false, and_false, if_false]
  by_cases hlength : length ≤ key
  · rw [if_pos hlength, Nat.max_eq_right (by omega)]
    exact congrArg some (setNonFastLength_grow _ _ (by omega))
  · rw [if_neg hlength, Nat.max_eq_left (by omega)]
    rfl

theorem defineInNonFastPath_plain {old new : α} (hkey : key < invalidIndexPropertyValue)
    (hplain : properties key = some (.plain old)) (hlength : key < length)
    {desc : ObjectPropertyDescriptor α} (hvalue : desc.value? = some new)
    (hdesc : desc.isValuePresentAlone = true ∨ desc.isDataWritableEnumerableConfigurable = true) :
    (nonFast ⟨properties, true⟩ true length).defineInNonFastPath build garbage key desc =
      some (nonFast ⟨Function.update properties key (some (.plain new)), true⟩ true length,
        true) := by
  simp only [defineInNonFastPath, ArrayObject.object, arrayLength, isLengthPropertyWritable,
    OrdinaryObject.defineOwnPropertyMethod_plain (o := ⟨properties, true⟩) hplain hvalue hdesc,
    if_pos hkey, Bool.true_eq_false, and_false, if_false, if_neg (Nat.not_le.mpr hlength)]
  rfl

theorem set_absent (hkey : key < invalidIndexPropertyValue) (habsent : properties key = none)
    (value : α) :
    (nonFast ⟨properties, true⟩ true length).set build garbage key value =
      some (nonFast ⟨Function.update properties key (some (.plain value)), true⟩ true
        (max length (key + 1)), .boolean true) := by
  have hown : (nonFast ⟨properties, true⟩ true length).getOwnProperty key = none := habsent
  rw [set, hown]
  exact congrArg answer (defineInNonFastPath_absent build garbage hkey habsent (.allPresent value))

theorem set_plain {old : α} (hkey : key < invalidIndexPropertyValue)
    (hplain : properties key = some (.plain old)) (hlength : key < length) (value : α) :
    (nonFast ⟨properties, true⟩ true length).set build garbage key value =
      some (nonFast ⟨Function.update properties key (some (.plain value)), true⟩ true length,
        .boolean true) := by
  have hown : (nonFast ⟨properties, true⟩ true length).getOwnProperty key = some (.plain old) :=
    hplain
  rw [set, hown]
  exact congrArg answer (defineInNonFastPath_plain build garbage hkey hplain hlength rfl (.inl rfl))

section

variable (inv : FastInvariant object writable storage)
include inv

omit [PropertyValue α] in
theorem elements_eq_none_of_le (hkey : key < invalidIndexPropertyValue)
    (hlength : storage.arrayLength ≤ key) :
    elements object storage key = none := by
  rw [elements, if_neg (by omega), inv.noIndex key hkey]

theorem convertIntoNonFastMode_write (hlength : key < storage.arrayLength) (value : Option α) :
    (fast object writable (storage.write key value)).convertIntoNonFastMode =
      nonFast ⟨Function.update (elements object storage) key (value.map .plain), true⟩ true
        storage.arrayLength := by
  rw [convertIntoNonFastMode_fast (inv.write key value), elements_write hlength]
  rfl

section

variable (hkey : key < invalidIndexPropertyValue)
include hkey

theorem growAndWrite_eq (hlength : storage.arrayLength ≤ key) (value : α)
    (otherwise : ArrayObject α → Option (ArrayObject α × ArrayResult α))
    (hotherwise : otherwise (nonFast ⟨elements object storage, true⟩ true (key + 1)) =
      some (nonFast ⟨Function.update (elements object storage) key (some (.plain value)), true⟩
        true (key + 1), .boolean true)) :
    ∃ next, (fast object writable storage).growAndWrite build garbage key value otherwise =
        some (next, .boolean true) ∧
      next.convertIntoNonFastMode =
        nonFast ⟨Function.update (elements object storage) key (some (.plain value)), true⟩ true
          (key + 1) ∧
      next.Invariant ∧ next.arrayLength = key + 1 := by
  unfold growAndWrite
  cases hleave : leavesFastMode storage.arrayLength (key + 1) true with
  | true =>
    rw [setArrayLength_leaves inv hleave]
    exact ⟨_, hotherwise, rfl, trivial, rfl⟩
  | false =>
    have hfits : ¬ storage.overruns build (key + 1) false :=
      FastModeStorage.not_overruns_of_le (by omega) false
    have hclean : ¬ storage.exposesStale build (key + 1) false true := fun h =>
      FastModeStorage.not_keepsSpareSlots_of_lt inv.spare (by omega) h.1
    have hresize : FastInvariant object writable
        (storage.setArrayLength build garbage (key + 1) false true).1 :=
      inv.resize hleave false true
    have hgrown : key <
        (storage.setArrayLength build garbage (key + 1) false true).1.arrayLength := by
      rw [FastModeStorage.setArrayLength_arrayLength]
      omega
    have helements : elements object (storage.setArrayLength build garbage (key + 1) false true).1
        = elements object storage := by
      have hsame : (⟨elements object
          (storage.setArrayLength build garbage (key + 1) false true).1, true⟩ :
          OrdinaryObject Nat α) = _ := elements_resize inv (by omega) hclean
      rw [removeRange_eq_self (fun i _ _ => by omega)] at hsame
      exact congrArg OrdinaryObject.properties hsame
    rw [setArrayLength_stays inv hleave hfits]
    refine ⟨_, rfl, ?_, hresize.write key (some value),
      FastModeStorage.setArrayLength_arrayLength build garbage storage (key + 1) false true⟩
    rw [convertIntoNonFastMode_write hresize hgrown, helements,
      FastModeStorage.setArrayLength_arrayLength]
    rfl

theorem define_commutes (desc : ObjectPropertyDescriptor α) :
    Commutes (fun a => a.defineOwnProperty build garbage key desc)
      (fast object writable storage) := by
  have hslow : (fast object writable storage).convertIntoNonFastMode.defineOwnProperty build
      garbage key desc = answer ((nonFast ⟨elements object storage, true⟩ true
          storage.arrayLength).defineInNonFastPath build garbage key desc) := by
    rw [convertIntoNonFastMode_fast inv]
    rfl
  unfold Commutes
  dsimp only
  rw [hslow]
  simp only [defineOwnProperty, if_pos hkey, inv.extensible, if_true]
  split
  · rename_i value hplain hvalue
    by_cases hlength : storage.arrayLength ≤ key
    · -- A new last element: the descriptor has all attributes.
      have hdesc : desc.isDataWritableEnumerableConfigurable = true := by
        rw [staysPlain, if_neg (by omega)] at hplain
        exact hplain
      have habsent := elements_eq_none_of_le inv hkey hlength
      have hproperty := OrdinaryObject.toProperty_eq_plain hvalue hdesc
      have hpast : ∀ n, (nonFast ⟨elements object storage, true⟩ true n).defineInNonFastPath build
          garbage key desc = _ := fun n =>
        defineInNonFastPath_absent build garbage hkey habsent desc
      simp only [hproperty] at hpast
      obtain ⟨next, hgrow, hconvert, hnext, -⟩ :=
        growAndWrite_eq build garbage inv hkey hlength value
          (fun next => answer (next.defineInNonFastPath build garbage key desc))
          (by rw [hpast, Nat.max_self]; rfl)
      rw [if_pos hlength, hpast, Nat.max_eq_right (by omega)]
      exact ⟨next, _, hgrow, by rw [hconvert]; rfl, hnext⟩
    · have hlength' : key < storage.arrayLength := by omega
      have hconvert := convertIntoNonFastMode_write inv hlength' (some value)
      rw [if_neg hlength]
      refine ⟨_, _, rfl, ?_, inv.write key (some value)⟩
      rw [hconvert]
      have helement : elements object storage key = (storage.fastModeData key).map .plain :=
        if_pos hlength'
      cases hslot : storage.fastModeData key with
      | none =>
        have hdesc : desc.isDataWritableEnumerableConfigurable = true := by
          rw [staysPlain, if_neg (by simp [hslot])] at hplain
          exact hplain
        rw [hslot] at helement
        rw [defineInNonFastPath_absent build garbage hkey helement,
          OrdinaryObject.toProperty_eq_plain hvalue hdesc, Nat.max_eq_left (by omega)]
        rfl
      | some old =>
        have hdesc : desc.isValuePresentAlone = true ∨
            desc.isDataWritableEnumerableConfigurable = true := by
          rw [staysPlain, if_pos ⟨hlength', by simp [hslot]⟩] at hplain
          exact (Bool.or_eq_true _ _).mp hplain
        rw [hslot] at helement
        rw [defineInNonFastPath_plain build garbage hkey helement hlength' hvalue hdesc]
        rfl
  · -- The descriptor ends fast mode first.
    rw [convertIntoNonFastMode_fast inv]
    obtain ⟨object', writable', length', out, h⟩ :=
      (defineInNonFastPath_returns build garbage ⟨elements object storage, true⟩ true
        storage.arrayLength key desc).answer
    exact ⟨_, _, h, h, trivial⟩

theorem set_commutes (value : α) :
    Commutes (fun a => a.set build garbage key value) (fast object writable storage) := by
  have hown : (fast object writable storage).convertIntoNonFastMode.getOwnProperty key =
      (fast object writable storage).getOwnProperty key := by
    exact congrFun (congrArg Prod.snd
      (observe_convertIntoNonFastMode (a := fast object writable storage) inv)) key
  unfold Commutes set
  dsimp only
  rw [hown]
  split
  · exact define_commutes build garbage inv hkey (.allPresent value)
  · split
    · exact define_commutes build garbage inv hkey (.valueAlone value)
    · exact ⟨_, _, rfl, rfl, inv⟩
  · split
    · exact ⟨_, _, rfl, rfl, inv⟩
    · split
      · exact ⟨_, _, rfl, rfl, inv⟩
      · exact ⟨_, _, rfl, rfl, inv⟩

theorem setIndexedProperty_append (hlength : storage.arrayLength ≤ key) (value : α) :
    ∃ next, (fast object writable storage).setIndexedProperty build garbage key true value =
        some (next, .boolean true) ∧
      (fast object writable storage).convertIntoNonFastMode.setIndexedProperty build garbage key
        true value = some (next.convertIntoNonFastMode, .boolean true) ∧
      next.Invariant ∧ next.arrayLength = key + 1 := by
  have habsent := elements_eq_none_of_le inv hkey hlength
  have hset : ∀ n, (nonFast ⟨elements object storage, true⟩ true n).set build garbage key value =
      _ := fun n => set_absent build garbage hkey habsent value
  obtain ⟨next, hgrow, hconvert, hnext, hsize⟩ :=
    growAndWrite_eq build garbage inv hkey hlength value
      (fun next => next.set build garbage key value) (by rw [hset, Nat.max_self])
  refine ⟨next, ?_, ?_, hnext, hsize⟩
  · simp only [setIndexedProperty, hkey, hlength, inv.extensible, and_self, if_true]
    exact hgrow
  · rw [hconvert, convertIntoNonFastMode_fast inv]
    exact (hset storage.arrayLength).trans (by rw [Nat.max_eq_right (by omega)])

theorem setIndexedProperty_commutes (isUInt32 : Bool) (value : α) :
    Commutes (fun a => a.setIndexedProperty build garbage key isUInt32 value)
      (fast object writable storage) := by
  have hslow : (fast object writable storage).convertIntoNonFastMode.setIndexedProperty build
      garbage key isUInt32 value =
        (fast object writable storage).convertIntoNonFastMode.set build garbage key value := by
    rw [convertIntoNonFastMode_fast inv]
    rfl
  cases isUInt32 with
  | false =>
    unfold Commutes
    dsimp only
    simp only [setIndexedProperty, Bool.false_eq_true, false_and, if_false]
    exact set_commutes build garbage inv hkey value
  | true =>
    by_cases hlength : storage.arrayLength ≤ key
    · obtain ⟨next, hfast, hnonFast, hnext, -⟩ :=
        setIndexedProperty_append build garbage inv hkey hlength value
      exact ⟨next, _, hfast, hnonFast, hnext⟩
    · have hlength' : key < storage.arrayLength := by omega
      have helement : elements object storage key = (storage.fastModeData key).map .plain :=
        if_pos hlength'
      unfold Commutes
      dsimp only
      simp only [setIndexedProperty, hkey, hlength, and_self, if_true, if_false]
      refine ⟨_, _, rfl, ?_, inv.write key (some value)⟩
      rw [convertIntoNonFastMode_write inv hlength', convertIntoNonFastMode_fast inv]
      cases hslot : storage.fastModeData key with
      | none =>
        rw [hslot] at helement
        rw [set_absent build garbage hkey helement, Nat.max_eq_left (by omega)]
        rfl
      | some old =>
        rw [hslot] at helement
        rw [set_plain build garbage hkey helement hlength']
        rfl

theorem delete_commutes :
    Commutes (fun a => some (a.deleteOwnProperty key)) (fast object writable storage) := by
  unfold Commutes
  simp only [convertIntoNonFastMode_fast inv]
  by_cases hlength : key < storage.arrayLength
  · have helement : elements object storage key = (storage.fastModeData key).map .plain :=
      if_pos hlength
    simp only [deleteOwnProperty, if_pos (And.intro hkey hlength)]
    refine ⟨_, _, rfl, ?_, inv.write key none⟩
    rw [convertIntoNonFastMode_write inv hlength]
    cases hslot : storage.fastModeData key with
    | none =>
      rw [hslot] at helement
      have hsame : Function.update (elements object storage) key none =
          elements object storage := by
        rw [update_eq_self_iff, helement]
        rfl
      simp only [OrdinaryObject.deleteOwnProperty, helement, map_none, hsame]
    | some old =>
      rw [hslot] at helement
      simp only [OrdinaryObject.deleteOwnProperty, helement, map_some]
      rfl
  · have habsent := elements_eq_none_of_le inv hkey (Nat.le_of_not_lt hlength)
    have hnone := inv.noIndex key hkey
    simp only [deleteOwnProperty, hlength, and_false, if_false,
      OrdinaryObject.deleteOwnProperty, hnone, habsent]
    exact ⟨_, _, rfl, by rw [convertIntoNonFastMode_fast inv], inv⟩

end

end

variable (values : List α) (a : ArrayObject α)

/-- Setting the length stays away from the two defects of the storage: it ends
fast mode, or no spare slot that comes to light holds an element and no copy
leaves its buffer. -/
def ResizesSafely (newLength : Nat) (useFitStorage : Bool) : Prop :=
  match a with
  | fast _ _ storage =>
    leavesFastMode storage.arrayLength newLength true = true ∨
      ¬ storage.exposesStale build newLength useFitStorage true ∧
        ¬ storage.overruns build newLength useFitStorage
  | nonFast _ _ _ => True

theorem defineLength_commutes (inv : FastInvariant object writable storage) {newLen : Nat}
    (hsafe : newLen < 2 ^ 32 → (fast object writable storage).ResizesSafely build newLen false) :
    Commutes (fun a => a.defineLength build garbage newLen) (fast object writable storage) := by
  unfold Commutes
  have hconvert := convertIntoNonFastMode_fast inv
  have hwritable : (fast object writable storage).isLengthPropertyWritable = true :=
    inv.lengthWritable
  have hwritable' : (fast object writable storage).convertIntoNonFastMode.isLengthPropertyWritable =
      true := by
    rw [hconvert]
    rfl
  have hlength : (fast object writable storage).convertIntoNonFastMode.arrayLength =
      (fast object writable storage).arrayLength := by
    rfl
  simp only [defineLength, hwritable, hwritable', hlength, Bool.true_eq_false, false_and, if_false]
  split
  · exact ⟨_, _, rfl, rfl, inv⟩
  · rename_i hrange
    split
    · obtain ⟨next, hfast, hnonFast, hnext⟩ :=
        setArrayLength_commutes build garbage inv newLen
          (by unfold invalidIndexPropertyValue; omega) (hsafe (by omega)) false true true
      exact ⟨next, .boolean true, by rw [hfast]; rfl, by rw [hnonFast]; rfl, hnext⟩
    · exact ⟨_, _, rfl, rfl, inv⟩

theorem setLength_commutes (inv : FastInvariant object writable storage) {newLen : Nat}
    (hsafe : newLen < 2 ^ 32 → (fast object writable storage).ResizesSafely build newLen false) :
    Commutes (fun a => a.setLength build garbage newLen) (fast object writable storage) := by
  have hwritable : (fast object writable storage).isLengthPropertyWritable = true :=
    inv.lengthWritable
  have hwritable' : (fast object writable storage).convertIntoNonFastMode.isLengthPropertyWritable =
      true := by
    rw [convertIntoNonFastMode_fast inv]
    rfl
  unfold Commutes
  simp only [setLength, hwritable, hwritable', if_true]
  exact defineLength_commutes build garbage inv hsafe

theorem assignLength_commutes (inv : FastInvariant object writable storage) {newLen : Nat}
    (hsafe : newLen < 2 ^ 32 → (fast object writable storage).ResizesSafely build newLen true) :
    Commutes (fun a => a.assignLength build garbage newLen) (fast object writable storage) := by
  unfold Commutes
  have hconvert := convertIntoNonFastMode_fast inv
  have hslow : (fast object writable storage).convertIntoNonFastMode.assignLength build garbage
      newLen = (fast object writable storage).convertIntoNonFastMode.defineLength build garbage
        newLen := by
    rw [hconvert]
    rfl
  dsimp only
  rw [hslow]
  simp only [assignLength, defineLength]
  split
  · exact ⟨_, _, rfl, rfl, inv⟩
  · rename_i hrange
    obtain ⟨next, hfast, hnonFast, hnext⟩ :=
      setArrayLength_commutes build garbage inv newLen
        (by unfold invalidIndexPropertyValue; omega) (hsafe (by omega)) false true true
    refine ⟨next, .boolean true, by rw [hfast]; rfl, ?_, hnext⟩
    rw [if_neg (by rw [hconvert]; simp [isLengthPropertyWritable])]
    split
    · rw [hnonFast]
      rfl
    · -- The length is already right: the resize was no change.
      rename_i hsame
      rw [not_not, hconvert] at hsame
      have hunchanged : (fast object writable storage).convertIntoNonFastMode.setArrayLength build
          garbage newLen false true true =
            some ((fast object writable storage).convertIntoNonFastMode, true) := by
        rw [hconvert]
        exact congrArg some ((setNonFastLength_grow _ _ (le_of_eq hsame)).trans
          (by rw [← hsame]; rfl))
      rw [hunchanged] at hnonFast
      exact congrArg (fun array => some (array, ArrayResult.boolean true))
        (congrArg Prod.fst (Option.some.inj hnonFast))

def writeFrom (properties : Nat → Option (Property α)) (n : Nat) :
    List α → Nat → Option (Property α)
  | [] => properties
  | value :: values => writeFrom (Function.update properties n (some (.plain value))) (n + 1) values

omit [PropertyValue α] in
theorem writeFrom_congr {properties properties' : Nat → Option (Property α)} {n : Nat}
    (values : List α)
    (hsame : ∀ i, ¬ (n ≤ i ∧ i < n + values.length) → properties i = properties' i) :
    writeFrom properties n values = writeFrom properties' n values := by
  induction values generalizing properties properties' n with
  | nil =>
    funext i
    exact hsame i (by simp)
  | cons value values ih =>
    apply ih
    intro i hi
    by_cases hn : i = n
    · subst hn
      simp
    · rw [update_of_ne hn, update_of_ne hn]
      apply hsame
      rw [length_cons]
      omega

omit [PropertyValue α] in
theorem writeAll_spec (n : Nat) (values : List α) (hfits : n + values.length ≤ storage.arrayLength)
    (inv : FastInvariant object writable storage) :
    elements object (writeAll storage n values) = writeFrom (elements object storage) n values ∧
      (writeAll storage n values).arrayLength = storage.arrayLength ∧
      FastInvariant object writable (writeAll storage n values) := by
  induction values generalizing storage n with
  | nil => exact ⟨rfl, rfl, inv⟩
  | cons value values ih =>
    rw [length_cons] at hfits
    have hfits' : n + 1 + values.length ≤ (storage.write n (some value)).arrayLength :=
      show n + 1 + values.length ≤ storage.arrayLength by omega
    obtain ⟨helements, hlength, hinv⟩ := ih (n + 1) hfits' (inv.write n (some value))
    refine ⟨?_, hlength, hinv⟩
    rw [writeAll, helements, elements_write (by omega)]
    rfl

theorem pushLoop_absent {n : Nat} (values : List α)
    (hlength : length = n ∨ length = n + values.length)
    (hvalid : n + values.length ≤ invalidIndexPropertyValue)
    (habsent : ∀ i, n ≤ i → i < n + values.length → properties i = none) :
    (nonFast ⟨properties, true⟩ true length).pushLoop build garbage n values =
      some (nonFast ⟨writeFrom properties n values, true⟩ true (n + values.length),
        .length (n + values.length)) := by
  induction values generalizing properties length n with
  | nil =>
    have hsame : length = n := by simpa using hlength
    subst hsame
    have hrange : ¬ 2 ^ 32 ≤ length := by
      unfold invalidIndexPropertyValue at hvalid
      omega
    simp only [pushLoop, setLength, defineLength, isLengthPropertyWritable, arrayLength, hrange,
      if_true, if_false, ne_eq, not_true_eq_false, and_false, writeFrom]
    rfl
  | cons value values ih =>
    rw [length_cons] at hlength hvalid habsent
    have hkey : n < invalidIndexPropertyValue := by omega
    have hset : (nonFast ⟨properties, true⟩ true length).setIndexedProperty build garbage n
        (decide (n < 2 ^ 32)) value = _ :=
      set_absent build garbage hkey (habsent n le_rfl (by omega)) value
    rw [pushLoop, hset]
    dsimp only
    rw [ih (by omega) (by omega)]
    · simp only [writeFrom, length_cons, Nat.add_assoc, Nat.add_comm 1]
    · intro i hlow hhigh
      rw [update_of_ne (by omega)]
      exact habsent i (by omega) (by omega)

theorem pushLoop_commutes (inv : a.Invariant) (n : Nat)
    (hlength : ∀ object writable storage, a = fast object writable storage →
      storage.arrayLength = n) :
    Commutes (fun a => a.pushLoop build garbage n values) a := by
  induction values generalizing a n with
  | nil =>
    cases a with
    | nonFast object writable length =>
      obtain ⟨_, _, _, _, h⟩ := pushLoop_returns build garbage object writable length n []
      exact Commutes.of_nonFast h
    | fast object writable storage =>
      have hsame : storage.arrayLength = n := hlength _ _ _ rfl
      have hsafe : (fast object writable storage).ResizesSafely build n false := by
        refine .inr ⟨?_, FastModeStorage.not_overruns_of_le (by omega) false⟩
        rintro ⟨-, i, hnew, hold, -⟩
        omega
      obtain ⟨next, out, hfast, hnonFast, hnext⟩ :=
        setLength_commutes build garbage inv fun _ => hsafe
      unfold Commutes
      simp only [pushLoop, hfast, hnonFast]
      cases out <;> exact ⟨next, _, rfl, rfl, hnext⟩
  | cons value values ih =>
    cases a with
    | nonFast object writable length =>
      obtain ⟨_, _, _, _, h⟩ :=
        pushLoop_returns build garbage object writable length n (value :: values)
      exact Commutes.of_nonFast h
    | fast object writable storage =>
      have hsame : storage.arrayLength = n := hlength _ _ _ rfl
      have hinvalid := FastInvariant.length_lt_invalid inv
      have hvalid : decide (n < 2 ^ 32) = true := by
        unfold invalidIndexPropertyValue at hinvalid
        exact decide_eq_true (by omega)
      obtain ⟨next, hfast, hnonFast, hnext, hsize⟩ :=
        setIndexedProperty_append build garbage inv (show n < _ by omega) (le_of_eq hsame) value
      unfold Commutes
      simp only [pushLoop, hvalid, hfast, hnonFast]
      apply ih next hnext
      rintro object' writable' storage' rfl
      exact hsize

theorem push_commutes (inv : FastInvariant object writable storage) (values : List α) :
    Commutes (fun a => a.push build garbage values) (fast object writable storage) := by
  have hslow : (fast object writable storage).convertIntoNonFastMode.push build garbage values =
      (fast object writable storage).convertIntoNonFastMode.pushLoop build garbage
        storage.arrayLength values := by
    rw [convertIntoNonFastMode_fast inv]
    rfl
  unfold Commutes
  dsimp only
  rw [hslow]
  by_cases hfast : values ≠ [] ∧ object.isExtensible = true ∧
      storage.arrayLength + values.length ≤ 2 ^ 32 - 1
  · have hpush : (fast object writable storage).push build garbage values =
        match (fast object writable storage).setArrayLength build garbage
          (storage.arrayLength + values.length) false true false with
        | none => none
        | some (fast object writable grown, true) =>
          some (fast object writable (writeAll grown storage.arrayLength values),
            .length (storage.arrayLength + values.length))
        | some (next, _) => next.pushLoop build garbage storage.arrayLength values :=
      if_pos hfast
    rw [hpush]
    have hpos : 0 < values.length := List.length_pos_iff.mpr hfast.1
    have hvalid : storage.arrayLength + values.length ≤ invalidIndexPropertyValue := hfast.2.2
    have habsent : ∀ i, storage.arrayLength ≤ i → i < storage.arrayLength + values.length →
        elements object storage i = none := fun i hlow hhigh =>
      elements_eq_none_of_le inv (by omega) hlow
    rw [convertIntoNonFastMode_fast inv,
      pushLoop_absent build garbage values (.inl rfl) hvalid habsent]
    cases hleave : leavesFastMode storage.arrayLength (storage.arrayLength + values.length) true with
    | true =>
      rw [setArrayLength_leaves inv hleave]
      exact ⟨_, _, pushLoop_absent build garbage values (.inr rfl) hvalid habsent, rfl, trivial⟩
    | false =>
      have hfits : ¬ storage.overruns build (storage.arrayLength + values.length) false :=
        FastModeStorage.not_overruns_of_le (by omega) false
      rw [setArrayLength_stays inv hleave hfits]
      -- The new slots are not cleared, but every one of them is written.
      have hresize : FastInvariant object writable (storage.setArrayLength build garbage
          (storage.arrayLength + values.length) false false).1 := inv.resize hleave false false
      obtain ⟨helements, hsize, hinv⟩ := writeAll_spec storage.arrayLength values
        (by rw [FastModeStorage.setArrayLength_arrayLength]) hresize
      refine ⟨_, _, rfl, ?_, hinv⟩
      rw [convertIntoNonFastMode_fast hinv, helements, hsize,
        FastModeStorage.setArrayLength_arrayLength]
      rw [writeFrom_congr values]
      intro i hi
      simp only [elements, FastModeStorage.setArrayLength_arrayLength]
      by_cases hold : i < storage.arrayLength
      · rw [if_pos hold, if_pos (by omega),
          FastModeStorage.setArrayLength_keeps inv.wellFormed build garbage false false hold
            (by omega)]
      · rw [if_neg hold, if_neg (by omega)]
  · have hpush : (fast object writable storage).push build garbage values =
        (fast object writable storage).pushLoop build garbage storage.arrayLength values :=
      if_neg hfast
    rw [hpush]
    exact pushLoop_commutes build garbage values (fast object writable storage) inv _
      (by rintro _ _ _ ⟨⟩; rfl)

/-- The operation stays away from the defects of the element storage. -/
def AvoidsResizeDefects : Operation α → Prop
  | .assignLength newLen => newLen < 2 ^ 32 → a.ResizesSafely build newLen true
  | .setLength newLen | .defineLength newLen => newLen < 2 ^ 32 → a.ResizesSafely build newLen false
  | _ => True

theorem apply_commutes {a : ArrayObject α} (inv : a.Invariant) {op : Operation α}
    (havoids : a.AvoidsResizeDefects build op) :
    Commutes (fun a => a.apply build garbage op) a := by
  cases a with
  | nonFast object writable length =>
    obtain ⟨_, _, _, _, h⟩ := apply_returns build garbage object writable length op
    exact Commutes.of_nonFast h
  | fast object writable storage =>
    cases op with
    | define index desc => exact define_commutes build garbage inv index.2 desc
    | set index isUInt32 value =>
      exact setIndexedProperty_commutes build garbage inv index.2 isUInt32 value
    | delete index =>
      obtain ⟨next, out, hfast, hnonFast, hnext⟩ := delete_commutes inv index.2
      refine ⟨next, .boolean out, ?_, ?_, hnext⟩
      · simp only [apply, Option.some.inj hfast]
      · simp only [apply, Option.some.inj hnonFast]
    | assignLength newLen => exact assignLength_commutes build garbage inv havoids
    | setLength newLen => exact setLength_commutes build garbage inv havoids
    | defineLength newLen => exact defineLength_commutes build garbage inv havoids
    | push values => exact push_commutes build garbage inv values
    | get index isDirect =>
      have hread : (fast object writable storage).getIndexedProperty index.1 isDirect =
          (fast object writable storage).convertIntoNonFastMode.getIndexedProperty index.1
            isDirect := by
        rw [convertIntoNonFastMode_fast inv]
        simp only [getIndexedProperty]
        split
        · rename_i hdirect
          exact (if_pos hdirect.2.2.1).symm
        · exact getOwnProperty_fast inv index.1
      refine ⟨_, _, rfl, ?_, inv⟩
      simp only [apply, hread]
    | getLength =>
      refine ⟨_, _, rfl, ?_, inv⟩
      rfl
    | convertIntoNonFastMode =>
      refine ⟨_, _, rfl, ?_, ?_⟩
      · rw [convertIntoNonFastMode_fast inv]
        rfl
      · rw [convertIntoNonFastMode_fast inv]
        trivial

/-- A new array in fast mode and one in non-fast mode answer every operation of a
run alike, with the same length and the same own properties after each of them,
as long as the run stays away from the defects of the element storage. -/
theorem fast_run_eq_nonFast_run (ops : List (Operation α))
    (havoids : Guarded (step build garbage) (AvoidsResizeDefects build) ops newFast) :
    ∃ last outs, run (step build garbage) ops newFast = some (last, outs) ∧
      run (step build garbage) ops newNonFast = some (last.convertIntoNonFastMode, outs) ∧
      last.convertIntoNonFastMode.observe = last.observe := by
  have hstep : ∀ (a : ArrayObject α) (op : Operation α), a.Invariant →
      a.AvoidsResizeDefects build op →
      ∃ next out, a.step build garbage op = some (next, out) ∧
        a.convertIntoNonFastMode.step build garbage op =
          some (next.convertIntoNonFastMode, out) ∧ next.Invariant := by
    intro a op inv hop
    obtain ⟨next, result, hfast, hnonFast, hnext⟩ := apply_commutes build garbage inv hop
    refine ⟨next, (result, next.observe), ?_, ?_, hnext⟩
    · simp only [step, hfast, map_some]
    · simp only [step, hnonFast, map_some, observe_convertIntoNonFastMode hnext]
  obtain ⟨last, outs, hfast, hnonFast, hinv⟩ :=
    havoids.run_map convertIntoNonFastMode newFast_invariant hstep
  exact ⟨last, outs, hfast, hnonFast, observe_convertIntoNonFastMode hinv⟩

end Operations

/-- Numbers as property values, with `0` for `undefined`. -/
@[reducible]
def numberValues : PropertyValue Nat := ⟨0, (· == ·)⟩

attribute [local instance] numberValues

instance (build : BufferBuild) (a : ArrayObject Nat) (newLength : Nat) (useFitStorage : Bool) :
    Decidable (a.ResizesSafely build newLength useFitStorage) :=
  match a with
  | fast _ _ _ => inferInstanceAs (Decidable (_ ∨ _ ∧ _))
  | nonFast _ _ _ => isTrue trivial

instance (build : BufferBuild) (a : ArrayObject Nat) (op : Operation Nat) :
    Decidable (a.AvoidsResizeDefects build op) :=
  match op with
  | .assignLength _ | .setLength _ | .defineLength _ => inferInstanceAs (Decidable (_ → _))
  | .define .. | .set .. | .delete _ | .push _ | .get .. | .getLength
  | .convertIntoNonFastMode => isTrue trivial

/-- Spare capacity, a shrink, a hole, and an accessor that ends fast mode. -/
theorem fast_run_eq_nonFast_run_with_spare_capacity :
    ∃ last outs, run (step .rawBuffer fun _ => some 3)
        [.push [1, 2], .assignLength 17, .set ⟨17, by decide⟩ true 7, .defineLength 17,
          .set ⟨20, by decide⟩ false 8, .delete ⟨1, by decide⟩,
          .define ⟨0, by decide⟩ (.accessor (some 9) none none none), .get ⟨0, by decide⟩ true]
        (newFast : ArrayObject Nat) = some (last, outs) ∧
      run (step .rawBuffer fun _ => some 3)
        [.push [1, 2], .assignLength 17, .set ⟨17, by decide⟩ true 7, .defineLength 17,
          .set ⟨20, by decide⟩ false 8, .delete ⟨1, by decide⟩,
          .define ⟨0, by decide⟩ (.accessor (some 9) none none none), .get ⟨0, by decide⟩ true]
        newNonFast = some (last.convertIntoNonFastMode, outs) ∧
      last.convertIntoNonFastMode.observe = last.observe :=
  fast_run_eq_nonFast_run .rawBuffer (fun _ => some 3) _ (by decide +kernel)

/-- An element that a shrink left in the spare capacity comes back as a property
in fast mode only. -/
theorem fast_run_not_always_eq_nonFast_run : ¬ ∀ ops : List (Operation Nat), ∃ last last' outs,
      run (step .rawBuffer fun _ => none) ops (newFast : ArrayObject Nat) = some (last, outs) ∧
      run (step .rawBuffer fun _ => none) ops newNonFast = some (last', outs) := by
  intro hequal
  obtain ⟨last, last', outs, hfast, hnonFast⟩ := hequal
    [.assignLength 17, .set ⟨17, by decide⟩ true 7, .defineLength 17, .assignLength 18]
  -- The properties at index 17 after each operation.
  have hstale : (run (step .rawBuffer fun _ => none)
      [.assignLength 17, .set ⟨17, by decide⟩ true 7, .defineLength 17, .assignLength 18]
      (newFast : ArrayObject Nat)).map (fun result => result.2.map fun out => out.2.2 17) =
        some [none, some (.plain 7), none, some (.plain 7)] := by decide +kernel
  have habsent : (run (step .rawBuffer fun _ => none)
      [.assignLength 17, .set ⟨17, by decide⟩ true 7, .defineLength 17, .assignLength 18]
      (newNonFast : ArrayObject Nat)).map (fun result => result.2.map fun out => out.2.2 17) =
        some [none, some (.plain 7), none, none] := by decide +kernel
  rw [hfast] at hstale
  rw [hnonFast] at habsent
  have hsame := hstale.symm.trans habsent
  revert hsame
  decide

end ArrayObject

end Escargot.Runtime
