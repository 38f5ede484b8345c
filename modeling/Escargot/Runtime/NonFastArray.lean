/-
# The length of an array in non-fast mode

The elements of such an array are ordinary properties. To make the array
shorter, `setArrayLength` deletes them from the end, and jumps over absent
elements with `nextIndexBackward`, which takes the names of other properties and
of the properties of the prototypes for indices too. The reference counts down
one by one.
-/

import Escargot.Runtime.NextIndex
import Escargot.Runtime.NumberConversion
import Escargot.Runtime.ObjectProperty

namespace Escargot.Runtime

open List Option

inductive ArrayKey
  | index (n : Nat)
  | string (name : List UInt16)
  | symbol (id : Nat)
  deriving DecidableEq

/-- An array in non-fast mode: its properties in insertion order, `m_arrayLength`, whether its
length is writable, and its prototypes. Its property `length` is not among the properties. -/
structure NonFastArray (α : Type) where
  properties : List (ArrayKey × Property α)
  arrayLength : Nat
  isLengthPropertyWritable : Bool
  prototypes : List EnumeratedObject
  nodup : (properties.map Prod.fst).Nodup

namespace NonFastArray

variable {α : Type} (a : NonFastArray α) (key : ArrayKey)

def getOwnProperty : Option (Property α) :=
  (a.properties.find? fun item => item.1 = key).map Prod.snd

def retain (keep : ArrayKey → Bool) : NonFastArray α where
  properties := a.properties.filter fun item => keep item.1
  arrayLength := a.arrayLength
  isLengthPropertyWritable := a.isLengthPropertyWritable
  prototypes := a.prototypes
  nodup := a.nodup.sublist (List.filter_sublist.map Prod.fst)

def deleteOwnProperty : NonFastArray α × Bool :=
  match a.getOwnProperty key with
  | some property =>
    if property.isConfigurable then (a.retain fun other => other ≠ key, true) else (a, false)
  | none => (a, true)

def withLength (length : Nat) : NonFastArray α := { a with arrayLength := length }

section Search

-- `doubleToInt64ForIndexCompare` of the number that a name converts to.
variable (numberOf : List UInt16 → Int)

def lengthName : List UInt16 := [108, 101, 110, 103, 116, 104]

/-- What the callback of `nextIndexBackward` computes from a key; symbols are skipped. -/
def indexOfKey : ArrayKey → Option Int
  | .index n => some n
  | .string name => some (numberOf name)
  | .symbol _ => none

variable (newLen oldLen : Nat) (a : NonFastArray α)

/-- `ArrayObject::enumeration`, which begins with `length`. -/
def enumeration : EnumeratedObject where
  isOrdinary := true
  indices := numberOf lengthName :: a.properties.filterMap fun item => indexOfKey numberOf item.1

/-- The position of the element that a round of the loop deletes: `oldLen` if it is there,
else what `nextIndexBackward` gives. -/
def nextKey (oldLen : Nat) : Int :=
  if (a.getOwnProperty (.index oldLen)).isSome then oldLen
  else nextIndexBackward (a.enumeration numberOf :: a.prototypes) oldLen (-1)

theorem nextKey_le (oldLen : Nat) : a.nextKey numberOf oldLen ≤ oldLen := by
  unfold nextKey
  split
  · exact Int.le_refl _
  · have hspec := nextIndexBackward_spec (a.enumeration numberOf :: a.prototypes)
      (show (-1 : Int) ≤ oldLen - 1 by omega)
    omega

/-- No element is above the position, and the position is the end itself if there is one. -/
theorem getOwnProperty_of_nextKey_lt {oldLen n : Nat} (hle : n ≤ oldLen)
    (hlt : a.nextKey numberOf oldLen < n) : a.getOwnProperty (.index n) = none := by
  unfold nextKey at hlt
  split at hlt
  · omega
  · rename_i habsent
    rcases Nat.lt_or_ge n oldLen with hn | hn
    · rw [getOwnProperty, map_eq_none_iff, find?_eq_none]
      intro item hitem hkey
      have hkey : item.1 = .index n := by simpa using hkey
      have henumerated : (n : Int) ∈ (a.enumeration numberOf).indices :=
        mem_cons_of_mem _ (List.mem_filterMap.2 ⟨item, hitem, by rw [hkey]; rfl⟩)
      have hspec := (nextIndexBackward_spec (a.enumeration numberOf :: a.prototypes)
        (show (-1 : Int) ≤ oldLen - 1 by omega)).2.2 _ mem_cons_self n henumerated
        (by omega) (by omega)
      omega
    · have hn : n = oldLen := by omega
      subst hn
      simpa using habsent

/-- The loop of `setArrayLength` in non-fast mode. -/
def shrink (newLen : Nat) (oldLen : Nat) (a : NonFastArray α) : NonFastArray α × Bool :=
  if h : newLen < oldLen then
    if a.nextKey numberOf (oldLen - 1) < newLen then (a.withLength newLen, true)
    else
      let key := (a.nextKey numberOf (oldLen - 1)).toNat
      let deleted := a.deleteOwnProperty (.index key)
      if deleted.2 then shrink newLen key deleted.1
      else (deleted.1.withLength (key + 1), false)
  else (a.withLength newLen, true)
termination_by oldLen
decreasing_by
  have hle := a.nextKey_le numberOf (oldLen - 1)
  omega

/-- `ArrayObject::setArrayLength` of an array in non-fast mode. -/
def setArrayLength (newLength : Nat) : NonFastArray α × Bool :=
  shrink numberOf newLength a.arrayLength a

/-- The loop of `ArraySetLength`, which counts down. -/
def countDown (newLen : Nat) : Nat → NonFastArray α → NonFastArray α × Bool
  | 0, a => (a.withLength newLen, true)
  | oldLen + 1, a =>
    if newLen ≤ oldLen then
      let deleted := a.deleteOwnProperty (.index oldLen)
      if deleted.2 then countDown newLen oldLen deleted.1
      else (deleted.1.withLength (oldLen + 1), false)
    else (a.withLength newLen, true)

theorem deleteOwnProperty_of_none {a : NonFastArray α} {key : ArrayKey}
    (h : a.getOwnProperty key = none) : a.deleteOwnProperty key = (a, true) := by
  rw [deleteOwnProperty, h]

theorem countDown_of_le {newLen oldLen : Nat} (h : oldLen ≤ newLen) (a : NonFastArray α) :
    countDown newLen oldLen a = (a.withLength newLen, true) := by
  cases oldLen with
  | zero => rfl
  | succ oldLen => rw [countDown, if_neg (by omega)]

theorem countDown_skip {newLen position : Nat} {a : NonFastArray α} (hlow : newLen ≤ position) :
    ∀ {oldLen : Nat}, position ≤ oldLen →
      (∀ n, position ≤ n → n < oldLen → a.getOwnProperty (.index n) = none) →
      countDown newLen oldLen a = countDown newLen position a := by
  intro oldLen hle
  induction oldLen, hle using Nat.le_induction with
  | base => exact fun _ => rfl
  | succ oldLen hle ih =>
    intro habsent
    rw [countDown, if_pos (by omega),
      deleteOwnProperty_of_none (habsent oldLen hle (Nat.lt_succ_self _))]
    exact ih fun n hn hlt => habsent n hn (by omega)

theorem shrink_eq_countDown : shrink numberOf newLen oldLen a = countDown newLen oldLen a := by
  induction oldLen using Nat.strong_induction_on generalizing a with
  | _ oldLen ih =>
    rw [shrink]
    split
    · rename_i h
      have hle := a.nextKey_le numberOf (oldLen - 1)
      have habsent : ∀ n : Nat, a.nextKey numberOf (oldLen - 1) < n → n < oldLen →
          a.getOwnProperty (.index n) = none := fun n hn hlt =>
        a.getOwnProperty_of_nextKey_lt numberOf (by omega) hn
      split
      · rename_i hbreak
        rw [countDown_skip (Nat.le_refl newLen) h.le
          fun n hn hlt => habsent n (by omega) hlt, countDown_of_le (Nat.le_refl _)]
      · rename_i hkey
        obtain ⟨key, hkeyEq⟩ : ∃ key : Nat, a.nextKey numberOf (oldLen - 1) = key :=
          ⟨(a.nextKey numberOf (oldLen - 1)).toNat, by omega⟩
        have hlow : newLen ≤ key := by omega
        rw [countDown_skip (hlow.trans (Nat.le_succ key)) (by omega)
          fun n hn hlt => habsent n (by omega) hlt, countDown, if_pos hlow]
        simp only [hkeyEq, Int.toNat_natCast]
        split
        · exact ih key (by omega) _
        · rfl
    · rename_i h
      rw [countDown_of_le (by omega)]

end Search

section Shrinking

variable {a : NonFastArray α} {newLen oldLen : Nat}

def below (length : Nat) : ArrayKey → Bool
  | .index n => n < length
  | _ => true

/-- Every element is below a bound. -/
def Bounded (a : NonFastArray α) (bound : Nat) : Prop :=
  ∀ n, (a.getOwnProperty (.index n)).isSome → n < bound

/-- Making an array shorter succeeds if every element from the new length on is configurable, and
else stops above the last one that is not. Exactly the elements from the length reached on are
deleted. -/
structure Shrinks (a : NonFastArray α) (newLen : Nat) (result : NonFastArray α × Bool) :
    Prop where
  left : result.1 = (a.retain (below result.1.arrayLength)).withLength result.1.arrayLength
  succeeds : result.2 = true → result.1.arrayLength = newLen ∧
    ∀ n property, newLen ≤ n → a.getOwnProperty (.index n) = some property →
      property.isConfigurable = true
  stops : result.2 = false → ∃ p property, newLen ≤ p ∧ result.1.arrayLength = p + 1 ∧
    a.getOwnProperty (.index p) = some property ∧ property.isConfigurable = false ∧
    ∀ n property, p < n → a.getOwnProperty (.index n) = some property →
      property.isConfigurable = true

theorem getOwnProperty_retain (a : NonFastArray α) (keep : ArrayKey → Bool) (key : ArrayKey) :
    (a.retain keep).getOwnProperty key = if keep key then a.getOwnProperty key else none := by
  rw [getOwnProperty, retain, find?_filter]
  split
  · rename_i hkeep
    have hsame : (fun item : ArrayKey × Property α =>
        decide (keep item.1 = true ∧ decide (item.1 = key) = true)) =
        fun item => decide (item.1 = key) := by
      funext item
      by_cases hkey : item.1 = key
      · simp [hkey, hkeep]
      · simp [hkey]
    rw [hsame, getOwnProperty]
  · rename_i hkeep
    rw [map_eq_none_iff, find?_eq_none]
    rintro item - hitem
    simp only [decide_eq_true_eq] at hitem
    exact hkeep (hitem.2 ▸ hitem.1)

theorem getOwnProperty_isSome_of_mem {item : ArrayKey × Property α} (h : item ∈ a.properties) :
    (a.getOwnProperty item.1).isSome := by
  rw [getOwnProperty, isSome_map, find?_isSome]
  exact ⟨item, h, by simp⟩

theorem retain_eq_self {keep : ArrayKey → Bool}
    (h : ∀ key, (a.getOwnProperty key).isSome → keep key = true) : a.retain keep = a := by
  have hfilter : (a.properties.filter fun item => keep item.1) = a.properties :=
    List.filter_eq_self.2 fun item hitem => h item.1 (getOwnProperty_isSome_of_mem hitem)
  cases a
  simp only [retain, NonFastArray.mk.injEq]
  exact ⟨hfilter, trivial, trivial, trivial⟩

theorem retain_retain (keep keep' : ArrayKey → Bool)
    (h : ∀ key, keep' key = true → keep key = true) :
    (a.retain keep).retain keep' = a.retain keep' := by
  have hfilter : ((a.properties.filter fun item => keep item.1).filter fun item => keep' item.1) =
      a.properties.filter fun item => keep' item.1 := by
    rw [List.filter_filter]
    refine filter_congr fun item _ => ?_
    cases hkeep : keep' item.1 with
    | false => rfl
    | true => rw [h item.1 hkeep]; rfl
  simp only [retain, NonFastArray.mk.injEq]
  exact ⟨hfilter, trivial, trivial, trivial⟩

theorem Bounded.retain_below (h : a.Bounded oldLen) (hle : oldLen ≤ newLen) :
    a.retain (below newLen) = a :=
  retain_eq_self fun key hkey => by
    cases key with
    | index n => exact decide_eq_true ((h n hkey).trans_le hle)
    | string name => rfl
    | symbol id => rfl

theorem Bounded.withLength (h : a.Bounded oldLen) (hle : oldLen ≤ newLen) :
    Shrinks a newLen (a.withLength newLen, true) where
  left := congrArg (NonFastArray.withLength · newLen) (h.retain_below hle).symm
  succeeds _ := ⟨rfl, fun n property hn hproperty =>
    absurd (h n (by rw [hproperty]; rfl)) (by omega)⟩
  stops := nofun

theorem Bounded.stop (h : a.Bounded (oldLen + 1)) (hle : newLen ≤ oldLen) {property : Property α}
    (hproperty : a.getOwnProperty (.index oldLen) = some property)
    (hfixed : property.isConfigurable = false) :
    Shrinks a newLen (a.withLength (oldLen + 1), false) where
  left := congrArg (NonFastArray.withLength · (oldLen + 1)) (h.retain_below (Nat.le_refl _)).symm
  succeeds := nofun
  stops _ := ⟨oldLen, property, hle, rfl, hproperty, hfixed, fun n other hn hother =>
    absurd (h n (by rw [hother]; rfl)) (by omega)⟩

variable {result : NonFastArray α × Bool}

/-- After an element that can be deleted, the loop goes on with the array without it. -/
theorem Shrinks.delete (h : Shrinks (a.retain fun other => other ≠ .index oldLen) newLen result)
    (hbound : a.Bounded (oldLen + 1)) (hle : newLen ≤ oldLen) {property : Property α}
    (hproperty : a.getOwnProperty (.index oldLen) = some property)
    (hconfigurable : property.isConfigurable = true) : Shrinks a newLen result := by
  have hother : ∀ n, n ≠ oldLen →
      (a.retain fun other => other ≠ .index oldLen).getOwnProperty (.index n) =
        a.getOwnProperty (.index n) := fun n hn => by
    rw [getOwnProperty_retain, if_pos (by simpa using hn)]
  have hconfigurableFrom : ∀ p, (∀ n property, p < n →
      (a.retain fun other => other ≠ .index oldLen).getOwnProperty (.index n) = some property →
        property.isConfigurable = true) →
      ∀ n property, p < n → a.getOwnProperty (.index n) = some property →
        property.isConfigurable = true := by
    intro p hall n other hn hget
    by_cases hsame : n = oldLen
    · subst hsame
      rw [hproperty] at hget
      exact Option.some.inj hget ▸ hconfigurable
    · exact hall n other hn (hother n hsame ▸ hget)
  have hlength : result.1.arrayLength ≤ oldLen := by
    cases hresult : result.2 with
    | true => exact (h.succeeds hresult).1 ▸ hle
    | false =>
      obtain ⟨p, stopped, -, hlength, hget, -⟩ := h.stops hresult
      have hp : p ≠ oldLen := by
        rintro rfl
        rw [getOwnProperty_retain, if_neg (by simp)] at hget
        cases hget
      have := hbound p (by rw [← hother p hp, hget]; rfl)
      omega
  refine ⟨?_, fun hresult => ⟨(h.succeeds hresult).1, ?_⟩, fun hresult => ?_⟩
  · refine h.left.trans (congrArg (NonFastArray.withLength · result.1.arrayLength) ?_)
    refine retain_retain _ _ fun key hkey => ?_
    cases key with
    | index n =>
      have hn : n < result.1.arrayLength := of_decide_eq_true hkey
      exact decide_eq_true fun heq => by cases heq; omega
    | string name => rfl
    | symbol id => rfl
  · intro n other hn hget
    by_cases hsame : n = oldLen
    · subst hsame
      rw [hproperty] at hget
      exact Option.some.inj hget ▸ hconfigurable
    · exact (h.succeeds hresult).2 n other hn (hother n hsame ▸ hget)
  · obtain ⟨p, stopped, hp, hlengthEq, hget, hfixed, hall⟩ := h.stops hresult
    exact ⟨p, stopped, hp, hlengthEq, hother p (by omega) ▸ hget, hfixed, hconfigurableFrom p hall⟩

theorem countDown_shrinks (newLen : Nat) : ∀ {oldLen : Nat} {a : NonFastArray α},
    a.Bounded oldLen → Shrinks a newLen (countDown newLen oldLen a) := by
  intro oldLen
  induction oldLen with
  | zero => exact fun h => h.withLength (Nat.zero_le _)
  | succ oldLen ih =>
    intro a h
    rw [countDown]
    split
    · rename_i hle
      cases hproperty : a.getOwnProperty (.index oldLen) with
      | none =>
        rw [deleteOwnProperty_of_none hproperty]
        refine ih fun n hn => ?_
        have hne : n ≠ oldLen := by
          rintro rfl
          rw [hproperty] at hn
          cases hn
        have := h n hn
        omega
      | some property =>
        cases hconfigurable : property.isConfigurable with
        | false =>
          simp only [deleteOwnProperty, hproperty, hconfigurable]
          exact h.stop hle hproperty hconfigurable
        | true =>
          simp only [deleteOwnProperty, hproperty, hconfigurable, if_true]
          refine (ih fun n hn => ?_).delete h hle hproperty hconfigurable
          rw [getOwnProperty_retain] at hn
          split at hn
          · rename_i hne
            have := h n hn
            have hne : n ≠ oldLen := by simpa using hne
            omega
          · cases hn
    · exact h.withLength (by omega)

theorem Shrinks.bounded (h : Shrinks a newLen result) : result.1.Bounded result.1.arrayLength := by
  intro n hn
  rw [h.left] at hn
  have hkept : ((a.retain (below result.1.arrayLength)).getOwnProperty (.index n)).isSome := hn
  rw [getOwnProperty_retain] at hkept
  split at hkept
  · rename_i hbelow
    exact of_decide_eq_true hbelow
  · cases hkept

theorem Shrinks.untouched (h : Shrinks a newLen result) {key : ArrayKey}
    (hkey : below newLen key = true) :
    result.1.getOwnProperty key = a.getOwnProperty key := by
  have hlength : newLen ≤ result.1.arrayLength := by
    cases hresult : result.2 with
    | true => exact (h.succeeds hresult).1.ge
    | false =>
      obtain ⟨p, -, hp, hlength, -⟩ := h.stops hresult
      omega
  have hbelow : below result.1.arrayLength key = true := by
    cases key with
    | index n => exact decide_eq_true ((of_decide_eq_true hkey : n < newLen).trans_le hlength)
    | string name => rfl
    | symbol id => rfl
  have hkept := getOwnProperty_retain a (below result.1.arrayLength) key
  rw [if_pos hbelow] at hkept
  rw [h.left]
  exact hkept

end Shrinking

end NonFastArray

/-- The comparison of a double with a `uint32_t`. -/
def Double.equalsUint32 (d : Double) (n : Nat) : Bool :=
  d.isfinite && d.scaled == n * Double.one && (n == 0 || !d.signbit)

/-- A value that is given as the length of an array. It is converted twice, to a `uint32_t` and to
a number; a conversion of an object runs code, which may change the array or throw. -/
structure LengthValue (α : Type) where
  isPrimitive : Bool
  firstNumber : NonFastArray α → NonFastArray α × Option Double
  secondNumber : NonFastArray α → NonFastArray α × Option Double
  primitive : isPrimitive = true →
    ∃ number, ∀ a, firstNumber a = (a, number) ∧ secondNumber a = (a, number)

inductive LengthException
  | thrown
  | rangeError
  deriving DecidableEq

/-- The conversion at the start of `setArrayLength`. -/
def LengthValue.convert {α : Type} (value : LengthValue α) (a : NonFastArray α) :
    NonFastArray α × Except LengthException Nat :=
  match value.firstNumber a with
  | (a, none) => (a, .error .thrown)
  | (a, some first) =>
    let newLen := first.toInt32SlowCase.toNat
    match value.secondNumber a with
    | (a, none) => (a, .error .thrown)
    | (a, some number) =>
      if number.equalsUint32 newLen then (a, .ok newLen) else (a, .error .rangeError)

namespace NonFastArray

variable {α : Type} (numberOf : List UInt16 → Int)
  (a : NonFastArray α) (isPrimitive : Bool) (newLen : Nat)

variable (value : LengthValue α)

/-- `ArrayObject::setArrayLength` of a value. -/
def setArrayLengthOfValue : NonFastArray α × Except LengthException Bool :=
  match value.convert a with
  | (a, .error e) => (a, .error e)
  | (a, .ok newLen) =>
    if !value.isPrimitive && !a.isLengthPropertyWritable then (a, .ok false)
    else ((a.setArrayLength numberOf newLen).1, .ok (a.setArrayLength numberOf newLen).2)

/-- `ArraySetLength` after the conversion, for a descriptor that has a value only: a length
that does not become smaller is an ordinary property. -/
def arraySetLength : NonFastArray α × Bool :=
  if a.arrayLength ≤ newLen then
    if a.isLengthPropertyWritable || newLen == a.arrayLength then (a.withLength newLen, true)
    else (a, false)
  else if !a.isLengthPropertyWritable then (a, false)
  else countDown newLen a.arrayLength a

def arraySetLengthOfValue : NonFastArray α × Except LengthException Bool :=
  match value.convert a with
  | (a, .error e) => (a, .error e)
  | (a, .ok newLen) => ((a.arraySetLength newLen).1, .ok (a.arraySetLength newLen).2)

/-- The last element cannot be deleted. -/
def LastFixed : Prop :=
  ∃ n property, a.arrayLength = n + 1 ∧ a.getOwnProperty (.index n) = some property ∧
    property.isConfigurable = false

/-- When the test of a length that is not writable is right. It is made for objects only, and it
does not ask whether the length changes. -/
def TestsWritable : Prop :=
  a.isLengthPropertyWritable = true ∨
    if isPrimitive then newLen = a.arrayLength ∨ newLen < a.arrayLength ∧ a.LastFixed
    else newLen ≠ a.arrayLength

theorem countDown_length {newLen : Nat} : ∀ {oldLen : Nat} {a : NonFastArray α},
    (countDown newLen oldLen a).2 = false → (countDown newLen oldLen a).1.arrayLength ≤ oldLen := by
  intro oldLen
  induction oldLen with
  | zero => exact nofun
  | succ oldLen ih =>
    intro a h
    rw [countDown] at h ⊢
    split at h
    · rename_i hle
      simp only [if_pos hle] at h ⊢
      split at h
      · rename_i hdeleted
        rw [if_pos hdeleted]
        exact (ih h).trans (Nat.le_succ _)
      · rename_i hkept
        rw [if_neg hkept]
        exact Nat.le_refl _
    · cases h

/-- An array that becomes shorter stays as it is only if its last element cannot be deleted. -/
theorem countDown_eq_unchanged_iff {a : NonFastArray α} {newLen : Nat}
    (hlt : newLen < a.arrayLength) :
    countDown newLen a.arrayLength a = (a, false) ↔ a.LastFixed := by
  obtain ⟨n, hn⟩ : ∃ n, a.arrayLength = n + 1 := ⟨a.arrayLength - 1, by omega⟩
  have hwithLength : a.withLength (n + 1) = a := by rw [← hn]; rfl
  rw [hn, countDown, if_pos (by omega)]
  constructor
  · intro h
    cases hproperty : a.getOwnProperty (.index n) with
    | none =>
      simp only [deleteOwnProperty_of_none hproperty, if_true] at h
      have hlength := countDown_length (congrArg Prod.snd h)
      simp only [h] at hlength
      omega
    | some property =>
      cases hconfigurable : property.isConfigurable with
      | false => exact ⟨n, property, hn, hproperty, hconfigurable⟩
      | true =>
        simp only [deleteOwnProperty, hproperty, hconfigurable, if_true] at h
        have hlength := countDown_length (congrArg Prod.snd h)
        simp only [h] at hlength
        omega
  · rintro ⟨m, property, hm, hproperty, hconfigurable⟩
    obtain rfl : m = n := by omega
    simp only [deleteOwnProperty, hproperty, hconfigurable]
    exact congrArg (·, false) hwithLength

theorem tested_eq_arraySetLength_iff :
    (if !isPrimitive && !a.isLengthPropertyWritable then (a, false)
      else a.setArrayLength numberOf newLen) = a.arraySetLength newLen ↔
      a.TestsWritable isPrimitive newLen := by
  rw [setArrayLength, shrink_eq_countDown, arraySetLength, TestsWritable]
  cases hwritable : a.isLengthPropertyWritable with
  | true =>
    simp only [Bool.not_true, Bool.and_false, Bool.true_or, true_or, iff_true, if_true,
      Bool.false_eq_true, if_false]
    split
    · rename_i hle
      exact countDown_of_le hle a
    · rfl
  | false =>
    cases isPrimitive with
    | false =>
      simp only [Bool.not_false, Bool.and_self, Bool.false_or, if_true, Bool.false_eq_true,
        false_or, if_false, beq_iff_eq]
      split
      · split
        · rename_i heq
          simp [heq]
        · rename_i hne
          simp [hne]
      · rename_i hlt
        simp only [true_iff]
        omega
    | true =>
      simp only [Bool.not_true, Bool.false_and, Bool.false_or, Bool.false_eq_true, if_false,
        false_or, if_true, Bool.not_false, beq_iff_eq]
      split
      · rename_i hle
        rw [countDown_of_le hle]
        split
        · rename_i heq
          simp [heq]
        · rename_i hne
          have hlt : ¬ newLen < a.arrayLength := by omega
          simp [hne, hlt]
      · rename_i hlt
        have hne : newLen ≠ a.arrayLength := by omega
        rw [countDown_eq_unchanged_iff (by omega)]
        simp only [hne, false_or]
        exact ⟨fun h => ⟨by omega, h⟩, fun h => h.2⟩

theorem setArrayLengthOfValue_eq_iff :
    a.setArrayLengthOfValue numberOf value = a.arraySetLengthOfValue value ↔
      ∀ converted newLen, value.convert a = (converted, .ok newLen) →
        converted.TestsWritable value.isPrimitive newLen := by
  rw [setArrayLengthOfValue, arraySetLengthOfValue]
  rcases value.convert a with ⟨converted, e | newLen⟩
  · exact iff_of_true rfl nofun
  · have htested := converted.tested_eq_arraySetLength_iff numberOf value.isPrimitive newLen
    constructor
    · rintro h _ _ ⟨⟩
      refine htested.1 ?_
      simp only at h
      split at h
      · rename_i htest
        rw [if_pos htest]
        simp only [Prod.mk.injEq, Except.ok.injEq] at h
        exact Prod.ext h.1 h.2
      · rename_i htest
        rw [if_neg htest]
        simp only [Prod.mk.injEq, Except.ok.injEq] at h
        exact Prod.ext h.1 h.2
    · intro h
      have heq := htested.2 (h converted newLen rfl)
      simp only
      rw [← heq]
      split <;> rfl

/-- Setting the length of an array in non-fast mode does what counting down does, whatever is
enumerated: it deletes elements from the end, as far as they can be deleted. A value agrees with
`ArraySetLength` exactly when the test of a length that is not writable is right. -/
theorem setArrayLength_counts_down : (∀ (a : NonFastArray α) (newLength : Nat),
      a.setArrayLength numberOf newLength = countDown newLength a.arrayLength a) ∧
    (∀ (a : { a : NonFastArray α // a.Bounded a.arrayLength }) (newLength : Nat),
      Shrinks a.1 newLength (a.1.setArrayLength numberOf newLength) ∧
      (a.1.setArrayLength numberOf newLength).1.Bounded
        (a.1.setArrayLength numberOf newLength).1.arrayLength ∧
      ∀ key, below newLength key = true →
        (a.1.setArrayLength numberOf newLength).1.getOwnProperty key = a.1.getOwnProperty key) ∧
    ∀ (a : NonFastArray α) (value : LengthValue α),
      a.setArrayLengthOfValue numberOf value = a.arraySetLengthOfValue value ↔
        ∀ converted newLen, value.convert a = (converted, .ok newLen) →
          converted.TestsWritable value.isPrimitive newLen := by
  refine ⟨fun a newLength => shrink_eq_countDown numberOf newLength a.arrayLength a,
    fun a newLength => ?_, setArrayLengthOfValue_eq_iff numberOf⟩
  have hshrinks : Shrinks a.1 newLength (a.1.setArrayLength numberOf newLength) := by
    rw [setArrayLength, shrink_eq_countDown]
    exact countDown_shrinks newLength a.2
  exact ⟨hshrinks, hshrinks.bounded, fun key hkey => hshrinks.untouched hkey⟩

/-- An array of two elements, the first of them an accessor. -/
def pair : NonFastArray Nat where
  properties := [(.index 0, .accessor none none true true), (.index 1, .plain 7)]
  arrayLength := 2
  isLengthPropertyWritable := true
  prototypes := []
  nodup := by decide

/-- An object that converts to two and makes the length of the array not writable. -/
def freezing : LengthValue Nat where
  isPrimitive := false
  firstNumber a := ({ a with isLengthPropertyWritable := false }, some 0x4000000000000000)
  secondNumber a := (a, some 0x4000000000000000)
  primitive := fun h => absurd h Bool.false_ne_true

/-- The length stays what it is, and is refused all the same. -/
theorem same_length_is_refused : (pair.setArrayLengthOfValue (fun _ => 0) freezing).2 = .ok false ∧
      (pair.arraySetLengthOfValue freezing).2 = .ok true := by
  decide +kernel

end NonFastArray

end Escargot.Runtime
