/-
# Array.prototype.unshift

`unshift` moves the elements of an array-like up, from the last to the first.
Where an element is absent, it goes on below the gap, at the index that
`nextIndexBackward` gives, if the gap is longer than the list of arguments. Each
round that it leaves out would have deleted the element that many places above.
-/

import Escargot.Runtime.NonFastArray

namespace Escargot.Builtins

open List Option Escargot.Runtime

/-- An object of the prototype chain of the receiver; it has at least the elements that its
enumeration gives. -/
structure Prototype (α : Type) where
  isOrdinary : Bool
  getOwnProperty : ArrayKey → Option (Property α)
  indices : List Int
  enumerated : isOrdinary = true →
    ∀ n : Nat, (getOwnProperty (.index n)).isSome → (n : Int) ∈ indices

structure ArrayLength where
  arrayLength : Nat
  isLengthPropertyWritable : Bool

/-- The receiver: an array in non-fast mode, or another object, whose `length` is an ordinary
property. -/
structure ArrayLike (α : Type) where
  isOrdinary : Bool
  isExtensible : Bool
  properties : List (ArrayKey × Property α)
  nodup : (properties.map Prod.fst).Nodup
  array : Option ArrayLength
  prototypes : List (Prototype α)

/-- What a builtin throws, with the key that the message names. -/
inductive ArrayException
  | cannotWrite (key : ArrayKey)
  | cannotDelete (key : ArrayKey)
  | lengthTooLong
  | invalidArrayLength
  deriving DecidableEq

/-- The object that is left, and the exception if there is one. -/
abbrev Outcome (α : Type) := ArrayLike α × Option ArrayException

/-- Goes on unless there is an exception. -/
def Outcome.andThen {α : Type} (outcome : Outcome α) (next : ArrayLike α → Outcome α) : Outcome α :=
  match outcome with
  | (o, none) => next o
  | (o, some e) => (o, some e)

namespace ArrayLike

variable {α : Type} (o : ArrayLike α) (key : ArrayKey) (value : α)

def getOwnProperty : Option (Property α) :=
  (o.properties.find? fun item => item.1 = key).map Prod.snd

def inherited : Option (Property α) :=
  o.prototypes.findSome? fun prototype => prototype.getOwnProperty key

/-- `Object::hasProperty`, with the property it finds. -/
def hasProperty : Option (Property α) := (o.getOwnProperty key).or (o.inherited key)

theorem getOwnProperty_eq_none_iff :
    o.getOwnProperty key = none ↔ key ∉ o.properties.map Prod.fst := by
  simp only [getOwnProperty, map_eq_none_iff, find?_eq_none, decide_eq_true_eq,
    List.mem_map, not_exists, not_and]

/-- The object with a property changed, or added at the end. -/
def put (property : Property α) : ArrayLike α :=
  if h : key ∈ o.properties.map Prod.fst then
    { o with
      properties := o.properties.map fun item => if item.1 = key then (key, property) else item
      nodup := by
        have hkeys : (o.properties.map fun item =>
            if item.1 = key then (key, property) else item).map Prod.fst =
            o.properties.map Prod.fst := by
          rw [List.map_map]
          refine map_congr_left fun item _ => ?_
          rw [Function.comp_apply]
          split
          · rename_i hkey
            exact hkey.symm
          · rfl
        rw [hkeys]
        exact o.nodup }
  else
    { o with
      properties := o.properties ++ [(key, property)]
      nodup := by
        rw [map_append, nodup_append]
        refine ⟨o.nodup, pairwise_singleton _ _, ?_⟩
        rintro other hother _ hkey rfl
        have hkey : other = key := by simpa using hkey
        exact h (hkey ▸ hother) }

/-- The object without a property. -/
def erase : ArrayLike α :=
  { o with
    properties := o.properties.filter fun item => item.1 ≠ key
    nodup := o.nodup.sublist (List.filter_sublist.map Prod.fst) }

def deleteOwnProperty : ArrayLike α × Bool :=
  match o.getOwnProperty key with
  | some property => if property.isConfigurable then (o.erase key, true) else (o, false)
  | none => (o, true)

/-- The definition of a property that is absent, with all attributes. An array grows with an
index at its length or above. -/
def create : ArrayLike α × Bool :=
  match o.array, key with
  | some array, .index n =>
    if n < 2 ^ 32 - 1 ∧ array.arrayLength ≤ n then
      if !array.isLengthPropertyWritable then (o, false)
      else if !o.isExtensible then (o, false)
      else ({ o.put key (.plain value) with
        array := some { array with arrayLength := n + 1 } }, true)
    else if !o.isExtensible then (o, false)
    else (o.put key (.plain value), true)
  | _, _ => if !o.isExtensible then (o, false) else (o.put key (.plain value), true)

/-- `Object::set` with the object itself as the receiver. A setter has no effect. -/
def set : ArrayLike α × Bool :=
  match o.getOwnProperty key with
  | some (.data _ writable enumerable configurable) =>
    if writable then (o.put key (.data value writable enumerable configurable), true)
    else (o, false)
  | some (.accessor _ setter _ _) => (o, setter.isSome)
  | none =>
    match o.inherited key with
    | some (.data _ writable _ _) => if writable then o.create key value else (o, false)
    | some (.accessor _ setter _ _) => (o, setter.isSome)
    | none => o.create key value

def setThrowsException : Outcome α :=
  ((o.set key value).1, if (o.set key value).2 then none else some (.cannotWrite key))

def deleteOwnPropertyThrowsException : Outcome α :=
  ((o.deleteOwnProperty key).1,
    if (o.deleteOwnProperty key).2 then none else some (.cannotDelete key))

/-- The loop that writes the arguments. -/
def writeItems (o : ArrayLike α) : List α → Nat → Outcome α
  | [], _ => (o, none)
  | e :: items, j => (o.setThrowsException (.index j) e).andThen fun o => o.writeItems items (j + 1)

/-- The array as the model of `setArrayLength` has it. -/
def toNonFastArray (array : ArrayLength) : NonFastArray α where
  properties := o.properties
  arrayLength := array.arrayLength
  isLengthPropertyWritable := array.isLengthPropertyWritable
  prototypes := o.prototypes.map fun prototype => ⟨prototype.isOrdinary, prototype.indices⟩
  nodup := o.nodup

/-- The array after `setArrayLength`. -/
def ofNonFastArray (a : NonFastArray α) : ArrayLike α :=
  { o with
    properties := a.properties
    nodup := a.nodup
    array := some ⟨a.arrayLength, a.isLengthPropertyWritable⟩ }

end ArrayLike

/-- A call of `unshift`, with the conversions of the environment: the number that a name converts
to, the value of a number, what a getter gives, which has no effect, and `ToLength`. -/
structure UnshiftCall (α : Type) where
  numberOf : List UInt16 → Int
  ofNumber : Nat → α
  undefined : α
  callGetter : α → α
  toLength : α → Nat
  argv : List α

namespace UnshiftCall

variable {α : Type} (call : UnshiftCall α)

def argCount : Nat := call.argv.length

def maximumLength : Nat := 2 ^ 53 - 1

def valueOf : Property α → α
  | .data value _ _ _ => value
  | .accessor (some getter) _ _ _ => call.callGetter getter
  | .accessor none _ _ _ => call.undefined

variable (fromPresent : Bool) (k : Nat) (o : ArrayLike α)

def length : Nat :=
  match o.array with
  | some array => array.arrayLength
  | none =>
    match o.hasProperty (.string NonFastArray.lengthName) with
    | some property => call.toLength (call.valueOf property)
    | none => call.toLength call.undefined

/-- The enumeration of the receiver; that of an array begins with `length`. -/
def enumeration : EnumeratedObject where
  isOrdinary := o.isOrdinary
  indices :=
    (if o.array.isSome then [call.numberOf NonFastArray.lengthName] else []) ++
      o.properties.filterMap fun item => NonFastArray.indexOfKey call.numberOf item.1

/-- `Object::nextIndexBackward` of the receiver. -/
def lastIndexBelow (k : Nat) : Int :=
  nextIndexBackward (call.enumeration o ::
    o.prototypes.map fun prototype => ⟨prototype.isOrdinary, prototype.indices⟩) k (-1)

/-- One round of the loop: the element below `k` is moved up, or the target is deleted. -/
def moveElement : Outcome α :=
  match o.hasProperty (.index (k - 1)) with
  | some property => o.setThrowsException (.index (k + call.argCount - 1)) (call.valueOf property)
  | none => o.deleteOwnPropertyThrowsException (.index (k + call.argCount - 1))

/-- The next `k`, where `o` is the object after the round. -/
def nextPosition : Nat :=
  if fromPresent then k - 1
  else
    let result := call.lastIndexBelow o k
    let r := max (result + 1) (result - call.argCount + 1)
    if r < k ∧ (r - k).natAbs > call.argCount then r.toNat else k - 1

theorem nextPosition_lt {k : Nat} (h : 0 < k) (fromPresent : Bool) (o : ArrayLike α) :
    call.nextPosition fromPresent k o < k := by
  unfold nextPosition
  split
  · omega
  · simp only
    split <;> omega

def moveLoop (k : Nat) (o : ArrayLike α) : Outcome α :=
  if _ : 0 < k then
    match call.moveElement k o with
    | (moved, none) =>
      moveLoop (call.nextPosition (o.hasProperty (.index (k - 1))).isSome k moved) moved
    | (moved, some e) => (moved, some e)
  else (o, none)
termination_by k
decreasing_by exact call.nextPosition_lt (by assumption) _ _

/-- The loop of the specification, which visits every `k`. -/
def plainLoop : Nat → ArrayLike α → Outcome α
  | 0, o => (o, none)
  | k + 1, o => (call.moveElement (k + 1) o).andThen (plainLoop k)

/-- The assignment of `length` at the end. -/
def setLength (length : Nat) (o : ArrayLike α) : Outcome α :=
  match o.array with
  | none => o.setThrowsException (.string NonFastArray.lengthName) (call.ofNumber length)
  | some array =>
    if !array.isLengthPropertyWritable then
      (o, some (.cannotWrite (.string NonFastArray.lengthName)))
    else if 2 ^ 32 ≤ length then (o, some .invalidArrayLength)
    else
      let shrunk := (o.toNonFastArray array).setArrayLength call.numberOf length
      (o.ofNonFastArray shrunk.1,
        if shrunk.2 then none else some (.cannotWrite (.string NonFastArray.lengthName)))

/-- What follows the loop that moves the elements. -/
def finish (len : Nat) (o : ArrayLike α) : Outcome α :=
  (o.writeItems call.argv 0).andThen (call.setLength (len + call.argCount))

def unshiftWith (loop : Nat → ArrayLike α → Outcome α) (o : ArrayLike α) : Outcome α :=
  let len := call.length o
  if call.argCount = 0 then call.setLength len o
  else if len + call.argCount > maximumLength then (o, some .lengthTooLong)
  else (loop len o).andThen (call.finish len)

def builtinArrayUnshift : Outcome α := call.unshiftWith call.moveLoop o

def plainUnshift : Outcome α := call.unshiftWith call.plainLoop o

end UnshiftCall

namespace ArrayLike

variable {α : Type} {o o' : ArrayLike α} {key : ArrayKey}

def Fits (o : ArrayLike α) (total : Nat) : Prop :=
  ∀ array, o.array = some array → array.arrayLength ≤ total

/-- An object differs from another in one property and in its length. -/
structure Touches (key : ArrayKey) (o o' : ArrayLike α) : Prop where
  isOrdinary : o'.isOrdinary = o.isOrdinary
  prototypes : o'.prototypes = o.prototypes
  isArray : o'.array.isSome = o.array.isSome
  own : ∀ other, other ≠ key → o'.getOwnProperty other = o.getOwnProperty other
  fits : ∀ total, (∀ n, key = .index n → n < total) → o.Fits total → o'.Fits total

variable (key) (o)

theorem Touches.refl (o : ArrayLike α) : Touches key o o :=
  ⟨rfl, rfl, rfl, fun _ _ => rfl, fun _ _ h => h⟩

theorem getOwnProperty_erase (key other : ArrayKey) :
    (o.erase key).getOwnProperty other = if other = key then none else o.getOwnProperty other := by
  split
  · rename_i hother
    rw [getOwnProperty_eq_none_iff, hother]
    simp [erase]
  · rename_i hother
    have hsame : (fun item : ArrayKey × Property α =>
        decide (decide (item.1 ≠ key) = true ∧ decide (item.1 = other) = true)) =
        fun item => decide (item.1 = other) := by
      funext item
      by_cases hitem : item.1 = other
      · simp [hitem, hother]
      · simp [hitem]
    rw [getOwnProperty, erase, find?_filter, hsame, getOwnProperty]

theorem touches_erase : Touches key o (o.erase key) :=
  ⟨rfl, rfl, rfl, fun other hother => by rw [getOwnProperty_erase, if_neg hother], fun _ _ h => h⟩

theorem touches_put (property : Property α) : Touches key o (o.put key property) := by
  rw [put]
  split
  · refine ⟨rfl, rfl, rfl, fun other hother => ?_, fun _ _ h => h⟩
    simp only [getOwnProperty, find?_map, Option.map_map]
    have hsame : ((fun item : ArrayKey × Property α => decide (item.1 = other)) ∘
        fun item : ArrayKey × Property α => if item.1 = key then (key, property) else item) =
        fun item => decide (item.1 = other) := by
      funext item
      rw [Function.comp_apply]
      split
      · rename_i hitem
        rw [hitem]
      · rfl
    rw [hsame]
    cases hfind : o.properties.find? fun item => decide (item.1 = other) with
    | none => rfl
    | some item =>
      have hitem : item.1 = other := by simpa using find?_some hfind
      simp [hitem, hother]
  · refine ⟨rfl, rfl, rfl, fun other hother => ?_, fun _ _ h => h⟩
    have hnew : ([(key, property)] : List (ArrayKey × Property α)).find?
        (fun item => decide (item.1 = other)) = none := by
      simp [Ne.symm hother]
    rw [getOwnProperty, find?_append, hnew, or_none, getOwnProperty]

theorem touches_create (value : α) : Touches key o (o.create key value).1 := by
  have hput := touches_put o key (.plain value)
  unfold create
  split
  · rename_i array n heq
    split
    · split
      · exact .refl _ o
      · split
        · exact .refl _ o
        · refine ⟨hput.isOrdinary, hput.prototypes, ?_, hput.own, fun total hlt _ => ?_⟩
          · rw [heq]
            rfl
          · rintro _ ⟨⟩
            exact hlt n rfl
    · split
      · exact .refl _ o
      · exact hput
  · split
    · exact .refl _ o
    · exact hput

theorem touches_set (value : α) : Touches key o (o.set key value).1 := by
  unfold set
  split
  · split
    · exact touches_put o key _
    · exact .refl key o
  · exact .refl key o
  · split
    · split
      · exact touches_create o key value
      · exact .refl key o
    · exact .refl key o
    · exact touches_create o key value

theorem touches_deleteOwnProperty : Touches key o (o.deleteOwnProperty key).1 := by
  unfold deleteOwnProperty
  split
  · split
    · exact touches_erase o key
    · exact .refl key o
  · exact .refl key o

variable {key} {o}

theorem Touches.hasProperty (h : Touches key o o') {other : ArrayKey} (hother : other ≠ key) :
    o'.hasProperty other = o.hasProperty other := by
  rw [ArrayLike.hasProperty, ArrayLike.hasProperty, h.own other hother, inherited, inherited,
    h.prototypes]

end ArrayLike

/-- What the rounds below a bound leave alone, and what they cannot throw. -/
structure Frame {α : Type} (bound total : Nat) (o : ArrayLike α) (outcome : Outcome α) :
    Prop where
  fits : o.Fits total → outcome.1.Fits total
  own : o.Fits total → ∀ j, bound ≤ j →
    outcome.1.getOwnProperty (.index j) = o.getOwnProperty (.index j)
  names : ∀ j, bound ≤ j → outcome.2 ≠ some (.cannotDelete (.index j))

namespace Frame

variable {α : Type} {bound total : Nat} {o : ArrayLike α}

theorem done (o : ArrayLike α) : Frame bound total o (o, none) :=
  ⟨fun h => h, fun _ _ _ => rfl, nofun⟩

variable {outcome : Outcome α}

theorem mono {bound' : Nat} (h : Frame bound total o outcome) (hle : bound ≤ bound') :
    Frame bound' total o outcome :=
  ⟨h.fits, fun hfits j hj => h.own hfits j (hle.trans hj), fun j hj => h.names j (hle.trans hj)⟩

theorem andThen {next : ArrayLike α → Outcome α} (h : Frame bound total o outcome)
    (hnext : ∀ o, Frame bound total o (next o)) :
    Frame bound total o (outcome.andThen next) := by
  rcases outcome with ⟨o', _ | e⟩
  · exact ⟨fun hfits => (hnext o').fits (h.fits hfits),
      fun hfits j hj => ((hnext o').own (h.fits hfits) j hj).trans (h.own hfits j hj),
      (hnext o').names⟩
  · exact h

theorem of_touches {key : ArrayKey} (h : o.Touches key outcome.1)
    (hkey : ∀ n, key = .index n → n < bound ∧ n < total)
    (hnames : ∀ j, bound ≤ j → outcome.2 ≠ some (.cannotDelete (.index j))) :
    Frame bound total o outcome where
  fits := h.fits total fun n hn => (hkey n hn).2
  own _ j hj := h.own (.index j) fun hn => absurd (hkey j hn.symm).1 (by omega)
  names := hnames

theorem setThrowsException (o : ArrayLike α) {key : ArrayKey} (value : α)
    (hkey : ∀ n, key = .index n → n < bound ∧ n < total) :
    Frame bound total o (o.setThrowsException key value) :=
  of_touches (o.touches_set key value) hkey fun j _ => by
    unfold ArrayLike.setThrowsException
    split <;> simp

theorem deleteOwnPropertyThrowsException (o : ArrayLike α) {n : Nat} (hbound : n < bound)
    (htotal : n < total) :
    Frame bound total o (o.deleteOwnPropertyThrowsException (.index n)) :=
  of_touches (o.touches_deleteOwnProperty (.index n)) (by rintro _ ⟨⟩; exact ⟨hbound, htotal⟩)
    fun j hj => by
      unfold ArrayLike.deleteOwnPropertyThrowsException
      split
      · simp
      · simp only [ne_eq, Option.some.injEq, ArrayException.cannotDelete.injEq,
          ArrayKey.index.injEq]
        omega

theorem writeItems : ∀ (items : List α) {j : Nat} (o : ArrayLike α), j + items.length ≤ bound →
    bound ≤ total → Frame bound total o (o.writeItems items j) := by
  intro items
  induction items with
  | nil => exact fun o _ _ => done o
  | cons e items ih =>
    intro j o hbound htotal
    rw [length_cons] at hbound
    refine (setThrowsException o e ?_).andThen fun o => ih o (by omega) htotal
    rintro _ ⟨⟩
    exact ⟨by omega, by omega⟩

end Frame

namespace UnshiftCall

variable {α : Type} (call : UnshiftCall α)

theorem frame_moveElement {k bound total : Nat} (hk : 0 < k) (hbound : k + call.argCount ≤ bound)
    (htotal : bound ≤ total) (o : ArrayLike α) : Frame bound total o (call.moveElement k o) := by
  unfold moveElement
  split
  · refine .setThrowsException o _ ?_
    rintro _ ⟨⟩
    exact ⟨by omega, by omega⟩
  · exact .deleteOwnPropertyThrowsException o (by omega) (by omega)

theorem frame_plainLoop {bound total : Nat} (htotal : bound ≤ total) : ∀ {k : Nat},
    k + call.argCount ≤ bound → ∀ o, Frame bound total o (call.plainLoop k o) := by
  intro k
  induction k with
  | zero => exact fun _ o => .done o
  | succ k ih =>
    intro hbound o
    exact (call.frame_moveElement (Nat.succ_pos k) hbound htotal o).andThen (ih (by omega))

theorem moveLoop_of_pos {k : Nat} (hk : 0 < k) (o : ArrayLike α) :
    call.moveLoop k o = (call.moveElement k o).andThen fun moved =>
      call.moveLoop (call.nextPosition (o.hasProperty (.index (k - 1))).isSome k moved) moved := by
  rw [moveLoop, dif_pos hk]
  rcases call.moveElement k o with ⟨moved, _ | e⟩ <;> rfl

theorem moveLoop_zero (o : ArrayLike α) : call.moveLoop 0 o = (o, none) := by
  rw [moveLoop, dif_neg (Nat.lt_irrefl 0)]

theorem frame_moveLoop {bound total : Nat} (htotal : bound ≤ total) : ∀ {k : Nat},
    k + call.argCount ≤ bound → ∀ o, Frame bound total o (call.moveLoop k o) := by
  intro k
  induction k using Nat.strong_induction_on with
  | _ k ih =>
    intro hbound o
    rcases Nat.eq_zero_or_pos k with rfl | hk
    · rw [moveLoop_zero]
      exact .done o
    · rw [call.moveLoop_of_pos hk]
      refine (call.frame_moveElement hk hbound htotal o).andThen fun moved => ?_
      have hlt := call.nextPosition_lt hk (o.hasProperty (.index (k - 1))).isSome moved
      exact ih _ hlt (by omega) moved

theorem frame_finish (len : Nat) (o : ArrayLike α) :
    Frame call.argCount (len + call.argCount) o (call.finish len o) := by
  refine (Frame.writeItems call.argv o (by simp [argCount]) (by omega)).andThen fun o => ?_
  unfold setLength
  split
  · exact .setThrowsException o _ fun _ h => by cases h
  · rename_i array harray
    split
    · exact ⟨fun h => h, fun _ _ _ => rfl, fun _ _ => by simp⟩
    · split
      · exact ⟨fun h => h, fun _ _ _ => rfl, fun _ _ => by simp⟩
      · simp only [NonFastArray.setArrayLength, NonFastArray.shrink_eq_countDown]
        by_cases hle : array.arrayLength ≤ len + call.argCount
        · have hgrow : NonFastArray.countDown (len + call.argCount)
              (o.toNonFastArray array).arrayLength (o.toNonFastArray array) = _ :=
            NonFastArray.countDown_of_le hle _
          rw [hgrow]
          refine ⟨fun _ => ?_, fun _ _ _ => rfl, fun _ _ h => by cases h⟩
          rintro _ ⟨⟩
          exact Nat.le_refl _
        · refine ⟨fun hfits => absurd (hfits array harray) hle,
            fun hfits => absurd (hfits array harray) hle, fun j _ => ?_⟩
          split <;> simp

section Search

variable {call} {o o' : ArrayLike α} {k n : Nat}

theorem mem_filterMap_iff (index : Int) :
    (index ∈ o.properties.filterMap fun item => NonFastArray.indexOfKey call.numberOf item.1) ↔
      ∃ key, (o.getOwnProperty key).isSome ∧
        NonFastArray.indexOfKey call.numberOf key = some index := by
  rw [mem_filterMap]
  constructor
  · rintro ⟨item, hitem, hindex⟩
    refine ⟨item.1, ?_, hindex⟩
    rw [isSome_iff_ne_none, ne_eq, o.getOwnProperty_eq_none_iff, not_not]
    exact List.mem_map_of_mem hitem
  · rintro ⟨key, hkey, hindex⟩
    rw [isSome_iff_ne_none, ne_eq, o.getOwnProperty_eq_none_iff, not_not] at hkey
    obtain ⟨item, hitem, rfl⟩ := List.mem_map.1 hkey
    exact ⟨item, hitem, hindex⟩

variable (call)

/-- A change at the position or above does not change what is found below it. -/
theorem lastIndexBelow_of_touches (h : o.Touches (.index n) o') (hk : k ≤ n) :
    call.lastIndexBelow o' k = call.lastIndexBelow o k := by
  have hown : ∀ {first second : ArrayLike α} (index : Int), index < k →
      (∀ other, other ≠ .index n → second.getOwnProperty other = first.getOwnProperty other) →
      (index ∈ first.properties.filterMap
        fun item => NonFastArray.indexOfKey call.numberOf item.1) →
      index ∈ second.properties.filterMap
        fun item => NonFastArray.indexOfKey call.numberOf item.1 := by
    intro first second index hindex hsame hmem
    obtain ⟨key, hkey, hkeyIndex⟩ := (mem_filterMap_iff index).1 hmem
    refine (mem_filterMap_iff index).2 ⟨key, ?_, hkeyIndex⟩
    have hne : key ≠ .index n := by
      rintro rfl
      have hn : (n : Int) = index := Option.some.inj hkeyIndex
      omega
    rw [hsame key hne]
    exact hkey
  rw [lastIndexBelow, lastIndexBelow, h.prototypes]
  refine nextIndexBackward_congr h.isOrdinary (fun index hindex => ?_) _
  simp only [enumeration, h.isArray, mem_append]
  refine or_congr_right ⟨fun hmem => ?_, fun hmem => ?_⟩
  · exact hown index hindex (fun other hother => (h.own other hother).symm) hmem
  · exact hown index hindex h.own hmem

theorem lastIndexBelow_bounds (o : ArrayLike α) (k : Nat) :
    -1 ≤ call.lastIndexBelow o k ∧ call.lastIndexBelow o k ≤ k - 1 := by
  have hspec := nextIndexBackward_spec (call.enumeration o ::
    o.prototypes.map fun prototype => ⟨prototype.isOrdinary, prototype.indices⟩)
    (show (-1 : Int) ≤ k - 1 by omega)
  exact ⟨hspec.1, hspec.2.1⟩

theorem hasProperty_of_lastIndexBelow_lt (hlt : call.lastIndexBelow o k < n) (hk : n < k) :
    o.hasProperty (.index n) = none := by
  have hspec := nextIndexBackward_spec (call.enumeration o ::
    o.prototypes.map fun prototype => ⟨prototype.isOrdinary, prototype.indices⟩)
    (show (-1 : Int) ≤ k - 1 by omega)
  rw [lastIndexBelow] at hlt
  rw [ArrayLike.hasProperty, or_eq_none_iff]
  constructor
  · by_contra hown
    have hmem : (n : Int) ∈ (call.enumeration o).indices :=
      mem_append_right _ ((mem_filterMap_iff _).2
        ⟨.index n, Option.isSome_iff_ne_none.2 hown, rfl⟩)
    have := hspec.2.2 _ mem_cons_self n hmem (by omega) (by omega)
    omega
  · rw [ArrayLike.inherited, findSome?_eq_none_iff]
    intro prototype hprototype
    by_contra hinherited
    have hchain : (⟨prototype.isOrdinary, prototype.indices⟩ : EnumeratedObject) ∈
        call.enumeration o ::
          o.prototypes.map fun prototype => ⟨prototype.isOrdinary, prototype.indices⟩ :=
      mem_cons_of_mem _ (List.mem_map_of_mem hprototype)
    cases hordinary : prototype.isOrdinary with
    | false =>
      rw [nextIndexBackward_of_not_isOrdinary hchain hordinary] at hlt
      omega
    | true =>
      have hmem := prototype.enumerated hordinary n (Option.isSome_iff_ne_none.2 hinherited)
      have := hspec.2.2 _ hchain n hmem (by omega) (by omega)
      omega

end Search

variable (k : Nat) (o : ArrayLike α)

/-- The loop leaves rounds out after this one. -/
def Jumps : Prop :=
  o.hasProperty (.index (k - 1)) = none ∧ call.lastIndexBelow o k + 1 + call.argCount < k

def roundsDownTo (last : Nat) : Nat → ArrayLike α → Outcome α
  | 0, o => (o, none)
  | k + 1, o =>
    if last ≤ k + 1 then (call.moveElement (k + 1) o).andThen (roundsDownTo last k) else (o, none)

def NothingToDelete : Prop :=
  ∀ j, k ≤ j → j + 2 ≤ k + call.argCount → o.getOwnProperty (.index j) = none

theorem nextPosition_false {k : Nat} (o : ArrayLike α) : call.nextPosition false k o =
      if call.lastIndexBelow o k + 1 + call.argCount < k then (call.lastIndexBelow o k + 1).toNat
      else k - 1 := by
  have hmax : max (call.lastIndexBelow o k + 1) (call.lastIndexBelow o k - call.argCount + 1) =
      call.lastIndexBelow o k + 1 := by omega
  simp only [nextPosition, Bool.false_eq_true, if_false, hmax]
  refine if_congr ?_ rfl rfl
  omega

section Gap

variable {call} {o moved : ArrayLike α} {k r total : Nat}

theorem touches_moveElement (call : UnshiftCall α) (k : Nat) (o : ArrayLike α) :
    o.Touches (.index (k + call.argCount - 1)) (call.moveElement k o).1 := by
  unfold moveElement
  split
  · exact o.touches_set _ _
  · exact o.touches_deleteOwnProperty _

theorem jumps_iff {n : Nat} (h : o.Touches (.index n) moved) (hk : 0 < k) (hle : k ≤ n) :
    call.Jumps k moved ↔ call.Jumps k o := by
  have hfrom : ArrayKey.index (k - 1) ≠ .index n := by
    rintro ⟨⟩
    omega
  rw [Jumps, Jumps, h.hasProperty hfrom, call.lastIndexBelow_of_touches h hle]

theorem nothingToDelete_iff {n : Nat} (h : o.Touches (.index n) moved)
    (hle : k + call.argCount ≤ n + 1) :
    call.NothingToDelete k moved ↔ call.NothingToDelete k o := by
  refine forall_congr' fun j => forall_congr' fun _ => forall_congr' fun hj => ?_
  rw [h.own (.index j) (by rintro ⟨⟩; omega)]

/-- There are no elements from `r` up to `k`. -/
def Empty (r k : Nat) (o : ArrayLike α) : Prop :=
  ∀ n, r ≤ n → n < k → o.hasProperty (.index n) = none

theorem Empty.touches {n : Nat} (h : Empty r k o) (htouches : o.Touches (.index n) moved)
    (hk : k ≤ n) : Empty r k moved := fun m hm hlt => by
  rw [htouches.hasProperty (by rintro ⟨⟩; omega)]
  exact h m hm hlt

theorem moveElement_of_empty (h : Empty r (k + 1) o) (hle : r ≤ k) : call.moveElement (k + 1) o =
      o.deleteOwnPropertyThrowsException (.index (k + call.argCount)) := by
  have htarget : k + 1 + call.argCount - 1 = k + call.argCount := by omega
  rw [moveElement, Nat.add_sub_cancel, h k hle (Nat.lt_succ_self k), htarget]

theorem deleteOwnPropertyThrowsException_of_none {key : ArrayKey}
    (h : o.getOwnProperty key = none) : o.deleteOwnPropertyThrowsException key = (o, none) := by
  simp only [ArrayLike.deleteOwnPropertyThrowsException, ArrayLike.deleteOwnProperty, h]
  rfl

theorem rounds_of_empty (call : UnshiftCall α) (hr : r ≤ k) : Empty r k o →
      (∀ j, r + call.argCount ≤ j → j < k + call.argCount → o.getOwnProperty (.index j) = none) →
      call.plainLoop k o = call.plainLoop r o ∧
        ∀ last, last ≤ r → call.roundsDownTo last k o = call.roundsDownTo last r o := by
  induction k, hr using Nat.le_induction with
  | base => exact fun _ _ => ⟨rfl, fun _ _ => rfl⟩
  | succ k hr ih =>
    intro hempty hnone
    have hmove : call.moveElement (k + 1) o = (o, none) := by
      rw [moveElement_of_empty hempty hr,
        deleteOwnPropertyThrowsException_of_none (hnone _ (by omega) (by omega))]
    obtain ⟨hplain, hrounds⟩ := ih (fun n hn hlt => hempty n hn (by omega))
      fun j hj hlt => hnone j hj (by omega)
    refine ⟨?_, fun last hlast => ?_⟩
    · rw [plainLoop, hmove]
      exact hplain
    · rw [roundsDownTo, if_pos (by omega), hmove]
      exact hrounds last hlast

theorem plainLoop_deletes (hA : 0 < call.argCount) {j : Nat} (hr : r ≤ k)
    (hlow : r + call.argCount ≤ j) : ∀ {o : ArrayLike α}, Empty r k o → o.Fits total →
      k + call.argCount ≤ total → j < k + call.argCount →
      (∃ n, r + call.argCount ≤ n ∧ (call.plainLoop k o).2 = some (.cannotDelete (.index n))) ∨
      (call.plainLoop k o).1.getOwnProperty (.index j) = none := by
  induction k, hr using Nat.le_induction with
  | base => exact fun _ _ _ hj => absurd hj (by omega)
  | succ k hr ih =>
    intro o hempty hfits htotal hj
    have hrest : Empty r k o := fun n hn hlt => hempty n hn (by omega)
    rw [plainLoop, moveElement_of_empty hempty hr]
    by_cases hlast : j = k + call.argCount
    · subst hlast
      cases hproperty : o.getOwnProperty (.index (k + call.argCount)) with
      | none =>
        rw [deleteOwnPropertyThrowsException_of_none hproperty]
        have hframe := call.frame_plainLoop (show k + call.argCount ≤ total by omega)
          (Nat.le_refl _) o
        exact .inr ((hframe.own hfits _ (Nat.le_refl _)).trans hproperty)
      | some property =>
        cases hconfigurable : property.isConfigurable with
        | false =>
          refine .inl ⟨k + call.argCount, by omega, ?_⟩
          simp only [ArrayLike.deleteOwnPropertyThrowsException,
            ArrayLike.deleteOwnProperty, hproperty, hconfigurable]
          rfl
        | true =>
          have hframe := call.frame_plainLoop (show k + call.argCount ≤ total by omega)
            (Nat.le_refl _) (o.erase (.index (k + call.argCount)))
          refine .inr (Eq.trans ?_ ((hframe.own hfits _ (Nat.le_refl _)).trans
            (by rw [ArrayLike.getOwnProperty_erase, if_pos rfl])))
          simp only [ArrayLike.deleteOwnPropertyThrowsException,
            ArrayLike.deleteOwnProperty, hproperty, hconfigurable]
          rfl
    · have htouches := o.touches_deleteOwnProperty (.index (k + call.argCount))
      cases hdeleted : (o.deleteOwnProperty (.index (k + call.argCount))).2 with
      | false =>
        refine .inl ⟨k + call.argCount, by omega, ?_⟩
        simp only [ArrayLike.deleteOwnPropertyThrowsException, hdeleted]
        rfl
      | true =>
        simp only [ArrayLike.deleteOwnPropertyThrowsException, hdeleted, if_true]
        refine ih (hrest.touches htouches (by omega)) (htouches.fits total ?_ hfits)
          (by omega) (by omega)
        rintro _ ⟨⟩
        omega

/-- A target that is left in place makes a difference to the end. -/
theorem loops_differ (hA : 0 < call.argCount) {len j : Nat} (hrk : r ≤ k)
    (hempty : Empty r k o) (hfits : o.Fits (len + call.argCount)) (hk : k ≤ len)
    (hlow : r + call.argCount ≤ j) (hj : j < k + call.argCount)
    (hown : o.getOwnProperty (.index j) ≠ none) :
    (call.moveLoop r o).andThen (call.finish len) ≠
      (call.plainLoop k o).andThen (call.finish len) := by
  have hbound : r + call.argCount ≤ len + call.argCount := by omega
  have hframe : Frame (r + call.argCount) (len + call.argCount) o
      ((call.moveLoop r o).andThen (call.finish len)) :=
    (call.frame_moveLoop hbound (Nat.le_refl _) o).andThen fun o =>
      (call.frame_finish len o).mono (by omega)
  rcases plainLoop_deletes hA hrk hlow hempty hfits (by omega) hj with ⟨n, hn, hthrown⟩ | hdeleted
  · intro heq
    refine hframe.names n hn ?_
    rw [heq]
    rcases hplain : call.plainLoop k o with ⟨left, thrown⟩
    rw [hplain] at hthrown
    simp only at hthrown
    rw [hthrown]
    rfl
  · have hfitsPlain := (call.frame_plainLoop (show k + call.argCount ≤ len + call.argCount by omega)
      (Nat.le_refl _) o).fits hfits
    intro heq
    refine hown ((hframe.own hfits j hlow).symm.trans ?_)
    rw [heq]
    rcases hplain : call.plainLoop k o with ⟨left, thrown⟩
    rw [hplain] at hdeleted hfitsPlain
    cases thrown with
    | none => exact ((call.frame_finish len left).own hfitsPlain j (by omega)).trans hdeleted
    | some e => exact hdeleted

/-- Every gap that the plain loop comes to, and that is jumped over, has nothing to delete. -/
def MovesAll (call : UnshiftCall α) (k : Nat) (o : ArrayLike α) : Prop :=
  ∀ position, 0 < position → position ≤ k → call.Jumps position o →
    (call.roundsDownTo position k o).2 = none → call.NothingToDelete position o

theorem movesAll_succ_iff (hA : 0 < call.argCount)
    (htouches : (call.moveElement (k + 1) o).1 = moved)
    (hnone : (call.moveElement (k + 1) o).2 = none) :
    call.MovesAll (k + 1) o ↔
      (call.Jumps (k + 1) o → call.NothingToDelete (k + 1) o) ∧ call.MovesAll k moved := by
  have hmove : call.moveElement (k + 1) o = (moved, none) := Prod.ext htouches hnone
  have htouch : o.Touches (.index (k + call.argCount)) moved := by
    have h := call.touches_moveElement (k + 1) o
    have htarget : k + 1 + call.argCount - 1 = k + call.argCount := by omega
    rw [htouches, htarget] at h
    exact h
  have hrounds : ∀ position, position ≤ k + 1 →
      call.roundsDownTo position (k + 1) o = call.roundsDownTo position k moved := by
    intro position hposition
    rw [roundsDownTo, if_pos hposition, hmove]
    rfl
  have hlast : (call.roundsDownTo (k + 1) k moved).2 = none := by
    cases k with
    | zero => rfl
    | succ k => rw [roundsDownTo, if_neg (by omega)]
  constructor
  · intro h
    refine ⟨fun hjumps => h (k + 1) (Nat.succ_pos k) (Nat.le_refl _) hjumps
      (by rw [hrounds _ (Nat.le_refl _)]; exact hlast), fun position hpos hle hjumps hdone => ?_⟩
    refine (nothingToDelete_iff htouch (by omega)).2 (h position hpos (by omega)
      ((jumps_iff htouch hpos (by omega)).1 hjumps) ?_)
    rw [hrounds _ (by omega)]
    exact hdone
  · rintro ⟨hfirst, hrest⟩ position hpos hle hjumps hdone
    rcases Nat.lt_or_eq_of_le hle with hlt | rfl
    · rw [hrounds _ hle] at hdone
      exact (nothingToDelete_iff htouch (by omega)).1 (hrest position hpos (by omega)
        ((jumps_iff htouch hpos (by omega)).2 hjumps) hdone)
    · exact hfirst hjumps

variable (call)

/-- Below a gap with nothing to delete, the rounds left out do not matter. -/
theorem movesAll_of_empty (hlong : r + call.argCount ≤ k) (hempty : Empty r k o)
    (hnone : ∀ j, r + call.argCount ≤ j → j < k + call.argCount →
      o.getOwnProperty (.index j) = none) :
    call.MovesAll k o ↔ call.MovesAll r o := by
  have hrk : r ≤ k := by omega
  obtain ⟨-, hrounds⟩ := call.rounds_of_empty hrk hempty hnone
  constructor
  · intro h position hpos hle hjumps hdone
    exact h position hpos (hle.trans hrk) hjumps (by rw [hrounds position hle]; exact hdone)
  · intro h position hpos hle hjumps hdone
    rcases Nat.lt_or_ge r position with hlt | hge
    · intro j hj hlast
      rcases Nat.lt_or_ge j k with hjk | hjk
      · have habsent := hempty j (by omega) hjk
        rw [ArrayLike.hasProperty, or_eq_none_iff] at habsent
        exact habsent.1
      · exact hnone j (by omega) (by omega)
    · exact h position hpos hge hjumps (by rw [← hrounds position hge]; exact hdone)

theorem nextPosition_of_not_jumps
    (hsame : call.lastIndexBelow moved (k + 1) = call.lastIndexBelow o (k + 1))
    (hjumps : ¬ call.Jumps (k + 1) o) :
    call.nextPosition (o.hasProperty (.index (k + 1 - 1))).isSome (k + 1) moved = k := by
  cases hfrom : o.hasProperty (.index (k + 1 - 1)) with
  | some property => rfl
  | none =>
    rw [isSome_none, nextPosition_false, hsame, if_neg fun hlong => hjumps ⟨hfrom, hlong⟩]
    rfl

theorem getOwnProperty_of_nothingToDelete (htouch : o.Touches (.index (k + call.argCount)) moved)
    (hfrom : o.hasProperty (.index (k + 1 - 1)) = none) (hempty : Empty r k moved)
    (hnothing : call.NothingToDelete (k + 1) o)
    (_ : call.lastIndexBelow o (k + 1) + 1 = r) :
    ∀ j, r + call.argCount ≤ j → j < k + call.argCount →
      moved.getOwnProperty (.index j) = none := by
  intro j hj hlt
  rcases Nat.lt_or_ge j k with hjk | hjk
  · have habsent := hempty j (by omega) hjk
    rw [ArrayLike.hasProperty, or_eq_none_iff] at habsent
    exact habsent.1
  · rw [htouch.own (.index j) (by rintro ⟨⟩; omega)]
    rcases Nat.eq_or_lt_of_le hjk with rfl | hjk
    · rw [ArrayLike.hasProperty, or_eq_none_iff] at hfrom
      exact hfrom.1
    · exact hnothing j hjk (by omega)

variable {call}

/-- Both loops agree to the end exactly when every gap that is jumped over has nothing to
delete. The induction follows the loop that jumps. -/
theorem loops_agree_iff (hA : 0 < call.argCount) (len : Nat) : ∀ {k : Nat} {o : ArrayLike α},
    k ≤ len → o.Fits (len + call.argCount) → ((call.moveLoop k o).andThen (call.finish len) =
          (call.plainLoop k o).andThen (call.finish len) ↔ call.MovesAll k o) := by
  intro k
  induction k using Nat.strong_induction_on with
  | _ k ih =>
    intro o hk hfits
    cases k with
    | zero =>
      rw [moveLoop_zero]
      exact iff_of_true rfl fun position hpos hle => absurd hle (by omega)
    | succ k =>
      have hframe := call.frame_moveElement (Nat.succ_pos k)
        (show k + 1 + call.argCount ≤ len + call.argCount by omega) (Nat.le_refl _) o
      rw [call.moveLoop_of_pos (Nat.succ_pos k), plainLoop]
      rcases hmove : call.moveElement (k + 1) o with ⟨moved, _ | e⟩
      · rw [hmove] at hframe
        have hmovedFits : moved.Fits (len + call.argCount) := hframe.fits hfits
        rw [movesAll_succ_iff hA (congrArg Prod.fst hmove) (congrArg Prod.snd hmove)]
        have htouch : o.Touches (.index (k + call.argCount)) moved := by
          have h := call.touches_moveElement (k + 1) o
          have htarget : k + 1 + call.argCount - 1 = k + call.argCount := by omega
          rw [hmove, htarget] at h
          exact h
        have hsame := call.lastIndexBelow_of_touches htouch
          (show k + 1 ≤ k + call.argCount by omega)
        have hnext : ∀ next : ArrayLike α → Outcome α,
            Outcome.andThen (moved, none) next = next moved := fun _ => rfl
        rw [hnext, hnext]
        by_cases hjumps : call.Jumps (k + 1) o
        · obtain ⟨hfrom, hlong⟩ := hjumps
          have hbounds := lastIndexBelow_bounds call o (k + 1)
          obtain ⟨r, hr⟩ : ∃ r : Nat, call.lastIndexBelow o (k + 1) + 1 = r :=
            ⟨(call.lastIndexBelow o (k + 1) + 1).toNat, by omega⟩
          rw [hfrom, isSome_none, nextPosition_false, hsame, if_pos hlong, hr, Int.toNat_natCast]
          have hempty : Empty r k moved := Empty.touches (fun n hn hlt =>
            call.hasProperty_of_lastIndexBelow_lt (k := k + 1) (by omega) (by omega))
            htouch (by omega)
          by_cases hnothing : call.NothingToDelete (k + 1) o
          · have hnone := call.getOwnProperty_of_nothingToDelete htouch hfrom hempty hnothing
              (show call.lastIndexBelow o (k + 1) + 1 = r from hr)
            rw [(call.rounds_of_empty (show r ≤ k by omega) hempty hnone).1,
              ih r (by omega) (by omega) hmovedFits, call.movesAll_of_empty (by omega) hempty hnone]
            exact ⟨fun h => ⟨fun _ => hnothing, h⟩, fun h => h.2⟩
          · refine iff_of_false ?_ fun h => hnothing (h.1 ⟨hfrom, hlong⟩)
            simp only [NothingToDelete, not_forall] at hnothing
            obtain ⟨j, hj, hlast, hown⟩ := hnothing
            refine loops_differ hA (by omega) hempty hmovedFits (by omega) (by omega)
              (show j < k + call.argCount by omega) ?_
            rw [htouch.own (.index j) (by rintro ⟨⟩; omega)]
            exact hown
        · rw [call.nextPosition_of_not_jumps hsame hjumps,
            ih k (Nat.lt_succ_self k) (by omega) hmovedFits]
          exact ⟨fun h => ⟨fun hjump => absurd hjump hjumps, h⟩, fun h => h.2⟩
      · refine iff_of_true rfl fun position hpos hle _ hdone => ?_
        rw [roundsDownTo, if_pos hle, hmove] at hdone
        cases hdone

end Gap

/-- The condition of `loops_agree_iff` for the loop as it is entered. -/
def MeetsPlainLoop (o : ArrayLike α) : Prop :=
  call.length o + call.argCount ≤ maximumLength → call.MovesAll (call.length o) o

/-- `unshift` leaves the object of the plain loop, and throws what it throws, exactly when every
gap that it jumps over has nothing to delete at the shifted positions. -/
theorem builtinArrayUnshift_eq_plainUnshift_iff (o : ArrayLike α) :
    call.builtinArrayUnshift o = call.plainUnshift o ↔ call.MeetsPlainLoop o := by
  simp only [builtinArrayUnshift, plainUnshift, unshiftWith, MeetsPlainLoop]
  split
  · rename_i hzero
    exact iff_of_true rfl fun _ position _ _ _ _ j hj hlast => absurd hlast (by omega)
  · rename_i hzero
    split
    · rename_i hlong
      exact iff_of_true rfl fun hle => absurd hle (by omega)
    · rename_i hshort
      have hfits : o.Fits (call.length o + call.argCount) := by
        intro array harray
        rw [length, harray]
        exact Nat.le_add_right _ _
      rw [loops_agree_iff (by omega) (call.length o) (Nat.le_refl _) hfits]
      exact ⟨fun h _ => h, fun h => h (by omega)⟩

/-- Two arguments for an object with elements at 0, 6 and 7. -/
def gapCall : UnshiftCall Nat where
  numberOf _ := -(2 ^ 63)
  ofNumber := id
  undefined := 0
  callGetter := id
  toLength := id
  argv := [1, 2]

def gapObject : ArrayLike Nat where
  isOrdinary := true
  isExtensible := true
  properties := [(.index 0, .plain 10), (.index 6, .plain 20), (.index 7, .plain 30),
    (.string NonFastArray.lengthName, .plain 8)]
  nodup := by decide
  array := none
  prototypes := []

/-- The element at 6 is left where it is. -/
theorem stale_element_is_left :
    (gapCall.builtinArrayUnshift gapObject).1.getOwnProperty (.index 6) = some (.plain 20) ∧
      (gapCall.plainUnshift gapObject).1.getOwnProperty (.index 6) = none := by
  decide +kernel

end UnshiftCall

end Escargot.Builtins
