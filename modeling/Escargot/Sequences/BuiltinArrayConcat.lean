/-
# Array.prototype.concat

`concat` sets the length of its result after every argument whose elements it
takes, and not at the end. The specification sets it once, at the end. For a
result that is a new array, both are the same, and so they are where only the last
item is one whose elements are taken.
-/

import Escargot.Sequences.BuiltinArraySlice

namespace Escargot.Builtins

open List
open Function (update_eq_self update_idem update_of_ne update_self)

open Escargot.Foundation Escargot.Runtime

variable {α : Type}

/-- The receiver of `concat` or an argument: an object whose elements are taken, another object, or
a primitive value. An array in fast mode leaves it when it grows far; `inFastMode` is whether the
first kind of object and the result are still in it. -/
inductive ConcatItem (α : Type)
  | spreadable (arr : Nat) (inFastMode : Bool)
  | object (value : α)
  | primitive (value : α)

def ConcatItem.isSpread : ConcatItem α → Bool
  | .spreadable _ _ => true
  | _ => false

/-- Goes on unless there is an exception, or no defined state. -/
def andThenDefined (outcome : Option (HeapOutcome α))
    (next : ArrayHeap α → Option (HeapOutcome α)) : Option (HeapOutcome α) :=
  match outcome with
  | some (heap, none) => next heap
  | some (heap, some e) => some (heap, some e)
  | none => none

namespace UnshiftCall

variable (call : UnshiftCall α)

/-- The condition of the fast path of `builtinArrayConcat`, for objects in fast mode. -/
def concatsSlots (arr obj n len : Nat) (heap : ArrayHeap α) : Bool :=
  match heap arr, heap obj with
  | .fast src, .fast dst =>
    decide (n + len < 2 ^ 32 - 1) && dst.rest.isExtensible &&
      decide (len ≤ src.slots.length) && decide (dst.slots.length = n)
  | _, _ => false

/-- The elements of one object, without the length. -/
def concatElements (inFastMode : Bool) (arr obj n len : Nat) (heap : ArrayHeap α) :
    Option (HeapOutcome α) :=
  if inFastMode && concatsSlots arr obj n len heap then
    (copyFastModeElementsFrom arr obj 0 n len heap).map fun heap => (heap, none)
  else
    some (jumpingRounds (call.copyJumps arr (Nat.le_refl len))
      (call.copyRound arr obj fun k => n + k) 0 heap)

/-- The loop of `builtinArrayConcat`. -/
def concatLoop (obj : Nat) : List (ConcatItem α) → Nat → ArrayHeap α → Option (HeapOutcome α)
  | [], _, heap => some (heap, none)
  | .spreadable arr inFastMode :: items, n, heap =>
    if n + call.receiverLength (heap arr) > maximumLength then some (heap, some .lengthTooLong)
    else
      andThenDefined
        (andThenDefined
          (call.concatElements inFastMode arr obj n (call.receiverLength (heap arr)) heap)
          fun copied => some
            (atObject obj (call.setReceiverLength (n + call.receiverLength (heap arr))) copied))
        (concatLoop obj items (n + call.receiverLength (heap arr)))
  | .object value :: items, n, heap =>
    if n ≥ maximumLength then some (heap, some .lengthTooLong)
    else
      andThenDefined (some (atObject obj (ArrayReceiver.defineElement n value) heap))
        (concatLoop obj items (n + 1))
  | .primitive value :: items, n, heap =>
    andThenDefined (some (atObject obj (ArrayReceiver.defineElement n value) heap))
      (concatLoop obj items (n + 1))

def plainConcatLoop (obj : Nat) : List (ConcatItem α) → Nat → ArrayHeap α → HeapOutcome α
  | [], n, heap => atObject obj (call.setReceiverLength n) heap
  | .spreadable arr _ :: items, n, heap =>
    if n + call.receiverLength (heap arr) > maximumLength then (heap, some .lengthTooLong)
    else
      andThen (rounds (call.copyRound arr obj fun k => n + k) (call.receiverLength (heap arr)) 0 heap)
        (plainConcatLoop obj items (n + call.receiverLength (heap arr)))
  | .object value :: items, n, heap | .primitive value :: items, n, heap =>
    if n ≥ maximumLength then (heap, some .lengthTooLong)
    else
      andThen (atObject obj (ArrayReceiver.defineElement n value) heap)
        (plainConcatLoop obj items (n + 1))

variable (create : Nat → ArrayHeap α → ArrayHeap α × Nat) (items : List (ConcatItem α))

/-- `builtinArrayConcat`, with the objects that `ArraySpeciesCreate` leaves and the one that it
gives, which is returned. -/
def builtinArrayConcat (heap : ArrayHeap α) : Option (HeapOutcome α) × Nat :=
  (call.concatLoop (create 0 heap).2 items 0 (create 0 heap).1, (create 0 heap).2)

def plainConcat (heap : ArrayHeap α) : Option (HeapOutcome α) × Nat :=
  (some (call.plainConcatLoop (create 0 heap).2 items 0 (create 0 heap).1), (create 0 heap).2)

end UnshiftCall

theorem resize_resize {slots : List (Option α)} {n m : Nat} (h : slots.length ≤ n) :
    resize (resize slots n) m = resize slots m := by
  apply ext_getElem?
  intro i
  simp only [resize, getElem?_append, getElem?_take, getElem?_replicate,
    length_append, length_take, length_replicate]
  grind

theorem set_resize {slots : List (Option α)} {i m : Nat} (value : Option α)
    (h : slots.length ≤ i) (hi : i < m) :
    (resize slots m).set i value = resize (resize slots i ++ [value]) m := by
  apply ext_getElem?
  intro j
  simp only [resize, getElem?_set, getElem?_append, getElem?_take,
    getElem?_replicate, length_append, length_take, length_replicate]
  grind

theorem FastArray.fits_resize (a : FastArray α) {m : Nat} (h : m < 2 ^ 32) :
    (resize a.slots m).length < 2 ^ 32 := by
  rw [length_resize]
  exact h

namespace ArrayReceiver

def IsAppendable : ArrayReceiver α → Prop
  | .fast a => a.rest.isExtensible = true ∧ a.isLengthPropertyWritable = true
  | .other o =>
    o.isExtensible = true ∧ ∃ arrayLength, o.array = some ⟨arrayLength, true⟩ ∧
      ∀ n, arrayLength ≤ n → o.getOwnProperty (.index n) = none

def atLength (m : Nat) : ArrayReceiver α → ArrayReceiver α
  | .fast a =>
    if h : m < 2 ^ 32 then .fast (a.withSlots (resize a.slots m) (a.fits_resize h)) else .fast a
  | .other o => .other { o with array := o.array.map fun array => { array with arrayLength := m } }

end ArrayReceiver

namespace UnshiftCall

open ArrayReceiver

variable (call : UnshiftCall α) {o : ArrayReceiver α} {n m i : Nat}

theorem setReceiverLength_of_le (ho : o.IsAppendable) (hle : call.receiverLength o ≤ m)
    (hm : m < 2 ^ 32) : call.setReceiverLength m o = (o.atLength m, none) := by
  cases o with
  | fast a =>
    obtain ⟨-, hwritable⟩ := ho
    rw [setReceiverLength, hwritable, if_neg (by decide), dif_pos hm, atLength, dif_pos hm]
  | other o =>
    obtain ⟨-, arrayLength, harray, -⟩ := ho
    have hle : arrayLength ≤ m := by
      rw [receiverLength, length, harray] at hle
      exact hle
    have hgrow : (o.toNonFastArray ⟨arrayLength, true⟩).setArrayLength call.numberOf m =
        ((o.toNonFastArray ⟨arrayLength, true⟩).withLength m, true) := by
      rw [NonFastArray.setArrayLength, NonFastArray.shrink]
      exact dif_neg (Nat.not_lt.mpr hle)
    rw [setReceiverLength, setLength, harray]
    dsimp only
    rw [if_neg (by decide), if_neg (Nat.not_le.mpr hm), hgrow, atLength, harray]
    rfl

theorem isAppendable_atLength (ho : o.IsAppendable) (hle : call.receiverLength o ≤ m)
    (hm : m < 2 ^ 32) :
    (o.atLength m).IsAppendable ∧ call.receiverLength (o.atLength m) = m := by
  cases o with
  | fast a =>
    rw [atLength, dif_pos hm]
    exact ⟨ho, length_resize a.slots m⟩
  | other o =>
    obtain ⟨hextensible, arrayLength, harray, habsent⟩ := ho
    have hle : arrayLength ≤ m := by
      rw [receiverLength, length, harray] at hle
      exact hle
    rw [atLength, harray]
    exact ⟨⟨hextensible, m, rfl, fun n hn => habsent n (Nat.le_trans hle hn)⟩, rfl⟩

theorem atLength_atLength (ho : o.IsAppendable) (hle : call.receiverLength o ≤ n) (hn : n < 2 ^ 32)
    (hm : m < 2 ^ 32) : (o.atLength n).atLength m = o.atLength m := by
  cases o with
  | fast a =>
    rw [atLength, dif_pos hn, atLength, dif_pos hm, atLength, dif_pos hm]
    have hslots : resize (resize a.slots n) m = resize a.slots m := resize_resize hle
    simp only [FastArray.withSlots, hslots]
  | other o =>
    rw [atLength, atLength, atLength, Option.map_map]
    rfl

theorem atLength_receiverLength (ho : o.IsAppendable) : o.atLength (call.receiverLength o) = o := by
  cases o with
  | fast a =>
    rw [atLength, receiverLength, dif_pos a.fits, withSlots_eq a (resize_of_length_eq rfl)]
  | other o =>
    obtain ⟨-, arrayLength, harray, -⟩ := ho
    cases o
    cases harray
    rfl

theorem defineElement_fast_of_le (a : FastArray α) (ho : (ArrayReceiver.fast a).IsAppendable)
    (hle : a.slots.length ≤ i) (hi : i < 2 ^ 32 - 1) (value : α) :
    (ArrayReceiver.fast a).defineElement i value =
      (.fast (a.withSlots (resize a.slots i ++ [some value]) (by
        rw [length_append, length_resize]
        exact Nat.succ_lt_succ hi)), none) := by
  obtain ⟨hextensible, hwritable⟩ := ho
  rw [defineElement, if_neg (Nat.not_lt.mpr hle),
    dif_pos (show i < invalidIndexPropertyValue from hi), if_pos ⟨hextensible, hwritable⟩]

theorem defineElement_other_of_none (o : ArrayLike α) (array : ArrayLength)
    (hextensible : o.isExtensible = true) (harray : o.array = some array)
    (hwritable : array.isLengthPropertyWritable = true)
    (habsent : o.getOwnProperty (.index i) = none) (hi : i < 2 ^ 32 - 1) (value : α) :
    (ArrayReceiver.other o).defineElement i value = (.other { o.put (.index i) (.plain value) with
        array := some { array with arrayLength := max array.arrayLength (i + 1) } }, none) := by
  have hcreate : o.create (.index i) value = ({ o.put (.index i) (.plain value) with
      array := some { array with arrayLength := max array.arrayLength (i + 1) } }, true) := by
    unfold ArrayLike.create
    rw [harray]
    dsimp only
    by_cases hle : array.arrayLength ≤ i
    · rw [if_pos ⟨hi, hle⟩, hwritable, hextensible, Nat.max_eq_right (Nat.le_succ_of_le hle)]
      rfl
    · rw [if_neg fun h => hle h.2, hextensible, Nat.max_eq_left (by omega)]
      have hsame : { o.put (.index i) (.plain value) with array := some array } =
          o.put (.index i) (.plain value) := by
        rw [← harray, ArrayLike.put]
        split <;> rfl
      exact congrArg (fun o => (o, true)) hsame.symm
  rw [defineElement, ArrayLike.define, habsent]
  rw [hcreate]
  rfl

theorem put_with_array (o : ArrayLike α) (array : Option ArrayLength) (key : ArrayKey)
    (property : Property α) :
    ({ o with array := array } : ArrayLike α).put key property =
      { o.put key property with array := array } := by
  rw [ArrayLike.put, ArrayLike.put]
  split <;> rfl

/-- An element that is added at the length of an array or above, also after the array was made
longer. -/
theorem defineElement_of_le (ho : o.IsAppendable) (hle : call.receiverLength o ≤ i)
    (hi : i < 2 ^ 32 - 1) (value : α) :
    ∃ o', o.defineElement i value = (o', none) ∧ o'.IsAppendable ∧ call.receiverLength o' = i + 1 ∧
      ∀ m, call.receiverLength o ≤ m → m < 2 ^ 32 →
        (o.atLength m).defineElement i value = (o'.atLength (max m (i + 1)), none) := by
  cases o with
  | fast a =>
    rw [defineElement_fast_of_le a ho hle hi]
    have hlength : (resize a.slots i ++ [some value]).length = i + 1 := by
      rw [length_append, length_resize]
      rfl
    refine ⟨_, rfl, ho, hlength, fun m hm hfits => ?_⟩
    rw [atLength, dif_pos hfits, atLength, dif_pos (by omega)]
    rcases Nat.lt_or_ge i m with him | hmi
    · have hroom : i < (resize a.slots m).length := by rwa [length_resize]
      refine (if_pos hroom).trans ?_
      rw [FastArray.writeSlot]
      have hslots : (resize a.slots m).set i (some value) =
          resize (resize a.slots i ++ [some value]) (max m (i + 1)) := by
        rw [Nat.max_eq_left him, set_resize (some value) hle him]
      simp only [FastArray.withSlots, hslots]
    · have hshort : (resize a.slots m).length ≤ i := (length_resize a.slots m).trans_le hmi
      refine (defineElement_fast_of_le (a.withSlots (resize a.slots m) _) ho hshort hi value).trans ?_
      have hslots : resize (resize a.slots m) i ++ [some value] =
          resize (resize a.slots i ++ [some value]) (max m (i + 1)) := by
        rw [Nat.max_eq_right (Nat.le_succ_of_le hmi), resize_resize hm, resize_of_length_eq hlength]
      simp only [FastArray.withSlots, hslots]
  | other o =>
    obtain ⟨hextensible, arrayLength, harray, habsent⟩ := ho
    have hle : arrayLength ≤ i := by
      rw [receiverLength, length, harray] at hle
      exact hle
    have hfree := habsent i hle
    rw [defineElement_other_of_none o _ hextensible harray rfl hfree hi]
    have htouches := o.touches_put (.index i) (.plain value)
    refine ⟨_, rfl, ⟨?_, _, rfl, ?_⟩, ?_, ?_⟩
    · rw [ArrayLike.put]
      split <;> exact hextensible
    · intro n hn
      have hne : n ≠ i := by omega
      show (o.put (.index i) (.plain value)).getOwnProperty (.index n) = none
      rw [htouches.own (.index n) fun h => hne (ArrayKey.index.inj h)]
      exact habsent n (by omega)
    · show max arrayLength (i + 1) = i + 1
      omega
    · intro m hm hfits
      have hgrown := defineElement_other_of_none
        { o with array := o.array.map fun array => { array with arrayLength := m } } ⟨m, true⟩
        hextensible (by rw [harray]; rfl) rfl hfree hi value
      rw [atLength, hgrown, put_with_array]
      rfl

/-- The objects with another length of one of them. -/
def finished (obj m : Nat) (heap : ArrayHeap α) : ArrayHeap α :=
  Function.update heap obj ((heap obj).atLength m)

theorem growForCopy_eq {d : FastArray α} (hd : (ArrayReceiver.fast d).IsAppendable)
    (hle : d.slots.length ≤ m) (hm : m < 2 ^ 32) :
    .fast (growForCopy m d) = (ArrayReceiver.fast d).atLength m ∧
      (growForCopy m d).slots.length = m := by
  rcases Nat.lt_or_ge d.slots.length m with hlt | hge
  · rw [growForCopy, dif_pos ⟨hlt, hd.2, hm⟩, atLength, dif_pos hm]
    exact ⟨rfl, length_resize d.slots m⟩
  · have hlength : d.slots.length = m := Nat.le_antisymm hle hge
    rw [growForCopy_of_le hge, ← hlength]
    rw [atLength, dif_pos d.fits, withSlots_eq d (resize_of_length_eq rfl)]
    exact ⟨rfl, rfl⟩

section Agreement

variable {arr obj k stop : Nat} {heap : ArrayHeap α}

/-- What is read is not written, or is below what is. -/
def ReadsBelow (arr obj stop : Nat) (heap : ArrayHeap α) : Prop :=
  arr ≠ obj ∨ ∃ a, heap obj = .fast a ∧ stop ≤ a.slots.length

theorem hasIndexedProperty_finished (hreads : ReadsBelow arr obj stop heap) (hk : k < stop)
    (hle : call.receiverLength (heap obj) ≤ m) (hm : m < 2 ^ 32) :
    (finished obj m heap arr).hasIndexedProperty k = (heap arr).hasIndexedProperty k := by
  rcases hreads with hne | ⟨a, ha, hstop⟩
  · rw [finished, update_of_ne hne]
  · by_cases hne : arr = obj
    · rw [ha] at hle
      have hle : a.slots.length ≤ m := hle
      rw [hne, finished, update_self, ha, atLength, dif_pos hm]
      have hslot : (a.withSlots (resize a.slots m) (a.fits_resize hm)).slot k = a.slot k := by
        simp only [FastArray.slot, FastArray.withSlots, resize, take_of_length_le hle]
        rw [getElem?_append_left (by omega)]
      simp only [hasIndexedProperty, hslot]
      rfl
    · rw [finished, update_of_ne hne]

theorem rounds_copyRound_finished (hk : k ≤ stop) (hstop : n + stop < 2 ^ 32) :
    ∀ {heap : ArrayHeap α}, ReadsBelow arr obj stop heap → (heap obj).IsAppendable →
    call.receiverLength (heap obj) ≤ n + k → ∃ heap', rounds (call.copyRound arr obj fun k => n + k) stop k heap = (heap', none) ∧
      (heap' obj).IsAppendable ∧ call.receiverLength (heap' obj) ≤ n + stop ∧
      (∀ other, other ≠ obj → heap' other = heap other) ∧
      ∀ m, call.receiverLength (heap obj) ≤ m → m ≤ n + stop →
        ∃ m', rounds (call.copyRound arr obj fun k => n + k) stop k (finished obj m heap) =
            (finished obj m' heap', none) ∧
          call.receiverLength (heap' obj) ≤ m' ∧ m' ≤ n + stop := by
  induction hk using Nat.decreasingInduction with
  | self =>
    intro heap _ ho hle
    refine ⟨heap, rounds_of_le (Nat.le_refl stop), ho, hle, fun _ _ => rfl, fun m hm hfits => ?_⟩
    exact ⟨m, rounds_of_le (Nat.le_refl stop), hm, hfits⟩
  | of_succ k hk ih =>
    intro heap hreads ho hle
    have hsource : ∀ m, call.receiverLength (heap obj) ≤ m → m ≤ n + stop →
        (finished obj m heap arr).hasIndexedProperty k = (heap arr).hasIndexedProperty k :=
      fun m hm hfits => call.hasIndexedProperty_finished hreads hk hm (by omega)
    cases hpresent : (heap arr).hasIndexedProperty k with
    | none =>
      have hround' : call.copyRound arr obj (fun k => n + k) k heap = (heap, none) := by
        rw [copyRound, hpresent]
      obtain ⟨heap', hrounds, ho', hle', hother, hlonger⟩ := ih hreads ho (by omega)
      refine ⟨heap', ?_, ho', hle', hother, fun m hm hfits => ?_⟩
      · rw [rounds_of_lt hk, hround']
        exact hrounds
      · obtain ⟨m', hrounds', hm'⟩ := hlonger m hm hfits
        refine ⟨m', ?_, hm'⟩
        rw [rounds_of_lt hk, copyRound, hsource m hm hfits, hpresent]
        exact hrounds'
    | some property =>
      obtain ⟨o', hdefine, ho', hlength, hdefines⟩ :=
        call.defineElement_of_le ho hle (show n + k < 2 ^ 32 - 1 by omega) (call.valueOf property)
      have hreads' : ReadsBelow arr obj stop (Function.update heap obj o') := by
        refine hreads.imp id ?_
        rintro ⟨a, ha, hstop⟩
        rw [ha] at hdefine ho hle
        rw [defineElement_fast_of_le a ho hle (by omega)] at hdefine
        refine ⟨_, (update_self _ _ _).trans (congrArg Prod.fst hdefine).symm, ?_⟩
        have hle : a.slots.length ≤ n + k := hle
        have hgrown : (resize a.slots (n + k) ++ [some (call.valueOf property)]).length =
            n + k + 1 := by
          rw [length_append, length_resize]
          rfl
        exact hgrown.symm ▸ (by omega)
      have hround' : call.copyRound arr obj (fun k => n + k) k heap =
          (Function.update heap obj o', none) := by
        rw [copyRound, hpresent]
        dsimp only
        rw [atObject, hdefine]
      have hround : ∀ m, call.receiverLength (heap obj) ≤ m → m ≤ n + stop →
          call.copyRound arr obj (fun k => n + k) k (finished obj m heap) =
            (finished obj (max m (n + k + 1)) (Function.update heap obj o'), none) := by
        intro m hm hfits
        rw [copyRound, hsource m hm hfits, hpresent]
        dsimp only
        rw [atObject, finished, update_self, hdefines m hm (by omega), update_idem,
          finished, update_self, update_idem]
      obtain ⟨heap', hrounds, ho', hle', hother, hlonger⟩ :=
        ih hreads' (show (Function.update heap obj o' obj).IsAppendable by rwa [update_self])
          (by rw [update_self, hlength]; omega)
      refine ⟨heap', ?_, ho', hle', fun other hne => ?_, fun m hm hfits => ?_⟩
      · rw [rounds_of_lt hk, hround']
        exact hrounds
      · rw [hother other hne, update_of_ne hne]
      · obtain ⟨m', hrounds', hm'⟩ := hlonger (max m (n + k + 1))
          (by rw [update_self, hlength]; omega) (by omega)
        refine ⟨m', ?_, hm'⟩
        rw [rounds_of_lt hk, hround m hm hfits]
        exact hrounds'

variable {len : Nat}

theorem update_growForCopy {dst : FastArray α} (ho : (heap obj).IsAppendable)
    (hle : call.receiverLength (heap obj) ≤ n) (hdst : finished obj n heap obj = .fast dst)
    (hlength : dst.slots.length = n) (hfits : n + len < 2 ^ 32) :
    Function.update (finished obj n heap) obj (.fast (growForCopy (n + len) dst)) =
        finished obj (n + len) heap ∧
      (growForCopy (n + len) dst).slots.length = n + len := by
  have happendable : (ArrayReceiver.fast dst).IsAppendable := by
    rw [← hdst, finished, update_self]
    exact (call.isAppendable_atLength ho hle (by omega)).1
  obtain ⟨hgrow, hgrown⟩ := growForCopy_eq happendable (by omega) hfits
  refine ⟨?_, hgrown⟩
  rw [hgrow, ← hdst, finished, update_self,
    call.atLength_atLength ho hle (by omega) hfits, update_idem, finished]

/-- The elements of one argument, on the result of the builtin and on that of the specification. -/
theorem concatElements_finished (inFastMode : Bool) (hreads : ReadsBelow arr obj len heap)
    (ho : (heap obj).IsAppendable) (hle : call.receiverLength (heap obj) ≤ n)
    (hfits : n + len < 2 ^ 32) :
    ∃ heap' m, call.concatElements inFastMode arr obj n len (finished obj n heap) =
        some (finished obj m heap', none) ∧
      rounds (call.copyRound arr obj fun k => n + k) len 0 heap = (heap', none) ∧
      (heap' obj).IsAppendable ∧ call.receiverLength (heap' obj) ≤ m ∧ m ≤ n + len ∧
      ∀ other, other ≠ obj → heap' other = heap other := by
  obtain ⟨heap', hrounds, ho', -, hother, hlonger⟩ :=
    call.rounds_copyRound_finished (Nat.zero_le len) hfits hreads ho hle
  rw [concatElements]
  split
  · rename_i hpath
    rw [Bool.and_eq_true, concatsSlots] at hpath
    obtain ⟨-, hpath⟩ := hpath
    split at hpath
    · rename_i src dst hsrc hdst
      simp only [Bool.and_eq_true, decide_eq_true_eq] at hpath
      obtain ⟨⟨-, hend⟩, hlength⟩ := hpath
      obtain ⟨m, hrounds', hm⟩ := hlonger (n + len) (by omega) (Nat.le_refl _)
      refine ⟨heap', m, ?_, hrounds, ho', hm.1, hm.2, hother⟩
      obtain ⟨hgrown, hsize⟩ := call.update_growForCopy ho hle hdst hlength hfits
      have hdst' : finished obj (n + len) heap obj = .fast (growForCopy (n + len) dst) := by
        rw [← hgrown, update_self]
      obtain ⟨src', hsrc', hroom⟩ : ∃ src' : FastArray α,
          finished obj (n + len) heap arr = .fast src' ∧ len ≤ src'.slots.length := by
        by_cases hne : arr = obj
        · exact ⟨growForCopy (n + len) dst, hne.symm ▸ hdst', by omega⟩
        · rw [finished, update_of_ne hne] at hsrc ⊢
          exact ⟨src, hsrc, hend⟩
      obtain ⟨copied, hcopied, hsame, -⟩ := call.copyFastModeElementsFrom_eq (fun k => n + k) n
        (fun i => congrArg (n + ·) (Nat.zero_add i)) hsrc' hdst' hroom (Nat.le_of_eq hsize.symm)
      rw [hrounds'] at hsame
      have hheap : finished obj m heap' = copied := congrArg Prod.fst hsame
      rw [copyFastModeElementsFrom, hdst]
      dsimp only
      rw [hgrown, hheap]
      exact congrArg (Option.map fun heap => (heap, none)) hcopied
    · cases hpath
  · obtain ⟨m, hrounds', hm⟩ := hlonger n hle (Nat.le_add_right n len)
    refine ⟨heap', m, ?_, hrounds, ho', hm.1, hm.2, hother⟩
    rw [call.copyLoop_eq, hrounds']

theorem finished_receiverLength (ho : (heap obj).IsAppendable) :
    finished obj (call.receiverLength (heap obj)) heap = heap := by
  rw [finished, call.atLength_receiverLength ho, update_eq_self]

theorem atObject_setReceiverLength_finished {last : Nat} (ho : (heap obj).IsAppendable)
    (hm : call.receiverLength (heap obj) ≤ m) (hle : m ≤ last) (hlast : last < 2 ^ 32) :
    atObject obj (call.setReceiverLength last) (finished obj m heap) =
      (finished obj last heap, none) := by
  obtain ⟨happendable, hlength⟩ := call.isAppendable_atLength ho hm (by omega)
  rw [atObject, finished, update_self, call.setReceiverLength_of_le happendable (by omega) hlast,
    call.atLength_atLength ho hm (by omega) hlast, update_idem, finished]

def concatLength (heap : ArrayHeap α) : List (ConcatItem α) → Nat
  | [] => 0
  | .spreadable arr _ :: items => call.receiverLength (heap arr) + concatLength heap items
  | .object _ :: items | .primitive _ :: items => 1 + concatLength heap items

/-- The result is not an argument whose elements are taken. -/
def IsFresh (obj : Nat) (items : List (ConcatItem α)) : Prop :=
  ∀ arr inFastMode, ConcatItem.spreadable arr inFastMode ∈ items → arr ≠ obj

theorem concatLength_congr {heap heap' : ArrayHeap α} {items : List (ConcatItem α)}
    (hfresh : IsFresh obj items) (h : ∀ other, other ≠ obj → heap' other = heap other) :
    call.concatLength heap' items = call.concatLength heap items := by
  induction items with
  | nil => rfl
  | cons item items ih =>
    have hrest := ih fun arr inFastMode hmem => hfresh arr inFastMode (mem_cons_of_mem _ hmem)
    cases item with
    | spreadable arr inFastMode =>
      rw [concatLength, concatLength, hrest, h arr (hfresh arr inFastMode mem_cons_self)]
    | object value => rw [concatLength, concatLength, hrest]
    | primitive value => rw [concatLength, concatLength, hrest]

theorem atObject_defineElement_finished (ho : (heap obj).IsAppendable)
    (hle : call.receiverLength (heap obj) ≤ n) (hn : n < 2 ^ 32 - 1) (value : α) :
    ∃ heap', atObject obj (ArrayReceiver.defineElement n value) heap = (heap', none) ∧
      atObject obj (ArrayReceiver.defineElement n value) (finished obj n heap) =
        (finished obj (n + 1) heap', none) ∧
      (heap' obj).IsAppendable ∧ call.receiverLength (heap' obj) = n + 1 ∧
      ∀ other, other ≠ obj → heap' other = heap other := by
  obtain ⟨o', hdefine, ho', hlength, hdefines⟩ := call.defineElement_of_le ho hle hn value
  refine ⟨Function.update heap obj o', ?_, ?_, ?_, ?_, fun other hne => ?_⟩
  · rw [atObject, hdefine]
  · rw [atObject, finished, update_self, hdefines n hle (by omega), update_idem,
      finished, update_self, update_idem, Nat.max_eq_right (Nat.le_succ n)]
  · rwa [update_self]
  · rwa [update_self]
  · exact update_of_ne hne _ _

theorem concatLoop_finished (items : List (ConcatItem α)) : ∀ {n : Nat} {heap : ArrayHeap α},
    IsFresh obj items → (heap obj).IsAppendable → call.receiverLength (heap obj) ≤ n →
    n + call.concatLength heap items < 2 ^ 32 →
    call.concatLoop obj items n (finished obj n heap) =
      some (call.plainConcatLoop obj items n heap) := by
  induction items with
  | nil =>
    intro n heap _ ho hle hfits
    rw [concatLoop, plainConcatLoop, atObject, call.setReceiverLength_of_le ho hle hfits]
    rfl
  | cons item items ih =>
    intro n heap hfresh ho hle hfits
    have hrest : IsFresh obj items := fun arr inFastMode hmem =>
      hfresh arr inFastMode (mem_cons_of_mem _ hmem)
    have hadded : ∀ value : α, n + (1 + call.concatLength heap items) < 2 ^ 32 → andThenDefined
            (some (atObject obj (ArrayReceiver.defineElement n value) (finished obj n heap)))
            (call.concatLoop obj items (n + 1)) =
          some (andThen (atObject obj (ArrayReceiver.defineElement n value) heap)
            (call.plainConcatLoop obj items (n + 1))) := by
      intro value hfits
      obtain ⟨heap', hplain, hdefine, ho', hlength, hother⟩ :=
        call.atObject_defineElement_finished ho hle (by omega) value
      rw [hplain, hdefine]
      refine ih hrest ho' (Nat.le_of_eq hlength) ?_
      rw [call.concatLength_congr hrest hother]
      omega
    cases item with
    | object value | primitive value =>
      rw [concatLength] at hfits
      have hn : ¬ n ≥ maximumLength := by
        rw [maximumLength]
        omega
      simp only [concatLoop, plainConcatLoop, if_neg hn, hadded value hfits]
    | spreadable arr inFastMode =>
      have hne := hfresh arr inFastMode mem_cons_self
      have hsource : finished obj n heap arr = heap arr := update_of_ne hne _ _
      rw [concatLength] at hfits
      have hn : ¬ n + call.receiverLength (heap arr) > maximumLength := by
        rw [maximumLength]
        omega
      obtain ⟨heap', m, helements, hrounds, ho', hm, hm', hother⟩ :=
        call.concatElements_finished inFastMode (.inl hne) ho hle
          (show n + call.receiverLength (heap arr) < 2 ^ 32 by omega)
      rw [concatLoop, plainConcatLoop, hsource, if_neg hn, if_neg hn, helements, hrounds]
      dsimp only [andThenDefined, andThen]
      rw [call.atObject_setReceiverLength_finished ho' hm hm' (by omega)]
      refine ih hrest ho' (Nat.le_trans hm hm') ?_
      rw [call.concatLength_congr hrest hother]
      omega

end Agreement

/-- What makes both results the same: an empty array that elements can be added to, which is none
of the arguments that are spread, and a length that an array can have. -/
structure ConcatsToNewArray (obj : Nat) (items : List (ConcatItem α)) (heap : ArrayHeap α) :
    Prop where
  appendable : (heap obj).IsAppendable
  empty : call.receiverLength (heap obj) = 0
  fresh : IsFresh obj items
  fits : call.concatLength heap items < 2 ^ 32

/-- Where the slots of `arr` are copied into an array, its length is writable. -/
def CopiesInto (inFastMode : Bool) (arr obj n : Nat) (heap : ArrayHeap α) : Prop :=
  inFastMode = true → ∀ dst, heap obj = .fast dst →
    concatsSlots arr obj n (call.receiverLength (heap arr)) heap = true →
      dst.isLengthPropertyWritable = true

variable {call} in
theorem CopiesInto.define {inFastMode : Bool} {arr obj : Nat} {heap : ArrayHeap α}
    (h : call.CopiesInto inFastMode arr obj m heap) (hn : n < m) {value : α}
    (hdefine : (heap obj).defineElement n value = (o, none)) :
    call.CopiesInto inFastMode arr obj m (Function.update heap obj o) := by
  intro hfast dst hdst hslots
  rw [update_self] at hdst
  subst hdst
  cases hobj : heap obj with
  | other a =>
    rw [hobj, defineElement] at hdefine
    cases congrArg Prod.fst hdefine
  | fast a =>
    rw [hobj, defineElement] at hdefine
    split at hdefine
    · cases hdefine
      refine h hfast a hobj ?_
      by_cases hne : arr = obj
      · subst hne
        simpa [concatsSlots, hobj, receiverLength, FastArray.writeSlot, FastArray.withSlots]
          using hslots
      · rw [update_of_ne hne, concatsSlots, update_of_ne hne, update_self] at hslots
        rw [concatsSlots, hobj]
        cases harr : heap arr with
        | fast src =>
          rw [harr] at hslots
          simpa only [FastArray.writeSlot, FastArray.withSlots, length_set] using hslots
        | other src =>
          rw [harr] at hslots
          cases hslots
    · split at hdefine
      · split at hdefine
        · rename_i hgrow
          cases hdefine
          exact hgrow.2
        · cases hdefine
      · rename_i hlarge
        have hlarge : 2 ^ 32 - 1 ≤ n := Nat.not_lt.1 hlarge
        rw [concatsSlots] at hslots
        split at hslots
        · simp only [Bool.and_eq_true, decide_eq_true_eq] at hslots
          omega
        · cases hslots

theorem concatLoop_spreadOnce {inFastMode : Bool} {arr obj : Nat} (items : List (ConcatItem α)) :
    ∀ {n : Nat} {heap : ArrayHeap α}, (∀ item ∈ items, item.isSpread = false) →
    n + items.length ≤ maximumLength →
    call.CopiesInto inFastMode arr obj (n + items.length) heap →
    call.concatLoop obj (items ++ [.spreadable arr inFastMode]) n heap =
      some (call.plainConcatLoop obj (items ++ [.spreadable arr inFastMode]) n heap) := by
  induction items with
  | nil =>
    intro n heap _ _ hcopies
    by_cases hslots : (inFastMode &&
        concatsSlots arr obj n (call.receiverLength (heap arr)) heap) = true
    · -- The result is as one that was empty at first.
      rw [Bool.and_eq_true] at hslots
      obtain ⟨hfast, hslots⟩ := hslots
      have hcopied := hslots
      rw [concatsSlots] at hcopied
      split at hcopied
      · rename_i src dst hsrc hdst
        simp only [Bool.and_eq_true, decide_eq_true_eq] at hcopied
        obtain ⟨⟨⟨hfits, hextensible⟩, hend⟩, hlength⟩ := hcopied
        have ho : (heap obj).IsAppendable := hdst ▸ ⟨hextensible, hcopies hfast dst hdst hslots⟩
        have hle : call.receiverLength (heap obj) = n := hdst ▸ hlength
        have hreads : ReadsBelow arr obj (call.receiverLength (heap arr)) heap := by
          by_cases hne : arr = obj
          · exact .inr ⟨dst, hdst, by rw [hne, hdst]; exact Nat.le_refl _⟩
          · exact .inl hne
        obtain ⟨heap', m, helements, hrounds, ho', hm, hm', -⟩ :=
          call.concatElements_finished inFastMode hreads ho (Nat.le_of_eq hle)
            (show n + call.receiverLength (heap arr) < 2 ^ 32 by omega)
        have hplain := call.atObject_setReceiverLength_finished ho' (Nat.le_refl _)
          (Nat.le_trans hm hm') (by omega)
        rw [call.finished_receiverLength ho'] at hplain
        have hsame := call.finished_receiverLength ho
        rw [hle] at hsame
        rw [hsame] at helements
        rw [nil_append, concatLoop, plainConcatLoop, helements, hrounds]
        simp only [andThenDefined, andThen, plainConcatLoop, concatLoop, hplain,
          call.atObject_setReceiverLength_finished ho' hm hm' (by omega)]
        split <;> rfl
      · cases hcopied
    · rw [nil_append, concatLoop, plainConcatLoop, concatElements, if_neg hslots, call.copyLoop_eq]
      split
      · rfl
      · rcases rounds (call.copyRound arr obj fun k => n + k) (call.receiverLength (heap arr)) 0 heap
          with ⟨copied, _ | e⟩
        · rcases hset : atObject obj (call.setReceiverLength
            (n + call.receiverLength (heap arr))) copied with ⟨last, _ | e⟩ <;>
          simp only [andThenDefined, andThen, plainConcatLoop, concatLoop, hset]
        · rfl
  | cons item items ih =>
    intro n heap hspread hlength hcopies
    rw [length_cons] at hlength hcopies
    have hn : ¬ n ≥ maximumLength := by omega
    have hadded : ∀ value : α, andThenDefined
            (some (atObject obj (ArrayReceiver.defineElement n value) heap))
            (call.concatLoop obj (items ++ [.spreadable arr inFastMode]) (n + 1)) =
          some (andThen (atObject obj (ArrayReceiver.defineElement n value) heap)
            (call.plainConcatLoop obj (items ++ [.spreadable arr inFastMode]) (n + 1))) := by
      intro value
      rw [atObject]
      rcases hdefine : (heap obj).defineElement n value with ⟨o, _ | e⟩
      · have hnext := hcopies.define (show n < n + (items.length + 1) by omega) hdefine
        rw [show n + (items.length + 1) = n + 1 + items.length by omega] at hnext
        exact ih (fun item hmem => hspread item (mem_cons_of_mem _ hmem)) (by omega) hnext
      · rfl
    cases item with
    | spreadable other otherInFastMode => cases hspread _ mem_cons_self
    | object value | primitive value =>
      simp only [cons_append, concatLoop, plainConcatLoop, if_neg hn, hadded value]

/-- One item is spread, and it is the last one, so that the length is set once and at the end. -/
def SpreadsOnce (obj : Nat) (items : List (ConcatItem α)) (heap : ArrayHeap α) : Prop :=
  ∃ before arr inFastMode, items = before ++ [.spreadable arr inFastMode] ∧
    (∀ item ∈ before, item.isSpread = false) ∧ before.length ≤ maximumLength ∧
    call.CopiesInto inFastMode arr obj before.length heap

theorem builtinArrayConcat_eq (create : Nat → ArrayHeap α → ArrayHeap α × Nat)
    (items : List (ConcatItem α)) (heap : ArrayHeap α)
    (h : call.ConcatsToNewArray (create 0 heap).2 items (create 0 heap).1 ∨
      call.SpreadsOnce (create 0 heap).2 items (create 0 heap).1) :
    call.builtinArrayConcat create items heap = call.plainConcat create items heap := by
  rw [builtinArrayConcat, plainConcat]
  rcases h with h | ⟨before, arr, inFastMode, rfl, hspread, hlength, hcopies⟩
  · have hsame := call.finished_receiverLength h.appendable
    rw [h.empty] at hsame
    have hloop := call.concatLoop_finished items h.fresh h.appendable (Nat.le_of_eq h.empty)
      (by rw [Nat.zero_add]; exact h.fits)
    rw [hsame] at hloop
    rw [hloop]
  · rw [call.concatLoop_spreadOnce before hspread (by omega) (by rwa [Nat.zero_add])]

end UnshiftCall

end Escargot.Builtins
