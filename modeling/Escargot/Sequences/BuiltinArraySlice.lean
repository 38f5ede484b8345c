/-
# Array.prototype.slice

The elements go to an object that `ArraySpeciesCreate` gives, which may be one
that they come from. `slice` jumps over absent elements, and copies the slots if
both objects are arrays in fast mode.
-/

import Escargot.Sequences.BuiltinArrayShift

namespace Escargot.Builtins

open List Option Escargot.Foundation Escargot.Runtime

variable {α : Type}

/-- The objects that a builtin works on. -/
abbrev ArrayHeap (α : Type) := Nat → ArrayReceiver α

/-- The objects after a step, and the exception if there is one. -/
abbrev HeapOutcome (α : Type) := ArrayHeap α × Option ArrayException

def atObject (object : Nat) (step : ArrayReceiver α → Receives α) (heap : ArrayHeap α) :
    HeapOutcome α :=
  (Function.update heap object (step (heap object)).1, (step (heap object)).2)

/-- One round of the loop of `copyFastModeElementsFrom`. A write past the end of the slots leaves
no defined state behind. -/
def copySlot (src dst srcStart dstStart : Nat) (heap : ArrayHeap α) (i : Nat) :
    Option (ArrayHeap α) :=
  match heap src, heap dst with
  | .fast s, .fast d =>
    match s.slot (srcStart + i) with
    | some value =>
      if dstStart + i < d.slots.length then
        some (Function.update heap dst (.fast (d.writeSlot (dstStart + i) (some value))))
      else none
    | none => some heap
  | _, _ => some heap

/-- `setArrayLength` in `copyFastModeElementsFrom`, which fails if the length is not writable. -/
def growForCopy (length : Nat) (d : FastArray α) : FastArray α :=
  if h : d.slots.length < length ∧ d.isLengthPropertyWritable = true ∧ length < 2 ^ 32 then
    d.withSlots (resize d.slots length) (by rw [length_resize]; exact h.2.2)
  else d

def copyFastModeElementsFrom (src dst srcStart dstStart count : Nat) (heap : ArrayHeap α) :
    Option (ArrayHeap α) :=
  match heap dst with
  | .fast d =>
    (List.range count).foldlM (copySlot src dst srcStart dstStart)
      (Function.update heap dst (.fast (growForCopy (dstStart + count) d)))
  | .other _ => some heap

/-- A relative index, made absolute. An infinite one is an integer beyond the length. -/
def relativeIndex (len : Nat) (relative : Int) : Nat :=
  if relative < 0 then (max (len + relative) 0).toNat else (min relative len).toNat

theorem relativeIndex_le (len : Nat) (relative : Int) : relativeIndex len relative ≤ len := by
  rw [relativeIndex]
  split <;> omega

namespace UnshiftCall

variable (call : UnshiftCall α)

/-- One round of a loop that copies an element. -/
def copyRound (src dst : Nat) (target : Nat → Nat) (k : Nat) (heap : ArrayHeap α) :
    HeapOutcome α :=
  match (heap src).hasIndexedProperty k with
  | some property =>
    atObject dst (ArrayReceiver.defineElement (target k) (call.valueOf property)) heap
  | none => (heap, none)

/-- Where a loop that copies goes on: after an absent element at the next index below `len`. -/
def copyJumps (src : Nat) {stop len : Nat} (hle : stop ≤ len) : LoopJumps (ArrayHeap α) stop where
  next k heap heap' :=
    if ((heap src).hasIndexedProperty k).isSome then k + 1
    else call.indexForward (heap' src) k len
  lt k heap heap' hk := by
    split
    · exact Nat.lt_succ_self k
    · exact (call.indexForward_bounds (Nat.lt_of_lt_of_le hk hle)).1

theorem copyLoop_eq (src dst : Nat) (target : Nat → Nat) {stop len : Nat} (hle : stop ≤ len)
    (k : Nat) (heap : ArrayHeap α) :
    jumpingRounds (call.copyJumps src hle) (call.copyRound src dst target) k heap =
      rounds (call.copyRound src dst target) stop k heap := by
  apply jumpingRounds_eq
  intro k heap heap' hk hround j hkj hj hstop
  cases hpresent : (heap src).hasIndexedProperty k with
  | some property =>
    change j < (if ((heap src).hasIndexedProperty k).isSome then k + 1 else _) at hj
    rw [hpresent, isSome_some, if_pos rfl] at hj
    omega
  | none =>
    change j < (if ((heap src).hasIndexedProperty k).isSome then k + 1 else
      call.indexForward (heap' src) k len) at hj
    rw [hpresent, isSome_none, if_neg Bool.false_ne_true] at hj
    rw [copyRound, call.hasIndexedProperty_of_lt_indexForward (Nat.lt_of_lt_of_le hk hle) hkj hj]

/-- `builtinArraySlice` after `ArraySpeciesCreate`, on its loop. -/
def sliceWith (loop : Nat → ArrayHeap α → HeapOutcome α) (dst kStart finalEnd : Nat)
    (heap : ArrayHeap α) : HeapOutcome α :=
  andThen (loop kStart heap) (atObject dst (call.setReceiverLength (finalEnd - kStart)))

/-- The condition of the fast path of `builtinArraySlice`, where `count` is a `uint32_t`. -/
def slicesSlots (src dst finalEnd count : Nat) (heap : ArrayHeap α) : Bool :=
  match heap src, heap dst with
  | .fast s, .fast d =>
    d.rest.isExtensible && decide (finalEnd ≤ s.slots.length) && decide (d.slots.length = count)
  | _, _ => false

/-- `builtinArraySlice` after `ArraySpeciesCreate`. -/
def sliceTo (src dst len kStart finalEnd : Nat) (hle : finalEnd ≤ len) (heap : ArrayHeap α) :
    Option (HeapOutcome α) :=
  if slicesSlots src dst finalEnd ((finalEnd - kStart) % 2 ^ 32) heap then
    (copyFastModeElementsFrom src dst kStart 0 ((finalEnd - kStart) % 2 ^ 32) heap).map fun heap =>
      (heap, none)
  else
    some (call.sliceWith
      (jumpingRounds (call.copyJumps src hle) (call.copyRound src dst fun k => k - kStart))
      dst kStart finalEnd heap)

/-- `slice` of the specification after `ArraySpeciesCreate`. -/
def plainSliceTo (src dst kStart finalEnd : Nat) (heap : ArrayHeap α) : HeapOutcome α :=
  call.sliceWith (rounds (call.copyRound src dst fun k => k - kStart) finalEnd) dst kStart finalEnd
    heap

/-- `finalEnd`. -/
def sliceEnd (len : Nat) : Option Int → Nat
  | none => len
  | some relativeEnd => relativeIndex len relativeEnd

theorem sliceEnd_le (len : Nat) (relativeEnd : Option Int) : sliceEnd len relativeEnd ≤ len := by
  cases relativeEnd with
  | none => exact Nat.le_refl len
  | some relativeEnd => exact relativeIndex_le len relativeEnd

-- `ArraySpeciesCreate` of a length: the objects that are left, and the one that it gives.
variable (create : Nat → ArrayHeap α → ArrayHeap α × Nat)

/-- `builtinArraySlice`; the object that it returns is the second part. -/
def builtinArraySlice (src : Nat) (relativeStart : Int) (relativeEnd : Option Int)
    (heap : ArrayHeap α) : Option (HeapOutcome α) × Nat :=
  let len := call.receiverLength (heap src)
  let created := create (sliceEnd len relativeEnd - relativeIndex len relativeStart) heap
  (call.sliceTo src created.2 len (relativeIndex len relativeStart) (sliceEnd len relativeEnd)
    (sliceEnd_le len relativeEnd) created.1, created.2)

/-- `slice` of the specification, which visits every element. -/
def plainSlice (src : Nat) (relativeStart : Int) (relativeEnd : Option Int)
    (heap : ArrayHeap α) : Option (HeapOutcome α) × Nat :=
  let len := call.receiverLength (heap src)
  let created := create (sliceEnd len relativeEnd - relativeIndex len relativeStart) heap
  (some (call.plainSliceTo src created.2 (relativeIndex len relativeStart)
    (sliceEnd len relativeEnd) created.1), created.2)

section SliceSlots

variable {src dst kStart dstStart finalEnd size : Nat} {target : Nat → Nat} {writable : Bool}

/-- Both objects are in fast mode, with slots for what is copied. -/
def CopiesSlots (src dst finalEnd size : Nat) (writable : Bool) (heap : ArrayHeap α) : Prop :=
  ∃ s d, heap src = .fast s ∧ heap dst = .fast d ∧ finalEnd ≤ s.slots.length ∧
    d.slots.length = size ∧ d.isLengthPropertyWritable = writable

variable {heap : ArrayHeap α}

theorem copyRound_slot (htarget : ∀ i, target (kStart + i) = dstStart + i)
    (h : CopiesSlots src dst finalEnd size writable heap) {i : Nat} (hi : kStart + i < finalEnd)
    (hroom : dstStart + i < size) :
    ∃ heap', copySlot src dst kStart dstStart heap i = some heap' ∧
      call.copyRound src dst target (kStart + i) heap = (heap', none) ∧
      CopiesSlots src dst finalEnd size writable heap' := by
  obtain ⟨s, d, hs, hd, hend, rfl, hwritable⟩ := h
  have hindex : kStart + i < invalidIndexPropertyValue :=
    FastArray.lt_invalidIndex (Nat.lt_of_lt_of_le hi hend)
  rw [copySlot, hs, hd, copyRound, hs, ArrayReceiver.hasIndexedProperty_fast hindex]
  dsimp only
  cases hslot : s.slot (kStart + i) with
  | none => exact ⟨heap, rfl, rfl, s, d, hs, hd, hend, rfl, hwritable⟩
  | some value =>
    dsimp only [map_some]
    rw [if_pos hroom, htarget, atObject, hd, ArrayReceiver.defineElement, if_pos hroom]
    refine ⟨_, rfl, rfl, ?_⟩
    by_cases hsame : src = dst
    · subst hsame
      rw [hs] at hd
      cases hd
      refine ⟨_, _, Function.update_self _ _ _, Function.update_self _ _ _, ?_, length_set,
        hwritable⟩
      exact hend.trans_eq List.length_set.symm
    · refine ⟨s, _, ?_, Function.update_self _ _ _, hend, length_set, hwritable⟩
      rw [Function.update_of_ne hsame, hs]

theorem copySlots_eq (htarget : ∀ i, target (kStart + i) = dstStart + i) (count : Nat) :
    ∀ {heap : ArrayHeap α}, CopiesSlots src dst finalEnd size writable heap →
      kStart + count ≤ finalEnd → dstStart + count ≤ size →
        ∃ heap', (List.range count).foldlM (copySlot src dst kStart dstStart) heap = some heap' ∧
          rounds (call.copyRound src dst target) finalEnd kStart heap =
            rounds (call.copyRound src dst target) finalEnd (kStart + count) heap' ∧
          CopiesSlots src dst finalEnd size writable heap' := by
  intro heap h hcount hroom
  induction count with
  | zero => exact ⟨heap, rfl, rfl, h⟩
  | succ count ih =>
    obtain ⟨mid, hmid, hrounds, hcopies⟩ := ih (Nat.le_of_succ_le hcount) (Nat.le_of_succ_le hroom)
    obtain ⟨heap', hslot, hround, hcopies'⟩ := call.copyRound_slot htarget hcopies hcount hroom
    refine ⟨heap', ?_, ?_, hcopies'⟩
    · rw [range_succ, foldlM_append, hmid]
      show (copySlot src dst kStart dstStart mid count).bind some = _
      rw [hslot]
      rfl
    · rw [hrounds, rounds_of_lt (show kStart + count < finalEnd from hcount), hround]
      rfl

theorem resize_of_length_eq {slots : List (Option α)} {length : Nat} (h : slots.length = length) :
    resize slots length = slots := by
  rw [resize, h, Nat.sub_self, take_of_length_le (Nat.le_of_eq h)]
  exact append_nil slots

theorem withSlots_eq (a : FastArray α) {slots : List (Option α)} (h : slots = a.slots)
    (hfits : slots.length < 2 ^ 32) : a.withSlots slots hfits = a := by
  subst h
  rfl

variable {d : FastArray α}

theorem copyFastModeElementsFrom_eq (target : Nat → Nat) (dstStart : Nat)
    (htarget : ∀ i, target (kStart + i) = dstStart + i) {s : FastArray α}
    (hs : heap src = .fast s) (hd : heap dst = .fast d) (hend : finalEnd ≤ s.slots.length)
    (hroom : dstStart + (finalEnd - kStart) ≤ d.slots.length) :
    ∃ heap', (List.range (finalEnd - kStart)).foldlM (copySlot src dst kStart dstStart) heap =
        some heap' ∧
      rounds (call.copyRound src dst target) finalEnd kStart heap = (heap', none) ∧
      CopiesSlots src dst finalEnd d.slots.length d.isLengthPropertyWritable heap' := by
  have hcopies : CopiesSlots src dst finalEnd d.slots.length d.isLengthPropertyWritable heap :=
    ⟨s, d, hs, hd, hend, rfl, rfl⟩
  rcases Nat.le_total kStart finalEnd with hstart | hstart
  · obtain ⟨heap', hslots, hrounds, hcopies'⟩ :=
      call.copySlots_eq htarget (finalEnd - kStart) hcopies (by omega) hroom
    refine ⟨heap', hslots, ?_, hcopies'⟩
    rw [hrounds, Nat.add_sub_cancel' hstart]
    exact rounds_of_le (Nat.le_refl finalEnd)
  · rw [Nat.sub_eq_zero_of_le hstart]
    exact ⟨heap, rfl, rounds_of_le hstart, hcopies⟩

theorem growForCopy_of_le {length : Nat} (h : length ≤ d.slots.length) :
    growForCopy length d = d := by
  rw [growForCopy, dif_neg fun hgrow => absurd hgrow.1 (Nat.not_lt.mpr h)]

theorem atObject_setReceiverLength_fast {object : Nat} (hd : heap object = .fast d) :
    atObject object (call.setReceiverLength d.slots.length) heap =
      (heap, if d.isLengthPropertyWritable then none
        else some (.cannotWrite (.string NonFastArray.lengthName))) := by
  have hset : call.setReceiverLength d.slots.length (.fast d) =
      (.fast d, if d.isLengthPropertyWritable then none
        else some (.cannotWrite (.string NonFastArray.lengthName))) := by
    rw [setReceiverLength]
    cases d.isLengthPropertyWritable with
    | false => rfl
    | true =>
      rw [if_neg (by decide), dif_pos d.fits, withSlots_eq d (resize_of_length_eq rfl)]
      rfl
  rw [atObject, hd, hset, ← hd, Function.update_eq_self]

theorem sliceTo_eq_iff {len : Nat} (hle : finalEnd ≤ len) (heap : ArrayHeap α) :
    call.sliceTo src dst len kStart finalEnd hle heap =
        some (call.plainSliceTo src dst kStart finalEnd heap) ↔
      (slicesSlots src dst finalEnd ((finalEnd - kStart) % 2 ^ 32) heap = true →
        ∀ d, heap dst = .fast d → d.isLengthPropertyWritable = true) := by
  rw [sliceTo]
  split
  · rename_i hpath
    have hslots := hpath
    rw [slicesSlots] at hpath
    split at hpath
    · rename_i s d hs hd
      simp only [Bool.and_eq_true, decide_eq_true_eq] at hpath
      obtain ⟨⟨-, hend⟩, hlength⟩ := hpath
      have hfits := s.fits
      have hcount : (finalEnd - kStart) % 2 ^ 32 = finalEnd - kStart := Nat.mod_eq_of_lt (by omega)
      rw [hcount] at hlength hslots ⊢
      have htarget : ∀ i, kStart + i - kStart = 0 + i := fun i => by omega
      obtain ⟨heap', hcopied, hrounds, s', d', hs', hd', -, hlength', hwritable'⟩ :=
        call.copyFastModeElementsFrom_eq (fun k => k - kStart) 0 htarget hs hd hend (by omega)
      rw [hlength] at hlength'
      have hgrow : growForCopy (0 + (finalEnd - kStart)) d = d := growForCopy_of_le (by omega)
      rw [copyFastModeElementsFrom, hd]
      dsimp only
      rw [hgrow, ← hd, Function.update_eq_self, hcopied, plainSliceTo, sliceWith, hrounds]
      show some (heap', none) = some (atObject dst _ heap') ↔ _
      rw [← hlength', call.atObject_setReceiverLength_fast hd', hwritable']
      constructor
      · intro heq _ d₁ hd₁
        rw [hd] at hd₁
        cases hd₁
        by_contra hwritable
        rw [if_neg hwritable] at heq
        cases congrArg Prod.snd (Option.some.inj heq)
      · intro hall
        rw [if_pos (hall (hlength' ▸ hslots) d hd)]
    · cases hpath
  · rename_i hpath
    refine iff_of_true ?_ fun htrue => absurd htrue hpath
    rw [sliceWith, plainSliceTo, sliceWith, call.copyLoop_eq]

end SliceSlots

end UnshiftCall

end Escargot.Builtins
