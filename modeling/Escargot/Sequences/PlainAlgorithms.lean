/-
# Array builtins and the algorithms of the specification

`shift`, `reverse` and `splice` do what visiting every element does. `slice` does
not set the length of its result when it copies slots, and `concat` not after its
last element.
-/

import Escargot.Sequences.BuiltinArrayConcat
import Escargot.Sequences.BuiltinArraySplice

namespace Escargot.Builtins

open List Escargot.Runtime

namespace UnshiftCall

variable {α : Type} (call : UnshiftCall α)
  (create : Nat → ArrayHeap α → ArrayHeap α × Nat)

variable (src : Nat) (relativeStart : Int) (relativeEnd : Option Int) (heap : ArrayHeap α)

/-- The length of the result of `slice` can be set, if slots are copied. -/
def SlicesToWritableLength : Prop :=
  let len := call.receiverLength (heap src)
  let kStart := relativeIndex len relativeStart
  let finalEnd := sliceEnd len relativeEnd
  let created := create (finalEnd - kStart) heap
  slicesSlots src created.2 finalEnd ((finalEnd - kStart) % 2 ^ 32) created.1 = true →
    ∀ d, created.1 created.2 = .fast d → d.isLengthPropertyWritable = true

theorem builtinArraySlice_eq_iff :
    call.builtinArraySlice create src relativeStart relativeEnd heap =
        call.plainSlice create src relativeStart relativeEnd heap ↔
      call.SlicesToWritableLength create src relativeStart relativeEnd heap := by
  rw [builtinArraySlice, plainSlice]
  rw [Prod.mk.injEq, and_iff_left rfl]
  exact call.sliceTo_eq_iff (sliceEnd_le _ relativeEnd) _

end UnshiftCall

def plainNumbers : UnshiftCall Nat where
  numberOf _ := -(2 ^ 63)
  ofNumber := id
  undefined := 0
  callGetter := id
  toLength := id
  argv := []

def emptyObject : ArrayLike Nat where
  isOrdinary := true
  isExtensible := true
  properties := []
  nodup := nodup_nil
  array := none
  prototypes := []

def numbersInFastMode (slots : List (Option Nat)) (isLengthPropertyWritable : Bool)
    (h : slots.length < 2 ^ 32) : ArrayReceiver Nat :=
  .fast
    { slots := slots
      isLengthPropertyWritable := isLengthPropertyWritable
      rest := emptyObject
      fits := h
      clean := fun _ hmem => absurd hmem not_mem_nil }

/-- The array `[1, 2]` and a function for `ArraySpeciesCreate` that returns an object. -/
def pairHeap : ArrayHeap Nat := fun _ => numbersInFastMode [some 1, some 2] true (by decide)

def createdAs (o : ArrayReceiver Nat) (_length : Nat) (heap : ArrayHeap Nat) : ArrayHeap Nat × Nat :=
  (Function.update heap 1 o, 1)

end Escargot.Builtins
