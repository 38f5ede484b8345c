/-
# Array.prototype.splice

`splice` has no path for arrays in fast mode, and does not jump: its loops visit
the same indices as those of the specification.
-/

import Escargot.Sequences.BuiltinArraySlice

namespace Escargot.Builtins

open Escargot.Foundation Escargot.Runtime

variable {α : Type}

inductive SpliceArguments (α : Type)
  | empty
  | start (relativeStart : Int)
  | replace (relativeStart deleteCount : Int) (items : List α)

namespace SpliceArguments

variable (arguments : SpliceArguments α) (len : Nat)

def relativeStart : SpliceArguments α → Int
  | .empty => 0
  | .start relativeStart | .replace relativeStart _ _ => relativeStart

def items : SpliceArguments α → List α
  | .replace _ _ items => items
  | _ => []

def actualStart : Nat := relativeIndex len arguments.relativeStart

def actualDeleteCount : SpliceArguments α → Nat → Nat
  | .empty, _ => 0
  | arguments@(.start _), len => len - arguments.actualStart len
  | arguments@(.replace _ deleteCount _), len =>
    min (max deleteCount 0).toNat (len - arguments.actualStart len)

/-- The length that the receiver gets. -/
def newLength : Nat := len - arguments.actualDeleteCount len + arguments.items.length

end SpliceArguments

namespace UnshiftCall

variable (call : UnshiftCall α)

def removeRound (src dst actualStart k : Nat) (heap : ArrayHeap α) : HeapOutcome α :=
  match (heap src).hasIndexedProperty (actualStart + k) with
  | some property => atObject dst (ArrayReceiver.defineElement k (call.valueOf property)) heap
  | none => (heap, none)

def moveRound (actualDeleteCount itemCount k : Nat) (o : ArrayReceiver α) : Receives α :=
  match o.hasIndexedProperty (k + actualDeleteCount) with
  | some property => o.setElement (k + itemCount) (call.valueOf property)
  | none => o.deleteElement (k + itemCount)

def writeItems : List α → Nat → ArrayReceiver α → Receives α
  | [], _, o => (o, none)
  | e :: items, k, o => andThen (o.setElement k e) (writeItems items (k + 1))

/-- A loop that goes on at the next position. -/
def oneByOne (S : Type) (stop : Nat) : LoopJumps S stop where
  next k _ _ := k + 1
  lt k _ _ _ := Nat.lt_succ_self k

/-- The loops that move the elements behind those that are removed. -/
def moveLoops (len actualStart actualDeleteCount itemCount : Nat) (o : ArrayReceiver α) :
    Receives α :=
  if itemCount < actualDeleteCount then
    andThen
      (jumpingRounds (oneByOne (ArrayReceiver α) (len - actualDeleteCount))
        (call.moveRound actualDeleteCount itemCount) actualStart o)
      (roundsDown (fun k => ArrayReceiver.deleteElement (k - 1))
        (len - actualDeleteCount + itemCount) len)
  else if actualDeleteCount < itemCount then
    roundsDown (fun k => call.moveRound actualDeleteCount itemCount (k - 1)) actualStart
      (len - actualDeleteCount) o
  else (o, none)

/-- The elements that are moved, by the specification. -/
def plainMoves (len actualStart actualDeleteCount itemCount : Nat) (o : ArrayReceiver α) :
    Receives α :=
  let moved := List.range' actualStart (len - actualDeleteCount - actualStart)
  let removed := List.range' (len - actualDeleteCount + itemCount)
    (len - (len - actualDeleteCount + itemCount))
  if itemCount < actualDeleteCount then
    andThen (visitAll (call.moveRound actualDeleteCount itemCount) moved o)
      (visitAll ArrayReceiver.deleteElement removed.reverse)
  else if actualDeleteCount < itemCount then
    visitAll (call.moveRound actualDeleteCount itemCount) moved.reverse o
  else (o, none)

/-- `splice` with loops that copy and move the elements, after `ArraySpeciesCreate`. -/
def spliceWith (copy : ArrayHeap α → HeapOutcome α) (move : ArrayReceiver α → Receives α)
    (src dst len : Nat) (arguments : SpliceArguments α) (heap : ArrayHeap α) : HeapOutcome α :=
  andThen (copy heap) fun heap =>
    andThen (atObject dst (call.setReceiverLength (arguments.actualDeleteCount len)) heap)
      (atObject src fun o =>
        andThen (move o) fun o =>
          andThen (writeItems arguments.items (arguments.actualStart len) o)
            (call.setReceiverLength (arguments.newLength len)))

-- `ArraySpeciesCreate` of a length: the objects that are left, and the one that it gives.
variable (create : Nat → ArrayHeap α → ArrayHeap α × Nat)
  (src : Nat) (arguments : SpliceArguments α) (heap : ArrayHeap α)

/-- `builtinArraySplice`; the object that it returns is the second part. -/
def builtinArraySplice : HeapOutcome α × Nat :=
  let len := call.receiverLength (heap src)
  if arguments.newLength len > maximumLength then ((heap, some .lengthTooLong), src)
  else
    let created := create (arguments.actualDeleteCount len) heap
    (call.spliceWith
      (jumpingRounds (oneByOne (ArrayHeap α) (arguments.actualDeleteCount len))
        (call.removeRound src created.2 (arguments.actualStart len)) 0)
      (call.moveLoops len (arguments.actualStart len) (arguments.actualDeleteCount len)
        arguments.items.length)
      src created.2 len arguments created.1, created.2)

def plainSplice : HeapOutcome α × Nat :=
  let len := call.receiverLength (heap src)
  if arguments.newLength len > maximumLength then ((heap, some .lengthTooLong), src)
  else
    let created := create (arguments.actualDeleteCount len) heap
    (call.spliceWith
      (visitAll (call.removeRound src created.2 (arguments.actualStart len))
        (List.range (arguments.actualDeleteCount len)))
      (call.plainMoves len (arguments.actualStart len) (arguments.actualDeleteCount len)
        arguments.items.length)
      src created.2 len arguments created.1, created.2)

theorem jumpingRounds_oneByOne {S ε : Type} (round : Nat → S → S × Option ε) (stop k : Nat)
    (s : S) :
    jumpingRounds (oneByOne S stop) round k s = visitAll round (List.range' k (stop - k)) s := by
  rw [← rounds_eq_visitAll]
  apply jumpingRounds_eq
  intro k s s' _ _ j hkj hj
  change j < k + 1 at hj
  omega

theorem moveLoops_eq (len actualStart actualDeleteCount itemCount : Nat) :
    call.moveLoops len actualStart actualDeleteCount itemCount =
      call.plainMoves len actualStart actualDeleteCount itemCount := by
  funext o
  rw [moveLoops, plainMoves]
  by_cases hfewer : itemCount < actualDeleteCount
  · have hdown : roundsDown (fun k => ArrayReceiver.deleteElement (α := α) (k - 1))
        (len - actualDeleteCount + itemCount) len =
        visitAll ArrayReceiver.deleteElement (List.range' (len - actualDeleteCount + itemCount)
          (len - (len - actualDeleteCount + itemCount))).reverse := by
      funext o
      exact roundsDown_eq_visitAll _ _ _ o
    rw [if_pos hfewer, if_pos hfewer, jumpingRounds_oneByOne, hdown]
  · rw [if_neg hfewer, if_neg hfewer]
    split
    · exact roundsDown_eq_visitAll _ _ _ o
    · rfl

theorem builtinArraySplice_eq : call.builtinArraySplice create src arguments heap =
      call.plainSplice create src arguments heap := by
  have hcopy : ∀ dst, jumpingRounds
      (oneByOne (ArrayHeap α) (arguments.actualDeleteCount (call.receiverLength (heap src))))
      (call.removeRound src dst (arguments.actualStart (call.receiverLength (heap src)))) 0 =
      visitAll (call.removeRound src dst (arguments.actualStart (call.receiverLength (heap src))))
        (List.range (arguments.actualDeleteCount (call.receiverLength (heap src)))) := by
    intro dst
    funext heap
    rw [jumpingRounds_oneByOne, List.range_eq_range']
    rfl
  rw [builtinArraySplice, plainSplice]
  dsimp only
  rw [hcopy, call.moveLoops_eq]

end UnshiftCall

end Escargot.Builtins
