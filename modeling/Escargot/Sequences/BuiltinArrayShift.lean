/-
# Array.prototype.shift and Array.prototype.reverse

`shift` moves the elements down, and `reverse` exchanges them from the ends to
the middle. Both jump over indices where there is nothing to move, with
`nextIndexForward` and `nextIndexBackward`; for an array in fast mode, `shift`
moves the slots of the raw storage instead.
-/

import Escargot.Sequences.ArrayReceiver
import Escargot.Sequences.JumpingRounds

namespace Escargot.Builtins

open List Option Escargot.Foundation Escargot.Runtime

variable {α : Type}

namespace FastArray

variable {a : FastArray α} {n m : Nat}

theorem slot_writeSlot (value : Option α) (h : n < a.slots.length) :
    (a.writeSlot n value).slot m = if m = n then value else a.slot m := by
  show ((a.slots.set n value)[m]?).join = _
  rw [getElem?_set]
  by_cases hm : m = n
  · rw [if_pos hm.symm, if_pos hm, if_pos h]
    rfl
  · rw [if_neg (Ne.symm hm), if_neg hm]
    rfl

theorem writeSlot_of_eq {value : Option α} (h : a.slot n = value) (hlt : n < a.slots.length) :
    a.writeSlot n value = a := by
  have hget : a.slots[n] = value := by
    rw [slot, getElem?_eq_getElem hlt] at h
    exact h
  have hslots : a.slots.set n value = a.slots := by
    rw [← hget]
    exact set_getElem_self hlt
  cases a
  simp only [writeSlot, withSlots, hslots]

theorem lt_invalidIndex (h : n < a.slots.length) : n < invalidIndexPropertyValue := by
  have hfits := a.fits
  rw [invalidIndexPropertyValue]
  omega

theorem inherited_eq_none (a : FastArray α) (n : Nat) : a.rest.inherited (.index n) = none :=
  List.findSome?_eq_none_iff.mpr fun prototype hmem => (a.clean prototype hmem).2 n

end FastArray

namespace ArrayReceiver

variable {o : ArrayReceiver α} {a : FastArray α} {n m : Nat}

theorem hasIndexedProperty_fast (h : n < invalidIndexPropertyValue) :
    (ArrayReceiver.fast a).hasIndexedProperty n = (a.slot n).map .plain := by
  rw [hasIndexedProperty, if_pos h, a.inherited_eq_none, or_none]

theorem deleteElement_of_none (h : o.hasIndexedProperty n = none) :
    o.deleteElement n = (o, none) := by
  cases o with
  | other o =>
    have hown := (Option.or_eq_none_iff.mp h).1
    rw [deleteElement, UnshiftCall.deleteOwnPropertyThrowsException_of_none hown]
  | fast a =>
    rw [deleteElement]
    split
    · rename_i hlt
      rw [hasIndexedProperty_fast (FastArray.lt_invalidIndex hlt), map_eq_none_iff] at h
      rw [FastArray.writeSlot_of_eq h hlt]
    · split
      · rfl
      · rename_i hlimit
        rw [hasIndexedProperty, if_neg hlimit] at h
        have hown := (Option.or_eq_none_iff.mp h).1
        have hdelete : a.rest.deleteOwnProperty (.index n) = (a.rest, true) := by
          rw [ArrayLike.deleteOwnProperty, hown]
        have hchange : ∀ (rest : ArrayLike α) (hrest : rest.prototypes = a.rest.prototypes),
            rest = a.rest → a.changeRest rest hrest = a := by
          rintro _ _ rfl
          rfl
        rw [hchange _ _ (congrArg Prod.fst hdelete), hdelete]
        rfl

theorem hasIndexedProperty_deleteElement (h : m ≠ n) :
    (o.deleteElement n).1.hasIndexedProperty m = o.hasIndexedProperty m := by
  have hkey : ArrayKey.index m ≠ .index n := fun heq => h (ArrayKey.index.inj heq)
  cases o with
  | other o => exact (o.touches_deleteOwnProperty (.index n)).hasProperty hkey
  | fast a =>
    rw [deleteElement]
    split
    · rename_i hlt
      rw [hasIndexedProperty, hasIndexedProperty, FastArray.slot_writeSlot none hlt, if_neg h]
      rfl
    · split
      · rfl
      · have htouches := a.rest.touches_deleteOwnProperty (.index n)
        show (if m < invalidIndexPropertyValue then ((a.slot m).map .plain).or
            ((a.rest.deleteOwnProperty (.index n)).1.inherited (.index m))
          else (a.rest.deleteOwnProperty (.index n)).1.hasProperty (.index m)) = _
        rw [htouches.hasProperty hkey, ArrayLike.inherited, htouches.prototypes]
        rfl

end ArrayReceiver

namespace UnshiftCall

variable (call : UnshiftCall α)

/-- One round of the loop of `builtinArrayShift`. -/
def shiftRound (k : Nat) (o : ArrayReceiver α) : Receives α :=
  match o.hasIndexedProperty k with
  | some property => o.setElement (k - 1) (call.valueOf property)
  | none => o.deleteElement (k - 1)

/-- Where the loop of `builtinArrayShift` goes on. -/
def shiftJumps (len : Nat) : LoopJumps (ArrayReceiver α) len where
  next k o o' :=
    if (o.hasIndexedProperty k).isSome then k + 1
    else if call.indexForward o' k len > k then call.indexForward o' k len
    else k - 1
  lt k o o' hk := by
    have hbounds := call.indexForward_bounds (o := o') hk
    rw [if_pos hbounds.1]
    split
    · exact Nat.lt_succ_self k
    · exact hbounds.1

/-- What follows the loop. -/
def finishShift (len : Nat) (o : ArrayReceiver α) : Receives α :=
  andThen (o.deleteElement (len - 1)) (call.setReceiverLength (len - 1))

variable (len lower : Nat) (o : ArrayReceiver α)

/-- `O->get(state, 0)`. -/
def firstValue : α :=
  match o.hasIndexedProperty 0 with
  | some property => call.valueOf property
  | none => call.undefined

/-- The loop of the fast path of `builtinArrayShift`. -/
def moveSlots (a : FastArray α) : FastArray α :=
  (List.range (a.slots.length - 1)).foldl (fun a i => a.writeSlot i (a.slot (i + 1))) a

/-- The fast path of `builtinArrayShift`. -/
def shiftSlots (a : FastArray α) : FastArray α :=
  ((moveSlots a).writeSlot (a.slots.length - 1) none).withSlots
    (resize ((moveSlots a).writeSlot (a.slots.length - 1) none).slots (a.slots.length - 1)) (by
      rw [length_resize]
      exact Nat.lt_of_le_of_lt (Nat.sub_le _ _) a.fits)

/-- `shift` with a loop that moves the elements; what it returns is the second part. -/
def shiftWith (loop : Nat → ArrayReceiver α → Receives α) (o : ArrayReceiver α) : Receives α × α :=
  if call.receiverLength o = 0 then (call.setReceiverLength 0 o, call.undefined)
  else
    (andThen (loop (call.receiverLength o) o) (call.finishShift (call.receiverLength o)),
      call.firstValue o)

/-- `shift` of the specification, which visits every element. -/
def plainShift : Receives α × α := call.shiftWith (fun len => rounds call.shiftRound len 1) o

def builtinArrayShift : Receives α × α :=
  match o with
  | .fast a =>
    if a.slots.length ≠ 0 ∧ a.isLengthPropertyWritable then
      ((.fast (shiftSlots a), none), (a.slot 0).getD call.undefined)
    else call.shiftWith (fun len => jumpingRounds (call.shiftJumps len) call.shiftRound 1) o
  | .other _ => call.shiftWith (fun len => jumpingRounds (call.shiftJumps len) call.shiftRound 1) o

theorem shiftLoop_eq (len : Nat) (o : ArrayReceiver α) :
    jumpingRounds (call.shiftJumps len) call.shiftRound 1 o = rounds call.shiftRound len 1 o := by
  apply jumpingRounds_eq
  intro k o o' hk hround j hkj hj hstop
  cases hpresent : o.hasIndexedProperty k with
  | some property =>
    change j < (if (o.hasIndexedProperty k).isSome then k + 1 else _) at hj
    rw [hpresent, isSome_some, if_pos rfl] at hj
    omega
  | none =>
    have hbounds := call.indexForward_bounds (o := o') hk
    change j < (if (o.hasIndexedProperty k).isSome then k + 1 else
      if call.indexForward o' k len > k then call.indexForward o' k len else k - 1) at hj
    rw [hpresent, isSome_none, if_neg Bool.false_ne_true, if_pos hbounds.1] at hj
    rw [shiftRound, hpresent] at hround
    have ho' : o' = (o.deleteElement (k - 1)).1 := (congrArg Prod.fst hround).symm
    rw [shiftRound, call.hasIndexedProperty_of_lt_indexForward hk hkj hj]
    apply ArrayReceiver.deleteElement_of_none
    rcases Nat.lt_or_ge k (j - 1) with hlt | hge
    · exact call.hasIndexedProperty_of_lt_indexForward hk hlt (by omega)
    · have hj1 : j - 1 = k := by omega
      rw [hj1, ho']
      by_cases hk0 : k = k - 1
      · have hdelete := ArrayReceiver.deleteElement_of_none hpresent
        rw [← hk0, hdelete]
        exact hpresent
      · rw [ArrayReceiver.hasIndexedProperty_deleteElement hk0]
        exact hpresent

theorem shiftRound_fast {a : FastArray α} {k : Nat} (hk : 0 < k) (hlt : k < a.slots.length) :
    call.shiftRound k (.fast a) = (.fast (a.writeSlot (k - 1) (a.slot k)), none) := by
  have hpred : k - 1 < a.slots.length := by omega
  rw [shiftRound, ArrayReceiver.hasIndexedProperty_fast (FastArray.lt_invalidIndex hlt)]
  cases a.slot k with
  | none =>
    show ArrayReceiver.deleteElement (k - 1) (.fast a) = _
    rw [ArrayReceiver.deleteElement, if_pos hpred]
  | some value =>
    show ArrayReceiver.setElement (k - 1) value (.fast a) = _
    rw [ArrayReceiver.setElement, if_pos hpred]

theorem rounds_shiftRound_fast (k : Nat) : ∀ {a : FastArray α}, 0 < k → k ≤ a.slots.length →
    rounds call.shiftRound a.slots.length k (.fast a) =
      (.fast ((List.range' (k - 1) (a.slots.length - k)).foldl
        (fun a i => a.writeSlot i (a.slot (i + 1))) a), none) := by
  intro a hk hle
  induction hm : a.slots.length - k generalizing k a with
  | zero =>
    rw [rounds_of_le (by omega)]
    rfl
  | succ m ih =>
    have hlt : k < a.slots.length := by omega
    have hlength : (a.writeSlot (k - 1) (a.slot k)).slots.length = a.slots.length := length_set
    rw [rounds_of_lt hlt, call.shiftRound_fast hk hlt]
    have hrest := ih (k + 1) (a := a.writeSlot (k - 1) (a.slot k)) (Nat.succ_pos k)
      (by rw [hlength]; exact hlt) (by rw [hlength]; omega)
    rw [hlength] at hrest
    show rounds call.shiftRound a.slots.length (k + 1) _ = _
    rw [hrest, range'_succ, foldl_cons, Nat.sub_add_cancel hk, Nat.add_sub_cancel]

theorem length_foldl_writeSlot (indices : List Nat) : ∀ a : FastArray α,
    (indices.foldl (fun a i => a.writeSlot i (a.slot (i + 1))) a).slots.length = a.slots.length ∧
      (indices.foldl (fun a i => a.writeSlot i (a.slot (i + 1))) a).isLengthPropertyWritable =
        a.isLengthPropertyWritable := by
  induction indices with
  | nil => exact fun a => ⟨rfl, rfl⟩
  | cons i indices ih =>
    intro a
    obtain ⟨hlength, hwritable⟩ := ih (a.writeSlot i (a.slot (i + 1)))
    rw [foldl_cons, hlength, hwritable]
    exact ⟨length_set, rfl⟩

theorem builtinArrayShift_eq : call.builtinArrayShift o = call.plainShift o := by
  have hloop : (fun len => jumpingRounds (call.shiftJumps len) call.shiftRound 1) =
      fun len => rounds call.shiftRound len 1 := by
    funext len o
    exact call.shiftLoop_eq len o
  cases o with
  | other o => rw [builtinArrayShift, hloop, plainShift]
  | fast a =>
    rw [builtinArrayShift, hloop]
    split
    · rename_i hpath
      obtain ⟨hzero, hwritable⟩ := hpath
      have hpos := Nat.pos_of_ne_zero hzero
      obtain ⟨hlength, hkept⟩ := length_foldl_writeSlot (List.range (a.slots.length - 1)) a
      have hrounds : rounds call.shiftRound a.slots.length 1 (.fast a) =
          (.fast (moveSlots a), none) := by
        rw [call.rounds_shiftRound_fast 1 Nat.one_pos hpos, ← range_eq_range']
        rfl
      have hdelete : (ArrayReceiver.fast (moveSlots a)).deleteElement (a.slots.length - 1) =
          (.fast ((moveSlots a).writeSlot (a.slots.length - 1) none), none) := by
        rw [ArrayReceiver.deleteElement, if_pos]
        exact Nat.lt_of_lt_of_eq (Nat.sub_lt hpos Nat.one_pos) hlength.symm
      have hset : call.setReceiverLength (a.slots.length - 1)
          (.fast ((moveSlots a).writeSlot (a.slots.length - 1) none)) =
            (.fast (shiftSlots a), none) := by
        have hwrites : ((moveSlots a).writeSlot (a.slots.length - 1) none).isLengthPropertyWritable =
            true := hkept.trans hwritable
        rw [setReceiverLength, hwrites, if_neg (by decide),
          dif_pos (Nat.lt_of_le_of_lt (Nat.sub_le _ _) a.fits)]
        rfl
      have hfirst : call.firstValue (.fast a) = (a.slot 0).getD call.undefined := by
        rw [firstValue, ArrayReceiver.hasIndexedProperty_fast (by decide)]
        cases a.slot 0 <;> rfl
      have hlen : call.receiverLength (.fast a) = a.slots.length := rfl
      rw [plainShift, shiftWith, hlen, if_neg hzero, hrounds, hfirst, ← hset]
      show _ = (call.finishShift a.slots.length (.fast (moveSlots a)), _)
      rw [finishShift, hdelete]
      rfl
    · rfl

/-- One round of the loop of `builtinArrayReverse`. -/
def reverseRound : Receives α :=
  match o.hasIndexedProperty lower, o.hasIndexedProperty (len - lower - 1) with
  | some lowerValue, some upperValue =>
    andThen (o.setElement lower (call.valueOf upperValue))
      (ArrayReceiver.setElement (len - lower - 1) (call.valueOf lowerValue))
  | none, some upperValue =>
    andThen (o.setElement lower (call.valueOf upperValue))
      (ArrayReceiver.deleteElement (len - lower - 1))
  | some lowerValue, none =>
    andThen (o.deleteElement lower)
      (ArrayReceiver.setElement (len - lower - 1) (call.valueOf lowerValue))
  | none, none => (o, none)

def lowerCandidate : Int :=
  if (len / 2 : Nat) - (call.indexForward o lower (len / 2) : Int) >
      call.indexBackward o (len - lower - 1) (len / 2) - (len / 2 : Nat) then
    call.indexForward o lower (len / 2)
  else len - call.indexBackward o (len - lower - 1) (len / 2) - 1

/-- Where the loop goes on after a round without elements: at the candidate, or nowhere. -/
def nextLower : Nat :=
  if (lower : Int) = call.lowerCandidate len lower o then len / 2
  else (call.lowerCandidate len lower o).toNat

theorem nextLower_spec {len lower : Nat} (o : ArrayReceiver α) (h : lower < len / 2) :
    lower < call.nextLower len lower o ∧
      ∀ j, lower < j → j < call.nextLower len lower o → j < len / 2 →
        o.hasIndexedProperty j = none ∧ o.hasIndexedProperty (len - j - 1) = none := by
  have hforward := call.indexForward_bounds (o := o) h
  have hle := call.indexBackward_le (o := o) (show len / 2 ≤ len - lower - 1 by omega)
  constructor
  · rw [nextLower, lowerCandidate]
    split_ifs <;> omega
  · intro j hlow hj hstop
    have hbackward := call.indexBackward_bounds (o := o) (show len / 2 < len - lower - 1 by omega)
    have hgaps : j < call.indexForward o lower (len / 2) ∧
        call.indexBackward o (len - lower - 1) (len / 2) < (len - j - 1 : Nat) := by
      rw [nextLower, lowerCandidate] at hj
      split_ifs at hj <;> omega
    exact ⟨call.hasIndexedProperty_of_lt_indexForward h hlow hgaps.1,
      call.hasIndexedProperty_of_indexBackward_lt (show len / 2 < len - lower - 1 by omega)
        (by omega) hgaps.2⟩

/-- Where the loop of `builtinArrayReverse` goes on. -/
def reverseJumps (len : Nat) : LoopJumps (ArrayReceiver α) (len / 2) where
  next lower o o' :=
    if (o.hasIndexedProperty lower).isSome ∨ (o.hasIndexedProperty (len - lower - 1)).isSome then
      lower + 1
    else call.nextLower len lower o'
  lt lower o o' h := by
    split
    · exact Nat.lt_succ_self lower
    · exact (call.nextLower_spec o' h).1

def builtinArrayReverse : Receives α :=
  jumpingRounds (call.reverseJumps (call.receiverLength o))
    (call.reverseRound (call.receiverLength o)) 0 o

/-- `reverse` of the specification, which visits every pair. -/
def plainReverse : Receives α :=
  rounds (call.reverseRound (call.receiverLength o)) (call.receiverLength o / 2) 0 o

theorem builtinArrayReverse_eq : call.builtinArrayReverse o = call.plainReverse o := by
  apply jumpingRounds_eq
  intro lower o o' h hround j hlow hj hstop
  generalize call.receiverLength _ = len at h hround hj hstop ⊢
  change j < (if (o.hasIndexedProperty lower).isSome ∨
    (o.hasIndexedProperty (len - lower - 1)).isSome then lower + 1
    else call.nextLower len lower o') at hj
  split at hj
  · omega
  · obtain ⟨hlower, hupper⟩ := (call.nextLower_spec o' h).2 j hlow hj hstop
    rw [reverseRound, hlower, hupper]

end UnshiftCall

end Escargot.Builtins
