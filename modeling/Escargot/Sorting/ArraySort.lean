/-
# Array.prototype.sort

An array in fast mode is sorted as raw storage, in which Empty stands for a hole
and is greater than every value. Another array has its present elements
collected, sorted and stored again from the start, and the rest is deleted. The
comparator is a function of the script: it may throw, and it may change the
array, its length and its prototypes.
-/

import Escargot.Builtins.BuiltinArrayUnshift
import Escargot.Runtime.ArrayObject
import Escargot.Sequences.NextIndexForward
import Escargot.Sorting.MergeSort

namespace Escargot.Sorting

open List Option Escargot.Foundation Escargot.Runtime
open Escargot.Builtins (Prototype)

inductive SortValue (β : Type)
  | empty
  | undefined
  | other (value : β)
  deriving DecidableEq

namespace SortValue

variable {β : Type}

def isEmpty : SortValue β → Bool
  | empty => true
  | _ => false

def isUndefined : SortValue β → Bool
  | undefined => true
  | _ => false

/-- The slot of the raw storage that holds a value. -/
def slot : SortValue β → Option (SortValue β)
  | empty => none
  | v => some v

def ofSlot : Option (SortValue β) → SortValue β
  | none => empty
  | some v => v

end SortValue

variable {β τ : Type}

instance [DecidableEq β] : PropertyValue (SortValue β) := ⟨.undefined, fun a b => decide (a = b)⟩

/-- What a script can change: the array, its prototypes, the numbers that the names of its other
properties convert to, and the rest. What a proxy among the prototypes answers is its property. -/
structure World (β τ : Type) where
  array : ArrayObject (SortValue β)
  prototypes : List (Prototype (SortValue β))
  names : List Int
  script : τ

namespace World

variable (w : World β τ)

/-- `Object::hasProperty` of an index, with the property it finds. -/
def hasProperty (i : Nat) : Option (Property (SortValue β)) :=
  (w.array.getOwnProperty i).or
    (w.prototypes.findSome? fun prototype => prototype.getOwnProperty (.index i))

/-- `Object::nextIndexForward` of the array. -/
def nextIndex (k length : Nat) : Nat :=
  (nextIndexForward
    (⟨true, w.names ++ ((List.range w.array.arrayLength).filter fun i =>
        (w.array.getOwnProperty i).isSome).map Int.ofNat⟩ ::
      w.prototypes.map fun prototype => ⟨prototype.isOrdinary, prototype.indices⟩)
    k length).toNat

theorem lt_nextIndex {k length : Nat} (h : k < length) : k < w.nextIndex k length := by
  have hspec := nextIndexForward_spec
    (⟨true, w.names ++ ((List.range w.array.arrayLength).filter fun i =>
        (w.array.getOwnProperty i).isSome).map Int.ofNat⟩ ::
      w.prototypes.map fun prototype => ⟨prototype.isOrdinary, prototype.indices⟩)
    (show (k : Int) + 1 ≤ length by omega)
  rw [nextIndex]
  omega

end World

/-- Where the prototypes send an element that the array does not have: nowhere, to a property, or
to an object that is not ordinary. -/
inductive InheritedTarget (β : Type)
  | absent
  | property (property : Property (SortValue β))
  | exotic

def inheritedTarget (i : Nat) : List (Prototype (SortValue β)) → InheritedTarget β
  | [] => .absent
  | prototype :: rest =>
    if !prototype.isOrdinary then .exotic
    else
      match prototype.getOwnProperty (.index i) with
      | some property => .property property
      | none => inheritedTarget i rest

/-- The build, what memory holds that is not initialized, and the functions of the script: the
comparison, which says whether its result is below zero, the accessors, and a store to an object
that is not ordinary. All give `none` if they throw. -/
structure Environment (β τ : Type) where
  build : BufferBuild
  garbage : Nat → Option (SortValue β)
  tempSpace : Buffer (SortValue β)
  compare : β → β → World β τ → Option (Bool × World β τ)
  callGetter : SortValue β → World β τ → Option (SortValue β × World β τ)
  callSetter : SortValue β → SortValue β → World β τ → Option (World β τ)
  setExotic : Nat → SortValue β → World β τ → Option (World β τ)

namespace Environment

variable (env : Environment β τ)

/-- The comparator of `builtinArraySort`. -/
def comp : Comparator (World β τ) (SortValue β) := fun a b w =>
  if a.isEmpty ∧ b.isUndefined then some (false, w)
  else if a.isUndefined ∧ b.isEmpty then some (true, w)
  else if a.isEmpty ∨ a.isUndefined then some (false, w)
  else if b.isEmpty ∨ b.isUndefined then some (true, w)
  else
    match a, b with
    | .other x, .other y => env.compare x y w
    | _, _ => some (false, w)

def writeRaw (values : Buffer (SortValue β)) (n : Nat) (storage : FastModeStorage (SortValue β)) :
    FastModeStorage (SortValue β) :=
  (List.range n).foldl (fun storage i => storage.write i (values i).slot) storage

/-- `ObjectHasPropertyResult::value`. -/
def valueOf (w : World β τ) : Property (SortValue β) → Option (SortValue β × World β τ)
  | .data value _ _ _ => some (value, w)
  | .accessor none _ _ _ => some (.undefined, w)
  | .accessor (some getter) _ _ _ => env.callGetter getter w

/-- The loop of `Object::sort` that collects the elements. -/
def collect (length k : Nat) (selected : List (SortValue β)) (w : World β τ) :
    Option (List (SortValue β) × World β τ) :=
  if k < length then
    match w.hasProperty k with
    | some property =>
      match env.valueOf w property with
      | none => none
      | some (v, w) => collect length (k + 1) (selected ++ [v]) w
    | none => collect length (w.nextIndex k length) selected w
  else some (selected, w)
termination_by length - k
decreasing_by
  · omega
  · have hlt := w.lt_nextIndex (by assumption : k < length)
    omega

/-- The loop of `Object::sort` that deletes what is left. -/
def deleteRest (length i : Nat) (w : World β τ) : World β τ :=
  if i < length then
    if (w.array.getOwnProperty i).isSome then
      deleteRest length (i + 1) { w with array := (w.array.deleteOwnProperty i).1 }
    else deleteRest length (w.nextIndex i length) w
  else w
termination_by length - i
decreasing_by
  · omega
  · have hlt := w.lt_nextIndex (by assumption : i < length)
    omega

section Store

variable [DecidableEq β]

def setArrayLength (length : Nat) (w : World β τ) : Option (World β τ) :=
  (w.array.setArrayLength env.build env.garbage length false true true).map fun resized =>
    { w with array := resized.1 }

variable (i : Nat) (v : SortValue β)

/-- `ArrayObject::setIndexedProperty` where the array itself decides. -/
def setOwn (w : World β τ) : Option (World β τ) :=
  match w.array.setIndexedProperty env.build env.garbage i true v with
  | some (a, .boolean true) => some { w with array := a }
  | some (a, .setterCalled setter) => env.callSetter setter v { w with array := a }
  | _ => none

def setIndexedPropertyThrowsException (w : World β τ) : Option (World β τ) :=
  match w.array, w.array.getOwnProperty i, inheritedTarget i w.prototypes with
  | .nonFast _ _ _, none, .exotic => env.setExotic i v w
  | .nonFast _ _ _, none, .property (.accessor _ setter _ _) =>
    match setter with
    | none => none
    | some f => if f.isUndefined then none else env.callSetter f v w
  | .nonFast _ _ _, none, .property (.data _ false _ _) => none
  | _, _, _ => env.setOwn i v w

/-- The loop that stores the values from the start. -/
def setAll (values : Buffer (SortValue β)) (n : Nat) (w : World β τ) : Option (World β τ) :=
  (List.range n).foldlM (fun w i => env.setIndexedPropertyThrowsException i (values i) w) w

variable (length : Nat) (storage : FastModeStorage (SortValue β)) (w : World β τ)

/-- What `ArrayObject::sort` does in fast mode before it writes back. -/
def sortRaw : Option (Buffer (SortValue β) × World β τ) :=
  match mergeSort env.comp (fun i => .ofSlot (storage.fastModeData i)) length env.tempSpace w with
  | none => none
  | some (tempBuffer, w) =>
    if w.array.arrayLength ≠ length then
      (env.setArrayLength length w).map fun w => (tempBuffer, w)
    else some (tempBuffer, w)

/-- The write back of `ArrayObject::sort`. A write past the end of the buffer leaves no defined
state behind. -/
def writeBack (tempBuffer : Buffer (SortValue β)) (w : World β τ) : Option (World β τ) :=
  match w.array with
  | .fast object writable storage =>
    if length ≤ storage.allocated then
      some { w with array := .fast object writable (writeRaw tempBuffer length storage) }
    else none
  | .nonFast _ _ _ => env.setAll tempBuffer length w

/-- `Object::sort`. -/
def objectSort : Option (World β τ) :=
  match env.collect length 0 [] w with
  | none => none
  | some (selected, w) =>
    match mergeSort env.comp (fun i => selected.getD i .undefined) selected.length
        env.tempSpace w with
    | none => none
    | some (selected', w) =>
      match env.setAll selected' selected.length w with
      | none => none
      | some w => some (deleteRest length selected.length w)

/-- `ArrayObject::sort`. -/
def arraySort : Option (World β τ) :=
  if length = 0 then some w
  else
    match w.array with
    | .fast _ _ storage =>
      match env.sortRaw length storage w with
      | none => none
      | some (tempBuffer, w) => env.writeBack length tempBuffer w
    | .nonFast _ _ _ => env.objectSort length w

def builtinArraySort : Option (World β τ) := env.arraySort w.array.arrayLength w

end Store

end Environment

namespace SortValue

variable {β : Type}

def rank : SortValue β → Nat
  | other _ => 0
  | undefined => 1
  | empty => 2

/-- An order of the values of a script, with undefined and Empty at its end. -/
def Ordered (r : β → β → Prop) : SortValue β → SortValue β → Prop
  | other x, other y => r x y
  | a, b => a.rank ≤ b.rank

variable {r : β → β → Prop} {a b : SortValue β}

theorem exists_of_rank (h : ¬ (a.rank ≠ 0 ∨ b.rank ≠ 0)) : ∃ x y, a = other x ∧ b = other y := by
  cases a with
  | other x =>
    cases b with
    | other y => exact ⟨x, y, rfl, rfl⟩
    | undefined => exact absurd (.inr (Nat.succ_ne_zero 0)) h
    | empty => exact absurd (.inr (Nat.succ_ne_zero 1)) h
  | undefined => exact absurd (.inl (Nat.succ_ne_zero 0)) h
  | empty => exact absurd (.inl (Nat.succ_ne_zero 1)) h

theorem ordered_iff_rank_le (h : a.rank ≠ 0 ∨ b.rank ≠ 0) : Ordered r a b ↔ a.rank ≤ b.rank := by
  cases a with
  | other x =>
    cases b with
    | other y => exact absurd h (by simp only [rank]; decide)
    | undefined => exact Iff.rfl
    | empty => exact Iff.rfl
  | undefined => cases b <;> exact Iff.rfl
  | empty => cases b <;> exact Iff.rfl

theorem Ordered.rank_le (h : Ordered r a b) : a.rank ≤ b.rank := by
  by_cases hrank : a.rank ≠ 0 ∨ b.rank ≠ 0
  · exact (ordered_iff_rank_le hrank).mp h
  · omega

theorem ordered_refl (refl : ∀ x, r x x) (a : SortValue β) : Ordered r a a := by
  cases a with
  | other x => exact refl x
  | undefined => exact Nat.le_refl 1
  | empty => exact Nat.le_refl 2

theorem ordered_trans (trans : ∀ x y z, r x y → r y z → r x z) (a b c : SortValue β)
    (hab : Ordered r a b) (hbc : Ordered r b c) : Ordered r a c := by
  by_cases hrank : a.rank ≠ 0 ∨ c.rank ≠ 0
  · exact (ordered_iff_rank_le hrank).mpr (hab.rank_le.trans hbc.rank_le)
  · have hb : ¬ (a.rank ≠ 0 ∨ b.rank ≠ 0) := by
      have hle := hbc.rank_le
      omega
    obtain ⟨x, z, rfl, rfl⟩ := exists_of_rank hrank
    obtain ⟨_, y, _, rfl⟩ := exists_of_rank hb
    exact trans x y z hab hbc

variable {v : SortValue β}

theorem slot_of_not_isEmpty (h : v.isEmpty = false) : v.slot = some v := by
  cases v with
  | empty => cases h
  | undefined => rfl
  | other value => rfl

theorem slot_eq_none_iff : v.slot = none ↔ v.isEmpty = true := by
  cases v with
  | empty => exact iff_of_true rfl rfl
  | undefined => exact iff_of_false (some_ne_none _) Bool.false_ne_true
  | other value => exact iff_of_false (some_ne_none _) Bool.false_ne_true

theorem ofSlot_eq_of_map_eq {data : Option (SortValue β)}
    (h : data.map Property.plain = v.slot.map Property.plain) : ofSlot data = v := by
  have hslot : data = v.slot := by
    refine map_injective ?_ h
    rintro a b hab
    cases hab
    rfl
  rw [hslot]
  cases v <;> rfl

variable (elements : List (SortValue β))

def present : List (SortValue β) :=
  elements.filter fun v => !v.isEmpty

theorem present_cons :
    present (v :: elements) = if v.isEmpty then present elements else v :: present elements := by
  cases v <;> rfl

theorem present_append (elements elements' : List (SortValue β)) :
    present (elements ++ elements') = present elements ++ present elements' :=
  filter_append _ _

theorem present_eq_nil {elements : List (SortValue β)} (h : ∀ v ∈ elements, v.isEmpty = true) :
    present elements = [] := by
  apply List.filter_eq_nil_iff.mpr
  intro v hv
  rw [h v hv]
  decide

theorem eq_present_append {out elements : List (SortValue β)} (hperm : out.Perm elements)
    (h : out.Pairwise fun a b => a.rank ≤ b.rank) :
    out = present out ++ List.replicate (elements.length - (present out).length) .empty := by
  have hsplit := eq_filter_append_of_pairwise (fun v : SortValue β => !v.isEmpty) (by
    intro a b hab hb
    cases a with
    | other x => rfl
    | undefined => rfl
    | empty =>
      cases b with
      | other y => exact absurd hab (by simp only [rank]; decide)
      | undefined => exact absurd hab (by simp only [rank]; decide)
      | empty => exact hb) h
  have hlength := congrArg List.length hsplit
  rw [length_append, hperm.length_eq] at hlength
  have hholes : (out.filter fun v => !!v.isEmpty) =
      List.replicate (elements.length - (present out).length) .empty := by
    apply List.eq_replicate_iff.mpr
    constructor
    · rw [present]
      omega
    · intro v hv
      have hempty := (List.mem_filter.mp hv).2
      cases v with
      | empty => rfl
      | undefined => cases hempty
      | other value => cases hempty
  conv_lhs => rw [hsplit, hholes]
  rfl

end SortValue

open SortValue (rank Ordered present)

/-- The array has the elements, and a hole where one is Empty. -/
structure World.HasElements (w : World β τ) (elements : List (SortValue β)) : Prop where
  arrayLength_eq : w.array.arrayLength = elements.length
  fits : elements.length ≤ invalidIndexPropertyValue
  getOwnProperty_eq : ∀ i (h : i < elements.length),
    w.array.getOwnProperty i = (elements[i]).slot.map .plain

/-- The array is in fast mode: it has its elements in the raw storage alone. -/
def World.InFastMode (w : World β τ) : Prop :=
  ∃ object writable storage, w.array = .fast object writable storage ∧
    storage.arrayLength ≤ storage.allocated ∧
    ∀ i < invalidIndexPropertyValue, object.properties i = none

/-- The array is not in fast mode, but could be: it is extensible, and its prototypes have no
elements. -/
def World.IsGeneric (w : World β τ) (n : Nat) : Prop :=
  (∃ object writable length, w.array = .nonFast object writable length ∧
    object.isExtensible = true) ∧
    ∀ prototype ∈ w.prototypes, prototype.isOrdinary = true ∧
      ∀ i < n, prototype.getOwnProperty (.index i) = none

namespace Environment

variable (env : Environment β τ)

/-- The comparison gives the strict part of a total preorder. -/
structure Follows (r : β → β → Prop) : Prop where
  total : ∀ x y, r x y ∨ r y x
  trans : ∀ x y z, r x y → r y z → r x z
  answer : ∀ x y w result w', env.compare x y w = some (result, w') →
    (result = true ↔ r x y ∧ ¬ r y x)

/-- The comparison leaves the array and its prototypes alone. -/
def DoesNotMutate : Prop :=
  ∀ x y w result w', env.compare x y w = some (result, w') →
    w'.array = w.array ∧ w'.prototypes = w.prototypes

def NeverThrows : Prop := ∀ x y w, (env.compare x y w).isSome

/-- A list of the present elements with undefined last, which is stably sorted by every order
that the comparison follows. -/
structure Sorted (elements sorted : List (SortValue β)) : Prop where
  perm : sorted.Perm (present elements)
  undefinedLast : sorted.Pairwise fun a b => a.rank ≤ b.rank
  ordered : ∀ r, env.Follows r → sorted.Pairwise (Ordered r)
  stable : ∀ (r : β → β → Prop) [DecidableRel (Ordered r)], env.Follows r → ∀ a,
    sorted.filter (fun z => decide (Ordered r a z ∧ Ordered r z a)) =
      (present elements).filter fun z => decide (Ordered r a z ∧ Ordered r z a)

/-- The elements that are left: the sorted ones, followed by holes. -/
def Leaves (elements : List (SortValue β)) (w : World β τ) : Prop :=
  ∃ sorted, env.Sorted elements sorted ∧
    w.HasElements (sorted ++ List.replicate (elements.length - sorted.length) .empty)

variable {env} {r : β → β → Prop}

theorem Sorted.unique (hr : env.Follows r)
    {elements first second : List (SortValue β)} (hfirst : env.Sorted elements first)
    (hsecond : env.Sorted elements second) : first = second := by
  classical
  have refl : ∀ x, r x x := fun x => (hr.total x x).elim id id
  apply eq_of_pairwise_of_filter_equiv (SortValue.ordered_refl refl) (hfirst.ordered r hr)
    (hsecond.ordered r hr)
  intro a
  rw [hfirst.stable r hr a, hsecond.stable r hr a]

variable {a b : SortValue β}

theorem comp_rank (h : a.rank ≠ 0 ∨ b.rank ≠ 0) (w : World β τ) :
    env.comp a b w = some (decide (a.rank < b.rank), w) := by
  cases a <;> cases b <;> first | rfl | exact absurd h (by simp only [rank]; decide)

theorem comp_isSome (h : env.NeverThrows) (a b : SortValue β) (w : World β τ) :
    (env.comp a b w).isSome := by
  by_cases hrank : a.rank ≠ 0 ∨ b.rank ≠ 0
  · rw [comp_rank hrank]
    rfl
  · obtain ⟨x, y, rfl, rfl⟩ := SortValue.exists_of_rank hrank
    exact h x y w

theorem comp_state (h : env.DoesNotMutate) {w w' : World β τ} {result : Bool}
    (hcomp : env.comp a b w = some (result, w')) :
    w'.array = w.array ∧ w'.prototypes = w.prototypes := by
  by_cases hrank : a.rank ≠ 0 ∨ b.rank ≠ 0
  · rw [comp_rank hrank] at hcomp
    cases hcomp
    exact ⟨rfl, rfl⟩
  · obtain ⟨x, y, rfl, rfl⟩ := SortValue.exists_of_rank hrank
    exact h x y w result w' hcomp

theorem answers_rank {result : Bool} (h : Comparator.Answers env.comp a b result) :
    (result = true → a.rank ≤ b.rank) ∧ (result = false → b.rank ≤ a.rank) := by
  obtain ⟨w, w', hcomp⟩ := h
  by_cases hrank : a.rank ≠ 0 ∨ b.rank ≠ 0
  · rw [comp_rank hrank] at hcomp
    cases hcomp
    rw [decide_eq_true_eq, decide_eq_false_iff_not]
    exact ⟨Nat.le_of_lt, Nat.not_lt.mp⟩
  · omega

theorem answers_ordered (hr : env.Follows r) {result : Bool}
    (h : Comparator.Answers env.comp a b result) :
    (result = true → Ordered r a b ∧ ¬ Ordered r b a) ∧ (result = false → Ordered r b a) := by
  obtain ⟨w, w', hcomp⟩ := h
  by_cases hrank : a.rank ≠ 0 ∨ b.rank ≠ 0
  · rw [comp_rank hrank] at hcomp
    cases hcomp
    rw [decide_eq_true_eq, decide_eq_false_iff_not, SortValue.ordered_iff_rank_le hrank,
      SortValue.ordered_iff_rank_le hrank.symm]
    exact ⟨fun hlt => ⟨hlt.le, Nat.not_le.mpr hlt⟩, Nat.not_lt.mp⟩
  · obtain ⟨x, y, rfl, rfl⟩ := SortValue.exists_of_rank hrank
    have hanswer := hr.answer x y w result w' hcomp
    constructor
    · exact hanswer.mp
    · intro hfalse
      by_contra hyx
      rw [hfalse] at hanswer
      exact Bool.false_ne_true (hanswer.mpr ⟨(hr.total x y).resolve_right hyx, hyx⟩)

theorem mergeSort_comp {values values' scratch : Buffer (SortValue β)} {n : Nat} {w w' : World β τ}
    (h : mergeSort env.comp values n scratch w = some (values', w')) :
    (segment values' 0 n).Perm (segment values 0 n) ∧
      env.Sorted (segment values 0 n) (present (segment values' 0 n)) ∧
      (segment values' 0 n).Pairwise fun a b => a.rank ≤ b.rank := by
  have hmerges := mergeSort_merges h
  have hrank : (segment values' 0 n).Pairwise fun a b => a.rank ≤ b.rank :=
    hmerges.pairwise (fun a b c hab hbc => Nat.le_trans hab hbc)
      (fun a b h => (answers_rank h).1 rfl) (fun a b h => (answers_rank h).2 rfl) (runs_one _)
  refine ⟨hmerges.perm, ⟨hmerges.perm.filter _, hrank.sublist filter_sublist, ?_, ?_⟩, hrank⟩
  · intro r hr
    have hordered : (segment values' 0 n).Pairwise (Ordered r) :=
      hmerges.pairwise (SortValue.ordered_trans hr.trans)
        (fun a b h => ((answers_ordered hr h).1 rfl).1) (fun a b h => (answers_ordered hr h).2 rfl)
        (runs_one _)
    exact hordered.sublist filter_sublist
  · intro r _ hr a
    rw [present, present, filter_comm, hmerges.filter_equiv (SortValue.ordered_trans hr.trans)
        (fun a b h => ((answers_ordered hr h).1 rfl).1) (fun a b h => (answers_ordered hr h).2 rfl)
        (fun a b h => ((answers_ordered hr h).1 rfl).2) (runs_one _) a, filter_comm]

end Environment

section Fast

variable {object : OrdinaryObject Nat (SortValue β)} {writable : Bool}
  {storage : FastModeStorage (SortValue β)} {elements : List (SortValue β)} {w w' : World β τ}

theorem getOwnProperty_fast
    (hobject : ∀ i < invalidIndexPropertyValue, object.properties i = none) {i : Nat}
    (hi : i < invalidIndexPropertyValue) :
    (ArrayObject.fast object writable storage).getOwnProperty i =
      if i < storage.arrayLength then (storage.fastModeData i).map .plain else none := by
  rw [ArrayObject.getOwnProperty, ArrayObject.getVirtualValue]
  by_cases hlt : i < storage.arrayLength
  · rw [if_pos ⟨hi, hlt⟩, if_pos hlt]
    cases storage.fastModeData i with
    | none => exact hobject i hi
    | some v => rfl
  · rw [if_neg fun h => hlt h.2, if_neg hlt]
    exact hobject i hi

theorem getElem_segment {values : Buffer (SortValue β)} {n i : Nat}
    (h : i < (segment values 0 n).length) : (segment values 0 n)[i] = values i := by
  simp only [segment, getElem_map, getElem_range', Nat.zero_add, Nat.one_mul]

theorem segment_ofSlot (h : w.HasElements elements)
    (hobject : ∀ i < invalidIndexPropertyValue, object.properties i = none)
    (hw : w.array = .fast object writable storage) :
    segment (fun i => .ofSlot (storage.fastModeData i)) 0 elements.length = elements := by
  have hlength := h.arrayLength_eq
  rw [hw] at hlength
  apply ext_getElem
  · rw [length_segment, Nat.sub_zero]
  · intro i hi hi'
    rw [getElem_segment]
    apply SortValue.ofSlot_eq_of_map_eq
    have hslot := h.getOwnProperty_eq i hi'
    rw [hw, getOwnProperty_fast hobject (Nat.lt_of_lt_of_le hi' h.fits), if_pos] at hslot
    · exact hslot
    · exact Nat.lt_of_lt_of_eq hi' hlength.symm

theorem Environment.writeRaw_spec (values : Buffer (SortValue β)) (n : Nat) :
    (Environment.writeRaw values n storage).arrayLength = storage.arrayLength ∧
      ∀ i, (Environment.writeRaw values n storage).fastModeData i =
        if i < n then (values i).slot else storage.fastModeData i := by
  induction n with
  | zero => exact ⟨rfl, fun i => rfl⟩
  | succ n ih =>
    rw [Environment.writeRaw, range_succ, foldl_append, ← Environment.writeRaw,
      foldl_cons, foldl_nil]
    refine ⟨ih.1, fun i => ?_⟩
    show Function.update (Environment.writeRaw values n storage).fastModeData n
      (values n).slot i = _
    by_cases hi : i = n
    · rw [hi, Function.update_self, if_pos (Nat.lt_succ_self n)]
    · rw [Function.update_of_ne hi, ih.2 i]
      by_cases hlt : i < n
      · rw [if_pos hlt, if_pos (Nat.lt_succ_of_lt hlt)]
      · rw [if_neg hlt, if_neg]
        omega

variable {env : Environment β τ}

theorem Environment.sorted_nil : env.Sorted [] [] where
  perm := .refl _
  undefinedLast := .nil
  ordered := fun _ _ => .nil
  stable := fun _ _ _ _ => rfl

variable [DecidableEq β]

theorem Environment.arraySort_fast (hmut : env.DoesNotMutate)
    (hfast : w.InFastMode) (h : w.HasElements elements) :
    (∀ w', env.builtinArraySort w = some w' → env.Leaves elements w') ∧
      (env.NeverThrows → (env.builtinArraySort w).isSome) := by
  obtain ⟨object, writable, storage, hw, hallocated, hobject⟩ := hfast
  have hlength : storage.arrayLength = elements.length := by
    have hlength := h.arrayLength_eq
    rwa [hw] at hlength
  rw [Environment.builtinArraySort, h.arrayLength_eq, Environment.arraySort]
  by_cases hzero : elements.length = 0
  · rw [if_pos hzero]
    have hnil := eq_nil_of_length_eq_zero hzero
    subst hnil
    refine ⟨fun w' hw' => ?_, fun _ => rfl⟩
    cases hw'
    exact ⟨[], Environment.sorted_nil, h⟩
  rw [if_neg hzero, hw]
  dsimp only
  rw [Environment.sortRaw]
  -- The array is still what it was when it is written to.
  have hstate : ∀ {tempBuffer w₁}, mergeSort env.comp (fun i => .ofSlot (storage.fastModeData i))
      elements.length env.tempSpace w = some (tempBuffer, w₁) → w₁.array = w.array :=
    fun hsort => mergeSort_state (p := fun t => t.array = w.array)
      (fun hcomp harray => (comp_state hmut hcomp).1.trans harray) hsort rfl
  have hback : ∀ {tempBuffer w₁}, w₁.array = w.array → env.writeBack elements.length tempBuffer w₁ =
        some { w₁ with
          array := .fast object writable
            (Environment.writeRaw tempBuffer elements.length storage) } := by
    intro tempBuffer w₁ harray
    rw [Environment.writeBack, harray, hw]
    exact if_pos (hlength.symm.le.trans hallocated)
  constructor
  · intro w' hw'
    cases hsort : mergeSort env.comp (fun i => .ofSlot (storage.fastModeData i))
        elements.length env.tempSpace w with
    | none =>
      rw [hsort] at hw'
      cases hw'
    | some sorted =>
      obtain ⟨tempBuffer, w₁⟩ := sorted
      have harray := hstate hsort
      rw [hsort] at hw'
      dsimp only at hw'
      rw [if_neg (by rw [harray, h.arrayLength_eq]; exact not_not.mpr rfl)] at hw'
      dsimp only at hw'
      rw [hback harray] at hw'
      cases hw'
      obtain ⟨hperm, hsorted, hrank⟩ := mergeSort_comp hsort
      rw [segment_ofSlot h hobject hw] at hperm hsorted
      refine ⟨_, hsorted, ?_⟩
      rw [← SortValue.eq_present_append hperm hrank]
      have hspec := @Environment.writeRaw_spec β storage tempBuffer elements.length
      refine ⟨?_, ?_, ?_⟩
      · rw [length_segment, Nat.sub_zero]
        exact hspec.1.trans hlength
      · rw [length_segment, Nat.sub_zero]
        exact h.fits
      · intro i hi
        have hlt : i < elements.length := by rwa [length_segment, Nat.sub_zero] at hi
        rw [getElem_segment]
        rw [getOwnProperty_fast hobject (Nat.lt_of_lt_of_le hlt h.fits), hspec.1, hspec.2 i,
          if_pos hlt, if_pos (Nat.lt_of_lt_of_eq hlt hlength.symm)]
  · intro hthrows
    have hsome : (mergeSort env.comp (fun i => .ofSlot (storage.fastModeData i))
        elements.length env.tempSpace w).isSome :=
      mergeSort_isSome (comp_isSome hthrows)
    obtain ⟨⟨tempBuffer, w₁⟩, hsort⟩ := Option.isSome_iff_exists.mp hsome
    have harray := hstate hsort
    rw [hsort]
    dsimp only
    rw [if_neg (by rw [harray, h.arrayLength_eq]; exact not_not.mpr rfl)]
    dsimp only
    rw [hback harray]
    rfl

end Fast

end Escargot.Sorting
