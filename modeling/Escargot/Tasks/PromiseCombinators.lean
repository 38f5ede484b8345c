/-
# Promise.all, Promise.allSettled and Promise.any

The three combinators go over an iterable and make functions for every element, which
share a list of values and a number of remaining elements. User code runs at the
iterator, at the `resolve` of the constructor and at the `then` of a promise, and can
call the functions that there are at each of these places and later on. An element
function does all its work before it calls a function of the capability, so that
nested calls come one after the other.

An iteration that is ended by an exception does not finish: the combinator rejects its
capability with the exception, and the number stays one too high.
-/

import Escargot.Runtime.NanBoxing
import Escargot.Runtime.PromiseObject

namespace Escargot.Runtime.PromiseCombinators

open List Option Foundation

inductive Combinator
  | all
  | allSettled
  | any
  deriving DecidableEq

inductive ElementFunction
  | resolveElement
  | rejectElement
  deriving DecidableEq

def Combinator.creates : Combinator → ElementFunction → Bool
  | .all, .resolveElement => true
  | .all, .rejectElement => false
  | .allSettled, _ => true
  | .any, .resolveElement => false
  | .any, .rejectElement => true

/-- An entry of the list of values: for `allSettled` an object with a status. -/
inductive Entry (V : Type)
  | undefined
  | value (x : V)
  | fulfilled (x : V)
  | rejected (x : V)
  deriving DecidableEq

def Combinator.entry {V : Type} : Combinator → ElementFunction → V → Entry V
  | .allSettled, .resolveElement, x => .fulfilled x
  | .allSettled, .rejectElement, x => .rejected x
  | _, _, x => .value x

/-- The slots of the functions of an element that are their own: the record that they share, and
the index. -/
structure Element where
  alreadyCalled : Bool
  index : ValueWord
  deriving DecidableEq

/-- The `Value` of an index: beyond the range of `int32_t` it is a double. -/
def indexValue (index : Nat) : ValueWord :=
  if index < 2 ^ 31 then ValueWord.ofInt (Int32.ofNat index)
  else ValueWord.encodeAsDouble (UInt64.ofNat (Double.magnitudeOfNat index))

/-- `Value::asUInt32`: the low bits of the word. -/
def asUInt32 (w : ValueWord) : Nat := w.asInt32.toUInt32.toNat

/-- Where the loop is: at the iterator, at the `resolve` of the constructor, at `then`, or behind
its end, or behind an exception. -/
inductive Phase
  | stepping
  | resolving
  | invoking
  | finished
  | aborted
  deriving DecidableEq

structure State (V : Type) where
  phase : Phase
  index : Nat
  values : List (Entry V)
  remainingElementsCount : Nat
  elements : List Element
  deriving DecidableEq

def State.initial (V : Type) : State V := ⟨.stepping, 0, [], 1, []⟩

inductive Operation (V : Type)
  | nextValue
  | promiseResolved
  | thenReturned
  | iteratorDone
  | throwCompletion
  | callElement (element : Nat) (function : ElementFunction) (x : V)

section Step

variable {V : Type} (combinator : Combinator) (state : State V)

/-- `*remainingElementsCount - 1`, of a `size_t`; at zero the values go to a function of the
capability: to the resolving one, or for `any`, in an error, to the rejecting one. -/
def State.release : State V × Option (List (Entry V)) :=
  let remainingElementsCount := (state.remainingElementsCount + (2 ^ 64 - 1)) % 2 ^ 64
  ({ state with remainingElementsCount },
    if remainingElementsCount = 0 then some state.values else none)

/-- `promiseAllResolveElementFunction`, `promiseAllSettledResolveElementFunction`,
`promiseAllSettledRejectElementFunction` and `promiseAnyRejectElementFunction`. -/
def State.callElement (i : Nat) (function : ElementFunction) (x : V) :
    Option (State V × Option (List (Entry V))) :=
  match state.elements[i]? with
  | none => none
  | some element =>
    if combinator.creates function = false then none
    else if element.alreadyCalled then some (state, none)
    else
      some (State.release
        { state with
          elements := state.elements.set i { element with alreadyCalled := true }
          values := state.values.set (asUInt32 element.index) (combinator.entry function x) })

def State.step : Operation V → Option (State V × Option (List (Entry V)))
  | .nextValue =>
    if state.phase = .stepping then
      some ({ state with phase := .resolving, values := state.values ++ [.undefined] }, none)
    else none
  | .promiseResolved =>
    if state.phase = .resolving then
      some ({ state with
        phase := .invoking
        elements := state.elements ++ [⟨false, indexValue state.index⟩]
        remainingElementsCount := (state.remainingElementsCount + 1) % 2 ^ 64 }, none)
    else none
  | .thenReturned =>
    if state.phase = .invoking then
      some ({ state with phase := .stepping, index := state.index + 1 }, none)
    else none
  | .iteratorDone =>
    if state.phase = .stepping then some (State.release { state with phase := .finished })
    else none
  | .throwCompletion =>
    if state.phase = .finished ∨ state.phase = .aborted then none
    else some ({ state with phase := .aborted }, none)
  | .callElement i function x => state.callElement combinator i function x

end Step

section History

variable {V : Type}
  (combinator : Combinator) (first : Nat → Option (ElementFunction × V)) (i : Nat)

def Operation.callOf : Operation V → Option (ElementFunction × V)
  | .callElement j function x => if j = i then some (function, x) else none
  | _ => none

def firstCall (ops : List (Operation V)) (i : Nat) : Option (ElementFunction × V) :=
  ops.findSome? (Operation.callOf i)

/-- What the list has at the index of an element, from the first calls. -/
def entryOf : Entry V :=
  match first i with
  | none => .undefined
  | some call => combinator.entry call.1 call.2

variable (state : State V)

/-- The elements that were not called yet. -/
def State.uncalled : Nat := state.elements.countP fun element => !element.alreadyCalled

/-- The number is that of the elements that were not called and one more unless the iteration has
finished. There was one last call if it has finished and all elements were called, with the
values of their first calls in their places, and none before. -/
structure Settled (combinator : Combinator) (first : Nat → Option (ElementFunction × V))
    (calls : List (Option (List (Entry V)))) (state : State V) : Prop where
  called : ∀ i element, state.elements[i]? = some element → element.alreadyCalled = (first i).isSome
  remaining : state.remainingElementsCount =
    state.uncalled + if state.phase = .finished then 0 else 1
  values : ∀ i < state.elements.length, state.values[i]? = some (entryOf combinator first i)
  last : calls.filterMap id = if state.phase = .finished ∧ state.uncalled = 0 then
      [(List.range state.elements.length).map (entryOf combinator first)]
    else []

/-- What else holds of the loop: the indices are those of the elements, and in between there is an
entry for an element that is not made yet. -/
structure Counted (combinator : Combinator) (first : Nat → Option (ElementFunction × V))
    (calls : List (Option (List (Entry V)))) (state : State V) : Prop
    extends Settled combinator first calls state where
  few : state.elements.length ≤ 2 ^ 31
  known : ∀ i, state.elements.length ≤ i → first i = none
  index : ∀ i element, state.elements[i]? = some element → element.index = indexValue i
  length : state.phase ≠ .resolving → state.phase ≠ .aborted →
    state.values.length = state.elements.length
  pending : state.phase = .resolving → state.values.length = state.elements.length + 1 ∧
    state.values[state.elements.length]? = some .undefined
  next : state.phase = .stepping ∨ state.phase = .resolving → state.index = state.elements.length
  made : state.phase = .invoking → state.index + 1 = state.elements.length

/-- The next element is one of the first `2 ^ 31`. -/
def FewElements : Operation V → Prop
  | .promiseResolved => state.elements.length < 2 ^ 31
  | _ => True

theorem counted_initial : Counted combinator (firstCall []) [] (State.initial V) where
  called _ _ h := by cases h
  remaining := rfl
  values _ h := absurd h (Nat.not_lt_zero _)
  last := rfl
  few := Nat.zero_le _
  known _ _ := rfl
  index _ _ h := by cases h
  length _ _ := rfl
  pending h := by cases h
  next _ := rfl
  made h := by cases h

theorem firstCall_concat (ops : List (Operation V)) (op : Operation V) (i : Nat) :
    firstCall (ops ++ [op]) i = (firstCall ops i).or (op.callOf i) := by
  simp [firstCall, findSome?_append]

variable {ops : List (Operation V)}

theorem firstCall_concat_of_none {op : Operation V} (hop : ∀ i, op.callOf i = none) :
    firstCall (ops ++ [op]) = firstCall ops := by
  funext i
  rw [firstCall_concat, hop, or_none]

theorem firstCall_concat_of_called {i : Nat} {function : ElementFunction} {x : V}
    (hcalled : (firstCall ops i).isSome = true) :
    firstCall (ops ++ [.callElement i function x]) = firstCall ops := by
  funext j
  rw [firstCall_concat, Operation.callOf]
  split_ifs with hij
  · subst hij
    obtain ⟨call, hcall⟩ := Option.isSome_iff_exists.mp hcalled
    rw [hcall, some_or]
  · rw [or_none]

theorem firstCall_concat_of_uncalled {i : Nat} (function : ElementFunction) (x : V)
    (huncalled : firstCall ops i = none) (j : Nat) :
    firstCall (ops ++ [.callElement i function x]) j =
      if j = i then some (function, x) else firstCall ops j := by
  rw [firstCall_concat, Operation.callOf]
  by_cases hij : i = j
  · subst hij
    simp [huncalled]
  · rw [if_neg hij, if_neg fun h => hij h.symm, or_none]

theorem asUInt32_indexValue {i : Nat} (hi : i < 2 ^ 31) : asUInt32 (indexValue i) = i := by
  rw [asUInt32, indexValue, if_pos hi, ValueWord.asInt32_ofInt]
  rw [Int32.toUInt32_ofNat', UInt32.toNat_ofNat_of_lt']
  exact lt_of_lt_of_le hi (by decide)

theorem release_of_pos (hpos : 0 < state.remainingElementsCount)
    (hlt : state.remainingElementsCount < 2 ^ 64) :
    state.release = ({ state with remainingElementsCount := state.remainingElementsCount - 1 },
      if state.remainingElementsCount - 1 = 0 then some state.values else none) := by
  have hcount : (state.remainingElementsCount + (2 ^ 64 - 1)) % 2 ^ 64 =
      state.remainingElementsCount - 1 := by omega
  rw [State.release, hcount]

theorem uncalled_le : state.uncalled ≤ state.elements.length := countP_le_length

theorem values_eq {combinator : Combinator} {first : Nat → Option (ElementFunction × V)}
    {state : State V} (hlength : state.values.length = state.elements.length)
    (hvalues : ∀ i < state.elements.length, state.values[i]? = some (entryOf combinator first i)) :
    state.values = (List.range state.elements.length).map (entryOf combinator first) := by
  apply ext_getElem?
  intro i
  by_cases hi : i < state.elements.length
  · rw [hvalues i hi, getElem?_map, getElem?_range hi, map_some]
  · rw [getElem?_eq_none (by omega), getElem?_eq_none]
    rw [length_map, length_range]
    omega

section Operations

variable {combinator : Combinator} {ops : List (Operation V)}
  {calls : List (Option (List (Entry V)))} {state next : State V}
  {out : Option (List (Entry V))}

theorem Settled.keep {first : Nat → Option (ElementFunction × V)}
    (h : Settled combinator first calls state) (hphase : state.phase ≠ .finished)
    (hphase' : next.phase ≠ .finished) (helements : next.elements = state.elements)
    (hcount : next.remainingElementsCount = state.remainingElementsCount)
    (hvalues : ∀ i < state.elements.length, next.values[i]? = state.values[i]?) :
    Settled combinator first (calls ++ [none]) next where
  called i element hi := h.called i element (helements ▸ hi)
  remaining := by
    rw [hcount, h.remaining, State.uncalled, State.uncalled, helements, if_neg hphase,
      if_neg hphase']
  values i hi := by
    rw [helements] at hi
    rw [hvalues i hi, h.values i hi]
  last := by
    have hlast := h.last
    rw [if_neg fun hboth => hphase hboth.1] at hlast
    rw [if_neg fun hboth => hphase' hboth.1]
    simpa using hlast

section

variable (h : Counted combinator (firstCall ops) calls state)
include h

/-- There is one more entry while the `resolve` of the constructor runs. -/
theorem Counted.nextValue (hphase : state.phase = .stepping) :
    Counted combinator (firstCall ops) (calls ++ [none])
      { state with phase := .resolving, values := state.values ++ [.undefined] } := by
  have hlength : state.values.length = state.elements.length :=
    h.length (by simp [hphase]) (by simp [hphase])
  exact {
    toSettled := h.toSettled.keep (by simp [hphase]) (by simp) rfl rfl
      (fun i hi => getElem?_append_left (by omega))
    few := h.few
    known := h.known
    index := h.index
    length := fun hne _ => absurd rfl hne
    pending := fun _ => by simp [hlength]
    next := fun _ => h.next (Or.inl hphase)
    made := fun hinvoking => by cases hinvoking }

theorem Counted.promiseResolved (hphase : state.phase = .resolving)
    (hfew : state.elements.length < 2 ^ 31) :
    Counted combinator (firstCall ops) (calls ++ [none])
      { state with
        phase := .invoking
        elements := state.elements ++ [⟨false, indexValue state.index⟩]
        remainingElementsCount := (state.remainingElementsCount + 1) % 2 ^ 64 } := by
  obtain ⟨hlength, hundefined⟩ := h.pending hphase
  have hindex := h.next (Or.inr hphase)
  have hnone := h.known state.elements.length (le_refl _)
  have hremaining := h.remaining
  have hlast := h.last
  have hle := uncalled_le state
  rw [hphase, if_neg (by simp)] at hremaining
  rw [hphase, if_neg (by simp)] at hlast
  have hnew : ∀ i element, (state.elements ++ [⟨false, indexValue state.index⟩])[i]? =
      some element → state.elements[i]? = some element ∨
        i = state.elements.length ∧ element = ⟨false, indexValue state.index⟩ := by
    intro i element hi
    rw [getElem?_append] at hi
    split_ifs at hi with hlt
    · exact Or.inl hi
    · have hzero := List.getElem?_eq_some_iff.mp hi
      obtain ⟨hsingle, helement⟩ := hzero
      simp only [length_singleton] at hsingle
      rw [getElem_singleton] at helement
      exact Or.inr ⟨by omega, helement.symm⟩
  refine ⟨⟨?_, ?_, ?_, ?_⟩, ?_, ?_, ?_, ?_, ?_, ?_, ?_⟩
  · intro i element hi
    rcases hnew i element hi with hold | ⟨rfl, rfl⟩
    · exact h.called i element hold
    · rw [hnone]
      rfl
  · have huncalled : State.uncalled { state with
        phase := .invoking
        elements := state.elements ++ [⟨false, indexValue state.index⟩]
        remainingElementsCount := (state.remainingElementsCount + 1) % 2 ^ 64 } =
        state.uncalled + 1 := by
      simp [State.uncalled, countP_append]
    rw [huncalled]
    simp only [hremaining, if_neg (show Phase.invoking ≠ Phase.finished by simp)]
    omega
  · intro i hi
    rw [length_append, length_singleton] at hi
    by_cases hold : i < state.elements.length
    · exact h.values i hold
    · obtain rfl : i = state.elements.length := by omega
      rw [entryOf, hnone]
      exact hundefined
  · rw [if_neg (by simp)]
    simpa using hlast
  · rw [length_append, length_singleton]
    omega
  · intro i hi
    rw [length_append, length_singleton] at hi
    exact h.known i (by omega)
  · intro i element hi
    rcases hnew i element hi with hold | ⟨rfl, rfl⟩
    · exact h.index i element hold
    · rw [hindex]
  · intro _ _
    rw [length_append, length_singleton]
    exact hlength
  · intro hresolving
    cases hresolving
  · rintro (hother | hother)
    · cases hother
    · cases hother
  · intro _
    rw [length_append, length_singleton]
    exact congrArg (· + 1) hindex

theorem Counted.thenReturned (hphase : state.phase = .invoking) :
    Counted combinator (firstCall ops) (calls ++ [none])
      { state with phase := .stepping, index := state.index + 1 } := by
  have hlength : state.values.length = state.elements.length :=
    h.length (by simp [hphase]) (by simp [hphase])
  exact {
    toSettled := h.toSettled.keep (by simp [hphase]) (by simp) rfl rfl (fun i hi => rfl)
    few := h.few
    known := h.known
    index := h.index
    length := fun _ _ => hlength
    pending := fun hresolving => by cases hresolving
    next := fun _ => h.made hphase
    made := fun hinvoking => by cases hinvoking }

theorem Counted.throwCompletion (hphase : state.phase ≠ .finished) :
    Counted combinator (firstCall ops) (calls ++ [none]) { state with phase := .aborted } where
  toSettled := h.toSettled.keep hphase (by simp) rfl rfl (fun i hi => rfl)
  few := h.few
  known := h.known
  index := h.index
  length _ hne := absurd rfl hne
  pending hresolving := by cases hresolving
  next hother := by rcases hother with hother | hother <;> cases hother
  made hinvoking := by cases hinvoking

theorem Counted.iteratorDone (hphase : state.phase = .stepping) : Counted combinator (firstCall ops)
      (calls ++ [(State.release { state with phase := .finished }).2])
      (State.release { state with phase := .finished }).1 := by
  have hlength : state.values.length = state.elements.length :=
    h.length (by simp [hphase]) (by simp [hphase])
  have hremaining := h.remaining
  have hlast := h.last
  have hle := uncalled_le state
  have hfew := h.few
  rw [hphase, if_neg (by simp)] at hremaining
  rw [hphase, if_neg (by simp)] at hlast
  have hcount : state.remainingElementsCount - 1 = state.uncalled := by omega
  rw [release_of_pos _ (by simp only; omega) (by simp only; omega)]
  simp only [hcount]
  refine ⟨⟨h.called, ?_, h.values, ?_⟩, hfew, h.known, h.index, fun _ _ => hlength, ?_, ?_, ?_⟩
  · rw [if_pos rfl]
    rfl
  · show (calls ++ [if state.uncalled = 0 then some state.values else none]).filterMap id =
      if Phase.finished = .finished ∧ state.uncalled = 0 then
        [(List.range state.elements.length).map (entryOf combinator (firstCall ops))] else []
    rw [filterMap_append, hlast, nil_append, values_eq hlength h.values]
    by_cases hzero : state.uncalled = 0
    · simp [hzero]
    · simp [hzero]
  · intro hresolving
    cases hresolving
  · rintro (hother | hother)
    · cases hother
    · cases hother
  · intro hinvoking
    cases hinvoking

/-- The first call of an element takes its one away and puts its value into its place. -/
theorem Counted.callElement {i : Nat} {element : Element}
    (helement : state.elements[i]? = some element) (huncalled : element.alreadyCalled = false)
    (function : ElementFunction) (x : V) {called : State V}
    (hcalled : called = { state with
      elements := state.elements.set i { element with alreadyCalled := true }
      values := state.values.set (asUInt32 element.index) (combinator.entry function x) }) :
    Counted combinator (firstCall (ops ++ [.callElement i function x]))
      (calls ++ [called.release.2]) called.release.1 := by
  have hi : i < state.elements.length := (List.getElem?_eq_some_iff.mp helement).1
  have hfirst : firstCall ops i = none := by
    rw [← not_isSome_iff_eq_none, ← h.called i element helement, huncalled]
    exact Bool.false_ne_true
  have hconcat := firstCall_concat_of_uncalled function x hfirst
  have hfew := h.few
  have hindex : asUInt32 element.index = i := by
    rw [h.index i element helement]
    exact asUInt32_indexValue (by omega)
  rw [hindex] at hcalled
  have hcount : called.uncalled + 1 = state.uncalled := by
    have hset := Promises.countP_set_add (P := fun element : Element => !element.alreadyCalled)
      helement { element with alreadyCalled := true }
    simp only [huncalled, Bool.not_false, Bool.not_true, Bool.false_eq_true, if_true, if_false,
      Nat.add_zero] at hset
    rw [hcalled]
    exact hset
  have hremaining := h.remaining
  have hlast := h.last
  have hle := uncalled_le state
  rw [if_neg fun hboth => absurd hboth.2 (by omega)] at hlast
  have hvalues : ∀ j < state.elements.length, (state.values.set i (combinator.entry function x))[j]? =
      some (entryOf combinator (firstCall (ops ++ [.callElement i function x])) j) := by
    intro j hj
    have hold := h.values j hj
    rw [entryOf, hconcat, getElem?_set]
    by_cases hij : i = j
    · subst hij
      have hlt := (List.getElem?_eq_some_iff.mp hold).1
      simp [hlt]
    · rw [if_neg hij, if_neg fun hji => hij hji.symm]
      exact hold
  have helements : ∀ j other, (state.elements.set i { element with alreadyCalled := true })[j]? =
      some other → (j = i ∧ other = { element with alreadyCalled := true }) ∨
        (j ≠ i ∧ state.elements[j]? = some other) := by
    intro j other hj
    rw [getElem?_set] at hj
    split_ifs at hj with hij
    · exact Or.inl ⟨hij.symm, (Option.some.inj hj).symm⟩
    · exact Or.inr ⟨fun hji => hij hji.symm, hj⟩
  have hlength : called.elements.length = state.elements.length := by rw [hcalled, length_set]
  have hentries : called.values.length = state.values.length := by rw [hcalled, length_set]
  have hphase : called.phase = state.phase := by rw [hcalled]
  have hnumber : called.remainingElementsCount = state.remainingElementsCount := by rw [hcalled]
  have hnext : called.index = state.index := by rw [hcalled]
  have hplaces : called.values = state.values.set i (combinator.entry function x) := by rw [hcalled]
  have hfunctions : called.elements =
      state.elements.set i { element with alreadyCalled := true } := by rw [hcalled]
  have hone : (if state.phase = .finished then 0 else 1) ≤ 1 := by split <;> decide
  have hpos : called.remainingElementsCount - 1 = called.uncalled +
      if called.phase = .finished then 0 else 1 := by
    rw [hnumber, hremaining, hphase]
    omega
  rw [release_of_pos called (by omega) (by omega)]
  refine ⟨⟨?_, hpos, ?_, ?_⟩, ?_, ?_, ?_, ?_, ?_, ?_, ?_⟩
  · intro j other hj
    rw [hconcat]
    rcases helements j other (hfunctions ▸ hj) with ⟨rfl, rfl⟩ | ⟨hji, hold⟩
    · rw [if_pos rfl]
      rfl
    · rw [if_neg hji]
      exact h.called j other hold
  · intro j hj
    show called.values[j]? = _
    rw [hplaces]
    exact hvalues j (hlength ▸ hj)
  · show (calls ++ [if called.remainingElementsCount - 1 = 0 then some called.values
      else none]).filterMap id = if called.phase = .finished ∧ called.uncalled = 0 then
        [(List.range called.elements.length).map
          (entryOf combinator (firstCall (ops ++ [.callElement i function x])))] else []
    rw [filterMap_append, hlast, nil_append, hpos]
    by_cases hdone : called.phase = .finished ∧ called.uncalled = 0
    · have hclosed := h.length (by rw [← hphase, hdone.1]; simp) (by rw [← hphase, hdone.1]; simp)
      have hall := values_eq (hentries.trans (hclosed.trans hlength.symm)) fun j hj => by
        rw [hplaces]
        exact hvalues j (hlength ▸ hj)
      rw [if_pos hdone, if_pos (by rw [if_pos hdone.1]; exact hdone.2), hall]
      rfl
    · rw [if_neg hdone]
      by_cases hfinished : called.phase = .finished
      · rw [if_neg (by rw [if_pos hfinished]; exact fun hzero => hdone ⟨hfinished, hzero⟩)]
        rfl
      · rw [if_neg (by rw [if_neg hfinished]; omega)]
        rfl
  · exact hlength ▸ hfew
  · intro j hj
    rw [hconcat]
    have hold : state.elements.length ≤ j := hlength ▸ hj
    rw [if_neg (by omega)]
    exact h.known j hold
  · intro j other hj
    rcases helements j other (hfunctions ▸ hj) with ⟨rfl, rfl⟩ | ⟨-, hold⟩
    · exact h.index j element helement
    · exact h.index j other hold
  · intro hresolving haborted
    show called.values.length = called.elements.length
    rw [hentries, hlength]
    exact h.length (hphase ▸ hresolving) (hphase ▸ haborted)
  · intro hresolving
    obtain ⟨hmore, hundefined⟩ := h.pending (hphase ▸ hresolving)
    show called.values.length = called.elements.length + 1 ∧
      called.values[called.elements.length]? = some .undefined
    rw [hentries, hlength, hplaces, getElem?_set_ne (by omega)]
    exact ⟨hmore, hundefined⟩
  · intro hopen
    show called.index = called.elements.length
    rw [hnext, hlength]
    exact h.next (hphase ▸ hopen)
  · intro hinvoking
    show called.index + 1 = called.elements.length
    rw [hnext, hlength]
    exact h.made (hphase ▸ hinvoking)

theorem Counted.callElement_of_called {i : Nat} {element : Element}
    (helement : state.elements[i]? = some element) (hcalled : element.alreadyCalled = true)
    (function : ElementFunction) (x : V) :
    Counted combinator (firstCall (ops ++ [.callElement i function x])) (calls ++ [none])
      state := by
  rw [firstCall_concat_of_called (by rw [← h.called i element helement, hcalled])]
  exact { h with last := by simpa using h.last }

end

theorem pair_of_some {α β : Type} {pair : α × β} {a : α} {b : β}
    (h : some pair = some (a, b)) : a = pair.1 ∧ b = pair.2 := by
  cases h
  exact ⟨rfl, rfl⟩

theorem Counted.step {op : Operation V} (h : Counted combinator (firstCall ops) calls state)
    (hfew : FewElements state op) (hstep : state.step combinator op = some (next, out)) :
    Counted combinator (firstCall (ops ++ [op])) (calls ++ [out]) next := by
  cases op with
  | nextValue =>
    rw [State.step, ite_none_right_eq_some] at hstep
    obtain ⟨hphase, hnext⟩ := hstep
    obtain ⟨rfl, rfl⟩ := pair_of_some hnext
    rw [firstCall_concat_of_none fun _ => rfl]
    exact h.nextValue hphase
  | promiseResolved =>
    rw [State.step, ite_none_right_eq_some] at hstep
    obtain ⟨hphase, hnext⟩ := hstep
    obtain ⟨rfl, rfl⟩ := pair_of_some hnext
    rw [firstCall_concat_of_none fun _ => rfl]
    exact h.promiseResolved hphase hfew
  | thenReturned =>
    rw [State.step, ite_none_right_eq_some] at hstep
    obtain ⟨hphase, hnext⟩ := hstep
    obtain ⟨rfl, rfl⟩ := pair_of_some hnext
    rw [firstCall_concat_of_none fun _ => rfl]
    exact h.thenReturned hphase
  | iteratorDone =>
    rw [State.step, ite_none_right_eq_some] at hstep
    obtain ⟨hphase, hnext⟩ := hstep
    obtain ⟨hstate, hout⟩ := pair_of_some hnext
    rw [firstCall_concat_of_none fun _ => rfl, hstate, hout]
    exact h.iteratorDone hphase
  | throwCompletion =>
    rw [State.step, ite_none_left_eq_some, not_or] at hstep
    obtain ⟨hphase, hnext⟩ := hstep
    obtain ⟨rfl, rfl⟩ := pair_of_some hnext
    rw [firstCall_concat_of_none fun _ => rfl]
    exact h.throwCompletion hphase.1
  | callElement i function x =>
    rw [State.step, State.callElement] at hstep
    cases helement : state.elements[i]? with
    | none =>
      rw [helement] at hstep
      cases hstep
    | some element =>
      rw [helement] at hstep
      simp only [ite_none_left_eq_some] at hstep
      obtain ⟨-, hnext⟩ := hstep
      cases hcalled : element.alreadyCalled with
      | true =>
        rw [hcalled] at hnext
        obtain ⟨rfl, rfl⟩ := pair_of_some hnext
        exact h.callElement_of_called helement hcalled function x
      | false =>
        rw [hcalled] at hnext
        obtain ⟨hstate, hout⟩ := pair_of_some hnext
        rw [hstate, hout]
        exact h.callElement helement hcalled function x rfl

end Operations

instance (state : State V) : ∀ op, Decidable (FewElements state op)
  | .promiseResolved => inferInstanceAs (Decidable (_ < _))
  | .nextValue => inferInstanceAs (Decidable True)
  | .thenReturned => inferInstanceAs (Decidable True)
  | .iteratorDone => inferInstanceAs (Decidable True)
  | .throwCompletion => inferInstanceAs (Decidable True)
  | .callElement _ _ _ => inferInstanceAs (Decidable True)

variable (combinator : Combinator)

/-- However the functions of at most `2 ^ 31` elements are called, the number counts the elements
that were not called, and the last call comes when none is left, once. -/
theorem settled_of_run {ops : List (Operation V)} {last : State V}
    {calls : List (Option (List (Entry V)))}
    (hfew : Guarded (State.step combinator) FewElements ops (State.initial V))
    (hrun : run (State.step combinator) ops (State.initial V) = some (last, calls)) :
    Settled combinator (firstCall ops) calls last := by
  have hcounted := @Guarded.run_history _ _ _ (State.step combinator) FewElements
    (fun past answers state => Counted combinator (firstCall past) answers state)
    (fun h hguard hstep => h.step hguard hstep) ops [] [] _ last calls hfew
    (counted_initial combinator) hrun
  exact hcounted.toSettled

/-- Two elements, of which the first is called while its `then` runs, and again. -/
def twoElements : List (Operation Nat) :=
  [.nextValue, .promiseResolved, .callElement 0 .resolveElement 5, .thenReturned, .nextValue,
    .callElement 0 .resolveElement 7, .promiseResolved, .thenReturned, .iteratorDone,
    .callElement 1 .resolveElement 6]

theorem settled_twoElements : Settled .all (firstCall twoElements)
    (List.replicate 9 none ++ [some [.value 5, .value 6]])
    ⟨.finished, 2, [.value 5, .value 6], 0, [⟨true, indexValue 0⟩, ⟨true, indexValue 1⟩]⟩ :=
  settled_of_run .all (by decide +kernel) (by decide +kernel)

def turn : List (Operation V) := [.nextValue, .promiseResolved, .thenReturned]

/-- The state after a number of turns in which no function was called. -/
def turnState (V : Type) (n : Nat) : State V where
  phase := .stepping
  index := n
  values := List.replicate n .undefined
  remainingElementsCount := n + 1
  elements := (List.range n).map fun i => ⟨false, indexValue i⟩

theorem run_turns (combinator : Combinator) : ∀ n, n < 2 ^ 32 →
    ∃ calls, run (State.step combinator) (List.replicate n turn).flatten (State.initial V) =
      some (turnState V n, calls)
  | 0, _ => ⟨[], rfl⟩
  | n + 1, hn => by
      obtain ⟨calls, hcalls⟩ := run_turns combinator n (by omega)
      refine ⟨calls ++ [none, none, none], ?_⟩
      have hturn : run (State.step combinator) turn (turnState V n) =
          some (turnState V (n + 1), [none, none, none]) := by
        simp [run, turn, State.step, turnState, replicate_succ', range_succ]
        omega
      rw [replicate_succ', flatten_append, flatten_singleton, run_append hcalls, hturn]
      rfl

theorem firstCall_turns (n i : Nat) :
    firstCall (List.replicate n (turn (V := V))).flatten i = none := by
  rw [firstCall, findSome?_eq_none_iff]
  intro op hop
  obtain ⟨ops, hops, hmem⟩ := List.mem_flatten.mp hop
  rw [eq_of_mem_replicate hops] at hmem
  fin_cases hmem
  · rfl
  · rfl
  · rfl

theorem callElement_wraps {n : Nat} (hn : 2 ^ 31 < n)
    (hn' : n < 2 ^ 32) (function : ElementFunction) (x : V)
    (hcreates : combinator.creates function = true) :
    ∃ next calls, run (State.step combinator)
        ((List.replicate n turn).flatten ++ [.callElement (2 ^ 31) function x])
        (State.initial V) = some (next, calls) ∧
      next.elements.length = n ∧ next.values[2 ^ 31]? = some .undefined := by
  obtain ⟨calls, hcalls⟩ := run_turns (V := V) combinator n hn'
  have helement : (turnState V n).elements[2 ^ 31]? = some ⟨false, indexValue (2 ^ 31)⟩ := by
    rw [turnState, getElem?_map, getElem?_range hn]
    rfl
  have hindex : asUInt32 (indexValue (2 ^ 31)) = 0 := by decide +kernel
  have hstep : (turnState V n).step combinator (.callElement (2 ^ 31) function x) =
      some (State.release { turnState V n with
        elements := (turnState V n).elements.set (2 ^ 31) ⟨true, indexValue (2 ^ 31)⟩
        values := (turnState V n).values.set 0 (combinator.entry function x) }) := by
    rw [State.step, State.callElement, helement]
    simp only [hcreates, hindex, Bool.true_eq_false, Bool.false_eq_true, if_false]
  refine ⟨_, _, run_concat hcalls hstep, ?_, ?_⟩
  · show ((turnState V n).elements.set (2 ^ 31) ⟨true, indexValue (2 ^ 31)⟩).length = n
    rw [length_set, turnState, length_map, length_range]
  · show ((turnState V n).values.set 0 (combinator.entry function x))[2 ^ 31]? = _
    rw [getElem?_set_ne (by decide), turnState, getElem?_replicate_of_lt hn]

/-- With `2 ^ 31 + 1` elements the value of the last one is put into the place of the first. -/
theorem many_elements_share_an_index : ¬∀ (combinator : Combinator) (ops : List (Operation Nat))
    (last : State Nat) (calls : List (Option (List (Entry Nat)))),
    run (State.step combinator) ops (State.initial Nat) = some (last, calls) →
      Settled combinator (firstCall ops) calls last := by
  intro hsettled
  obtain ⟨n, hn⟩ : ∃ n, n = 2 ^ 31 + 1 := ⟨_, rfl⟩
  obtain ⟨next, calls, hrun, hlength, hundefined⟩ := callElement_wraps .all
    (show 2 ^ 31 < n by omega) (show n < 2 ^ 32 by omega) .resolveElement (5 : Nat) rfl
  have hvalue := (hsettled .all _ next calls hrun).values (2 ^ 31) (by omega)
  rw [hundefined, entryOf, firstCall_concat, firstCall_turns] at hvalue
  simp [Operation.callOf, Combinator.entry] at hvalue

end History

end Escargot.Runtime.PromiseCombinators
