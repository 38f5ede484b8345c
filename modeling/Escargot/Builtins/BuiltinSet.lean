/-
# Set methods

The methods of `Set` that combine a set with another object. The other object is
user code: it is asked for a size, and then either `has` is called for elements of
the set, or `keys` for an iterator of its own. A call may change the set. The size is
a double that is cast to `size_t`; what the cast gives for a number that does not
fit is a parameter.
-/

import Escargot.Foundation.Interaction
import Escargot.Foundation.OrderedSet
import Escargot.Runtime.CollectionIterator
import Escargot.Runtime.TypedArray

namespace Escargot.Builtins

open List Escargot.Foundation Escargot.Foundation.Interaction Escargot.Runtime

/-- `SetObjectData`. A deleted element leaves an empty value. -/
abbrev SetObjectData := List EncodedValue

/-- What calls can change: the storage of the set, and all else. -/
structure Machine (W : Type) where
  world : W
  storage : SetObjectData

inductive SetError
  | engine (error : ThrownError)
  | thrown (value : Value)

abbrev UserCode (W α : Type) := Interaction SetError (Machine W) α

variable {W : Type}

def storage : UserCode W SetObjectData := fun machine => some (.ok machine.storage, machine)

/-- An iterator record, by what is done with it. -/
structure KeysIterator (W : Type) where
  iteratorStepValue : UserCode W (Option JSValue)
  iteratorClose : UserCode W Unit

/-- An object by what the methods do with it: the number of its size, its `has` and its `keys`
where they are callable. -/
structure SetLikeObject (W : Type) where
  size : UserCode W Double
  has : UserCode W (Option (Value → UserCode W Bool))
  keys : UserCode W (Option (UserCode W (KeysIterator W)))

structure SetRecord (W : Type) where
  size : Nat
  has : Value → UserCode W Bool
  keys : UserCode W (KeysIterator W)

variable (overflow : Double → Nat) (numSize : Double)

/-- `static_cast<size_t>` of the integer part of a number that is not negative. -/
def castSize : Nat :=
  match numSize.truncated with
  | some size => if size < 2 ^ 64 then size.toNat else overflow numSize
  | none => overflow numSize

/-- The integer part is less than zero. -/
def isNegative : Bool :=
  match numSize.truncated with
  | some size => decide (size < 0)
  | none => numSize.signbit

def getSetRecord (objInput : Option (SetLikeObject W)) : UserCode W (SetRecord W) := do
  match objInput with
  | none => throw (.engine (.typeError "%s: first argument is not an object"))
  | some obj =>
    let numSize ← obj.size
    if numSize.isnan then throw (.engine (.typeError "Invalid obj.size"))
    else if isNegative numSize then throw (.engine (.rangeError "Invalid obj.size"))
    else
      match ← obj.has with
      | none => throw (.engine (.typeError "obj.has is not callable"))
      | some has =>
        match ← obj.keys with
        | none => throw (.engine (.typeError "obj.keys is not callable"))
        | some keys => pure ⟨castSize overflow numSize, has, keys⟩

def toCanonicalizeKeyedCollectionKey : Value → Value
  | .double d => if d.isZero then .int32 0 else .double d
  | value => value

variable (setData : SetObjectData) (value : Value)

def setDataIndex : Option Nat :=
  setData.findIdx? fun e =>
    !e.isEmpty && (toCanonicalizeKeyedCollectionKey value).sameValueZero e.toValue

def setDataHas : Bool := (setDataIndex setData value).isSome

def setDataSize : Nat := setData.countP fun e => !e.isEmpty

def appendNew : SetObjectData :=
  if setDataHas setData value then setData else setData ++ [.ofValue value]

/-- Set an element to empty. -/
def eraseData : SetObjectData :=
  match setDataIndex setData value with
  | some valueIndex => setData.set valueIndex ⟨.empty⟩
  | none => setData

variable (keysIter : KeysIterator W)

def collectKeysBody
    (change : SetObjectData → SetObjectData → Value → SetObjectData) (result : SetObjectData) :
    UserCode W (SetObjectData ⊕ SetObjectData) := do
  match ← keysIter.iteratorStepValue with
  | some next =>
    let own ← storage
    pure (.inl (change own result (toCanonicalizeKeyedCollectionKey next.1)))
  | none => pure (.inr result)

/-- One turn of a loop over the keys of the other object that stops at the first key for which
the set gives this answer. -/
def searchKeysBody (stop : Bool) (_ : Unit) : UserCode W (Unit ⊕ Bool) := do
  match ← keysIter.iteratorStepValue with
  | some next =>
    let own ← storage
    if setDataHas own next.1 = stop then
      keysIter.iteratorClose
      pure (.inr false)
    else pure (.inl ())
  | none => pure (.inr true)

/-- The variables of a loop over the elements of the set. -/
structure IndexState where
  index : Nat
  thisSize : Nat
  resultSetData : SetObjectData

variable (otherRec : SetRecord W) (stop : Bool) (s : IndexState)

/-- One turn of a loop over the elements of the set that stops at the first element for which the
other object gives this answer. The size is read again after each call. -/
def searchElementsBody : UserCode W (IndexState ⊕ Bool) := do
  if s.index < s.thisSize then
    let own ← storage
    let e := own.getD s.index ⟨.empty⟩
    if e.isEmpty then pure (.inl { s with index := s.index + 1 })
    else
      let inOther ← otherRec.has e.toValue
      if inOther = stop then pure (.inr false)
      else
        let own ← storage
        pure (.inl { s with index := s.index + 1, thisSize := own.length })
  else pure (.inr true)

/-- One turn of the loop of `intersection`. The size is read again where the other object has the
element. -/
def intersectElementsBody : UserCode W (IndexState ⊕ SetObjectData) := do
  if s.index < s.thisSize then
    let own ← storage
    let e := own.getD s.index ⟨.empty⟩
    if e.isEmpty then pure (.inl { s with index := s.index + 1 })
    else
      let inOther ← otherRec.has e.toValue
      if inOther then
        let own ← storage
        pure (.inl ⟨s.index + 1, own.length, appendNew s.resultSetData e.toValue⟩)
      else pure (.inl { s with index := s.index + 1 })
  else pure (.inr s.resultSetData)

/-- One turn of the loop of `difference`, which goes through the copy. -/
def removeElementsBody : UserCode W (IndexState ⊕ SetObjectData) := do
  if s.index < s.thisSize then
    let e := s.resultSetData.getD s.index ⟨.empty⟩
    if e.isEmpty then pure (.inl { s with index := s.index + 1 })
    else
      let inOther ← otherRec.has e.toValue
      pure (.inl { s with
        index := s.index + 1
        resultSetData :=
          if inOther then s.resultSetData.set s.index ⟨.empty⟩ else s.resultSetData })
  else pure (.inr s.resultSetData)

section Methods

variable (overflow : Double → Nat) (fuel : Nat) (other : Option (SetLikeObject W))

def builtinSetUnion : UserCode W SetObject := do
  let otherRec ← getSetRecord overflow other
  let keysIter ← otherRec.keys
  let own ← storage
  let result ← loop (collectKeysBody keysIter fun _ => appendNew) fuel own
  pure ⟨result, none⟩

def builtinSetIntersection : UserCode W SetObject := do
  let otherRec ← getSetRecord overflow other
  let own ← storage
  if setDataSize own ≤ otherRec.size then
    let result ← loop (intersectElementsBody otherRec) fuel ⟨0, own.length, []⟩
    pure ⟨result, none⟩
  else
    let keysIter ← otherRec.keys
    let result ← loop (collectKeysBody keysIter fun own result next =>
      if setDataHas own next then appendNew result next else result) fuel []
    pure ⟨result, none⟩

def builtinSetIsDisjointFrom : UserCode W Bool := do
  let otherRec ← getSetRecord overflow other
  let own ← storage
  if setDataSize own ≤ otherRec.size then
    loop (searchElementsBody otherRec true) fuel ⟨0, own.length, []⟩
  else
    let keysIter ← otherRec.keys
    loop (searchKeysBody keysIter true) fuel ()

def builtinSetDifference : UserCode W SetObject := do
  let otherRec ← getSetRecord overflow other
  let own ← storage
  if setDataSize own ≤ otherRec.size then
    let result ← loop (removeElementsBody otherRec) fuel ⟨0, own.length, own⟩
    pure ⟨result, none⟩
  else
    let keysIter ← otherRec.keys
    let result ← loop (collectKeysBody keysIter fun _ => eraseData) fuel own
    pure ⟨result, none⟩

def builtinSetIsSubsetOf : UserCode W Bool := do
  let otherRec ← getSetRecord overflow other
  let own ← storage
  if setDataSize own > otherRec.size then pure false
  else loop (searchElementsBody otherRec false) fuel ⟨0, own.length, []⟩

def builtinSetIsSupersetOf : UserCode W Bool := do
  let otherRec ← getSetRecord overflow other
  let own ← storage
  if setDataSize own < otherRec.size then pure false
  else
    let keysIter ← otherRec.keys
    loop (searchKeysBody keysIter false) fuel ()

def builtinSetSymmetricDifference : UserCode W SetObject := do
  let otherRec ← getSetRecord overflow other
  let keysIter ← otherRec.keys
  let own ← storage
  let result ← loop (collectKeysBody keysIter fun own result next =>
    if setDataHas own next then eraseData result next else appendNew result next) fuel own
  pure ⟨result, none⟩

end Methods

/-- One turn of the loop of `intersection`, where the size is read again after every call. -/
def specifiedIntersectElementsBody (otherRec : SetRecord W) (s : IndexState) :
    UserCode W (IndexState ⊕ SetObjectData) := do
  if s.index < s.thisSize then
    let own ← storage
    let e := own.getD s.index ⟨.empty⟩
    if e.isEmpty then pure (.inl { s with index := s.index + 1 })
    else
      let inOther ← otherRec.has e.toValue
      let own ← storage
      pure (.inl ⟨s.index + 1, own.length,
        if inOther then appendNew s.resultSetData e.toValue else s.resultSetData⟩)
  else pure (.inr s.resultSetData)

def specifiedIntersection (overflow : Double → Nat) (fuel : Nat) (other : Option (SetLikeObject W)) :
    UserCode W SetObject := do
  let otherRec ← getSetRecord overflow other
  let own ← storage
  if setDataSize own ≤ otherRec.size then
    let result ← loop (specifiedIntersectElementsBody otherRec) fuel ⟨0, own.length, []⟩
    pure ⟨result, none⟩
  else
    let keysIter ← otherRec.keys
    let result ← loop (collectKeysBody keysIter fun own result next =>
      if setDataHas own next then appendNew result next else result) fuel []
    pure ⟨result, none⟩

/-- The elements of a set as `SameValueZero` sees them, in order. -/
def members (setData : SetObjectData) : List Value.Identity :=
  (setData.filter fun e => !e.isEmpty).map fun e => e.toValue.identity

def isNegativeZero (value : Value) : Bool :=
  match value.asNumber? with
  | some d => d.isZero && d.signbit
  | none => false

/-- No two elements are equal, and there is no `-0`. -/
structure IsProper (setData : SetObjectData) : Prop where
  distinct : (members setData).Nodup
  canonical : ∀ e ∈ setData, isNegativeZero e.toValue = false

theorem identity_toCanonicalize (value : Value) :
    (toCanonicalizeKeyedCollectionKey value).identity = value.identity := by
  cases value with
  | double d =>
    rw [toCanonicalizeKeyedCollectionKey]
    split
    · rename_i hzero
      have hnan : d.isnan = false := by
        rw [Double.isZero, beq_iff_eq] at hzero
        rw [Double.isnan, hzero]
        rfl
      simp only [Value.identity, Value.numberIdentity, hnan, hzero]
      rfl
    · rfl
  | _ => rfl

variable {value : Value}

theorem isEmpty_toCanonicalize (hvalue : value.isEmpty = false) :
    (toCanonicalizeKeyedCollectionKey value).isEmpty = false :=
  MapObject.isEmpty_of_identity_eq (identity_toCanonicalize value) hvalue

theorem isNegativeZero_ofInt32 (i : Int32) : isNegativeZero (.int32 i) = false := by
  simp only [isNegativeZero, Value.asNumber?, Double.isZero_ofInt32, Double.signbit_ofInt32]
  by_cases hi : i = 0
  · subst hi
    rfl
  · simp [hi]

theorem isNegativeZero_toCanonicalize (value : Value) :
    isNegativeZero (toCanonicalizeKeyedCollectionKey value) = false := by
  cases value with
  | double d =>
    rw [toCanonicalizeKeyedCollectionKey]
    split
    · exact isNegativeZero_ofInt32 0
    · rename_i hzero
      simp only [isNegativeZero, Value.asNumber?, hzero]
      rfl
  | int32 i => exact isNegativeZero_ofInt32 i
  | _ => rfl

theorem isNegativeZero_ofValue (hvalue : isNegativeZero value = false) :
    isNegativeZero (EncodedValue.ofValue value).toValue = false := by
  unfold EncodedValue.ofValue
  cases value with
  | double d =>
    dsimp only
    split
    · split
      · exact isNegativeZero_ofInt32 _
      · exact hvalue
    · exact hvalue
  | _ => exact hvalue

variable {setData : SetObjectData}

theorem setDataHas_iff : setDataHas setData value = true ↔ value.identity ∈ members setData := by
  unfold setDataHas setDataIndex members
  rw [findIdx?_isSome, List.any_eq_true, List.mem_map]
  constructor
  · rintro ⟨e, he, hmatch⟩
    rw [Bool.and_eq_true, Value.sameValueZero_iff, identity_toCanonicalize] at hmatch
    exact ⟨e, List.mem_filter.mpr ⟨he, hmatch.1⟩, hmatch.2.symm⟩
  · rintro ⟨e, he, hidentity⟩
    refine ⟨e, mem_of_mem_filter he, ?_⟩
    rw [Bool.and_eq_true, Value.sameValueZero_iff, identity_toCanonicalize]
    exact ⟨(List.mem_filter.mp he).2, hidentity.symm⟩

variable (setData)

theorem setDataSize_eq : setDataSize setData = (members setData).length := by
  rw [members, length_map, ← countP_eq_length_filter]
  rfl

theorem members_concat (hvalue : value.isEmpty = false) :
    members (setData ++ [.ofValue value]) = members setData ++ [value.identity] := by
  unfold members
  have hlive : (EncodedValue.ofValue value).isEmpty = false :=
    (EncodedValue.isEmpty_ofValue value).trans hvalue
  rw [filter_append, map_append, filter_singleton, hlive]
  exact congrArg (_ ++ [·]) (EncodedValue.sameValue_ofValue value).1

theorem members_appendNew {value : Value} (hvalue : value.isEmpty = false) :
    members (appendNew setData value) = insertNew (members setData) value.identity := by
  unfold appendNew insertNew
  by_cases hhas : setDataHas setData value = true
  · rw [if_pos hhas, if_pos (setDataHas_iff.mp hhas)]
  · rw [if_neg hhas, if_neg (mt setDataHas_iff.mpr hhas), members_concat setData hvalue]

theorem members_cons (e : EncodedValue) (setData : SetObjectData) : members (e :: setData) =
      if e.isEmpty then members setData else e.toValue.identity :: members setData := by
  unfold members
  rw [filter_cons]
  cases e.isEmpty <;> rfl

theorem members_eraseData (value : Value) :
    members (eraseData setData value) = (members setData).erase value.identity := by
  induction setData with
  | nil => rfl
  | cons e setData ih =>
    unfold eraseData setDataIndex at ih ⊢
    rw [findIdx?_cons, members_cons]
    cases hempty : e.isEmpty with
    | true =>
      rw [Bool.not_true, Bool.false_and, if_neg Bool.false_ne_true, if_pos rfl, ← ih]
      cases setData.findIdx? _ with
      | none => exact (members_cons e setData).trans (if_pos hempty)
      | some i => exact (members_cons e _).trans (if_pos hempty)
    | false =>
      rw [Bool.not_false, Bool.true_and, if_neg Bool.false_ne_true, erase_cons]
      by_cases hmatch : (toCanonicalizeKeyedCollectionKey value).sameValueZero e.toValue = true
      · have hidentity : e.toValue.identity = value.identity := by
          rw [Value.sameValueZero_iff, identity_toCanonicalize] at hmatch
          exact hmatch.symm
        rw [if_pos hmatch, if_pos (beq_iff_eq.mpr hidentity)]
        exact (members_cons _ setData).trans (if_pos rfl)
      · have hidentity : e.toValue.identity ≠ value.identity := by
          rw [Value.sameValueZero_iff, identity_toCanonicalize] at hmatch
          exact fun h => hmatch h.symm
        rw [if_neg hmatch, if_neg (by simpa using hidentity), ← ih]
        cases setData.findIdx? _ with
        | none => exact (members_cons e setData).trans (if_neg (by simp [hempty]))
        | some i => exact (members_cons e _).trans (if_neg (by simp [hempty]))

variable {setData}

theorem canonical_appendNew (h : ∀ e ∈ setData, isNegativeZero e.toValue = false)
    (hvalue : isNegativeZero value = false) :
    ∀ e ∈ appendNew setData value, isNegativeZero e.toValue = false := by
  unfold appendNew
  split
  · exact h
  · intro e he
    rcases List.mem_append.mp he with hold | hnew
    · exact h e hold
    · exact List.mem_singleton.mp hnew ▸ isNegativeZero_ofValue hvalue

theorem canonical_set (h : ∀ e ∈ setData, isNegativeZero e.toValue = false) (i : Nat) :
    ∀ e ∈ setData.set i ⟨.empty⟩, isNegativeZero e.toValue = false := by
  intro e he
  rcases mem_or_eq_of_mem_set he with hold | rfl
  · exact h e hold
  · rfl

theorem canonical_eraseData (h : ∀ e ∈ setData, isNegativeZero e.toValue = false) (value : Value) :
    ∀ e ∈ eraseData setData value, isNegativeZero e.toValue = false := by
  unfold eraseData
  split
  · exact canonical_set h _
  · exact h

theorem distinctKeys_iff : DistinctKeys setData ↔ (members setData).Nodup := by
  unfold DistinctKeys members
  rw [List.Nodup, pairwise_map, pairwise_filter]
  refine iff_of_eq (congrArg (List.Pairwise · setData) ?_)
  funext a b
  simp [EncodedValue.toValue]

theorem isNegativeZero_canonicalize (key : Value) :
    isNegativeZero (canonicalizeKeyedCollectionKey key) = false := by
  rw [canonicalizeKeyedCollectionKey]
  cases hnumber : key.asNumber? with
  | none => rw [isNegativeZero, hnumber]
  | some d =>
    dsimp only
    split
    · exact isNegativeZero_ofInt32 0
    · rename_i hzero
      rw [isNegativeZero, hnumber]
      exact Bool.eq_false_iff.mpr hzero

theorem canonical_step {set next : SetObject} {op : SetOperation} {out : MapResult}
    (hcanonical : ∀ e ∈ set.storage, isNegativeZero e.toValue = false)
    (hstep : set.step op = some (next, out)) :
    ∀ e ∈ next.storage, isNegativeZero e.toValue = false := by
  obtain ⟨found, -, -, hstorage, -⟩ := @SetObject.step_follows set next false op out nofun hstep
  rw [hstorage]
  cases op with
  | add key =>
    cases found with
    | none =>
      intro e he
      rcases List.mem_append.mp he with hold | hnew
      · exact hcanonical e hold
      · exact List.mem_singleton.mp hnew ▸
          isNegativeZero_ofValue (isNegativeZero_canonicalize key.1)
    | some _ => exact hcanonical
  | has key => exact hcanonical
  | delete key =>
    cases found with
    | none => exact hcanonical
    | some i =>
      intro e he
      obtain ⟨j, hj⟩ := List.mem_iff_getElem?.mp he
      rw [show StorageChange.apply _ _ _ = set.storage.modify i fun _ => ⟨.empty⟩ from rfl,
        getElem?_modify] at hj
      split at hj
      · obtain ⟨old, -, rfl⟩ := Option.map_eq_some_iff.mp hj
        rfl
      · rw [id_map'] at hj
        exact hcanonical e (mem_of_getElem? hj)
  | clear =>
    intro e he
    obtain ⟨old, -, rfl⟩ := List.mem_map.mp he
    rfl
  | size => exact hcanonical

/-- The sets that operations build from an empty set are proper, where no lookup misses a key
because of its hash. -/
theorem isProper_of_reached {set : SetObject}
    (hreached : ReachedBy SetObject.step SetObject.admits SetObject.empty set) :
    IsProper set.storage := by
  have hinv : set.asMap.Invariant ∧ ∀ e ∈ set.storage, isNegativeZero e.toValue = false := by
    refine @ReachedBy.invariant _ _ _ SetObject.step SetObject.admits (fun set =>
      set.asMap.Invariant ∧ ∀ e ∈ set.storage, isNegativeZero e.toValue = false) _ _ hreached ?_
      fun hinv hadmits hstep =>
        ⟨SetObject.step_invariant hinv.1 hadmits hstep, canonical_step hinv.2 hstep⟩
    exact ⟨MapObject.invariant_empty, nofun⟩
  refine ⟨distinctKeys_iff.mp ?_, hinv.2⟩
  rw [← SetObject.keys_asMap]
  exact hinv.1.distinct

/-- Objects behind a rebuilt index, then one and zero in two forms each: thirty places hold
objects, and the two numbers are there once, zero as an integer. -/
theorem isProper_of_reached_rebuilt : ∃ set outs,
    run SetObject.step SetObject.rebuiltOps .empty = some (set, outs) ∧ IsProper set.storage ∧
      (set.storage.drop 30).map EncodedValue.value = [.int32 1, .int32 0] := by
  have hends : (run SetObject.step SetObject.rebuiltOps .empty).map (fun result =>
      (result.1.storage.drop 30).map EncodedValue.value) = some [.int32 1, .int32 0] := by
    decide +kernel
  obtain ⟨⟨set, outs⟩, hrun, hstorage⟩ := Option.map_eq_some_iff.mp hends
  exact ⟨set, outs, hrun,
    isProper_of_reached ⟨SetObject.rebuiltOps, outs, by decide +kernel, hrun⟩, hstorage⟩

/-- The iterator gives these keys and then ends, and can be closed after each of them. None of its
calls changes the set. -/
def Yields (keysIter : KeysIterator W) (setData : SetObjectData) : List JSValue → W → Prop
  | [], world => ∃ world',
      keysIter.iteratorStepValue ⟨world, setData⟩ = some (.ok none, ⟨world', setData⟩)
  | key :: keys, world => ∃ world',
      keysIter.iteratorStepValue ⟨world, setData⟩ = some (.ok (some key), ⟨world', setData⟩) ∧
      (∃ world'', keysIter.iteratorClose ⟨world', setData⟩ = some (.ok (), ⟨world'', setData⟩)) ∧
      Yields keysIter setData keys world'

def identities (keys : List JSValue) : List Value.Identity := keys.map fun key => key.1.identity

/-- Neither the set nor what `has` and `keys` rely on has changed. -/
def Unchanged (setData : SetObjectData) (valid : W → Prop) (machine : Machine W) : Prop :=
  machine.storage = setData ∧ valid machine.world

structure RecordAgrees (otherRec : SetRecord W) (setData : SetObjectData) (valid : W → Prop)
    (keys : List JSValue) : Prop where
  has : ∀ machine value, Unchanged setData valid machine → value.isEmpty = false →
    Gives (otherRec.has value) machine fun inOther next =>
      inOther = decide (value.identity ∈ identities keys) ∧ Unchanged setData valid next
  keys : ∀ machine, Unchanged setData valid machine →
    Gives otherRec.keys machine fun keysIter next =>
      next.storage = setData ∧ Yields keysIter setData keys next.world

/-- A set-like object of this size whose `has` agrees with its keys and whose calls do not change
the set. -/
structure Agrees (other : SetLikeObject W) (setData : SetObjectData) (valid : W → Prop)
    (numSize : Double) (keys : List JSValue) : Prop where
  isNumber : numSize.isnan = false
  isNotNegative : isNegative numSize = false
  size : ∀ machine, Unchanged setData valid machine →
    Gives other.size machine fun answer next => answer = numSize ∧ Unchanged setData valid next
  has : ∀ machine, Unchanged setData valid machine → Gives other.has machine fun has next =>
    Unchanged setData valid next ∧ ∃ call, has = some call ∧
      ∀ machine value, Unchanged setData valid machine → value.isEmpty = false →
        Gives (call value) machine fun inOther next =>
          inOther = decide (value.identity ∈ identities keys) ∧ Unchanged setData valid next
  keys : ∀ machine, Unchanged setData valid machine → Gives other.keys machine fun keysMethod next =>
    Unchanged setData valid next ∧ ∃ call, keysMethod = some call ∧
      ∀ machine, Unchanged setData valid machine → Gives call machine fun keysIter next =>
        next.storage = setData ∧ Yields keysIter setData keys next.world

section Results

variable {overflow : Double → Nat} {fuel : Nat} {other : SetLikeObject W} {setData : SetObjectData}
  {valid : W → Prop} {numSize : Double} {keys : List JSValue} {machine : Machine W}

theorem getSetRecord_gives (hagrees : Agrees other setData valid numSize keys)
    (hmachine : Unchanged setData valid machine) :
    Gives (getSetRecord overflow (some other)) machine fun otherRec next =>
      otherRec.size = castSize overflow numSize ∧ RecordAgrees otherRec setData valid keys ∧
        Unchanged setData valid next := by
  refine (hagrees.size machine hmachine).bind fun answer next hsize => ?_
  obtain ⟨rfl, hnext⟩ := hsize
  rw [hagrees.isNumber, hagrees.isNotNegative, if_neg Bool.false_ne_true, if_neg Bool.false_ne_true]
  refine (hagrees.has next hnext).bind fun has next hhas => ?_
  obtain ⟨hnext, call, rfl, hcall⟩ := hhas
  refine (hagrees.keys next hnext).bind fun keysMethod next hkeys => ?_
  obtain ⟨hnext, iterate, rfl, hiterate⟩ := hkeys
  exact .pure ⟨rfl, ⟨hcall, hiterate⟩, hnext⟩

variable {keysIter : KeysIterator W}
  {change : SetObjectData → SetObjectData → Value → SetObjectData}

theorem collectKeys_gives (holds : List JSValue → SetObjectData → Prop)
    (hchange : ∀ done (key : JSValue) result, holds done result → holds (done ++ [key])
      (change setData result (toCanonicalizeKeyedCollectionKey key.1))) {result : SetObjectData}
    (hstart : holds [] result) (hstorage : machine.storage = setData)
    (hyields : Yields keysIter setData keys machine.world) (hfuel : keys.length < fuel) :
    Gives (loop (collectKeysBody keysIter change) fuel result) machine fun result next =>
      next.storage = setData ∧ holds keys result := by
  refine Gives.loop (fun n result machine => ∃ done rest, rest.length = n ∧ done ++ rest = keys ∧
    machine.storage = setData ∧ Yields keysIter setData rest machine.world ∧ holds done result)
    ?_ ⟨[], keys, rfl, rfl, hstorage, hyields, hstart⟩ hfuel
  rintro n result ⟨world, own⟩ ⟨done, rest, rfl, rfl, rfl, hyields, hholds⟩
  cases rest with
  | nil =>
    obtain ⟨world', hstep⟩ := hyields
    rw [append_nil]
    exact .bind_of_ok hstep (.pure ⟨rfl, hholds⟩)
  | cons key rest =>
    obtain ⟨world', hstep, -, hrest⟩ := hyields
    refine .bind_of_ok hstep (.bind_of_ok rfl (.pure
      ⟨rest.length, Nat.lt_succ_self _, done ++ [key], rest, rfl, ?_, rfl, hrest,
        hchange done key result hholds⟩))
    rw [append_assoc, singleton_append]

theorem searchKeys_gives {stop : Bool} (hstorage : machine.storage = setData)
    (hyields : Yields keysIter setData keys machine.world) (hfuel : keys.length < fuel) :
    Gives (loop (searchKeysBody keysIter stop) fuel ()) machine fun answer next =>
      next.storage = setData ∧ (answer = true ↔ ∀ key ∈ keys, setDataHas setData key.1 ≠ stop) := by
  refine Gives.loop (fun n _ machine => ∃ done rest, rest.length = n ∧ done ++ rest = keys ∧
    machine.storage = setData ∧ Yields keysIter setData rest machine.world ∧
      ∀ key ∈ done, setDataHas setData key.1 ≠ stop)
    ?_ ⟨[], keys, rfl, rfl, hstorage, hyields, nofun⟩ hfuel
  rintro n _ ⟨world, own⟩ ⟨done, rest, rfl, rfl, rfl, hyields, hholds⟩
  cases rest with
  | nil =>
    obtain ⟨world', hstep⟩ := hyields
    rw [append_nil]
    exact .bind_of_ok hstep (.pure ⟨rfl, fun _ => hholds, fun _ => rfl⟩)
  | cons key rest =>
    obtain ⟨world', hstep, ⟨world'', hclose⟩, hrest⟩ := hyields
    refine .bind_of_ok hstep (.bind_of_ok rfl ?_)
    split
    · rename_i hstop
      refine .bind_of_ok hclose (.pure ⟨rfl, nofun, fun h => ?_⟩)
      exact absurd hstop (h key (mem_append_right _ (.head _)))
    · rename_i hgo
      refine .pure ⟨rest.length, Nat.lt_succ_self _, done ++ [key], rest, rfl, ?_, rfl, hrest, ?_⟩
      · rw [append_assoc, singleton_append]
      · intro other hother
        rcases List.mem_append.mp hother with hold | hnew
        · exact hholds other hold
        · exact List.mem_singleton.mp hnew ▸ hgo

variable {e : EncodedValue}

theorem members_take_succ {n : Nat} (he : setData[n]? = some e) : members (setData.take (n + 1)) =
      members (setData.take n) ++ if e.isEmpty then [] else [e.toValue.identity] := by
  unfold members
  rw [take_add_one, he, filter_append, map_append]
  cases hempty : e.isEmpty <;> simp [hempty]

theorem mem_members {n : Nat} (he : setData[n]? = some e) (hempty : e.isEmpty = false) :
    e.toValue.identity ∈ members setData :=
  List.mem_map.mpr ⟨e, List.mem_filter.mpr ⟨mem_of_getElem? he, by rw [hempty]; rfl⟩, rfl⟩

variable {otherRec : SetRecord W}

theorem searchElements_gives {stop : Bool} (hagrees : RecordAgrees otherRec setData valid keys)
    (hmachine : Unchanged setData valid machine) (hfuel : setData.length < fuel) :
    Gives (loop (searchElementsBody otherRec stop) fuel ⟨0, setData.length, []⟩) machine
      fun answer next => next.storage = setData ∧
        (answer = true ↔ ∀ a ∈ members setData, decide (a ∈ identities keys) ≠ stop) := by
  refine Gives.loop (fun n s machine => Unchanged setData valid machine ∧
    s.thisSize = setData.length ∧ s.index + n = setData.length ∧
    ∀ a ∈ members (setData.take s.index), decide (a ∈ identities keys) ≠ stop)
    ?_ ⟨hmachine, rfl, Nat.zero_add _, nofun⟩ hfuel
  rintro n ⟨index, thisSize, resultSetData⟩ machine ⟨hmachine, rfl, hn, hholds⟩
  unfold searchElementsBody
  dsimp only at hn hholds ⊢
  split
  · rename_i hlt
    obtain ⟨e, he⟩ : ∃ e, setData[index]? = some e := ⟨_, getElem?_eq_getElem hlt⟩
    have hmembers := members_take_succ he
    have hstep : n - 1 < n ∧ index + 1 + (n - 1) = setData.length := by omega
    refine .bind_of_ok rfl ?_
    rw [hmachine.1, getD_eq_getElem?_getD, he, Option.getD_some]
    cases hempty : e.isEmpty with
    | true =>
      rw [hempty, if_pos rfl, append_nil] at hmembers
      exact .pure ⟨n - 1, hstep.1, hmachine, rfl, hstep.2, hmembers ▸ hholds⟩
    | false =>
      rw [hempty, if_neg Bool.false_ne_true] at hmembers
      refine (hagrees.has machine e.toValue hmachine hempty).bind fun inOther next hhas => ?_
      obtain ⟨rfl, hnext⟩ := hhas
      split
      · rename_i hstop
        exact .pure ⟨hnext.1, nofun, fun h => absurd hstop (h _ (mem_members he hempty))⟩
      · rename_i hgo
        refine .bind_of_ok rfl (.pure ⟨n - 1, hstep.1, hnext, congrArg _ hnext.1, hstep.2, ?_⟩)
        intro a ha
        rw [hmembers] at ha
        rcases List.mem_append.mp ha with hold | hnew
        · exact hholds a hold
        · exact List.mem_singleton.mp hnew ▸ hgo
  · have hlength : setData.length ≤ index := by omega
    rw [take_of_length_le hlength] at hholds
    exact .pure ⟨hmachine.1, fun _ => hholds, fun _ => rfl⟩

theorem intersectElements_gives (hagrees : RecordAgrees otherRec setData valid keys)
    (hmachine : Unchanged setData valid machine) (hproper : IsProper setData)
    (hfuel : setData.length < fuel) :
    Gives (loop (intersectElementsBody otherRec) fuel ⟨0, setData.length, []⟩) machine
      fun result next => next.storage = setData ∧ (∀ e ∈ result, isNegativeZero e.toValue = false) ∧
        members result = (members setData).filter (· ∈ identities keys) := by
  refine Gives.loop (fun n s machine => Unchanged setData valid machine ∧
    s.thisSize = setData.length ∧ s.index + n = setData.length ∧
    (∀ e ∈ s.resultSetData, isNegativeZero e.toValue = false) ∧
    members s.resultSetData = (members (setData.take s.index)).filter (· ∈ identities keys))
    ?_ ⟨hmachine, rfl, Nat.zero_add _, nofun, rfl⟩ hfuel
  rintro n ⟨index, thisSize, result⟩ machine ⟨hmachine, rfl, hn, hcanonical, hholds⟩
  unfold intersectElementsBody
  dsimp only at hn hcanonical hholds ⊢
  split
  · rename_i hlt
    obtain ⟨e, he⟩ : ∃ e, setData[index]? = some e := ⟨_, getElem?_eq_getElem hlt⟩
    have hmembers := members_take_succ he
    have hstep : n - 1 < n ∧ index + 1 + (n - 1) = setData.length := by omega
    refine .bind_of_ok rfl ?_
    rw [hmachine.1, getD_eq_getElem?_getD, he, Option.getD_some]
    cases hempty : e.isEmpty with
    | true =>
      rw [hempty, if_pos rfl, append_nil] at hmembers
      exact .pure ⟨n - 1, hstep.1, hmachine, rfl, hstep.2, hcanonical, hmembers ▸ hholds⟩
    | false =>
      rw [hempty, if_neg Bool.false_ne_true] at hmembers
      refine (hagrees.has machine e.toValue hmachine hempty).bind fun inOther next hhas => ?_
      obtain ⟨rfl, hnext⟩ := hhas
      split
      · rename_i hin
        refine .bind_of_ok rfl (.pure ⟨n - 1, hstep.1, hnext, congrArg _ hnext.1, hstep.2,
          canonical_appendNew hcanonical
            (hproper.canonical e (mem_of_getElem? he)), ?_⟩)
        -- the element is new, for the set has no two that are equal
        have hnew : e.toValue.identity ∉ members (setData.take index) := by
          have hnodup : (members (setData.take (index + 1))).Nodup :=
            hproper.distinct.sublist (((take_sublist _ _).filter _).map _)
          rw [hmembers] at hnodup
          exact fun hmem => (disjoint_of_nodup_append hnodup) hmem (.head _)
        rw [@members_appendNew result e.toValue hempty, hholds, hmembers, filter_append, insertNew,
          if_neg fun hmem => hnew (mem_of_mem_filter hmem), filter_singleton, hin, cond_true]
      · rename_i hout
        refine .pure ⟨n - 1, hstep.1, hnext, rfl, hstep.2, hcanonical, ?_⟩
        rw [hmembers, filter_append, filter_singleton, Bool.eq_false_iff.mpr hout,
          cond_false, append_nil]
        exact hholds
  · have hlength : setData.length ≤ index := by omega
    rw [take_of_length_le hlength] at hholds
    exact .pure ⟨hmachine.1, hcanonical, hholds⟩

/-- What `difference` leaves of an element. -/
def bury (keys : List JSValue) (e : EncodedValue) : EncodedValue :=
  if e.toValue.identity ∈ identities keys then ⟨.empty⟩ else e

theorem bury_of_mem (hin : e.toValue.identity ∈ identities keys) :
    bury keys e = ⟨.empty⟩ := if_pos hin

theorem bury_of_not_mem (hin : e.toValue.identity ∉ identities keys) : bury keys e = e := if_neg hin

theorem members_map_bury (keys : List JSValue) (setData : SetObjectData) :
    members (setData.map (bury keys)) = (members setData).filter (· ∉ identities keys) := by
  induction setData with
  | nil => rfl
  | cons e setData ih =>
    rw [map_cons, members_cons, members_cons, ih]
    by_cases hin : e.toValue.identity ∈ identities keys
    · rw [bury_of_mem hin, if_pos (show (EncodedValue.mk .empty).isEmpty = true from rfl)]
      cases e.isEmpty with
      | true => rfl
      | false => rw [if_neg Bool.false_ne_true, filter_cons_of_neg (by simpa using hin)]
    · rw [bury_of_not_mem hin]
      cases e.isEmpty with
      | true => rfl
      | false =>
        rw [if_neg Bool.false_ne_true, if_neg Bool.false_ne_true,
          filter_cons_of_pos (by simpa using hin)]

theorem bury_empty (hempty : e.isEmpty = true) : bury keys e = e := by
  have he : e = ⟨.empty⟩ := by
    cases e with
    | mk value => exact congrArg _ (beq_iff_eq.mp hempty)
  unfold bury
  split
  · exact he.symm
  · rfl

theorem removeElements_gives (hagrees : RecordAgrees otherRec setData valid keys)
    (hmachine : Unchanged setData valid machine) (hfuel : setData.length < fuel) :
    Gives (loop (removeElementsBody otherRec) fuel ⟨0, setData.length, setData⟩) machine
      fun result next => next.storage = setData ∧ result = setData.map (bury keys) := by
  refine Gives.loop (fun n s machine => Unchanged setData valid machine ∧
    s.thisSize = setData.length ∧ s.index + n = setData.length ∧
    s.resultSetData = (setData.take s.index).map (bury keys) ++ setData.drop s.index)
    ?_ ⟨hmachine, rfl, Nat.zero_add _, rfl⟩ hfuel
  rintro n ⟨index, thisSize, result⟩ machine ⟨hmachine, rfl, hn, hholds⟩
  unfold removeElementsBody
  dsimp only at hn hholds ⊢
  split
  · rename_i hlt
    obtain ⟨e, he⟩ : ∃ e, setData[index]? = some e := ⟨_, getElem?_eq_getElem hlt⟩
    have hdrop : setData.drop index = e :: setData.drop (index + 1) := by
      rw [drop_eq_getElem_cons hlt]
      exact congrArg (· :: _) (Option.some.inj ((getElem?_eq_getElem hlt).symm.trans he))
    have hlength : ((setData.take index).map (bury keys)).length = index := by
      rw [length_map, length_take, Nat.min_eq_left (Nat.le_of_lt hlt)]
    have hnext : (setData.take (index + 1)).map (bury keys) =
        (setData.take index).map (bury keys) ++ [bury keys e] := by
      rw [take_add_one, he, map_append]
      rfl
    have hstep : n - 1 < n ∧ index + 1 + (n - 1) = setData.length := by omega
    rw [hdrop] at hholds
    have hget : result.getD index ⟨.empty⟩ = e := by
      rw [hholds, getD_eq_getElem?_getD, getElem?_append_right (by omega), hlength, Nat.sub_self]
      rfl
    rw [hget]
    cases hempty : e.isEmpty with
    | true =>
      refine .pure ⟨n - 1, hstep.1, hmachine, rfl, hstep.2, ?_⟩
      rw [hholds, hnext, bury_empty hempty, append_assoc, singleton_append]
    | false =>
      refine (hagrees.has machine e.toValue hmachine hempty).bind fun inOther next hhas => ?_
      obtain ⟨rfl, hmachine'⟩ := hhas
      refine .pure ⟨n - 1, hstep.1, hmachine', rfl, hstep.2, ?_⟩
      rw [hnext, append_assoc, singleton_append, hholds]
      by_cases hin : e.toValue.identity ∈ identities keys
      · rw [if_pos (decide_eq_true hin), bury_of_mem hin,
          set_append_right _ _ (Nat.le_of_eq hlength), hlength, Nat.sub_self, set_cons_zero]
      · rw [if_neg (by simpa using hin), bury_of_not_mem hin]
  · have hlength : setData.length ≤ index := by omega
    rw [take_of_length_le hlength, drop_of_length_le hlength, append_nil] at hholds
    exact .pure ⟨hmachine.1, hholds⟩

def GivesSet (method : UserCode W SetObject) (machine : Machine W)
    (expected : List Value.Identity) : Prop :=
  Gives method machine fun set next => next.storage = machine.storage ∧
    IsProper set.storage ∧ members set.storage = expected

/-- The method answers whether this holds, and does not change its set. -/
def GivesAnswer (method : UserCode W Bool) (machine : Machine W) (expected : Prop) : Prop :=
  Gives method machine fun answer next => next.storage = machine.storage ∧
    (answer = true ↔ expected)

theorem mem_identities {a : Value.Identity} :
    a ∈ identities keys ↔ ∃ key ∈ keys, key.1.identity = a := List.mem_map

theorem identities_concat (done : List JSValue) (key : JSValue) :
    identities (done ++ [key]) = identities done ++ [key.1.identity] := by
  unfold identities
  rw [map_append]
  rfl

theorem collectMembers_gives (fold : List Value.Identity → Value.Identity → List Value.Identity)
    (hcanonical : ∀ result value, (∀ e ∈ result, isNegativeZero e.toValue = false) →
      isNegativeZero value = false →
      ∀ e ∈ change setData result value, isNegativeZero e.toValue = false)
    (hmembers : ∀ result value, value.isEmpty = false →
      members (change setData result value) = fold (members result) value.identity)
    {result : SetObjectData} (hresult : ∀ e ∈ result, isNegativeZero e.toValue = false)
    (hstorage : machine.storage = setData) (hyields : Yields keysIter setData keys machine.world)
    (hfuel : keys.length < fuel) :
    Gives (loop (collectKeysBody keysIter change) fuel result) machine fun result' next =>
      next.storage = setData ∧ (∀ e ∈ result', isNegativeZero e.toValue = false) ∧
        members result' = (identities keys).foldl fold (members result) := by
  refine collectKeys_gives (fun done result' =>
    (∀ e ∈ result', isNegativeZero e.toValue = false) ∧
      members result' = (identities done).foldl fold (members result)) ?_ ⟨hresult, rfl⟩
    hstorage hyields hfuel
  rintro done key result' ⟨hresult', hfold⟩
  refine ⟨hcanonical _ _ hresult' (isNegativeZero_toCanonicalize key.1), ?_⟩
  rw [hmembers _ _ (isEmpty_toCanonicalize key.2), hfold, identity_toCanonicalize,
    identities_concat, foldl_append]
  rfl

section

variable (hagrees : Agrees other setData valid numSize keys)
  (hmachine : Unchanged setData valid machine)
include hagrees hmachine

theorem union_gives (hproper : IsProper setData) (hfuel : keys.length < fuel) :
    GivesSet (builtinSetUnion overflow fuel (some other)) machine
      (members setData ++ ((identities keys).filter (· ∉ members setData)).eraseDups) := by
  refine (getSetRecord_gives hagrees hmachine).bind fun otherRec next hrec => ?_
  obtain ⟨-, hrec, hnext⟩ := hrec
  refine (hrec.keys next hnext).bind fun keysIter next hkeys => ?_
  refine .bind_of_ok rfl ((collectMembers_gives insertNew
    (fun _ _ h h' => canonical_appendNew h h') (fun _ _ h => members_appendNew _ h)
    (hkeys.1 ▸ hproper.canonical) hkeys.1 hkeys.2 hfuel).bind fun result last hresult => ?_)
  obtain ⟨hstorage, hcanonical, hmembers⟩ := hresult
  rw [hkeys.1] at hmembers
  refine .pure ⟨hstorage.trans hmachine.1.symm, ⟨?_, hcanonical⟩, ?_⟩
  · rw [hmembers]
    exact nodup_foldl_insertNew hproper.distinct
  · rw [hmembers, foldl_insertNew]

theorem intersection_gives_of_le (hproper : IsProper setData) (hfuel : setData.length < fuel)
    (hsize : (members setData).length ≤ castSize overflow numSize) :
    GivesSet (builtinSetIntersection overflow fuel (some other)) machine
      ((members setData).filter (· ∈ identities keys)) := by
  refine (getSetRecord_gives hagrees hmachine).bind fun otherRec next hrec => ?_
  obtain ⟨hrecSize, hrec, hnext⟩ := hrec
  refine .bind_of_ok rfl ?_
  rw [hnext.1, setDataSize_eq, hrecSize, if_pos hsize]
  refine (intersectElements_gives hrec hnext hproper hfuel).bind fun result last hresult => ?_
  obtain ⟨hstorage, hcanonical, hmembers⟩ := hresult
  refine .pure ⟨hstorage.trans hmachine.1.symm, ⟨?_, hcanonical⟩, hmembers⟩
  rw [hmembers]
  exact hproper.distinct.filter _

theorem intersection_gives_of_lt
    (hfuel : keys.length < fuel) (hsize : castSize overflow numSize < (members setData).length) :
    GivesSet (builtinSetIntersection overflow fuel (some other)) machine
      ((identities keys).filter (· ∈ members setData)).eraseDups := by
  refine (getSetRecord_gives hagrees hmachine).bind fun otherRec next hrec => ?_
  obtain ⟨hrecSize, hrec, hnext⟩ := hrec
  refine .bind_of_ok rfl ?_
  rw [hnext.1, setDataSize_eq, hrecSize, if_neg (Nat.not_le_of_lt hsize)]
  refine (hrec.keys next hnext).bind fun keysIter next hkeys => ?_
  refine (collectMembers_gives
    (fun list a => if decide (a ∈ members setData) then insertNew list a else list)
    (fun result value h h' => ?_) (fun result value h => ?_)
    (fun _ he => absurd he not_mem_nil) hkeys.1 hkeys.2 hfuel).bind
    fun result last hresult => ?_
  · split
    · exact canonical_appendNew h h'
    · exact h
  · by_cases hin : value.identity ∈ members setData
    · rw [if_pos (setDataHas_iff.mpr hin), if_pos (decide_eq_true hin), members_appendNew _ h]
    · rw [if_neg (mt setDataHas_iff.mp hin), if_neg (by simpa using hin)]
  · obtain ⟨hstorage, hcanonical, hmembers⟩ := hresult
    rw [← foldl_filter, foldl_insertNew] at hmembers
    have hexpected : members result =
        ((identities keys).filter (· ∈ members setData)).eraseDups := by
      rw [hmembers, show members [] = [] from rfl, nil_append]
      simp
    refine .pure ⟨hstorage.trans hmachine.1.symm, ⟨?_, hcanonical⟩, hexpected⟩
    rw [hexpected]
    exact nodup_eraseDups _

theorem difference_gives (hproper : IsProper setData)
    (hfuel : setData.length + keys.length < fuel) :
    GivesSet (builtinSetDifference overflow fuel (some other)) machine
      ((members setData).filter (· ∉ identities keys)) := by
  refine (getSetRecord_gives hagrees hmachine).bind fun otherRec next hrec => ?_
  obtain ⟨-, hrec, hnext⟩ := hrec
  refine .bind_of_ok rfl ?_
  rw [hnext.1]
  split
  · refine (removeElements_gives hrec hnext (by omega)).bind fun result last hresult => ?_
    obtain ⟨hstorage, rfl⟩ := hresult
    refine .pure ⟨hstorage.trans hmachine.1.symm, ⟨?_, fun e he => ?_⟩, members_map_bury _ _⟩
    · rw [members_map_bury]
      exact hproper.distinct.filter _
    · obtain ⟨e', he', rfl⟩ := List.mem_map.mp he
      by_cases hin : e'.toValue.identity ∈ identities keys
      · rw [bury_of_mem hin]
        rfl
      · rw [bury_of_not_mem hin]
        exact hproper.canonical e' he'
  · refine (hrec.keys next hnext).bind fun keysIter next hkeys => ?_
    refine (collectMembers_gives List.erase (fun _ value h _ => canonical_eraseData h value)
      (fun _ value _ => members_eraseData _ value) hproper.canonical hkeys.1 hkeys.2
      (by omega)).bind fun result last hresult => ?_
    obtain ⟨hstorage, hcanonical, hmembers⟩ := hresult
    rw [← diff_eq_foldl, hproper.distinct.sdiff_eq_filter] at hmembers
    refine .pure ⟨hstorage.trans hmachine.1.symm, ⟨?_, hcanonical⟩, hmembers⟩
    rw [hmembers]
    exact hproper.distinct.filter _

theorem symmetricDifference_gives (hproper : IsProper setData) (hfuel : keys.length < fuel) :
    GivesSet (builtinSetSymmetricDifference overflow fuel (some other)) machine
      ((members setData).filter (· ∉ identities keys) ++
        ((identities keys).filter (· ∉ members setData)).eraseDups) := by
  refine (getSetRecord_gives hagrees hmachine).bind fun otherRec next hrec => ?_
  obtain ⟨-, hrec, hnext⟩ := hrec
  refine (hrec.keys next hnext).bind fun keysIter next hkeys => ?_
  refine .bind_of_ok rfl ((collectMembers_gives (toggle (members setData))
    (fun result value h h' => ?_) (fun result value h => ?_)
    (hkeys.1 ▸ hproper.canonical) hkeys.1 hkeys.2 hfuel).bind fun result last hresult => ?_)
  · split
    · exact canonical_eraseData h value
    · exact canonical_appendNew h h'
  · unfold toggle
    by_cases hin : value.identity ∈ members setData
    · rw [if_pos (setDataHas_iff.mpr hin), if_pos hin, members_eraseData]
    · rw [if_neg (mt setDataHas_iff.mp hin), if_neg hin, members_appendNew _ h]
  · obtain ⟨hstorage, hcanonical, hmembers⟩ := hresult
    rw [hkeys.1] at hmembers
    refine .pure ⟨hstorage.trans hmachine.1.symm, ⟨?_, hcanonical⟩, ?_⟩
    · rw [hmembers]
      exact nodup_foldl_toggle hproper.distinct _
    · rw [hmembers, foldl_toggle hproper.distinct]

theorem isDisjointFrom_gives (hfuel : setData.length + keys.length < fuel) :
    GivesAnswer (builtinSetIsDisjointFrom overflow fuel (some other)) machine
      (∀ a ∈ members setData, a ∉ identities keys) := by
  refine (getSetRecord_gives hagrees hmachine).bind fun otherRec next hrec => ?_
  obtain ⟨-, hrec, hnext⟩ := hrec
  refine .bind_of_ok rfl ?_
  rw [hnext.1]
  split
  · refine (searchElements_gives hrec hnext (by omega)).mono fun answer last hanswer => ?_
    exact ⟨hanswer.1.trans hmachine.1.symm, by simpa using hanswer.2⟩
  · refine (hrec.keys next hnext).bind fun keysIter next hkeys => ?_
    refine (searchKeys_gives hkeys.1 hkeys.2 (by omega)).mono fun answer last hanswer => ?_
    refine ⟨hanswer.1.trans hmachine.1.symm, hanswer.2.trans ⟨fun h a ha hin => ?_, fun h => ?_⟩⟩
    · obtain ⟨key, hkey, rfl⟩ := mem_identities.mp hin
      exact h key hkey (setDataHas_iff.mpr ha)
    · exact fun key hkey hhas => h _ (setDataHas_iff.mp hhas) (mem_identities.mpr ⟨key, hkey, rfl⟩)

theorem isSubsetOf_gives (hfuel : setData.length < fuel) :
    GivesAnswer (builtinSetIsSubsetOf overflow fuel (some other)) machine
      ((members setData).length ≤ castSize overflow numSize ∧
        ∀ a ∈ members setData, a ∈ identities keys) := by
  refine (getSetRecord_gives hagrees hmachine).bind fun otherRec next hrec => ?_
  obtain ⟨hrecSize, hrec, hnext⟩ := hrec
  refine .bind_of_ok rfl ?_
  rw [hnext.1, setDataSize_eq, hrecSize]
  split
  · rename_i hlarge
    exact .pure ⟨hnext.1.trans hmachine.1.symm, nofun, fun h => absurd h.1 (Nat.not_le_of_lt hlarge)⟩
  · rename_i hsmall
    refine (searchElements_gives hrec hnext hfuel).mono fun answer last hanswer => ?_
    refine ⟨hanswer.1.trans hmachine.1.symm, hanswer.2.trans ?_⟩
    simpa using fun _ => Nat.le_of_not_lt hsmall

theorem isSupersetOf_gives (hfuel : keys.length < fuel) :
    GivesAnswer (builtinSetIsSupersetOf overflow fuel (some other)) machine
      (castSize overflow numSize ≤ (members setData).length ∧
        ∀ a ∈ identities keys, a ∈ members setData) := by
  refine (getSetRecord_gives hagrees hmachine).bind fun otherRec next hrec => ?_
  obtain ⟨hrecSize, hrec, hnext⟩ := hrec
  refine .bind_of_ok rfl ?_
  rw [hnext.1, setDataSize_eq, hrecSize]
  split
  · rename_i hsmall
    exact .pure ⟨hnext.1.trans hmachine.1.symm, nofun, fun h => absurd h.1 (Nat.not_le_of_lt hsmall)⟩
  · rename_i hlarge
    refine (hrec.keys next hnext).bind fun keysIter next hkeys => ?_
    refine (searchKeys_gives hkeys.1 hkeys.2 hfuel).mono fun answer last hanswer => ?_
    refine ⟨hanswer.1.trans hmachine.1.symm, hanswer.2.trans ⟨fun h => ?_, fun h key hkey => ?_⟩⟩
    · refine ⟨Nat.le_of_not_lt hlarge, fun a ha => ?_⟩
      obtain ⟨key, hkey, rfl⟩ := mem_identities.mp ha
      exact setDataHas_iff.mp (Bool.of_not_eq_false (h key hkey))
    · have hhas := setDataHas_iff.mpr (h.2 _ (mem_identities.mpr ⟨key, hkey, rfl⟩))
      rw [hhas]
      exact Bool.noConfusion

end

end Results

/-- What the seven methods answer, in terms of the members of the set and of the keys. -/
structure Algebra (overflow : Double → Nat) (fuel : Nat) (other : SetLikeObject W)
    (machine : Machine W) (size : Nat) (own others : List Value.Identity) : Prop where
  union : GivesSet (builtinSetUnion overflow fuel (some other)) machine
    (own ++ (others.filter (· ∉ own)).eraseDups)
  intersection : GivesSet (builtinSetIntersection overflow fuel (some other)) machine
    (if own.length ≤ size then own.filter (· ∈ others) else (others.filter (· ∈ own)).eraseDups)
  difference : GivesSet (builtinSetDifference overflow fuel (some other)) machine
    (own.filter (· ∉ others))
  symmetricDifference : GivesSet (builtinSetSymmetricDifference overflow fuel (some other)) machine
    (own.filter (· ∉ others) ++ (others.filter (· ∉ own)).eraseDups)
  isDisjointFrom : GivesAnswer (builtinSetIsDisjointFrom overflow fuel (some other)) machine
    (∀ a ∈ own, a ∉ others)
  isSubsetOf : GivesAnswer (builtinSetIsSubsetOf overflow fuel (some other)) machine
    (own.length ≤ size ∧ ∀ a ∈ own, a ∈ others)
  isSubsetOf_of_count : others.eraseDups.length ≤ size →
    GivesAnswer (builtinSetIsSubsetOf overflow fuel (some other)) machine (∀ a ∈ own, a ∈ others)
  isSupersetOf : GivesAnswer (builtinSetIsSupersetOf overflow fuel (some other)) machine
    (size ≤ own.length ∧ ∀ a ∈ others, a ∈ own)
  isSupersetOf_of_count : size ≤ others.eraseDups.length →
    GivesAnswer (builtinSetIsSupersetOf overflow fuel (some other)) machine (∀ a ∈ others, a ∈ own)

variable {overflow : Double → Nat} {numSize : Double}

theorem castSize_eq {size : Nat} (hsize : numSize.truncated = some (size : Int))
    (hfits : size < 2 ^ 64) :
    castSize overflow numSize = size := by
  unfold castSize
  rw [hsize]
  dsimp only
  rw [if_pos (by exact_mod_cast hfits), Int.toNat_natCast]

theorem length_le_of_subset {own others : List Value.Identity} (hown : own.Nodup)
    (h : ∀ a ∈ own, a ∈ others) : own.length ≤ others.eraseDups.length :=
  (hown.subperm fun a ha => List.mem_eraseDups.mpr (h a ha)).length_le

variable {machine : Machine W}

theorem GivesAnswer.congr {method : UserCode W Bool} {P Q : Prop}
    (h : GivesAnswer method machine P) (hiff : P ↔ Q) : GivesAnswer method machine Q :=
  h.mono fun _ _ hanswer => ⟨hanswer.1, hanswer.2.trans hiff⟩

variable {other : SetLikeObject W}

theorem algebra_of_agrees {fuel : Nat} {valid : W → Prop} {keys : List JSValue}
    (hproper : IsProper machine.storage) (hvalid : valid machine.world)
    (hagrees : Agrees other machine.storage valid numSize keys)
    (hfuel : machine.storage.length + keys.length < fuel) :
    Algebra overflow fuel other machine (castSize overflow numSize) (members machine.storage)
      (identities keys) := by
  have hmachine : Unchanged machine.storage valid machine := ⟨rfl, hvalid⟩
  have hkeys : keys.length < fuel := by omega
  have hown : machine.storage.length < fuel := by omega
  have hsubset := @isSubsetOf_gives W overflow fuel _ _ _ _ _ _ hagrees hmachine hown
  have hsuperset := @isSupersetOf_gives W overflow fuel _ _ _ _ _ _ hagrees hmachine hkeys
  refine ⟨union_gives hagrees hmachine hproper hkeys, ?_,
    difference_gives hagrees hmachine hproper hfuel,
    symmetricDifference_gives hagrees hmachine hproper hkeys,
    isDisjointFrom_gives hagrees hmachine hfuel, hsubset, fun hcount => hsubset.congr ?_,
    hsuperset, fun hcount => hsuperset.congr ?_⟩
  · split
    · exact intersection_gives_of_le hagrees hmachine hproper hown ‹_›
    · exact intersection_gives_of_lt hagrees hmachine hkeys (Nat.lt_of_not_le ‹_›)
  · exact ⟨And.right, fun h => ⟨(length_le_of_subset hproper.distinct h).trans hcount, h⟩⟩
  · refine ⟨And.right, fun h => ⟨hcount.trans ?_, h⟩⟩
    have hnodup := nodup_eraseDups (identities keys)
    exact (hnodup.subperm fun a ha => h a (List.mem_eraseDups.mp ha)).length_le

theorem getSetRecord_has {next : Machine W} {otherRec : SetRecord W}
    (h : getSetRecord overflow (some other) machine = some (.ok otherRec, next)) :
    ∃ machine' next', other.has machine' = some (.ok (some otherRec.has), next') := by
  obtain ⟨numSize, machine₁, -, h⟩ := bind_eq_ok h
  split at h
  · cases h
  · split at h
    · cases h
    · obtain ⟨has, machine₂, hhas, h⟩ := bind_eq_ok h
      cases has with
      | none => cases h
      | some has =>
        obtain ⟨keysMethod, machine₃, -, h⟩ := bind_eq_ok h
        cases keysMethod with
        | none => cases h
        | some keysMethod =>
          cases h
          exact ⟨_, _, hhas⟩

/-- Calls that answer false leave the number of elements as it is. -/
def GrowsWhereTrue (has : Value → UserCode W Bool) : Prop :=
  ∀ machine value next, has value machine = some (.ok false, next) →
    next.storage.length = machine.storage.length

theorem intersectElements_eq_specified {otherRec : SetRecord W}
    (hgrows : GrowsWhereTrue otherRec.has) (fuel : Nat) {s : IndexState}
    (hsize : s.thisSize = machine.storage.length) :
    loop (intersectElementsBody otherRec) fuel s machine =
      loop (specifiedIntersectElementsBody otherRec) fuel s machine := by
  refine loop_congr (fun s machine => s.thisSize = machine.storage.length)
    (fun s machine hsize => ?_) (fun s machine s' next hsize hbody => ?_) fuel hsize
  · unfold intersectElementsBody specifiedIntersectElementsBody
    split
    · refine bind_congr fun own next hown => ?_
      cases hown
      dsimp only
      split
      · rfl
      · refine bind_congr fun inOther next hhas => ?_
        cases inOther with
        | true => rfl
        | false =>
          have hlength := (hgrows _ _ _ hhas).trans hsize.symm
          show some (_, next) = some (_, next)
          rw [hlength]
          rfl
    · rfl
  · unfold intersectElementsBody at hbody
    split at hbody
    · obtain ⟨own, machine', hown, hbody⟩ := bind_eq_ok hbody
      cases hown
      dsimp only at hbody
      split at hbody
      · cases hbody
        exact hsize
      · obtain ⟨inOther, machine', hhas, hbody⟩ := bind_eq_ok hbody
        cases inOther with
        | true =>
          obtain ⟨own, machine'', hown, hbody⟩ := bind_eq_ok hbody
          cases hown
          cases hbody
          rfl
        | false =>
          cases hbody
          exact hsize.trans (hgrows _ _ _ hhas).symm
    · cases hbody

theorem intersection_eq_specified (overflow : Double → Nat) (fuel : Nat)
    (hgrows : ∀ machine has next, other.has machine = some (.ok (some has), next) →
      GrowsWhereTrue has) (machine : Machine W) :
    builtinSetIntersection overflow fuel (some other) machine =
      specifiedIntersection overflow fuel (some other) machine := by
  refine bind_congr fun otherRec next hrec => ?_
  obtain ⟨machine', next', hhas⟩ := getSetRecord_has hrec
  refine bind_congr fun own next hown => ?_
  cases hown
  split
  · exact bind_congr_left (intersectElements_eq_specified (hgrows _ _ _ hhas) fuel rfl) _
  · rfl

def ofKeys (numSize : Double) (keys : List JSValue) : SetLikeObject (List JSValue) where
  size := pure numSize
  has := pure (some fun value => pure (decide (value.identity ∈ identities keys)))
  keys := pure (some fun machine => some (.ok
    { iteratorStepValue := fun machine => some (.ok machine.world.head?,
        { machine with world := machine.world.tail })
      iteratorClose := pure () }, { machine with world := keys }))

theorem ofKeys_agrees (hnumber : numSize.isnan = false) (hnegative : isNegative numSize = false)
    (keys : List JSValue) (setData : SetObjectData) :
    Agrees (ofKeys numSize keys) setData (fun _ => True) numSize keys := by
  have hyields : ∀ rest : List JSValue, Yields
      { iteratorStepValue := fun machine => some (.ok machine.world.head?,
          { machine with world := machine.world.tail })
        iteratorClose := pure () } setData rest rest := by
    intro rest
    induction rest with
    | nil => exact ⟨[], rfl⟩
    | cons key rest ih => exact ⟨rest, rfl, ⟨rest, rfl⟩, ih⟩
  refine ⟨hnumber, hnegative, fun machine h => .pure ⟨rfl, h⟩, fun machine h => .pure ⟨h, _, rfl,
    fun machine value h _ => .pure ⟨rfl, h⟩⟩, fun machine h => .pure ⟨h, _, rfl,
    fun machine h => ⟨_, _, rfl, h.1, hyields keys⟩⟩⟩

/-- The methods give the sets and the truth values of the algebra, with a size in the place of the
count for two of them; and `intersection` visits what is added as specified, where no call that
answers false adds anything. -/
theorem set_methods_give_algebra :
    (∀ (W : Type) (overflow : Double → Nat) (fuel : Nat) (other : SetLikeObject W)
      (machine : Machine W) (valid : W → Prop) (numSize : Double) (keys : List JSValue),
      IsProper machine.storage → valid machine.world →
      Agrees other machine.storage valid numSize keys →
      machine.storage.length + keys.length < fuel →
      Algebra overflow fuel other machine (castSize overflow numSize) (members machine.storage)
        (identities keys)) ∧
    (∀ (overflow : Double → Nat) (numSize : Double) (size : Nat),
      numSize.truncated = some (size : Int) → size < 2 ^ 64 → castSize overflow numSize = size) ∧
    ∀ (W : Type) (overflow : Double → Nat) (fuel : Nat) (other : SetLikeObject W),
      (∀ machine has next, other.has machine = some (.ok (some has), next) → GrowsWhereTrue has) →
      ∀ machine, builtinSetIntersection overflow fuel (some other) machine =
        specifiedIntersection overflow fuel (some other) machine :=
  ⟨fun _ _ _ _ _ _ _ _ hproper hvalid hagrees hfuel =>
      algebra_of_agrees hproper hvalid hagrees hfuel,
    fun _ _ _ hsize hfits => castSize_eq hsize hfits,
    fun _ overflow fuel _ hgrows machine => intersection_eq_specified overflow fuel hgrows machine⟩

def oneKey : JSValue := ⟨.int32 1, isEmpty_one⟩

def twoKey : JSValue := ⟨.int32 2, isEmpty_two⟩

theorem isNegative_ofInt32 (i : Int32) : isNegative (.ofInt32 i) = decide (i.toInt < 0) := by
  rw [isNegative, Double.truncated_ofInt32]

/-- A set of one and two, and an object of two. -/
theorem set_methods_of_one_and_two : Algebra (fun _ => 0) 4 (ofKeys (.ofInt32 1) [twoKey])
      ⟨[], [.ofValue oneKey.1, .ofValue twoKey.1]⟩ 1
      (members [.ofValue oneKey.1, .ofValue twoKey.1]) (identities [twoKey]) ∧
    builtinSetIntersection (fun _ => 0) 4 (some (ofKeys (.ofInt32 2) [twoKey]))
        ⟨[], [.ofValue oneKey.1]⟩ =
      specifiedIntersection (fun _ => 0) 4 (some (ofKeys (.ofInt32 2) [twoKey]))
        ⟨[], [.ofValue oneKey.1]⟩ := by
  constructor
  · have hsize := set_methods_give_algebra.2.1 (fun _ => 0) (.ofInt32 1) 1
      (Double.truncated_ofInt32 1) (by decide)
    rw [← hsize]
    exact set_methods_give_algebra.1 _ _ _ _ _ (fun _ => True) (.ofInt32 1) [twoKey]
      ⟨by decide, by decide⟩ trivial
      (ofKeys_agrees (Double.isnan_ofInt32 1) ((isNegative_ofInt32 1).trans (by decide)) _ _)
      (by decide)
  · refine set_methods_give_algebra.2.2 _ _ _ _ (fun machine has next hhas => ?_) _
    cases hhas
    intro machine value next h
    have hsame : some machine = some next := congrArg (Option.map Prod.snd) h
    exact Option.some.inj hsame ▸ rfl

/-- `has` adds two to the set when it is asked for one, which it does not have. -/
def grower : SetLikeObject Unit where
  size := pure (.ofInt32 1)
  has := pure (some fun value machine =>
    if value = oneKey.1 then
      some (.ok false, { machine with storage := machine.storage ++ [.ofValue twoKey.1] })
    else some (.ok true, machine))
  keys := pure (some (pure ⟨pure none, pure ()⟩))

/-- The answer of a method, and the members of a set that it gives. -/
def answerOf (result : Option (Except SetError Bool × Machine W)) : Option Bool :=
  result.bind fun answer => answer.1.toOption

def membersOf (result : Option (Except SetError SetObject × Machine W)) :
    Option (List Value.Identity) :=
  result.bind fun answer => answer.1.toOption.map fun set => members set.storage

/-- Equal sets, where the other gives a size of zero or an infinite size that is cast to zero. An
empty object that gives a size of five. An element that is added and not visited. -/
theorem set_methods_differ :
    answerOf (builtinSetIsSubsetOf (fun _ => 0) 9 (some (ofKeys (.ofInt32 0) [oneKey]))
      ⟨[], [.ofValue oneKey.1]⟩) = some false ∧
    answerOf (builtinSetIsSubsetOf (fun _ => 0) 9 (some (ofKeys 0x7ff0000000000000 [oneKey]))
      ⟨[], [.ofValue oneKey.1]⟩) = some false ∧
    answerOf (builtinSetIsSupersetOf (fun _ => 0) 9 (some (ofKeys (.ofInt32 5) []))
      ⟨[], [.ofValue oneKey.1]⟩) = some false ∧
    membersOf (builtinSetIntersection (fun _ => 0) 9 (some grower)
      ⟨(), [.ofValue oneKey.1]⟩) = some [] ∧
    membersOf (specifiedIntersection (fun _ => 0) 9 (some grower)
      ⟨(), [.ofValue oneKey.1]⟩) = some [twoKey.1.identity] := by
  refine ⟨?_, ?_, ?_, ?_, ?_⟩ <;> decide +kernel

end Escargot.Builtins
