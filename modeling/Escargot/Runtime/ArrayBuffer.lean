/-
# Array buffers and their views

A buffer, its backing store, and the views that observe it. A view keeps its
extent in fields of its own, and every change of the store calls the observer
of each view. The abstract view keeps only what it was created with; its extent
is computed from the length of the buffer when it is asked for.

Lengths are numbers without a bound: `toIndex` gives less than `2 ^ 53`, and no
sum or product of the code leaves 64 bits below that.
-/

import Escargot.Foundation.Run

namespace Escargot.Runtime

open List Option Foundation

inductive TypedArrayType
  | int8
  | int16
  | int32
  | uint8
  | uint16
  | uint32
  | uint8Clamped
  | float16
  | float32
  | float64
  | bigInt64
  | bigUint64
  deriving DecidableEq

/-- `TypedArrayHelper::elementSizeTable`. -/
def TypedArrayType.elementSize : TypedArrayType → Nat
  | int8 | uint8 | uint8Clamped => 1
  | int16 | uint16 | float16 => 2
  | int32 | uint32 | float32 => 4
  | float64 | bigInt64 | bigUint64 => 8

theorem TypedArrayType.elementSize_pos (type : TypedArrayType) : 0 < type.elementSize := by
  cases type <;> decide

/-- The classes derived from `ArrayBufferView`. -/
inductive ViewKind
  | typedArray (type : TypedArrayType)
  | dataView
  deriving DecidableEq

def ViewKind.elementSize : ViewKind → Nat
  | typedArray type => type.elementSize
  | dataView => 1

theorem ViewKind.elementSize_pos (kind : ViewKind) : 0 < kind.elementSize := by
  cases kind with
  | typedArray type => exact type.elementSize_pos
  | dataView => exact Nat.one_pos

/-- `ArrayBufferView`. Addresses are numbers, and the null pointer is `none`. -/
structure ArrayBufferView where
  kind : ViewKind
  cachedRawBufferAddress : Option Nat
  byteLength : Nat
  byteOffset : Nat
  arrayLength : Nat
  originalByteLength : Nat
  originalByteOffset : Nat
  auto : Bool
  wasResetByInvalidByteLength : Bool
  deriving DecidableEq

def ArrayBufferView.updateBufferCallback (view : ArrayBufferView) (bufferByteLength : Nat)
    (bufferStartAddress : Option Nat) : ArrayBufferView :=
  let start :=
    if view.kind = .dataView ∧ bufferByteLength < view.byteLength then none else bufferStartAddress
  { view with cachedRawBufferAddress := start.map (· + view.byteOffset) }

def ArrayBufferView.arrayBufferObserver (isResizable : Bool) (newAddress : Option Nat)
    (newByteLength : Nat) (view : ArrayBufferView) : ArrayBufferView :=
  let size := view.kind.elementSize
  let reset :=
    if view.auto then decide (newByteLength < view.originalByteOffset)
    else decide (view.originalByteOffset + view.originalByteLength > newByteLength)
  let updated :=
    if reset then
      { view with
        arrayLength := 0, byteLength := 0, byteOffset := 0, wasResetByInvalidByteLength := true }
    else if view.auto then
      let byteLength :=
        if newByteLength > view.originalByteOffset then
          (newByteLength - view.originalByteOffset) / size * size
        else 0
      { view with
        byteOffset := view.originalByteOffset
        byteLength
        arrayLength := byteLength / size
        wasResetByInvalidByteLength := false }
    else if isResizable = true ∧
        newByteLength ≥ view.originalByteOffset + view.originalByteLength then
      { view with
        byteOffset := view.originalByteOffset
        byteLength := view.originalByteLength
        arrayLength := view.originalByteLength / size
        wasResetByInvalidByteLength := false }
    else { view with wasResetByInvalidByteLength := false }
  updated.updateBufferCallback newByteLength
    (if reset = true ∨ newByteLength = 0 then none else newAddress)

/-- `NonSharedBackingStore`. The largest length is only used by a resizable store. -/
structure BackingStore where
  data : Option Nat
  byteLength : Nat
  maxByteLength : Nat
  isResizable : Bool

structure ArrayBuffer where
  isResizable : Bool
  backingStore : Option BackingStore

def ArrayBuffer.data (buffer : ArrayBuffer) : Option Nat := buffer.backingStore.bind (·.data)

def ArrayBuffer.byteLength (buffer : ArrayBuffer) : Nat :=
  (buffer.backingStore.map (·.byteLength)).getD 0

def ArrayBuffer.isDetachedBuffer (buffer : ArrayBuffer) : Bool := buffer.backingStore.isNone

structure ObservedBuffer where
  buffer : ArrayBuffer
  views : List ArrayBufferView

variable (observed : ObservedBuffer) (newByteLength : Nat) (newAddress : Option Nat)

def ObservedBuffer.bufferUpdated (newByteLength : Nat) : ObservedBuffer :=
  { observed with
    views := observed.views.map
      (ArrayBufferView.arrayBufferObserver observed.buffer.isResizable newAddress newByteLength) }

/-- `updateBackingStore`. The flag changes after the views were told. -/
def ObservedBuffer.updateBackingStore (store : Option BackingStore) : ObservedBuffer :=
  let replaced : ObservedBuffer :=
    { observed with buffer := { observed.buffer with backingStore := store } }
  match store with
  | some bs =>
    let updated := replaced.bufferUpdated bs.data bs.byteLength
    { updated with buffer := { updated.buffer with isResizable := bs.isResizable } }
  | none => replaced.bufferUpdated none 0

def ObservedBuffer.setBuffer (kind : ViewKind)
    (byteOffset byteLength arrayLength : Nat) (isAuto : Bool) : ObservedBuffer :=
  let view : ArrayBufferView :=
    { kind, byteOffset, byteLength, arrayLength
      cachedRawBufferAddress := none
      originalByteLength := byteLength
      originalByteOffset := byteOffset
      auto := isAuto
      wasResetByInvalidByteLength := false }
  { observed with
    views := observed.views ++
      [view.updateBufferCallback observed.buffer.byteLength observed.buffer.data] }

/-- What can happen to a buffer. The length of a data view can be left out, or given as
`undefined`, or as a number. A reallocation gives the address of the new block. -/
inductive BufferOp
  | newTypedArray (type : TypedArrayType) (byteOffset : Nat) (length : Option Nat)
  | newDataView (byteOffset : Nat) (byteLength : Option (Option Nat))
  | resize (newByteLength : Nat)
  | reallocate (newByteLength : Nat) (newAddress : Option Nat)
  | detach
  | attach (store : BackingStore)

/-- The error an operation throws. -/
inductive BufferError
  | typeError
  | rangeError

def ObservedBuffer.initializeTypedArrayFromArrayBuffer
    (type : TypedArrayType) (offset : Nat) (length : Option Nat) :
    Except BufferError ObservedBuffer :=
  let elementSize := type.elementSize
  let bufferByteLength := observed.buffer.byteLength
  if offset % elementSize ≠ 0 then .error .rangeError
  else if observed.buffer.isDetachedBuffer then .error .typeError
  else
    match length with
    | none =>
      if (bufferByteLength % elementSize ≠ 0 ∧ observed.buffer.isResizable = false) ∨
          bufferByteLength < offset then .error .rangeError
      else
        let newByteLength := bufferByteLength - offset
        .ok (observed.setBuffer (.typedArray type) offset newByteLength
          (newByteLength / elementSize) true)
    | some newLength =>
      let newByteLength := newLength * elementSize
      if bufferByteLength < newByteLength ∨ offset > bufferByteLength - newByteLength then
        .error .rangeError
      else
        .ok (observed.setBuffer (.typedArray type) offset newByteLength
          (newByteLength / elementSize) false)

/-- `builtinDataViewConstructor`. The last argument of `setBuffer` is `argc < 3`. -/
def ObservedBuffer.builtinDataViewConstructor (offset : Nat)
    (byteLength : Option (Option Nat)) : Except BufferError ObservedBuffer :=
  let bufferByteLength := observed.buffer.byteLength
  if observed.buffer.isDetachedBuffer then .error .typeError
  else if offset > bufferByteLength then .error .rangeError
  else
    match byteLength with
    | some (some viewByteLength) =>
      if offset + viewByteLength > bufferByteLength then .error .rangeError
      else .ok (observed.setBuffer .dataView offset viewByteLength 0 false)
    | some none => .ok (observed.setBuffer .dataView offset (bufferByteLength - offset) 0 false)
    | none => .ok (observed.setBuffer .dataView offset (bufferByteLength - offset) 0 true)

/-- `builtinArrayBufferResize` and `NonSharedBackingStore::resize`. -/
def ObservedBuffer.resize : Except BufferError ObservedBuffer :=
  if observed.buffer.isResizable = false then .error .typeError
  else
    match observed.buffer.backingStore with
    | none => .error .typeError
    | some bs =>
      if newByteLength > bs.maxByteLength then .error .rangeError
      else
        let store := { bs with byteLength := newByteLength }
        let replaced : ObservedBuffer :=
          { observed with buffer := { observed.buffer with backingStore := some store } }
        .ok (replaced.bufferUpdated bs.data newByteLength)

/-- `NonSharedBackingStore::reallocate`. A detached buffer has no store to call it on. -/
def ObservedBuffer.reallocate : ObservedBuffer :=
  match observed.buffer.backingStore with
  | none => observed
  | some bs =>
    if bs.byteLength = newByteLength then observed
    else
      let store := { bs with data := newAddress, byteLength := newByteLength }
      let replaced : ObservedBuffer :=
        { observed with buffer := { observed.buffer with backingStore := some store } }
      replaced.bufferUpdated newAddress newByteLength

/-- One operation, which may throw. -/
def ObservedBuffer.perform : BufferOp → Except BufferError ObservedBuffer
  | .newTypedArray type byteOffset length =>
    observed.initializeTypedArrayFromArrayBuffer type byteOffset length
  | .newDataView byteOffset byteLength => observed.builtinDataViewConstructor byteOffset byteLength
  | .resize newByteLength => observed.resize newByteLength
  | .reallocate newByteLength newAddress => .ok (observed.reallocate newByteLength newAddress)
  | .detach => .ok (observed.updateBackingStore none)
  | .attach store => .ok ((observed.updateBackingStore none).updateBackingStore (some store))

def settle {S : Type} (state : S) : Except BufferError S → S × Option BufferError
  | .ok next => (next, none)
  | .error e => (state, some e)

def ObservedBuffer.step (op : BufferOp) : Option (ObservedBuffer × Option BufferError) :=
  some (settle observed (observed.perform op))

/-- What a view was created with: without a length it follows the length of its buffer. -/
structure SpecView where
  kind : ViewKind
  byteOffset : Nat
  byteLength : Option Nat

/-- Where a view lies and how many bytes and elements it has. -/
structure Extent where
  byteOffset : Nat
  byteLength : Nat
  arrayLength : Nat

def SpecView.extent (view : SpecView) (bufferByteLength : Nat) : Extent :=
  let size := view.kind.elementSize
  match view.byteLength with
  | none =>
    if view.byteOffset ≤ bufferByteLength then
      let elements := (bufferByteLength - view.byteOffset) / size
      ⟨view.byteOffset, elements * size, elements⟩
    else ⟨0, 0, 0⟩
  | some byteLength =>
    if view.byteOffset + byteLength ≤ bufferByteLength then
      ⟨view.byteOffset, byteLength, byteLength / size⟩
    else ⟨0, 0, 0⟩

/-- The buffer with the views as they were created. -/
structure SpecBuffer where
  buffer : ArrayBuffer
  views : List SpecView

def SpecView.check (view : SpecView) (buffer : ArrayBuffer) : Except BufferError Unit :=
  let size := view.kind.elementSize
  if view.byteOffset % size ≠ 0 then .error .rangeError
  else if buffer.isDetachedBuffer then .error .typeError
  else
    match view.byteLength with
    | none =>
      if buffer.byteLength < view.byteOffset then .error .rangeError
      else if buffer.isResizable = false ∧ buffer.byteLength % size ≠ 0 then .error .rangeError
      else .ok ()
    | some byteLength =>
      if buffer.byteLength < view.byteOffset + byteLength then .error .rangeError else .ok ()

def SpecBuffer.perform (spec : SpecBuffer) : BufferOp → Except BufferError SpecBuffer
  | .newTypedArray type byteOffset length =>
    let view : SpecView := ⟨.typedArray type, byteOffset, length.map (· * type.elementSize)⟩
    (view.check spec.buffer).map fun _ => { spec with views := spec.views ++ [view] }
  | .newDataView byteOffset byteLength =>
    let view : SpecView := ⟨.dataView, byteOffset, byteLength.join⟩
    (view.check spec.buffer).map fun _ => { spec with views := spec.views ++ [view] }
  | .resize newByteLength =>
    if spec.buffer.isResizable = false then .error .typeError
    else
      match spec.buffer.backingStore with
      | none => .error .typeError
      | some bs =>
        if newByteLength > bs.maxByteLength then .error .rangeError
        else
          let store := { bs with byteLength := newByteLength }
          .ok { spec with buffer := { spec.buffer with backingStore := some store } }
  | .reallocate newByteLength newAddress =>
    match spec.buffer.backingStore with
    | none => .ok spec
    | some bs =>
      if bs.byteLength = newByteLength then .ok spec
      else
        let store := { bs with data := newAddress, byteLength := newByteLength }
        .ok { spec with buffer := { spec.buffer with backingStore := some store } }
  | .detach => .ok { spec with buffer := { spec.buffer with backingStore := none } }
  | .attach store => .ok { spec with buffer := ⟨store.isResizable, some store⟩ }

def SpecBuffer.step (spec : SpecBuffer) (op : BufferOp) : SpecBuffer × Option BufferError :=
  settle spec (spec.perform op)

def ArrayBufferView.HasExtent (view : ArrayBufferView) (extent : Extent) : Prop :=
  view.byteOffset = extent.byteOffset ∧ view.byteLength = extent.byteLength ∧
    (view.kind ≠ .dataView → view.arrayLength = extent.arrayLength)

structure ArrayBufferView.CreatedAs (view : ArrayBufferView) (spec : SpecView) : Prop where
  kind : view.kind = spec.kind
  byteOffset : view.originalByteOffset = spec.byteOffset
  auto : view.auto = spec.byteLength.isNone
  byteLength : ∀ n, spec.byteLength = some n → view.originalByteLength = n

namespace ArrayBufferView

variable {view : ArrayBufferView} {spec : SpecView}

def Addressed (view : ArrayBufferView) (data : Option Nat) : Prop :=
  ∀ address, view.cachedRawBufferAddress = some address →
    ∃ start, data = some start ∧ address = start + view.byteOffset

theorem addressed_updateBufferCallback (view : ArrayBufferView) (bufferByteLength : Nat)
    (start : Option Nat) : (view.updateBufferCallback bufferByteLength start).Addressed start := by
  intro address haddress
  unfold updateBufferCallback at haddress ⊢
  split at haddress
  · cases haddress
  · obtain ⟨base, rfl, rfl⟩ := Option.map_eq_some_iff.mp haddress
    exact ⟨base, rfl, rfl⟩

inductive Observed (view : ArrayBufferView) (isResizable : Bool) (newByteLength : Nat) :
    Extent → Prop
  | outOfBounds
      (h : if view.auto then newByteLength < view.originalByteOffset
        else newByteLength < view.originalByteOffset + view.originalByteLength) :
      Observed view isResizable newByteLength ⟨0, 0, 0⟩
  | following (hauto : view.auto = true) (hfits : view.originalByteOffset ≤ newByteLength)
      (elements : Nat)
      (h : elements = (newByteLength - view.originalByteOffset) / view.kind.elementSize) :
      Observed view isResizable newByteLength
        ⟨view.originalByteOffset, elements * view.kind.elementSize, elements⟩
  | restored (hauto : view.auto = false) (hresizable : isResizable = true)
      (hfits : view.originalByteOffset + view.originalByteLength ≤ newByteLength) :
      Observed view isResizable newByteLength
        ⟨view.originalByteOffset, view.originalByteLength,
          view.originalByteLength / view.kind.elementSize⟩
  | unchanged (hauto : view.auto = false) (hresizable : isResizable = false)
      (hfits : view.originalByteOffset + view.originalByteLength ≤ newByteLength) :
      Observed view isResizable newByteLength
        ⟨view.byteOffset, view.byteLength, view.arrayLength⟩

theorem observed_arrayBufferObserver (view : ArrayBufferView) (isResizable : Bool)
    (newAddress : Option Nat) (newByteLength : Nat) :
    ∃ extent next, view.arrayBufferObserver isResizable newAddress newByteLength = next ∧
      view.Observed isResizable newByteLength extent ∧
      next.Addressed newAddress ∧
      (next.byteOffset = extent.byteOffset ∧ next.byteLength = extent.byteLength ∧
        next.arrayLength = extent.arrayLength) ∧
      (next.kind = view.kind ∧ next.originalByteOffset = view.originalByteOffset ∧
        next.originalByteLength = view.originalByteLength ∧ next.auto = view.auto) := by
  have hnone : ∀ (next : ArrayBufferView) (n : Nat),
      (next.updateBufferCallback n none).Addressed newAddress := by
    intro next n address haddress
    obtain ⟨start, hstart, -⟩ := addressed_updateBufferCallback next n none address haddress
    cases hstart
  have haddressed : ∀ (next : ArrayBufferView) (n : Nat) (P : Prop) [Decidable P],
      (next.updateBufferCallback n (if P then none else newAddress)).Addressed newAddress := by
    intro next n P _
    split
    · exact hnone next n
    · exact addressed_updateBufferCallback next n newAddress
  have hsize := view.kind.elementSize_pos
  unfold arrayBufferObserver
  cases hauto : view.auto with
  | true =>
    by_cases hfits : newByteLength < view.originalByteOffset
    · simp only [if_true, hfits, decide_true]
      refine ⟨⟨0, 0, 0⟩, _, rfl, .outOfBounds ?_, haddressed _ _ _, ⟨rfl, rfl, rfl⟩,
        ⟨rfl, rfl, rfl, rfl⟩⟩
      rwa [hauto, if_pos rfl]
    · have hbytes : (if newByteLength > view.originalByteOffset then
          (newByteLength - view.originalByteOffset) / view.kind.elementSize *
            view.kind.elementSize
          else 0) =
          (newByteLength - view.originalByteOffset) / view.kind.elementSize *
            view.kind.elementSize := by
        split
        case isTrue => rfl
        case isFalse hle =>
          rw [Nat.sub_eq_zero_of_le (Nat.not_lt.mp hle), Nat.zero_div, Nat.zero_mul]
      simp only [if_true, hfits, decide_false, Bool.false_eq_true, if_false, hbytes,
        Nat.mul_div_cancel _ hsize]
      exact ⟨_, _, rfl, .following hauto (Nat.not_lt.mp hfits) _ rfl, haddressed _ _ _,
        ⟨rfl, rfl, rfl⟩, ⟨rfl, rfl, rfl, rfl⟩⟩
  | false =>
    by_cases hfits : newByteLength < view.originalByteOffset + view.originalByteLength
    · simp only [Bool.false_eq_true, if_false, gt_iff_lt, hfits, decide_true, if_true]
      refine ⟨⟨0, 0, 0⟩, _, rfl, .outOfBounds ?_, haddressed _ _ _, ⟨rfl, rfl, rfl⟩,
        ⟨rfl, rfl, rfl, rfl⟩⟩
      rwa [hauto, if_neg Bool.false_ne_true]
    · have hle := Nat.not_lt.mp hfits
      cases hresizable : isResizable with
      | true =>
        simp only [Bool.false_eq_true, if_false, gt_iff_lt, hfits, decide_false, true_and,
          ge_iff_le, hle, if_true]
        exact ⟨_, _, rfl, .restored hauto rfl hle, haddressed _ _ _, ⟨rfl, rfl, rfl⟩,
          ⟨rfl, rfl, rfl, rfl⟩⟩
      | false =>
        simp only [Bool.false_eq_true, if_false, gt_iff_lt, hfits, decide_false, false_and]
        exact ⟨_, _, rfl, .unchanged hauto rfl hle, haddressed _ _ _, ⟨rfl, rfl, rfl⟩,
          ⟨rfl, rfl, rfl, rfl⟩⟩

structure Refines (view : ArrayBufferView) (spec : SpecView) (byteLength : Nat) : Prop where
  created : view.CreatedAs spec
  extent : view.HasExtent (spec.extent byteLength)

def Regrows (view : ArrayBufferView) (byteLength newByteLength : Nat) : Prop :=
  view.auto = false ∧ byteLength < view.originalByteOffset + view.originalByteLength ∧
    view.originalByteOffset + view.originalByteLength ≤ newByteLength

instance (view : ArrayBufferView) (byteLength newByteLength : Nat) :
    Decidable (view.Regrows byteLength newByteLength) :=
  inferInstanceAs (Decidable (_ ∧ _ ∧ _))

/-- The observer gives a view the extent for the new length. A view of a length of its own
that is out of bounds comes back only on a resizable buffer. -/
theorem Refines.arrayBufferObserver {byteLength : Nat} (h : view.Refines spec byteLength)
    {isResizable : Bool} (newAddress : Option Nat) {newByteLength : Nat}
    (hregrow : isResizable = true ∨ ¬ view.Regrows byteLength newByteLength) :
    (view.arrayBufferObserver isResizable newAddress newByteLength).Refines spec
      newByteLength := by
  obtain ⟨⟨hkind, hoffset, hauto, hlength⟩, hextent⟩ := h
  obtain ⟨extent, next, hnext, hobserved, -, ⟨hbo, hbl, hal⟩, hk, hoo, hol, ha⟩ :=
    view.observed_arrayBufferObserver isResizable newAddress newByteLength
  rw [hnext]
  have hcreated : next.CreatedAs spec :=
    ⟨hk.trans hkind, hoo.trans hoffset, ha.trans hauto, fun n hn => hol.trans (hlength n hn)⟩
  refine ⟨hcreated, ?_⟩
  have hsame : next.HasExtent extent := ⟨hbo, hbl, fun _ => hal⟩
  cases hobserved with
  | outOfBounds hout =>
    have hzero : spec.extent newByteLength = ⟨0, 0, 0⟩ := by
      unfold SpecView.extent
      cases hspec : spec.byteLength with
      | none =>
        rw [hauto, hspec, isNone_none, if_pos rfl, hoffset] at hout
        simp only [if_neg (Nat.not_le.mpr hout)]
      | some n =>
        rw [hauto, hspec, isNone_some, if_neg Bool.false_ne_true, hoffset, hlength n hspec] at hout
        simp only [if_neg (Nat.not_le.mpr hout)]
    rwa [hzero]
  | following hfollow hfits elements helements =>
    have hspec : spec.byteLength = none := by rw [← isNone_iff_eq_none, ← hauto, hfollow]
    unfold SpecView.extent
    rw [hoffset] at hfits
    simp only [hspec, if_pos hfits]
    rwa [helements, hkind, hoffset] at hsame
  | restored hfixed hresizable hfits =>
    obtain ⟨n, hspec⟩ : ∃ n, spec.byteLength = some n := by
      rw [← isSome_iff_exists, ← not_isNone, ← hauto, hfixed]
      rfl
    rw [hoffset, hlength n hspec] at hfits
    unfold SpecView.extent
    simp only [hspec, if_pos hfits]
    rwa [hlength n hspec, hkind, hoffset] at hsame
  | unchanged hfixed hresizable hfits =>
    obtain ⟨n, hspec⟩ : ∃ n, spec.byteLength = some n := by
      rw [← isSome_iff_exists, ← not_isNone, ← hauto, hfixed]
      rfl
    have hfitted : view.originalByteOffset + view.originalByteLength ≤ byteLength := by
      by_contra hnot
      rcases hregrow with hresizes | hregrow
      · rw [hresizable] at hresizes
        cases hresizes
      · exact hregrow ⟨hfixed, Nat.not_le.mp hnot, hfits⟩
    rw [hoffset, hlength n hspec] at hfits hfitted
    unfold SpecView.extent at hextent ⊢
    simp only [hspec, if_pos hfitted] at hextent
    simp only [hspec, if_pos hfits]
    obtain ⟨hbo', hbl', hal'⟩ := hextent
    exact ⟨hbo.trans hbo', hbl.trans hbl', fun hdata => hal.trans (hal' (hk ▸ hdata))⟩

/-- The view stays inside its buffer, whatever it was created as. -/
structure Safe (view : ArrayBufferView) (data : Option Nat) (byteLength : Nat) : Prop where
  bounds : view.byteOffset + view.byteLength ≤ byteLength
  elements : view.arrayLength * view.kind.elementSize ≤ view.byteLength
  addressed : view.Addressed data
  /-- A view of a length of its own is nowhere else than where it was created. -/
  fixed : view.auto = false →
    view.byteOffset + view.byteLength ≤ view.originalByteOffset + view.originalByteLength

theorem Safe.arrayBufferObserver {data : Option Nat} {byteLength : Nat}
    (h : view.Safe data byteLength) (isResizable : Bool) (newAddress : Option Nat)
    (newByteLength : Nat) :
    (view.arrayBufferObserver isResizable newAddress newByteLength).Safe newAddress
      newByteLength := by
  obtain ⟨extent, next, hnext, hobserved, haddressed, ⟨hbo, hbl, hal⟩, hk, hoo, hol, ha⟩ :=
    view.observed_arrayBufferObserver isResizable newAddress newByteLength
  rw [hnext]
  refine ⟨?_, ?_, haddressed, fun hfixed => ?_⟩
  · rw [hbo, hbl]
    cases hobserved with
    | outOfBounds => exact Nat.zero_le _
    | following hauto hfits elements helements =>
      have hle := Nat.div_mul_le_self (newByteLength - view.originalByteOffset)
        view.kind.elementSize
      rw [← helements] at hle
      show view.originalByteOffset + elements * view.kind.elementSize ≤ newByteLength
      omega
    | restored hauto hresizable hfits => exact hfits
    | unchanged hauto hresizable hfits => exact Nat.le_trans (h.fixed hauto) hfits
  · rw [hal, hbl, hk]
    cases hobserved with
    | outOfBounds => exact Nat.le_of_eq (Nat.zero_mul _)
    | following => exact Nat.le_refl _
    | restored => exact Nat.div_mul_le_self _ _
    | unchanged => exact h.elements
  · rw [ha] at hfixed
    rw [hbo, hbl, hoo, hol]
    cases hobserved with
    | outOfBounds => exact Nat.zero_le _
    | following hauto =>
      rw [hauto] at hfixed
      cases hfixed
    | restored => exact Nat.le_refl _
    | unchanged => exact h.fixed hfixed

end ArrayBufferView

namespace ObservedBuffer

/-- The buffers agree, and each view refines its abstract view. -/
structure Refines (observed : ObservedBuffer) (spec : SpecBuffer) : Prop where
  buffer : observed.buffer = spec.buffer
  views : List.Forall₂ (fun view abstract => view.Refines abstract observed.buffer.byteLength)
    observed.views spec.views

/-- Every view stays inside the buffer. -/
def Safe (observed : ObservedBuffer) : Prop :=
  ∀ view ∈ observed.views, view.Safe observed.buffer.data observed.buffer.byteLength

/-- What keeps the views right: a typed array that follows a resizable buffer starts with whole
elements, no data view gets `undefined` as its length, and where the flag of the buffer says that
it is not resizable, no new length brings back a view that is out of bounds. -/
def MeetsCondition (observed : ObservedBuffer) : BufferOp → Prop
  | .newTypedArray type byteOffset none =>
    observed.buffer.isResizable = true →
      (observed.buffer.byteLength - byteOffset) % type.elementSize = 0
  | .newTypedArray _ _ (some _) => True
  | .newDataView _ byteLength => byteLength ≠ some none
  | .resize _ => True
  | .reallocate newByteLength _ =>
    observed.buffer.isResizable = true ∨
      ∀ view ∈ observed.views, ¬ view.Regrows observed.buffer.byteLength newByteLength
  | .detach => True
  | .attach store =>
    observed.buffer.isResizable = true ∨ ∀ view ∈ observed.views, ¬ view.Regrows 0 store.byteLength

instance (observed : ObservedBuffer) : ∀ op : BufferOp, Decidable (observed.MeetsCondition op)
  | .newTypedArray _ _ none => inferInstanceAs (Decidable (_ = true → _ = 0))
  | .newTypedArray _ _ (some _) => inferInstanceAs (Decidable True)
  | .newDataView _ _ => inferInstanceAs (Decidable (_ ≠ _))
  | .resize _ => inferInstanceAs (Decidable True)
  | .reallocate _ _ => inferInstanceAs (Decidable (_ = true ∨ ∀ view ∈ observed.views, _))
  | .detach => inferInstanceAs (Decidable True)
  | .attach _ => inferInstanceAs (Decidable (_ = true ∨ ∀ view ∈ observed.views, _))

theorem forall₂_arrayBufferObserver {views : List ArrayBufferView} {specs : List SpecView}
    {byteLength newByteLength : Nat} {isResizable : Bool} (newAddress : Option Nat)
    (h : List.Forall₂ (fun view abstract => view.Refines abstract byteLength) views specs)
    (hregrow : isResizable = true ∨ ∀ view ∈ views, ¬ view.Regrows byteLength newByteLength) :
    List.Forall₂ (fun view abstract => view.Refines abstract newByteLength)
      (views.map (ArrayBufferView.arrayBufferObserver isResizable newAddress newByteLength))
      specs := by
  induction h with
  | nil => exact .nil
  | cons hfirst _ ih =>
    refine .cons (hfirst.arrayBufferObserver newAddress ?_) (ih ?_)
    · exact hregrow.imp_right fun h => h _ mem_cons_self
    · exact hregrow.imp_right fun h view hview => h view (mem_cons_of_mem _ hview)

theorem safe_arrayBufferObserver {views : List ArrayBufferView} {data : Option Nat}
    {byteLength : Nat} (h : ∀ view ∈ views, view.Safe data byteLength) (isResizable : Bool)
    (newAddress : Option Nat) (newByteLength : Nat) :
    ∀ view ∈ views.map (ArrayBufferView.arrayBufferObserver isResizable newAddress newByteLength),
      view.Safe newAddress newByteLength := by
  intro view hview
  obtain ⟨before, hbefore, rfl⟩ := List.mem_map.mp hview
  exact (h before hbefore).arrayBufferObserver isResizable newAddress newByteLength

theorem not_regrows_zero (views : List ArrayBufferView) (byteLength : Nat) :
    ∀ view ∈ views, ¬ view.Regrows byteLength 0 := by
  rintro view - ⟨-, hlt, hle⟩
  omega

variable {observed : ObservedBuffer} {spec : SpecBuffer}

theorem Refines.detach (h : observed.Refines spec) : (observed.updateBackingStore none).Refines
      { spec with buffer := { spec.buffer with backingStore := none } } where
  buffer := by
    show { observed.buffer with backingStore := none } = _
    rw [h.buffer]
  views := forall₂_arrayBufferObserver none h.views (.inr (not_regrows_zero _ _))

theorem regrows_arrayBufferObserver {view : ArrayBufferView} {isResizable : Bool}
    {newAddress : Option Nat} {newByteLength byteLength later : Nat} :
    (view.arrayBufferObserver isResizable newAddress newByteLength).Regrows byteLength later ↔
      view.Regrows byteLength later := by
  obtain ⟨_, next, hnext, -, -, -, -, hoo, hol, ha⟩ :=
    view.observed_arrayBufferObserver isResizable newAddress newByteLength
  rw [hnext, ArrayBufferView.Regrows, ArrayBufferView.Regrows, hoo, hol, ha]

theorem Refines.attach (h : observed.Refines spec) {store : BackingStore}
    (hcondition : observed.MeetsCondition (.attach store)) :
    ((observed.updateBackingStore none).updateBackingStore (some store)).Refines
      { spec with buffer := ⟨store.isResizable, some store⟩ } where
  buffer := rfl
  views := by
    refine forall₂_arrayBufferObserver store.data h.detach.views (hcondition.imp id ?_)
    intro hregrow view hview
    obtain ⟨before, hbefore, rfl⟩ := List.mem_map.mp hview
    rw [regrows_arrayBufferObserver]
    exact hregrow before hbefore

variable {byteOffset : Nat}

theorem Refines.setBuffer (h : observed.Refines spec) {kind : ViewKind}
    {byteLength arrayLength : Nat} {isAuto : Bool} {abstract : SpecView}
    (hkind : abstract.kind = kind) (hoffset : abstract.byteOffset = byteOffset)
    (hauto : isAuto = abstract.byteLength.isNone)
    (hlength : ∀ n, abstract.byteLength = some n → byteLength = n)
    (hextent : (abstract.extent observed.buffer.byteLength).byteOffset = byteOffset ∧
      (abstract.extent observed.buffer.byteLength).byteLength = byteLength ∧
      (kind ≠ .dataView → (abstract.extent observed.buffer.byteLength).arrayLength = arrayLength)) :
    (observed.setBuffer kind byteOffset byteLength arrayLength isAuto).Refines
      ⟨observed.buffer, spec.views ++ [abstract]⟩ where
  buffer := rfl
  views := by
    refine rel_append h.views (.cons ⟨⟨hkind.symm, hoffset.symm, hauto, hlength⟩, ?_⟩ .nil)
    obtain ⟨hbo, hbl, hal⟩ := hextent
    exact ⟨hbo.symm, hbl.symm, fun hdata => (hal hdata).symm⟩

theorem Refines.newTypedArray (h : observed.Refines spec) {type : TypedArrayType}
    {length : Option Nat}
    (hcondition : observed.MeetsCondition (.newTypedArray type byteOffset length)) :
    (settle observed (observed.perform (.newTypedArray type byteOffset length))).2 =
        (spec.step (.newTypedArray type byteOffset length)).2 ∧
      (settle observed (observed.perform (.newTypedArray type byteOffset length))).1.Refines
        (spec.step (.newTypedArray type byteOffset length)).1 := by
  have hsize := type.elementSize_pos
  unfold SpecBuffer.step SpecBuffer.perform SpecView.check ObservedBuffer.perform
    initializeTypedArrayFromArrayBuffer
  dsimp only
  have hkind : (ViewKind.typedArray type).elementSize = type.elementSize := rfl
  rw [← h.buffer, hkind]
  by_cases haligned : byteOffset % type.elementSize ≠ 0
  · simp only [if_pos haligned]
    exact ⟨rfl, h⟩
  simp only [if_neg haligned]
  by_cases hdetached : observed.buffer.isDetachedBuffer = true
  · simp only [if_pos hdetached]
    exact ⟨rfl, h⟩
  simp only [if_neg hdetached]
  cases length with
  | none =>
    dsimp only [map_none]
    by_cases hfits : observed.buffer.byteLength < byteOffset
    · simp only [hfits, or_true, if_true]
      exact ⟨rfl, h⟩
    by_cases hpartial : observed.buffer.isResizable = false ∧
        observed.buffer.byteLength % type.elementSize ≠ 0
    · simp only [if_neg hfits, if_pos hpartial, if_pos (Or.inl hpartial.symm)]
      exact ⟨rfl, h⟩
    have hwhole : (observed.buffer.byteLength - byteOffset) % type.elementSize = 0 := by
      cases hresizable : observed.buffer.isResizable with
      | true => exact hcondition hresizable
      | false =>
        have hlength : observed.buffer.byteLength % type.elementSize = 0 := by
          by_contra hne
          exact hpartial ⟨hresizable, hne⟩
        exact Nat.sub_mod_eq_zero_of_mod_eq (hlength.trans (not_not.mp haligned).symm)
    have hle := Nat.not_lt.mp hfits
    have haccepted : ¬ ((observed.buffer.byteLength % type.elementSize ≠ 0 ∧
        observed.buffer.isResizable = false) ∨ observed.buffer.byteLength < byteOffset) := by
      rintro (hnot | hnot)
      · exact hpartial hnot.symm
      · exact hfits hnot
    simp only [if_neg hfits, if_neg hpartial, if_neg haccepted]
    refine ⟨rfl, h.setBuffer rfl rfl rfl (fun n hn => by cases hn) ?_⟩
    simp only [SpecView.extent, if_pos hle]
    exact ⟨trivial, Nat.div_mul_cancel (Nat.dvd_of_mod_eq_zero hwhole), fun _ => rfl⟩
  | some newLength =>
    dsimp only [map_some]
    by_cases hfits : observed.buffer.byteLength < byteOffset + newLength * type.elementSize
    · rw [if_pos hfits, if_pos (by omega)]
      exact ⟨rfl, h⟩
    rw [if_neg hfits, if_neg (by omega)]
    refine ⟨rfl, h.setBuffer rfl rfl rfl (fun n hn => Option.some.inj hn) ?_⟩
    simp only [SpecView.extent, if_pos (Nat.not_lt.mp hfits)]
    exact ⟨trivial, trivial, fun _ => rfl⟩

theorem Refines.newDataView (h : observed.Refines spec) {byteLength : Option (Option Nat)}
    (hcondition : observed.MeetsCondition (.newDataView byteOffset byteLength)) :
    (settle observed (observed.perform (.newDataView byteOffset byteLength))).2 =
        (spec.step (.newDataView byteOffset byteLength)).2 ∧
      (settle observed (observed.perform (.newDataView byteOffset byteLength))).1.Refines
        (spec.step (.newDataView byteOffset byteLength)).1 := by
  unfold SpecBuffer.step SpecBuffer.perform SpecView.check ObservedBuffer.perform
    builtinDataViewConstructor
  rw [← h.buffer]
  simp only [ViewKind.elementSize, Nat.mod_one, ne_eq, not_true, if_false, and_false]
  by_cases hdetached : observed.buffer.isDetachedBuffer = true
  · simp only [if_pos hdetached]
    exact ⟨rfl, h⟩
  simp only [if_neg hdetached]
  cases byteLength with
  | none =>
    dsimp only [join_none]
    by_cases hfits : observed.buffer.byteLength < byteOffset
    · simp only [if_pos hfits]
      exact ⟨rfl, h⟩
    simp only [if_neg hfits]
    refine ⟨rfl, h.setBuffer rfl rfl rfl (fun n hn => by cases hn) ?_⟩
    simp only [SpecView.extent, if_pos (Nat.not_lt.mp hfits), ViewKind.elementSize, Nat.div_one,
      Nat.mul_one]
    exact ⟨trivial, trivial, fun hdata => absurd rfl hdata⟩
  | some length =>
    cases length with
    | none => exact absurd rfl hcondition
    | some viewByteLength =>
      dsimp only [join_some]
      by_cases hfits : observed.buffer.byteLength < byteOffset + viewByteLength
      · simp only [if_pos hfits]
        split
        · exact ⟨rfl, h⟩
        · exact ⟨rfl, h⟩
      rw [if_neg hfits, if_neg (by omega), if_neg (by omega)]
      refine ⟨rfl, h.setBuffer rfl rfl rfl (fun n hn => Option.some.inj hn) ?_⟩
      simp only [SpecView.extent, if_pos (Nat.not_lt.mp hfits)]
      exact ⟨trivial, trivial, fun hdata => absurd rfl hdata⟩

theorem step_refines {op : BufferOp} (h : observed.Refines spec)
    (hcondition : observed.MeetsCondition op) :
    (settle observed (observed.perform op)).2 = (spec.step op).2 ∧
      (settle observed (observed.perform op)).1.Refines (spec.step op).1 := by
  cases op with
  | newTypedArray type byteOffset length => exact h.newTypedArray hcondition
  | newDataView byteOffset byteLength => exact h.newDataView hcondition
  | resize newByteLength =>
    unfold SpecBuffer.step SpecBuffer.perform ObservedBuffer.perform ObservedBuffer.resize
    rw [← h.buffer]
    by_cases hresizable : observed.buffer.isResizable = false
    · simp only [if_pos hresizable]
      exact ⟨rfl, h⟩
    simp only [if_neg hresizable]
    cases observed.buffer.backingStore with
    | none => exact ⟨rfl, h⟩
    | some bs =>
      by_cases hmax : newByteLength > bs.maxByteLength
      · simp only [if_pos hmax]
        exact ⟨rfl, h⟩
      simp only [if_neg hmax]
      refine ⟨rfl, rfl, ?_⟩
      exact forall₂_arrayBufferObserver bs.data h.views (.inl (by simpa using hresizable))
  | reallocate newByteLength newAddress =>
    unfold SpecBuffer.step SpecBuffer.perform ObservedBuffer.perform ObservedBuffer.reallocate
    rw [← h.buffer]
    cases observed.buffer.backingStore with
    | none => exact ⟨rfl, h⟩
    | some bs =>
      by_cases hsame : bs.byteLength = newByteLength
      · simp only [if_pos hsame]
        exact ⟨rfl, h⟩
      simp only [if_neg hsame]
      exact ⟨rfl, rfl, forall₂_arrayBufferObserver newAddress h.views hcondition⟩
  | detach => exact ⟨rfl, h.detach⟩
  | attach store => exact ⟨rfl, h.attach hcondition⟩

theorem Safe.setBuffer (h : observed.Safe) {kind : ViewKind} {byteLength arrayLength : Nat}
    (isAuto : Bool) (hbounds : byteOffset + byteLength ≤ observed.buffer.byteLength)
    (helements : arrayLength * kind.elementSize ≤ byteLength) :
    (observed.setBuffer kind byteOffset byteLength arrayLength isAuto).Safe := by
  intro view hview
  rcases List.mem_append.mp hview with hold | hnew
  · exact h view hold
  · obtain rfl := List.mem_singleton.mp hnew
    exact ⟨hbounds, helements, ArrayBufferView.addressed_updateBufferCallback _ _ _,
      fun _ => Nat.le_refl _⟩

theorem step_safe (h : observed.Safe) (op : BufferOp) :
    (settle observed (observed.perform op)).1.Safe := by
  cases op with
  | newTypedArray type byteOffset length =>
    simp only [perform, initializeTypedArrayFromArrayBuffer]
    cases length with
    | none =>
      split_ifs with haligned hdetached hrejected
      · exact h
      · exact h
      · exact h
      · exact h.setBuffer true (by omega) (Nat.div_mul_le_self _ _)
    | some newLength =>
      dsimp only
      split_ifs with haligned hdetached hrejected
      · exact h
      · exact h
      · exact h
      · exact h.setBuffer false (by omega) (Nat.div_mul_le_self _ _)
  | newDataView byteOffset byteLength =>
    simp only [perform, builtinDataViewConstructor]
    by_cases hdetached : observed.buffer.isDetachedBuffer = true
    · rw [if_pos hdetached]
      exact h
    rw [if_neg hdetached]
    by_cases hoffset : byteOffset > observed.buffer.byteLength
    · rw [if_pos hoffset]
      exact h
    rw [if_neg hoffset]
    split
    · split_ifs with hrejected
      · exact h
      · exact h.setBuffer false (by omega) (by omega)
    · exact h.setBuffer false (by omega) (by omega)
    · exact h.setBuffer true (by omega) (by omega)
  | resize newByteLength =>
    simp only [perform, ObservedBuffer.resize]
    cases observed.buffer.backingStore with
    | none => split_ifs <;> exact h
    | some bs =>
      dsimp only
      split_ifs
      · exact h
      · exact h
      · exact safe_arrayBufferObserver h _ _ _
  | reallocate newByteLength newAddress =>
    simp only [perform, ObservedBuffer.reallocate]
    cases observed.buffer.backingStore with
    | none => exact h
    | some bs =>
      dsimp only
      split_ifs
      · exact h
      · exact safe_arrayBufferObserver h _ _ _
  | detach => exact safe_arrayBufferObserver h _ _ _
  | attach store => exact safe_arrayBufferObserver (safe_arrayBufferObserver h _ _ _) _ _ _

def allocate (store : BackingStore) : ObservedBuffer :=
  { buffer := ⟨store.isResizable, some store⟩, views := [] }

def resizableStore : BackingStore := ⟨some 4096, 16, 32, true⟩

/-- Two views on a buffer that shrinks, grows and is detached. -/
def resizingOps : List BufferOp :=
  [.newTypedArray .uint16 2 none, .newTypedArray .uint8 4 (some 8), .newDataView 0 none,
    .resize 7, .resize 1, .resize 32, .detach]

/-- `new DataView(buffer, 0, undefined)` does not follow the buffer. -/
example :
    (run step [.newDataView 0 (some none), .resize 24] (allocate resizableStore)).map
      (fun result => result.1.views.map (·.byteLength)) = some [16] := by decide

/-- A view of a buffer that is not resizable stays empty when a reallocation brings it back. -/
example :
    (run step [.newTypedArray .uint8 0 (some 8), .reallocate 4 (some 8192),
      .reallocate 16 (some 12288)] (allocate ⟨some 4096, 16, 0, false⟩)).map
      (fun result => result.1.views.map (·.byteLength)) = some [0] := by decide

end ObservedBuffer

end Escargot.Runtime
