/-
# Growable shared buffers

One shared data block and the agents that hold it. Every buffer object of an
agent has a backing store of its own over the block, so a grow reaches only the
views of the buffer object it was called on. An agent runs one piece of native
code at a time, and each load and each store of the shared length is a step of
its own that steps of other agents may come before.

Lengths are below `ArrayBuffer::maxArrayBufferSize`, so the comparisons of the
code with a double are exact.
-/

import Escargot.Runtime.ArrayBuffer

namespace Escargot.Runtime.SharedArrayBuffer

open List Option Foundation

structure GrowableSharedDataBlockInfo where
  data : Option Nat
  byteLength : Nat
  maxByteLength : Nat
  deriving DecidableEq

/-- A view, whether it was created without a length, and the length of the buffer its extent
was last computed from. The code keeps only the first of these. -/
structure SharedView where
  view : ArrayBufferView
  lengthTracking : Bool
  computedFrom : Nat
  deriving DecidableEq

/-- `SharedArrayBufferObject`, the only observer of its `SharedBackingStore`. -/
structure SharedArrayBufferObject where
  views : List SharedView
  deriving DecidableEq

/-- What `toInteger` gives. -/
inductive IntegerOrInfinity
  | negativeInfinity
  | finite (n : Int)
  | positiveInfinity
  deriving DecidableEq

variable (n : IntegerOrInfinity)

/-- `newByteLength < byteLength`. -/
def IntegerOrInfinity.isBelow (byteLength : Nat) : Bool :=
  match n with
  | negativeInfinity => true
  | finite n => decide (n < (byteLength : Int))
  | positiveInfinity => false

/-- `newByteLength > maxByteLength`. -/
def IntegerOrInfinity.isAbove (maxByteLength : Nat) : Bool :=
  match n with
  | negativeInfinity => false
  | finite n => decide (n > (maxByteLength : Int))
  | positiveInfinity => true

/-- `static_cast<size_t>(newByteLength)`, of a number that passed both comparisons. -/
def IntegerOrInfinity.toSize : IntegerOrInfinity → Nat
  | finite n => n.toNat
  | _ => 0

/-- Native code that an agent is in, by what it does next. -/
inductive Native
  | growRead (buffer : Nat) (newByteLength : IntegerOrInfinity)
  | growCompare (buffer : Nat) (newByteLength : IntegerOrInfinity) (byteLength : Nat)
  | growStore (buffer newByteLength : Nat)
  | growLoad (buffer : Nat)
  | growNotify (buffer newByteLength view : Nat)
  | typedArrayRead (buffer : Nat) (type : TypedArrayType) (offset : Nat) (length : Option Nat)
  | typedArraySet (buffer : Nat) (type : TypedArrayType) (offset : Nat) (length : Option Nat)
      (bufferByteLength : Nat)
  | dataViewRead (buffer offset : Nat) (byteLength : Option (Option Nat))
  | dataViewReread (buffer offset : Nat) (byteLength : Option (Option Nat))
  | dataViewSet (buffer offset : Nat) (byteLength : Option (Option Nat)) (bufferByteLength : Nat)
  deriving DecidableEq

/-- A data view constructor that looks up the prototype of its new target, which runs script. -/
structure SuspendedDataView where
  buffer : Nat
  offset : Nat
  byteLength : Option (Option Nat)
  deriving DecidableEq

/-- An agent runs script when it is in no native code. -/
structure Agent where
  buffers : List SharedArrayBufferObject
  native : Option Native
  suspended : List SuspendedDataView
  deriving DecidableEq

structure State where
  block : GrowableSharedDataBlockInfo
  agents : List Agent
  deriving DecidableEq

/-- What script can do: receive the block once more, call a built-in function, return to a data
view constructor, access a view. The length of a data view can be left out, or given as
`undefined`, or as a number. -/
inductive Call
  | receive
  | grow (buffer : Nat) (newLength : IntegerOrInfinity)
  | newTypedArray (buffer : Nat) (type : TypedArrayType) (byteOffset : Nat) (length : Option Nat)
  | newDataView (buffer byteOffset : Nat) (byteLength : Option (Option Nat))
  | resume
  | access (buffer view : Nat)

inductive AgentOp
  | advance
  | script (call : Call)

inductive Answer
  | done
  | rangeError
  | elements (n : Nat)
  deriving DecidableEq

/-- The number of elements that an access goes by. A data view has none but its bytes. -/
def elementsOf (view : ArrayBufferView) : Nat :=
  match view.kind with
  | .typedArray _ => view.arrayLength
  | .dataView => view.byteLength

def setBuffer (block : GrowableSharedDataBlockInfo) (kind : ViewKind)
    (byteOffset byteLength arrayLength : Nat) (isAuto : Bool) : ArrayBufferView :=
  ArrayBufferView.updateBufferCallback
    { kind, byteOffset, byteLength, arrayLength
      cachedRawBufferAddress := none
      originalByteLength := byteLength
      originalByteOffset := byteOffset
      auto := isAuto
      wasResetByInvalidByteLength := false }
    block.byteLength block.data

/-- `arrayBufferObserver`. A data view looks at the length of its buffer again. -/
def notify (block : GrowableSharedDataBlockInfo) (newByteLength : Nat) (v : SharedView) :
    SharedView :=
  let view := v.view.arrayBufferObserver true block.data newByteLength
  let view :=
    if view.kind = .dataView ∧ block.byteLength < view.byteLength then
      { view with cachedRawBufferAddress := none }
    else view
  { v with view, computedFrom := if v.view.auto then newByteLength else v.computedFrom }

def Agent.addView (agent : Agent) (buffer : Nat) (v : SharedView) : Agent :=
  { agent with
    buffers := agent.buffers.modify buffer fun object => { object with views := object.views ++ [v] } }

def Agent.inNative (agent : Agent) (native : Native) : Agent := { agent with native := some native }

def Agent.inScript (agent : Agent) : Agent := { agent with native := none }

def Agent.view? (agent : Agent) (buffer view : Nat) : Option SharedView :=
  agent.buffers[buffer]?.bind fun object => object.views[view]?

/-- The next step of native code: at most one load or store of the shared length. -/
def Agent.advance (block : GrowableSharedDataBlockInfo) (agent : Agent) :
    Native → GrowableSharedDataBlockInfo × Agent × Answer
  | .growRead buffer newByteLength =>
    (block, agent.inNative (.growCompare buffer newByteLength block.byteLength), .done)
  | .growCompare buffer newByteLength byteLength =>
    if newByteLength.isBelow byteLength || newByteLength.isAbove block.maxByteLength then
      (block, agent.inScript, .rangeError)
    else (block, agent.inNative (.growStore buffer newByteLength.toSize), .done)
  | .growStore buffer newByteLength =>
    ({ block with byteLength := newByteLength }, agent.inNative (.growLoad buffer), .done)
  | .growLoad buffer => (block, agent.inNative (.growNotify buffer block.byteLength 0), .done)
  | .growNotify buffer newByteLength view =>
    match agent.view? buffer view with
    | none => (block, agent.inScript, .done)
    | some _ =>
      let buffers := agent.buffers.modify buffer fun object =>
        { object with views := object.views.modify view (notify block newByteLength) }
      (block, { agent with
        buffers, native := some (.growNotify buffer newByteLength (view + 1)) }, .done)
  | .typedArrayRead buffer type offset length =>
    (block, agent.inNative (.typedArraySet buffer type offset length block.byteLength), .done)
  | .typedArraySet buffer type offset length bufferByteLength =>
    let elementSize := type.elementSize
    match length with
    | none =>
      if bufferByteLength < offset then (block, agent.inScript, .rangeError)
      else
        let newByteLength := bufferByteLength - offset
        let view := setBuffer block (.typedArray type) offset newByteLength
          (newByteLength / elementSize) true
        (block, (agent.addView buffer ⟨view, true, bufferByteLength⟩).inScript, .done)
    | some newLength =>
      let newByteLength := newLength * elementSize
      if bufferByteLength < newByteLength ∨ offset > bufferByteLength - newByteLength then
        (block, agent.inScript, .rangeError)
      else
        let view := setBuffer block (.typedArray type) offset newByteLength
          (newByteLength / elementSize) false
        (block, (agent.addView buffer ⟨view, false, bufferByteLength⟩).inScript, .done)
  | .dataViewRead buffer offset byteLength =>
    if offset > block.byteLength ∨ offset + byteLength.join.getD 0 > block.byteLength then
      (block, agent.inScript, .rangeError)
    else
      (block, { agent with
        native := none, suspended := ⟨buffer, offset, byteLength⟩ :: agent.suspended }, .done)
  | .dataViewReread buffer offset byteLength =>
    (block, agent.inNative (.dataViewSet buffer offset byteLength block.byteLength), .done)
  | .dataViewSet buffer offset byteLength bufferByteLength =>
    if offset > bufferByteLength ∨ offset + byteLength.join.getD 0 > bufferByteLength then
      (block, agent.inScript, .rangeError)
    else
      -- the flag is `argc < 3`, also where the length is given as `undefined`
      let view := setBuffer block .dataView offset
        (byteLength.join.getD (bufferByteLength - offset)) 0 byteLength.isNone
      (block,
        (agent.addView buffer ⟨view, byteLength.join.isNone, bufferByteLength⟩).inScript, .done)

/-- What script does touches neither the block nor the views. -/
def Agent.script (agent : Agent) : Call → Option (Agent × Answer)
  | .receive => some ({ agent with buffers := agent.buffers ++ [⟨[]⟩] }, .done)
  | .grow buffer newLength => some (agent.inNative (.growRead buffer newLength), .done)
  | .newTypedArray buffer type byteOffset length =>
    if byteOffset % type.elementSize ≠ 0 then some (agent, .rangeError)
    else some (agent.inNative (.typedArrayRead buffer type byteOffset length), .done)
  | .newDataView buffer byteOffset byteLength =>
    some (agent.inNative (.dataViewRead buffer byteOffset byteLength), .done)
  | .resume =>
    match agent.suspended with
    | [] => none
    | ⟨buffer, offset, byteLength⟩ :: suspended =>
      some ({ agent with
        native := some (.dataViewReread buffer offset byteLength), suspended }, .done)
  | .access buffer view =>
    (agent.view? buffer view).map fun v => (agent, .elements (elementsOf v.view))

def Agent.step (block : GrowableSharedDataBlockInfo) (agent : Agent) :
    AgentOp → Option (GrowableSharedDataBlockInfo × Agent × Answer)
  | .advance => agent.native.map (agent.advance block)
  | .script call =>
    if agent.native.isSome then none
    else (agent.script call).map fun (agent', out) => (block, agent', out)

/-- A further agent starts, or an agent makes a step. -/
inductive Op
  | join
  | act (agent : Nat) (op : AgentOp)

def step (state : State) : Op → Option (State × Answer)
  | .join => some ({ state with agents := state.agents ++ [⟨[], none, []⟩] }, .done)
  | .act a op =>
    state.agents[a]?.bind fun agent =>
      (agent.step state.block op).map fun (block, agent', out) =>
        (⟨block, state.agents.set a agent'⟩, out)

/-- A block as `builtinSharedArrayBufferConstructor` allows it. -/
structure AllocatedBlock where
  info : GrowableSharedDataBlockInfo
  byteLength_le : info.byteLength ≤ info.maxByteLength

/-- No agent holds the block yet. -/
def start (block : AllocatedBlock) : State := ⟨block.info, []⟩

def elementCount (view : ArrayBufferView) (byteLength : Nat) : Nat :=
  (SpecView.extent ⟨view.kind, view.originalByteOffset, none⟩ byteLength).arrayLength

/-- The shared length does not decrease and stays within its bound, and an access through a
view that follows the buffer goes by the shared length at that moment. -/
def GrowsAndAccesses (state : State) (op : Op) (next : State) (out : Answer) : Prop :=
  state.block.byteLength ≤ next.block.byteLength ∧
    next.block.byteLength ≤ next.block.maxByteLength ∧
    ∀ a agent buffer view v, op = .act a (.script (.access buffer view)) → state.agents[a]? = some agent →
      agent.view? buffer view = some v → v.lengthTracking = true →
      out = .elements (elementCount v.view state.block.byteLength)

/-- No other grow went further since the comparison, and the length a view was last computed
from has as many elements as the shared length. -/
def AgentCondition (block : GrowableSharedDataBlockInfo) (agent : Agent) : AgentOp → Prop
  | .advance =>
    match agent.native with
    | some (.growStore _ newByteLength) => block.byteLength ≤ newByteLength
    | _ => True
  | .script (.access buffer view) =>
    match agent.view? buffer view with
    | some v =>
      v.lengthTracking = true →
        elementCount v.view v.computedFrom = elementCount v.view block.byteLength
    | none => True
  | _ => True

instance (block : GrowableSharedDataBlockInfo) (agent : Agent) (op : AgentOp) :
    Decidable (AgentCondition block agent op) := by
  unfold AgentCondition
  split <;> (try split) <;> infer_instance

def Condition (state : State) : Op → Prop
  | .join => True
  | .act a op =>
    match state.agents[a]? with
    | some agent => AgentCondition state.block agent op
    | none => True

instance (state : State) (op : Op) : Decidable (Condition state op) := by
  unfold Condition
  split <;> (try split) <;> infer_instance

/-- A view that follows its buffer has the elements for the length it was computed from, and
where its flag is off, it covers exactly that length. -/
structure SharedView.Valid (v : SharedView) : Prop where
  elements : v.lengthTracking = true → elementsOf v.view = elementCount v.view v.computedFrom
  fixed : v.lengthTracking = true → v.view.auto = false → v.view.kind = .dataView ∧
    v.view.originalByteOffset + v.view.originalByteLength = v.computedFrom

theorem elementCount_eq (view : ArrayBufferView) (byteLength : Nat) : elementCount view byteLength =
      (byteLength - view.originalByteOffset) / view.kind.elementSize := by
  unfold elementCount SpecView.extent
  dsimp only
  split
  · rfl
  · rename_i hout
    rw [Nat.sub_eq_zero_of_le (Nat.le_of_not_le hout), Nat.zero_div]

theorem notify_created (block : GrowableSharedDataBlockInfo) (newByteLength : Nat)
    (v : SharedView) :
    (notify block newByteLength v).view.kind = v.view.kind ∧
      (notify block newByteLength v).view.originalByteOffset = v.view.originalByteOffset ∧
      (notify block newByteLength v).view.originalByteLength = v.view.originalByteLength ∧
      (notify block newByteLength v).view.auto = v.view.auto := by
  obtain ⟨extent, next, hnext, -, -, -, hcreated⟩ :=
    v.view.observed_arrayBufferObserver true block.data newByteLength
  unfold notify
  rw [hnext]
  dsimp only
  split <;> exact hcreated

theorem elementsOf_notify (block : GrowableSharedDataBlockInfo) (newByteLength : Nat)
    (v : SharedView) :
    elementsOf (notify block newByteLength v).view =
      elementsOf (v.view.arrayBufferObserver true block.data newByteLength) := by
  unfold notify
  dsimp only
  split <;> rfl

variable {view : ArrayBufferView}

theorem elementsOf_eq {extent : Extent}
    (h : view.byteLength = extent.byteLength ∧ view.arrayLength = extent.arrayLength) :
    elementsOf view = match view.kind with
      | .typedArray _ => extent.arrayLength
      | .dataView => extent.byteLength := by
  unfold elementsOf
  rw [h.1, h.2]

theorem elementsOf_observer_auto (hauto : view.auto = true) (data : Option Nat)
    (newByteLength : Nat) :
    elementsOf (view.arrayBufferObserver true data newByteLength) =
      elementCount view newByteLength := by
  obtain ⟨extent, next, hnext, hobserved, -, ⟨-, hlengths⟩, hkind, -⟩ :=
    view.observed_arrayBufferObserver true data newByteLength
  rw [hnext, elementsOf_eq hlengths, hkind, elementCount_eq]
  cases hobserved with
  | outOfBounds hout =>
    rw [hauto, if_pos rfl] at hout
    rw [Nat.sub_eq_zero_of_le (Nat.le_of_lt hout), Nat.zero_div]
    cases view.kind <;> rfl
  | following _ _ elements helements =>
    rw [helements]
    cases view.kind with
    | typedArray type => rfl
    | dataView => exact Nat.mul_one _
  | restored hfixed =>
    rw [hauto] at hfixed
    cases hfixed
  | unchanged hfixed =>
    rw [hauto] at hfixed
    cases hfixed

variable {newByteLength : Nat}

theorem elementsOf_observer_fixed (hauto : view.auto = false) (hkind : view.kind = .dataView)
    (data : Option Nat)
    (hfits : view.originalByteOffset + view.originalByteLength ≤ newByteLength) :
    elementsOf (view.arrayBufferObserver true data newByteLength) = view.originalByteLength := by
  obtain ⟨extent, next, hnext, hobserved, -, ⟨-, hlengths⟩, hkind', -⟩ :=
    view.observed_arrayBufferObserver true data newByteLength
  rw [hnext, elementsOf_eq hlengths, hkind', hkind]
  cases hobserved with
  | outOfBounds hout =>
    rw [hauto, if_neg Bool.false_ne_true] at hout
    exact absurd hfits (Nat.not_le.mpr hout)
  | following hfollow =>
    rw [hauto] at hfollow
    cases hfollow
  | restored => rfl
  | unchanged _ hresizable => cases hresizable

theorem SharedView.Valid.notify {v : SharedView} (hv : v.Valid)
    (block : GrowableSharedDataBlockInfo) {newByteLength : Nat}
    (hle : v.computedFrom ≤ newByteLength) : (notify block newByteLength v).Valid := by
  obtain ⟨hkind, hoffset, hlength, hauto⟩ := notify_created block newByteLength v
  have hcount : ∀ n, elementCount (SharedArrayBuffer.notify block newByteLength v).view n =
      elementCount v.view n := by
    intro n
    rw [elementCount_eq, elementCount_eq, hkind, hoffset]
  refine ⟨fun htracking => ?_, fun htracking hfixed => ?_⟩
  · rw [hcount, elementsOf_notify]
    show _ = elementCount v.view (if v.view.auto then newByteLength else v.computedFrom)
    cases hv' : v.view.auto with
    | true => exact elementsOf_observer_auto hv' block.data newByteLength
    | false =>
      obtain ⟨hdata, hcovers⟩ := hv.fixed htracking hv'
      rw [elementsOf_observer_fixed hv' hdata block.data (hcovers ▸ hle), elementCount_eq, hdata,
        ← hcovers]
      show _ = (_ + _ - _) / 1
      rw [Nat.div_one, Nat.add_sub_cancel_left]
  · rw [hauto] at hfixed
    rw [hkind, hoffset, hlength]
    show _ ∧ _ = if v.view.auto then newByteLength else v.computedFrom
    rw [hfixed]
    exact hv.fixed htracking hfixed

variable {v : SharedView}

theorem computedFrom_notify_le (block : GrowableSharedDataBlockInfo)
    (hle : v.computedFrom ≤ newByteLength) :
    (notify block newByteLength v).computedFrom ≤ newByteLength := by
  show (if v.view.auto then newByteLength else v.computedFrom) ≤ newByteLength
  split
  · exact Nat.le_refl _
  · exact hle

def Agent.ViewsUpTo (agent : Agent) (bound : Nat) : Prop :=
  ∀ object ∈ agent.buffers, ∀ v ∈ object.views, v.Valid ∧ v.computedFrom ≤ bound

def NativeInv (block : GrowableSharedDataBlockInfo) (agent : Agent) : Native → Prop
  | .growStore _ newByteLength => newByteLength ≤ block.maxByteLength
  | .growNotify _ newByteLength _ =>
    newByteLength ≤ block.byteLength ∧ agent.ViewsUpTo newByteLength
  | .typedArraySet _ _ _ _ bufferByteLength => bufferByteLength ≤ block.byteLength
  | .dataViewSet _ _ _ bufferByteLength => bufferByteLength ≤ block.byteLength
  | _ => True

structure AgentInv (block : GrowableSharedDataBlockInfo) (agent : Agent) : Prop where
  views : agent.ViewsUpTo block.byteLength
  native : ∀ native, agent.native = some native → NativeInv block agent native

variable {agent : Agent}

theorem Agent.ViewsUpTo.mono {bound bound' : Nat} (h : agent.ViewsUpTo bound)
    (hle : bound ≤ bound') : agent.ViewsUpTo bound' :=
  fun object hobject v hv => ⟨(h object hobject v hv).1, Nat.le_trans (h object hobject v hv).2 hle⟩

theorem mem_modify {α : Type} {xs : List α} {i : Nat} {f : α → α} {y : α}
    (h : y ∈ xs.modify i f) : y ∈ xs ∨ ∃ x ∈ xs, y = f x := by
  obtain ⟨j, hj⟩ := List.mem_iff_getElem?.mp h
  rw [getElem?_modify] at hj
  obtain ⟨x, hx, rfl⟩ := Option.map_eq_some_iff.mp hj
  have hmem := List.mem_iff_getElem?.mpr ⟨j, hx⟩
  split
  · exact .inr ⟨x, hmem, rfl⟩
  · exact .inl hmem

theorem Agent.ViewsUpTo.addView {bound : Nat} (h : agent.ViewsUpTo bound) (buffer : Nat)
    (hv : v.Valid) (hle : v.computedFrom ≤ bound) :
    (agent.addView buffer v).ViewsUpTo bound := by
  intro object hobject w hw
  rcases mem_modify hobject with hold | ⟨before, hbefore, rfl⟩
  · exact h object hold w hw
  · rcases List.mem_append.mp hw with hw | hw
    · exact h before hbefore w hw
    · cases List.mem_singleton.mp hw
      exact ⟨hv, hle⟩

theorem Agent.ViewsUpTo.notify {agent' : Agent} (h : agent.ViewsUpTo newByteLength)
    (block : GrowableSharedDataBlockInfo) (buffer view : Nat)
    (hbuffers : agent'.buffers = agent.buffers.modify buffer fun object =>
      { object with views := object.views.modify view (notify block newByteLength) }) :
    agent'.ViewsUpTo newByteLength := by
  intro object hobject w hw
  rw [hbuffers] at hobject
  rcases mem_modify hobject with hold | ⟨before, hbefore, rfl⟩
  · exact h object hold w hw
  · rcases mem_modify hw with hw | ⟨v, hv, rfl⟩
    · exact h before hbefore w hw
    · obtain ⟨hvalid, hle⟩ := h before hbefore v hv
      exact ⟨hvalid.notify block hle, computedFrom_notify_le block hle⟩

variable {block : GrowableSharedDataBlockInfo}

theorem AgentInv.inScript (hviews : agent.ViewsUpTo block.byteLength) :
    AgentInv block agent.inScript :=
  ⟨hviews, fun _ h => nomatch h⟩

theorem AgentInv.inNative {native : Native} (hviews : agent.ViewsUpTo block.byteLength)
    (hnative : NativeInv block agent native) :
    AgentInv block (agent.inNative native) := by
  refine ⟨hviews, fun other hother => ?_⟩
  cases hother
  cases native <;> exact hnative

theorem AgentInv.mono {block' : GrowableSharedDataBlockInfo} (h : AgentInv block agent)
    (hle : block.byteLength ≤ block'.byteLength)
    (hmax : block'.maxByteLength = block.maxByteLength) : AgentInv block' agent := by
  refine ⟨h.views.mono hle, fun native hnative => ?_⟩
  have hinv := h.native native hnative
  cases native with
  | growStore _ n => exact Nat.le_trans hinv (Nat.le_of_eq hmax.symm)
  | growNotify _ n _ => exact ⟨Nat.le_trans hinv.1 hle, hinv.2⟩
  | typedArraySet _ _ _ _ n => exact Nat.le_trans hinv hle
  | dataViewSet _ _ _ n => exact Nat.le_trans hinv hle
  | _ => trivial

theorem toSize_le {n : IntegerOrInfinity} {byteLength maxByteLength : Nat}
    (h : (n.isBelow byteLength || n.isAbove maxByteLength) = false) :
    n.toSize ≤ maxByteLength := by
  obtain ⟨-, habove⟩ := Bool.or_eq_false_iff.mp h
  cases n with
  | negativeInfinity => exact Nat.zero_le _
  | finite n =>
    have hle := of_decide_eq_false habove
    show n.toNat ≤ maxByteLength
    omega
  | positiveInfinity => exact Nat.zero_le _

variable (block)

theorem valid_typedArray (type : TypedArrayType) (offset bufferByteLength : Nat) :
    SharedView.Valid ⟨setBuffer block (.typedArray type) offset (bufferByteLength - offset)
      ((bufferByteLength - offset) / type.elementSize) true, true, bufferByteLength⟩ := by
  refine ⟨fun _ => ?_, fun _ hfixed => nomatch hfixed⟩
  rw [elementCount_eq]
  rfl

theorem valid_dataView {offset bufferByteLength : Nat}
    (byteLength : Option (Option Nat)) (hfits : offset ≤ bufferByteLength) :
    SharedView.Valid ⟨setBuffer block .dataView offset
      (byteLength.join.getD (bufferByteLength - offset)) 0 byteLength.isNone,
      byteLength.join.isNone, bufferByteLength⟩ := by
  have hwhole : byteLength.join.isNone = true →
      byteLength.join.getD (bufferByteLength - offset) = bufferByteLength - offset := by
    intro hnone
    rw [Option.isNone_iff_eq_none.mp hnone]
    rfl
  refine ⟨fun htracking => ?_, fun htracking _ => ⟨rfl, ?_⟩⟩
  · rw [elementCount_eq]
    exact (hwhole htracking).trans (Nat.div_one _).symm
  · show offset + _ = _
    rw [hwhole htracking]
    exact Nat.add_sub_cancel' hfits

variable {block}

/-- What one step of an agent keeps, if it meets the condition. -/
structure Kept (block : GrowableSharedDataBlockInfo)
    (result : GrowableSharedDataBlockInfo × Agent × Answer) : Prop where
  grows : block.byteLength ≤ result.1.byteLength
  bounded : result.1.byteLength ≤ result.1.maxByteLength
  maxByteLength : result.1.maxByteLength = block.maxByteLength
  inv : AgentInv result.1 result.2.1

variable {out : Answer}

theorem Kept.of_same (hbound : block.byteLength ≤ block.maxByteLength)
    (hinv : AgentInv block agent) :
    Kept block (block, agent, out) :=
  ⟨Nat.le_refl _, hbound, rfl, hinv⟩

theorem kept_advance {native : Native} (hbound : block.byteLength ≤ block.maxByteLength)
    (hinv : AgentInv block agent) (hnative : agent.native = some native)
    (hcondition : AgentCondition block agent .advance) :
    Kept block (agent.advance block native) := by
  have hviews := hinv.views
  have hn := hinv.native native hnative
  cases native with
  | growRead buffer newByteLength => exact .of_same hbound (.inNative hviews trivial)
  | growCompare buffer newByteLength byteLength =>
    rw [Agent.advance]
    split
    · exact .of_same hbound (.inScript hviews)
    · rename_i hpassed
      exact .of_same hbound (.inNative hviews (toSize_le (Bool.not_eq_true _ ▸ hpassed)))
  | growStore buffer newByteLength =>
    rw [AgentCondition, hnative] at hcondition
    exact ⟨hcondition, hn, rfl, .inNative (hviews.mono hcondition) trivial⟩
  | growLoad buffer => exact .of_same hbound (.inNative hviews ⟨Nat.le_refl _, hviews⟩)
  | growNotify buffer newByteLength view =>
    rw [Agent.advance]
    split
    · exact .of_same hbound (.inScript hviews)
    · have hnotified : Agent.ViewsUpTo
          ⟨agent.buffers.modify buffer fun object =>
              { object with views := object.views.modify view (notify block newByteLength) },
            agent.native, agent.suspended⟩ newByteLength :=
        hn.2.notify block buffer view rfl
      exact .of_same hbound (.inNative (hnotified.mono hn.1) ⟨hn.1, hnotified⟩)
  | typedArrayRead buffer type offset length =>
    exact .of_same hbound (.inNative hviews (Nat.le_refl _))
  | typedArraySet buffer type offset length bufferByteLength =>
    unfold Agent.advance
    cases length with
    | none =>
      dsimp only
      split
      · exact .of_same hbound (.inScript hviews)
      · exact .of_same hbound
          (.inScript (hviews.addView buffer (valid_typedArray block type offset _) hn))
    | some newLength =>
      dsimp only
      split
      · exact .of_same hbound (.inScript hviews)
      · exact .of_same hbound (.inScript (hviews.addView buffer
          ⟨(nomatch ·), (nomatch ·)⟩ hn))
  | dataViewRead buffer offset byteLength =>
    unfold Agent.advance
    dsimp only
    split
    · exact .of_same hbound (.inScript hviews)
    · exact .of_same hbound ⟨hviews, fun _ h => nomatch h⟩
  | dataViewReread buffer offset byteLength =>
    exact .of_same hbound (.inNative hviews (Nat.le_refl _))
  | dataViewSet buffer offset byteLength bufferByteLength =>
    unfold Agent.advance
    dsimp only
    split
    · exact .of_same hbound (.inScript hviews)
    · rename_i hfits
      exact .of_same hbound (.inScript (hviews.addView buffer
        (valid_dataView block byteLength (Nat.not_lt.mp (not_or.mp hfits).1)) hn))

theorem AgentInv.script {agent' : Agent} {call : Call} (hinv : AgentInv block agent)
    (hidle : agent.native = none) (hstep : agent.script call = some (agent', out)) :
    AgentInv block agent' := by
  have hviews := hinv.views
  cases call with
  | receive =>
    cases hstep
    have hviews' : Agent.ViewsUpTo ⟨agent.buffers ++ [⟨[]⟩], agent.native, agent.suspended⟩
        block.byteLength := by
      intro object hobject v hv
      rcases List.mem_append.mp hobject with hold | hnew
      · exact hviews object hold v hv
      · cases List.mem_singleton.mp hnew
        cases hv
    exact ⟨hviews', fun native hnative => nomatch hidle.symm.trans hnative⟩
  | grow buffer newLength =>
    cases hstep
    exact .inNative hviews trivial
  | newTypedArray buffer type byteOffset length =>
    rw [Agent.script] at hstep
    split at hstep
    · cases hstep
      exact hinv
    · cases hstep
      exact .inNative hviews trivial
  | newDataView buffer byteOffset byteLength =>
    cases hstep
    exact .inNative hviews trivial
  | resume =>
    unfold Agent.script at hstep
    dsimp only at hstep
    split at hstep
    · cases hstep
    · cases hstep
      refine ⟨hviews, fun native hnative => ?_⟩
      cases hnative
      trivial
  | access buffer view =>
    obtain ⟨v, -, hpair⟩ := Option.map_eq_some_iff.mp hstep
    cases hpair
    exact hinv

theorem kept_step {op : AgentOp} {result : GrowableSharedDataBlockInfo × Agent × Answer}
    (hbound : block.byteLength ≤ block.maxByteLength) (hinv : AgentInv block agent)
    (hcondition : AgentCondition block agent op) (hstep : agent.step block op = some result) :
    Kept block result := by
  cases op with
  | advance =>
    obtain ⟨native, hnative, rfl⟩ := Option.map_eq_some_iff.mp hstep
    exact kept_advance hbound hinv hnative hcondition
  | script call =>
    rw [Agent.step] at hstep
    split at hstep
    · cases hstep
    · rename_i hidle
      obtain ⟨⟨agent', out⟩, hcall, rfl⟩ := Option.map_eq_some_iff.mp hstep
      rw [not_isSome_iff_eq_none] at hidle
      exact .of_same hbound (hinv.script hidle hcall)

/-- The shared length is within its bound and the invariant holds of every agent. -/
structure Inv (state : State) : Prop where
  bounded : state.block.byteLength ≤ state.block.maxByteLength
  agents : ∀ agent ∈ state.agents, AgentInv state.block agent

theorem inv_start (block : AllocatedBlock) : Inv (start block) :=
  ⟨block.byteLength_le, fun _ h => nomatch h⟩

variable {state next : State}

theorem step_cases {op : Op} (hstep : step state op = some (next, out)) :
    (op = .join ∧ next = { state with agents := state.agents ++ [⟨[], none, []⟩] }) ∨
      ∃ a agentOp agent block agent', op = .act a agentOp ∧ state.agents[a]? = some agent ∧
        agent.step state.block agentOp = some (block, agent', out) ∧
        next = ⟨block, state.agents.set a agent'⟩ := by
  cases op with
  | join =>
    cases hstep
    exact .inl ⟨rfl, rfl⟩
  | act a agentOp =>
    obtain ⟨agent, hagent, hstep⟩ := Option.bind_eq_some_iff.mp hstep
    obtain ⟨⟨block, agent', out'⟩, hagentStep, hpair⟩ := Option.map_eq_some_iff.mp hstep
    cases hpair
    exact .inr ⟨a, agentOp, agent, block, agent', rfl, hagent, hagentStep, rfl⟩

theorem step_kept {op : Op} (hinv : Inv state) (hcondition : Condition state op)
    (hstep : step state op = some (next, out)) :
    state.block.byteLength ≤ next.block.byteLength ∧ Inv next := by
  rcases step_cases hstep with ⟨-, rfl⟩ | ⟨a, agentOp, agent, block, agent', rfl, hagent, hagentStep, rfl⟩
  · refine ⟨Nat.le_refl _, hinv.bounded, fun agent hmem => ?_⟩
    rcases List.mem_append.mp hmem with hold | hnew
    · exact hinv.agents agent hold
    · cases List.mem_singleton.mp hnew
      exact ⟨fun _ h => (nomatch h), fun _ h => (nomatch h)⟩
  · rw [Condition, hagent] at hcondition
    have hkept := kept_step hinv.bounded (hinv.agents agent (mem_of_getElem? hagent))
      hcondition hagentStep
    refine ⟨hkept.grows, hkept.bounded, fun other hmem => ?_⟩
    rcases mem_or_eq_of_mem_set hmem with hold | rfl
    · exact (hinv.agents other hold).mono hkept.grows hkept.maxByteLength
    · exact hkept.inv

theorem inv_of_reachedBy {block : AllocatedBlock}
    (hreached : ReachedBy step Condition (start block) state) : Inv state :=
  hreached.invariant (inv_start block) fun hinv hcondition hstep =>
    (step_kept hinv hcondition hstep).2

theorem access_out {a buffer view : Nat} (hagent : state.agents[a]? = some agent)
    (hview : agent.view? buffer view = some v)
    (hstep : step state (.act a (.script (.access buffer view))) = some (next, out)) :
    out = .elements (elementsOf v.view) := by
  rw [step, hagent, bind_some, Agent.step] at hstep
  split at hstep
  · cases hstep
  · rw [Agent.script, hview] at hstep
    cases hstep
    rfl

theorem valid_view (hinv : Inv state) {a buffer view : Nat}
    (hagent : state.agents[a]? = some agent) (hview : agent.view? buffer view = some v) :
    v.Valid := by
  obtain ⟨object, hobject, hv⟩ := Option.bind_eq_some_iff.mp hview
  exact ((hinv.agents agent (mem_of_getElem? hagent)).views object
    (mem_of_getElem? hobject) v (mem_of_getElem? hv)).1

theorem agentCondition_of_grows {a : Nat} {op : AgentOp} (hinv : Inv state)
    (hagent : state.agents[a]? = some agent) (hstep : step state (.act a op) = some (next, out))
    (hgrows : state.block.byteLength ≤ next.block.byteLength)
    (haccess : ∀ buffer view v, op = .script (.access buffer view) →
      agent.view? buffer view = some v → v.lengthTracking = true →
      out = .elements (elementCount v.view state.block.byteLength)) :
    AgentCondition state.block agent op := by
  cases op with
  | advance =>
    rw [AgentCondition]
    split
    · rename_i buffer newByteLength hnative
      rw [step, hagent, bind_some, Agent.step, hnative] at hstep
      cases hstep
      exact hgrows
    · trivial
  | script call =>
    cases call with
    | access buffer view =>
      rw [AgentCondition]
      split
      · rename_i v hview
        intro htracking
        have hseen := access_out hagent hview hstep
        rw [(valid_view hinv hagent hview).elements htracking] at hseen
        exact Answer.elements.inj (hseen.symm.trans (haccess buffer view v rfl hview htracking))
      · trivial
    | _ => trivial

/-- In every run whose steps meet the condition every state keeps the shared length within its
bound, and a step from there keeps its growth and accesses exactly if it meets the condition. -/
theorem growable_block_is_safe (block : AllocatedBlock) {state : State}
    (hreached : ReachedBy step Condition (start block) state) :
    state.block.byteLength ≤ state.block.maxByteLength ∧
      ∀ op next out, step state op = some (next, out) →
        (GrowsAndAccesses state op next out ↔ Condition state op) := by
  have hinv := inv_of_reachedBy hreached
  refine ⟨hinv.bounded, fun op next out hstep => ⟨fun hmeets => ?_, fun hcondition => ?_⟩⟩
  · obtain ⟨hgrows, -, haccess⟩ := hmeets
    cases op with
    | join => trivial
    | act a agentOp =>
      rw [Condition]
      split
      · rename_i agent hagent
        exact agentCondition_of_grows hinv hagent hstep hgrows
          fun buffer view v hop => haccess a agent buffer view v (congrArg _ hop) hagent
      · trivial
  · obtain ⟨hgrows, hnext⟩ := step_kept hinv hcondition hstep
    refine ⟨hgrows, hnext.bounded, fun a agent buffer view v hop hagent hview htracking => ?_⟩
    subst hop
    rw [Condition, hagent] at hcondition
    dsimp only at hcondition
    rw [AgentCondition, hview] at hcondition
    rw [access_out hagent hview hstep, (valid_view hinv hagent hview).elements htracking,
      hcondition htracking]

def fourOfSixteen : AllocatedBlock := ⟨⟨some 4096, 4, 16⟩, by decide⟩

/-- Two agents hold the block, and the first has a byte array that follows it. -/
def twoHolders : List Op :=
  [.join, .join, .act 0 (.script .receive), .act 1 (.script .receive),
    .act 0 (.script (.newTypedArray 0 .uint8 0 none)), .act 0 .advance, .act 0 .advance]

/-- The first agent grows the block to eight bytes, and its array is told. -/
def firstGrows : List Op :=
  twoHolders ++ .act 0 (.script (.grow 0 (.finite 8))) :: List.replicate 6 (.act 0 .advance)

def grownByFirst : State :=
  ((run step firstGrows (start fourOfSixteen)).map (·.1)).getD (start fourOfSixteen)

theorem array_of_grower_follows :
    GrowsAndAccesses grownByFirst (.act 0 (.script (.access 0 0))) grownByFirst (.elements 8) :=
  ((growable_block_is_safe fourOfSixteen
    ⟨firstGrows, List.replicate 14 .done, by decide +kernel, by decide +kernel⟩).2 _ _ _
      (by decide +kernel)).mpr (by decide +kernel)

/-- A whole `grow` by the second agent, up to the notification. -/
def secondGrows (newLength : Int) : List Op :=
  .act 1 (.script (.grow 0 (.finite newLength))) :: List.replicate 5 (.act 1 .advance)

/-- The first agent compared its new length eight with four, then the second grows to sixteen. -/
def overtaken : List Op :=
  twoHolders ++ [.act 0 (.script (.grow 0 (.finite 8))), .act 0 .advance, .act 0 .advance] ++
    secondGrows 16

/-- The store of the overtaken `grow` shrinks the block, and an array does not see that another
agent grew the block. -/
theorem grow_is_lost :
    (run step overtaken (start fourOfSixteen)).map (·.1.block.byteLength) = some 16 ∧
      (run step (overtaken ++ [.act 0 .advance]) (start fourOfSixteen)).map
        (·.1.block.byteLength) = some 8 ∧
      (run step (twoHolders ++ secondGrows 16 ++ [.act 0 (.script (.access 0 0))])
        (start fourOfSixteen)).map (fun result => (result.1.block.byteLength, result.2.getLast?)) =
          some (16, some (.elements 4)) := by
  decide +kernel

end Escargot.Runtime.SharedArrayBuffer
