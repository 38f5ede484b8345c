/-
# Waiter lists

`Atomics.wait`, `Atomics.waitAsync` and `Atomics.notify`. The waiters of all
shared blocks are kept in one table of lists. The key of a list is a pointer
that is computed from the address of a block and a byte position. Every
critical section is one step, and so is every return of a waiter, by its flag
or by its time-out. Steps of all agents come in any order.
-/

import Escargot.Runtime.TypedArray

namespace Escargot.Runtime.WaiterList

open List Foundation

/-- What the compiled code and its platform decide. -/
structure Setting where
  order : ByteOrder
  strings : StringConversions
  canBlockExecution : Nat → Bool

/-- A typed array over a shared block. -/
structure View where
  block : Nat
  type : TypedArrayType
  byteOffset : Nat
  arrayLength : Nat

/-- The types for which `validateIntegerTypedArray` lets an agent wait. -/
def View.isWaitable (view : View) : Bool := view.type == .int32 || view.type == .bigInt64

/-- `validateAtomicAccess`, without an index where `toIndex` gives none. -/
def validateAtomicAccess (view : View) (index : Option Nat) : Except ThrownError Nat :=
  match index with
  | some accessIndex =>
    if accessIndex ≥ view.arrayLength then .error (.rangeError "%s: invalid range")
    else .ok (accessIndex * view.type.elementSize + view.byteOffset)
  | none => .error (.rangeError "%s: invalid range")

def toInt32 (strings : StringConversions) : Primitive → Except ThrownError Int32
  | .int32 i => .ok i
  | value => do return (← value.toNumber strings).toInt32SlowCase.toInt32

variable (strings : StringConversions) (type : TypedArrayType)

/-- The value a waiter compares its element with. -/
def expectedValue (value : Primitive) : Except ThrownError Primitive :=
  match type with
  | .bigInt64 => do return .bigInt (← value.toBigInt strings)
  | _ => do return .int32 (← toInt32 strings value)

inductive Timeout
  | zero
  | finite
  | infinite
  deriving DecidableEq

def timeoutOf (q : Double) : Timeout :=
  if q.isnan || (!q.isfinite && !q.signbit) then .infinite
  else if q.signbit || q.magnitude.toNat == 0 then .zero
  else .finite

/-- The count that `notify` is called with, none for infinity. -/
def countOf : Primitive → Except ThrownError (Option Nat)
  | .undefined => .ok none
  | count => do
      let d ← count.toNumber strings
      if d.isnan then return some 0
      match d.truncated with
      | some intCount => return some intCount.toNat
      | none => return if d.signbit then some 0 else none

/-- `Value::equalsTo` of two values of a kind an element has. -/
def equalsTo : Primitive → Primitive → Bool
  | .int32 a, .int32 b => a == b
  | .bigInt a, .bigInt b => a == b
  | _, _ => false

/-- How far a waiter is: in its list, out of it, reported to its agent, or finished. Out of the
list it has the value of `notified`. -/
inductive Progress
  | waiting
  | left (notified : Bool)
  | reported (notified : Bool)
  | finished (ok : Bool)
  deriving DecidableEq

/-- `WaiterItem`, with its call: the agent, the kind, whether it waits for ever, and the block and
position it is about. Of the place the code keeps only `m_waiter`, here its address. -/
structure WaiterItem where
  agent : Nat
  isAsync : Bool
  infinite : Bool
  block : Nat
  position : Nat
  waiter : Nat
  notified : Bool
  progress : Progress
  deriving DecidableEq

/-- `Waiter`, whose list has the numbers of its items. -/
structure Waiter where
  blockAddress : Nat
  waiterList : List Nat
  deriving DecidableEq

/-- A shared block: its address and its bytes. -/
structure DataBlock where
  data : Nat
  bytes : List UInt8
  deriving DecidableEq

structure State where
  blocks : List DataBlock
  waiters : List Waiter
  items : List WaiterItem
  deriving DecidableEq

/-- `Global::waiter`: a list is made when it is first asked for. -/
def findWaiter (waiters : List Waiter) (blockAddress : Nat) : List Waiter :=
  if waiters.any (·.blockAddress == blockAddress) then waiters
  else waiters ++ [⟨blockAddress, []⟩]

def listAt (waiters : List Waiter) (blockAddress : Nat) : List Nat :=
  ((waiters.find? (·.blockAddress == blockAddress)).map (·.waiterList)).getD []

def updateList (waiters : List Waiter) (blockAddress : Nat) (f : List Nat → List Nat) :
    List Waiter :=
  waiters.map fun w =>
    if w.blockAddress = blockAddress then { w with waiterList := f w.waiterList } else w

/-- `reinterpret_cast<int32_t*>(buffer->data()) + i`: the index counts units of four bytes. -/
def indexedAddress (data i : Nat) : Nat := data + 4 * i

variable (setting : Setting)

/-- The number that `getValueFromBuffer` reads. -/
def element (block : DataBlock) (i : Nat) (type : TypedArrayType) : Primitive :=
  rawBytesToNumber setting.order type ((block.bytes.drop i).take type.elementSize)

/-- An agent in `Atomics.wait` does nothing else. -/
def suspended (items : List WaiterItem) (agent : Nat) : Bool :=
  items.any fun item => item.agent == agent && !item.isAsync && item.progress == .waiting

inductive Op
  | write (block : Nat) (bytes : List UInt8)
  | wait (agent : Nat) (isAsync : Bool) (view : View) (index : Option Nat)
      (value timeout : Primitive)
  | notify (agent : Nat) (view : View) (index : Option Nat) (count : Primitive)
  | wake (item : Nat)
  | report (item : Nat)
  | settle (agent : Nat)

/-- What a step answers. A notification says how many waiters it removed, and which. -/
inductive Answer
  | done
  | threw (error : ThrownError)
  | notEqual
  | timedOut
  | enlisted (item : Nat)
  | notified (n : Nat) (removed : List Nat)
  deriving DecidableEq

def doWait (state : State) (block : DataBlock) (agent : Nat) (isAsync : Bool)
    (view : View) (index : Option Nat) (value timeout : Primitive) :
    Except ThrownError (State × Answer) := do
  if !view.isWaitable then throw (.typeError "%s: illegal first argument")
  let i ← validateAtomicAccess view index
  let v ← expectedValue setting.strings view.type value
  let q ← timeout.toNumber setting.strings
  let t := timeoutOf q
  if !isAsync && !setting.canBlockExecution agent then
    throw (.typeError "Cannot suspend this thread")
  let address := indexedAddress block.data i
  let waiters := findWaiter state.waiters address
  let w := element setting block i view.type
  if !equalsTo v w then return ({ state with waiters }, .notEqual)
  if t = .zero ∧ isAsync = true then return ({ state with waiters }, .timedOut)
  let item : WaiterItem :=
    { agent, isAsync
      infinite := t == .infinite
      block := view.block
      position := i
      waiter := address
      notified := false
      progress := .waiting }
  let number := state.items.length
  return ({ state with
    waiters := updateList waiters address (· ++ [number])
    items := state.items ++ [item] }, .enlisted number)

/-- The loop of `builtinAtomicsNotify`: take the front of the list and set its flag. -/
def notifyFront : Nat → List Nat → List WaiterItem → List Nat × List WaiterItem
  | 0, waiterList, items => (waiterList, items)
  | _ + 1, [], items => ([], items)
  | n + 1, front :: waiterList, items =>
    notifyFront n waiterList (items.modify front fun item => { item with notified := true })

def builtinAtomicsNotify (state : State) (block : DataBlock) (view : View)
    (index : Option Nat) (count : Primitive) : Except ThrownError (State × Answer) := do
  if !view.isWaitable then throw (.typeError "%s: illegal first argument")
  let indexedPosition ← validateAtomicAccess view index
  let c ← countOf setting.strings count
  let address := indexedAddress block.data indexedPosition
  let waiters := findWaiter state.waiters address
  let waiterList := listAt waiters address
  let n := (c.map (min waiterList.length)).getD waiterList.length
  let (rest, items) := notifyFront n waiterList state.items
  return ({ state with waiters := updateList waiters address fun _ => rest, items },
    .notified n (waiterList.take n))

/-- A waiter stops sleeping, has the lock again and leaves its list. One that waits for ever stops
only when its flag is set. -/
def wake (state : State) (number : Nat) : Option (State × Answer) :=
  state.items[number]?.bind fun item =>
    if item.progress = .waiting ∧ (item.notified = true ∨ item.infinite = false) then
      let progress : Progress :=
        if item.isAsync then .left item.notified else .finished item.notified
      some ({ state with
        waiters := updateList state.waiters item.waiter (·.filter (· ≠ number))
        items := state.items.modify number fun item => { item with progress } }, .done)
    else none

/-- The thread of an asynchronous waiter hands its result to the agent. -/
def report (state : State) (number : Nat) : Option (State × Answer) :=
  state.items[number]?.bind fun item =>
    match item.progress with
    | .left notified =>
      some ({ state with
        items := state.items.modify number fun item =>
          { item with progress := .reported notified } }, .done)
    | _ => none

variable (agent : Nat) (item : WaiterItem)

/-- `executePendingJobFromAnotherThread`: fulfill the promises of the reported waiters. -/
def settleItem : WaiterItem :=
  match item.progress with
  | .reported notified =>
    if item.agent = agent then { item with progress := .finished notified } else item
  | _ => item

/-- A call that threw leaves the state alone. -/
def answerOf (state : State) : Except ThrownError (State × Answer) → State × Answer
  | .ok result => result
  | .error error => (state, .threw error)

def step (state : State) : Op → Option (State × Answer)
  | .write b bytes =>
    state.blocks[b]?.bind fun block =>
      if bytes.length = block.bytes.length then
        some ({ state with blocks := state.blocks.set b { block with bytes } }, .done)
      else none
  | .wait agent isAsync view index value timeout =>
    if suspended state.items agent then none
    else
      state.blocks[view.block]?.map fun block =>
        answerOf state (doWait setting state block agent isAsync view index value timeout)
  | .notify agent view index count =>
    if suspended state.items agent then none
    else
      state.blocks[view.block]?.map fun block =>
        answerOf state (builtinAtomicsNotify setting state block view index count)
  | .wake number => wake state number
  | .report number => report state number
  | .settle agent =>
    if suspended state.items agent then none
    else some ({ state with items := state.items.map (settleItem agent) }, .done)

/-- Shared blocks at disjoint addresses. -/
structure Memory where
  blocks : List DataBlock
  disjoint : blocks.Pairwise fun a b =>
    a.data + a.bytes.length ≤ b.data ∨ b.data + b.bytes.length ≤ a.data

def start (memory : Memory) : State := ⟨memory.blocks, [], []⟩

/-- The waiters for a block and a position that are in their list, in its order. -/
def State.enlisted (state : State) (b position : Nat) : List Nat :=
  match state.blocks[b]? with
  | some block =>
    (listAt state.waiters (indexedAddress block.data position)).filter fun number =>
      state.items[number]?.any fun item => item.block == b && item.position == position
  | none => []

/-- The value converted by `ToInt32` or `ToBigInt64`. -/
def convertedValue (value : Primitive) : Except ThrownError Primitive :=
  match type with
  | .bigInt64 => do
      return .bigInt (TypedArrayType.bigInt64.represented (Double.wrap 64 (← value.toBigInt strings)))
  | _ => do return .int32 (.ofNat (Double.modular 32 (← value.toNumber strings)))

/-- The waiters that notifications removed. -/
def removedBy (outs : List Answer) : List Nat :=
  outs.flatMap fun
    | .notified _ removed => removed
    | _ => []

/-- A step that changes the waiters of no place. -/
def KeepsLists (state next : State) : Prop :=
  ∀ b position, next.enlisted b position = state.enlisted b position

/-- A notification that is not refused removes and marks the oldest waiters of its place, as many
as it was asked for or as there are, says how many, and leaves all others alone. -/
def NotifyMeets (state next : State) (out : Answer) (view : View)
    (index : Option Nat) (count : Primitive) : Prop :=
  ∀ i c, view.isWaitable = true → validateAtomicAccess view index = .ok i →
    countOf setting.strings count = .ok c →
    let own := state.enlisted view.block i
    let n := (c.map (min own.length)).getD own.length
    out = .notified n (own.take n) ∧ next.enlisted view.block i = own.drop n ∧
      (∀ number item, state.items[number]? = some item → next.items[number]? =
        some (if number ∈ own.take n then { item with notified := true } else item)) ∧
      ∀ b position, (b, position) ≠ (view.block, i) →
        next.enlisted b position = state.enlisted b position

/-- A wait that is not refused enlists a waiter exactly when the element equals the converted
value, except for an asynchronous one without time, and leaves all others alone. -/
def WaitMeets (state next : State) (out : Answer) (block : DataBlock)
    (agent : Nat) (isAsync : Bool) (view : View) (index : Option Nat)
    (value timeout : Primitive) : Prop :=
  ∀ i v q, view.isWaitable = true → validateAtomicAccess view index = .ok i →
    convertedValue setting.strings view.type value = .ok v →
    timeout.toNumber setting.strings = .ok q →
    (isAsync = true ∨ setting.canBlockExecution agent = true) →
    if element setting block i view.type = v ∧ ¬ (isAsync = true ∧ timeoutOf q = .zero) then
      out = .enlisted state.items.length ∧
        next.enlisted view.block i = state.enlisted view.block i ++ [state.items.length] ∧
        ∀ b position, (b, position) ≠ (view.block, i) →
          next.enlisted b position = state.enlisted b position
    else
      out = (if element setting block i view.type = v then .timedOut else .notEqual) ∧
        KeepsLists state next

def StepMeets (state : State) (op : Op) (next : State) (out : Answer) : Prop :=
  match op with
  | .notify _ view index count => NotifyMeets setting state next out view index count
  | .wait agent isAsync view index value timeout =>
    ∀ block, state.blocks[view.block]? = some block →
      WaitMeets setting state next out block agent isAsync view index value timeout
  | .wake number =>
    ∀ b position, next.enlisted b position = (state.enlisted b position).filter (· ≠ number)
  | _ => KeepsLists state next

/-- Waiters stand in the order in which they came, and one that finished did so with `ok` exactly
if a notification removed it, and is in no list. -/
def StateMeets (state : State) (outs : List Answer) : Prop :=
  (∀ b position, (state.enlisted b position).Pairwise (· < ·)) ∧
    ∀ number item ok, state.items[number]? = some item → item.progress = .finished ok →
      (ok = true ↔ number ∈ removedBy outs) ∧ ∀ w ∈ state.waiters, number ∉ w.waiterList

/-- No waiter of another block is in the list a notification takes from, and a big integer that is
waited for is its own conversion. -/
def Condition (state : State) : Op → Prop
  | .notify _ view index _ =>
    match state.blocks[view.block]?, validateAtomicAccess view index with
    | some block, .ok i =>
      ∀ number ∈ listAt state.waiters (indexedAddress block.data i),
        (state.items[number]?.all fun item => item.block == view.block) = true
    | _, _ => True
  | .wait _ _ view _ value _ =>
    match view.type, value.toBigInt setting.strings with
    | .bigInt64, .ok n => TypedArrayType.bigInt64.lowest ≤ n ∧ n ≤ TypedArrayType.bigInt64.highest
    | _, _ => True
  | _ => True

instance (setting : Setting) (state : State) (op : Op) : Decidable (Condition setting state op) := by
  unfold Condition
  split <;> (try split) <;> infer_instance

/-- In its list, and not taken from it by a notification. -/
def WaiterItem.isEnlisted : Bool := item.progress == .waiting && !item.notified

/-- The numbers of the items with a property, in the order in which they came. -/
def select (p : WaiterItem → Bool) (items : List WaiterItem) : List Nat :=
  (List.range items.length).filter fun number => items[number]?.any p

variable {p q : WaiterItem → Bool} {items items' : List WaiterItem} {number : Nat}

theorem mem_select :
    number ∈ select p items ↔ ∃ item, items[number]? = some item ∧ p item = true := by
  rw [select, mem_filter, Option.any_eq_true]
  constructor
  · exact fun h => h.2
  · rintro ⟨item, hitem, hp⟩
    exact ⟨List.mem_range.mpr (List.getElem?_eq_some_iff.mp hitem).1, item, hitem, hp⟩

variable (p) (items)

theorem pairwise_select : (select p items).Pairwise (· < ·) := List.pairwise_lt_range.filter _

theorem nodup_select : (select p items).Nodup := (pairwise_select p items).imp Nat.ne_of_lt

variable {p} {items}

theorem select_congr (h : ∀ item ∈ items, p item = q item) : select p items = select q items := by
  refine filter_congr fun number _ => ?_
  cases hitem : items[number]? with
  | none => rfl
  | some item => exact h item (mem_of_getElem? hitem)

theorem select_eq_nil (h : ∀ item ∈ items, p item = false) : select p items = [] := by
  rw [eq_nil_iff_forall_not_mem]
  intro number hnumber
  obtain ⟨item, hitem, hp⟩ := mem_select.mp hnumber
  rw [h item (mem_of_getElem? hitem)] at hp
  cases hp

variable (p) (q) (items)

theorem filter_select : (select p items).filter (fun number => items[number]?.any q) =
      select (fun item => p item && q item) items := by
  unfold select
  rw [List.filter_filter]
  refine filter_congr fun number _ => ?_
  cases items[number]? with
  | none => rfl
  | some item => exact Bool.and_comm _ _

theorem select_append :
    select p (items ++ [item]) = select p items ++ if p item then [items.length] else [] := by
  unfold select
  rw [length_append, length_singleton, range_succ, filter_append]
  congr 1
  · refine filter_congr fun number hnumber => ?_
    rw [getElem?_append_left (List.mem_range.mp hnumber)]
  · rw [filter_singleton, getElem?_concat_length]
    cases h : p item <;> simp [h]

variable {p} {q} {items}

structure Leaves (items items' : List WaiterItem) (keep : Nat → Bool) : Prop where
  length_eq : items'.length = items.length
  item : ∀ number item, items[number]? = some item → ∃ item', items'[number]? = some item' ∧
    (item'.block = item.block ∧ item'.position = item.position ∧ item'.waiter = item.waiter) ∧
    item'.isEnlisted = (item.isEnlisted && keep number)

theorem Leaves.select_eq {keep : Nat → Bool} (h : Leaves items items' keep)
    (hp : ∀ number item item', items[number]? = some item → items'[number]? = some item' →
      (item'.block = item.block ∧ item'.position = item.position ∧ item'.waiter = item.waiter) →
      item'.isEnlisted = (item.isEnlisted && keep number) → p item' = (p item && keep number)) :
    select p items' = (select p items).filter keep := by
  unfold select
  rw [h.length_eq, List.filter_filter]
  refine filter_congr fun number hnumber => ?_
  have hitem := getElem?_eq_getElem (List.mem_range.mp hnumber)
  obtain ⟨item', hitem', hplace, henlisted⟩ := h.item number _ hitem
  rw [hitem, hitem']
  show p item' = (keep number && p _)
  rw [hp number _ item' hitem hitem' hplace henlisted, Bool.and_comm]

def isUnder (address : Nat) (item : WaiterItem) : Bool := item.isEnlisted && item.waiter == address

def isFor (b position : Nat) (item : WaiterItem) : Bool :=
  item.isEnlisted && (item.block == b && item.position == position)

theorem Leaves.select_isUnder {keep : Nat → Bool} (h : Leaves items items' keep) (address : Nat) :
    select (isUnder address) items' = (select (isUnder address) items).filter keep := by
  refine h.select_eq fun number item item' _ _ hplace henlisted => ?_
  rw [isUnder, isUnder, henlisted, hplace.2.2, Bool.and_right_comm]

theorem Leaves.select_isFor {keep : Nat → Bool} (h : Leaves items items' keep) (b position : Nat) :
    select (isFor b position) items' = (select (isFor b position) items).filter keep := by
  refine h.select_eq fun number item item' _ _ hplace henlisted => ?_
  rw [isFor, isFor, henlisted, hplace.1, hplace.2.1, Bool.and_right_comm]

variable {waiters : List Waiter} {address : Nat} {f : List Nat → List Nat} {w : Waiter}

theorem mem_findWaiter (h : w ∈ findWaiter waiters address) :
    w ∈ waiters ∨ (w = ⟨address, []⟩ ∧ ∀ w ∈ waiters, w.blockAddress ≠ address) := by
  unfold findWaiter at h
  split at h
  · exact .inl h
  · rename_i hnone
    rcases List.mem_append.mp h with hold | hnew
    · exact .inl hold
    · refine .inr ⟨List.mem_singleton.mp hnew, fun w hw heq => hnone ?_⟩
      exact List.any_eq_true.mpr ⟨w, hw, beq_iff_eq.mpr heq⟩

theorem subset_findWaiter (h : w ∈ waiters) : w ∈ findWaiter waiters address := by
  unfold findWaiter
  split
  · exact h
  · exact mem_append_left _ h

theorem exists_findWaiter (waiters : List Waiter) (address : Nat) :
    ∃ w ∈ findWaiter waiters address, w.blockAddress = address := by
  unfold findWaiter
  split
  · rename_i hsome
    obtain ⟨w, hw, heq⟩ := List.any_eq_true.mp hsome
    exact ⟨w, hw, beq_iff_eq.mp heq⟩
  · exact ⟨⟨address, []⟩, mem_append_right _ (List.mem_singleton.mpr rfl), rfl⟩

theorem mem_updateList (h : w ∈ updateList waiters address f) : ∃ before ∈ waiters,
      w.blockAddress = before.blockAddress ∧
      w.waiterList = if before.blockAddress = address then f before.waiterList
        else before.waiterList := by
  obtain ⟨before, hbefore, rfl⟩ := List.mem_map.mp h
  refine ⟨before, hbefore, ?_⟩
  split <;> exact ⟨rfl, rfl⟩

theorem exists_updateList {other : Nat} (h : ∃ w ∈ waiters, w.blockAddress = other) :
    ∃ w ∈ updateList waiters address f, w.blockAddress = other := by
  obtain ⟨w, hw, heq⟩ := h
  refine ⟨_, List.mem_map_of_mem hw, ?_⟩
  split <;> exact heq

/-- Every list has the waiters under its address, and every waiter has the address of its place
and a list. -/
structure Inv (state : State) : Prop where
  lists : ∀ w ∈ state.waiters, w.waiterList = select (isUnder w.blockAddress) state.items
  placed : ∀ item ∈ state.items, ∃ block, state.blocks[item.block]? = some block ∧
    item.waiter = indexedAddress block.data item.position
  listed : ∀ item ∈ state.items, ∃ w ∈ state.waiters, w.blockAddress = item.waiter

variable {state : State}

theorem Inv.listAt_eq (hinv : Inv state) (address : Nat) :
    listAt state.waiters address = select (isUnder address) state.items := by
  unfold listAt
  cases hfind : state.waiters.find? (·.blockAddress == address) with
  | none =>
    refine (select_eq_nil fun item hitem => ?_).symm
    obtain ⟨w, hw, heq⟩ := hinv.listed item hitem
    have hother := List.find?_eq_none.mp hfind w hw
    rw [beq_iff_eq, heq] at hother
    rw [isUnder, beq_false_of_ne hother, Bool.and_false]
  | some w =>
    have haddress := find?_some hfind
    rw [beq_iff_eq] at haddress
    rw [← haddress]
    exact hinv.lists w (mem_of_find?_eq_some hfind)

theorem Inv.enlisted_eq (hinv : Inv state) (b position : Nat) :
    state.enlisted b position = select (isFor b position) state.items := by
  unfold State.enlisted
  cases hblock : state.blocks[b]? with
  | none =>
    refine (select_eq_nil fun item hitem => ?_).symm
    obtain ⟨block, hother, -⟩ := hinv.placed item hitem
    have hne : item.block ≠ b := by
      rintro rfl
      rw [hblock] at hother
      cases hother
    rw [isFor, beq_false_of_ne hne, Bool.false_and, Bool.and_false]
  | some block =>
    dsimp only
    rw [hinv.listAt_eq, filter_select]
    refine select_congr fun item hitem => ?_
    obtain ⟨own, hown, hwaiter⟩ := hinv.placed item hitem
    rw [isUnder, isFor]
    by_cases hplace : item.block = b ∧ item.position = position
    · obtain ⟨rfl, rfl⟩ := hplace
      rw [hblock] at hown
      cases hown
      rw [hwaiter, beq_self_eq_true, Bool.and_true]
    · have hfalse : (item.block == b && item.position == position) = false := by
        rw [Bool.eq_false_iff, Ne, Bool.and_eq_true, beq_iff_eq, beq_iff_eq]
        exact hplace
      rw [hfalse, Bool.and_false, Bool.and_false]

theorem inv_start (memory : Memory) : Inv (start memory) :=
  ⟨fun _ h => (nomatch h), fun _ h => (nomatch h), fun _ h => (nomatch h)⟩

def SamePlaces (blocks blocks' : List DataBlock) : Prop :=
  ∀ b : Nat, (blocks'[b]?).map (·.data) = (blocks[b]?).map (·.data)

theorem SamePlaces.exists {blocks blocks' : List DataBlock} (h : SamePlaces blocks blocks')
    {b : Nat} {block : DataBlock} (hblock : blocks[b]? = some block) :
    ∃ block', blocks'[b]? = some block' ∧ block'.data = block.data := by
  have hdata := h b
  rw [hblock] at hdata
  exact Option.map_eq_some_iff.mp hdata

theorem Inv.findWaiter (hinv : Inv state) (address : Nat) :
    Inv { state with waiters := findWaiter state.waiters address } := by
  refine ⟨fun w hw => ?_, hinv.placed, fun item hitem => ?_⟩
  · rcases mem_findWaiter hw with hold | ⟨rfl, hnew⟩
    · exact hinv.lists w hold
    · refine (select_eq_nil fun item hitem => ?_).symm
      obtain ⟨w, hw, heq⟩ := hinv.listed item hitem
      rw [isUnder, beq_false_of_ne (heq ▸ hnew w hw), Bool.and_false]
  · obtain ⟨w, hw, heq⟩ := hinv.listed item hitem
    exact ⟨w, subset_findWaiter hw, heq⟩

theorem Inv.write (hinv : Inv state) {blocks : List DataBlock}
    (hplaces : SamePlaces state.blocks blocks) : Inv { state with blocks } := by
  refine ⟨hinv.lists, fun item hitem => ?_, hinv.listed⟩
  obtain ⟨block, hblock, hwaiter⟩ := hinv.placed item hitem
  obtain ⟨block', hblock', hdata⟩ := hplaces.exists hblock
  exact ⟨block', hblock', hwaiter.trans (congrArg (indexedAddress · _) hdata.symm)⟩

theorem Inv.enlist (hinv : Inv state) {item : WaiterItem} {block : DataBlock}
    (hblock : state.blocks[item.block]? = some block)
    (hwaiter : item.waiter = indexedAddress block.data item.position)
    (hlisted : ∃ w ∈ state.waiters, w.blockAddress = item.waiter)
    (henlisted : item.isEnlisted = true) :
    Inv { state with
      waiters := updateList state.waiters item.waiter (· ++ [state.items.length])
      items := state.items ++ [item] } := by
  refine ⟨fun w hw => ?_, fun other hother => ?_, fun other hother => ?_⟩
  · have hupdated : w ∈ updateList state.waiters item.waiter (· ++ [state.items.length]) := hw
    obtain ⟨before, hbefore, haddress, hlist⟩ := mem_updateList hupdated
    rw [hlist, haddress, select_append, hinv.lists before hbefore, isUnder, henlisted,
      Bool.true_and]
    by_cases hown : before.blockAddress = item.waiter
    · rw [if_pos hown, hown, beq_self_eq_true, if_pos rfl]
    · rw [if_neg hown, beq_false_of_ne (Ne.symm hown), if_neg Bool.false_ne_true, append_nil]
  · rcases List.mem_append.mp hother with hold | hnew
    · exact hinv.placed other hold
    · cases List.mem_singleton.mp hnew
      exact ⟨block, hblock, hwaiter⟩
  · have hthere : ∃ w ∈ state.waiters, w.blockAddress = other.waiter := by
      rcases List.mem_append.mp hother with hold | hnew
      · exact hinv.listed other hold
      · cases List.mem_singleton.mp hnew
        exact hlisted
    exact @exists_updateList _ item.waiter (· ++ [state.items.length]) _ hthere

theorem Inv.leave (hinv : Inv state) {items : List WaiterItem} {keep : Nat → Bool}
    {address : Nat} {f : List Nat → List Nat} (hleaves : Leaves state.items items keep)
    (hlist : f (select (isUnder address) state.items) =
      (select (isUnder address) state.items).filter keep)
    (hothers : ∀ other, other ≠ address →
      ∀ number ∈ select (isUnder other) state.items, keep number = true) :
    Inv { state with waiters := updateList state.waiters address f, items } := by
  have hplace : ∀ item' ∈ items, ∃ item ∈ state.items, item'.block = item.block ∧
      item'.position = item.position ∧ item'.waiter = item.waiter := by
    intro item' hitem'
    obtain ⟨number, hnumber⟩ := List.mem_iff_getElem?.mp hitem'
    have hlt := (List.getElem?_eq_some_iff.mp hnumber).1
    rw [hleaves.length_eq] at hlt
    have hitem := getElem?_eq_getElem hlt
    obtain ⟨other, hother, hsame, -⟩ := hleaves.item number _ hitem
    rw [hnumber] at hother
    cases hother
    exact ⟨_, mem_of_getElem? hitem, hsame⟩
  refine ⟨fun w hw => ?_, fun item' hitem' => ?_, fun item' hitem' => exists_updateList ?_⟩
  · obtain ⟨before, hbefore, haddress, hnew⟩ := mem_updateList hw
    rw [hnew, haddress, hleaves.select_isUnder, hinv.lists before hbefore]
    by_cases hown : before.blockAddress = address
    · rw [if_pos hown, hown, hlist]
    · rw [if_neg hown]
      exact (List.filter_eq_self.mpr (hothers _ hown)).symm
  · obtain ⟨item, hitem, hb, hp, hw⟩ := hplace item' hitem'
    rw [hb, hp, hw]
    exact hinv.placed item hitem
  · obtain ⟨item, hitem, -, -, hw⟩ := hplace item' hitem'
    rw [hw]
    exact hinv.listed item hitem

theorem Inv.keep (hinv : Inv state) {items : List WaiterItem}
    (hleaves : Leaves state.items items fun _ => true) : Inv { state with items } := by
  have hkept := @Inv.leave state hinv items (fun _ => true) 0 id hleaves
    (List.filter_eq_self.mpr fun _ _ => rfl).symm fun _ _ _ _ => rfl
  have hsame : updateList state.waiters 0 id = state.waiters := by
    refine (map_congr_left fun w _ => ?_).trans (List.map_id _)
    split <;> rfl
  rwa [hsame] at hkept

section Waiting

variable {setting : Setting} {block : DataBlock} {agent i : Nat} {isAsync : Bool} {view : View}
  {index : Option Nat} {value timeout v : Primitive} {q : Double}

/-- What a call has to get through before it looks at the element. -/
structure Admitted (setting : Setting) (agent : Nat) (isAsync : Bool) (view : View)
    (index : Option Nat) (value timeout : Primitive) (i : Nat) (v : Primitive) (q : Double) :
    Prop where
  waitable : view.isWaitable = true
  access : validateAtomicAccess view index = .ok i
  expected : expectedValue setting.strings view.type value = .ok v
  time : timeout.toNumber setting.strings = .ok q
  blocks : isAsync = true ∨ setting.canBlockExecution agent = true

theorem doWait_cases (setting : Setting) (state : State) (block : DataBlock) (agent : Nat)
    (isAsync : Bool) (view : View) (index : Option Nat) (value timeout : Primitive) :
    (∃ error, doWait setting state block agent isAsync view index value timeout = .error error) ∨
      ∃ i v q, Admitted setting agent isAsync view index value timeout i v q := by
  cases hwaitable : view.isWaitable with
  | false => exact .inl ⟨_, by simp [doWait, hwaitable]; rfl⟩
  | true =>
    cases haccess : validateAtomicAccess view index with
    | error e => exact .inl ⟨e, by simp [doWait, hwaitable, haccess]; rfl⟩
    | ok i =>
      cases hexpected : expectedValue setting.strings view.type value with
      | error e => exact .inl ⟨e, by simp [doWait, hwaitable, haccess, hexpected]; rfl⟩
      | ok v =>
        cases htime : timeout.toNumber setting.strings with
        | error e => exact .inl ⟨e, by simp [doWait, hwaitable, haccess, hexpected, htime]; rfl⟩
        | ok q =>
          by_cases hblocks : isAsync = true ∨ setting.canBlockExecution agent = true
          · exact .inr ⟨i, v, q, hwaitable, haccess, hexpected, htime, hblocks⟩
          · rw [not_or, Bool.not_eq_true, Bool.not_eq_true] at hblocks
            exact .inl ⟨_, by simp [doWait, hwaitable, haccess, hexpected, htime, hblocks]; rfl⟩

def itemOf (block : DataBlock) (agent : Nat) (isAsync : Bool) (view : View) (i : Nat)
    (q : Double) : WaiterItem :=
  { agent, isAsync
    infinite := timeoutOf q == .infinite
    block := view.block
    position := i
    waiter := indexedAddress block.data i
    notified := false
    progress := .waiting }

theorem doWait_eq (state : State)
    (h : Admitted setting agent isAsync view index value timeout i v q) :
    doWait setting state block agent isAsync view index value timeout = .ok
      (let waiters := findWaiter state.waiters (indexedAddress block.data i)
      if !equalsTo v (element setting block i view.type) then ({ state with waiters }, .notEqual)
      else if timeoutOf q = .zero ∧ isAsync = true then ({ state with waiters }, .timedOut)
      else
        ({ state with
          waiters := updateList waiters (indexedAddress block.data i) (· ++ [state.items.length])
          items := state.items ++ [itemOf block agent isAsync view i q] },
          .enlisted state.items.length)) := by
  have hblocks : (!isAsync && !setting.canBlockExecution agent) = false := by
    rcases h.blocks with h | h <;> simp [h]
  unfold doWait
  simp only [h.waitable, h.access, h.expected, h.time, hblocks, Bool.not_true, Bool.false_eq_true,
    if_false, bind, Except.bind, pure, Except.pure]
  split
  · rfl
  · split <;> rfl

theorem waitable_cases (h : view.isWaitable = true) :
    view.type = .int32 ∨ view.type = .bigInt64 := by
  rw [View.isWaitable, Bool.or_eq_true, beq_iff_eq, beq_iff_eq] at h
  exact h

theorem equalsTo_element (hwaitable : view.isWaitable = true)
    (hexpected : expectedValue setting.strings view.type value = .ok v) :
    equalsTo v (element setting block i view.type) = true ↔
      element setting block i view.type = v := by
  rcases waitable_cases hwaitable with htype | htype
  · rw [htype] at hexpected ⊢
    cases hvalue : toInt32 setting.strings value with
    | error e =>
      rw [expectedValue, hvalue] at hexpected
      cases hexpected
      exact fun h => nomatch h
    | ok n =>
      rw [expectedValue, hvalue] at hexpected
      cases hexpected
      · exact beq_iff_eq.trans ⟨fun h => congrArg _ h.symm, fun h => (Primitive.int32.inj h).symm⟩
      · exact fun h => nomatch h
  · rw [htype] at hexpected ⊢
    cases hvalue : value.toBigInt setting.strings with
    | error e =>
      rw [expectedValue, hvalue] at hexpected
      cases hexpected
    | ok n =>
      rw [expectedValue, hvalue] at hexpected
      cases hexpected
      exact beq_iff_eq.trans
        ⟨fun h => congrArg _ h.symm, fun h => (Primitive.bigInt.inj h).symm⟩

theorem toInt32_slowCase (d : Double) :
    d.toInt32SlowCase.toInt32 = .ofNat (Double.modular 32 d) := by
  rw [← Double.toNat_toInt32SlowCase, ← Int32.toBitVec_inj]
  simp

theorem ofNat_modular_ofInt32 (n : Int32) : Int32.ofNat (Double.modular 32 (.ofInt32 n)) = n := by
  have hlt := n.toInt_lt
  have hle := n.le_toInt
  have hsize : Int32.size = 2 ^ 32 := rfl
  rw [Double.modular_ofInt32, ← Int32.toInt_inj, Int32.toInt_ofNat', Double.wrap,
    Int.toNat_of_nonneg (by omega), hsize, Int.bmod_def]
  split <;> omega

theorem represented_wrap {n : Int} (hlow : TypedArrayType.bigInt64.lowest ≤ n)
    (hhigh : n ≤ TypedArrayType.bigInt64.highest) :
    TypedArrayType.bigInt64.represented (Double.wrap 64 n) = n := by
  have hlowest : TypedArrayType.bigInt64.lowest = -2 ^ 63 := by decide
  have hhighest : TypedArrayType.bigInt64.highest = 2 ^ 63 - 1 := by decide
  have hwidth : TypedArrayType.bigInt64.width = 64 := by decide
  unfold TypedArrayType.represented Double.wrap
  rw [hwidth]
  simp only [TypedArrayType.isSigned, Bool.true_and]
  split <;> rename_i hsign <;> simp at hsign <;> omega

theorem toInt32_eq (strings : StringConversions) (value : Primitive) : toInt32 strings value =
      (value.toNumber strings).map fun d => Int32.ofNat (Double.modular 32 d) := by
  have hslow : (do return (← value.toNumber strings).toInt32SlowCase.toInt32) =
      (value.toNumber strings).map fun d => Int32.ofNat (Double.modular 32 d) := by
    cases value.toNumber strings with
    | error e => rfl
    | ok d => exact congrArg Except.ok (toInt32_slowCase d)
  cases value with
  | int32 n => exact congrArg Except.ok (ofNat_modular_ofInt32 n).symm
  | _ => exact hslow

theorem expectedValue_eq (hwaitable : view.isWaitable = true)
    (hrange : view.type = .bigInt64 → ∀ n, value.toBigInt setting.strings = .ok n →
      TypedArrayType.bigInt64.lowest ≤ n ∧ n ≤ TypedArrayType.bigInt64.highest) :
    expectedValue setting.strings view.type value =
      convertedValue setting.strings view.type value := by
  rcases waitable_cases hwaitable with htype | htype
  · rw [htype, expectedValue, convertedValue, toInt32_eq]
    cases value.toNumber setting.strings <;> rfl
    all_goals exact fun h => nomatch h
  · rw [htype, expectedValue, convertedValue]
    cases hvalue : value.toBigInt setting.strings with
    | error e => rfl
    | ok n =>
      obtain ⟨hlow, hhigh⟩ := hrange htype n hvalue
      exact congrArg (fun n => Except.ok (Primitive.bigInt n)) (represented_wrap hlow hhigh).symm

variable {next : State}

theorem keepsLists_of_items (hinv : Inv state) (hnext : Inv next)
    (hitems : next.items = state.items) : KeepsLists state next := by
  intro b position
  rw [hinv.enlisted_eq, hnext.enlisted_eq, hitems]

theorem enlisted_append {item : WaiterItem} (hinv : Inv state) (hnext : Inv next)
    (hitems : next.items = state.items ++ [item]) (henlisted : item.isEnlisted = true)
    (b position : Nat) :
    next.enlisted b position = state.enlisted b position ++
      if item.block = b ∧ item.position = position then [state.items.length] else [] := by
  rw [hinv.enlisted_eq, hnext.enlisted_eq, hitems, select_append, isFor, henlisted, Bool.true_and]
  simp only [Bool.and_eq_true, beq_iff_eq]

inductive Waits (state next : State) (out : Answer) : Prop
  | same (hitems : next.items = state.items) (hout : removedBy [out] = [])
  | enlists (item : WaiterItem) (hitems : next.items = state.items ++ [item])
      (hnotified : item.notified = false) (hprogress : item.progress = .waiting)
      (hout : removedBy [out] = [])

/-- The arguments of an admitted call are determined, so its wait need be compared for them only. -/
theorem waitMeets_of_admitted {out : Answer}
    (hadmitted : Admitted setting agent isAsync view index value timeout i v q)
    (hrange : view.type = .bigInt64 → ∀ n, value.toBigInt setting.strings = .ok n →
      TypedArrayType.bigInt64.lowest ≤ n ∧ n ≤ TypedArrayType.bigInt64.highest)
    (hmeets : if element setting block i view.type = v ∧
        ¬ (isAsync = true ∧ timeoutOf q = .zero) then
      out = .enlisted state.items.length ∧
        next.enlisted view.block i = state.enlisted view.block i ++ [state.items.length] ∧
        ∀ b position, (b, position) ≠ (view.block, i) →
          next.enlisted b position = state.enlisted b position
    else
      out = (if element setting block i view.type = v then .timedOut else .notEqual) ∧
        KeepsLists state next) :
    WaitMeets setting state next out block agent isAsync view index value timeout := by
  intro i' v' q' hwaitable haccess hconverted htime _
  rw [← expectedValue_eq hwaitable hrange, hadmitted.expected] at hconverted
  rw [hadmitted.access] at haccess
  rw [hadmitted.time] at htime
  cases hconverted
  cases haccess
  cases htime
  exact hmeets

theorem wait_kept (hinv : Inv state) (hblock : state.blocks[view.block]? = some block)
    (hrange : view.type = .bigInt64 → ∀ n, value.toBigInt setting.strings = .ok n →
      TypedArrayType.bigInt64.lowest ≤ n ∧ n ≤ TypedArrayType.bigInt64.highest)
    {next : State} {out : Answer}
    (hresult : answerOf state
      (doWait setting state block agent isAsync view index value timeout) = (next, out)) :
    Inv next ∧ Waits state next out ∧
      WaitMeets setting state next out block agent isAsync view index value timeout := by
  rcases doWait_cases setting state block agent isAsync view index value timeout with
    ⟨error, herror⟩ | ⟨i, v, q, hadmitted⟩
  · rw [herror] at hresult
    cases hresult
    refine ⟨hinv, .same rfl rfl, ?_⟩
    intro i v q hwaitable haccess hconverted htime hblocks
    rw [← expectedValue_eq hwaitable hrange] at hconverted
    rw [doWait_eq state ⟨hwaitable, haccess, hconverted, htime, hblocks⟩] at herror
    cases herror
  · have hfound := hinv.findWaiter (indexedAddress block.data i)
    have hsame := keepsLists_of_items hinv hfound rfl
    have hcompare : equalsTo v (element setting block i view.type) = true ↔
        element setting block i view.type = v :=
      equalsTo_element hadmitted.waitable hadmitted.expected
    rw [doWait_eq state hadmitted] at hresult
    by_cases hequal : element setting block i view.type = v
    · rw [if_neg (by rw [hcompare.mpr hequal]; decide)] at hresult
      by_cases hnow : timeoutOf q = .zero ∧ isAsync = true
      · rw [if_pos hnow] at hresult
        cases hresult
        refine ⟨hfound, .same rfl rfl, waitMeets_of_admitted hadmitted hrange ?_⟩
        rw [if_neg fun h => h.2 hnow.symm, if_pos hequal]
        exact ⟨rfl, hsame⟩
      · rw [if_neg hnow] at hresult
        cases hresult
        have hnext := @Inv.enlist _ hfound (itemOf block agent isAsync view i q) block hblock rfl
          (exists_findWaiter _ _) rfl
        refine ⟨hnext, .enlists _ rfl rfl rfl rfl, waitMeets_of_admitted hadmitted hrange ?_⟩
        rw [if_pos ⟨hequal, fun h => hnow h.symm⟩]
        have happend := enlisted_append hinv hnext rfl rfl
        refine ⟨rfl, (happend _ _).trans ?_, fun b position hother => (happend _ _).trans ?_⟩
        · exact congrArg _ (if_pos ⟨rfl, rfl⟩)
        · rw [if_neg, append_nil]
          rintro ⟨rfl, rfl⟩
          exact hother rfl
    · have hdiffer : equalsTo v (element setting block i view.type) = false :=
        Bool.eq_false_iff.mpr fun h => hequal (hcompare.mp h)
      rw [hdiffer, Bool.not_false, if_pos rfl] at hresult
      cases hresult
      refine ⟨hfound, .same rfl rfl, waitMeets_of_admitted hadmitted hrange ?_⟩
      rw [if_neg fun h => hequal h.1, if_neg hequal]
      exact ⟨rfl, hsame⟩

end Waiting

variable (removed : List Nat)

/-- Items with the flag set for some of them. -/
def markAll (items : List WaiterItem) : List WaiterItem :=
  items.mapIdx fun number item => if number ∈ removed then { item with notified := true } else item

theorem getElem?_markAll (items : List WaiterItem) (number : Nat) :
    (markAll removed items)[number]? = (items[number]?).map fun item =>
      if number ∈ removed then { item with notified := true } else item :=
  getElem?_mapIdx

theorem markAll_nil (items : List WaiterItem) : markAll [] items = items := by
  refine ext_getElem? fun number => ?_
  rw [getElem?_markAll]
  cases items[number]? <;> simp

theorem notifyFront_eq (n : Nat) (waiterList : List Nat) (items : List WaiterItem) :
    notifyFront n waiterList items = (waiterList.drop n, markAll (waiterList.take n) items) := by
  induction n generalizing waiterList items with
  | zero => rw [notifyFront, drop_zero, take_zero, markAll_nil]
  | succ n ih =>
    cases waiterList with
    | nil => rw [notifyFront, drop_nil, take_nil, markAll_nil]
    | cons front waiterList =>
      rw [notifyFront, ih, drop_succ_cons, take_succ_cons]
      congr 1
      refine ext_getElem? fun number => ?_
      rw [getElem?_markAll, getElem?_markAll, getElem?_modify]
      cases items[number]? with
      | none => rfl
      | some item =>
        refine congrArg some ?_
        by_cases hfront : front = number
        · by_cases hmem : number ∈ waiterList.take n <;> simp [hfront, hmem]
        · by_cases hmem : number ∈ waiterList.take n <;>
            simp [hfront, Ne.symm hfront, hmem]

theorem leaves_markAll (items : List WaiterItem) :
    Leaves items (markAll removed items) fun number => decide (number ∉ removed) := by
  refine ⟨length_mapIdx, fun number item hitem => ?_⟩
  refine ⟨_, by rw [getElem?_markAll, hitem]; rfl, ?_⟩
  by_cases hmem : number ∈ removed
  · simp [hmem, WaiterItem.isEnlisted]
  · simp [hmem]

theorem drop_eq_filter {xs : List Nat} (hnodup : xs.Nodup) (n : Nat) :
    xs.drop n = xs.filter fun x => decide (x ∉ xs.take n) := by
  have hdisjoint := (List.nodup_append.mp
    (show (xs.take n ++ xs.drop n).Nodup by rwa [take_append_drop])).2.2
  calc
    xs.drop n = [] ++ xs.drop n := rfl
    _ = (xs.take n).filter (fun x => decide (x ∉ xs.take n)) ++
          (xs.drop n).filter (fun x => decide (x ∉ xs.take n)) := by
      congr 1
      · exact (List.filter_eq_nil_iff.mpr fun x hx => by simpa using hx).symm
      · refine (List.filter_eq_self.mpr fun x hx => ?_).symm
        rw [decide_eq_true_eq]
        exact fun htake => hdisjoint x htake x hx rfl
    _ = xs.filter fun x => decide (x ∉ xs.take n) := by rw [← filter_append, take_append_drop]

theorem indexedAddress_injective {data i j : Nat}
    (h : indexedAddress data i = indexedAddress data j) : i = j := by
  unfold indexedAddress at h
  omega

theorem Inv.markFront (hinv : Inv state) {address : Nat} {own : List Nat}
    (hselect : select (isUnder address) state.items = own) (n : Nat) :
    Inv { state with
      waiters := updateList state.waiters address fun _ => own.drop n
      items := markAll (own.take n) state.items } := by
  have hnodup : own.Nodup := hselect ▸ nodup_select _ _
  refine hinv.leave (leaves_markAll (own.take n) state.items) ?_ fun other hother number hnumber => ?_
  · rw [hselect]
    exact drop_eq_filter hnodup n
  · rw [decide_eq_true_eq]
    intro htaken
    have hmem := mem_of_mem_take htaken
    rw [← hselect] at hmem
    obtain ⟨item, hitem, hunder⟩ := mem_select.mp hmem
    obtain ⟨item', hitem', hunder'⟩ := mem_select.mp hnumber
    rw [hitem] at hitem'
    cases hitem'
    rw [isUnder, Bool.and_eq_true, beq_iff_eq] at hunder hunder'
    exact hother (hunder'.2.symm.trans hunder.2)

theorem enlisted_markFront {next : State} (hinv : Inv state) (hnext : Inv next) (n : Nat)
    {b position : Nat}
    (hitems : next.items = markAll ((state.enlisted b position).take n) state.items) :
    next.enlisted b position = (state.enlisted b position).drop n ∧
      ∀ b' position', (b', position') ≠ (b, position) →
        next.enlisted b' position' = state.enlisted b' position' := by
  have hleaves := leaves_markAll ((state.enlisted b position).take n) state.items
  have hown := hinv.enlisted_eq b position
  have hnodup : (state.enlisted b position).Nodup := hown ▸ nodup_select _ _
  refine ⟨?_, fun b' position' hother => ?_⟩
  · rw [hnext.enlisted_eq, hitems, hleaves.select_isFor, ← hown]
    exact (drop_eq_filter hnodup n).symm
  · rw [hinv.enlisted_eq b' position', hnext.enlisted_eq, hitems, hleaves.select_isFor]
    refine List.filter_eq_self.mpr fun number hnumber => ?_
    rw [decide_eq_true_eq]
    intro htaken
    obtain ⟨item, hitem, hfor⟩ := mem_select.mp (hown ▸ mem_of_mem_take htaken)
    obtain ⟨item', hitem', hfor'⟩ := mem_select.mp hnumber
    rw [hitem] at hitem'
    cases hitem'
    simp only [isFor, Bool.and_eq_true, beq_iff_eq] at hfor hfor'
    exact hother (Prod.ext (hfor'.2.1.symm.trans hfor.2.1) (hfor'.2.2.symm.trans hfor.2.2))

section Notifying

variable {setting : Setting} {block : DataBlock} {i : Nat} {view : View} {index : Option Nat}
  {count : Primitive} {c : Option Nat}

theorem listAt_eq_enlisted (hinv : Inv state) (hblock : state.blocks[view.block]? = some block)
    (halone : ∀ number ∈ listAt state.waiters (indexedAddress block.data i),
      ∀ item, state.items[number]? = some item → item.block = view.block) :
    listAt state.waiters (indexedAddress block.data i) = state.enlisted view.block i := by
  unfold State.enlisted
  rw [hblock]
  refine (List.filter_eq_self.mpr fun number hnumber => ?_).symm
  have hselect := hinv.listAt_eq _ ▸ hnumber
  obtain ⟨item, hitem, hunder⟩ := mem_select.mp hselect
  have hown := halone number hnumber item hitem
  obtain ⟨own, hown', hwaiter⟩ := hinv.placed item (mem_of_getElem? hitem)
  rw [hown, hblock] at hown'
  cases hown'
  rw [isUnder, hwaiter, Bool.and_eq_true, beq_iff_eq] at hunder
  have hposition := indexedAddress_injective hunder.2
  simp [hitem, hown, hposition]

theorem notify_cases (setting : Setting) (state : State) (block : DataBlock) (view : View)
    (index : Option Nat) (count : Primitive) :
    (∃ error, builtinAtomicsNotify setting state block view index count = .error error) ∨
      ∃ i c, view.isWaitable = true ∧ validateAtomicAccess view index = .ok i ∧
        countOf setting.strings count = .ok c := by
  cases hwaitable : view.isWaitable with
  | false => exact .inl ⟨_, by simp [builtinAtomicsNotify, hwaitable]; rfl⟩
  | true =>
    cases haccess : validateAtomicAccess view index with
    | error e => exact .inl ⟨e, by simp [builtinAtomicsNotify, hwaitable, haccess]; rfl⟩
    | ok i =>
      cases hcount : countOf setting.strings count with
      | error e => exact .inl ⟨e, by simp [builtinAtomicsNotify, hwaitable, haccess, hcount]; rfl⟩
      | ok c => exact .inr ⟨i, c, rfl, rfl, rfl⟩

theorem notify_eq (state : State) (hwaitable : view.isWaitable = true)
    (haccess : validateAtomicAccess view index = .ok i)
    (hcount : countOf setting.strings count = .ok c) :
    builtinAtomicsNotify setting state block view index count = .ok
      (let address := indexedAddress block.data i
      let waiterList := listAt (findWaiter state.waiters address) address
      let n := (c.map (min waiterList.length)).getD waiterList.length
      ({ state with
        waiters := updateList (findWaiter state.waiters address) address fun _ => waiterList.drop n
        items := markAll (waiterList.take n) state.items }, .notified n (waiterList.take n))) := by
  unfold builtinAtomicsNotify
  simp only [hwaitable, haccess, hcount, Bool.not_true, Bool.false_eq_true, if_false, bind,
    Except.bind, pure, Except.pure, notifyFront_eq]

inductive Notifies (state next : State) (out : Answer) : Prop
  | same (hitems : next.items = state.items) (hout : removedBy [out] = [])
  | removes (removed : List Nat) (hitems : next.items = markAll removed state.items)
      (hout : removedBy [out] = removed)
      (henlisted : ∀ number ∈ removed, ∃ item, state.items[number]? = some item ∧
        item.isEnlisted = true)

theorem notify_kept (hinv : Inv state) (hblock : state.blocks[view.block]? = some block)
    (halone : ∀ block i, state.blocks[view.block]? = some block →
      validateAtomicAccess view index = .ok i →
      ∀ number ∈ listAt state.waiters (indexedAddress block.data i),
        ∀ item, state.items[number]? = some item → item.block = view.block)
    {next : State} {out : Answer}
    (hresult : answerOf state
      (builtinAtomicsNotify setting state block view index count) = (next, out)) :
    Inv next ∧ Notifies state next out ∧ NotifyMeets setting state next out view index count := by
  rcases notify_cases setting state block view index count with
    ⟨error, herror⟩ | ⟨i, c, hwaitable, haccess, hcount⟩
  · rw [herror] at hresult
    cases hresult
    refine ⟨hinv, .same rfl rfl, fun i c hwaitable haccess hcount => ?_⟩
    rw [notify_eq state hwaitable haccess hcount] at herror
    cases herror
  · have hfound := hinv.findWaiter (indexedAddress block.data i)
    have hlist := hinv.listAt_eq (indexedAddress block.data i)
    have hown := listAt_eq_enlisted hinv hblock (halone block i hblock haccess)
    have hlistFound := (hfound.listAt_eq (indexedAddress block.data i)).trans hlist.symm
    rw [notify_eq state hwaitable haccess hcount, answerOf] at hresult
    dsimp only at hresult hlistFound
    rw [hlistFound, hown] at hresult
    generalize hn : (c.map (min (state.enlisted view.block i).length)).getD
      (state.enlisted view.block i).length = n at hresult
    cases hresult
    have hfor := hinv.enlisted_eq view.block i
    have hnext := hfound.markFront (hlist.symm.trans hown) n
    refine ⟨hnext, ?_, ?_⟩
    · refine .removes _ rfl (append_nil _) fun number hnumber => ?_
      obtain ⟨item, hitem, hitemFor⟩ := mem_select.mp (hfor ▸ mem_of_mem_take hnumber)
      exact ⟨item, hitem, (Bool.and_eq_true _ _ ▸ hitemFor).1⟩
    · intro i' c' _ haccess' hcount'
      rw [haccess] at haccess'
      rw [hcount] at hcount'
      cases haccess'
      cases hcount'
      obtain ⟨hrest, hothers⟩ := enlisted_markFront hinv hnext n rfl
      dsimp only
      rw [hn]
      refine ⟨rfl, hrest, fun number item hitem => ?_, hothers⟩
      show (markAll _ _)[number]? = _
      rw [getElem?_markAll, hitem]
      rfl

end Notifying

/-- What a waiter that goes on does to the items: it keeps its flag, and what it has then is the
value of its flag. -/
structure Proceeds (items items' : List WaiterItem) : Prop where
  length_eq : items'.length = items.length
  item : ∀ (number : Nat) (item : WaiterItem), items[number]? = some item →
    ∃ item' : WaiterItem, items'[number]? = some item' ∧ item'.notified = item.notified ∧
    (item'.progress = item.progress ∨ item'.progress = .left item.notified ∨
      item'.progress = .finished item.notified ∨
      ∃ b, (item.progress = .left b ∧ item'.progress = .reported b) ∨
        (item.progress = .reported b ∧ item'.progress = .finished b))

theorem leaves_modify {items : List WaiterItem} {f : WaiterItem → WaiterItem} {keep : Nat → Bool}
    (hother : ∀ other, other ≠ number → keep other = true)
    (hitem : ∀ item, items[number]? = some item →
      ((f item).block = item.block ∧ (f item).position = item.position ∧
        (f item).waiter = item.waiter) ∧
      (f item).isEnlisted = (item.isEnlisted && keep number)) :
    Leaves items (items.modify number f) keep := by
  refine ⟨length_modify _ _ _, fun other item hother' => ?_⟩
  rw [getElem?_modify, hother']
  refine ⟨_, rfl, ?_⟩
  dsimp only
  by_cases hsame : number = other
  · subst hsame
    rw [if_pos rfl]
    exact hitem item hother'
  · rw [if_neg hsame, hother other (Ne.symm hsame), Bool.and_true]
    exact ⟨⟨rfl, rfl, rfl⟩, rfl⟩

theorem proceeds_modify {items : List WaiterItem} {f : WaiterItem → WaiterItem}
    (hitem : ∀ item, items[number]? = some item → (f item).notified = item.notified ∧
      ((f item).progress = item.progress ∨ (f item).progress = .left item.notified ∨
        (f item).progress = .finished item.notified ∨
        ∃ b, (item.progress = .left b ∧ (f item).progress = .reported b) ∨
          (item.progress = .reported b ∧ (f item).progress = .finished b))) :
    Proceeds items (items.modify number f) := by
  refine ⟨length_modify _ _ _, fun other item hother => ?_⟩
  rw [getElem?_modify, hother]
  refine ⟨_, rfl, ?_⟩
  dsimp only
  by_cases hsame : number = other
  · subst hsame
    rw [if_pos rfl]
    exact hitem item hother
  · rw [if_neg hsame]
    exact ⟨rfl, .inl rfl⟩

theorem wake_kept (hinv : Inv state) {next : State} {out : Answer}
    (hwake : wake state number = some (next, out)) :
    Inv next ∧ out = .done ∧ Proceeds state.items next.items ∧
      ∀ b position, next.enlisted b position = (state.enlisted b position).filter (· ≠ number) := by
  obtain ⟨item, hitem, hwake⟩ := Option.bind_eq_some_iff.mp hwake
  split at hwake
  · cases hwake
    generalize hprogress : (if item.isAsync then Progress.left item.notified
      else .finished item.notified) = progress
    have hleaves : Leaves state.items
        (state.items.modify number fun item => { item with progress })
        fun other => decide (other ≠ number) := by
      refine leaves_modify (fun other hother => decide_eq_true hother) fun item' _ => ?_
      refine ⟨⟨rfl, rfl, rfl⟩, ?_⟩
      rw [decide_eq_false (not_not.mpr rfl), Bool.and_false, WaiterItem.isEnlisted, ← hprogress]
      split <;> rfl
    have hnext := hinv.leave hleaves (f := (·.filter (· ≠ number))) rfl
      (show ∀ other, other ≠ item.waiter → _ by
        intro other hother own hown
        rw [decide_eq_true_eq]
        rintro rfl
        obtain ⟨item', hitem', hunder⟩ := mem_select.mp hown
        rw [hitem] at hitem'
        cases hitem'
        rw [isUnder, Bool.and_eq_true, beq_iff_eq] at hunder
        exact hother hunder.2.symm)
    refine ⟨hnext, rfl, proceeds_modify fun item' hitem' => ?_, fun b position => ?_⟩
    · rw [hitem] at hitem'
      cases hitem'
      refine ⟨rfl, .inr ?_⟩
      rw [← hprogress]
      split
      · exact .inl rfl
      · exact .inr (.inl rfl)
    · rw [hnext.enlisted_eq, hinv.enlisted_eq]
      exact hleaves.select_isFor b position
  · cases hwake

theorem kept_of_leaves (hinv : Inv state) {items : List WaiterItem}
    (hleaves : Leaves state.items items fun _ => true) :
    Inv { state with items } ∧ KeepsLists state { state with items } := by
  have hnext := hinv.keep hleaves
  refine ⟨hnext, fun b position => ?_⟩
  rw [hnext.enlisted_eq, hinv.enlisted_eq]
  exact (hleaves.select_isFor b position).trans (List.filter_eq_self.mpr fun _ _ => rfl)

theorem report_kept (hinv : Inv state) {next : State} {out : Answer}
    (hreport : report state number = some (next, out)) :
    Inv next ∧ out = .done ∧ Proceeds state.items next.items ∧ KeepsLists state next := by
  obtain ⟨item, hitem, hreport⟩ := Option.bind_eq_some_iff.mp hreport
  split at hreport
  · rename_i notified hprogress
    cases hreport
    have hleaves : Leaves state.items (state.items.modify number fun item =>
        { item with progress := .reported notified }) fun _ => true := by
      refine leaves_modify (fun _ _ => rfl) fun item' hitem' => ⟨⟨rfl, rfl, rfl⟩, ?_⟩
      rw [hitem] at hitem'
      cases hitem'
      rw [WaiterItem.isEnlisted, WaiterItem.isEnlisted, hprogress]
      rfl
    obtain ⟨hnext, hkeeps⟩ := kept_of_leaves hinv hleaves
    refine ⟨hnext, rfl, proceeds_modify fun item' hitem' => ?_, hkeeps⟩
    rw [hitem] at hitem'
    cases hitem'
    exact ⟨rfl, .inr (.inr (.inr ⟨notified, .inl ⟨hprogress, rfl⟩⟩))⟩
  · cases hreport

theorem settleItem_cases (agent : Nat) (item : WaiterItem) :
    settleItem agent item = item ∨ ∃ b, item.progress = .reported b ∧
      settleItem agent item = { item with progress := .finished b } := by
  unfold settleItem
  split
  · rename_i b hprogress
    split
    · exact .inr ⟨b, hprogress, rfl⟩
    · exact .inl rfl
  · exact .inl rfl

theorem settle_kept (hinv : Inv state) (agent : Nat) :
    let next : State := { state with items := state.items.map (settleItem agent) }
    Inv next ∧ Proceeds state.items next.items ∧ KeepsLists state next := by
  have hleaves : Leaves state.items (state.items.map (settleItem agent)) fun _ => true := by
    refine ⟨length_map _, fun number item hitem => ?_⟩
    rw [getElem?_map, hitem]
    refine ⟨_, rfl, ?_⟩
    rw [Bool.and_true]
    rcases settleItem_cases agent item with hsame | ⟨b, hprogress, hsettled⟩
    · rw [hsame]
      exact ⟨⟨rfl, rfl, rfl⟩, rfl⟩
    · rw [hsettled]
      refine ⟨⟨rfl, rfl, rfl⟩, ?_⟩
      rw [WaiterItem.isEnlisted, WaiterItem.isEnlisted, hprogress]
      rfl
  obtain ⟨hnext, hkeeps⟩ := kept_of_leaves hinv hleaves
  refine ⟨hnext, ⟨length_map _, fun number item hitem => ?_⟩, hkeeps⟩
  rw [getElem?_map, hitem]
  refine ⟨_, rfl, ?_⟩
  rcases settleItem_cases agent item with hsame | ⟨b, hprogress, hsettled⟩
  · rw [hsame]
    exact ⟨rfl, .inl rfl⟩
  · rw [hsettled]
    exact ⟨rfl, .inr (.inr (.inr ⟨b, .inr ⟨hprogress, rfl⟩⟩))⟩

/-- What a waiter outside of its list has. -/
def Progress.result : Progress → Option Bool
  | waiting => none
  | left notified | reported notified => some notified
  | finished ok => some ok

/-- The flags tell whom the notifications so far removed, and results are flags. -/
structure Tracks (state : State) (outs : List Answer) : Prop where
  bound : ∀ number ∈ removedBy outs, number < state.items.length
  flag : ∀ (number : Nat) (item : WaiterItem), state.items[number]? = some item →
    (item.notified = true ↔ number ∈ removedBy outs)
  result : ∀ (number : Nat) (item : WaiterItem), state.items[number]? = some item →
    ∀ ok, item.progress.result = some ok → ok = item.notified

theorem removedBy_concat (outs : List Answer) (out : Answer) :
    removedBy (outs ++ [out]) = removedBy outs ++ removedBy [out] :=
  flatMap_append

theorem tracks_start (memory : Memory) : Tracks (start memory) [] :=
  ⟨fun _ h => (nomatch h), fun _ _ h => (nomatch h), fun _ _ h => (nomatch h)⟩

variable {next : State} {outs : List Answer} {out : Answer}

theorem Tracks.same (h : Tracks state outs) (hitems : next.items = state.items)
    (hout : removedBy [out] = []) : Tracks next (outs ++ [out]) := by
  have houts : removedBy (outs ++ [out]) = removedBy outs := by
    rw [removedBy_concat, hout, append_nil]
  exact ⟨by rw [houts, hitems]; exact h.bound, by rw [houts, hitems]; exact h.flag,
    by rw [hitems]; exact h.result⟩

theorem Tracks.waits (h : Tracks state outs) (hwaits : Waits state next out) :
    Tracks next (outs ++ [out]) := by
  cases hwaits with
  | same hitems hout => exact h.same hitems hout
  | enlists item hitems hnotified hprogress hout =>
    have houts : removedBy (outs ++ [out]) = removedBy outs := by
      rw [removedBy_concat, hout, append_nil]
    have hcases : ∀ number other, next.items[number]? = some other →
        state.items[number]? = some other ∨ (number = state.items.length ∧ other = item) := by
      intro number other hother
      rw [hitems, getElem?_append] at hother
      split at hother
      · exact .inl hother
      · rename_i hge
        obtain ⟨hlt, heq⟩ := List.getElem?_eq_some_iff.mp hother
        rw [length_singleton] at hlt
        have hzero : number - state.items.length = 0 := by omega
        refine .inr ⟨by omega, ?_⟩
        rw [hzero] at hother
        exact (Option.some.inj hother).symm
    refine ⟨fun number hnumber => ?_, fun number other hother => ?_, fun number other hother => ?_⟩
    · rw [houts] at hnumber
      rw [hitems, length_append]
      exact Nat.lt_of_lt_of_le (h.bound number hnumber) (Nat.le_add_right _ _)
    · rw [houts]
      rcases hcases number other hother with hold | ⟨rfl, rfl⟩
      · exact h.flag number other hold
      · rw [hnotified]
        exact ⟨fun hfalse => (nomatch hfalse),
          fun hmem => absurd (h.bound _ hmem) (Nat.lt_irrefl _)⟩
    · rcases hcases number other hother with hold | ⟨rfl, rfl⟩
      · exact h.result number other hold
      · rw [hprogress]
        exact fun ok hok => nomatch hok

theorem Tracks.notifies (h : Tracks state outs) (hnotifies : Notifies state next out) :
    Tracks next (outs ++ [out]) := by
  cases hnotifies with
  | same hitems hout => exact h.same hitems hout
  | removes removed hitems hout henlisted =>
    have hlength : next.items.length = state.items.length := by
      rw [hitems]
      exact length_mapIdx
    have hitem : ∀ number other, next.items[number]? = some other →
        ∃ item, state.items[number]? = some item ∧
          other = if number ∈ removed then { item with notified := true } else item := by
      intro number other hother
      rw [hitems, getElem?_markAll] at hother
      obtain ⟨item, hitem, heq⟩ := Option.map_eq_some_iff.mp hother
      exact ⟨item, hitem, heq.symm⟩
    refine ⟨fun number hnumber => ?_, fun number other hother => ?_, fun number other hother => ?_⟩
    · rw [removedBy_concat, hout] at hnumber
      rw [hlength]
      rcases List.mem_append.mp hnumber with hold | hnew
      · exact h.bound number hold
      · obtain ⟨item, hitem, -⟩ := henlisted number hnew
        exact (List.getElem?_eq_some_iff.mp hitem).1
    · obtain ⟨item, hold, rfl⟩ := hitem number other hother
      rw [removedBy_concat, hout, mem_append, ← h.flag number item hold]
      split
      · rename_i hmem
        exact ⟨fun _ => .inr hmem, fun _ => rfl⟩
      · rename_i hmem
        exact ⟨.inl, fun hor => hor.resolve_right hmem⟩
    · obtain ⟨item, hold, rfl⟩ := hitem number other hother
      intro ok hok
      by_cases hmem : number ∈ removed
      · rw [if_pos hmem] at hok
        obtain ⟨own, hown, hwaiting⟩ := henlisted number hmem
        rw [hold] at hown
        cases hown
        rw [WaiterItem.isEnlisted, Bool.and_eq_true, beq_iff_eq] at hwaiting
        rw [hwaiting.1] at hok
        cases hok
      · rw [if_neg hmem] at hok ⊢
        exact h.result number item hold ok hok

theorem Tracks.proceeds (h : Tracks state outs) (hproceeds : Proceeds state.items next.items) :
    Tracks next (outs ++ [.done]) := by
  have houts : removedBy (outs ++ [.done]) = removedBy outs := by
    rw [removedBy_concat]
    exact append_nil _
  have hcases : ∀ (number : Nat) (other : WaiterItem), next.items[number]? = some other →
      ∃ item : WaiterItem, state.items[number]? = some item ∧ other.notified = item.notified ∧
        ∀ ok, other.progress.result = some ok → ok = item.notified := by
    intro number other hother
    have hlt := (List.getElem?_eq_some_iff.mp hother).1
    rw [hproceeds.length_eq] at hlt
    have hitem := getElem?_eq_getElem hlt
    obtain ⟨item', hitem', hflag, hprogress⟩ := hproceeds.item number _ hitem
    rw [hother] at hitem'
    cases hitem'
    have hresult := h.result number _ hitem
    refine ⟨_, hitem, hflag, fun ok hok => ?_⟩
    rcases hprogress with hsame | hleft | hfinished | ⟨b, ⟨hleft, hreported⟩ | ⟨hreported, hfinished⟩⟩
    · exact hresult ok (hsame ▸ hok)
    · rw [hleft] at hok
      cases hok
      rfl
    · rw [hfinished] at hok
      cases hok
      rfl
    · rw [hreported] at hok
      cases hok
      exact hresult _ (by rw [hleft]; rfl)
    · rw [hfinished] at hok
      cases hok
      exact hresult _ (by rw [hreported]; rfl)
  refine ⟨fun number hnumber => ?_, fun number other hother => ?_, fun number other hother => ?_⟩
  · rw [houts] at hnumber
    rw [hproceeds.length_eq]
    exact h.bound number hnumber
  · obtain ⟨item, hitem, hflag, -⟩ := hcases number other hother
    rw [houts, hflag]
    exact h.flag number item hitem
  · obtain ⟨item, hitem, hflag, hresult⟩ := hcases number other hother
    rw [hflag]
    exact hresult

theorem step_kept {setting : Setting} {op : Op} (hinv : Inv state) (htracks : Tracks state outs)
    (hcondition : Condition setting state op) (hstep : step setting state op = some (next, out)) :
    Inv next ∧ Tracks next (outs ++ [out]) ∧ StepMeets setting state op next out := by
  cases op with
  | write b bytes =>
    obtain ⟨block, hblock, hwrite⟩ := Option.bind_eq_some_iff.mp hstep
    split at hwrite
    · cases hwrite
      have hplaces : SamePlaces state.blocks (state.blocks.set b { block with bytes }) := by
        intro other
        rw [getElem?_set]
        split
        · rename_i hsame
          subst hsame
          rw [if_pos (List.getElem?_eq_some_iff.mp hblock).1, hblock]
          rfl
        · rfl
      have hnext := hinv.write hplaces
      exact ⟨hnext, htracks.same rfl rfl, keepsLists_of_items hinv hnext rfl⟩
    · cases hwrite
  | wait agent isAsync view index value timeout =>
    rw [step] at hstep
    split at hstep
    · cases hstep
    · obtain ⟨block, hblock, hresult⟩ := Option.map_eq_some_iff.mp hstep
      obtain ⟨hnext, hwaits, hmeets⟩ := wait_kept hinv hblock
        (fun htype n hn => by rwa [Condition, htype, hn] at hcondition) hresult
      refine ⟨hnext, htracks.waits hwaits, fun other hother => ?_⟩
      rw [hblock] at hother
      cases hother
      exact hmeets
  | notify agent view index count =>
    rw [step] at hstep
    split at hstep
    · cases hstep
    · obtain ⟨block, hblock, hresult⟩ := Option.map_eq_some_iff.mp hstep
      obtain ⟨hnext, hnotifies, hmeets⟩ := notify_kept hinv hblock
        (fun block i hblock haccess number hnumber item hitem => by
          rw [Condition, hblock, haccess] at hcondition
          have hall := hcondition number hnumber
          rw [hitem] at hall
          exact beq_iff_eq.mp hall) hresult
      exact ⟨hnext, htracks.notifies hnotifies, hmeets⟩
  | wake number =>
    obtain ⟨hnext, rfl, hproceeds, hmeets⟩ := wake_kept hinv hstep
    exact ⟨hnext, htracks.proceeds hproceeds, hmeets⟩
  | report number =>
    obtain ⟨hnext, rfl, hproceeds, hmeets⟩ := report_kept hinv hstep
    exact ⟨hnext, htracks.proceeds hproceeds, hmeets⟩
  | settle agent =>
    rw [step] at hstep
    split at hstep
    · cases hstep
    · cases hstep
      obtain ⟨hnext, hproceeds, hmeets⟩ := settle_kept hinv agent
      exact ⟨hnext, htracks.proceeds hproceeds, hmeets⟩

theorem stateMeets (hinv : Inv state) (htracks : Tracks state outs) : StateMeets state outs := by
  refine ⟨fun b position => ?_, fun number item ok hitem hfinished => ⟨?_, fun w hw hmem => ?_⟩⟩
  · rw [hinv.enlisted_eq]
    exact pairwise_select _ _
  · rw [htracks.result number item hitem ok (by rw [hfinished]; rfl)]
    exact htracks.flag number item hitem
  · rw [hinv.lists w hw] at hmem
    obtain ⟨own, hown, hunder⟩ := mem_select.mp hmem
    rw [hitem] at hown
    cases hown
    rw [isUnder, WaiterItem.isEnlisted, hfinished] at hunder
    cases hunder

/-- After every run whose steps meet the condition, waiters are in order and finish as they were
notified, and a further step that meets it does what is claimed. -/
theorem waiter_lists_are_kept_apart (setting : Setting) (memory : Memory) (ops : List Op)
    (hguarded : Guarded (step setting) (Condition setting) ops (start memory))
    {state : State} {outs : List Answer}
    (hrun : run (step setting) ops (start memory) = some (state, outs)) :
    StateMeets state outs ∧ ∀ op next out, Condition setting state op →
      step setting state op = some (next, out) → StepMeets setting state op next out := by
  have hkept : Inv state ∧ Tracks state outs :=
    @Guarded.run_history State Op Answer (step setting) (Condition setting)
      (fun _ answers state => Inv state ∧ Tracks state answers)
      (fun h hcondition hstep =>
        let hnext := step_kept h.1 h.2 hcondition hstep
        ⟨hnext.1, hnext.2.1⟩)
      ops [] [] (start memory) state outs hguarded ⟨inv_start memory, tracks_start memory⟩ hrun
  obtain ⟨hinv, htracks⟩ := hkept
  exact ⟨stateMeets hinv htracks,
    fun op next out hcondition hstep => (step_kept hinv htracks hcondition hstep).2.2⟩

def allBlock : Setting := ⟨.little, ⟨fun _ => ⟨0, by decide⟩, fun _ => none⟩, fun _ => true⟩

/-- Two blocks of 64 bytes, one after the other. -/
def neighbours : Memory := ⟨[⟨4096, List.replicate 64 0⟩, ⟨4160, List.replicate 64 0⟩], by decide⟩

/-- An array over all of a block, of elements of four or of eight bytes. -/
def words (block : Nat) : View := ⟨block, .int32, 0, 16⟩

def longs (block : Nat) : View := ⟨block, .bigInt64, 0, 8⟩

/-- Two agents wait at one position, a third wakes one of them, and the other's time is up. -/
def oneOfTwo : List Op :=
  [.wait 0 false (words 0) (some 4) (.int32 0) .undefined,
    .wait 1 true (longs 0) (some 2) (.bigInt 0) (.int32 5),
    .notify 2 (words 0) (some 4) (.int32 1), .wake 1, .wake 0, .report 1, .settle 1]

def afterOneOfTwo : State :=
  ((run (step allBlock) oneOfTwo (start neighbours)).map (·.1)).getD (start neighbours)

theorem one_of_two_is_woken : StateMeets afterOneOfTwo
        [.enlisted 0, .enlisted 1, .notified 1 [0], .done, .done, .done, .done] ∧
      ∀ op next out, Condition allBlock afterOneOfTwo op →
        step allBlock afterOneOfTwo op = some (next, out) →
        StepMeets allBlock afterOneOfTwo op next out :=
  waiter_lists_are_kept_apart allBlock neighbours oneOfTwo (by decide +kernel) (by decide +kernel)

/-- An asynchronous call without time is not enlisted although the element equals its value. Nor is
a waiter for `2 ^ 64` where the element is zero, and a notification for one block wakes a waiter
of the other. -/
theorem equal_element_not_enlisted :
    (run (step allBlock) [.wait 0 true (words 0) (some 4) (.int32 0) (.int32 0)]
        (start neighbours)).map (·.2) = some [.timedOut] ∧
      element allBlock ⟨4096, List.replicate 64 0⟩ 16 .int32 = .int32 0 ∧
      (run (step allBlock) [.wait 0 false (longs 0) (some 2) (.bigInt (2 ^ 64)) .undefined]
        (start neighbours)).map (·.2) = some [.notEqual] ∧
      (run (step allBlock) [.wait 0 false (words 0) (some 4) (.int32 0) .undefined,
        .notify 1 (words 1) (some 0) .undefined] (start neighbours)).map (·.2) =
          some [.enlisted 0, .notified 1 [0]] := by
  decide +kernel

end Escargot.Runtime.WaiterList
