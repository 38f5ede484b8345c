/-
# The release of byte code under a debugger

The engine and its client talk over two queues. The client knows a function by
the pointer in its `FUNCTION_PTR` message, the start of the byte code. The
engine announces a release by another pointer, the address of the
`ByteCodeBlock`, and keeps it until the client confirms. Addresses are numbers
and may be used again after a release.

A message says which block it is about only by a pointer. The model writes the
number of that block beside it, so that it can be said whom a message was for.
-/

import Escargot.Foundation.Run

namespace Escargot.Debugger

open List Foundation

/-- What `m_opcode` reads at a byte of byte code. -/
inductive Opcode
  | breakpointDisabled
  | breakpointEnabled
  | other
  deriving DecidableEq

def Opcode.isBreakpoint : Opcode → Bool
  | breakpointDisabled | breakpointEnabled => true
  | other => false

structure ByteCodeBlock where
  address : Nat
  codeStart : Nat
  code : List Opcode
  isReleased : Bool
  deriving DecidableEq

variable (block : ByteCodeBlock)

/-- The offsets that `BREAKPOINT_LOCATION` messages tell the client. -/
def ByteCodeBlock.breakpointOffsets : List Nat :=
  (List.range block.code.length).filter fun offset => block.code[offset]?.any Opcode.isBreakpoint

def ByteCodeBlock.covers (address : Nat) : Bool :=
  !block.isReleased && decide (block.codeStart ≤ address) &&
    decide (address < block.codeStart + block.code.length)

inductive EngineMessage
  | functionPtr (byteCodeStart : Nat) (offsets : List Nat) (block : Nat)
  | releaseFunction (pointer block : Nat)
  deriving DecidableEq

inductive ClientMessage
  | functionReleased (pointer : Nat)
  | updateBreakpoint (enable : Bool) (pointer offset block : Nat)
  deriving DecidableEq

/-- An entry of the client's `function_list`. -/
structure KnownFunction where
  byteCodePtr : Nat
  offsets : List Nat
  block : Nat
  deriving DecidableEq

structure State where
  blocks : List ByteCodeBlock
  enabled : Bool
  releasedFunctions : List Nat
  toClient : List EngineMessage
  toEngine : List ClientMessage
  functionList : List KnownFunction
  deriving DecidableEq

/-- A release tells the debugger only where the owner of the block can still be touched. What a
byte outside of all byte code reads as is given by the step that reads it. -/
inductive Op
  | create (address codeStart : Nat) (code : List Opcode)
  | parseCompleted (block : Nat)
  | release (block : Nat) (ownerIsTouchable : Bool)
  | processEvent (freed : Opcode)
  | clientReceives
  | clientUpdates (enable : Bool) (pointer offset : Nat)

inductive Answer
  | done
  | notified (pointer : Nat)
  | confirmed (pointer : Nat)
  | closed
  | ignored
  | touched (address : Nat)
  deriving DecidableEq

def isFree (blocks : List ByteCodeBlock) (address codeStart length : Nat) : Bool :=
  blocks.all fun block => block.isReleased || (block.address != address &&
      decide (codeStart + length ≤ block.codeStart ∨
        block.codeStart + block.code.length ≤ codeStart))

def byteCodeReleaseNotification (state : State) (number : Nat) (block : ByteCodeBlock) :
    State × Answer :=
  if state.enabled then
    ({ state with
      releasedFunctions := state.releasedFunctions ++ [block.address]
      toClient := state.toClient ++ [.releaseFunction block.address number] },
      .notified block.address)
  else (state, .done)

/-- Replace one flag by the other, unless another opcode is there. -/
def updateOpcode (enable : Bool) : Opcode → Option Opcode
  | .breakpointDisabled => if enable then some .breakpointEnabled else none
  | .breakpointEnabled => if enable then none else some .breakpointDisabled
  | .other => none

/-- The write of `UPDATE_BREAKPOINT`, and whether the opcode was the one to replace. -/
def updateBreakpoint (blocks : List ByteCodeBlock) (enable : Bool) (address : Nat)
    (freed : Opcode) : List ByteCodeBlock × Bool :=
  match blocks.findIdx? (·.covers address) with
  | some number =>
    match blocks[number]? with
    | some block =>
      let offset := address - block.codeStart
      match updateOpcode enable (block.code[offset]?.getD .other) with
      | some opcode => (blocks.set number { block with code := block.code.set offset opcode }, true)
      | none => (blocks, false)
    | none => (blocks, false)
  | none => (blocks, (updateOpcode enable freed).isSome)

/-- `processEvents`, of one message. What it cannot use closes the connection. -/
def processEvent (state : State) (freed : Opcode) : Option (State × Answer) :=
  if state.enabled then
    match state.toEngine with
    | [] => none
    | .functionReleased pointer :: toEngine =>
      if pointer ∈ state.releasedFunctions then
        some ({ state with
          toEngine, releasedFunctions := state.releasedFunctions.erase pointer },
          .confirmed pointer)
      else some ({ state with toEngine, enabled := false }, .closed)
    | .updateBreakpoint enable pointer offset _ :: toEngine =>
      if pointer ∈ state.releasedFunctions then some ({ state with toEngine }, .ignored)
      else
        let (blocks, isExpected) := updateBreakpoint state.blocks enable (pointer + offset) freed
        some ({ state with toEngine, blocks, enabled := isExpected }, .touched (pointer + offset))
  else none

/-- The client learns a function, or forgets one and confirms that. A pointer it does not know
is passed over. -/
def clientReceives (state : State) : Option (State × Answer) :=
  match state.toClient with
  | [] => none
  | .functionPtr byteCodeStart offsets number :: toClient =>
    some ({ state with
      toClient
      functionList := ⟨byteCodeStart, offsets, number⟩ ::
        state.functionList.filter (·.byteCodePtr ≠ byteCodeStart) }, .done)
  | .releaseFunction pointer _ :: toClient =>
    if state.functionList.any (·.byteCodePtr == pointer) then
      some ({ state with
        toClient
        functionList := state.functionList.filter (·.byteCodePtr ≠ pointer)
        toEngine := state.toEngine ++ [.functionReleased pointer] }, .done)
    else some ({ state with toClient }, .done)

def step (state : State) : Op → Option (State × Answer)
  | .create address codeStart code =>
    if isFree state.blocks address codeStart code.length then
      some ({ state with blocks := state.blocks ++ [⟨address, codeStart, code, false⟩] }, .done)
    else none
  | .parseCompleted number =>
    state.blocks[number]?.bind fun block =>
      if state.enabled && !block.isReleased && !block.breakpointOffsets.isEmpty then
        some ({ state with
          toClient := state.toClient ++
            [.functionPtr block.codeStart block.breakpointOffsets number] }, .done)
      else none
  | .release number ownerIsTouchable =>
    state.blocks[number]?.bind fun block =>
      if block.isReleased then none
      else
        let released : State :=
          { state with blocks := state.blocks.set number { block with isReleased := true } }
        some (if ownerIsTouchable then byteCodeReleaseNotification released number block
          else (released, .done))
  | .processEvent freed => processEvent state freed
  | .clientReceives => clientReceives state
  | .clientUpdates enable pointer offset =>
    (state.functionList.find? (·.byteCodePtr == pointer)).bind fun function =>
      if offset ∈ function.offsets then
        some ({ state with
          toEngine := state.toEngine ++
            [.updateBreakpoint enable pointer offset function.block] }, .done)
      else none

/-- A debugger is connected, and there is no byte code yet. -/
def start : State := ⟨[], true, [], [], [], []⟩

/-- An update touches code only of a block that is not released, one that was for a released block
is ignored, and a confirmation removes an entry. -/
def Meets (state : State) (op : Op) (next : State) (out : Answer) : Prop :=
  match op, state.toEngine with
  | .processEvent _, .updateBreakpoint _ _ _ number :: _ =>
    (∀ address, out = .touched address → ∃ block ∈ state.blocks, block.covers address = true) ∧
    ((∃ block, state.blocks[number]? = some block ∧ block.isReleased = true) → out = .ignored)
  | .processEvent _, .functionReleased pointer :: _ =>
    out = .confirmed pointer ∧ ∀ other, state.releasedFunctions.count other =
      next.releasedFunctions.count other + if other = pointer then 1 else 0
  | _, _ => True

/-- The block an update is for is not released, or the pointer of the update is by chance the
address of a released block that is not confirmed. -/
def Condition (state : State) : Op → Prop
  | .processEvent _ =>
    match state.toEngine with
    | .updateBreakpoint _ pointer _ number :: _ =>
      (∃ block, state.blocks[number]? = some block ∧ block.isReleased = false) ∨
        pointer ∈ state.releasedFunctions
    | _ => True
  | _ => True

def Describes (blocks : List ByteCodeBlock) (codeStart : Nat) (offsets : List Nat)
    (number : Nat) : Prop :=
  ∃ block, blocks[number]? = some block ∧ block.codeStart = codeStart ∧
    ∀ offset ∈ offsets, offset < block.code.length

/-- Every block is still there, at the same place and of the same length. -/
def Extends (blocks blocks' : List ByteCodeBlock) : Prop :=
  ∀ (number : Nat) (block : ByteCodeBlock), blocks[number]? = some block →
    ∃ block' : ByteCodeBlock, blocks'[number]? = some block' ∧
      block'.codeStart = block.codeStart ∧ block'.code.length = block.code.length

variable {blocks blocks' : List ByteCodeBlock}

theorem Extends.refl (blocks : List ByteCodeBlock) : Extends blocks blocks :=
  fun _ block hblock => ⟨block, hblock, rfl, rfl⟩

theorem Extends.describes (h : Extends blocks blocks') {codeStart number : Nat}
    {offsets : List Nat} (hdescribes : Describes blocks codeStart offsets number) :
    Describes blocks' codeStart offsets number := by
  obtain ⟨block, hblock, hstart, hoffsets⟩ := hdescribes
  obtain ⟨block', hblock', hstart', hlength⟩ := h number block hblock
  exact ⟨block', hblock', hstart'.trans hstart,
    fun offset hoffset => hlength ▸ hoffsets offset hoffset⟩

theorem extends_append (blocks : List ByteCodeBlock) (block : ByteCodeBlock) :
    Extends blocks (blocks ++ [block]) := by
  intro number old hold
  exact ⟨old, getElem?_append_left (List.getElem?_eq_some_iff.mp hold).1 ▸ hold, rfl, rfl⟩

theorem extends_set {number : Nat} {block block' : ByteCodeBlock}
    (hblock : blocks[number]? = some block) (hstart : block'.codeStart = block.codeStart)
    (hlength : block'.code.length = block.code.length) :
    Extends blocks (blocks.set number block') := by
  intro other old hold
  rw [getElem?_set]
  by_cases hsame : number = other
  · subst hsame
    rw [hblock] at hold
    cases hold
    rw [if_pos rfl, if_pos (List.getElem?_eq_some_iff.mp hblock).1]
    exact ⟨block', rfl, hstart, hlength⟩
  · rw [if_neg hsame]
    exact ⟨old, hold, rfl, rfl⟩

theorem extends_updateBreakpoint (blocks : List ByteCodeBlock) (enable : Bool) (address : Nat)
    (freed : Opcode) : Extends blocks (updateBreakpoint blocks enable address freed).1 := by
  unfold updateBreakpoint
  split
  · split
    · rename_i number _ block hblock
      dsimp only
      split
      · exact extends_set hblock rfl length_set
      · exact .refl blocks
    · exact .refl blocks
  · exact .refl blocks

variable (toEngine : List ClientMessage)

def confirmations (pointer : Nat) : Nat := toEngine.countP (· == .functionReleased pointer)

variable (toClient : List EngineMessage) (message : EngineMessage) (pointer : Nat)

def announcements : Nat :=
  toClient.countP fun
    | .releaseFunction other _ => other == pointer
    | _ => false

/-- Messages and entries describe their blocks, and for every announcement and every confirmation
that is on its way there is an entry. -/
structure Inv (state : State) : Prop where
  sent : ∀ codeStart offsets number, .functionPtr codeStart offsets number ∈ state.toClient →
    Describes state.blocks codeStart offsets number
  known : ∀ function ∈ state.functionList,
    Describes state.blocks function.byteCodePtr function.offsets function.block
  updates : ∀ enable pointer offset number,
    .updateBreakpoint enable pointer offset number ∈ state.toEngine →
    Describes state.blocks pointer [offset] number
  entries : ∀ pointer, confirmations state.toEngine pointer +
    announcements state.toClient pointer ≤ state.releasedFunctions.count pointer

theorem inv_start : Inv start :=
  ⟨fun _ _ _ h => (nomatch h), fun _ h => (nomatch h), fun _ _ _ _ h => (nomatch h),
    fun _ => Nat.le_refl _⟩

variable {state next : State} {out : Answer}

theorem Inv.ofExtends (hinv : Inv state) (hextends : Extends state.blocks blocks)
    (enabled : Bool) : Inv { state with blocks, enabled } :=
  ⟨fun codeStart offsets number h => hextends.describes (hinv.sent codeStart offsets number h),
    fun function h => hextends.describes (hinv.known function h),
    fun enable pointer offset number h =>
      hextends.describes (hinv.updates enable pointer offset number h), hinv.entries⟩

theorem announcements_append : announcements (toClient ++ [message]) pointer =
      announcements toClient pointer + announcements [message] pointer :=
  countP_append

theorem confirmations_append (message : ClientMessage)
    (pointer : Nat) : confirmations (toEngine ++ [message]) pointer =
      confirmations toEngine pointer + confirmations [message] pointer :=
  countP_append

theorem announcements_cons : announcements (message :: toClient) pointer =
      announcements [message] pointer + announcements toClient pointer := by
  show announcements ([message] ++ toClient) pointer = _
  exact countP_append

theorem confirmations_cons (message : ClientMessage)
    (pointer : Nat) : confirmations (message :: toEngine) pointer =
      confirmations [message] pointer + confirmations toEngine pointer := by
  show confirmations ([message] ++ toEngine) pointer = _
  exact countP_append

theorem announcements_release (pointer number other : Nat) :
    announcements [.releaseFunction pointer number] other = if pointer = other then 1 else 0 := by
  unfold announcements
  rw [countP_singleton]
  simp only [beq_iff_eq]

theorem confirmations_released (pointer other : Nat) :
    confirmations [.functionReleased pointer] other = if pointer = other then 1 else 0 := by
  unfold confirmations
  simp

theorem confirmations_update (enable : Bool) (pointer offset number other : Nat) :
    confirmations [.updateBreakpoint enable pointer offset number] other = 0 := rfl

theorem Inv.notify (hinv : Inv state) (number : Nat) (block : ByteCodeBlock) :
    Inv (byteCodeReleaseNotification state number block).1 := by
  unfold byteCodeReleaseNotification
  split
  · refine ⟨fun codeStart offsets other h => ?_, hinv.known, hinv.updates, fun pointer => ?_⟩
    · rcases List.mem_append.mp h with hold | hnew
      · exact hinv.sent codeStart offsets other hold
      · cases List.mem_singleton.mp hnew
    · have hentries := hinv.entries pointer
      rw [announcements_append, announcements_release, count_append, count_singleton]
      simp only [beq_iff_eq]
      omega
  · exact hinv

theorem Inv.release (hinv : Inv state) {number : Nat} {block : ByteCodeBlock}
    (hblock : state.blocks[number]? = some block) :
    Inv { state with blocks := state.blocks.set number { block with isReleased := true } } :=
  hinv.ofExtends (@extends_set _ number block { block with isReleased := true } hblock rfl rfl)
    state.enabled

theorem Inv.clientReceives (hinv : Inv state) (hstep : clientReceives state = some (next, out)) :
    Inv next := by
  unfold Debugger.clientReceives at hstep
  split at hstep
  · cases hstep
  · rename_i codeStart offsets number toClient hqueue
    cases hstep
    refine ⟨fun codeStart' offsets' number' h => hinv.sent _ _ _ (hqueue ▸ .tail _ h),
      fun function h => ?_, hinv.updates, fun pointer => ?_⟩
    · rcases List.mem_cons.mp h with rfl | hold
      · exact hinv.sent _ _ _ (hqueue ▸ .head _)
      · exact hinv.known function (List.mem_filter.mp hold).1
    · have hentries := hinv.entries pointer
      rw [hqueue, announcements_cons] at hentries
      dsimp only
      omega
  · rename_i released number toClient hqueue
    have hsent : ∀ codeStart offsets number, .functionPtr codeStart offsets number ∈ toClient →
        Describes state.blocks codeStart offsets number :=
      fun _ _ _ h => hinv.sent _ _ _ (hqueue ▸ .tail _ h)
    have hentries : ∀ pointer, confirmations state.toEngine pointer +
        ((if released = pointer then 1 else 0) + announcements toClient pointer) ≤
          state.releasedFunctions.count pointer := by
      intro pointer
      have hentries := hinv.entries pointer
      rwa [hqueue, announcements_cons, announcements_release] at hentries
    split at hstep
    · cases hstep
      refine ⟨hsent, fun function h => hinv.known function (List.mem_filter.mp h).1,
        fun enable pointer offset number h => ?_, fun pointer => ?_⟩
      · rcases List.mem_append.mp h with hold | hnew
        · exact hinv.updates _ _ _ _ hold
        · cases List.mem_singleton.mp hnew
      · have hpointer := hentries pointer
        dsimp only
        rw [confirmations_append, confirmations_released]
        omega
    · cases hstep
      refine ⟨hsent, hinv.known, hinv.updates, fun pointer => ?_⟩
      have hpointer := hentries pointer
      dsimp only
      omega

variable {freed : Opcode}

theorem Inv.processEvent (hinv : Inv state) (hstep : processEvent state freed = some (next, out)) :
    Inv next := by
  unfold Debugger.processEvent at hstep
  split at hstep
  · split at hstep
    · cases hstep
    · rename_i pointer toEngine hqueue
      have hupdates : ∀ enable pointer offset number,
          .updateBreakpoint enable pointer offset number ∈ toEngine →
          Describes state.blocks pointer [offset] number :=
        fun enable pointer offset number h =>
          hinv.updates enable pointer offset number (hqueue ▸ .tail _ h)
      have hentries : ∀ other, ((if pointer = other then 1 else 0) +
          confirmations toEngine other) + announcements state.toClient other ≤
            state.releasedFunctions.count other := by
        intro other
        have hentries := hinv.entries other
        rwa [hqueue, confirmations_cons, confirmations_released] at hentries
      split at hstep
      · cases hstep
        refine ⟨hinv.sent, hinv.known, hupdates, fun other => ?_⟩
        have hother := hentries other
        rw [count_erase]
        simp only [beq_iff_eq]
        omega
      · cases hstep
        refine ⟨hinv.sent, hinv.known, hupdates, fun other => ?_⟩
        have hother := hentries other
        dsimp only
        omega
    · rename_i enable pointer offset number toEngine hqueue
      have hpopped : Inv { state with toEngine } := by
        refine ⟨hinv.sent, hinv.known, fun enable pointer offset number h =>
          hinv.updates enable pointer offset number (hqueue ▸ .tail _ h), fun other => ?_⟩
        have hother := hinv.entries other
        rwa [hqueue, confirmations_cons, confirmations_update, Nat.zero_add] at hother
      split at hstep
      · cases hstep
        exact hpopped
      · cases hstep
        exact hpopped.ofExtends (extends_updateBreakpoint _ _ _ _) _
  · cases hstep

theorem Inv.step (hinv : Inv state) {op : Op} (hstep : step state op = some (next, out)) :
    Inv next := by
  cases op with
  | create address codeStart code =>
    rw [Debugger.step] at hstep
    split at hstep
    · cases hstep
      exact hinv.ofExtends (extends_append _ _) state.enabled
    · cases hstep
  | parseCompleted number =>
    obtain ⟨block, hblock, hstep⟩ := Option.bind_eq_some_iff.mp hstep
    split at hstep
    · cases hstep
      refine ⟨fun codeStart offsets other h => ?_, hinv.known, hinv.updates, fun pointer => ?_⟩
      · rcases List.mem_append.mp h with hold | hnew
        · exact hinv.sent _ _ _ hold
        · cases List.mem_singleton.mp hnew
          refine ⟨block, hblock, rfl, fun offset hoffset => ?_⟩
          exact List.mem_range.mp (List.mem_filter.mp hoffset).1
      · have hentries := hinv.entries pointer
        rw [announcements_append]
        exact hentries
    · cases hstep
  | release number ownerIsTouchable =>
    obtain ⟨block, hblock, hstep⟩ := Option.bind_eq_some_iff.mp hstep
    split at hstep
    · cases hstep
    · have hreleased := hinv.release hblock
      split at hstep
      · have hnext := hreleased.notify number block
        rw [Option.some.inj hstep] at hnext
        exact hnext
      · cases hstep
        exact hreleased
  | processEvent freed => exact hinv.processEvent hstep
  | clientReceives => exact hinv.clientReceives hstep
  | clientUpdates enable pointer offset =>
    obtain ⟨function, hfind, hstep⟩ := Option.bind_eq_some_iff.mp hstep
    split at hstep
    · rename_i hoffset
      cases hstep
      refine ⟨hinv.sent, hinv.known, fun _ _ _ _ h => ?_, fun other => ?_⟩
      · rcases List.mem_append.mp h with hold | hnew
        · exact hinv.updates _ _ _ _ hold
        · cases List.mem_singleton.mp hnew
          obtain ⟨block, hblock, hstart, hoffsets⟩ :=
            hinv.known function (mem_of_find?_eq_some hfind)
          have hpointer := find?_some hfind
          rw [beq_iff_eq] at hpointer
          refine ⟨block, hblock, hstart.trans hpointer, fun other hother => ?_⟩
          cases List.mem_singleton.mp hother
          exact hoffsets _ hoffset
      · have hentries := hinv.entries other
        rw [confirmations_append, confirmations_update]
        exact hentries
    · cases hstep

theorem covers_of_describes {block : ByteCodeBlock} (hreleased : block.isReleased = false)
    {offset : Nat} (hoffset : offset < block.code.length) :
    block.covers (block.codeStart + offset) = true := by
  unfold ByteCodeBlock.covers
  rw [hreleased, Bool.not_false, Bool.true_and, Bool.and_eq_true, decide_eq_true_eq,
    decide_eq_true_eq]
  omega

theorem meets_update_iff (hinv : Inv state) {enable : Bool} {pointer offset number : Nat}
    {toEngine : List ClientMessage}
    (hqueue : state.toEngine = .updateBreakpoint enable pointer offset number :: toEngine)
    (hstep : processEvent state freed = some (next, out)) :
    Meets state (.processEvent freed) next out ↔ Condition state (.processEvent freed) := by
  obtain ⟨block, hblock, hstart, hoffset⟩ :=
    hinv.updates enable pointer offset number (hqueue ▸ .head _)
  unfold Debugger.processEvent at hstep
  rw [hqueue] at hstep
  unfold Meets Condition
  rw [hqueue]
  dsimp only at hstep ⊢
  split at hstep
  · by_cases hentry : pointer ∈ state.releasedFunctions
    · rw [if_pos hentry] at hstep
      cases hstep
      exact ⟨fun _ => .inr hentry, fun _ => ⟨fun _ h => (nomatch h), fun _ => rfl⟩⟩
    · rw [if_neg hentry] at hstep
      cases hstep
      constructor
      · rintro ⟨-, hignored⟩
        refine .inl ⟨block, hblock, ?_⟩
        rw [← Bool.not_eq_true]
        exact fun hreleased => nomatch hignored ⟨block, hblock, hreleased⟩
      · rintro (⟨live, hlive, hreleased⟩ | hmem)
        · rw [hblock] at hlive
          cases hlive
          refine ⟨fun address haddress => ?_, ?_⟩
          · cases haddress
            rw [← hstart]
            exact ⟨block, mem_of_getElem? hblock,
              covers_of_describes hreleased (hoffset offset (List.mem_singleton.mpr rfl))⟩
          · rintro ⟨other, hother, htrue⟩
            rw [hblock] at hother
            cases hother
            rw [hreleased] at htrue
            cases htrue
        · exact absurd hmem hentry
  · cases hstep

theorem meets_confirmation (hinv : Inv state) {pointer : Nat} {toEngine : List ClientMessage}
    (hqueue : state.toEngine = .functionReleased pointer :: toEngine)
    (hstep : processEvent state freed = some (next, out)) :
    Meets state (.processEvent freed) next out := by
  have hentries := hinv.entries pointer
  rw [hqueue, confirmations_cons, confirmations_released, if_pos rfl] at hentries
  have hentry : pointer ∈ state.releasedFunctions := List.count_pos_iff.mp (by omega)
  unfold Debugger.processEvent at hstep
  rw [hqueue] at hstep
  unfold Meets
  rw [hqueue]
  dsimp only at hstep ⊢
  split at hstep
  · cases hstep
    refine ⟨rfl, fun other => ?_⟩
    rw [count_erase]
    by_cases hsame : other = pointer
    · subst hsame
      simp only [beq_self_eq_true, if_true]
      omega
    · simp [hsame, Ne.symm hsame]
  · cases hstep

theorem meets_iff (hinv : Inv state) {op : Op} (hstep : step state op = some (next, out)) :
    Meets state op next out ↔ Condition state op := by
  cases op with
  | processEvent freed =>
    cases hqueue : state.toEngine with
    | nil =>
      unfold Meets Condition
      rw [hqueue]
    | cons message toEngine =>
      cases message with
      | functionReleased pointer =>
        have hmeets := meets_confirmation hinv hqueue hstep
        have hcondition : Condition state (.processEvent freed) := by
          unfold Condition
          rw [hqueue]
          exact trivial
        exact ⟨fun _ => hcondition, fun _ => hmeets⟩
      | updateBreakpoint enable pointer offset number => exact meets_update_iff hinv hqueue hstep
  | _ => exact Iff.rfl

/-- The entries are the releases that were announced and not yet confirmed. -/
def Balanced (state : State) (outs : List Answer) : Prop :=
  ∀ pointer, state.releasedFunctions.count pointer + outs.count (.confirmed pointer) =
    outs.count (.notified pointer)

variable {outs : List Answer}

theorem Balanced.same (h : Balanced state outs)
    (hentries : next.releasedFunctions = state.releasedFunctions)
    (hout : ∀ pointer, out ≠ .confirmed pointer ∧ out ≠ .notified pointer) :
    Balanced next (outs ++ [out]) := by
  intro pointer
  obtain ⟨hconfirmed, hnotified⟩ := hout pointer
  rw [hentries, count_append, count_append, count_singleton, count_singleton,
    beq_false_of_ne hconfirmed, beq_false_of_ne hnotified]
  exact h pointer

theorem Balanced.processEvent (h : Balanced state outs)
    (hstep : processEvent state freed = some (next, out)) : Balanced next (outs ++ [out]) := by
  unfold Debugger.processEvent at hstep
  split at hstep
  · split at hstep
    · cases hstep
    · rename_i pointer toEngine hqueue
      split at hstep
      · rename_i hentry
        cases hstep
        intro other
        have hother := h other
        rw [count_erase, count_append, count_append, count_singleton, count_singleton]
        by_cases hsame : pointer = other
        · subst hsame
          have hpos := List.count_pos_iff.mpr hentry
          simp only [beq_self_eq_true, if_true, beq_iff_eq, reduceCtorEq, if_false]
          omega
        · simp only [beq_iff_eq, hsame, Answer.confirmed.injEq, if_false, reduceCtorEq]
          omega
      · cases hstep
        exact h.same rfl fun _ => ⟨nofun, nofun⟩
    · split at hstep
      · cases hstep
        exact h.same rfl fun _ => ⟨nofun, nofun⟩
      · cases hstep
        exact h.same rfl fun _ => ⟨nofun, nofun⟩
  · cases hstep

theorem Balanced.notify (h : Balanced state outs) (number : Nat) (block : ByteCodeBlock) :
    Balanced (byteCodeReleaseNotification state number block).1
      (outs ++ [(byteCodeReleaseNotification state number block).2]) := by
  unfold byteCodeReleaseNotification
  split
  · intro other
    have hother := h other
    rw [count_append, count_append, count_append, count_singleton, count_singleton, count_singleton]
    simp only [beq_iff_eq, Answer.notified.injEq, reduceCtorEq, if_false]
    omega
  · exact h.same rfl fun _ => ⟨nofun, nofun⟩

theorem Balanced.clientReceives (h : Balanced state outs)
    (hstep : clientReceives state = some (next, out)) : Balanced next (outs ++ [out]) := by
  unfold Debugger.clientReceives at hstep
  split at hstep
  · cases hstep
  · cases hstep
    exact h.same rfl fun _ => ⟨nofun, nofun⟩
  · split at hstep <;>
      · cases hstep
        exact h.same rfl fun _ => ⟨nofun, nofun⟩

theorem Balanced.step (h : Balanced state outs) {op : Op}
    (hstep : step state op = some (next, out)) : Balanced next (outs ++ [out]) := by
  cases op with
  | create address codeStart code =>
    rw [Debugger.step] at hstep
    split at hstep
    · cases hstep
      exact h.same rfl fun _ => ⟨nofun, nofun⟩
    · cases hstep
  | parseCompleted number =>
    obtain ⟨block, -, hstep⟩ := Option.bind_eq_some_iff.mp hstep
    split at hstep
    · cases hstep
      exact h.same rfl fun _ => ⟨nofun, nofun⟩
    · cases hstep
  | release number ownerIsTouchable =>
    obtain ⟨block, -, hstep⟩ := Option.bind_eq_some_iff.mp hstep
    split at hstep
    · cases hstep
    · have hreleased : Balanced
          { state with blocks := state.blocks.set number { block with isReleased := true } } outs := h
      split at hstep
      · have hnext := hreleased.notify number block
        rw [Option.some.inj hstep] at hnext
        exact hnext
      · cases hstep
        exact h.same rfl fun _ => ⟨nofun, nofun⟩
  | processEvent freed => exact h.processEvent hstep
  | clientReceives => exact h.clientReceives hstep
  | clientUpdates enable pointer offset =>
    obtain ⟨function, -, hstep⟩ := Option.bind_eq_some_iff.mp hstep
    split at hstep
    · cases hstep
      exact h.same rfl fun _ => ⟨nofun, nofun⟩
    · cases hstep

/-- After every run the entries are the unconfirmed releases, and the next step does what is claimed
exactly if it meets the condition. -/
theorem updates_after_release (ops : List Op) {state : State} {outs : List Answer}
    (hrun : run step ops start = some (state, outs)) :
    Balanced state outs ∧ ∀ op next out, step state op = some (next, out) →
      (Meets state op next out ↔ Condition state op) := by
  have hkept : Inv state ∧ Balanced state outs :=
    @Guarded.run_history State Op Answer step (fun _ _ => True)
      (fun _ answers state => Inv state ∧ Balanced state answers)
      (fun h _ hstep => ⟨h.1.step hstep, h.2.step hstep⟩)
      ops [] [] start state outs (.of_forall (fun _ _ => trivial) ops start)
      ⟨inv_start, fun _ => rfl⟩ hrun
  exact ⟨hkept.2, fun op next out hstep => meets_iff hkept.1 hstep⟩

def knownFunction : List Op :=
  [.create 4096 8192 [.other, .breakpointDisabled], .parseCompleted 0, .clientReceives]

/-- The client sets its breakpoint, and the engine has not looked yet. -/
def updateInFlight : State :=
  ⟨[⟨4096, 8192, [.other, .breakpointDisabled], false⟩], true, [], [],
    [.updateBreakpoint true 8192 1 0], [⟨8192, [1], 0⟩]⟩

theorem update_of_live_block : Balanced updateInFlight [.done, .done, .done, .done] ∧
      ∀ op next out, step updateInFlight op = some (next, out) →
        (Meets updateInFlight op next out ↔ Condition updateInFlight op) :=
  updates_after_release (knownFunction ++ [.clientUpdates true 8192 1]) (by decide)

/-- The client got the announcement of the release and still sends an update, which the engine
writes into the code it released. The entry is never confirmed. -/
theorem released_code_touched :
    run step (knownFunction ++ [.release 0 true, .clientReceives, .clientUpdates true 8192 1,
        .processEvent .breakpointDisabled]) start =
      some (⟨[⟨4096, 8192, [.other, .breakpointDisabled], true⟩], true, [4096], [], [],
          [⟨8192, [1], 0⟩]⟩,
        [.done, .done, .done, .notified 4096, .done, .done, .touched 8193]) := by
  decide

end Escargot.Debugger
