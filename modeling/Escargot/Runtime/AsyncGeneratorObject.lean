/-
# Async generators

The request queue of one async generator. User code can run wherever the
engine calls it: in the body, in the resolve function of a request, which reads
`then` of the result it is given, and in `PromiseResolve`, which reads
`constructor` and `then` of the returned value. Each of these calls is kept on
a stack, and what the engine does after one returns is a step of its own. So
requests come at any time, from inside of such calls too.
-/

import Escargot.Runtime.TypedArray

namespace Escargot.Runtime.AsyncGenerator

open List Foundation

universe u

/-- `AsyncGeneratorEnqueueType`. -/
inductive EnqueueType
  | next
  | return
  | throw
  deriving DecidableEq

/-- `AsyncGeneratorState`. -/
inductive GeneratorState
  | executing
  | completed
  | awaitingReturn
  | suspendedStart
  | suspendedYield
  deriving DecidableEq

/-- `AsyncGeneratorQueueData`. A request is told by its number, in the order they come. -/
structure QueueData (V : Type u) where
  number : Nat
  operationType : EnqueueType
  value : V

/-- What the promise of a request is settled with. -/
inductive Settlement (V : Type u)
  | iterResult (value : V) (done : Bool)
  | rejection (reason : V)

/-- A call of the engine that has not returned. -/
inductive Call (V : Type u)
  | body (resumption : EnqueueType) (value : V)
  | resolveFunction
  | rejectFunction
  | promiseResolve (value : V)

def Call.isBody {V : Type u} : Call V → Bool
  | .body _ _ => true
  | _ => false

def Call.isPromiseResolve {V : Type u} : Call V → Bool
  | .promiseResolve _ => true
  | _ => false

/-- The generator, the calls that have not returned with the innermost first, and how many
reactions wait for a promise: to resume the body after an await, or to complete a return.
`readsEmptyQueue` says that the first request was taken where there is none. -/
structure Config (V : Type u) where
  asyncGeneratorState : GeneratorState
  asyncGeneratorQueue : List (QueueData V)
  requested : Nat
  settled : List (Nat × Settlement V)
  calls : List (Call V)
  awaitReactions : Nat
  returnReactions : Nat
  readsEmptyQueue : Bool

variable {V : Type u}

/-- Take the first request, and call the function that settles its promise. -/
def settle (config : Config V) (settlement : Settlement V) : Config V :=
  match config.asyncGeneratorQueue with
  | [] => { config with readsEmptyQueue := true }
  | next :: queue =>
    { config with
      asyncGeneratorQueue := queue
      settled := config.settled ++ [(next.number, settlement)]
      calls :=
        (match settlement with
        | .iterResult _ _ => .resolveFunction
        | .rejection _ => .rejectFunction) :: config.calls }

def asyncGeneratorResolve (config : Config V) (value : V) (done : Bool) : Config V :=
  settle config (.iterResult value done)

def asyncGeneratorReject (config : Config V) (exception : V) : Config V :=
  settle config (.rejection exception)

variable (undefined : V)

def asyncGeneratorResumeNext (config : Config V) : Config V :=
  if config.asyncGeneratorState = .awaitingReturn then config
  else
    match config.asyncGeneratorQueue with
    | [] => config
    | next :: _ =>
      let generatorState :=
        if next.operationType ≠ .next ∧ config.asyncGeneratorState = .suspendedStart then .completed
        else config.asyncGeneratorState
      if generatorState = .completed then
        match next.operationType with
        | .return =>
          { config with
            asyncGeneratorState := .awaitingReturn
            calls := .promiseResolve next.value :: config.calls }
        | .throw =>
          asyncGeneratorReject { config with asyncGeneratorState := .completed } next.value
        | .next => asyncGeneratorResolve config undefined true
      else
        { config with
          asyncGeneratorState := .executing
          calls := .body next.operationType next.value :: config.calls }

/-- What the caller of a step gets: nothing, or the promise of a request. -/
inductive Answer
  | done
  | promise (number : Nat)
  | rejectedPromise (error : ThrownError)

def asyncGeneratorEnqueue (config : Config V) (isAsyncGeneratorObject : Bool)
    (type : EnqueueType) (value : V) : Config V × Answer :=
  if isAsyncGeneratorObject then
    let queued : Config V := { config with
      asyncGeneratorQueue := config.asyncGeneratorQueue ++ [⟨config.requested, type, value⟩]
      requested := config.requested + 1 }
    (if queued.asyncGeneratorState ≠ .executing then asyncGeneratorResumeNext undefined queued
      else queued, .promise config.requested)
  else (config, .rejectedPromise (.typeError "This value is not Async Generator Object."))

/-- The body comes to its end: `ExecutionPauser::start` after the interpreter. -/
def bodyEnds (config : Config V) (value : V) : Config V :=
  asyncGeneratorResolve { config with asyncGeneratorState := .completed } value true

/-- The body throws. Before the generator is started the error goes to the caller. -/
def bodyThrows (config : Config V) (thrownValue : V) : Config V :=
  if config.asyncGeneratorState = .suspendedStart then config
  else asyncGeneratorReject { config with asyncGeneratorState := .completed } thrownValue

/-- The body yields: `ExecutionPauser::pause`. -/
def bodyYields (config : Config V) (value : V) : Config V :=
  asyncGeneratorResolve { config with asyncGeneratorState := .suspendedYield } value false

def returnProcessor (config : Config V) : Settlement V → Config V
  | .iterResult value _ =>
    asyncGeneratorResolve { config with asyncGeneratorState := .completed } value true
  | .rejection reason =>
    asyncGeneratorReject { config with asyncGeneratorState := .completed } reason

inductive Op (V : Type u)
  | enqueue (isAsyncGeneratorObject : Bool) (type : EnqueueType) (value : V)
  | capabilityFunctionReturns
  | promiseResolveReturns
  | promiseResolveThrows (error : V)
  | bodyYields (value : V)
  | bodyAwaits
  | bodyEnds (value : V)
  | bodyThrows (thrownValue : V)
  | awaitFulfilled (value : V)
  | awaitRejected (reason : V)
  | returnFulfilled (value : V)
  | returnRejected (reason : V)

/-- A reaction is a job. No job runs while a call has not returned. -/
def takeReaction (config : Config V) (reactions : Nat) (next : Nat → Config V) :
    Option (Config V × Answer) :=
  match config.calls, reactions with
  | [], reactions + 1 => some (next reactions, .done)
  | _, _ => none

/-- User code makes requests, except in a reject function, which runs none. -/
def step (config : Config V) : Op V → Option (Config V × Answer)
  | .enqueue isAsyncGeneratorObject type value =>
    match config.calls with
    | .rejectFunction :: _ => none
    | _ => some (asyncGeneratorEnqueue undefined config isAsyncGeneratorObject type value)
  | .capabilityFunctionReturns =>
    match config.calls with
    | .resolveFunction :: calls | .rejectFunction :: calls =>
      some (asyncGeneratorResumeNext undefined { config with calls }, .done)
    | _ => none
  | .promiseResolveReturns =>
    match config.calls with
    | .promiseResolve _ :: calls =>
      some ({ config with calls, returnReactions := config.returnReactions + 1 }, .done)
    | _ => none
  | .promiseResolveThrows error =>
    match config.calls with
    | .promiseResolve _ :: calls => some (asyncGeneratorReject { config with calls } error, .done)
    | _ => none
  | .bodyYields value =>
    match config.calls with
    | .body _ _ :: calls => some (bodyYields { config with calls } value, .done)
    | _ => none
  | .bodyAwaits =>
    match config.calls with
    | .body _ _ :: calls =>
      some ({ config with calls, awaitReactions := config.awaitReactions + 1 }, .done)
    | _ => none
  | .bodyEnds value =>
    match config.calls with
    | .body _ _ :: calls => some (bodyEnds { config with calls } value, .done)
    | _ => none
  | .bodyThrows thrownValue =>
    match config.calls with
    | .body _ _ :: calls => some (bodyThrows { config with calls } thrownValue, .done)
    | _ => none
  | .awaitFulfilled value =>
    takeReaction config config.awaitReactions fun awaitReactions =>
      { config with awaitReactions, calls := [.body .next value] }
  | .awaitRejected reason =>
    takeReaction config config.awaitReactions fun awaitReactions =>
      { config with awaitReactions, calls := [.body .throw reason] }
  | .returnFulfilled value =>
    takeReaction config config.returnReactions fun returnReactions =>
      returnProcessor { config with returnReactions } (.iterResult value true)
  | .returnRejected reason =>
    takeReaction config config.returnReactions fun returnReactions =>
      returnProcessor { config with returnReactions } (.rejection reason)

/-- A new generator. -/
def start : Config V := ⟨.suspendedStart, [], 0, [], [], 0, 0, false⟩

/-- How often the body runs or waits inside of an await. -/
def activations (config : Config V) : Nat := config.calls.countP Call.isBody + config.awaitReactions

/-- Requests are settled in the order they came and each once, the body runs once at most, and
where requests wait and the body does not run, the engine is about to go on with the queue: the
generator awaits a return, or a call will return to the loop. Between jobs only the first is
left, and its reaction settles the first request. -/
structure IsSound (undefined : V) (config : Config V) : Prop where
  settledInOrder : config.settled.map Prod.fst ++ config.asyncGeneratorQueue.map QueueData.number =
    List.range config.requested
  takesRequests : config.readsEmptyQueue = false
  bodyRunsOnce : activations config ≤ 1
  bodyGoesOn : config.asyncGeneratorState = .executing → activations config = 1
  drains : config.asyncGeneratorState ≠ .executing → config.asyncGeneratorQueue ≠ [] →
    config.asyncGeneratorState = .awaitingReturn ∨
      .resolveFunction ∈ config.calls ∨ .rejectFunction ∈ config.calls
  awaits : config.calls = [] → config.asyncGeneratorState ≠ .executing →
    config.asyncGeneratorQueue ≠ [] →
    config.asyncGeneratorState = .awaitingReturn ∧ config.returnReactions = 1
  resumes : config.calls = [] → config.asyncGeneratorState = .awaitingReturn →
    ∃ first rest, config.asyncGeneratorQueue = first :: rest ∧
      (∀ value, ∃ next, step undefined config (.returnFulfilled value) = some (next, .done) ∧
        next.asyncGeneratorQueue = rest ∧ .resolveFunction ∈ next.calls ∧
        next.settled = config.settled ++ [(first.number, .iterResult value true)]) ∧
      ∀ reason, ∃ next, step undefined config (.returnRejected reason) = some (next, .done) ∧
        next.asyncGeneratorQueue = rest ∧ .rejectFunction ∈ next.calls ∧
        next.settled = config.settled ++ [(first.number, .rejection reason)]

/-- `PromiseResolve` of a returned value does not throw, and user code that a resolve function
runs does not leave the body inside of an await. -/
def Condition (config : Config V) : Op V → Prop
  | .promiseResolveThrows _ => False
  | .capabilityFunctionReturns => config.asyncGeneratorState ≠ .executing
  | _ => True

instance (config : Config V) (op : Op V) : Decidable (Condition config op) := by
  unfold Condition
  split <;> infer_instance

/-- A step as the engine leaves it before it looks at the queue. -/
structure Ready (config : Config V) : Prop where
  numbered : config.settled.map Prod.fst ++ config.asyncGeneratorQueue.map QueueData.number =
    List.range config.requested
  takesRequests : config.readsEmptyQueue = false
  isIdle : activations config = 0
  state : config.asyncGeneratorState ≠ .executing
  returning : config.calls.countP Call.isPromiseResolve + config.returnReactions =
    if config.asyncGeneratorState = .awaitingReturn then 1 else 0
  holdsRequest : config.asyncGeneratorState = .awaitingReturn → config.asyncGeneratorQueue ≠ []
  noReject : .rejectFunction ∉ config.calls

/-- A generator between two steps. -/
structure Inv (config : Config V) : Prop where
  numbered : config.settled.map Prod.fst ++ config.asyncGeneratorQueue.map QueueData.number =
    List.range config.requested
  takesRequests : config.readsEmptyQueue = false
  active : activations config = if config.asyncGeneratorState = .executing then 1 else 0
  returning : config.calls.countP Call.isPromiseResolve + config.returnReactions =
    if config.asyncGeneratorState = .awaitingReturn then 1 else 0
  holdsRequest : config.asyncGeneratorState = .executing ∨
    config.asyncGeneratorState = .awaitingReturn → config.asyncGeneratorQueue ≠ []
  drains : config.asyncGeneratorState ≠ .executing → config.asyncGeneratorQueue ≠ [] →
    config.asyncGeneratorState = .awaitingReturn ∨
      .resolveFunction ∈ config.calls ∨ .rejectFunction ∈ config.calls
  rejectIsInnermost : .rejectFunction ∉ config.calls.tail
  rejectIsIdle : .rejectFunction ∈ config.calls → config.asyncGeneratorState ≠ .executing

theorem inv_start : Inv (start : Config V) :=
  ⟨rfl, rfl, rfl, rfl, by simp [start], fun _ h => absurd rfl h, not_mem_nil, nofun⟩

def settleCall : Settlement V → Call V
  | .iterResult _ _ => .resolveFunction
  | .rejection _ => .rejectFunction

theorem settle_cons (config : Config V) (settlement : Settlement V) {next : QueueData V}
    {queue : List (QueueData V)} (hqueue : config.asyncGeneratorQueue = next :: queue) :
    settle config settlement = { config with
        asyncGeneratorQueue := queue
        settled := config.settled ++ [(next.number, settlement)]
        calls := settleCall settlement :: config.calls } := by
  unfold settle
  rw [hqueue]
  cases settlement <;> rfl

theorem Ready.settle {config : Config V} (hready : Ready config)
    (hreturn : config.asyncGeneratorState ≠ .awaitingReturn)
    (hqueue : config.asyncGeneratorQueue ≠ []) (settlement : Settlement V) :
    Inv (settle config settlement) := by
  obtain ⟨next, queue, hcons⟩ := exists_cons_of_ne_nil hqueue
  have hbody : (settleCall settlement).isBody = false := by cases settlement <;> rfl
  have hresolve : (settleCall settlement).isPromiseResolve = false := by cases settlement <;> rfl
  have hnumbered := hready.numbered
  have hidle := hready.isIdle
  have hreturning := hready.returning
  rw [settle_cons config settlement hcons]
  rw [hcons] at hnumbered
  rw [if_neg hreturn] at hreturning
  refine ⟨?_, hready.takesRequests, ?_, ?_, fun h => (h.elim hready.state hreturn).elim,
    fun _ _ => ?_, hready.noReject, fun _ => hready.state⟩
  · simpa using hnumbered
  · rw [if_neg hready.state]
    unfold activations at hidle ⊢
    rw [countP_cons_of_neg (by simp [hbody])]
    exact hidle
  · rw [if_neg hreturn, countP_cons_of_neg (by simp [hresolve])]
    exact hreturning
  · cases settlement
    · exact .inr (.inl (.head _))
    · exact .inr (.inr (.head _))

variable {config : Config V}

theorem Ready.withState (hready : Ready config)
    (hreturn : config.asyncGeneratorState ≠ .awaitingReturn) {state : GeneratorState}
    (hstate : state ≠ .executing) (hreturn' : state ≠ .awaitingReturn) :
    Ready { config with asyncGeneratorState := state } := by
  have hreturning := hready.returning
  rw [if_neg hreturn] at hreturning
  exact ⟨hready.numbered, hready.takesRequests, hready.isIdle, hstate,
    by rw [if_neg hreturn']; exact hreturning, fun h => absurd h hreturn', hready.noReject⟩

theorem Ready.startBody (hready : Ready config)
    (hreturn : config.asyncGeneratorState ≠ .awaitingReturn)
    (hqueue : config.asyncGeneratorQueue ≠ []) (type : EnqueueType) (value : V) :
    Inv { config with
      asyncGeneratorState := .executing, calls := .body type value :: config.calls } := by
  have hidle := hready.isIdle
  have hreturning := hready.returning
  rw [if_neg hreturn] at hreturning
  refine ⟨hready.numbered, hready.takesRequests, ?_, ?_, fun _ => hqueue,
    fun h => absurd rfl h, hready.noReject, fun h => ?_⟩
  · unfold activations at hidle ⊢
    rw [if_pos rfl, countP_cons_of_pos rfl]
    dsimp only
    omega
  · rw [countP_cons_of_neg (by simp [Call.isPromiseResolve])]
    exact hreturning
  · rcases List.mem_cons.mp h with hnew | hold
    · cases hnew
    · exact absurd hold hready.noReject

theorem Ready.startReturn (hready : Ready config)
    (hreturn : config.asyncGeneratorState ≠ .awaitingReturn)
    (hqueue : config.asyncGeneratorQueue ≠ []) (value : V) :
    Inv { config with
      asyncGeneratorState := .awaitingReturn, calls := .promiseResolve value :: config.calls } := by
  have hidle := hready.isIdle
  have hreturning := hready.returning
  rw [if_neg hreturn] at hreturning
  refine ⟨hready.numbered, hready.takesRequests, ?_, ?_, fun _ => hqueue, fun _ _ => .inl rfl,
    hready.noReject, fun _ => nofun⟩
  · unfold activations at hidle ⊢
    exact hidle
  · rw [if_pos rfl, countP_cons_of_pos rfl]
    dsimp only
    omega

theorem Ready.rest (hready : Ready config)
    (hrest : config.asyncGeneratorState = .awaitingReturn ∨ config.asyncGeneratorQueue = []) :
    Inv config :=
  ⟨hready.numbered, hready.takesRequests, by rw [if_neg hready.state]; exact hready.isIdle,
    hready.returning, fun h => hready.holdsRequest (h.resolve_left hready.state),
    fun _ hqueue => .inl (hrest.resolve_right hqueue),
    fun h => hready.noReject (mem_of_mem_tail h), fun _ => hready.state⟩

theorem Ready.resumeNext (hready : Ready config) (undefined : V) :
    Inv (asyncGeneratorResumeNext undefined config) := by
  unfold asyncGeneratorResumeNext
  split
  · exact hready.rest (.inl ‹_›)
  · rename_i hreturn
    split
    · exact hready.rest (.inr ‹_›)
    · rename_i next queue hcons
      have hqueue : config.asyncGeneratorQueue ≠ [] := hcons ▸ cons_ne_nil next queue
      dsimp only
      generalize (if next.operationType ≠ .next ∧ config.asyncGeneratorState = .suspendedStart then
        GeneratorState.completed else config.asyncGeneratorState) = generatorState
      split
      · cases next.operationType with
        | «return» => exact hready.startReturn hreturn hqueue next.value
        | throw =>
          have hcompleted : Ready { config with asyncGeneratorState := .completed } :=
            hready.withState hreturn nofun nofun
          exact hcompleted.settle nofun hqueue (.rejection next.value)
        | next => exact hready.settle hreturn hqueue _
      · exact hready.startBody hreturn hqueue next.operationType next.value

variable {type : EnqueueType} {value : V} {calls : List (Call V)}

section

variable (hinv : Inv config)
include hinv

theorem Inv.executing_of_body (hcalls : config.calls = .body type value :: calls) :
    config.asyncGeneratorState = .executing := by
  by_contra hstate
  have hactive := hinv.active
  unfold activations at hactive
  rw [if_neg hstate, hcalls, countP_cons_of_pos rfl] at hactive
  omega

theorem Inv.awaitingReturn_of_promiseResolve
    (hcalls : config.calls = .promiseResolve value :: calls) :
    config.asyncGeneratorState = .awaitingReturn := by
  by_contra hstate
  have hreturning := hinv.returning
  rw [if_neg hstate, hcalls, countP_cons_of_pos rfl] at hreturning
  omega

theorem Inv.leaveBody (hcalls : config.calls = .body type value :: calls) (state : GeneratorState)
    (hstate : state ≠ .executing) (hreturn : state ≠ .awaitingReturn) :
    Ready { config with calls, asyncGeneratorState := state } := by
  have hexecuting := hinv.executing_of_body hcalls
  have hactive := hinv.active
  have hreturning := hinv.returning
  have hreject := hinv.rejectIsInnermost
  unfold activations at hactive
  rw [hcalls, if_pos hexecuting, countP_cons_of_pos rfl] at hactive
  rw [hcalls, hexecuting, countP_cons_of_neg (by simp [Call.isPromiseResolve])] at hreturning
  rw [hcalls] at hreject
  refine ⟨hinv.numbered, hinv.takesRequests, ?_, hstate, ?_, fun h => absurd h hreturn, hreject⟩
  · unfold activations
    dsimp only
    omega
  · rw [if_neg hreturn]
    exact hreturning

theorem Inv.queue (hstate : config.asyncGeneratorState = .executing) (type : EnqueueType)
    (value : V) :
    Inv { config with
      asyncGeneratorQueue := config.asyncGeneratorQueue ++ [⟨config.requested, type, value⟩]
      requested := config.requested + 1 } := by
  refine ⟨?_, hinv.takesRequests, hinv.active, hinv.returning,
    fun _ => append_ne_nil_of_right_ne_nil _ (cons_ne_nil _ _),
    fun h => absurd hstate h, hinv.rejectIsInnermost, hinv.rejectIsIdle⟩
  rw [map_append, ← append_assoc, hinv.numbered, range_succ]
  rfl

theorem Inv.readyQueue (hstate : config.asyncGeneratorState ≠ .executing)
    (hreject : .rejectFunction ∉ config.calls) (type : EnqueueType) (value : V) :
    Ready { config with
      asyncGeneratorQueue := config.asyncGeneratorQueue ++ [⟨config.requested, type, value⟩]
      requested := config.requested + 1 } := by
  have hactive := hinv.active
  rw [if_neg hstate] at hactive
  refine ⟨?_, hinv.takesRequests, hactive, hstate, hinv.returning,
    fun _ => append_ne_nil_of_right_ne_nil _ (cons_ne_nil _ _), hreject⟩
  rw [map_append, ← append_assoc, hinv.numbered, range_succ]
  rfl

theorem Inv.enqueue (hreject : .rejectFunction ∉ config.calls) (undefined : V)
    (isAsyncGeneratorObject : Bool) (type : EnqueueType) (value : V) :
    Inv (asyncGeneratorEnqueue undefined config isAsyncGeneratorObject type value).1 := by
  unfold asyncGeneratorEnqueue
  split
  · dsimp only
    split
    · exact (hinv.readyQueue ‹_› hreject type value).resumeNext undefined
    · exact hinv.queue (not_ne_iff.mp ‹_›) type value
  · exact hinv

theorem Inv.leaveCapability (hstate : config.asyncGeneratorState ≠ .executing) {call : Call V}
    (hcalls : config.calls = call :: calls) (hbody : call.isBody = false)
    (hresolve : call.isPromiseResolve = false) : Ready { config with calls } := by
  have hactive := hinv.active
  have hreturning := hinv.returning
  have hreject := hinv.rejectIsInnermost
  unfold activations at hactive
  rw [if_neg hstate, hcalls, countP_cons_of_neg (by simp [hbody])] at hactive
  rw [hcalls, countP_cons_of_neg (by simp [hresolve])] at hreturning
  rw [hcalls] at hreject
  exact ⟨hinv.numbered, hinv.takesRequests, hactive, hstate, hreturning,
    fun h => hinv.holdsRequest (.inr h), hreject⟩

theorem Inv.leavePromiseResolve (hcalls : config.calls = .promiseResolve value :: calls) :
    Inv { config with calls, returnReactions := config.returnReactions + 1 } := by
  have hstate := hinv.awaitingReturn_of_promiseResolve hcalls
  have hactive := hinv.active
  have hreturning := hinv.returning
  have hreject := hinv.rejectIsInnermost
  unfold activations at hactive
  rw [hcalls, countP_cons_of_neg (by simp [Call.isBody])] at hactive
  rw [hcalls, countP_cons_of_pos rfl] at hreturning
  rw [hcalls] at hreject
  refine ⟨hinv.numbered, hinv.takesRequests, hactive, ?_, hinv.holdsRequest,
    fun _ _ => .inl hstate, fun h => hreject (mem_of_mem_tail h),
    fun h => absurd h hreject⟩
  dsimp only
  omega

theorem Inv.await (hcalls : config.calls = .body type value :: calls) :
    Inv { config with calls, awaitReactions := config.awaitReactions + 1 } := by
  have hstate := hinv.executing_of_body hcalls
  have hactive := hinv.active
  have hreturning := hinv.returning
  have hreject := hinv.rejectIsInnermost
  unfold activations at hactive
  rw [hcalls, countP_cons_of_pos rfl] at hactive
  rw [hcalls, countP_cons_of_neg (by simp [Call.isPromiseResolve])] at hreturning
  rw [hcalls] at hreject
  refine ⟨hinv.numbered, hinv.takesRequests, ?_, hreturning, hinv.holdsRequest,
    fun h => absurd hstate h, fun h => hreject (mem_of_mem_tail h),
    fun h => absurd h hreject⟩
  unfold activations
  dsimp only
  omega

theorem Inv.resumeAwait (hcalls : config.calls = []) {awaitReactions : Nat}
    (hawait : config.awaitReactions = awaitReactions + 1) (type : EnqueueType) (value : V) :
    Inv { config with awaitReactions, calls := [.body type value] } := by
  have hactive := hinv.active
  have hreturning := hinv.returning
  unfold activations at hactive
  rw [hcalls, hawait] at hactive
  rw [hcalls] at hreturning
  have hstate : config.asyncGeneratorState = .executing := by
    by_contra hstate
    rw [if_neg hstate] at hactive
    cases hactive
  refine ⟨hinv.numbered, hinv.takesRequests, ?_, hreturning, hinv.holdsRequest,
    fun h => absurd hstate h, not_mem_nil, fun h => nomatch List.mem_singleton.mp h⟩
  rw [← hactive]
  show 1 + awaitReactions = 0 + (awaitReactions + 1)
  omega

theorem Inv.resumeReturn (hcalls : config.calls = []) {returnReactions : Nat}
    (hreturn : config.returnReactions = returnReactions + 1) :
    config.asyncGeneratorState = .awaitingReturn ∧
      Ready { config with returnReactions, asyncGeneratorState := .completed } := by
  have hactive := hinv.active
  have hreturning := hinv.returning
  rw [hcalls, hreturn] at hreturning
  have hstate : config.asyncGeneratorState = .awaitingReturn := by
    by_contra hstate
    rw [if_neg hstate] at hreturning
    cases hreturning
  rw [hstate] at hactive hreturning
  refine ⟨hstate, hinv.numbered, hinv.takesRequests, hactive, nofun, ?_, nofun, ?_⟩
  · rw [hcalls]
    exact Nat.succ.inj hreturning
  · rw [hcalls]
    exact not_mem_nil

end

theorem takeReaction_eq_some {next : Config V} {reactions : Nat} {f : Nat → Config V}
    {out : Answer} (h : takeReaction config reactions f = some (next, out)) :
    config.calls = [] ∧ ∃ rest, reactions = rest + 1 ∧ next = f rest := by
  unfold takeReaction at h
  split at h
  · rename_i rest hcalls
    cases h
    exact ⟨hcalls, rest, rfl, rfl⟩
  · cases h

theorem Inv.step {undefined : V} {next : Config V} {op : Op V} {out : Answer} (hinv : Inv config)
    (hcondition : Condition config op) (hstep : step undefined config op = some (next, out)) :
    Inv next := by
  cases op with
  | enqueue isAsyncGeneratorObject type value =>
    simp only [AsyncGenerator.step] at hstep
    split at hstep
    · cases hstep
    · rename_i hinnermost
      have hreject : .rejectFunction ∉ config.calls := by
        intro hmem
        cases hcalls : config.calls with
        | nil => simp [hcalls] at hmem
        | cons call calls =>
          rcases List.mem_cons.mp (hcalls ▸ hmem) with hcall | hrest
          · exact hinnermost calls (hcalls.trans (hcall ▸ rfl))
          · exact hinv.rejectIsInnermost (hcalls ▸ hrest)
      have hinv' := hinv.enqueue hreject undefined isAsyncGeneratorObject type value
      rw [Option.some.inj hstep] at hinv'
      exact hinv'
  | capabilityFunctionReturns =>
    simp only [AsyncGenerator.step] at hstep
    split at hstep
    · cases hstep
      exact (hinv.leaveCapability hcondition ‹_› rfl rfl).resumeNext undefined
    · cases hstep
      exact (hinv.leaveCapability hcondition ‹_› rfl rfl).resumeNext undefined
    · cases hstep
  | promiseResolveReturns =>
    simp only [AsyncGenerator.step] at hstep
    split at hstep
    · cases hstep
      exact hinv.leavePromiseResolve ‹_›
    · cases hstep
  | promiseResolveThrows error => exact hcondition.elim
  | bodyYields value =>
    simp only [AsyncGenerator.step] at hstep
    split at hstep
    · rename_i hcalls
      have hqueue := hinv.holdsRequest (.inl (hinv.executing_of_body hcalls))
      have hready := hinv.leaveBody hcalls .suspendedYield nofun nofun
      cases hstep
      exact hready.settle nofun hqueue (.iterResult value false)
    · cases hstep
  | bodyAwaits =>
    simp only [AsyncGenerator.step] at hstep
    split at hstep
    · cases hstep
      exact hinv.await ‹_›
    · cases hstep
  | bodyEnds value =>
    simp only [AsyncGenerator.step] at hstep
    split at hstep
    · rename_i hcalls
      have hqueue := hinv.holdsRequest (.inl (hinv.executing_of_body hcalls))
      have hready := hinv.leaveBody hcalls .completed nofun nofun
      cases hstep
      exact hready.settle nofun hqueue (.iterResult value true)
    · cases hstep
  | bodyThrows thrownValue =>
    simp only [AsyncGenerator.step] at hstep
    split at hstep
    · rename_i hcalls
      have hexecuting := hinv.executing_of_body hcalls
      have hqueue := hinv.holdsRequest (.inl hexecuting)
      have hready := hinv.leaveBody hcalls .completed nofun nofun
      cases hstep
      unfold bodyThrows
      rw [if_neg (by simp [hexecuting])]
      exact hready.settle nofun hqueue (.rejection thrownValue)
    · cases hstep
  | awaitFulfilled value =>
    obtain ⟨hcalls, rest, hreactions, rfl⟩ := takeReaction_eq_some hstep
    exact hinv.resumeAwait hcalls hreactions .next value
  | awaitRejected reason =>
    obtain ⟨hcalls, rest, hreactions, rfl⟩ := takeReaction_eq_some hstep
    exact hinv.resumeAwait hcalls hreactions .throw reason
  | returnFulfilled value =>
    obtain ⟨hcalls, rest, hreactions, rfl⟩ := takeReaction_eq_some hstep
    obtain ⟨hstate, hready⟩ := hinv.resumeReturn hcalls hreactions
    exact hready.settle nofun (hinv.holdsRequest (.inr hstate)) (.iterResult value true)
  | returnRejected reason =>
    obtain ⟨hcalls, rest, hreactions, rfl⟩ := takeReaction_eq_some hstep
    obtain ⟨hstate, hready⟩ := hinv.resumeReturn hcalls hreactions
    exact hready.settle nofun (hinv.holdsRequest (.inr hstate)) (.rejection reason)

theorem Inv.returnReactions_eq (hinv : Inv config) (hcalls : config.calls = [])
    (hstate : config.asyncGeneratorState = .awaitingReturn) : config.returnReactions = 1 := by
  have hreturning := hinv.returning
  rw [hcalls, if_pos hstate] at hreturning
  exact (Nat.zero_add _).symm.trans hreturning

theorem Inv.isSound (hinv : Inv config) (undefined : V) : IsSound undefined config := by
  refine ⟨hinv.numbered, hinv.takesRequests, ?_, ?_, hinv.drains, ?_, ?_⟩
  · rw [hinv.active]
    split <;> omega
  · intro hstate
    rw [hinv.active, if_pos hstate]
  · intro hcalls hstate hqueue
    have hreturn : config.asyncGeneratorState = .awaitingReturn :=
      (hinv.drains hstate hqueue).resolve_right (by simp [hcalls])
    exact ⟨hreturn, hinv.returnReactions_eq hcalls hreturn⟩
  · intro hcalls hstate
    obtain ⟨first, rest, hcons⟩ := exists_cons_of_ne_nil (hinv.holdsRequest (.inr hstate))
    have hreactions := hinv.returnReactions_eq hcalls hstate
    refine ⟨first, rest, hcons, fun value => ?_, fun reason => ?_⟩
    · refine ⟨_, by simp only [AsyncGenerator.step, takeReaction, hcalls, hreactions]; rfl, ?_⟩
      simp [returnProcessor, asyncGeneratorResolve, settle, hcons]
    · refine ⟨_, by simp only [AsyncGenerator.step, takeReaction, hcalls, hreactions]; rfl, ?_⟩
      simp [returnProcessor, asyncGeneratorReject, settle, hcons]

/-- In every run in which `PromiseResolve` of a returned value does not throw, and in which no
resolve function returns while the body waits for a promise, requests are settled in order and
none is left behind. -/
theorem requests_are_settled_in_order (undefined : V) {config : Config V}
    (hreached : ReachedBy (step undefined) Condition start config) : IsSound undefined config :=
  (hreached.invariant inv_start Inv.step).isSound undefined

/-- The body awaits, yields and ends, with requests from inside of a resolve function too. -/
def drainedOps : List (Op Nat) :=
  [.enqueue true .next 1, .bodyAwaits, .enqueue true .return 2, .awaitFulfilled 3, .bodyYields 4,
    .enqueue true .next 5, .bodyYields 6, .capabilityFunctionReturns, .bodyEnds 7,
    .capabilityFunctionReturns, .capabilityFunctionReturns]

theorem drained_in_order :
    ∃ config, ReachedBy (step 0) Condition (start : Config Nat) config ∧ IsSound 0 config ∧
      config.settled =
        [(0, .iterResult 4 false), (1, .iterResult 6 false), (2, .iterResult 7 true)] :=
  have hreached : ReachedBy (step 0) Condition start
      (⟨.completed, [], 3, [(0, .iterResult 4 false), (1, .iterResult 6 false),
        (2, .iterResult 7 true)], [], 0, 0, false⟩ : Config Nat) :=
    ⟨drainedOps, _, by decide, rfl⟩
  ⟨_, hreached, requests_are_settled_in_order 0 hreached, rfl⟩

/-- A promise whose `constructor` throws is returned to a generator that is not started. -/
def strandedOps : List (Op Nat) :=
  [.enqueue true .return 1, .promiseResolveThrows 2, .capabilityFunctionReturns,
    .enqueue true .next 3]

/-- The `then` that the resolve function of a yield reads makes a request, for which the body
comes to an await. -/
def restartedOps : List (Op Nat) :=
  [.enqueue true .next 1, .bodyYields 2, .enqueue true .next 3, .bodyAwaits,
    .capabilityFunctionReturns]

/-- Then a request is left pending with no reaction, or the body runs inside of its await. -/
theorem request_is_stranded :
    (∃ config outs, run (step 0) strandedOps (start : Config Nat) = some (config, outs) ∧
      config.calls = [] ∧ config.asyncGeneratorQueue = [⟨1, .next, 3⟩] ∧
      config.returnReactions = 0 ∧ ¬ IsSound 0 config) ∧
    ∃ config outs, run (step 0) restartedOps (start : Config Nat) = some (config, outs) ∧
      activations config = 2 ∧ ¬ IsSound 0 config :=
  ⟨⟨_, _, rfl, rfl, rfl, rfl, fun hsound => nomatch (hsound.awaits rfl nofun nofun).2⟩,
    ⟨_, _, rfl, rfl, fun hsound => absurd hsound.bodyRunsOnce (by decide)⟩⟩

end Escargot.Runtime.AsyncGenerator
