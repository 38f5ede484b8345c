/-
# Promises and their jobs

Promise objects, the resolving functions created for them, and the queue of
reaction and thenable jobs. User code runs at three places: in the getter of
`then` while a promise is being resolved, in the handler of a reaction job, and
in the `then` method a thenable job calls. Each of these is left and entered
again by operations of their own, so that everything else can happen in
between. Hooks of the host are not modelled: they run before the flag of a
resolving function is tested, or after a promise was settled.
-/

import Escargot.Foundation.Run

namespace Escargot.Runtime.Promises

open List Option Foundation

inductive Value
  | primitive (id : Nat)
  | promise (id : Nat)
  | object (id : Nat)
  | selfResolutionError
  deriving DecidableEq

def Value.isObject : Value → Bool
  | primitive _ => false
  | _ => true

inductive PromiseState
  | pending
  | fulFilled
  | rejected
  deriving DecidableEq

/-- The functions of a capability: a pair of resolving functions, or functions of a subclass. -/
inductive Capability
  | pair (index : Nat)
  | foreign (id : Nat)
  deriving DecidableEq

inductive Handler
  | identity
  | thrower
  | function (id : Nat)
  deriving DecidableEq

/-- `PromiseReaction`. There is no capability when `then` was called without one. -/
structure Reaction where
  handler : Handler
  capability : Option Capability
  deriving DecidableEq

structure PromiseObject where
  state : PromiseState
  promiseResult : Option Value
  fulfillReactions : List Reaction
  rejectReactions : List Reaction
  deriving DecidableEq

/-- A pair of resolving functions with the flag they share. -/
structure ResolvingFunctions where
  promise : Nat
  alreadyResolved : Bool

inductive Job
  | reaction (reaction : Reaction) (argument : Option Value)
  | resolveThenable (promise : Nat) (thenable : Value) (thenAction : Nat)

/-- The promises of a context, with the resolutions that wait for a getter of `then` and the
reactions whose handler is running. -/
structure World where
  promises : List PromiseObject
  pairs : List ResolvingFunctions
  jobs : List Job
  resolving : List (Nat × Value)
  running : List Reaction

def World.empty : World := ⟨[], [], [], [], []⟩

/-- A job with the promise it was enqueued for. -/
abbrev Enqueued := Nat × Job

def triggerPromiseReactions (promise : Nat) (reactions : List Reaction) (result : Option Value) :
    List Enqueued :=
  reactions.map fun reaction => (promise, .reaction reaction result)

variable (w : World) (p : Nat) (onFulfilled onRejected : Option Nat)
  (capability : Option Capability)

def World.update (promise : PromiseObject) (enqueued : List Enqueued) : World × List Enqueued :=
  ({ w with promises := w.promises.set p promise, jobs := w.jobs ++ enqueued.map Prod.snd },
    enqueued)

def World.settleAs (state : PromiseState)
    (reactions : PromiseObject → List Reaction) (result : Value) :
    Option (World × List Enqueued) := do
  let promise ← w.promises[p]?
  return w.update p ⟨state, some result, [], []⟩
    (triggerPromiseReactions p (reactions promise) (some result))

def World.fulfill (value : Value) : Option (World × List Enqueued) :=
  w.settleAs p .fulFilled PromiseObject.fulfillReactions value

variable (index : Nat) (reason : Value)

/-- `PromiseObject::reject`. Without reactions there is nothing to trigger. -/
def World.reject : Option (World × List Enqueued) :=
  w.settleAs p .rejected PromiseObject.rejectReactions reason

/-- The reactions `then` registers for the two outcomes. -/
def makeReactions : Reaction × Reaction :=
  (⟨(onFulfilled.map .function).getD .identity, capability⟩,
    ⟨(onRejected.map .function).getD .thrower, capability⟩)

/-- `PromiseObject::then`. -/
def World.performThen : Option (World × List Enqueued) := do
  let promise ← w.promises[p]?
  let reactions := makeReactions onFulfilled onRejected capability
  match promise.state with
  | .pending =>
    return w.update p
      { promise with
        fulfillReactions := promise.fulfillReactions ++ [reactions.1]
        rejectReactions := promise.rejectReactions ++ [reactions.2] } []
  | .fulFilled => return w.update p promise [(p, .reaction reactions.1 promise.promiseResult)]
  | .rejected => return w.update p promise [(p, .reaction reactions.2 promise.promiseResult)]

def World.createResolvingFunctions : World := { w with pairs := w.pairs ++ [⟨p, false⟩] }

def World.setAlreadyResolved (pair : ResolvingFunctions) : World :=
  { w with pairs := w.pairs.set index { pair with alreadyResolved := true } }

/-- `promiseResolveFunctions`, up to the getter of `then`. -/
def World.promiseResolveFunction (resolution : Value) : Option (World × List Enqueued) := do
  let pair ← w.pairs[index]?
  if pair.alreadyResolved then return (w, [])
  else
    let w := w.setAlreadyResolved index pair
    if resolution = .promise pair.promise then w.reject pair.promise .selfResolutionError
    else if resolution.isObject = false then w.fulfill pair.promise resolution
    else return ({ w with resolving := w.resolving ++ [(pair.promise, resolution)] }, [])

/-- `promiseRejectFunctions`. -/
def World.promiseRejectFunction : Option (World × List Enqueued) := do
  let pair ← w.pairs[index]?
  if pair.alreadyResolved then return (w, [])
  else (w.setAlreadyResolved index pair).reject pair.promise reason

/-- What reading `then` gives. -/
inductive ThenLookup
  | threw (reason : Value)
  | callable (thenAction : Nat)
  | notCallable

/-- `promiseResolveFunctions`, after the getter of `then`. -/
def World.finishResolve (i : Nat) (lookup : ThenLookup) : Option (World × List Enqueued) := do
  let (p, resolution) ← w.resolving[i]?
  let w := { w with resolving := w.resolving.eraseIdx i }
  match lookup with
  | .threw reason => w.reject p reason
  | .callable thenAction =>
    return ({ w with jobs := w.jobs ++ [.resolveThenable p resolution thenAction] }, [])
  | .notCallable => w.fulfill p resolution

def World.callResolve (capability : Capability) (value : Value) : Option (World × List Enqueued) :=
  match capability with
  | .pair index => w.promiseResolveFunction index value
  | .foreign _ => some (w, [])

def World.callReject (capability : Capability) (reason : Value) : Option (World × List Enqueued) :=
  match capability with
  | .pair index => w.promiseRejectFunction index reason
  | .foreign _ => some (w, [])

/-- The next job of the queue, up to the user code it calls. A reaction without a capability
whose handler is not a function would call through a null pointer. -/
def World.runJob : Option (World × List Enqueued) :=
  match w.jobs with
  | [] => none
  | .reaction reaction argument :: jobs =>
    let w := { w with jobs }
    match reaction.handler with
    | .identity => do w.callResolve (← reaction.capability) (← argument)
    | .thrower => do w.callReject (← reaction.capability) (← argument)
    | .function _ => some ({ w with running := w.running ++ [reaction] }, [])
  | .resolveThenable p _ _ :: jobs => some ({ w with jobs }.createResolvingFunctions p, [])

/-- How user code ends. -/
inductive Completion
  | returned (value : Value)
  | threw (reason : Value)

/-- `PromiseReactionJob::run`, after the handler. -/
def World.finishReaction (i : Nat) (completion : Completion) : Option (World × List Enqueued) := do
  let reaction ← w.running[i]?
  let w := { w with running := w.running.eraseIdx i }
  match reaction.capability, completion with
  | none, _ => return (w, [])
  | some capability, .returned value => w.callResolve capability value
  | some capability, .threw reason => w.callReject capability reason

/-- What can happen. Whatever a `then` method does with the functions a thenable job gives it is
a call of these functions, the call of the rejecting one when it throws included. -/
inductive PromiseOp
  | newPromise
  | newHostPromise
  | createResolvingFunctions (promise : Nat)
  | resolveFunction (index : Nat) (resolution : Value)
  | rejectFunction (index : Nat) (reason : Value)
  | finishResolve (i : Nat) (lookup : ThenLookup)
  | fulfill (promise : Nat) (value : Value)
  | reject (promise : Nat) (reason : Value)
  | performThen (promise : Nat) (onFulfilled onRejected : Option Nat)
      (capability : Option Capability)
  | runJob
  | finishReaction (i : Nat) (completion : Completion)

/-- The constructor of `PromiseObject`. -/
def World.newPromise : World := { w with promises := w.promises ++ [⟨.pending, none, [], []⟩] }

/-- One operation, with the jobs it enqueues for reactions. A handle that does not exist stops
the run. -/
def World.step : PromiseOp → Option (World × List Enqueued)
  | .newPromise => some (w.newPromise.createResolvingFunctions w.promises.length, [])
  | .newHostPromise => some (w.newPromise, [])
  | .createResolvingFunctions p =>
    if p < w.promises.length then some (w.createResolvingFunctions p, []) else none
  | .resolveFunction index resolution => w.promiseResolveFunction index resolution
  | .rejectFunction index reason => w.promiseRejectFunction index reason
  | .finishResolve i lookup => w.finishResolve i lookup
  | .fulfill p value => w.fulfill p value
  | .reject p reason => w.reject p reason
  | .performThen p onFulfilled onRejected capability =>
    w.performThen p onFulfilled onRejected capability
  | .runJob => w.runJob
  | .finishReaction i completion => w.finishReaction i completion

section Counting

variable {α : Type} {P : α → Bool} {l : List α} {i : Nat} {a : α}

theorem countP_set_add (h : l[i]? = some a) (b : α) :
    (l.set i b).countP P + (if P a then 1 else 0) = l.countP P + (if P b then 1 else 0) := by
  induction l generalizing i with
  | nil => cases h
  | cons x l ih =>
    cases i with
    | zero =>
      cases h
      rw [set_cons_zero, countP_cons, countP_cons]
      omega
    | succ i =>
      have hrest := ih h
      rw [set_cons_succ, countP_cons, countP_cons]
      omega

theorem countP_eraseIdx_add (h : l[i]? = some a) :
    (l.eraseIdx i).countP P + (if P a then 1 else 0) = l.countP P := by
  induction l generalizing i with
  | nil => cases h
  | cons x l ih =>
    cases i with
    | zero =>
      cases h
      rw [eraseIdx_cons_zero, countP_cons]
    | succ i =>
      have hrest := ih h
      rw [eraseIdx_cons_succ, countP_cons, countP_cons]
      omega

end Counting

/-- The job will make new resolving functions for this promise. -/
def Job.resolves (p : Nat) : Job → Bool
  | .reaction _ _ => false
  | .resolveThenable q _ _ => q == p

/-- How many times a promise can still be settled by what is on its way: through functions whose
flag is clear, through a thenable job, or through a resolution that waits for `then`. -/
def World.claims (w : World) (p : Nat) : Nat :=
  w.pairs.countP (fun pair => pair.promise == p && !pair.alreadyResolved) +
    w.jobs.countP (Job.resolves p) + w.resolving.countP (fun entry => entry.1 == p)

/-- The promise is pending and nothing is on its way. -/
def World.Unclaimed (w : World) (p : Nat) : Prop :=
  (w.promises[p]?).map (·.state) = some .pending ∧ w.claims p = 0

/-- Direct calls and further resolving functions are for a promise that nothing else settles. -/
def World.Allowed (w : World) : PromiseOp → Prop
  | .createResolvingFunctions p => w.Unclaimed p
  | .fulfill p _ => w.Unclaimed p
  | .reject p _ => w.Unclaimed p
  | _ => True

instance (w : World) (p : Nat) : Decidable (w.Unclaimed p) := inferInstanceAs (Decidable (_ ∧ _))

instance (w : World) : ∀ op, Decidable (w.Allowed op)
  | .createResolvingFunctions p => inferInstanceAs (Decidable (w.Unclaimed p))
  | .fulfill p _ => inferInstanceAs (Decidable (w.Unclaimed p))
  | .reject p _ => inferInstanceAs (Decidable (w.Unclaimed p))
  | .newPromise | .newHostPromise | .resolveFunction _ _ | .rejectFunction _ _
  | .finishResolve _ _ | .performThen _ _ _ _ | .runJob | .finishReaction _ _ =>
    inferInstanceAs (Decidable True)

/-- Nothing changes but who may settle, and a promise `p` loses one such right. -/
structure World.Spends (w w' : World) (p : Nat) : Prop where
  promises : w'.promises = w.promises
  claims : ∀ q, w'.claims q + (if p = q then 1 else 0) = w.claims q

namespace World

variable {w : World}

theorem spends_setAlreadyResolved {index : Nat} {pair : ResolvingFunctions}
    (h : w.pairs[index]? = some pair) (hlive : pair.alreadyResolved = false) :
    w.Spends (w.setAlreadyResolved index pair) pair.promise where
  promises := rfl
  claims := by
    intro q
    have hset := countP_set_add (P := fun pair => pair.promise == q && !pair.alreadyResolved) h
      { pair with alreadyResolved := true }
    simp only [hlive, Bool.not_false, Bool.and_true, Bool.not_true, Bool.and_false, beq_iff_eq,
      Bool.false_eq_true, if_false, Nat.add_zero] at hset
    simp only [World.claims, setAlreadyResolved]
    omega

theorem spends_eraseResolving {i p : Nat} {resolution : Value}
    (h : w.resolving[i]? = some (p, resolution)) :
    w.Spends { w with resolving := w.resolving.eraseIdx i } p where
  promises := rfl
  claims := by
    intro q
    have herase := countP_eraseIdx_add (P := fun entry : Nat × Value => entry.1 == q) h
    simp only [beq_iff_eq] at herase
    simp only [World.claims]
    omega

theorem claims_trigger {p : Nat} {promise : PromiseObject} {reactions : List Reaction}
    {result : Option Value} (q : Nat) :
    (w.update p promise (triggerPromiseReactions p reactions result)).1.claims q = w.claims q := by
  have hjobs : ((triggerPromiseReactions p reactions result).map Prod.snd).countP
      (Job.resolves q) = 0 := by
    rw [countP_eq_zero]
    intro job hjob
    simp only [triggerPromiseReactions, List.map_map, List.mem_map, Function.comp] at hjob
    obtain ⟨reaction, -, rfl⟩ := hjob
    exact Bool.false_ne_true
  simp only [claims, update, countP_append, hjobs, Nat.add_zero]

end World

def registration (p : Nat) : PromiseOp → Option (Reaction × Reaction)
  | .performThen q onFulfilled onRejected capability =>
    if q = p then some (makeReactions onFulfilled onRejected capability) else none
  | _ => none

def registrations (p : Nat) (ops : List PromiseOp) : List (Reaction × Reaction) :=
  ops.filterMap (registration p)

def jobsFor (p : Nat) (outs : List (List Enqueued)) : List Job :=
  (outs.flatten.filter fun enqueued => enqueued.1 == p).map Prod.snd

/-- Which of the two reactions an outcome triggers. -/
def PromiseState.select : PromiseState → Reaction × Reaction → Reaction
  | rejected => Prod.snd
  | _ => Prod.fst

/-- A pending promise keeps all reactions and has no jobs. A settled one keeps none, and each of
its reactions has one job with its result. -/
def PromiseObject.Recorded (promise : PromiseObject) (registered : List (Reaction × Reaction))
    (jobs : List Job) : Prop :=
  if promise.state = .pending then
    promise.fulfillReactions = registered.map Prod.fst ∧
      promise.rejectReactions = registered.map Prod.snd ∧ jobs = []
  else
    promise.fulfillReactions = [] ∧ promise.rejectReactions = [] ∧
      promise.promiseResult.isSome = true ∧
      jobs = registered.map fun reactions =>
        .reaction (promise.state.select reactions) promise.promiseResult

/-- What the history and the world say about one promise. -/
structure Accounted (registered : List (Reaction × Reaction)) (jobs : List Job) (claims : Nat)
    (promise : PromiseObject) : Prop where
  recorded : promise.Recorded registered jobs
  claims_le : claims ≤ 1
  settled : promise.state ≠ .pending → claims = 0

/-- The history agrees with the world. Nothing has happened to a promise that is not there, and
the promises that were settled at some earlier time are as they were. -/
structure Consistent (earlier : Nat → PromiseObject → Prop) (past : List PromiseOp)
    (outs : List (List Enqueued)) (w : World) : Prop where
  present : ∀ p promise, w.promises[p]? = some promise →
    Accounted (registrations p past) (jobsFor p outs) (w.claims p) promise
  absent : ∀ p, w.promises[p]? = none →
    registrations p past = [] ∧ jobsFor p outs = [] ∧ w.claims p = 0
  kept : ∀ p promise, earlier p promise → promise.state ≠ .pending ∧ w.promises[p]? = some promise

section History

variable {earlier : Nat → PromiseObject → Prop} {past : List PromiseOp}
  {outs : List (List Enqueued)} {w w' : World} {op : PromiseOp} {p : Nat}

theorem registrations_concat_none (h : registration p op = none) :
    registrations p (past ++ [op]) = registrations p past := by
  simp [registrations, h]

theorem registrations_concat_some {reactions : Reaction × Reaction}
    (h : registration p op = some reactions) :
    registrations p (past ++ [op]) = registrations p past ++ [reactions] := by
  simp [registrations, h]

theorem jobsFor_concat (enqueued : List Enqueued) : jobsFor p (outs ++ [enqueued]) =
      jobsFor p outs ++ (enqueued.filter fun e => e.1 == p).map Prod.snd := by
  simp [jobsFor]

theorem jobsFor_concat_nil : jobsFor p (outs ++ [[]]) = jobsFor p outs := by simp [jobsFor]

theorem Accounted.mono {registered : List (Reaction × Reaction)} {jobs : List Job}
    {claims claims' : Nat} {promise : PromiseObject}
    (h : Accounted registered jobs claims promise) (hle : claims' ≤ claims) :
    Accounted registered jobs claims' promise where
  recorded := h.recorded
  claims_le := Nat.le_trans hle h.claims_le
  settled := fun hstate => Nat.le_zero.mp ((h.settled hstate) ▸ hle)

/-- A step that touches no promise and gives nobody more rights. -/
theorem Consistent.quiet (h : Consistent earlier past outs w) (hpromises : w'.promises = w.promises)
    (hclaims : ∀ q, w'.claims q ≤ w.claims q) (hop : ∀ q, registration q op = none) :
    Consistent earlier (past ++ [op]) (outs ++ [[]]) w' where
  present := by
    intro p promise hget
    rw [hpromises] at hget
    rw [registrations_concat_none (hop p), jobsFor_concat_nil]
    exact (h.present p promise hget).mono (hclaims p)
  absent := by
    intro p hget
    rw [hpromises] at hget
    obtain ⟨hregistered, hjobs, hzero⟩ := h.absent p hget
    rw [registrations_concat_none (hop p), jobsFor_concat_nil]
    exact ⟨hregistered, hjobs, Nat.le_zero.mp (hzero ▸ hclaims p)⟩
  kept := by
    rw [hpromises]
    exact h.kept

theorem filter_trigger_self (reactions : List Reaction) (result : Option Value) :
    ((triggerPromiseReactions p reactions result).filter fun e => e.1 == p).map Prod.snd =
      reactions.map fun reaction => .reaction reaction result := by
  rw [List.filter_eq_self.mpr]
  · simp [triggerPromiseReactions]
  · intro e he
    obtain ⟨reaction, -, rfl⟩ := List.mem_map.mp he
    exact beq_self_eq_true p

theorem filter_trigger_other {q : Nat} (h : p ≠ q) {reactions : List Reaction}
    {result : Option Value} :
    ((triggerPromiseReactions p reactions result).filter fun e => e.1 == q).map Prod.snd = [] := by
  rw [List.filter_eq_nil_iff.mpr]
  · rfl
  · intro e he
    obtain ⟨reaction, -, rfl⟩ := List.mem_map.mp he
    simpa using h

variable {w₁ : World}

theorem Consistent.update (h : Consistent earlier past outs w) {before after : PromiseObject}
    {reactions : List Reaction} {result : Option Value} (hpromises : w₁.promises = w.promises)
    (hclaims : ∀ q, w₁.claims q ≤ w.claims q) (hget : w.promises[p]? = some before)
    (hop : ∀ q, p ≠ q → registration q op = none)
    (hsame : before.state ≠ .pending → after = before)
    (hafter : Accounted (registrations p (past ++ [op]))
      (jobsFor p outs ++ reactions.map fun reaction => .reaction reaction result) (w₁.claims p)
      after) :
    Consistent earlier (past ++ [op]) (outs ++ [triggerPromiseReactions p reactions result])
      (w₁.update p after (triggerPromiseReactions p reactions result)).1 := by
  have hlt : p < w₁.promises.length := by
    rw [hpromises]
    exact (List.getElem?_eq_some_iff.mp hget).1
  constructor
  · intro q other hother
    have hother' : (w₁.promises.set p after)[q]? = some other := hother
    rw [getElem?_set] at hother'
    rw [World.claims_trigger, jobsFor_concat]
    by_cases hq : p = q
    · subst hq
      rw [if_pos rfl, if_pos hlt] at hother'
      cases hother'
      rw [filter_trigger_self]
      exact hafter
    · rw [if_neg hq, hpromises] at hother'
      rw [registrations_concat_none (hop q hq), filter_trigger_other hq, append_nil]
      exact (h.present q other hother').mono (hclaims q)
  · intro q hother
    have hother' : (w₁.promises.set p after)[q]? = none := hother
    have hq : p ≠ q := by
      rintro rfl
      rw [getElem?_set, if_pos rfl, if_pos hlt] at hother'
      cases hother'
    rw [getElem?_set, if_neg hq, hpromises] at hother'
    obtain ⟨hregistered, hnone, hzero⟩ := h.absent q hother'
    rw [registrations_concat_none (hop q hq), World.claims_trigger, jobsFor_concat,
      filter_trigger_other hq, hnone]
    exact ⟨hregistered, rfl, Nat.le_zero.mp (hzero ▸ hclaims q)⟩
  · intro q other hother
    obtain ⟨hsettled, hgot⟩ := h.kept q other hother
    refine ⟨hsettled, ?_⟩
    show (w₁.promises.set p after)[q]? = some other
    by_cases hq : p = q
    · subst hq
      rw [hget] at hgot
      cases hgot
      rw [getElem?_set, if_pos rfl, if_pos hlt, hsame hsettled]
    · rwa [getElem?_set, if_neg hq, hpromises]

variable {enqueued : List Enqueued}

theorem Consistent.settle (h : Consistent earlier past outs w) {state : PromiseState}
    {reactions : PromiseObject → List Reaction} {result : Value}
    (hpromises : w₁.promises = w.promises) (hclaims : ∀ q, w₁.claims q ≤ w.claims q)
    (hpending : ∀ promise, w.promises[p]? = some promise → promise.state = .pending)
    (hunclaimed : w₁.claims p = 0) (hop : ∀ q, registration q op = none)
    (hstate : state ≠ .pending)
    (hreactions : ∀ (promise : PromiseObject) (registered : List (Reaction × Reaction)),
      promise.fulfillReactions = registered.map Prod.fst →
      promise.rejectReactions = registered.map Prod.snd →
      reactions promise = registered.map state.select)
    (hsettle : w₁.settleAs p state reactions result = some (w', enqueued)) :
    Consistent earlier (past ++ [op]) (outs ++ [enqueued]) w' := by
  rw [World.settleAs, bind_eq_bind, bind_eq_some_iff] at hsettle
  obtain ⟨promise, hget, hsome⟩ := hsettle
  have hw : w' = (w₁.update p ⟨state, some result, [], []⟩
      (triggerPromiseReactions p (reactions promise) (some result))).1 :=
    (congrArg Prod.fst (Option.some.inj hsome)).symm
  have henqueued : enqueued = triggerPromiseReactions p (reactions promise) (some result) :=
    (congrArg Prod.snd (Option.some.inj hsome)).symm
  rw [hpromises] at hget
  have hrecorded := (h.present p promise hget).recorded
  rw [PromiseObject.Recorded, if_pos (hpending promise hget)] at hrecorded
  obtain ⟨hfulfill, hreject, hjobs⟩ := hrecorded
  rw [hw, henqueued]
  apply h.update hpromises hclaims hget (fun q _ => hop q)
    (fun hne => absurd (hpending promise hget) hne)
  refine ⟨?_, hunclaimed ▸ Nat.zero_le 1, fun _ => hunclaimed⟩
  rw [PromiseObject.Recorded, if_neg hstate, registrations_concat_none (hop p), hjobs,
    hreactions promise _ hfulfill hreject, nil_append, List.map_map]
  exact ⟨rfl, rfl, rfl, rfl⟩

theorem Consistent.performThen (h : Consistent earlier past outs w)
    {onFulfilled onRejected : Option Nat} {capability : Option Capability}
    (hthen : w.performThen p onFulfilled onRejected capability = some (w', enqueued)) :
    Consistent earlier (past ++ [.performThen p onFulfilled onRejected capability]) (outs ++ [enqueued])
      w' := by
  rw [World.performThen, bind_eq_bind, bind_eq_some_iff] at hthen
  obtain ⟨promise, hget, hsome⟩ := hthen
  obtain ⟨hrecorded, hclaims, hsettled⟩ := h.present p promise hget
  have hself : registrations p (past ++ [.performThen p onFulfilled onRejected capability]) =
      registrations p past ++ [makeReactions onFulfilled onRejected capability] :=
    registrations_concat_some (if_pos rfl)
  have hop : ∀ q, p ≠ q →
      registration q (.performThen p onFulfilled onRejected capability) = none :=
    fun q hq => if_neg hq
  have hupdate : ∀ (after : PromiseObject) (reactions : List Reaction) (result : Option Value),
      some (w.update p after (triggerPromiseReactions p reactions result)) = some (w', enqueued) →
      after.Recorded
        (registrations p past ++ [makeReactions onFulfilled onRejected capability])
        (jobsFor p outs ++ reactions.map fun reaction => .reaction reaction result) →
      after.state = promise.state → (promise.state ≠ .pending → after = promise) →
      Consistent earlier (past ++ [.performThen p onFulfilled onRejected capability])
        (outs ++ [enqueued]) w' := by
    intro after reactions result hpair hafter hstate hsame
    have hw := (congrArg Prod.fst (Option.some.inj hpair)).symm
    have henqueued := (congrArg Prod.snd (Option.some.inj hpair)).symm
    simp only at hw henqueued
    rw [hw, henqueued]
    apply h.update rfl (fun _ => Nat.le_refl _) hget hop hsame
    rw [hself]
    exact ⟨hafter, hclaims, fun hne => hsettled (hstate ▸ hne)⟩
  cases hstate : promise.state with
  | pending =>
    rw [PromiseObject.Recorded, if_pos hstate] at hrecorded
    obtain ⟨hfulfill, hreject, hjobs⟩ := hrecorded
    simp only [hstate] at hsome
    apply hupdate _ [] none hsome _ hstate.symm (fun hne => absurd hstate hne)
    rw [PromiseObject.Recorded, if_pos rfl]
    simp [hfulfill, hreject, hjobs]
  | fulFilled =>
    have hne : promise.state ≠ .pending := by simp [hstate]
    rw [PromiseObject.Recorded, if_neg hne] at hrecorded
    obtain ⟨hfulfill, hreject, hresult, hjobs⟩ := hrecorded
    simp only [hstate] at hsome
    apply hupdate promise [(makeReactions onFulfilled onRejected capability).1]
      promise.promiseResult hsome _ rfl fun _ => rfl
    rw [PromiseObject.Recorded, if_neg hne]
    refine ⟨hfulfill, hreject, hresult, ?_⟩
    rw [hjobs, map_append, hstate]
    rfl
  | rejected =>
    have hne : promise.state ≠ .pending := by simp [hstate]
    rw [PromiseObject.Recorded, if_neg hne] at hrecorded
    obtain ⟨hfulfill, hreject, hresult, hjobs⟩ := hrecorded
    simp only [hstate] at hsome
    apply hupdate promise [(makeReactions onFulfilled onRejected capability).2]
      promise.promiseResult hsome _ rfl fun _ => rfl
    rw [PromiseObject.Recorded, if_neg hne]
    refine ⟨hfulfill, hreject, hresult, ?_⟩
    rw [hjobs, map_append, hstate]
    rfl

variable (promise : PromiseObject) (registered : List (Reaction × Reaction))

theorem fulfillReactions_select (hfulfill : promise.fulfillReactions = registered.map Prod.fst)
    (_ : promise.rejectReactions = registered.map Prod.snd) :
    promise.fulfillReactions = registered.map PromiseState.fulFilled.select := hfulfill

theorem rejectReactions_select (_ : promise.fulfillReactions = registered.map Prod.fst)
    (hreject : promise.rejectReactions = registered.map Prod.snd) :
    promise.rejectReactions = registered.map PromiseState.rejected.select := hreject

theorem Consistent.pending_of_claims (h : Consistent earlier past outs w)
    (hclaims : 0 < w.claims p) :
    ∀ promise, w.promises[p]? = some promise → promise.state = .pending := by
  intro promise hget
  by_contra hne
  have hzero := (h.present p promise hget).settled hne
  omega

theorem Consistent.claims_le_one (h : Consistent earlier past outs w) (p : Nat) :
    w.claims p ≤ 1 := by
  cases hget : w.promises[p]? with
  | none =>
    rw [(h.absent p hget).2.2]
    exact Nat.zero_le 1
  | some promise => exact (h.present p promise hget).claims_le

theorem World.Spends.le (h : w.Spends w₁ p) (q : Nat) : w₁.claims q ≤ w.claims q := by
  have hclaims := h.claims q
  omega

theorem Consistent.spend (h : Consistent earlier past outs w) (hspends : w.Spends w₁ p)
    (hop : ∀ q, registration q op = none) {result : Value}
    (hsettle : w₁.fulfill p result = some (w', enqueued) ∨
      w₁.reject p result = some (w', enqueued)) :
    Consistent earlier (past ++ [op]) (outs ++ [enqueued]) w' := by
  have hclaims := hspends.claims p
  have hle := h.claims_le_one p
  rw [if_pos rfl] at hclaims
  have hpending := h.pending_of_claims (p := p) (by omega)
  rcases hsettle with hsettle | hsettle
  · exact h.settle hspends.promises hspends.le hpending (by omega) hop (by decide)
      fulfillReactions_select hsettle
  · exact h.settle hspends.promises hspends.le hpending (by omega) hop (by decide)
      rejectReactions_select hsettle

section

variable (h : Consistent earlier past outs w) (hpromises : w₁.promises = w.promises)
  (hclaims : ∀ q, w₁.claims q = w.claims q) (hop : ∀ q, registration q op = none)
include h hpromises hclaims hop

theorem Consistent.promiseResolveFunction {index : Nat} {resolution : Value}
    (hcall : w₁.promiseResolveFunction index resolution = some (w', enqueued)) :
    Consistent earlier (past ++ [op]) (outs ++ [enqueued]) w' := by
  rw [World.promiseResolveFunction, bind_eq_bind, bind_eq_some_iff] at hcall
  obtain ⟨pair, hget, hcall⟩ := hcall
  cases hresolved : pair.alreadyResolved with
  | true =>
    rw [hresolved, if_pos rfl] at hcall
    cases hcall
    exact h.quiet hpromises (fun q => Nat.le_of_eq (hclaims q)) hop
  | false =>
    rw [hresolved, if_neg Bool.false_ne_true] at hcall
    have hspends := World.spends_setAlreadyResolved hget hresolved
    have hspends' : w.Spends (w₁.setAlreadyResolved index pair) pair.promise :=
      ⟨hspends.promises.trans hpromises, fun q => (hspends.claims q).trans (hclaims q)⟩
    split_ifs at hcall with hself hprimitive
    · exact h.spend hspends' hop (.inr hcall)
    · exact h.spend hspends' hop (.inl hcall)
    · cases hcall
      refine h.quiet hspends'.promises (fun q => ?_) hop
      rw [← hspends'.claims q]
      apply Nat.le_of_eq
      simp only [World.claims, countP_append, countP_singleton, beq_iff_eq]
      omega

theorem Consistent.promiseRejectFunction {index : Nat} {reason : Value}
    (hcall : w₁.promiseRejectFunction index reason = some (w', enqueued)) :
    Consistent earlier (past ++ [op]) (outs ++ [enqueued]) w' := by
  rw [World.promiseRejectFunction, bind_eq_bind, bind_eq_some_iff] at hcall
  obtain ⟨pair, hget, hcall⟩ := hcall
  cases hresolved : pair.alreadyResolved with
  | true =>
    rw [hresolved, if_pos rfl] at hcall
    cases hcall
    exact h.quiet hpromises (fun q => Nat.le_of_eq (hclaims q)) hop
  | false =>
    rw [hresolved, if_neg Bool.false_ne_true] at hcall
    have hspends := World.spends_setAlreadyResolved hget hresolved
    exact h.spend ⟨hspends.promises.trans hpromises,
      fun q => (hspends.claims q).trans (hclaims q)⟩ hop (.inr hcall)

theorem Consistent.callResolve {capability : Capability} {value : Value}
    (hcall : w₁.callResolve capability value = some (w', enqueued)) :
    Consistent earlier (past ++ [op]) (outs ++ [enqueued]) w' := by
  cases capability with
  | pair index => exact h.promiseResolveFunction hpromises hclaims hop hcall
  | foreign id =>
    cases hcall
    exact h.quiet hpromises (fun q => Nat.le_of_eq (hclaims q)) hop

theorem Consistent.callReject {capability : Capability} {reason : Value}
    (hcall : w₁.callReject capability reason = some (w', enqueued)) :
    Consistent earlier (past ++ [op]) (outs ++ [enqueued]) w' := by
  cases capability with
  | pair index => exact h.promiseRejectFunction hpromises hclaims hop hcall
  | foreign id =>
    cases hcall
    exact h.quiet hpromises (fun q => Nat.le_of_eq (hclaims q)) hop

end

theorem Consistent.finishResolve (h : Consistent earlier past outs w) {i : Nat}
    {lookup : ThenLookup} (hcall : w.finishResolve i lookup = some (w', enqueued)) :
    Consistent earlier (past ++ [.finishResolve i lookup]) (outs ++ [enqueued]) w' := by
  rw [World.finishResolve, bind_eq_bind, bind_eq_some_iff] at hcall
  obtain ⟨⟨p, resolution⟩, hget, hcall⟩ := hcall
  have hspends := World.spends_eraseResolving hget
  have hop : ∀ q, registration q (.finishResolve i lookup) = none := fun _ => rfl
  cases lookup with
  | threw reason => exact h.spend hspends hop (.inr hcall)
  | callable thenAction =>
    cases hcall
    refine h.quiet hspends.promises (fun q => ?_) hop
    rw [← hspends.claims q]
    apply Nat.le_of_eq
    simp only [World.claims, countP_append, countP_singleton, Job.resolves, beq_iff_eq]
    omega
  | notCallable => exact h.spend hspends hop (.inl hcall)

theorem claims_createResolvingFunctions (q : Nat) :
    (w.createResolvingFunctions p).claims q = w.claims q + if p = q then 1 else 0 := by
  simp only [World.claims, World.createResolvingFunctions, countP_append,
    countP_singleton, Bool.not_false, Bool.and_true, beq_iff_eq]
  omega

section

variable (h : Consistent earlier past outs w)
include h

theorem Consistent.runJob (hcall : w.runJob = some (w', enqueued)) :
    Consistent earlier (past ++ [.runJob]) (outs ++ [enqueued]) w' := by
  have hop : ∀ q, registration q .runJob = none := fun _ => rfl
  rw [World.runJob] at hcall
  cases hjobs : w.jobs with
  | nil =>
    rw [hjobs] at hcall
    cases hcall
  | cons job jobs =>
    rw [hjobs] at hcall
    cases job with
    | reaction reaction argument =>
      have hclaims : ∀ q, ({ w with jobs } : World).claims q = w.claims q := by
        intro q
        simp [World.claims, hjobs, Job.resolves]
      dsimp only at hcall
      split at hcall
      · rw [bind_eq_bind, bind_eq_some_iff] at hcall
        obtain ⟨capability, -, hcall⟩ := hcall
        rw [bind_eq_bind, bind_eq_some_iff] at hcall
        obtain ⟨value, -, hcall⟩ := hcall
        refine h.callResolve ?_ ?_ hop hcall
        · rfl
        · exact hclaims
      · rw [bind_eq_bind, bind_eq_some_iff] at hcall
        obtain ⟨capability, -, hcall⟩ := hcall
        rw [bind_eq_bind, bind_eq_some_iff] at hcall
        obtain ⟨value, -, hcall⟩ := hcall
        refine h.callReject ?_ ?_ hop hcall
        · rfl
        · exact hclaims
      · cases hcall
        exact h.quiet rfl (fun q => Nat.le_of_eq (hclaims q)) hop
    | resolveThenable p thenable thenAction =>
      cases hcall
      refine h.quiet rfl (fun q => Nat.le_of_eq ?_) hop
      rw [claims_createResolvingFunctions]
      simp only [World.claims, hjobs, countP_cons, Job.resolves, beq_iff_eq]
      omega

theorem Consistent.finishReaction {i : Nat} {completion : Completion}
    (hcall : w.finishReaction i completion = some (w', enqueued)) :
    Consistent earlier (past ++ [.finishReaction i completion]) (outs ++ [enqueued]) w' := by
  have hop : ∀ q, registration q (.finishReaction i completion) = none := fun _ => rfl
  rw [World.finishReaction, bind_eq_bind, bind_eq_some_iff] at hcall
  obtain ⟨reaction, -, hcall⟩ := hcall
  split at hcall
  · cases hcall
    exact h.quiet rfl (fun _ => Nat.le_refl _) hop
  · refine h.callResolve ?_ ?_ hop hcall
    · rfl
    · exact fun _ => rfl
  · refine h.callReject ?_ ?_ hop hcall
    · rfl
    · exact fun _ => rfl

theorem Consistent.newPromise (hop : ∀ q, registration q op = none) :
    Consistent earlier (past ++ [op]) (outs ++ [[]]) w.newPromise := by
  have hclaims : ∀ q, w.newPromise.claims q = w.claims q := fun _ => rfl
  constructor
  · intro p promise hget
    rw [registrations_concat_none (hop p), jobsFor_concat_nil, hclaims]
    rcases Nat.lt_trichotomy p w.promises.length with hlt | rfl | hgt
    · have hget' : (w.promises ++ [_])[p]? = some promise := hget
      rw [getElem?_append_left hlt] at hget'
      exact h.present p promise hget'
    · have hget' : (w.promises ++ [_])[w.promises.length]? = some promise := hget
      rw [getElem?_concat_length] at hget'
      cases hget'
      obtain ⟨hregistered, hjobs, hzero⟩ :=
        h.absent w.promises.length (getElem?_eq_none (Nat.le_refl _))
      rw [hregistered, hjobs, hzero]
      exact ⟨⟨rfl, rfl, rfl⟩, Nat.zero_le 1, fun _ => rfl⟩
    · have hlt := (List.getElem?_eq_some_iff.mp hget).1
      simp only [World.newPromise, length_append, length_singleton] at hlt
      omega
  · intro p hget
    have hle : w.promises.length ≤ p := by
      have hlength := List.getElem?_eq_none_iff.mp hget
      simp only [World.newPromise, length_append, length_singleton] at hlength
      omega
    rw [registrations_concat_none (hop p), jobsFor_concat_nil, hclaims]
    exact h.absent p (getElem?_eq_none hle)
  · intro p promise hearlier
    obtain ⟨hsettled, hget⟩ := h.kept p promise hearlier
    refine ⟨hsettled, ?_⟩
    show (w.promises ++ [_])[p]? = some promise
    rw [getElem?_append_left (List.getElem?_eq_some_iff.mp hget).1, hget]

theorem Consistent.createResolvingFunctions (hunclaimed : w.Unclaimed p) :
    Consistent earlier past outs (w.createResolvingFunctions p) where
  present := by
    intro q promise hget
    have haccounted := h.present q promise hget
    rw [claims_createResolvingFunctions]
    by_cases hq : p = q
    · subst hq
      obtain ⟨hpending, hzero⟩ := hunclaimed
      rw [if_pos rfl, hzero]
      refine ⟨haccounted.recorded, Nat.le_refl 1, fun hne => absurd ?_ hne⟩
      have hget' : w.promises[p]? = some promise := hget
      rw [hget'] at hpending
      exact Option.some.inj hpending
    · rw [if_neg hq, Nat.add_zero]
      exact haccounted
  absent := by
    intro q hget
    have habsent := h.absent q hget
    have hq : p ≠ q := by
      rintro rfl
      have hget' : w.promises[p]? = none := hget
      rw [World.Unclaimed, hget'] at hunclaimed
      cases hunclaimed.1
    rw [claims_createResolvingFunctions, if_neg hq, Nat.add_zero]
    exact habsent
  kept := h.kept

theorem Consistent.direct (hunclaimed : w.Unclaimed p) (hop : ∀ q, registration q op = none)
    {result : Value}
    (hsettle : w.fulfill p result = some (w', enqueued) ∨ w.reject p result = some (w', enqueued)) :
    Consistent earlier (past ++ [op]) (outs ++ [enqueued]) w' := by
  have hpending : ∀ promise, w.promises[p]? = some promise → promise.state = .pending := by
    intro promise hget
    have hstate := hunclaimed.1
    rw [hget] at hstate
    exact Option.some.inj hstate
  rcases hsettle with hsettle | hsettle
  · exact h.settle rfl (fun _ => Nat.le_refl _) hpending hunclaimed.2 hop (by decide)
      fulfillReactions_select hsettle
  · exact h.settle rfl (fun _ => Nat.le_refl _) hpending hunclaimed.2 hop (by decide)
      rejectReactions_select hsettle

theorem Consistent.step (hallowed : w.Allowed op) (hstep : w.step op = some (w', enqueued)) :
    Consistent earlier (past ++ [op]) (outs ++ [enqueued]) w' := by
  cases op with
  | newPromise =>
    cases hstep
    have hop : ∀ q, registration q .newPromise = none := fun _ => rfl
    apply (h.newPromise hop).createResolvingFunctions
    have habsent := h.absent w.promises.length (getElem?_eq_none (Nat.le_refl _))
    refine ⟨?_, habsent.2.2⟩
    show ((w.promises ++ [_])[w.promises.length]?).map _ = _
    rw [getElem?_concat_length]
    rfl
  | newHostPromise =>
    cases hstep
    exact h.newPromise fun _ => rfl
  | createResolvingFunctions p =>
    rw [World.step] at hstep
    split at hstep
    · cases hstep
      have hop : ∀ q, registration q (.createResolvingFunctions p) = none := fun _ => rfl
      exact (h.quiet rfl (fun _ => Nat.le_refl _) hop).createResolvingFunctions hallowed
    · cases hstep
  | resolveFunction index resolution =>
    exact h.promiseResolveFunction rfl (fun _ => rfl) (fun _ => rfl) hstep
  | rejectFunction index reason =>
    exact h.promiseRejectFunction rfl (fun _ => rfl) (fun _ => rfl) hstep
  | finishResolve i lookup => exact h.finishResolve hstep
  | fulfill p value => exact h.direct hallowed (fun _ => rfl) (.inl hstep)
  | reject p reason => exact h.direct hallowed (fun _ => rfl) (.inr hstep)
  | performThen p onFulfilled onRejected capability => exact h.performThen hstep
  | runJob => exact h.runJob hstep
  | finishReaction i completion => exact h.finishReaction hstep

end

theorem Consistent.empty : Consistent (fun _ _ => False) [] [] World.empty where
  present := fun _ _ hget => by cases hget
  absent := fun _ _ => ⟨rfl, rfl, rfl⟩
  kept := fun _ _ h => h.elim

end History

/-- What a run should leave behind: a promise that is settled once stays as it is, result
included; as long as it is pending, its lists keep all registered reactions and none has a job;
once it is settled its lists are empty, and the jobs enqueued for it are one for each registered
reaction, in the order of registration, with its result. -/
structure SettlesOnce (ops : List PromiseOp) (last : World) (outs : List (List Enqueued)) :
    Prop where
  recorded : ∀ (p : Nat) (promise : PromiseObject), last.promises[p]? = some promise →
    promise.Recorded (registrations p ops) (jobsFor p outs)
  kept : ∀ (before after : List PromiseOp) (middle : World) (answers : List (List Enqueued)),
    ops = before ++ after → run World.step before .empty = some (middle, answers) →
    ∀ (p : Nat) (promise : PromiseObject), middle.promises[p]? = some promise →
      promise.state ≠ .pending → last.promises[p]? = some promise

/-- In every run whose direct calls and further resolving functions are for promises that nothing
else settles, promises settle once. -/
theorem promise_settles_once {ops : List PromiseOp} {last : World} {outs : List (List Enqueued)}
    (hallowed : Guarded World.step World.Allowed ops .empty)
    (hrun : run World.step ops .empty = some (last, outs)) : SettlesOnce ops last outs := by
  constructor
  · intro p promise hget
    have hlast : Consistent (fun _ _ => False) ([] ++ ops) ([] ++ outs) last :=
      Guarded.run_history (fun h hop hstep => h.step hop hstep) ops hallowed Consistent.empty hrun
    exact (hlast.present p promise hget).recorded
  · rintro before after middle answers rfl hbefore p promise hget hsettled
    have hmiddle : Consistent (fun _ _ => False) ([] ++ before) ([] ++ answers) middle :=
      Guarded.run_history (fun h hop hstep => h.step hop hstep) before hallowed.append_left
        Consistent.empty hbefore
    rw [run_append hbefore, map_eq_some_iff] at hrun
    obtain ⟨⟨final, rest⟩, hafter, hpair⟩ := hrun
    cases hpair
    have hkept : Consistent
        (fun q other => middle.promises[q]? = some other ∧ other.state ≠ .pending)
        ([] ++ before) ([] ++ answers) middle :=
      ⟨hmiddle.present, hmiddle.absent, fun _ _ h => ⟨h.2, h.1⟩⟩
    have hlast := Guarded.run_history (fun h hop hstep => h.step hop hstep) after
      (hallowed.append_right hbefore) hkept hafter
    exact (hlast.kept p promise ⟨hget, hsettled⟩).2

/-- A promise whose `then` was called three times, once before a thenable job, once while the
`then` method of the thenable runs, and once after the promise was rejected through the functions
of the job. -/
def thenableOps : List PromiseOp :=
  [.newPromise, .performThen 0 (some 7) none none, .resolveFunction 0 (.object 5),
    .rejectFunction 0 (.primitive 9), .finishResolve 0 (.callable 3), .runJob,
    .performThen 0 none (some 8) none, .rejectFunction 1 (.primitive 4),
    .resolveFunction 1 (.primitive 6), .performThen 0 none (some 2) none]

theorem thenable_settles_once : Guarded World.step World.Allowed thenableOps .empty ∧
      ∃ last outs, run World.step thenableOps .empty = some (last, outs) ∧
        SettlesOnce thenableOps last outs := by
  have hallowed : Guarded World.step World.Allowed thenableOps .empty := by decide
  have hreturns : (run World.step thenableOps .empty).isSome = true := by decide
  obtain ⟨⟨last, outs⟩, hrun⟩ := Option.isSome_iff_exists.mp hreturns
  exact ⟨hallowed, last, outs, hrun, promise_settles_once hallowed hrun⟩

/-- Direct calls do not look at the state: a fulfilled promise can be rejected. -/
theorem fulfilled_promise_rejected :
    ¬ ∀ ops last outs, run World.step ops .empty = some (last, outs) →
      SettlesOnce ops last outs := by
  intro h
  have hkept := (h [.newHostPromise, .fulfill 0 (.primitive 1), .reject 0 (.primitive 2)] _ _
    rfl).kept [.newHostPromise, .fulfill 0 (.primitive 1)] [.reject 0 (.primitive 2)] _ _ rfl rfl
    0 ⟨.fulFilled, some (.primitive 1), [], []⟩ rfl (by decide)
  exact absurd hkept (by decide)

/-- The same through two pairs of resolving functions, where both flags are clear. -/
example :
    (run World.step [.newPromise, .createResolvingFunctions 0, .resolveFunction 0 (.primitive 1),
      .rejectFunction 1 (.primitive 2)] .empty).map
        (fun result => result.1.promises.map (·.state)) = some [.rejected] := by decide

end Escargot.Runtime.Promises
