/-
# Disposable stacks

`DisposableStack` and `AsyncDisposableStack`. User code runs in the getters
that `use` reads the dispose method with, in the dispose methods, and in
`PromiseResolve`, and it can call every operation of every stack. So the calls
that have not returned are kept on a stack of their own, and what the engine
does after one returns is a step. The records of the resources are kept apart
from the stacks, for `move` passes them on.
-/

import Escargot.Foundation.Run

namespace Escargot.Runtime.Disposable

open List Option
open Function (update_of_ne update_self)

open Escargot.Foundation

universe u

/-- What the operations ask of a value. -/
inductive Value (V : Type u)
  | undefined
  | null
  | primitive (data : V)
  | object (pointer : V) (callable : Bool)

variable {V : Type u}

def Value.isUndefinedOrNull : Value V → Bool
  | undefined | null => true
  | _ => false

def Value.isObject : Value V → Bool
  | object _ _ => true
  | _ => false

def Value.isCallable : Value V → Bool
  | object _ callable => callable
  | _ => false

/-- What a dispose method can throw. -/
inductive Thrown (V : Type u)
  | value (thrown : Value V)
  | suppressedError (error suppressed : Thrown V)

/-- `m_disposbleMethod`: the method itself, or one of the closures of the engine around it. -/
inductive DisposeMethod (V : Type u)
  | undefined
  | function (method : Value V)
  | disposableWrapper (method : Value V)
  | adoptWrapper (onDispose value : Value V)

/-- `DisposableResourceRecord::Record`, with a number in the order of registration. -/
structure Resource (V : Type u) where
  number : Nat
  resourceValue : Value V
  method : DisposeMethod V
  isAsync : Bool

/-- `DisposableResourceRecord`. The last resource comes first, and `result` is `m_result` where
`m_resultIsError` is set. -/
structure ResourceRecord (V : Type u) where
  needsAwait : Bool := false
  hasAwaited : Bool := false
  awaitResumeStage : Nat := 0
  records : List (Resource V) := []
  result : Option (Thrown V) := none

/-- What the engine does next: it calls the method of a resource, it awaits a value, or it has
the completion. -/
inductive Next (V : Type u)
  | calls (resource : Resource V)
  | awaits (isObject : Bool)
  | completes (completion : Option (Thrown V))

def addError (completion : Option (Thrown V)) (error : Thrown V) : Option (Thrown V) :=
  match completion with
  | some suppressed => some (.suppressedError error suppressed)
  | none => some error

/-- The loop of `DisposableStackObject::dispose`, up to the next call. -/
def disposeRecords (resultError : Option (Thrown V)) (record : ResourceRecord V) :
    List (Resource V) → ResourceRecord V × Next V
  | [] => ({ record with records := [] }, .completes resultError)
  | resource :: records =>
    match resource.method with
    | .undefined => disposeRecords resultError record records
    | _ => ({ record with records }, .calls resource)

/-- The loop of `asyncDisposeResources`, up to the next call or await. -/
def asyncDisposeRecords (record : ResourceRecord V) : List (Resource V) → ResourceRecord V × Next V
  | [] =>
    if record.needsAwait ∧ ¬ record.hasAwaited then
      ({ record with records := [], needsAwait := false, awaitResumeStage := 3 }, .awaits false)
    else ({ record with records := [] }, .completes record.result)
  | resource :: records =>
    if ¬ resource.isAsync ∧ record.needsAwait then
      ({ record with records := resource :: records, awaitResumeStage := 1 }, .awaits false)
    else
      match resource.method with
      | .undefined =>
        asyncDisposeRecords
          { record with needsAwait := resource.isAsync || record.needsAwait } records
      | _ => ({ record with records }, .calls resource)

/-- A dispose method has thrown, or what it returned was rejected. -/
def ResourceRecord.throws (record : ResourceRecord V) (error : Thrown V) : ResourceRecord V :=
  { record with result := addError record.result error }

def methodReturned (record : ResourceRecord V) (resource : Resource V) (isObject : Bool) :
    ResourceRecord V × Next V :=
  if resource.isAsync then
    ({ record with records := resource :: record.records, awaitResumeStage := 2 }, .awaits isObject)
  else asyncDisposeRecords record record.records

/-- `asyncDisposeResources`, entered from an await. The stage is looked at after a resource is
taken, so with none left it is not looked at. -/
def asyncDisposeResources (record : ResourceRecord V) (rejection : Option (Thrown V)) :
    ResourceRecord V × Next V :=
  match record.records with
  | [] => asyncDisposeRecords record []
  | resource :: records =>
    match record.awaitResumeStage with
    | 1 =>
      asyncDisposeRecords { record with needsAwait := false, awaitResumeStage := 0 }
        (resource :: records)
    | 2 =>
      let resumed := { record with hasAwaited := true, awaitResumeStage := 0 }
      asyncDisposeRecords
        (match rejection with
        | some error => resumed.throws error
        | none => resumed) records
    | 3 => ({ record with records, awaitResumeStage := 0 }, .completes record.result)
    | _ => asyncDisposeRecords record (resource :: records)

/-- `DisposableStackObject` and `AsyncDisposableStackObject`, the record by its number. -/
structure DisposableStackObject where
  isAsync : Bool
  isDisposed : Bool
  record : Nat

/-- What is seen of a record from outside: the resources that were registered with the last
first, whose methods were called, what they threw, and the completions. -/
structure History (V : Type u) where
  begun : Bool := false
  registered : List (Resource V) := []
  called : List Nat := []
  errors : List (Thrown V) := []
  outcomes : List (Option (Thrown V)) := []

inductive DisposeSymbol
  | dispose
  | asyncDispose
  deriving DecidableEq

/-- A call of the engine that has not returned. The getter keeps the record that its stack had
when `use` was called. -/
inductive Call (V : Type u)
  | getter (stack record : Nat) (value : Value V) (symbol : DisposeSymbol)
  | method (record : Nat) (resource : Resource V) (resultError : Option (Thrown V))
  | asyncMethod (record : Nat) (resource : Resource V)
  | promiseResolve (record : Nat)

def Call.disposes : Call V → Option Nat
  | .getter _ _ _ _ => none
  | .method record _ _ | .asyncMethod record _ | .promiseResolve record => some record

/-- All stacks with their records, the calls with the innermost first, and the records whose
promise reaction has not run. A new stack comes with a new record of the same number. -/
structure Config (V : Type u) where
  count : Nat
  resources : Nat
  objects : Nat → DisposableStackObject
  records : Nat → ResourceRecord V
  history : Nat → History V
  calls : List (Call V)
  reactions : List Nat

inductive BuiltinError
  | typeError (message : String)
  | referenceError (message : String)

/-- What the caller of an operation gets: `pending` where it has not returned yet, and
`resultPromise` for the promise that the disposal of a record settles. -/
inductive Answer (V : Type u)
  | pending
  | value (value : Value V)
  | stack (stack : Nat)
  | resolvedPromise
  | resultPromise (record : Nat)
  | error (error : BuiltinError)
  | thrown (error : Thrown V)

/-- A new stack, of a record that is there already or of its own. -/
def addStack (config : Config V) (isAsync : Bool) (record : Nat) : Config V :=
  { config with
    count := config.count + 1
    objects := Function.update config.objects config.count ⟨isAsync, false, record⟩
    records := Function.update config.records config.count {}
    history := Function.update config.history config.count {} }

/-- `m_records.pushBack(createDisposableResource(…))`, after the checks. -/
def pushBack (config : Config V) (record : Nat) (resourceValue : Value V)
    (method : DisposeMethod V) (isAsync : Bool) : Config V :=
  let resource : Resource V := ⟨config.resources, resourceValue, method, isAsync⟩
  { config with
    resources := config.resources + 1
    records := Function.update config.records record
      { config.records record with records := resource :: (config.records record).records }
    history := Function.update config.history record
      { config.history record with
        registered := resource :: (config.history record).registered } }

def perform (config : Config V) (record : Nat) (call : Resource V → Call V)
    (result : ResourceRecord V × Next V) : Config V :=
  let next := { config with records := Function.update config.records record result.1 }
  match result.2 with
  | .calls resource =>
    { next with
      calls := call resource :: config.calls
      history := Function.update config.history record
        { config.history record with
          called := (config.history record).called ++ [resource.number] } }
  | .awaits true => { next with calls := .promiseResolve record :: config.calls }
  | .awaits false => { next with reactions := record :: config.reactions }
  | .completes completion =>
    { next with
      history := Function.update config.history record
        { config.history record with
          outcomes := (config.history record).outcomes ++ [completion] } }

/-- What `dispose` gives when it comes back. The asynchronous form gives its promise. -/
def disposeAnswer : Next V → Answer V
  | .completes (some error) => .thrown error
  | .completes none => .value .undefined
  | _ => .pending

def disposedMessage (isAsync : Bool) : String :=
  if isAsync then "AsyncDisposableStack is already disposed"
  else "DisposableStack is already disposed"

/-- `use`, up to the call of a getter. -/
def use (config : Config V) (stack : Nat) (value : Value V) : Config V × Answer V :=
  let object := config.objects stack
  if object.isDisposed then (config, .error (.referenceError (disposedMessage object.isAsync)))
  else if value.isUndefinedOrNull then
    (pushBack config object.record .undefined .undefined object.isAsync, .value value)
  else if ¬ value.isObject then
    (config, .error (.typeError "disposable value should be Object, undefined or null"))
  else
    let symbol := if object.isAsync then .asyncDispose else .dispose
    ({ config with calls := .getter stack object.record value symbol :: config.calls }, .pending)

variable (recordFirst : Bool)

/-- The record that `use` pushes to after its getters: the one of its stack, read before the
getters or after them as the compiler orders it. -/
def useTarget (config : Config V) (stack record : Nat) : Nat :=
  if recordFirst then record else (config.objects stack).record

/-- `getDisposableMethod` after a getter, and the rest of `use`. -/
def getterReturned (config : Config V) (stack record : Nat) (value : Value V)
    (symbol : DisposeSymbol) (method : Value V) : Config V × Answer V :=
  if method.isUndefinedOrNull then
    if symbol = .asyncDispose then
      ({ config with calls := .getter stack record value .dispose :: config.calls }, .pending)
    else (config, .error (.typeError "disposable method should be callable"))
  else if ¬ method.isCallable then
    (config, .error (.typeError "%s: return value of getMethod is not callable"))
  else
    let isAsync := (config.objects stack).isAsync
    (pushBack config (useTarget recordFirst config stack record) value
      (if isAsync ∧ symbol = .dispose then .disposableWrapper method else .function method)
      isAsync, .value value)

/-- `adopt` and `defer`, which have the same checks. -/
def register (config : Config V) (stack : Nat) (onDispose : Value V) (method : DisposeMethod V)
    (answer : Value V) : Config V × Answer V :=
  let object := config.objects stack
  if object.isDisposed then (config, .error (.referenceError (disposedMessage object.isAsync)))
  else if ¬ onDispose.isCallable then
    (config, .error (.typeError "%s: first argument is not callable"))
  else (pushBack config object.record .undefined method object.isAsync, .value answer)

def adopt (config : Config V) (stack : Nat) (value onDispose : Value V) : Config V × Answer V :=
  register config stack onDispose (.adoptWrapper onDispose value) value

def defer (config : Config V) (stack : Nat) (onDispose : Value V) : Config V × Answer V :=
  register config stack onDispose (.function onDispose) .undefined

/-- `move`: the new stack takes the record, and the old one is left with the new record. -/
def move (config : Config V) (stack : Nat) : Config V × Answer V :=
  let object := config.objects stack
  if object.isDisposed then (config, .error (.referenceError (disposedMessage object.isAsync)))
  else
    let moved := addStack config object.isAsync object.record
    ({ moved with
        objects := Function.update moved.objects stack
          { object with isDisposed := true, record := config.count } },
      .stack config.count)

/-- `dispose` and `asyncDispose`. -/
def dispose (config : Config V) (stack : Nat) : Config V × Answer V :=
  let object := config.objects stack
  if object.isDisposed then
    (config, if object.isAsync then .resolvedPromise else .value .undefined)
  else
    let record := config.records object.record
    let begun := { config with
      objects := Function.update config.objects stack { object with isDisposed := true }
      history := Function.update config.history object.record
        { config.history object.record with begun := true } }
    if object.isAsync then
      (perform begun object.record (.asyncMethod object.record)
        (asyncDisposeRecords record record.records), .resultPromise object.record)
    else
      let result := disposeRecords none record record.records
      (perform begun object.record (.method object.record · none) result, disposeAnswer result.2)

/-- An error of a dispose method, as it is seen from outside. -/
def observe (config : Config V) (record : Nat) (errors : List (Thrown V)) : Config V :=
  { config with
    history := Function.update config.history record
      { config.history record with errors := (config.history record).errors ++ errors } }

inductive Op (V : Type u)
  | construct (isAsync : Bool)
  | use (stack : Nat) (value : Value V)
  | getterReturns (method : Value V)
  | getterThrows (error : Thrown V)
  | adopt (stack : Nat) (value onDispose : Value V)
  | defer (stack : Nat) (onDispose : Value V)
  | move (stack : Nat)
  | dispose (stack : Nat)
  | methodReturns (value : Value V)
  | methodThrows (error : Thrown V)
  | promiseResolveReturns
  | promiseResolveThrows (error : Thrown V)
  | awaitSettles (record : Nat) (rejection : Option (Thrown V))

def onStack (config : Config V) (stack : Nat) (result : Config V × Answer V) :
    Option (Config V × Answer V) :=
  if stack < config.count then some result else none

/-- The dispose method that runs has returned. The wrapper gives a promise of its own, and a
method that the synchronous form calls is not awaited. -/
def methodReturns (config : Config V) (value : Value V) : Option (Config V × Answer V) :=
  match config.calls with
  | .method record _ resultError :: calls =>
    let object := config.records record
    let result := disposeRecords resultError object object.records
    some (perform { config with calls } record (.method record · resultError) result,
      disposeAnswer result.2)
  | .asyncMethod record resource :: calls =>
    let isObject :=
      match resource.method with
      | .disposableWrapper _ => true
      | _ => value.isObject
    some (perform { config with calls } record (.asyncMethod record)
      (methodReturned (config.records record) resource isObject), .pending)
  | _ => none

/-- The dispose method that runs has thrown. The wrapper returns a rejected promise then. -/
def methodThrows (config : Config V) (error : Thrown V) : Option (Config V × Answer V) :=
  match config.calls with
  | .method record _ resultError :: calls =>
    let object := config.records record
    let completion := addError resultError error
    let result := disposeRecords completion object object.records
    some (perform (observe { config with calls } record [error]) record
      (.method record · completion) result, disposeAnswer result.2)
  | .asyncMethod record resource :: calls =>
    match resource.method with
    | .disposableWrapper _ =>
      some (perform { config with calls } record (.asyncMethod record)
        (methodReturned (config.records record) resource true), .pending)
    | _ =>
      let object := (config.records record).throws error
      some (perform (observe { config with calls } record [error]) record
        (.asyncMethod record) (asyncDisposeRecords object object.records), .pending)
  | _ => none

/-- A reaction is a job, and no job runs while a call has not returned. Only the await of a
method's value can be rejected, the others await `undefined`. -/
def awaitSettles (config : Config V) (record : Nat) (rejection : Option (Thrown V)) :
    Option (Config V × Answer V) :=
  let object := config.records record
  if config.calls = [] ∧ record ∈ config.reactions ∧
      (object.awaitResumeStage ≠ 2 → rejection = none) then
    some (perform
      (observe { config with reactions := config.reactions.erase record } record rejection.toList)
      record (.asyncMethod record) (asyncDisposeResources object rejection), .pending)
  else none

def step (config : Config V) : Op V → Option (Config V × Answer V)
  | .construct isAsync => some (addStack config isAsync config.count, .stack config.count)
  | .use stack value => onStack config stack (use config stack value)
  | .getterReturns method =>
    match config.calls with
    | .getter stack record value symbol :: calls =>
      some (getterReturned recordFirst { config with calls } stack record value symbol method)
    | _ => none
  | .getterThrows error =>
    match config.calls with
    | .getter _ _ _ _ :: calls => some ({ config with calls }, .thrown error)
    | _ => none
  | .adopt stack value onDispose => onStack config stack (adopt config stack value onDispose)
  | .defer stack onDispose => onStack config stack (defer config stack onDispose)
  | .move stack => onStack config stack (move config stack)
  | .dispose stack => onStack config stack (dispose config stack)
  | .methodReturns value => methodReturns config value
  | .methodThrows error => methodThrows config error
  | .promiseResolveReturns =>
    match config.calls with
    | .promiseResolve record :: calls =>
      some ({ config with calls, reactions := record :: config.reactions }, .pending)
    | _ => none
  | .promiseResolveThrows error =>
    match config.calls with
    | .promiseResolve _ :: calls => some ({ config with calls }, .thrown error)
    | _ => none
  | .awaitSettles record rejection => awaitSettles config record rejection

/-- Before there is a stack. -/
def start : Config V := ⟨0, 0, fun _ => ⟨false, true, 0⟩, fun _ => {}, fun _ => {}, [], []⟩

def DisposeMethod.isUndefined : DisposeMethod V → Bool
  | undefined => true
  | _ => false

def methodsOf (resources : List (Resource V)) : List Nat :=
  (resources.filter fun resource => ! resource.method.isUndefined).map Resource.number

def suppressedChain : List (Thrown V) → Option (Thrown V)
  | [] => none
  | [error] => some error
  | error :: earlier => (suppressedChain earlier).map (.suppressedError error)

variable (errors : List (Thrown V)) (error : Thrown V)

/-- The completion of a disposal whose methods have thrown these errors. -/
def completionOf : Option (Thrown V) := suppressedChain errors.reverse

/-- How many calls or reactions there are that go on with the disposal of a record. -/
def activities (config : Config V) (record : Nat) : Nat :=
  config.calls.countP (fun call => call.disposes == some record) + config.reactions.count record

/-- Of every record, the methods are called in reverse order of registration, each once, and a
disposal that has begun goes on in one place until it has given the one completion, after the
last method. What is registered and not disposed of belongs to a stack that can be disposed of. -/
structure IsSound (recordFirst : Bool) (config : Config V) : Prop where
  registeredInOrder : ∀ record,
    ((config.history record).registered.map Resource.number).Pairwise (· > ·)
  registeredOnce : ∀ record record' resource resource',
    resource ∈ (config.history record).registered →
    resource' ∈ (config.history record').registered →
    resource.number = resource'.number → record = record'
  calledInReverse : ∀ record,
    (config.history record).called <+: methodsOf (config.history record).registered
  settledOnce : ∀ record, (config.history record).outcomes = [] ∨
    (config.history record).outcomes = [completionOf (config.history record).errors] ∧
      (config.history record).called = methodsOf (config.history record).registered
  goesOn : ∀ record, activities config record =
    if (config.history record).begun ∧ (config.history record).outcomes = [] then 1 else 0
  begins : ∀ record, (config.history record).begun = false →
    (config.history record).called = [] ∧ (config.history record).outcomes = [] ∧
      ((config.history record).registered ≠ [] → ∃ stack < config.count,
        (config.objects stack).record = record ∧ (config.objects stack).isDisposed = false)
  resumes : config.calls = [] → ∀ record ∈ config.reactions,
    (step recordFirst config (.awaitSettles record none)).isSome = true

/-- `PromiseResolve` of what a dispose method has returned does not throw, and the record that
`use` pushes to after its getters is still one of a stack that is not disposed. -/
def Condition (config : Config V) : Op V → Prop
  | .promiseResolveThrows _ => False
  | .getterReturns method =>
    match config.calls with
    | .getter stack record _ _ :: _ =>
      method.isCallable = true → ∃ owner ∈ List.range config.count,
        (config.objects owner).record = useTarget recordFirst config stack record ∧
          (config.objects owner).isDisposed = false
    | _ => True
  | _ => True

instance (recordFirst : Bool) (config : Config V) (op : Op V) :
    Decidable (Condition recordFirst config op) := by
  unfold Condition
  split <;> first | infer_instance | (split <;> infer_instance)

@[simp]
theorem methodsOf_nil : methodsOf ([] : List (Resource V)) = [] := rfl

variable {resource : Resource V}

theorem methodsOf_cons_of_undefined (records : List (Resource V))
    (hmethod : resource.method = .undefined) :
    methodsOf (resource :: records) = methodsOf records := by
  simp [methodsOf, hmethod, DisposeMethod.isUndefined]

theorem methodsOf_cons_of_ne (records : List (Resource V))
    (hmethod : resource.method ≠ .undefined) :
    methodsOf (resource :: records) = resource.number :: methodsOf records := by
  have hdefined : resource.method.isUndefined = false := by
    cases hcase : resource.method with
    | undefined => exact absurd hcase hmethod
    | function method => rfl
    | disposableWrapper method => rfl
    | adoptWrapper onDispose value => rfl
  simp [methodsOf, hdefined]

theorem suppressedChain_cons (earlier : List (Thrown V)) :
    suppressedChain (error :: earlier) = addError (suppressedChain earlier) error := by
  cases earlier with
  | nil => rfl
  | cons next earlier =>
    rw [suppressedChain]
    · cases hchain : suppressedChain (next :: earlier) with
      | none =>
        exfalso
        induction earlier generalizing next with
        | nil => cases hchain
        | cons last earlier ih =>
          rw [suppressedChain, map_eq_none_iff] at hchain
          · exact ih last hchain
          · exact nofun
      | some suppressed => rfl
    · exact nofun

theorem completionOf_concat :
    completionOf (errors ++ [error]) = addError (completionOf errors) error := by
  rw [completionOf, reverse_append, reverse_singleton, singleton_append, suppressedChain_cons]
  rfl

/-- What the disposal of a record has still to do, with the completion so far. -/
structure Running (history : History V) (records : List (Resource V))
    (completion : Option (Thrown V)) : Prop where
  begun : history.begun = true
  outcomes : history.outcomes = []
  methods : history.called ++ methodsOf records = methodsOf history.registered
  completion_eq : completion = completionOf history.errors

/-- The disposal waits for a promise. -/
structure Awaiting (history : History V) (record : ResourceRecord V) : Prop where
  running : Running history
    (if record.awaitResumeStage = 2 then record.records.tail else record.records) record.result
  stage : (record.awaitResumeStage = 1 ∨ record.awaitResumeStage = 2) ∧ record.records ≠ [] ∨
    record.awaitResumeStage = 3 ∧ record.records = [] ∧ record.needsAwait = false

/-- The disposal has come to its end. -/
structure Settled (history : History V) : Prop where
  begun : history.begun = true
  outcomes : history.outcomes = [completionOf history.errors]
  methods : history.called = methodsOf history.registered

/-- No disposal of the record has begun. -/
structure Fresh (history : History V) (record : ResourceRecord V) : Prop where
  history_eq : history = ⟨false, record.records, [], [], []⟩
  record_eq : record = { records := record.records }

variable {history : History V} {record : ResourceRecord V}

theorem Fresh.running (hfresh : Fresh history record) :
    Running { history with begun := true } record.records none := by
  rw [hfresh.history_eq]
  exact ⟨rfl, rfl, rfl, rfl⟩

variable {records : List (Resource V)} {completion : Option (Thrown V)}

theorem Running.call (hrunning : Running history (resource :: records) completion)
    (hmethod : resource.method ≠ .undefined) :
    Running { history with called := history.called ++ [resource.number] } records completion := by
  refine ⟨hrunning.begun, hrunning.outcomes, ?_, hrunning.completion_eq⟩
  have hmethods := hrunning.methods
  rw [methodsOf_cons_of_ne records hmethod] at hmethods
  rw [← hmethods]
  exact append_assoc ..

theorem Running.skip (hrunning : Running history (resource :: records) completion)
    (hmethod : resource.method = .undefined) : Running history records completion := by
  refine ⟨hrunning.begun, hrunning.outcomes, ?_, hrunning.completion_eq⟩
  rw [← methodsOf_cons_of_undefined records hmethod]
  exact hrunning.methods

theorem Running.throws (hrunning : Running history records completion) (error : Thrown V) :
    Running { history with errors := history.errors ++ [error] } records
      (addError completion error) :=
  ⟨hrunning.begun, hrunning.outcomes, hrunning.methods, by
    rw [hrunning.completion_eq, completionOf_concat]⟩

theorem Running.settled (hrunning : Running history [] completion) :
    Settled { history with outcomes := history.outcomes ++ [completion] } := by
  refine ⟨hrunning.begun, ?_, ?_⟩
  · rw [hrunning.outcomes, hrunning.completion_eq]
    rfl
  · have hmethods := hrunning.methods
    rwa [methodsOf_nil, append_nil] at hmethods

/-- What the loop of a disposal gives: it calls a method and leaves the rest, it awaits, or it
has nothing left to do. -/
def Continues (history : History V) (completion : ResourceRecord V → Option (Thrown V)) :
    ResourceRecord V × Next V → Prop
  | (record, .calls resource) =>
    Running { history with called := history.called ++ [resource.number] } record.records
      (completion record)
  | (record, .awaits _) => Awaiting history record
  | (_, .completes result) => Running history [] result

theorem continues_disposeRecords {history : History V} {resultError : Option (Thrown V)}
    (record : ResourceRecord V) :
    ∀ (records : List (Resource V)), Running history records resultError →
      Continues history (fun _ => resultError) (disposeRecords resultError record records)
  | [], hrunning => hrunning
  | resource :: records, hrunning => by
      rw [disposeRecords]
      split
      · exact continues_disposeRecords record records (hrunning.skip ‹_›)
      · rename_i hmethod
        exact hrunning.call hmethod

theorem continues_asyncDisposeRecords {history : History V} :
    ∀ (records : List (Resource V)) (record : ResourceRecord V),
      Running history records record.result →
      Continues history ResourceRecord.result (asyncDisposeRecords record records)
  | [], record, hrunning => by
      rw [asyncDisposeRecords]
      split
      · exact ⟨hrunning, .inr ⟨rfl, rfl, rfl⟩⟩
      · exact hrunning
  | resource :: records, record, hrunning => by
      rw [asyncDisposeRecords]
      split
      · exact ⟨hrunning, .inl ⟨.inl rfl, cons_ne_nil _ _⟩⟩
      · split
        · exact continues_asyncDisposeRecords records
            { record with needsAwait := resource.isAsync || record.needsAwait }
            (hrunning.skip ‹_›)
        · rename_i hmethod
          exact hrunning.call hmethod

theorem continues_methodReturned (hrunning : Running history record.records record.result)
    (resource : Resource V) (isObject : Bool) :
    Continues history ResourceRecord.result (methodReturned record resource isObject) := by
  unfold methodReturned
  split
  · exact ⟨hrunning, .inl ⟨.inr rfl, cons_ne_nil _ _⟩⟩
  · exact continues_asyncDisposeRecords record.records record hrunning

theorem continues_asyncDisposeResources (hawaiting : Awaiting history record)
    {rejection : Option (Thrown V)} (hrejection : record.awaitResumeStage ≠ 2 → rejection = none) :
    Continues { history with errors := history.errors ++ rejection.toList } ResourceRecord.result
      (asyncDisposeResources record rejection) := by
  have hrunning := hawaiting.running
  unfold asyncDisposeResources
  rcases hawaiting.stage with ⟨hstage | hstage, hrecords⟩ | ⟨hstage, hrecords, -⟩
  · -- the await before a resource of the synchronous form: the resource is looked at again
    obtain ⟨resource, records, hcons⟩ := exists_cons_of_ne_nil hrecords
    rw [if_neg (by omega), hcons] at hrunning
    rw [hrejection (by omega), hcons, hstage]
    simp only [toList_none, append_nil]
    exact continues_asyncDisposeRecords _ _ hrunning
  · -- the await of what a method has returned
    obtain ⟨resource, records, hcons⟩ := exists_cons_of_ne_nil hrecords
    rw [if_pos hstage, hcons] at hrunning
    rw [hcons, hstage]
    cases rejection with
    | none =>
      simp only [toList_none, append_nil]
      exact continues_asyncDisposeRecords _ _ hrunning
    | some error => exact continues_asyncDisposeRecords _ _ (hrunning.throws error)
  · -- the last await: there is no resource left to look at
    rw [if_neg (by omega), hrecords] at hrunning
    rw [hrejection (by omega), hrecords]
    simp only [toList_none, append_nil]
    exact continues_asyncDisposeRecords _ _ hrunning

def disposals (config : Config V) (record : Nat) : List (Call V) :=
  config.calls.filter fun call => call.disposes == some record

inductive Phase (number : Nat) (history : History V) (record : ResourceRecord V) :
    List (Call V) → Nat → Prop
  | fresh : Fresh history record → Phase number history record [] 0
  | method (resource : Resource V) (resultError : Option (Thrown V)) :
      Running history record.records resultError →
      Phase number history record [.method number resource resultError] 0
  | asyncMethod (resource : Resource V) :
      Running history record.records record.result →
      Phase number history record [.asyncMethod number resource] 0
  | promiseResolve :
      Awaiting history record → Phase number history record [.promiseResolve number] 0
  | reaction : Awaiting history record → Phase number history record [] 1
  | settled : Settled history → Phase number history record [] 0

/-- Stacks and records: each record is that of one stack at most, and has not been touched
while its stack is not disposed. -/
structure Steady (config : Config V) : Prop where
  record_lt : ∀ stack < config.count, (config.objects stack).record < config.count
  injective : ∀ stack < config.count, ∀ stack' < config.count,
    (config.objects stack).record = (config.objects stack').record → stack = stack'
  pending : ∀ stack < config.count, (config.objects stack).isDisposed = false →
    (config.history (config.objects stack).record).begun = false
  kept : ∀ record, (config.history record).begun = false →
    (config.history record).registered ≠ [] → ∃ stack < config.count,
      (config.objects stack).record = record ∧ (config.objects stack).isDisposed = false
  unborn : ∀ record, config.count ≤ record →
    (config.history record).begun = false ∧ (config.history record).registered = []
  numbers : ∀ record, ∀ resource ∈ (config.history record).registered,
    resource.number < config.resources
  ordered : ∀ record, ((config.history record).registered.map Resource.number).Pairwise (· > ·)
  unique : ∀ record record' resource resource', resource ∈ (config.history record).registered →
    resource' ∈ (config.history record').registered →
    resource.number = resource'.number → record = record'

structure Inv (config : Config V) : Prop where
  steady : Steady config
  phase : ∀ record, Phase record (config.history record) (config.records record)
    (disposals config record) (config.reactions.count record)

/-- One record is between two steps of its disposal. -/
structure Between (config : Config V) (number : Nat) : Prop where
  steady : Steady config
  phase : ∀ record, record ≠ number → Phase record (config.history record)
    (config.records record) (disposals config record) (config.reactions.count record)
  noCalls : disposals config number = []
  noReactions : config.reactions.count number = 0

theorem inv_start : Inv (start : Config V) :=
  ⟨⟨fun _ h => absurd h (Nat.not_lt_zero _), fun _ h => absurd h (Nat.not_lt_zero _),
      fun _ h => absurd h (Nat.not_lt_zero _), fun _ _ h => absurd rfl h,
      fun _ _ => ⟨rfl, rfl⟩, fun _ _ h => absurd h not_mem_nil,
      fun _ => .nil, fun _ _ _ _ h => absurd h not_mem_nil⟩,
    fun _ => .fresh ⟨rfl, rfl⟩⟩

variable {config next : Config V}

theorem Steady.congr (hsteady : Steady config) (hcount : next.count = config.count)
    (hobjects : next.objects = config.objects) (hresources : next.resources = config.resources)
    (hbegun : ∀ record, (next.history record).begun = (config.history record).begun)
    (hregistered : ∀ record,
      (next.history record).registered = (config.history record).registered) : Steady next := by
  refine ⟨?_, ?_, ?_, ?_, ?_, ?_, ?_, ?_⟩
  · rw [hcount, hobjects]
    exact hsteady.record_lt
  · rw [hcount, hobjects]
    exact hsteady.injective
  · intro stack hlt hpending
    rw [hobjects] at hpending ⊢
    rw [hbegun]
    exact hsteady.pending stack (hcount ▸ hlt) hpending
  · intro record hnot hne
    rw [hbegun] at hnot
    rw [hregistered] at hne
    rw [hcount, hobjects]
    exact hsteady.kept record hnot hne
  · intro record hle
    rw [hbegun, hregistered]
    exact hsteady.unborn record (hcount ▸ hle)
  · intro record resource hmem
    rw [hregistered] at hmem
    rw [hresources]
    exact hsteady.numbers record resource hmem
  · intro record
    rw [hregistered]
    exact hsteady.ordered record
  · intro record record' resource resource' hmem hmem'
    rw [hregistered] at hmem hmem'
    exact hsteady.unique record record' resource resource' hmem hmem'

variable {number : Nat} {calls : List (Call V)}

theorem Phase.fresh_of_begun {reactions : Nat}
    (hphase : Phase number history record calls reactions) (hbegun : history.begun = false) :
    Fresh history record ∧ calls = [] ∧ reactions = 0 := by
  have hnot {P : Prop} (h : history.begun = true) : P := by simp [hbegun] at h
  cases hphase with
  | fresh hfresh => exact ⟨hfresh, rfl, rfl⟩
  | method resource resultError hrunning => exact hnot hrunning.begun
  | asyncMethod resource hrunning => exact hnot hrunning.begun
  | promiseResolve hawaiting => exact hnot hawaiting.running.begun
  | reaction hawaiting => exact hnot hawaiting.running.begun
  | settled hsettled => exact hnot hsettled.begun

/-- A step that leaves the records as they are, with the calls that dispose of them. -/
theorem Inv.congr (hinv : Inv config) (hsteady : Steady next)
    (hhistory : next.history = config.history) (hrecords : next.records = config.records)
    (hdisposals : ∀ record, disposals next record = disposals config record)
    (hreactions : next.reactions = config.reactions) : Inv next :=
  ⟨hsteady, fun record => by
    rw [hhistory, hrecords, hdisposals, hreactions]
    exact hinv.phase record⟩

theorem disposals_cons_self {call : Call V} (hcalls : config.calls = call :: calls)
    (hcall : call.disposes = some number) :
    disposals config number = call :: disposals { config with calls } number := by
  unfold disposals
  rw [hcalls, filter_cons_of_pos (by simp [hcall])]

theorem disposals_cons_of_ne {call : Call V} (hcalls : config.calls = call :: calls)
    (hcall : call.disposes ≠ some number) :
    disposals config number = disposals { config with calls } number := by
  unfold disposals
  rw [hcalls, filter_cons_of_neg (by simp [hcall])]

theorem Inv.leave {config : Config V} (hinv : Inv config) {call : Call V} {calls : List (Call V)}
    {number : Nat} (hcalls : config.calls = call :: calls) (hcall : call.disposes = some number) :
    Between { config with calls } number ∧
      Phase number (config.history number) (config.records number) [call] 0 := by
  have hphase := hinv.phase number
  rw [disposals_cons_self hcalls hcall] at hphase
  obtain ⟨hrest, hcount⟩ : disposals { config with calls } number = [] ∧
      config.reactions.count number = 0 := by
    generalize disposals { config with calls } number = rest at hphase ⊢
    generalize config.reactions.count number = reactions at hphase ⊢
    cases hphase <;> exact ⟨rfl, rfl⟩
  rw [hrest, hcount] at hphase
  refine ⟨⟨hinv.steady.congr rfl rfl rfl (fun _ => rfl) (fun _ => rfl), ?_, hrest, hcount⟩, hphase⟩
  intro record hne
  have hother := hinv.phase record
  rwa [disposals_cons_of_ne hcalls (by
    rw [hcall]
    exact fun h => hne (Option.some.inj h).symm)] at hother

theorem Between.finish (hbetween : Between config number) (hsteady : Steady next)
    (hframe : ∀ other, other ≠ number → next.history other = config.history other ∧
      next.records other = config.records other ∧
      disposals next other = disposals config other ∧
      next.reactions.count other = config.reactions.count other)
    (hphase : Phase number (next.history number) (next.records number) (disposals next number)
      (next.reactions.count number)) : Inv next := by
  refine ⟨hsteady, fun other => ?_⟩
  rcases eq_or_ne other number with rfl | hne
  · exact hphase
  · obtain ⟨hhistory, hrecords, hdisposals, hreactions⟩ := hframe other hne
    rw [hhistory, hrecords, hdisposals, hreactions]
    exact hbetween.phase other hne

/-- What is seen of a record changes, but not what was registered or begun. -/
theorem Steady.updateHistory (hsteady : Steady config)
    (hhistory : next.history = Function.update config.history number history)
    (hbegun : history.begun = (config.history number).begun)
    (hregistered : history.registered = (config.history number).registered)
    (hcount : next.count = config.count) (hobjects : next.objects = config.objects)
    (hresources : next.resources = config.resources) : Steady next := by
  refine hsteady.congr hcount hobjects hresources ?_ ?_
  · intro other
    rw [hhistory]
    rcases eq_or_ne other number with rfl | hne
    · rw [update_self, hbegun]
    · rw [update_of_ne hne]
  · intro other
    rw [hhistory]
    rcases eq_or_ne other number with rfl | hne
    · rw [update_self, hregistered]
    · rw [update_of_ne hne]

theorem Between.observe {config : Config V} {number : Nat} (hbetween : Between config number)
    (errors : List (Thrown V)) : Between (observe config number errors) number := by
  refine ⟨hbetween.steady.updateHistory rfl rfl rfl rfl rfl rfl, ?_, hbetween.noCalls,
    hbetween.noReactions⟩
  intro record hne
  have hsame : (Disposable.observe config number errors).history record = config.history record :=
    update_of_ne hne _ _
  rw [hsame]
  exact hbetween.phase record hne

theorem Between.perform {config : Config V} {number : Nat} (hbetween : Between config number)
    {call : Resource V → Call V} {result : ResourceRecord V × Next V}
    (completion : ResourceRecord V → Option (Thrown V))
    (hcontinues : Continues (config.history number) completion result)
    (hdisposes : ∀ resource, (call resource).disposes = some number)
    (hcall : ∀ resource history record, Running history record.records (completion record) →
      Phase number history record [call resource] 0) :
    Inv (perform config number call result) := by
  obtain ⟨record, next⟩ := result
  have hother {other : Nat} (hne : other ≠ number) : some number ≠ some other :=
    fun h => hne (Option.some.inj h).symm
  cases next with
  | calls resource =>
    refine hbetween.finish (hbetween.steady.updateHistory rfl rfl rfl rfl rfl rfl)
      (fun other hne => ⟨update_of_ne hne _ _, update_of_ne hne _ _,
        disposals_cons_of_ne rfl (hdisposes resource ▸ hother hne), rfl⟩) ?_
    rw [disposals_cons_self rfl (hdisposes resource)]
    simp only [Disposable.perform, update_self]
    have hcalls : disposals { config with
        records := Function.update config.records number record,
        history := Function.update config.history number
          { config.history number with
            called := (config.history number).called ++ [resource.number] } } number = [] :=
      hbetween.noCalls
    rw [hcalls, hbetween.noReactions]
    exact hcall resource _ record hcontinues
  | awaits isObject =>
    cases isObject with
    | true =>
      refine hbetween.finish (hbetween.steady.congr rfl rfl rfl (fun _ => rfl) fun _ => rfl)
        (fun other hne => ⟨rfl, update_of_ne hne _ _,
          disposals_cons_of_ne rfl (hother hne), rfl⟩) ?_
      rw [disposals_cons_self rfl rfl]
      simp only [Disposable.perform, update_self]
      have hcalls : disposals { config with
          records := Function.update config.records number record } number = [] :=
        hbetween.noCalls
      rw [hcalls, hbetween.noReactions]
      exact .promiseResolve hcontinues
    | false =>
      refine hbetween.finish (hbetween.steady.congr rfl rfl rfl (fun _ => rfl) fun _ => rfl)
        (fun other hne => ⟨rfl, update_of_ne hne _ _, rfl,
          count_cons_of_ne hne.symm⟩) ?_
      simp only [Disposable.perform, update_self, count_cons_self]
      have hcalls : disposals { config with
          records := Function.update config.records number record,
          reactions := number :: config.reactions } number = [] :=
        hbetween.noCalls
      rw [hcalls, hbetween.noReactions]
      exact .reaction hcontinues
  | completes result =>
    refine hbetween.finish (hbetween.steady.updateHistory rfl rfl rfl rfl rfl rfl)
      (fun other hne => ⟨update_of_ne hne _ _, update_of_ne hne _ _, rfl, rfl⟩)
      ?_
    simp only [Disposable.perform, update_self]
    have hcalls : disposals { config with
        records := Function.update config.records number record,
        history := Function.update config.history number
          { config.history number with
            outcomes := (config.history number).outcomes ++ [result] } } number = [] :=
      hbetween.noCalls
    rw [hcalls, hbetween.noReactions]
    exact .settled (Running.settled hcontinues)

variable {answer : Answer V}

section

variable (hinv : Inv config)
include hinv

theorem Inv.methodReturns {value : Value V}
    (hstep : methodReturns config value = some (next, answer)) : Inv next := by
  unfold Disposable.methodReturns at hstep
  split at hstep
  · rename_i number resource resultError calls hcalls
    obtain ⟨hbetween, hphase⟩ := hinv.leave hcalls rfl
    cases hphase with
    | method _ _ hrunning =>
      cases hstep
      exact hbetween.perform (fun _ => resultError) (continues_disposeRecords _ _ hrunning)
        (fun _ => rfl) fun resource _ _ hrest => .method resource _ hrest
  · rename_i number resource calls hcalls
    obtain ⟨hbetween, hphase⟩ := hinv.leave hcalls rfl
    cases hphase with
    | asyncMethod _ hrunning =>
      cases hstep
      exact hbetween.perform ResourceRecord.result (continues_methodReturned hrunning resource _)
        (fun _ => rfl) fun resource _ _ hrest => .asyncMethod resource hrest
  · cases hstep

theorem Inv.methodThrows {error : Thrown V}
    (hstep : methodThrows config error = some (next, answer)) : Inv next := by
  have hseen (config : Config V) (number : Nat) :
      (observe config number [error]).history number =
        { config.history number with errors := (config.history number).errors ++ [error] } :=
    update_self ..
  unfold Disposable.methodThrows at hstep
  split at hstep
  · rename_i number resource resultError calls hcalls
    obtain ⟨hbetween, hphase⟩ := hinv.leave hcalls rfl
    cases hphase with
    | method _ _ hrunning =>
      cases hstep
      refine (hbetween.observe [error]).perform (fun _ => addError resultError error) ?_
        (fun _ => rfl) fun resource _ _ hrest => .method resource _ hrest
      rw [hseen]
      exact continues_disposeRecords _ _ (hrunning.throws error)
  · rename_i number resource calls hcalls
    obtain ⟨hbetween, hphase⟩ := hinv.leave hcalls rfl
    cases hphase with
    | asyncMethod _ hrunning =>
      split at hstep
      · -- the wrapper catches the error
        cases hstep
        exact hbetween.perform ResourceRecord.result
          (continues_methodReturned hrunning resource true) (fun _ => rfl)
          fun resource _ _ hrest => .asyncMethod resource hrest
      · cases hstep
        refine (hbetween.observe [error]).perform ResourceRecord.result ?_
          (fun _ => rfl) fun resource _ _ hrest => .asyncMethod resource hrest
        rw [hseen]
        exact continues_asyncDisposeRecords _ _ (hrunning.throws error)
  · cases hstep

theorem Inv.promiseResolveReturns (hcalls : config.calls = .promiseResolve number :: calls) :
    Inv { config with calls, reactions := number :: config.reactions } := by
  obtain ⟨hbetween, hphase⟩ := hinv.leave hcalls rfl
  refine hbetween.finish (hbetween.steady.congr rfl rfl rfl (fun _ => rfl) fun _ => rfl)
    (fun other hne => ⟨rfl, rfl, rfl, count_cons_of_ne hne.symm⟩) ?_
  have hnone : disposals { config with calls, reactions := number :: config.reactions } number =
      [] := hbetween.noCalls
  have hcount : config.reactions.count number = 0 := hbetween.noReactions
  rw [hnone, count_cons_self, hcount]
  cases hphase with
  | promiseResolve hawaiting => exact .reaction hawaiting

theorem Inv.awaiting (hmem : number ∈ config.reactions) :
    Awaiting (config.history number) (config.records number) ∧
      disposals config number = [] ∧ config.reactions.count number = 1 := by
  have hphase := hinv.phase number
  have hpos := List.count_pos_iff.mpr hmem
  generalize disposals config number = calls at hphase ⊢
  generalize config.reactions.count number = reactions at hphase hpos ⊢
  cases hphase with
  | reaction hawaiting => exact ⟨hawaiting, rfl, rfl⟩
  | fresh _ => exact absurd hpos (Nat.lt_irrefl 0)
  | method _ _ _ => exact absurd hpos (Nat.lt_irrefl 0)
  | asyncMethod _ _ => exact absurd hpos (Nat.lt_irrefl 0)
  | promiseResolve _ => exact absurd hpos (Nat.lt_irrefl 0)
  | settled _ => exact absurd hpos (Nat.lt_irrefl 0)

theorem Inv.awaitSettles {rejection : Option (Thrown V)}
    (hstep : awaitSettles config number rejection = some (next, answer)) : Inv next := by
  unfold Disposable.awaitSettles at hstep
  dsimp only at hstep
  split at hstep
  · rename_i hruns
    obtain ⟨-, hmem, hrejection⟩ := hruns
    obtain ⟨hawaiting, hnone, hcount⟩ := hinv.awaiting hmem
    have hbetween : Between { config with reactions := config.reactions.erase number } number := by
      refine ⟨hinv.steady.congr rfl rfl rfl (fun _ => rfl) (fun _ => rfl), fun other hne => ?_,
        hnone, ?_⟩
      · have hother := hinv.phase other
        rwa [← count_erase_of_ne hne] at hother
      · change (config.reactions.erase number).count number = 0
        rw [count_erase_self, hcount]
    cases hstep
    refine (hbetween.observe rejection.toList).perform ResourceRecord.result ?_
      (fun _ => rfl) fun resource _ _ hrest => .asyncMethod resource hrest
    have hseen : (observe { config with reactions := config.reactions.erase number } number
        rejection.toList).history number = { config.history number with
            errors := (config.history number).errors ++ rejection.toList } :=
      update_self ..
    rw [hseen]
    exact continues_asyncDisposeResources hawaiting hrejection
  · cases hstep

variable {stack : Nat}

theorem Inv.fresh (hlt : stack < config.count)
    (hpending : (config.objects stack).isDisposed = false) :
    Fresh (config.history (config.objects stack).record)
        (config.records (config.objects stack).record) ∧
      disposals config (config.objects stack).record = [] ∧
      config.reactions.count (config.objects stack).record = 0 :=
  (hinv.phase _).fresh_of_begun (hinv.steady.pending stack hlt hpending)

theorem Inv.addCall {call : Call V} (hcall : call.disposes = none) :
    Inv { config with calls := call :: config.calls } :=
  hinv.congr (hinv.steady.congr rfl rfl rfl (fun _ => rfl) fun _ => rfl) rfl rfl
    (fun _ => disposals_cons_of_ne rfl (by simp [hcall])) rfl

theorem Inv.leaveGetter {call : Call V} (hcalls : config.calls = call :: calls)
    (hcall : call.disposes = none) :
    Inv { config with calls } :=
  hinv.congr (hinv.steady.congr rfl rfl rfl (fun _ => rfl) fun _ => rfl) rfl rfl
    (fun _ => (disposals_cons_of_ne hcalls (by simp [hcall])).symm) rfl

theorem Inv.pushBack (hlt : stack < config.count)
    (hpending : (config.objects stack).isDisposed = false) (resourceValue : Value V)
    (method : DisposeMethod V) (isAsync : Bool) :
    Inv (pushBack config (config.objects stack).record resourceValue method isAsync) := by
  obtain ⟨hfresh, hnone, hcount⟩ := hinv.fresh hlt hpending
  generalize hnumber : (config.objects stack).record = number at hfresh hnone hcount ⊢
  have hsteady := hinv.steady
  have hself : (Disposable.pushBack config number resourceValue method isAsync).history number =
      { config.history number with
        registered := ⟨config.resources, resourceValue, method, isAsync⟩ ::
          (config.history number).registered } := update_self ..
  have hother {other : Nat} (hne : other ≠ number) :
      (Disposable.pushBack config number resourceValue method isAsync).history other =
        config.history other := update_of_ne hne _ _
  have hregistered {other : Nat} {resource : Resource V}
      (hmem : resource ∈ ((Disposable.pushBack config number resourceValue method
        isAsync).history other).registered) :
      other = number ∧ resource.number = config.resources ∨
        resource ∈ (config.history other).registered := by
    rcases eq_or_ne other number with rfl | hne
    · rw [hself] at hmem
      rcases List.mem_cons.mp hmem with rfl | hold
      · exact .inl ⟨rfl, rfl⟩
      · exact .inr hold
    · rw [hother hne] at hmem
      exact .inr hmem
  have hbegun (other : Nat) : ((Disposable.pushBack config number resourceValue method
      isAsync).history other).begun = (config.history other).begun := by
    rcases eq_or_ne other number with rfl | hne
    · rw [hself]
    · rw [hother hne]
  refine ⟨⟨hsteady.record_lt, hsteady.injective, ?_, ?_, ?_, ?_, ?_, ?_⟩, fun other => ?_⟩
  · intro stack' hlt' hpending'
    rw [hbegun]
    exact hsteady.pending stack' hlt' hpending'
  · intro other hnot hne
    rcases eq_or_ne other number with rfl | hother'
    · exact ⟨stack, hlt, hnumber, hpending⟩
    · rw [hother hother'] at hnot hne
      exact hsteady.kept other hnot hne
  · intro other hle
    have hne : other ≠ number := by
      rintro rfl
      exact absurd (hsteady.record_lt stack hlt) (by
        rw [hnumber]
        exact Nat.not_lt.mpr hle)
    rw [hother hne]
    exact hsteady.unborn other hle
  · intro other resource hmem
    rcases hregistered hmem with ⟨-, heq⟩ | hold
    · exact heq ▸ Nat.lt_succ_self _
    · exact Nat.lt_succ_of_lt (hsteady.numbers other resource hold)
  · intro other
    rcases eq_or_ne other number with rfl | hne
    · rw [hself, map_cons, pairwise_cons]
      refine ⟨fun n hmem => ?_, hsteady.ordered other⟩
      obtain ⟨resource, hold, rfl⟩ := List.mem_map.mp hmem
      exact hsteady.numbers other resource hold
    · rw [hother hne]
      exact hsteady.ordered other
  · intro first second resource resource' hmem hmem' heq
    rcases hregistered hmem with ⟨hfirst, hnew⟩ | hold
    · rcases hregistered hmem' with ⟨hsecond, -⟩ | hold'
      · rw [hfirst, hsecond]
      · exact absurd (hsteady.numbers second resource' hold') (by omega)
    · rcases hregistered hmem' with ⟨-, hnew'⟩ | hold'
      · exact absurd (hsteady.numbers first resource hold) (by omega)
      · exact hsteady.unique first second resource resource' hold hold' heq
  · rcases eq_or_ne other number with rfl | hne
    · rw [hself]
      change Phase other _ (Function.update config.records other _ other)
        (disposals config other) (config.reactions.count other)
      rw [update_self, hnone, hcount]
      refine .fresh ⟨?_, ?_⟩
      · rw [hfresh.history_eq]
      · rw [hfresh.record_eq]
    · rw [hother hne]
      change Phase other _ (Function.update config.records number _ other)
        (disposals config other) (config.reactions.count other)
      rw [update_of_ne hne]
      exact hinv.phase other

theorem Inv.phase_addStack (isAsync : Bool) (number record : Nat) :
    Phase record ((addStack config isAsync number).history record)
      ((addStack config isAsync number).records record) (disposals config record)
      (config.reactions.count record) := by
  rcases eq_or_ne record config.count with rfl | hne
  · obtain ⟨-, hnone, hcount⟩ :=
      (hinv.phase config.count).fresh_of_begun (hinv.steady.unborn _ (Nat.le_refl _)).1
    simp only [addStack, update_self]
    rw [hnone, hcount]
    exact .fresh ⟨rfl, rfl⟩
  · simp only [addStack, update_of_ne hne]
    exact hinv.phase record

theorem Inv.addRecord (hcount : next.count = config.count + 1)
    (hhistory : next.history = Function.update config.history config.count {})
    (hresources : next.resources = config.resources)
    (hphase : ∀ record, Phase record (next.history record) (next.records record)
      (disposals next record) (next.reactions.count record))
    (hlt : ∀ stack < next.count, (next.objects stack).record < next.count)
    (hinjective : ∀ stack < next.count, ∀ stack' < next.count,
      (next.objects stack).record = (next.objects stack').record → stack = stack')
    (hpending : ∀ stack < next.count, (next.objects stack).isDisposed = false →
      (next.objects stack).record = config.count ∨
        ∃ stack' < config.count, (config.objects stack').record = (next.objects stack).record ∧
          (config.objects stack').isDisposed = false)
    (hkept : ∀ stack < config.count, (config.objects stack).isDisposed = false →
      ∃ stack' < next.count, (next.objects stack').record = (config.objects stack).record ∧
        (next.objects stack').isDisposed = false) : Inv next := by
  have hsteady := hinv.steady
  have hself : next.history config.count = {} := by rw [hhistory, update_self]
  have hother {record : Nat} (hne : record ≠ config.count) :
      next.history record = config.history record := by rw [hhistory, update_of_ne hne]
  have hregistered (record : Nat) :
      (next.history record).registered = (config.history record).registered := by
    rcases eq_or_ne record config.count with rfl | hne
    · rw [hself, (hsteady.unborn _ (Nat.le_refl _)).2]
    · rw [hother hne]
  have hbegun (record : Nat) : (next.history record).begun = (config.history record).begun := by
    rcases eq_or_ne record config.count with rfl | hne
    · rw [hself, (hsteady.unborn _ (Nat.le_refl _)).1]
    · rw [hother hne]
  refine ⟨⟨hlt, hinjective, ?_, ?_, ?_, ?_, ?_, ?_⟩, hphase⟩
  · intro stack hstack hnot
    rcases hpending stack hstack hnot with hnew | ⟨stack', hlt', hrecord, hnot'⟩
    · rw [hnew, hself]
    · rw [hbegun, ← hrecord]
      exact hsteady.pending stack' hlt' hnot'
  · intro record hnot hne
    rw [hbegun] at hnot
    rw [hregistered] at hne
    obtain ⟨stack, hstack, rfl, hnot'⟩ := hsteady.kept record hnot hne
    exact hkept stack hstack hnot'
  · intro record hle
    rw [hbegun, hregistered]
    exact hsteady.unborn record (by omega)
  · intro record resource hmem
    rw [hregistered] at hmem
    rw [hresources]
    exact hsteady.numbers record resource hmem
  · intro record
    rw [hregistered]
    exact hsteady.ordered record
  · intro record record' resource resource' hmem hmem'
    rw [hregistered] at hmem hmem'
    exact hsteady.unique record record' resource resource' hmem hmem'

theorem Inv.construct (isAsync : Bool) : Inv (addStack config isAsync config.count) := by
  have hsteady := hinv.steady
  have hself : (addStack config isAsync config.count).objects config.count =
      ⟨isAsync, false, config.count⟩ := update_self ..
  have hother {stack : Nat} (hlt : stack < config.count) :
      (addStack config isAsync config.count).objects stack = config.objects stack :=
    update_of_ne (Nat.ne_of_lt hlt) _ _
  have hcases {stack : Nat} (hlt : stack < config.count + 1) :
      stack < config.count ∨ stack = config.count := by omega
  refine hinv.addRecord rfl rfl rfl (hinv.phase_addStack isAsync _) ?_ ?_ ?_ ?_
  · intro stack hlt
    rcases hcases hlt with hlt | rfl
    · rw [hother hlt]
      exact Nat.lt_succ_of_lt (hsteady.record_lt stack hlt)
    · rw [hself]
      exact Nat.lt_succ_self _
  · intro stack hlt stack' hlt' heq
    rcases hcases hlt with hlt | rfl
    · have hold := hsteady.record_lt stack hlt
      rcases hcases hlt' with hlt' | rfl
      · rw [hother hlt, hother hlt'] at heq
        exact hsteady.injective stack hlt stack' hlt' heq
      · rw [hother hlt, hself] at heq
        exact absurd heq (Nat.ne_of_lt hold)
    · rcases hcases hlt' with hlt' | rfl
      · have hold := hsteady.record_lt stack' hlt'
        rw [hself, hother hlt'] at heq
        exact absurd heq.symm (Nat.ne_of_lt hold)
      · rfl
  · intro stack hlt hpending
    rcases hcases hlt with hlt | rfl
    · rw [hother hlt] at hpending ⊢
      exact .inr ⟨stack, hlt, rfl, hpending⟩
    · rw [hself]
      exact .inl rfl
  · intro stack hlt hpending
    refine ⟨stack, Nat.lt_succ_of_lt hlt, ?_⟩
    rw [hother hlt]
    exact ⟨rfl, hpending⟩

section

variable (hlt : stack < config.count)
include hlt

theorem Inv.move : Inv (move config stack).1 := by
  have hsteady := hinv.steady
  unfold Disposable.move
  dsimp only
  split
  · exact hinv
  rename_i hpending
  have hpending : (config.objects stack).isDisposed = false := by simpa using hpending
  generalize hobject : config.objects stack = object at hpending
  obtain ⟨isAsync, isDisposed, number⟩ := object
  dsimp only at hpending ⊢
  -- the stacks after the step: the old one, the new one, and the others
  have hold : (Function.update (addStack config isAsync number).objects stack
      ⟨isAsync, true, config.count⟩) stack = ⟨isAsync, true, config.count⟩ :=
    update_self ..
  have hnew : (Function.update (addStack config isAsync number).objects stack
      ⟨isAsync, true, config.count⟩) config.count = ⟨isAsync, false, number⟩ := by
    rw [update_of_ne (Nat.ne_of_gt hlt)]
    exact update_self ..
  have hother {other : Nat} (hne : other ≠ stack) (hlt' : other < config.count) :
      (Function.update (addStack config isAsync number).objects stack
        ⟨isAsync, true, config.count⟩) other = config.objects other := by
    rw [update_of_ne hne]
    exact update_of_ne (Nat.ne_of_lt hlt') _ _
  have hcases {other : Nat} (hlt' : other < config.count + 1) :
      other = stack ∨ other = config.count ∨ other ≠ stack ∧ other < config.count := by omega
  have hnumber : number < config.count := by
    have h := hsteady.record_lt stack hlt
    rwa [hobject] at h
  have hunique {other : Nat} (hlt' : other < config.count)
      (heq : (config.objects other).record = number) : other = stack :=
    hsteady.injective other hlt' stack hlt (by rw [hobject, heq])
  refine hinv.addRecord rfl rfl rfl (hinv.phase_addStack isAsync number) ?_ ?_ ?_ ?_
  · intro other hlt'
    dsimp only
    rcases hcases hlt' with rfl | rfl | ⟨hne, hlt''⟩
    · rw [hold]
      exact Nat.lt_succ_self _
    · rw [hnew]
      exact Nat.lt_succ_of_lt hnumber
    · rw [hother hne hlt'']
      exact Nat.lt_succ_of_lt (hsteady.record_lt other hlt'')
  · intro first hfirst second hsecond heq
    dsimp only at heq
    rcases hcases hfirst with rfl | rfl | ⟨hne, hlt'⟩
    · rw [hold] at heq
      rcases hcases hsecond with rfl | rfl | ⟨hne', hlt''⟩
      · rfl
      · rw [hnew] at heq
        exact absurd heq.symm (Nat.ne_of_lt hnumber)
      · rw [hother hne' hlt''] at heq
        exact absurd heq.symm (Nat.ne_of_lt (hsteady.record_lt second hlt''))
    · rw [hnew] at heq
      rcases hcases hsecond with rfl | rfl | ⟨hne', hlt''⟩
      · rw [hold] at heq
        exact absurd heq (Nat.ne_of_lt hnumber)
      · rfl
      · rw [hother hne' hlt''] at heq
        exact absurd (hunique hlt'' heq.symm) hne'
    · rw [hother hne hlt'] at heq
      rcases hcases hsecond with rfl | rfl | ⟨hne', hlt''⟩
      · rw [hold] at heq
        exact absurd heq (Nat.ne_of_lt (hsteady.record_lt first hlt'))
      · rw [hnew] at heq
        exact absurd (hunique hlt' heq) hne
      · rw [hother hne' hlt''] at heq
        exact hsteady.injective first hlt' second hlt'' heq
  · intro other hlt' hnot
    dsimp only at hnot ⊢
    rcases hcases hlt' with rfl | rfl | ⟨hne, hlt''⟩
    · rw [hold] at hnot
      cases hnot
    · rw [hnew]
      exact .inr ⟨stack, hlt, by rw [hobject], by rw [hobject]; exact hpending⟩
    · rw [hother hne hlt''] at hnot ⊢
      exact .inr ⟨other, hlt'', rfl, hnot⟩
  · intro other hlt' hnot
    dsimp only
    rcases eq_or_ne other stack with rfl | hne
    · refine ⟨config.count, Nat.lt_succ_self _, ?_⟩
      rw [hnew, hobject]
      exact ⟨rfl, rfl⟩
    · refine ⟨other, Nat.lt_succ_of_lt hlt', ?_⟩
      rw [hother hne hlt']
      exact ⟨rfl, hnot⟩

theorem Inv.begin (hpending : (config.objects stack).isDisposed = false) : Between { config with
      objects := Function.update config.objects stack
        { config.objects stack with isDisposed := true }
      history := Function.update config.history (config.objects stack).record
        { config.history (config.objects stack).record with begun := true } }
      (config.objects stack).record := by
  obtain ⟨hfresh, hnone, hcount⟩ := hinv.fresh hlt hpending
  have hsteady := hinv.steady
  generalize hnumber : (config.objects stack).record = number at hnone hcount ⊢
  have hself : Function.update config.objects stack
      { config.objects stack with isDisposed := true } stack =
        { config.objects stack with isDisposed := true } := update_self ..
  have hother {other : Nat} (hne : other ≠ stack) : Function.update config.objects stack
      { config.objects stack with isDisposed := true } other = config.objects other :=
    update_of_ne hne _ _
  have hrecord (other : Nat) : (Function.update config.objects stack
      { config.objects stack with isDisposed := true } other).record =
        (config.objects other).record := by
    rcases eq_or_ne other stack with rfl | hne
    · rw [hself]
    · rw [hother hne]
  have hhistory {record : Nat} (hne : record ≠ number) : Function.update config.history number
      { config.history number with begun := true } record = config.history record :=
    update_of_ne hne _ _
  have hregistered (record : Nat) : (Function.update config.history number
      { config.history number with begun := true } record).registered =
        (config.history record).registered := by
    rcases eq_or_ne record number with rfl | hne
    · rw [update_self]
    · rw [hhistory hne]
  refine ⟨⟨?_, ?_, ?_, ?_, ?_, ?_, ?_, ?_⟩, fun record hne => ?_, hnone, hcount⟩
  · intro other hlt'
    rw [hrecord]
    exact hsteady.record_lt other hlt'
  · intro other hlt' other' hlt'' heq
    dsimp only at heq
    rw [hrecord, hrecord] at heq
    exact hsteady.injective other hlt' other' hlt'' heq
  · intro other hlt' hnot
    dsimp only at hnot ⊢
    rcases eq_or_ne other stack with rfl | hne
    · rw [hself] at hnot
      cases hnot
    · have hrecord' : (config.objects other).record ≠ number := fun heq =>
        hne (hsteady.injective other hlt' stack hlt (heq.trans hnumber.symm))
      rw [hother hne] at hnot ⊢
      rw [hhistory hrecord']
      exact hsteady.pending other hlt' hnot
  · intro record hnot hne
    dsimp only at hnot hne ⊢
    rcases eq_or_ne record number with rfl | hrecord'
    · rw [update_self] at hnot
      cases hnot
    · rw [hhistory hrecord'] at hnot hne
      obtain ⟨owner, hlt', rfl, howner⟩ := hsteady.kept record hnot hne
      have hne' : owner ≠ stack := by
        rintro rfl
        exact hrecord' hnumber
      refine ⟨owner, hlt', ?_⟩
      rw [hother hne']
      exact ⟨rfl, howner⟩
  · intro record hle
    have hne : record ≠ number := by
      have hold := hsteady.record_lt stack hlt
      dsimp only at hle
      omega
    dsimp only
    rw [hhistory hne]
    exact hsteady.unborn record hle
  · intro record resource hmem
    dsimp only at hmem
    rw [hregistered] at hmem
    exact hsteady.numbers record resource hmem
  · intro record
    rw [hregistered]
    exact hsteady.ordered record
  · intro first second resource resource' hmem hmem'
    dsimp only at hmem hmem'
    rw [hregistered] at hmem hmem'
    exact hsteady.unique first second resource resource' hmem hmem'
  · dsimp only
    rw [hhistory hne]
    exact hinv.phase record

theorem Inv.dispose : Inv (dispose config stack).1 := by
  unfold Disposable.dispose
  dsimp only
  split
  · exact hinv
  rename_i hpending
  have hpending : (config.objects stack).isDisposed = false := by simpa using hpending
  have hbetween := hinv.begin hlt hpending
  have hfresh := (hinv.fresh hlt hpending).1
  have hrunning := hfresh.running
  split
  · refine hbetween.perform ResourceRecord.result ?_ (fun _ => rfl)
      fun resource _ _ hrest => .asyncMethod resource hrest
    dsimp only
    rw [update_self]
    refine continues_asyncDisposeRecords _ _ ?_
    have hresult : (config.records (config.objects stack).record).result = none := by
      rw [hfresh.record_eq]
    rw [hresult]
    exact hrunning
  · refine hbetween.perform (fun _ => none) ?_ (fun _ => rfl)
      fun resource _ _ hrest => .method resource none hrest
    dsimp only
    rw [update_self]
    exact continues_disposeRecords _ _ hrunning

theorem Inv.use (value : Value V) : Inv (use config stack value).1 := by
  unfold Disposable.use
  dsimp only
  split
  · exact hinv
  rename_i hpending
  split
  · exact hinv.pushBack hlt (by simpa using hpending) _ _ _
  · split
    · exact hinv
    · exact hinv.addCall rfl

theorem Inv.register (onDispose : Value V) (method : DisposeMethod V) (answer : Value V) :
    Inv (register config stack onDispose method answer).1 := by
  unfold Disposable.register
  dsimp only
  split
  · exact hinv
  rename_i hpending
  split
  · exact hinv
  · exact hinv.pushBack hlt (by simpa using hpending) _ _ _

end

theorem Inv.getterReturned (recordFirst : Bool) {record : Nat} {method : Value V}
    (howner : method.isCallable = true → ∃ owner < config.count,
      (config.objects owner).record = useTarget recordFirst config stack record ∧
        (config.objects owner).isDisposed = false) (value : Value V) (symbol : DisposeSymbol) :
    Inv (getterReturned recordFirst config stack record value symbol method).1 := by
  unfold Disposable.getterReturned
  split
  · split
    · exact hinv.addCall rfl
    · exact hinv
  · split
    · exact hinv
    · rename_i hcallable
      obtain ⟨owner, hlt, hrecord, hpending⟩ := howner (by simpa using hcallable)
      rw [← hrecord]
      exact hinv.pushBack hlt hpending _ _ _

end

/-- What holds of the configuration that an operation gives, for the stacks that there are. -/
theorem onStack_eq_some {stack : Nat} {result : Config V × Answer V}
    (hstep : onStack config stack result = some (next, answer)) :
    stack < config.count ∧ result.1 = next := by
  unfold onStack at hstep
  split at hstep
  · cases hstep
    exact ⟨‹_›, rfl⟩
  · cases hstep

theorem Inv.step {recordFirst : Bool} {op : Op V} (hinv : Inv config)
    (hcondition : Condition recordFirst config op)
    (hstep : step recordFirst config op = some (next, answer)) : Inv next := by
  cases op with
  | construct isAsync =>
    cases hstep
    exact hinv.construct isAsync
  | use stack value =>
    obtain ⟨hlt, rfl⟩ := onStack_eq_some hstep
    exact hinv.use hlt value
  | getterReturns method =>
    simp only [Disposable.step] at hstep
    split at hstep
    · rename_i stack record value symbol calls hcalls
      have hnext : (Disposable.getterReturned recordFirst { config with calls } stack record
          value symbol method).1 = next := congrArg Prod.fst (Option.some.inj hstep)
      rw [← hnext]
      refine (hinv.leaveGetter hcalls rfl).getterReturned recordFirst (fun hcallable => ?_)
        value symbol
      simp only [Condition, hcalls] at hcondition
      obtain ⟨owner, hmem, howner⟩ := hcondition hcallable
      exact ⟨owner, List.mem_range.mp hmem, howner⟩
    · cases hstep
  | getterThrows error =>
    simp only [Disposable.step] at hstep
    split at hstep
    · cases hstep
      exact hinv.leaveGetter ‹_› rfl
    · cases hstep
  | adopt stack value onDispose =>
    obtain ⟨hlt, rfl⟩ := onStack_eq_some hstep
    exact hinv.register hlt onDispose _ value
  | defer stack onDispose =>
    obtain ⟨hlt, rfl⟩ := onStack_eq_some hstep
    exact hinv.register hlt onDispose _ .undefined
  | move stack =>
    obtain ⟨hlt, rfl⟩ := onStack_eq_some hstep
    exact hinv.move hlt
  | dispose stack =>
    obtain ⟨hlt, rfl⟩ := onStack_eq_some hstep
    exact hinv.dispose hlt
  | methodReturns value => exact hinv.methodReturns hstep
  | methodThrows error => exact hinv.methodThrows hstep
  | promiseResolveReturns =>
    simp only [Disposable.step] at hstep
    split at hstep
    · cases hstep
      exact hinv.promiseResolveReturns ‹_›
    · cases hstep
  | promiseResolveThrows error => exact hcondition.elim
  | awaitSettles record rejection => exact hinv.awaitSettles hstep

theorem Phase.activities_eq {reactions : Nat}
    (hphase : Phase number history record calls reactions) :
    calls.length + reactions = if history.begun ∧ history.outcomes = [] then 1 else 0 := by
  have hactive {records : List (Resource V)} {completion : Option (Thrown V)}
      (hrunning : Running history records completion) :
      1 = if history.begun ∧ history.outcomes = [] then 1 else 0 :=
    (if_pos ⟨hrunning.begun, hrunning.outcomes⟩).symm
  cases hphase with
  | fresh hfresh => simp [hfresh.history_eq]
  | method resource resultError hrunning => exact hactive hrunning
  | asyncMethod resource hrunning => exact hactive hrunning
  | promiseResolve hawaiting => exact hactive hawaiting.running
  | reaction hawaiting => exact hactive hawaiting.running
  | settled hsettled => simp [hsettled.outcomes]

theorem Running.prefix (hrunning : Running history records completion) :
    history.called <+: methodsOf history.registered ∧ history.outcomes = [] :=
  ⟨⟨_, hrunning.methods⟩, hrunning.outcomes⟩

theorem Phase.called {reactions : Nat} (hphase : Phase number history record calls reactions) :
    history.called <+: methodsOf history.registered ∧
      (history.outcomes = [] ∨ history.outcomes = [completionOf history.errors] ∧
        history.called = methodsOf history.registered) := by
  cases hphase with
  | fresh hfresh =>
    rw [hfresh.history_eq]
    exact ⟨List.nil_prefix, .inl rfl⟩
  | method resource resultError hrunning => exact hrunning.prefix.imp_right .inl
  | asyncMethod resource hrunning => exact hrunning.prefix.imp_right .inl
  | promiseResolve hawaiting => exact hawaiting.running.prefix.imp_right .inl
  | reaction hawaiting => exact hawaiting.running.prefix.imp_right .inl
  | settled hsettled =>
    exact ⟨hsettled.methods ▸ prefix_rfl, .inr ⟨hsettled.outcomes, hsettled.methods⟩⟩

theorem Inv.isSound (hinv : Inv config) (recordFirst : Bool) : IsSound recordFirst config where
  registeredInOrder := hinv.steady.ordered
  registeredOnce := hinv.steady.unique
  calledInReverse record := (hinv.phase record).called.1
  settledOnce record := (hinv.phase record).called.2
  goesOn record := by
    rw [← (hinv.phase record).activities_eq, activities, countP_eq_length_filter]
    rfl
  begins record hbegun := by
    obtain ⟨hfresh, -, -⟩ := (hinv.phase record).fresh_of_begun hbegun
    refine ⟨?_, ?_, hinv.steady.kept record hbegun⟩
    · rw [hfresh.history_eq]
    · rw [hfresh.history_eq]
  resumes hcalls record hmem := by simp [Disposable.step, Disposable.awaitSettles, hcalls, hmem]

/-- In every run in which `PromiseResolve` of what a method returned does not throw, and in which
no getter disposes of the record that its value is registered with, each method is called once
in reverse order, and each disposal gives the chain of the errors after the last of them. -/
theorem resources_are_disposed_in_order (recordFirst : Bool) {config : Config V}
    (hreached : ReachedBy (step recordFirst) (Condition recordFirst) start config) :
    IsSound recordFirst config :=
  (hreached.invariant inv_start Inv.step).isSound recordFirst

/-- An asynchronous stack, moved and with a method that registers for another stack, whose
second method is rejected after the last one has thrown. -/
def disposedOps : List (Op Nat) :=
  [.construct true, .defer 0 (.object 1 true), .use 0 (.object 2 false),
    .getterReturns .undefined, .getterReturns (.object 3 true), .use 0 .null,
    .defer 0 (.object 4 true), .move 0, .dispose 1, .construct false,
    .defer 2 (.object 5 true), .methodThrows (.value (.primitive 6)),
    .methodReturns .undefined, .promiseResolveReturns,
    .awaitSettles 0 (some (.value (.primitive 7))), .methodReturns .undefined,
    .awaitSettles 0 none]

theorem disposed_in_order :
    ∃ config, ReachedBy (step true) (Condition true) (start : Config Nat) config ∧
      IsSound true config ∧ (config.history 0).called = [3, 1, 0] ∧
      (config.history 0).outcomes =
        [some (.suppressedError (.value (.primitive 7)) (.value (.primitive 6)))] := by
  obtain ⟨config, outs, hrun, hcalled, houtcomes⟩ :
      ∃ config outs, run (step true) disposedOps (start : Config Nat) = some (config, outs) ∧
        (config.history 0).called = [3, 1, 0] ∧
        (config.history 0).outcomes =
          [some (.suppressedError (.value (.primitive 7)) (.value (.primitive 6)))] :=
    ⟨_, _, rfl, rfl, rfl⟩
  have hreached : ReachedBy (step true) (Condition true) start config :=
    ⟨disposedOps, outs, by decide +kernel, hrun⟩
  exact ⟨config, hreached, resources_are_disposed_in_order true hreached, hcalled, houtcomes⟩

/-- What the first method returns is a promise whose `constructor` throws. -/
def abandonedOps : List (Op Nat) :=
  [.construct true, .defer 0 (.object 1 true), .defer 0 (.object 2 true), .dispose 0,
    .methodReturns (.object 3 false), .promiseResolveThrows (.value (.primitive 4))]

/-- The getter that `use` reads the dispose method with disposes of the stack. -/
def repeatedOps : List (Op Nat) :=
  [.construct true, .defer 0 (.object 1 true), .use 0 (.object 2 false), .dispose 0,
    .methodReturns .undefined, .getterReturns (.object 3 true), .awaitSettles 0 none]

/-- Then a method is never called and nothing goes on, or a method is called again while a
resource that was registered after it is left out. -/
theorem resource_is_left_or_repeated :
    (∃ config outs, run (step true) abandonedOps (start : Config Nat) = some (config, outs) ∧
      config.calls = [] ∧ config.reactions = [] ∧ (config.history 0).called = [1] ∧
      (config.history 0).outcomes = [] ∧ ¬ IsSound true config) ∧
    ∃ config outs, run (step true) repeatedOps (start : Config Nat) = some (config, outs) ∧
      (config.history 0).called = [0, 0] ∧ (config.history 0).registered.length = 2 ∧
      ¬ IsSound true config :=
  ⟨⟨_, _, rfl, rfl, rfl, rfl, rfl, fun hsound => absurd (hsound.goesOn 0) (by decide)⟩,
    ⟨_, _, rfl, rfl, rfl, fun hsound => absurd (hsound.calledInReverse 0) (by decide)⟩⟩

end Escargot.Runtime.Disposable
