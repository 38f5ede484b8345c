/-
# Evaluation of modules

`moduleEvaluation` visits the modules that a root requests, depth first, and
runs each body after those below it, unless one of them is still in an await.
Such a module is counted and started later, when the promises of what it waits
for have settled. A body of a module without an await runs user code at once,
so the loops that start modules later are kept as frames: what they do after a
body has come back is a step of its own.
-/

import Escargot.Parser.ModuleLinking

namespace Escargot.Parser

open Escargot.Foundation

universe u

/-- What is seen of an evaluation: bodies that start and that complete without an error, and
promises of dynamic imports that are settled. -/
inductive EvalEvent (V : Type u)
  | started (module : Nat)
  | completed (module : Nat)
  | settled (promise : Nat) (rejection : Option V)
  deriving DecidableEq

inductive Capability (V : Type u)
  | pending
  | resolved
  | rejected (error : V)

/-- A call of the engine that has not returned, with the parents it has still to visit. -/
inductive EvalFrame (V : Type u)
  | fulfilling (module : Nat) (parents : List Nat)
  | rejecting (module : Nat) (error : V) (parents : List Nat)
  | executing (module : Nat)

/-- `ModuleData`, by module, with the stack of the evaluation, its last element first. `promises`
are the modules whose body is inside of an await, or at its end. -/
structure EvalState (V : Type u) where
  status : Nat → ModuleStatus
  evaluationError : Nat → Option V
  dfsIndex : Nat → Option Nat
  dfsAncestorIndex : Nat → Option Nat
  cycleRoot : Nat → Option Nat
  asyncEvaluating : Nat → Bool
  topLevelCapability : Nat → Option (Capability V)
  asyncParentModules : Nat → List Nat
  pendingAsyncDependencies : Nat → Option Nat
  asyncPendingPromises : Nat → List Nat
  stack : List Nat
  promises : List Nat
  frames : List (EvalFrame V)
  log : List (EvalEvent V)

variable {V : Type u}
  (graph : ModuleGraph) (outcome : Nat → Option V) (state : EvalState V) (module : Nat)

/-- `m_pendingAsyncDependencies.value()`. -/
def pendingOf : Nat := (state.pendingAsyncDependencies module).getD 0

/-- Why a visit does not give an index: a body has thrown, or the turns are used up. -/
inductive EvalFailure (V : Type u)
  | error (error : V)
  | diverges

/-- `innerModuleEvaluation` pushes a module. -/
def enterEvaluation (index module : Nat) : EvalState V :=
  { state with
    status := Function.update state.status module .evaluating
    dfsIndex := Function.update state.dfsIndex module (some index)
    dfsAncestorIndex := Function.update state.dfsAncestorIndex module (some index)
    pendingAsyncDependencies := Function.update state.pendingAsyncDependencies module (some 0)
    stack := module :: state.stack }

def awaitDependency (module requiredModule : Nat) : EvalState V :=
  if state.asyncEvaluating requiredModule then
    { state with
      pendingAsyncDependencies := Function.update state.pendingAsyncDependencies module
        (some (pendingOf state module + 1))
      asyncParentModules := Function.update state.asyncParentModules requiredModule
        (state.asyncParentModules requiredModule ++ [module]) }
  else state

/-- A request after its visit: of what is on the stack the ancestor index is taken over, and of
a component that was left its root is asked. -/
def followEvaluation (module requiredModule : Nat) : EvalState V × Option V :=
  if state.status requiredModule = .evaluating then
    (awaitDependency
      { state with
        dfsAncestorIndex := Function.update state.dfsAncestorIndex module
          (some (min ((state.dfsAncestorIndex module).getD 0)
            ((state.dfsAncestorIndex requiredModule).getD 0))) } module requiredModule, none)
  else
    let cycleRoot := (state.cycleRoot requiredModule).getD requiredModule
    match state.evaluationError cycleRoot with
    | some error => (state, some error)
    | none => (awaitDependency state module cycleRoot, none)

def evaluateRequests (graph : ModuleGraph)
    (innerModuleEvaluation : EvalState V → Nat → Nat → EvalState V × Except (EvalFailure V) Nat)
    (module : Nat) :
    List ModuleRequest → EvalState V → Nat → EvalState V × Except (EvalFailure V) Nat
  | [], state, index => (state, .ok index)
  | request :: requests, state, index =>
    let requiredModule := graph.resolve module request
    match innerModuleEvaluation state index requiredModule with
    | (state, .error failure) => (state, .error failure)
    | (state, .ok index) =>
      match followEvaluation state module requiredModule with
      | (state, some error) => (state, .error (.error error))
      | (state, none) => evaluateRequests graph innerModuleEvaluation module requests state index

def moduleExecuteAsyncModule : EvalState V :=
  { state with
    asyncEvaluating := Function.update state.asyncEvaluating module true
    promises := module :: state.promises
    log := state.log ++ [.started module] }

/-- `innerModuleEvaluation` executes a module, where `outcome` is what the bodies that run at
once throw. The error of a synthetic module is stored and not given back. -/
def executeModule : EvalState V × Option V :=
  if (graph.source module).isSynthetic then
    match outcome module with
    | some error =>
      ({ state with
          evaluationError := Function.update state.evaluationError module (some error)
          log := state.log ++ [.started module] }, none)
    | none => ({ state with log := state.log ++ [.started module] ++ [.completed module] }, none)
  else if 0 < pendingOf state module then
    ({ state with asyncEvaluating := Function.update state.asyncEvaluating module true }, none)
  else if (graph.source module).isAsync then (moduleExecuteAsyncModule state module, none)
  else
    match outcome module with
    | some error => ({ state with log := state.log ++ [.started module] }, some error)
    | none => ({ state with log := state.log ++ [.started module] ++ [.completed module] }, none)

/-- The loop that takes a component from the stack. -/
def popCycle (cycleRoot : Nat) : List Nat → (Nat → ModuleStatus) → (Nat → Option Nat) →
      List Nat × (Nat → ModuleStatus) × (Nat → Option Nat)
  | [], status, cycleRoots => ([], status, cycleRoots)
  | requiredModule :: stack, status, cycleRoots =>
    let status := Function.update status requiredModule .evaluated
    let cycleRoots := Function.update cycleRoots requiredModule (some cycleRoot)
    if requiredModule = cycleRoot then (stack, status, cycleRoots)
    else popCycle cycleRoot stack status cycleRoots

/-- The end of `innerModuleEvaluation`. -/
def leaveEvaluation : EvalState V :=
  if state.dfsAncestorIndex module = state.dfsIndex module then
    let popped := popCycle module state.stack state.status state.cycleRoot
    { state with stack := popped.1, status := popped.2.1, cycleRoot := popped.2.2 }
  else state

/-- `Script::innerModuleEvaluation`. An error that is `undefined` is not taken for one. -/
def innerModuleEvaluation (graph : ModuleGraph) (isUndefined : V → Bool)
    (outcome : Nat → Option V) :
    Nat → EvalState V → Nat → Nat → EvalState V × Except (EvalFailure V) Nat
  | 0, state, _, _ => (state, .error .diverges)
  | turns + 1, state, index, module =>
    if state.status module = .evaluated then
      match state.evaluationError module with
      | some error => (state, if isUndefined error then .ok index else .error (.error error))
      | none => (state, .ok index)
    else if state.status module = .evaluating then (state, .ok index)
    else
      match evaluateRequests graph (innerModuleEvaluation graph isUndefined outcome turns) module
          (graph.source module).requestedModules (enterEvaluation state index module)
          (index + 1) with
      | (state, .error failure) => (state, .error failure)
      | (state, .ok index) =>
        match executeModule graph outcome state module with
        | (state, some error) => (state, .error (.error error))
        | (state, none) => (leaveEvaluation state module, .ok index)

/-- A resolving function of a capability: only the first call of one has an effect. -/
def settleCapability (settlement : Capability V) : Option (Capability V) → Option (Capability V)
  | some .pending => some settlement
  | capability => capability

variable (error : V) (callers : List (EvalFrame V))

/-- What `moduleEvaluation` does with a module that is on the stack when a body has thrown. -/
def failModule (state : EvalState V) (module : Nat) : EvalState V :=
  { state with
    status := Function.update state.status module .evaluated
    evaluationError := Function.update state.evaluationError module (some error) }

/-- `Script::moduleEvaluation`, of a module that is linked and not evaluated. -/
def moduleEvaluation (isUndefined : V → Bool) (outcome : Nat → Option V)
    (state : EvalState V) (module : Nat) : EvalState V × Except (EvalFailure V) Unit :=
  let settle (state : EvalState V) (settlement : Capability V) : EvalState V :=
    { state with
      topLevelCapability := Function.update state.topLevelCapability module
        (settleCapability settlement (state.topLevelCapability module)) }
  match innerModuleEvaluation graph isUndefined outcome (graph.count + 1)
      { state with
        topLevelCapability := Function.update state.topLevelCapability module (some .pending)
        stack := [] } 0 module with
  | (state, .ok _) =>
    (if state.asyncEvaluating module then state else settle state .resolved, .ok ())
  | (state, .error (.error error)) =>
    (settle (state.stack.foldl (failModule error) state) (.rejected error), .error (.error error))
  | (state, .error .diverges) => (state, .error .diverges)

def asyncModuleFulfilled : EvalState V :=
  if state.asyncEvaluating module then
    { state with
      asyncEvaluating := Function.update state.asyncEvaluating module false
      frames := .fulfilling module (state.asyncParentModules module) :: state.frames }
  else state

def asyncModuleRejected : EvalState V :=
  if state.asyncEvaluating module then
    { state with
      evaluationError := Function.update state.evaluationError module (some error)
      asyncEvaluating := Function.update state.asyncEvaluating module false
      frames := .rejecting module error (state.asyncParentModules module) :: state.frames }
  else state

/-- One parent in the loop of `asyncModuleFulfilled`, whose frames are those of its callers.
`m_pendingAsyncDependencies` is tested as an `Optional`: whether it has a value. -/
def visitParent (module m : Nat) (parents : List Nat)
    (callers : List (EvalFrame V)) : EvalState V :=
  let next := { state with
    pendingAsyncDependencies := Function.update state.pendingAsyncDependencies m
      (some (pendingOf state m - 1))
    frames := .fulfilling module parents :: callers }
  if (next.pendingAsyncDependencies m).isSome ∧ (next.evaluationError m).isNone then
    if ((next.cycleRoot m).bind next.evaluationError).isSome then { next with frames := callers }
    else if (graph.source m).isAsync then moduleExecuteAsyncModule next m
    else { next with frames := .executing m :: next.frames, log := next.log ++ [.started m] }
  else next

/-- The end of `asyncModuleFulfilled`. -/
def fulfillPromises : EvalState V :=
  { state with
    log := state.log ++ (state.asyncPendingPromises module).map (.settled · none)
    asyncPendingPromises := Function.update state.asyncPendingPromises module []
    frames := callers }

/-- The end of `asyncModuleRejected`. Where no promise waits, the error is thrown, and nothing
catches it before the job ends. -/
def rejectPromises : EvalState V :=
  let next := { state with
    topLevelCapability := Function.update state.topLevelCapability module
      (settleCapability (.rejected error) (state.topLevelCapability module)) }
  if (next.asyncPendingPromises module).length ≠ 0 then
    { next with
      log := state.log ++ (state.asyncPendingPromises module).map (.settled · (some error))
      asyncPendingPromises := Function.update state.asyncPendingPromises module []
      frames := callers }
  else { next with frames := [] }

inductive EvalOp (V : Type u)
  | settle (module : Nat) (rejection : Option V)
  | resume
  | bodyReturns
  | bodyThrows (error : V)
  | dynamicImport (module promise : Nat)

/-- The promise of a body and a dynamic import settle in jobs, and no job runs inside another.
A frame that is not a body goes on by itself. -/
def evalStep : EvalOp V → Option (EvalState V × Unit)
  | .settle module rejection =>
    if state.frames = [] ∧ module ∈ state.promises then
      let next := { state with promises := state.promises.erase module }
      some (match rejection with
        | some error => asyncModuleRejected next module error
        | none =>
          asyncModuleFulfilled { next with log := next.log ++ [.completed module] } module, ())
    else none
  | .resume =>
    match state.frames with
    | .fulfilling module (m :: parents) :: callers =>
      some (visitParent graph state module m parents callers, ())
    | .fulfilling module [] :: callers => some (fulfillPromises state module callers, ())
    | .rejecting module error (m :: parents) :: callers =>
      some (asyncModuleRejected { state with
        frames := .rejecting module error parents :: callers } m error, ())
    | .rejecting module error [] :: callers => some (rejectPromises state module error callers, ())
    | _ => none
  | .bodyReturns =>
    match state.frames with
    | .executing module :: callers =>
      some (asyncModuleFulfilled { state with
        frames := callers, log := state.log ++ [.completed module] } module, ())
    | _ => none
  | .bodyThrows error =>
    match state.frames with
    | .executing module :: callers =>
      some (asyncModuleRejected { state with frames := callers } module error, ())
    | _ => none
  | .dynamicImport module promise =>
    match state.frames with
    | [] =>
      some (if state.asyncEvaluating module then
        { state with
          asyncPendingPromises := Function.update state.asyncPendingPromises module
            (state.asyncPendingPromises module ++ [promise]) }
      else { state with log := state.log ++ [.settled promise none] }, ())
    | _ :: _ => none

/-- Modules that are linked. A synthetic one is its own cycle root from the start. -/
def linkedModules : EvalState V where
  status _ := .linked
  evaluationError _ := none
  dfsIndex _ := none
  dfsAncestorIndex _ := none
  cycleRoot module := if (graph.source module).isSynthetic then some module else none
  asyncEvaluating _ := false
  topLevelCapability _ := none
  asyncParentModules _ := []
  pendingAsyncDependencies _ := none
  asyncPendingPromises _ := []
  stack := []
  promises := []
  frames := []
  log := []

end Escargot.Parser
