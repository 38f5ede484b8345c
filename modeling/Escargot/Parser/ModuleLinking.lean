/-
# Linking of modules

`moduleLinking` visits the modules that a root requests, depth first, and links
each strongly connected component when it leaves it. A failure is either
returned, and then all of the stack is rolled back, or it is thrown as an
exception by the host, by an export resolution or by a namespace object, and
then nothing is. Which of the two happens depends on the first check that fails
in depth-first order, so those checks are written down on their own.
-/

import Escargot.Foundation.Run
import Escargot.Parser.ModuleRecord

namespace Escargot.Parser

open List
open Function (update_apply update_of_ne update_self)

open Escargot.Foundation

inductive ModuleStatus
  | unlinked
  | linking
  | linked
  | evaluating
  | evaluated
  deriving DecidableEq

/-- A binding of a `ModuleEnvironmentRecord`. An import binding keeps the module whose record it
points to, where that module has a record. -/
inductive BindingValue
  | uninitialized
  | namespaceObject (module : Nat)
  | importBinding (target : Option Nat) (bindingName : String)

structure Binding where
  localName : String
  value : BindingValue

/-- `ModuleData`, by module, with the stack of the linking that runs: its last element first.
`initialized` are the modules whose environment this linking has initialised. -/
structure LinkState where
  status : Nat → ModuleStatus
  dfsIndex : Nat → Option Nat
  dfsAncestorIndex : Nat → Option Nat
  moduleRecord : Nat → Option (List Binding)
  namespaces : Nat → Option (List String)
  stack : List Nat
  initialized : List Nat

/-- `m_dfsIndex.value()`. -/
def indexOf (state : LinkState) (module : Nat) : Nat := (state.dfsIndex module).getD 0

/-- `m_dfsAncestorIndex.value()`. -/
def ancestorOf (state : LinkState) (module : Nat) : Nat := (state.dfsAncestorIndex module).getD 0

/-- A failure is given back as a result, or it is thrown through all callers. -/
inductive Failure
  | returned (error : ModuleError)
  | thrown (abort : Abort)
  deriving DecidableEq

/-- `Script::getModuleNamespace`. An object whose constructor throws is not kept. -/
def getModuleNamespace (graph : ModuleGraph) (host : Host)
    (namespaces : Nat → Option (List String)) (module : Nat) :
    (Nat → Option (List String)) × Option Abort :=
  match namespaces module with
  | some _ => (namespaces, none)
  | none =>
    match moduleNamespaceObject graph host module with
    | .ok names => (Function.update namespaces module (some names), none)
    | .error abort => (namespaces, some abort)

/-- `initializeBinding` and `createImportBinding`: the first binding of the name. -/
def setBinding (localName : String) (value : BindingValue) : List Binding → List Binding
  | [] => []
  | binding :: environment =>
    if binding.localName = localName then { binding with value } :: environment
    else binding :: setBinding localName value environment

/-- The first loop of `moduleInitializeEnvironment`. -/
def checkIndirectExports (graph : ModuleGraph) (host : Host) (module : Nat) :
    List IndirectExportEntry → Option Failure
  | [] => none
  | e :: entries =>
    match resolveExportOf graph host module e.exportName with
    | .error abort => some (.thrown abort)
    | .ok (.record _ _) => checkIndirectExports graph host module entries
    | .ok _ =>
      some (.returned (.syntaxError
        ("The export binding '" ++ e.exportName ++ "' is ambiguous")))

/-- How far the imports of a module are bound. -/
structure ImportProgress where
  environment : List Binding
  namespaces : Nat → Option (List String)
  failure : Option Failure

def bindNamespace (graph : ModuleGraph) (host : Host) (environment : List Binding)
    (namespaces : Nat → Option (List String)) (localName : String) (target : Nat) :
    ImportProgress :=
  match getModuleNamespace graph host namespaces target with
  | (namespaces, some abort) => ⟨environment, namespaces, some (.thrown abort)⟩
  | (namespaces, none) =>
    ⟨setBinding localName (.namespaceObject target) environment, namespaces, none⟩

/-- One import entry. `hasRecord` are the modules whose `m_moduleRecord` is not null. -/
def initializeImport (graph : ModuleGraph) (host : Host) (hasRecord : Nat → Bool) (module : Nat)
    (e : ImportEntry) (environment : List Binding) (namespaces : Nat → Option (List String)) :
    ImportProgress :=
  let fails (failure : Failure) : ImportProgress := ⟨environment, namespaces, some failure⟩
  match loadModuleFromScript graph host module e.moduleRequest with
  | .error abort => fails (.thrown abort)
  | .ok importedModule =>
    if e.importName = "*" then
      bindNamespace graph host environment namespaces e.localName importedModule
    else
      match resolveExportOf graph host importedModule e.importName with
      | .error abort => fails (.thrown abort)
      | .ok .null =>
        fails (.returned (.syntaxError ("The requested module '" ++ e.moduleRequest.specifier ++
          "' does not provide an export named '" ++ e.localName ++ "'")))
      | .ok .ambiguous =>
        fails (.returned (.syntaxError ("The requested module '" ++ e.moduleRequest.specifier ++
          "' does not provide an export named '" ++ e.localName ++ "' correctly")))
      | .ok (.record target bindingName) =>
        if bindingName = "*namespace*" then
          bindNamespace graph host environment namespaces e.localName target
        else
          ⟨setBinding e.localName
            (.importBinding (if hasRecord target then some target else none) bindingName)
            environment, namespaces, none⟩

/-- The loop of `moduleInitializeEnvironment` over the import entries. -/
def initializeImports (graph : ModuleGraph) (host : Host) (hasRecord : Nat → Bool) (module : Nat) :
    List ImportEntry → List Binding → (Nat → Option (List String)) → ImportProgress
  | [], environment, namespaces => ⟨environment, namespaces, none⟩
  | e :: entries, environment, namespaces =>
    let progress := initializeImport graph host hasRecord module e environment namespaces
    match progress.failure with
    | some _ => progress
    | none =>
      initializeImports graph host hasRecord module entries progress.environment
        progress.namespaces

/-- `Script::moduleInitializeEnvironment`. The record is there before the imports are bound. -/
def moduleInitializeEnvironment (graph : ModuleGraph) (host : Host) (state : LinkState)
    (module : Nat) : LinkState × Option Failure :=
  let source := graph.source module
  match checkIndirectExports graph host module source.indirectExportEntries with
  | some failure => (state, some failure)
  | none =>
    let progress := initializeImports graph host
      (fun other => other == module || (state.moduleRecord other).isSome) module
      source.importEntries (source.identifiers.map fun name => ⟨name, .uninitialized⟩)
      state.namespaces
    let next := { state with
      moduleRecord := Function.update state.moduleRecord module (some progress.environment)
      namespaces := progress.namespaces }
    match progress.failure with
    | some failure => (next, some failure)
    | none => ({ next with initialized := module :: next.initialized }, none)

/-- A request is followed: the module takes the ancestor index of what it asked for, where that
is on the stack. -/
def followRequest (state : LinkState) (module requiredModule : Nat) : LinkState :=
  if state.status requiredModule = .linking then
    { state with
      dfsAncestorIndex := Function.update state.dfsAncestorIndex module
        (some (min (ancestorOf state module) (ancestorOf state requiredModule))) }
  else state

def linkRequests (graph : ModuleGraph) (host : Host)
    (innerModuleLinking : LinkState → Nat → Nat → LinkState × Except Failure Nat) (module : Nat) :
    List ModuleRequest → LinkState → Nat → LinkState × Except Failure Nat
  | [], state, index => (state, .ok index)
  | request :: requests, state, index =>
    match loadModuleFromScript graph host module request with
    | .error abort => (state, .error (.thrown abort))
    | .ok requiredModule =>
      match innerModuleLinking state index requiredModule with
      | (state, .error failure) => (state, .error failure)
      | (state, .ok index) =>
        linkRequests graph host innerModuleLinking module requests
          (followRequest state module requiredModule) index

def popComponent (module : Nat) : List Nat → (Nat → ModuleStatus) → List Nat × (Nat → ModuleStatus)
  | [], status => ([], status)
  | requiredModule :: stack, status =>
    let status := Function.update status requiredModule .linked
    if requiredModule = module then (stack, status) else popComponent module stack status

/-- `innerModuleLinking` pushes a module. -/
def enterModule (state : LinkState) (index module : Nat) : LinkState :=
  { state with
    status := Function.update state.status module .linking
    dfsIndex := Function.update state.dfsIndex module (some index)
    dfsAncestorIndex := Function.update state.dfsAncestorIndex module (some index)
    stack := module :: state.stack }

/-- The end of `innerModuleLinking`. -/
def leaveModule (state : LinkState) (module : Nat) : LinkState :=
  if ancestorOf state module = indexOf state module then
    let popped := popComponent module state.stack state.status
    { state with stack := popped.1, status := popped.2 }
  else state

def innerModuleLinking (graph : ModuleGraph) (host : Host) :
    Nat → LinkState → Nat → Nat → LinkState × Except Failure Nat
  | 0, state, _, _ => (state, .error (.thrown .diverges))
  | turns + 1, state, index, module =>
    if state.status module = .linking ∨ state.status module = .linked ∨
        state.status module = .evaluated then (state, .ok index)
    else
      match linkRequests graph host (innerModuleLinking graph host turns) module
          (graph.source module).requestedModules (enterModule state index module)
          (index + 1) with
      | (state, .error failure) => (state, .error failure)
      | (state, .ok index) =>
        match moduleInitializeEnvironment graph host state module with
        | (state, some failure) => (state, .error failure)
        | (state, none) => (leaveModule state module, .ok index)

/-- The roll-back of `moduleLinking`, of one module. -/
def rollBackModule (state : LinkState) (module : Nat) : LinkState :=
  { state with
    status := Function.update state.status module .unlinked
    moduleRecord := Function.update state.moduleRecord module none
    dfsIndex := Function.update state.dfsIndex module none
    dfsAncestorIndex := Function.update state.dfsAncestorIndex module none }

/-- `Script::moduleLinking`. There is no roll-back for an exception. -/
def moduleLinking (graph : ModuleGraph) (host : Host) (state : LinkState) (module : Nat) :
    LinkState × Option Failure :=
  match innerModuleLinking graph host (graph.count + 1) { state with stack := [], initialized := [] }
      0 module with
  | (state, .ok _) => (state, none)
  | (state, .error (.returned error)) =>
    (state.stack.foldl rollBackModule state, some (.returned error))
  | (state, .error (.thrown abort)) => (state, some (.thrown abort))

inductive LinkCheck
  | load (module : Nat) (request : ModuleRequest)
  | environment (module : Nat)

def requestChecks (graph : ModuleGraph) (linkingChecks : List Nat → Nat → List Nat × List LinkCheck)
    (module : Nat) : List ModuleRequest → List Nat → List Nat × List LinkCheck
  | [], visited => (visited, [])
  | request :: requests, visited =>
    let required := linkingChecks visited (graph.resolve module request)
    let rest := requestChecks graph linkingChecks module requests required.1
    (rest.1, .load module request :: required.2 ++ rest.2)

def linkingChecks (graph : ModuleGraph) (unlinked : Nat → Bool) :
    Nat → List Nat → Nat → List Nat × List LinkCheck
  | 0, visited, _ => (visited, [])
  | turns + 1, visited, module =>
    if unlinked module ∧ module ∉ visited then
      let required := requestChecks graph (linkingChecks graph unlinked turns) module
        (graph.source module).requestedModules (module :: visited)
      (required.1, required.2 ++ [.environment module])
    else (visited, [])

def checkEnvironment (graph : ModuleGraph) (host : Host) (module : Nat)
    (namespaces : Nat → Option (List String)) :
    (Nat → Option (List String)) × Option Failure :=
  let source := graph.source module
  match checkIndirectExports graph host module source.indirectExportEntries with
  | some failure => (namespaces, some failure)
  | none =>
    let progress := initializeImports graph host (fun _ => false) module source.importEntries []
      namespaces
    (progress.namespaces, progress.failure)

def firstFailure (graph : ModuleGraph) (host : Host) :
    List LinkCheck → (Nat → Option (List String)) → (Nat → Option (List String)) × Option Failure
  | [], namespaces => (namespaces, none)
  | .load module request :: checks, namespaces =>
    match loadModuleFromScript graph host module request with
    | .error abort => (namespaces, some (.thrown abort))
    | .ok _ => firstFailure graph host checks namespaces
  | .environment module :: checks, namespaces =>
    match checkEnvironment graph host module namespaces with
    | (namespaces, some failure) => (namespaces, some failure)
    | (namespaces, none) => firstFailure graph host checks namespaces

/-- The checks of linking a root come to no exception. -/
def ThrowsNothing (graph : ModuleGraph) (host : Host) (state : LinkState) (root : Nat) : Prop :=
  ∀ error, (firstFailure graph host
    (linkingChecks graph (fun module => state.status module = .unlinked) (graph.count + 1) []
      root).2 state.namespaces).2 ≠ some (.thrown (.exception error))

/-- A module is linked, perhaps evaluated too. -/
def IsLinked (status : ModuleStatus) : Prop := status = .linked ∨ status = .evaluated

instance (status : ModuleStatus) : Decidable (IsLinked status) :=
  inferInstanceAs (Decidable (_ ∨ _))

/-- After linking, no module is left in the middle. On success all that the root reaches is
linked, each environment that was not there is initialised once, and no other. On failure the
stack is rolled back, and all is ready for another try. -/
structure AllOrNothing (graph : ModuleGraph) (before : LinkState) (root : Nat)
    (result : LinkState × Option Failure) : Prop where
  comesBack : result.2 ≠ some (.thrown .diverges)
  noneLinking : ∀ module, result.1.status module ≠ .linking
  links : result.2 = none → ∀ module, Relation.ReflTransGen (Requests graph) root module →
    IsLinked (result.1.status module) ∧ (result.1.moduleRecord module).isSome = true ∧
      result.1.initialized.count module = if before.status module = .unlinked then 1 else 0
  rollsBack : result.2 ≠ none → root ∈ result.1.stack ∧ ∀ module ∈ result.1.stack,
    result.1.status module = .unlinked ∧ result.1.moduleRecord module = none
  keeps : ∀ module, IsLinked (before.status module) →
    result.1.status module = before.status module ∧
      result.1.moduleRecord module = before.moduleRecord module
  isReady : ∀ module, result.1.status module = .unlinked ∧ result.1.moduleRecord module = none ∨
    IsLinked (result.1.status module) ∧ (result.1.moduleRecord module).isSome = true ∧
      ∀ required, Requests graph module required → IsLinked (result.1.status required)

/-- Neither the records nor the bindings so far decide whether a namespace is there. -/
theorem bindNamespace_congr (graph : ModuleGraph) (host : Host)
    (environment environment' : List Binding) (namespaces : Nat → Option (List String))
    (localName : String) (target : Nat) :
    (bindNamespace graph host environment namespaces localName target).namespaces =
        (bindNamespace graph host environment' namespaces localName target).namespaces ∧
      (bindNamespace graph host environment namespaces localName target).failure =
        (bindNamespace graph host environment' namespaces localName target).failure := by
  unfold bindNamespace
  split <;> exact ⟨rfl, rfl⟩

theorem initializeImport_congr (graph : ModuleGraph) (host : Host)
    (hasRecord hasRecord' : Nat → Bool)
    (module : Nat) (e : ImportEntry) (environment environment' : List Binding)
    (namespaces : Nat → Option (List String)) :
    (initializeImport graph host hasRecord module e environment namespaces).namespaces =
        (initializeImport graph host hasRecord' module e environment' namespaces).namespaces ∧
      (initializeImport graph host hasRecord module e environment namespaces).failure =
        (initializeImport graph host hasRecord' module e environment' namespaces).failure := by
  unfold initializeImport
  split
  · exact ⟨rfl, rfl⟩
  · split
    · exact bindNamespace_congr graph host environment environment' namespaces _ _
    · split
      · exact ⟨rfl, rfl⟩
      · exact ⟨rfl, rfl⟩
      · exact ⟨rfl, rfl⟩
      · split
        · exact bindNamespace_congr graph host environment environment' namespaces _ _
        · exact ⟨rfl, rfl⟩

theorem initializeImports_congr (graph : ModuleGraph) (host : Host)
    (hasRecord hasRecord' : Nat → Bool) (module : Nat) :
    ∀ (entries : List ImportEntry) (environment environment' : List Binding)
      (namespaces : Nat → Option (List String)),
      (initializeImports graph host hasRecord module entries environment namespaces).namespaces =
          (initializeImports graph host hasRecord' module entries environment'
            namespaces).namespaces ∧
        (initializeImports graph host hasRecord module entries environment namespaces).failure =
          (initializeImports graph host hasRecord' module entries environment' namespaces).failure
  | [], _, _, _ => ⟨rfl, rfl⟩
  | e :: entries, environment, environment', namespaces => by
      obtain ⟨hnamespaces, hfailure⟩ := initializeImport_congr graph host hasRecord hasRecord'
        module e environment environment' namespaces
      rw [initializeImports, initializeImports, ← hfailure]
      split
      · rename_i failure hfails
        exact ⟨hnamespaces, hfailure⟩
      · rw [← hnamespaces]
        exact initializeImports_congr graph host hasRecord hasRecord' module entries _ _ _

variable {graph : ModuleGraph} {host : Host}

theorem bindNamespace_ne_diverges {target : Nat} (hlt : target < graph.count)
    (environment : List Binding) (namespaces : Nat → Option (List String)) (localName : String) :
    (bindNamespace graph host environment namespaces localName target).failure ≠
      some (.thrown .diverges) := by
  have hreturns := moduleNamespaceObject_ne_diverges hlt host
  unfold bindNamespace
  split
  · rename_i next abort hget
    unfold getModuleNamespace at hget
    split at hget
    · cases hget
    · split at hget
      · cases hget
      · rename_i hobject
        cases hget
        rw [hobject] at hreturns
        simpa using hreturns
  · simp

theorem initializeImport_ne_diverges (hasRecord : Nat → Bool) (module : Nat) (e : ImportEntry)
    (environment : List Binding) (namespaces : Nat → Option (List String)) :
    (initializeImport graph host hasRecord module e environment namespaces).failure ≠
      some (.thrown .diverges) := by
  unfold initializeImport
  split
  · rename_i abort hload
    simpa using ne_diverges_of_loadModuleFromScript hload
  · rename_i importedModule hload
    have hlt := lt_of_loadModuleFromScript hload
    have hreturns := resolveExportOf_ne_diverges hlt host e.importName
    split
    · exact bindNamespace_ne_diverges hlt environment namespaces e.localName
    · split
      · rename_i abort hresult
        rw [hresult] at hreturns
        simpa using hreturns
      · simp
      · simp
      · rename_i target bindingName hresult
        split
        · exact bindNamespace_ne_diverges
            (resolveExport_lt graph host _ _ _ _ _ _ hlt hresult) environment namespaces _
        · simp

theorem initializeImports_ne_diverges {graph : ModuleGraph} {host : Host}
    (hasRecord : Nat → Bool) (module : Nat) :
    ∀ (entries : List ImportEntry) (environment : List Binding)
      (namespaces : Nat → Option (List String)),
      (initializeImports graph host hasRecord module entries environment namespaces).failure ≠
        some (.thrown .diverges)
  | [], _, _ => by simp [initializeImports]
  | e :: entries, environment, namespaces => by
      rw [initializeImports]
      split
      · exact initializeImport_ne_diverges hasRecord module e environment namespaces
      · exact initializeImports_ne_diverges hasRecord module entries _ _

theorem checkIndirectExports_ne_diverges {graph : ModuleGraph} {module : Nat}
    (hlt : module < graph.count) (host : Host) :
    ∀ entries : List IndirectExportEntry,
      checkIndirectExports graph host module entries ≠ some (.thrown .diverges)
  | [] => by simp [checkIndirectExports]
  | e :: entries => by
      have hreturns := resolveExportOf_ne_diverges hlt host e.exportName
      rw [checkIndirectExports]
      split
      · rename_i abort hresult
        rw [hresult] at hreturns
        simpa using hreturns
      · exact checkIndirectExports_ne_diverges hlt host entries
      · simp

structure Initializes (graph : ModuleGraph) (host : Host) (state : LinkState) (module : Nat)
    (result : LinkState × Option Failure) : Prop where
  status : result.1.status = state.status
  dfsIndex : result.1.dfsIndex = state.dfsIndex
  dfsAncestorIndex : result.1.dfsAncestorIndex = state.dfsAncestorIndex
  stack : result.1.stack = state.stack
  moduleRecord : ∀ other, other ≠ module → result.1.moduleRecord other = state.moduleRecord other
  succeeds : result.2 = none → (result.1.moduleRecord module).isSome = true ∧
    result.1.initialized = module :: state.initialized
  checked : (result.1.namespaces, result.2) = checkEnvironment graph host module state.namespaces
  comesBack : module < graph.count → result.2 ≠ some (.thrown .diverges)

theorem moduleInitializeEnvironment_spec (graph : ModuleGraph) (host : Host) (state : LinkState)
    (module : Nat) : Initializes graph host state module
      (moduleInitializeEnvironment graph host state module) := by
  unfold moduleInitializeEnvironment
  dsimp only
  split
  · rename_i failure hfails
    refine ⟨rfl, rfl, rfl, rfl, fun _ _ => rfl, nofun, ?_, fun hlt => ?_⟩
    · rw [checkEnvironment]
      rw [hfails]
    · exact hfails ▸ checkIndirectExports_ne_diverges hlt host _
  · rename_i hpasses
    have hchecked (hasRecord : Nat → Bool) (environment : List Binding) :
        checkEnvironment graph host module state.namespaces =
          ((initializeImports graph host hasRecord module (graph.source module).importEntries
            environment state.namespaces).namespaces,
          (initializeImports graph host hasRecord module (graph.source module).importEntries
            environment state.namespaces).failure) := by
      obtain ⟨hnamespaces, hfailure⟩ := initializeImports_congr graph host (fun _ => false)
        hasRecord module (graph.source module).importEntries [] environment state.namespaces
      rw [checkEnvironment]
      rw [hpasses]
      dsimp only
      rw [hnamespaces, hfailure]
    split
    · rename_i failure hfails
      refine ⟨rfl, rfl, rfl, rfl, fun other hne => update_of_ne hne _ _, nofun, ?_,
        fun _ => ?_⟩
      · rw [hchecked _ _, hfails]
      · exact hfails ▸ initializeImports_ne_diverges _ module _ _ _
    · rename_i hsucceeds
      refine ⟨rfl, rfl, rfl, rfl, fun other hne => update_of_ne hne _ _, fun _ => ?_, ?_,
        fun _ => nofun⟩
      · exact ⟨by simp, rfl⟩
      · rw [hchecked _ _, hsucceeds]

/-- What holds at each point of a linking, and where it has failed. -/
structure Partial (graph : ModuleGraph) (before state : LinkState) : Prop where
  onStack : ∀ module, state.status module = .linking ↔ module ∈ state.stack
  notEvaluating : ∀ module, state.status module ≠ .evaluating
  closed : ∀ module, IsLinked (state.status module) →
    ∀ required, Requests graph module required → IsLinked (state.status required)
  linkedRecord : ∀ module, IsLinked (state.status module) →
    (state.moduleRecord module).isSome = true
  unlinkedRecord : ∀ module, state.status module = .unlinked → state.moduleRecord module = none
  keeps : ∀ module, IsLinked (before.status module) → state.status module = before.status module ∧
      state.moduleRecord module = before.moduleRecord module

/-- While nothing has failed, the indices grow along the stack, and each module is initialised
once its environment is there. -/
structure Searching (graph : ModuleGraph) (before state : LinkState) (index : Nat) : Prop
    extends Partial graph before state where
  sorted : state.stack.Pairwise fun above below => indexOf state below < indexOf state above
  bounded : ∀ module ∈ state.stack, indexOf state module < index
  ancestor_le : ∀ module ∈ state.stack, ancestorOf state module ≤ indexOf state module
  unlinkedBefore : ∀ module, state.status module = .unlinked → before.status module = .unlinked
  initialized : ∀ module, state.initialized.count module =
    if before.status module = .unlinked ∧ (state.moduleRecord module).isSome = true then 1 else 0

/-- What was visited before stays as it is. -/
structure Keeps (state next : LinkState) : Prop where
  status : ∀ module, state.status module ≠ .unlinked → next.status module = state.status module
  moduleRecord : ∀ module, state.status module ≠ .unlinked →
    next.moduleRecord module = state.moduleRecord module
  index : ∀ module, state.status module ≠ .unlinked → indexOf next module = indexOf state module
  ancestor : ∀ module, state.status module ≠ .unlinked →
    ancestorOf next module = ancestorOf state module

theorem Keeps.refl (state : LinkState) : Keeps state state :=
  ⟨fun _ _ => rfl, fun _ _ => rfl, fun _ _ => rfl, fun _ _ => rfl⟩

variable {state next : LinkState} {module : Nat}

theorem Keeps.visited (hkeeps : Keeps state next) (hvisited : state.status module ≠ .unlinked) :
    next.status module ≠ .unlinked := by
  rw [hkeeps.status module hvisited]
  exact hvisited

theorem Keeps.trans {middle : LinkState} (hfirst : Keeps state middle)
    (hsecond : Keeps middle next) : Keeps state next where
  status module h := (hsecond.status module (hfirst.visited h)).trans (hfirst.status module h)
  moduleRecord module h :=
    (hsecond.moduleRecord module (hfirst.visited h)).trans (hfirst.moduleRecord module h)
  index module h := (hsecond.index module (hfirst.visited h)).trans (hfirst.index module h)
  ancestor module h := (hsecond.ancestor module (hfirst.visited h)).trans (hfirst.ancestor module h)

/-- How many modules have not been visited. -/
def unvisited (graph : ModuleGraph) (state : LinkState) : Nat :=
  unseen (fun module => state.status module != .unlinked) (List.range graph.count)

theorem Keeps.unvisited_le (hkeeps : Keeps state next) (graph : ModuleGraph) :
    unvisited graph next ≤ unvisited graph state :=
  unseen_le _ fun module hseen => by
    simp only [bne_iff_ne] at hseen ⊢
    exact hkeeps.visited hseen

/-- A module whose requests have been visited and whose environment is there. Its ancestor index
is not above what it requests. -/
structure Finished (graph : ModuleGraph) (state : LinkState) (module : Nat) : Prop where
  moduleRecord : (state.moduleRecord module).isSome = true
  visited : ∀ required, Requests graph module required → state.status required ≠ .unlinked
  ancestor_le : ∀ required, Requests graph module required → required ∈ state.stack →
    ancestorOf state module ≤ indexOf state required

variable {before : LinkState}

theorem Partial.visited_of_mem (hpart : Partial graph before state) (hmem : module ∈ state.stack) :
    state.status module ≠ .unlinked := by
  rw [(hpart.onStack module).mpr hmem]
  exact nofun

theorem Keeps.mem_stack (hkeeps : Keeps state next) (hstate : Partial graph before state)
    (hnext : Partial graph before next) (hvisited : state.status module ≠ .unlinked)
    (hmem : module ∈ next.stack) :
    module ∈ state.stack := by
  have hlinking := (hnext.onStack module).mpr hmem
  rw [hkeeps.status module hvisited] at hlinking
  exact (hstate.onStack module).mp hlinking

theorem Finished.mono (hfinished : Finished graph state module) (hkeeps : Keeps state next)
    (hstate : Partial graph before state) (hnext : Partial graph before next)
    (hvisited : state.status module ≠ .unlinked) : Finished graph next module := by
  refine ⟨?_, fun required hrequests => ?_, fun required hrequests hmem => ?_⟩
  · rw [hkeeps.moduleRecord module hvisited]
    exact hfinished.moduleRecord
  · exact hkeeps.visited (hfinished.visited required hrequests)
  · have hrequired := hfinished.visited required hrequests
    rw [hkeeps.ancestor module hvisited, hkeeps.index required hrequired]
    exact hfinished.ancestor_le required hrequests
      (hkeeps.mem_stack hstate hnext hrequired hmem)

variable {index : Nat}

theorem Searching.nodup (hsearching : Searching graph before state index) : state.stack.Nodup :=
  hsearching.sorted.imp (by
    rintro above below hlt rfl
    exact absurd hlt (Nat.lt_irrefl _))

theorem keeps_enterModule (hnew : state.status module = .unlinked) (index : Nat) :
    Keeps state (enterModule state index module) := by
  have hne {other : Nat} (hvisited : state.status other ≠ .unlinked) : other ≠ module := by
    rintro rfl
    exact hvisited hnew
  refine ⟨fun other h => ?_, fun other h => rfl, fun other h => ?_, fun other h => ?_⟩
  · exact update_of_ne (hne h) _ _
  · simp only [indexOf, enterModule, update_of_ne (hne h)]
  · simp only [ancestorOf, enterModule, update_of_ne (hne h)]

theorem Searching.enterModule {graph : ModuleGraph} {before state : LinkState} {index module : Nat}
    (hsearching : Searching graph before state index) (hnew : state.status module = .unlinked) :
    Searching graph before (enterModule state index module) (index + 1) := by
  have hkeeps := keeps_enterModule hnew index
  have hmodule : (Parser.enterModule state index module).status module = .linking := update_self ..
  have hother {other : Nat} (hne : other ≠ module) :
      (Parser.enterModule state index module).status other = state.status other :=
    update_of_ne hne _ _
  have hindex : indexOf (Parser.enterModule state index module) module = index := by
    simp [indexOf, Parser.enterModule]
  have hancestor : ancestorOf (Parser.enterModule state index module) module = index := by
    simp [ancestorOf, Parser.enterModule]
  have hlinked {other : Nat}
      (h : IsLinked ((Parser.enterModule state index module).status other)) :
      IsLinked (state.status other) := by
    rcases eq_or_ne other module with rfl | hne
    · rw [hmodule] at h
      exact absurd h (by decide)
    · rwa [hother hne] at h
  have hvisited {other : Nat} (hmem : other ∈ state.stack) : state.status other ≠ .unlinked :=
    hsearching.visited_of_mem hmem
  have hunlinked {other : Nat}
      (h : (Parser.enterModule state index module).status other = .unlinked) :
      state.status other = .unlinked := by
    rcases eq_or_ne other module with rfl | hne
    · exact hnew
    · rwa [hother hne] at h
  refine ⟨⟨fun other => ?_, fun other => ?_, fun other h required hrequests => ?_,
    fun other h => hsearching.linkedRecord other (hlinked h),
    fun other h => hsearching.unlinkedRecord other (hunlinked h), fun other h => ?_⟩,
    ?_, fun other hmem => ?_, fun other hmem => ?_,
    fun other h => hsearching.unlinkedBefore other (hunlinked h), hsearching.initialized⟩
  · change _ ↔ other ∈ module :: state.stack
    rw [mem_cons]
    rcases eq_or_ne other module with rfl | hne
    · exact iff_of_true hmodule (.inl rfl)
    · rw [hother hne, hsearching.onStack, or_iff_right hne]
  · rcases eq_or_ne other module with rfl | hne
    · rw [hmodule]
      exact nofun
    · rw [hother hne]
      exact hsearching.notEvaluating other
  · have hrequired := hsearching.closed other (hlinked h) required hrequests
    have hne : required ≠ module := by
      rintro rfl
      rw [hnew] at hrequired
      exact absurd hrequired (by decide)
    rwa [hother hne]
  · obtain ⟨hstatus, hrecord⟩ := hsearching.keeps other h
    have hne : other ≠ module := by
      rintro rfl
      rw [hnew] at hstatus
      rw [← hstatus] at h
      exact absurd h (by decide)
    exact ⟨(hother hne).trans hstatus, hrecord⟩
  · change (module :: state.stack).Pairwise _
    refine List.pairwise_cons.mpr ⟨fun other hmem => ?_, hsearching.sorted.imp_of_mem ?_⟩
    · rw [hkeeps.index other (hvisited hmem), hindex]
      exact hsearching.bounded other hmem
    · intro above below habove hbelow hlt
      rw [hkeeps.index above (hvisited habove), hkeeps.index below (hvisited hbelow)]
      exact hlt
  · rcases List.mem_cons.mp hmem with rfl | hmem
    · rw [hindex]
      exact Nat.lt_succ_self _
    · rw [hkeeps.index other (hvisited hmem)]
      exact Nat.lt_succ_of_lt (hsearching.bounded other hmem)
  · rcases List.mem_cons.mp hmem with rfl | hmem
    · rw [hindex, hancestor]
    · rw [hkeeps.index other (hvisited hmem), hkeeps.ancestor other (hvisited hmem)]
      exact hsearching.ancestor_le other hmem

/-- A visit that has come back: what is new on the stack is finished, and is a part of the
component of the module. -/
structure Visited (graph : ModuleGraph) (before state : LinkState) (module entry : Nat)
    (next : LinkState) (index : Nat) : Prop where
  searching : Searching graph before next index
  keeps : Keeps state next
  visited : next.status module ≠ .unlinked
  new : ∃ new, next.stack = new ++ state.stack ∧
    (∀ node ∈ new, Finished graph next node ∧ ancestorOf next module ≤ ancestorOf next node) ∧
    (new ≠ [] → module ∈ new ∧ ancestorOf next module < indexOf next module ∧
      indexOf next module = entry)

structure Failed (graph : ModuleGraph) (before : LinkState) (stack : List Nat) (module : Nat)
    (next : LinkState) (failure : Failure) : Prop where
  part : Partial graph before next
  stack : ∃ new, next.stack = new ++ stack
  onStack : module ∈ next.stack
  comesBack : failure ≠ .thrown .diverges

structure Scanning (graph : ModuleGraph) (before base : LinkState) (module entry : Nat)
    (followed : List ModuleRequest) (state : LinkState) (index : Nat) : Prop where
  searching : Searching graph before state index
  keeps : Keeps base state
  entered : indexOf state module = entry
  moduleRecord : state.moduleRecord module = none
  new : ∃ new, state.stack = new ++ module :: base.stack ∧
    ∀ node ∈ new, Finished graph state node ∧ ancestorOf state module ≤ ancestorOf state node
  followed : ∀ request ∈ followed, state.status (graph.resolve module request) ≠ .unlinked ∧
    (graph.resolve module request ∈ state.stack →
      ancestorOf state module ≤ indexOf state (graph.resolve module request))

theorem popComponent_append {module : Nat} (base : List Nat) :
    ∀ (new : List Nat) (status : Nat → ModuleStatus), module ∉ new →
      (popComponent module (new ++ module :: base) status).1 = base ∧
        ∀ other, (popComponent module (new ++ module :: base) status).2 other =
          if other ∈ new ++ [module] then .linked else status other
  | [], status, _ => by
      rw [nil_append, popComponent, if_pos rfl]
      refine ⟨rfl, fun other => ?_⟩
      dsimp only
      rw [nil_append, update_apply]
      simp only [mem_singleton]
  | top :: new, status, hnot => by
      have hne : top ≠ module := by
        rintro rfl
        exact hnot mem_cons_self
      rw [cons_append, popComponent, if_neg hne]
      obtain ⟨hstack, hstatus⟩ := popComponent_append base new
        (Function.update status top .linked) fun hmem => hnot (mem_cons_of_mem _ hmem)
      refine ⟨hstack, fun other => ?_⟩
      rw [hstatus, update_apply, cons_append]
      simp only [mem_cons]
      split
      · rw [if_pos (.inr ‹_›)]
      · split
        · rw [if_pos (.inl ‹_›)]
        · rename_i hrest hne
          rw [if_neg (not_or.mpr ⟨hne, hrest⟩)]

/-- The environment is there: the module is finished like those above it. -/
structure Completed (graph : ModuleGraph) (before base : LinkState) (module entry : Nat)
    (state : LinkState) (index : Nat) : Prop where
  searching : Searching graph before state index
  keeps : Keeps base state
  entered : indexOf state module = entry
  finished : Finished graph state module
  new : ∃ new, state.stack = new ++ module :: base.stack ∧
    ∀ node ∈ new, Finished graph state node ∧ ancestorOf state module ≤ ancestorOf state node

theorem Completed.leaveModule {graph : ModuleGraph} {before base state : LinkState}
    {module entry index : Nat} (hcompleted : Completed graph before base module entry state index)
    (hbase : Partial graph before base) :
    Visited graph before base module entry (leaveModule state module) index := by
  have hsearching := hcompleted.searching
  obtain ⟨new, hstack, hnew⟩ := hcompleted.new
  have hmem : module ∈ state.stack := by
    rw [hstack]
    exact mem_append_right _ mem_cons_self
  unfold Parser.leaveModule
  split
  · rename_i hroot
    have hnodup := hsearching.nodup
    rw [hstack, nodup_append] at hnodup
    obtain ⟨-, hbelow, hdisjoint⟩ := hnodup
    have hnot : module ∉ new := fun h => hdisjoint module h module mem_cons_self rfl
    obtain ⟨hpopped, hstatus⟩ := popComponent_append base.stack new state.status hnot
    rw [← hstack] at hpopped hstatus
    generalize popComponent module state.stack state.status = popped at hpopped hstatus ⊢
    obtain ⟨stack, status⟩ := popped
    subst hpopped
    dsimp only at hstatus ⊢
    -- no request of the component leads below it
    have hpart : ∀ node ∈ new ++ [module], Finished graph state node := by
      intro node hnode
      rcases List.mem_append.mp hnode with h | h
      · exact (hnew node h).1
      · rw [List.mem_singleton.mp h]
        exact hcompleted.finished
    have hclosed : ∀ node ∈ new ++ [module], ∀ required, Requests graph node required →
        required ∈ state.stack → required ∈ new ++ [module] := by
      rw [hstack]
      refine closed_of_ancestor_eq (hstack ▸ hsearching.sorted) ?_ (fun node h => (hnew node h).2)
        hroot
      intro node hnode required hrequests hrequired
      exact (hpart node hnode).ancestor_le required hrequests (hstack ▸ hrequired)
    have hlinking {other : Nat} (h : other ∈ new ++ [module]) :
        state.status other = .linking := by
      refine (hsearching.onStack other).mpr ?_
      rw [hstack]
      rcases List.mem_append.mp h with h | h
      · exact mem_append_left _ h
      · exact mem_append_right _ (List.mem_cons.mpr (.inl (List.mem_singleton.mp h)))
    have hbase_of_mem {other : Nat} (h : other ∈ new ++ [module]) : other ∉ base.stack := by
      intro hmem'
      rcases List.mem_append.mp h with h | h
      · exact hdisjoint other h other (mem_cons_of_mem _ hmem') rfl
      · rw [List.mem_singleton.mp h] at hmem'
        exact (List.nodup_cons.mp hbelow).1 hmem'
    have hkept {other : Nat} (h : other ∉ new ++ [module]) :
        status other = state.status other := by rw [hstatus, if_neg h]
    have hlinked_mono {other : Nat} (h : IsLinked (state.status other)) :
        IsLinked (status other) := by
      rw [hstatus]
      split
      · exact .inl rfl
      · exact h
    have hmem_stack {other : Nat} (h : other ∈ base.stack) : other ∈ state.stack := by
      rw [hstack]
      exact mem_append_right _ (mem_cons_of_mem _ h)
    have hunlinked {other : Nat} (h : status other = .unlinked) :
        state.status other = .unlinked := by
      rw [hstatus] at h
      split at h
      · cases h
      · exact h
    refine ⟨⟨⟨fun other => ?_, fun other => ?_, fun other h required hrequests => ?_,
      fun other h => ?_, fun other h => hsearching.unlinkedRecord other (hunlinked h),
      fun other h => ?_⟩, ?_, fun other h => hsearching.bounded other (hmem_stack h),
      fun other h => hsearching.ancestor_le other (hmem_stack h),
      fun other h => hsearching.unlinkedBefore other (hunlinked h), hsearching.initialized⟩,
      ?_, ?_, [], rfl, fun _ h => absurd h not_mem_nil, fun h => absurd rfl h⟩
    · dsimp only
      by_cases h : other ∈ new ++ [module]
      · rw [hstatus, if_pos h]
        exact iff_of_false nofun (hbase_of_mem h)
      · rw [hkept h, hsearching.onStack, hstack]
        rw [mem_append, mem_singleton, not_or] at h
        rw [mem_append, mem_cons, or_iff_right h.1, or_iff_right h.2]
    · dsimp only
      rw [hstatus]
      split
      · exact nofun
      · exact hsearching.notEvaluating other
    · dsimp only at h ⊢
      by_cases hother : other ∈ new ++ [module]
      · cases hcase : state.status required with
        | unlinked => exact absurd hcase ((hpart other hother).visited required hrequests)
        | linking =>
          have hin := hclosed other hother required hrequests
            ((hsearching.onStack required).mp hcase)
          rw [hstatus, if_pos hin]
          exact .inl rfl
        | linked => exact hlinked_mono (.inl hcase)
        | evaluating => exact absurd hcase (hsearching.notEvaluating required)
        | evaluated => exact hlinked_mono (.inr hcase)
      · rw [hkept hother] at h
        exact hlinked_mono (hsearching.closed other h required hrequests)
    · dsimp only at h ⊢
      by_cases hother : other ∈ new ++ [module]
      · exact (hpart other hother).moduleRecord
      · rw [hkept hother] at h
        exact hsearching.linkedRecord other h
    · dsimp only
      obtain ⟨hsame, hrecord⟩ := hsearching.keeps other h
      have hother : other ∉ new ++ [module] := by
        intro hin
        rw [hlinking hin] at hsame
        rw [← hsame] at h
        exact absurd h (by decide)
      exact ⟨(hkept hother).trans hsame, hrecord⟩
    · have hsorted := hsearching.sorted
      rw [hstack] at hsorted
      exact (List.pairwise_cons.mp (List.pairwise_append.mp hsorted).2.1).2
    · refine ⟨fun other h => ?_, hcompleted.keeps.moduleRecord, hcompleted.keeps.index,
        hcompleted.keeps.ancestor⟩
      have hsame := hcompleted.keeps.status other h
      have hother : other ∉ new ++ [module] := by
        intro hin
        rw [hlinking hin] at hsame
        exact hbase_of_mem hin ((hbase.onStack other).mp hsame.symm)
      exact (hkept hother).trans hsame
    · dsimp only
      rw [hstatus, if_pos (mem_append_right _ (mem_singleton_self _))]
      exact nofun
  · rename_i hroot
    refine ⟨hsearching, hcompleted.keeps, hsearching.visited_of_mem hmem, new ++ [module], ?_, ?_,
      fun _ => ⟨mem_append_right _ (mem_singleton_self _),
        Nat.lt_of_le_of_ne (hsearching.ancestor_le module hmem) hroot, hcompleted.entered⟩⟩
    · rw [hstack, append_assoc]
      rfl
    · intro node hnode
      rcases List.mem_append.mp hnode with h | h
      · exact hnew node h
      · rw [List.mem_singleton.mp h]
        exact ⟨hcompleted.finished, Nat.le_refl _⟩

variable {base : LinkState} {entry : Nat} {followed : List ModuleRequest}

theorem Scanning.mem_stack
    (hscanning : Scanning graph before base module entry followed state index) :
    module ∈ state.stack := by
  obtain ⟨new, hstack, -⟩ := hscanning.new
  rw [hstack]
  exact mem_append_right _ mem_cons_self

variable {result : LinkState × Option Failure}

theorem Scanning.completed
    (hscanning : Scanning graph before base module entry
      (graph.source module).requestedModules state index)
    (hbefore : before.status module = .unlinked) (hbase : base.status module = .unlinked)
    (hinitializes : Initializes graph host state module result) (hsucceeds : result.2 = none) :
    Completed graph before base module entry result.1 index := by
  obtain ⟨next, failure⟩ := result
  obtain ⟨status, dfsIndex, dfsAncestorIndex, moduleRecord, namespaces, stack, initialized⟩ := next
  have hstatus := hinitializes.status
  have hindex := hinitializes.dfsIndex
  have hancestor := hinitializes.dfsAncestorIndex
  have hstack := hinitializes.stack
  obtain ⟨hrecord, hinitialized⟩ := hinitializes.succeeds hsucceeds
  have hother := hinitializes.moduleRecord
  dsimp only at hstatus hindex hancestor hstack hrecord hinitialized hother
  subst hstatus hindex hancestor hstack
  have hsearching := hscanning.searching
  have hvisited := hsearching.visited_of_mem hscanning.mem_stack
  have hlinking := (hsearching.onStack module).mpr hscanning.mem_stack
  have hmono {node : Nat} (hfinished : Finished graph state node) (hne : node ≠ module) :
      Finished graph ⟨state.status, state.dfsIndex, state.dfsAncestorIndex, moduleRecord,
        namespaces, state.stack, initialized⟩ node := by
    refine ⟨?_, hfinished.visited, hfinished.ancestor_le⟩
    dsimp only
    rw [hother node hne]
    exact hfinished.moduleRecord
  have hne_linked {other : Nat} (h : IsLinked (state.status other)) : other ≠ module := by
    rintro rfl
    rw [hlinking] at h
    exact absurd h (by decide)
  refine ⟨⟨⟨hsearching.onStack, hsearching.notEvaluating, hsearching.closed, fun other h => ?_,
    fun other h => ?_, fun other h => ?_⟩, hsearching.sorted, hsearching.bounded,
    hsearching.ancestor_le, hsearching.unlinkedBefore, fun other => ?_⟩,
    ⟨hscanning.keeps.status, fun other h => ?_, hscanning.keeps.index, hscanning.keeps.ancestor⟩,
    hscanning.entered,
    ⟨hrecord, fun required ⟨request, hmem, heq⟩ => heq ▸ (hscanning.followed request hmem).1,
      fun required ⟨request, hmem, heq⟩ hrequired =>
        heq ▸ (hscanning.followed request hmem).2 (heq ▸ hrequired)⟩, ?_⟩
  · dsimp only at h ⊢
    rw [hother other (hne_linked h)]
    exact hsearching.linkedRecord other h
  · dsimp only at h ⊢
    rw [hother other (by
      rintro rfl
      exact hvisited h)]
    exact hsearching.unlinkedRecord other h
  · obtain ⟨hsame, hkept⟩ := hsearching.keeps other h
    refine ⟨hsame, ?_⟩
    dsimp only
    rw [hother other (hne_linked (hsame ▸ h))]
    exact hkept
  · dsimp only
    rw [hinitialized, count_cons]
    rcases eq_or_ne other module with rfl | hne
    · rw [hsearching.initialized, hscanning.moduleRecord, hrecord, hbefore]
      simp
    · rw [hsearching.initialized]
      simp only [hother other hne, beq_iff_eq, hne.symm, if_false, Nat.add_zero]
  · dsimp only
    rw [hother other (by
      rintro rfl
      exact h hbase)]
    exact hscanning.keeps.moduleRecord other h
  · obtain ⟨new, hstack, hnew⟩ := hscanning.new
    refine ⟨new, hstack, fun node hmem => ⟨hmono (hnew node hmem).1 ?_, (hnew node hmem).2⟩⟩
    rintro rfl
    have hnodup := hsearching.nodup
    rw [hstack, nodup_append] at hnodup
    exact hnodup.2.2 node hmem node mem_cons_self rfl

theorem Scanning.failed (hscanning : Scanning graph before base module entry followed state index)
    (hlt : module < graph.count) (hinitializes : Initializes graph host state module result)
    {failure : Failure} (hfails : result.2 = some failure) :
    Failed graph before base.stack module result.1 failure := by
  have hsearching := hscanning.searching
  have hlinking := (hsearching.onStack module).mpr hscanning.mem_stack
  have hne_linked {other : Nat} (h : IsLinked (state.status other)) : other ≠ module := by
    rintro rfl
    rw [hlinking] at h
    exact absurd h (by decide)
  refine ⟨⟨?_, ?_, ?_, fun other h => ?_, fun other h => ?_, fun other h => ?_⟩, ?_, ?_, ?_⟩
  · rw [hinitializes.status, hinitializes.stack]
    exact hsearching.onStack
  · rw [hinitializes.status]
    exact hsearching.notEvaluating
  · rw [hinitializes.status]
    exact hsearching.closed
  · rw [hinitializes.status] at h
    rw [hinitializes.moduleRecord other (hne_linked h)]
    exact hsearching.linkedRecord other h
  · rw [hinitializes.status] at h
    rw [hinitializes.moduleRecord other (by
      rintro rfl
      rw [hlinking] at h
      cases h)]
    exact hsearching.unlinkedRecord other h
  · obtain ⟨hsame, hkept⟩ := hsearching.keeps other h
    rw [hinitializes.status, hinitializes.moduleRecord other (hne_linked (hsame ▸ h))]
    exact ⟨hsame, hkept⟩
  · obtain ⟨new, hstack, -⟩ := hscanning.new
    rw [hinitializes.stack]
    exact ⟨new ++ [module], by rw [hstack, append_assoc]; rfl⟩
  · rw [hinitializes.stack]
    exact hscanning.mem_stack
  · rintro rfl
    exact hinitializes.comesBack hlt hfails

theorem ancestorOf_followRequest_of_ne {state : LinkState} {module required other : Nat}
    (hne : other ≠ module) :
    ancestorOf (followRequest state module required) other = ancestorOf state other := by
  unfold followRequest
  split
  · simp only [ancestorOf, update_of_ne hne]
  · rfl

theorem ancestorOf_followRequest_le (state : LinkState) (module required : Nat) :
    ancestorOf (followRequest state module required) module ≤ ancestorOf state module := by
  unfold followRequest
  split
  · simp only [ancestorOf, update_self, Option.getD_some]
    exact Nat.min_le_left _ _
  · exact Nat.le_refl _

theorem ancestorOf_followRequest_required {state : LinkState} {module required : Nat}
    (hlinking : state.status required = .linking) :
    ancestorOf (followRequest state module required) module ≤ ancestorOf state required := by
  unfold followRequest
  rw [if_pos hlinking]
  simp only [ancestorOf, update_self, Option.getD_some]
  exact Nat.min_le_right _ _

theorem followRequest_fields (state : LinkState) (module required : Nat) :
    (followRequest state module required).status = state.status ∧
      (followRequest state module required).dfsIndex = state.dfsIndex ∧
      (followRequest state module required).moduleRecord = state.moduleRecord ∧
      (followRequest state module required).namespaces = state.namespaces ∧
      (followRequest state module required).stack = state.stack ∧
      (followRequest state module required).initialized = state.initialized := by
  unfold followRequest
  split <;> exact ⟨rfl, rfl, rfl, rfl, rfl, rfl⟩

/-- What a visit gives: it comes back with all in order, or it has failed. -/
def VisitSpec (graph : ModuleGraph) (before state : LinkState) (entry module : Nat) :
    LinkState × Except Failure Nat → Prop
  | (next, .ok index) => Visited graph before state module entry next index
  | (next, .error failure) => Failed graph before state.stack module next failure

theorem Scanning.follow {entry' index' : Nat} {request : ModuleRequest}
    (hscanning : Scanning graph before base module entry followed state index)
    (hbase : base.status module = .unlinked)
    (hvisited : Visited graph before state (graph.resolve module request) entry' next index') :
    Scanning graph before base module entry (followed ++ [request])
      (followRequest next module (graph.resolve module request)) index' := by
  generalize hrequired : graph.resolve module request = required at hvisited ⊢
  obtain ⟨hstatus, hindex, hrecord, -, hstack, hinitialized⟩ :=
    followRequest_fields next module required
  have hle := ancestorOf_followRequest_le next module required
  have hrequired_le := @ancestorOf_followRequest_required next module required
  have hne {other : Nat} (h : other ≠ module) := @ancestorOf_followRequest_of_ne next module required
    other h
  generalize followRequest next module required = after at *
  have hstate := hscanning.searching
  have hnext := hvisited.searching
  have hkeeps := hvisited.keeps
  have hmem := hscanning.mem_stack
  have hmodule : state.status module ≠ .unlinked := hstate.visited_of_mem hmem
  obtain ⟨new, hnew_stack, hnew⟩ := hscanning.new
  obtain ⟨top, htop_stack, htop, hroot⟩ := hvisited.new
  have hindexOf (other : Nat) : indexOf after other = indexOf next other := by
    rw [indexOf, hindex]
    rfl
  have hstack' : after.stack = (top ++ new) ++ module :: base.stack := by
    rw [hstack, htop_stack, hnew_stack, append_assoc]
  have hnodup := hnext.nodup
  rw [← hstack, hstack'] at hnodup
  have hnode {node : Nat} (h : node ∈ top ++ new) : node ≠ module := by
    rintro rfl
    exact (List.nodup_append.mp hnodup).2.2 node h node mem_cons_self rfl
  have hsame : ancestorOf next module = ancestorOf state module := hkeeps.ancestor module hmodule
  have hancestor_le (other : Nat) : ancestorOf after other ≤ ancestorOf next other := by
    rcases eq_or_ne other module with rfl | h
    · exact hle
    · exact Nat.le_of_eq (hne h)
  have hfinished {node : Nat} (h : node ∈ top ++ new) (hold : Finished graph next node) :
      Finished graph after node := by
    refine ⟨?_, ?_, fun target hrequests htarget => ?_⟩
    · rw [hrecord]
      exact hold.moduleRecord
    · rw [hstatus]
      exact hold.visited
    · rw [hne (hnode h), hindexOf]
      exact hold.ancestor_le target hrequests (hstack ▸ htarget)
  refine ⟨⟨⟨?_, ?_, ?_, ?_, ?_, ?_⟩, ?_, ?_, fun other h => ?_, ?_, ?_⟩,
    ⟨fun other h => ?_, fun other h => ?_, fun other h => ?_, fun other h => ?_⟩, ?_, ?_,
    ⟨top ++ new, hstack', fun node h => ⟨?_, ?_⟩⟩, fun other h => ?_⟩
  · rw [hstatus, hstack]
    exact hnext.onStack
  · rw [hstatus]
    exact hnext.notEvaluating
  · rw [hstatus]
    exact hnext.closed
  · rw [hstatus, hrecord]
    exact hnext.linkedRecord
  · rw [hstatus, hrecord]
    exact hnext.unlinkedRecord
  · rw [hstatus, hrecord]
    exact hnext.keeps
  · rw [hstack]
    simp only [hindexOf]
    exact hnext.sorted
  · rw [hstack]
    simp only [hindexOf]
    exact hnext.bounded
  · rw [hindexOf]
    exact Nat.le_trans (hancestor_le other) (hnext.ancestor_le other (hstack ▸ h))
  · rw [hstatus]
    exact hnext.unlinkedBefore
  · rw [hinitialized, hrecord]
    exact hnext.initialized
  · rw [hstatus]
    exact (hscanning.keeps.trans hkeeps).status other h
  · rw [hrecord]
    exact (hscanning.keeps.trans hkeeps).moduleRecord other h
  · rw [hindexOf]
    exact (hscanning.keeps.trans hkeeps).index other h
  · rw [hne (by
      rintro rfl
      exact h hbase)]
    exact (hscanning.keeps.trans hkeeps).ancestor other h
  · rw [hindexOf, hkeeps.index module hmodule]
    exact hscanning.entered
  · rw [hrecord, hkeeps.moduleRecord module hmodule]
    exact hscanning.moduleRecord
  · refine hfinished h ?_
    rcases List.mem_append.mp h with h | h
    · exact (htop node h).1
    · have hin : node ∈ state.stack := by
        rw [hnew_stack]
        exact mem_append_left _ h
      exact (hnew node h).1.mono hkeeps hstate.toPartial hnext.toPartial
        (hstate.visited_of_mem hin)
  · rw [hne (hnode h)]
    rcases List.mem_append.mp h with h | h
    · -- what is new above the module is above what was asked for, which is on the stack
      have htop_ne : top ≠ [] := ne_nil_of_mem h
      have hin : required ∈ next.stack := by
        rw [htop_stack]
        exact mem_append_left _ (hroot htop_ne).1
      exact Nat.le_trans (hrequired_le ((hnext.onStack required).mpr hin)) (htop node h).2
    · have hin : node ∈ state.stack := by
        rw [hnew_stack]
        exact mem_append_left _ h
      rw [hkeeps.ancestor node (hstate.visited_of_mem hin)]
      exact Nat.le_trans (hsame ▸ hle) (hnew node h).2
  · rw [hstatus, hstack, hindexOf]
    rcases List.mem_append.mp h with h | h
    · obtain ⟨hseen, hbelow⟩ := hscanning.followed other h
      refine ⟨hkeeps.visited hseen, fun hin => ?_⟩
      rw [hkeeps.index _ hseen]
      exact Nat.le_trans (hsame ▸ hle)
        (hbelow (hkeeps.mem_stack hstate.toPartial hnext.toPartial hseen hin))
    · rw [List.mem_singleton.mp h, hrequired]
      exact ⟨hvisited.visited, fun hin =>
        Nat.le_trans (hrequired_le ((hnext.onStack required).mpr hin))
          (hnext.ancestor_le required hin)⟩

theorem linkRequests_spec {graph : ModuleGraph} (host : Host) {before base : LinkState}
    {module turns : Nat} {visit : LinkState → Nat → Nat → LinkState × Except Failure Nat}
    (hvisit : ∀ state index required, Searching graph before state index →
      required < graph.count → unvisited graph state < turns →
      VisitSpec graph before state index required (visit state index required))
    {entry : Nat} (hbase : base.status module = .unlinked) :
    ∀ (requests followed : List ModuleRequest) (state : LinkState) (index : Nat),
      Scanning graph before base module entry followed state index →
      unvisited graph state < turns →
      match linkRequests graph host visit module requests state index with
      | (next, .ok index) =>
        Scanning graph before base module entry (followed ++ requests) next index
      | (next, .error failure) => Failed graph before base.stack module next failure
  | [], followed, state, index, hscanning, _ => by
      rw [linkRequests, append_nil]
      exact hscanning
  | request :: requests, followed, state, index, hscanning, hturns => by
      have hsearching := hscanning.searching
      obtain ⟨new, hnew, -⟩ := hscanning.new
      have hstack : ∃ new, state.stack = new ++ base.stack :=
        ⟨new ++ [module], by rw [hnew, append_assoc]; rfl⟩
      rw [linkRequests]
      cases hload : loadModuleFromScript graph host module request with
      | error abort =>
        refine ⟨hsearching.toPartial, hstack, hscanning.mem_stack, ?_⟩
        simpa using ne_diverges_of_loadModuleFromScript hload
      | ok required =>
        have hrequired : graph.resolve module request = required := by
          unfold loadModuleFromScript at hload
          split at hload
          · cases hload
          · exact Except.ok.inj hload
        have hspec := hvisit state index required hsearching
          (lt_of_loadModuleFromScript hload) hturns
        dsimp only
        generalize visit state index required = result at hspec ⊢
        obtain ⟨next, failure | index'⟩ := result
        · obtain ⟨top, htop⟩ := hspec.stack
          obtain ⟨rest, hrest⟩ := hstack
          refine ⟨hspec.part, ⟨top ++ rest, ?_⟩, ?_, hspec.comesBack⟩
          · rw [htop, hrest, append_assoc]
          · rw [htop]
            exact mem_append_right _ hscanning.mem_stack
        · rw [← hrequired] at hspec ⊢
          have hrest := linkRequests_spec host hvisit hbase requests (followed ++ [request])
            (followRequest next module (graph.resolve module request)) index'
            (hscanning.follow hbase hspec) (by
              have hfields := followRequest_fields next module (graph.resolve module request)
              unfold unvisited
              rw [hfields.1]
              exact Nat.lt_of_le_of_lt (hspec.keeps.unvisited_le graph) hturns)
          rw [append_assoc] at hrest
          exact hrest

theorem innerModuleLinking_spec {graph : ModuleGraph} (host : Host) {before : LinkState} :
    ∀ (turns : Nat) (state : LinkState) (index module : Nat),
      Searching graph before state index → module < graph.count →
      unvisited graph state < turns →
      VisitSpec graph before state index module
        (innerModuleLinking graph host turns state index module)
  | 0, _, _, _, _, _, hturns => absurd hturns (Nat.not_lt_zero _)
  | turns + 1, state, index, module, hsearching, hlt, hturns => by
      rw [innerModuleLinking]
      split
      · rename_i hseen
        refine ⟨hsearching, Keeps.refl state, ?_, [], rfl, fun _ h => absurd h not_mem_nil,
          fun h => absurd rfl h⟩
        intro hunlinked
        rw [hunlinked] at hseen
        exact absurd hseen (by decide)
      · rename_i hseen
        have hnew : state.status module = .unlinked := by
          cases hcase : state.status module with
          | unlinked => rfl
          | linking => exact absurd (.inl hcase) hseen
          | linked => exact absurd (.inr (.inl hcase)) hseen
          | evaluating => exact absurd hcase (hsearching.notEvaluating module)
          | evaluated => exact absurd (.inr (.inr hcase)) hseen
        have hentered := hsearching.enterModule hnew
        have hkeeps := keeps_enterModule hnew index
        have hmodule : (enterModule state index module).status module = .linking := update_self ..
        have hscanning : Scanning graph before state module index []
            (enterModule state index module) (index + 1) :=
          ⟨hentered, hkeeps, by simp [indexOf, enterModule], hsearching.unlinkedRecord module hnew, ⟨[], rfl, nofun⟩, nofun⟩
        have hless : unvisited graph (enterModule state index module) < unvisited graph state :=
          unseen_lt (fun other h => by
              simp only [bne_iff_ne] at h ⊢
              exact hkeeps.visited h)
            (List.mem_range.mpr hlt) (by simp [hnew]) (by simp [hmodule])
        have hspec := linkRequests_spec host
          (fun state index required hstate hrequired hleft =>
            innerModuleLinking_spec host turns state index required hstate hrequired hleft)
          hnew (graph.source module).requestedModules [] _ _ hscanning (by omega)
        generalize linkRequests graph host (innerModuleLinking graph host turns) module
          (graph.source module).requestedModules (enterModule state index module) (index + 1) =
            result at hspec ⊢
        obtain ⟨scanned, failure | index'⟩ := result
        · exact hspec
        · dsimp only at hspec ⊢
          have hinitializes := moduleInitializeEnvironment_spec graph host scanned module
          generalize moduleInitializeEnvironment graph host scanned module = result
            at hinitializes ⊢
          obtain ⟨initialized, failure | failure⟩ := result
          · exact (hspec.completed (hsearching.unlinkedBefore module hnew) hnew hinitializes
              rfl).leaveModule hsearching.toPartial
          · exact hspec.failed hlt hinitializes rfl

/-- The modules that linking has visited are those of the search over the checks. -/
structure Sees (unlinked : Nat → Bool) (visited : List Nat) (state : LinkState) : Prop where
  unlinked_iff : ∀ module, state.status module = .unlinked ↔
    unlinked module = true ∧ module ∉ visited
  notEvaluating : ∀ module, state.status module ≠ .evaluating
  onStack : ∀ module ∈ state.stack, state.status module ≠ .unlinked

def Follows (graph : ModuleGraph) (host : Host) (unlinked : Nat → Bool)
    (namespaces : Nat → Option (List String)) (checks : List Nat × List LinkCheck)
    (result : LinkState × Except Failure Nat) : Prop :=
  result.2 = .error (.thrown .diverges) ∨ match firstFailure graph host checks.2 namespaces with
    | (namespaces, none) =>
      (∃ index, result.2 = .ok index) ∧ result.1.namespaces = namespaces ∧
        Sees unlinked checks.1 result.1
    | (_, some failure) => result.2 = .error failure

theorem firstFailure_append (graph : ModuleGraph) (host : Host) (after : List LinkCheck) :
    ∀ (checks : List LinkCheck) (namespaces : Nat → Option (List String)),
      firstFailure graph host (checks ++ after) namespaces =
        match firstFailure graph host checks namespaces with
        | (namespaces, none) => firstFailure graph host after namespaces
        | (namespaces, some failure) => (namespaces, some failure)
  | [], _ => rfl
  | .load module request :: checks, namespaces => by
      rw [cons_append, firstFailure, firstFailure]
      cases loadModuleFromScript graph host module request with
      | error abort => rfl
      | ok required => exact firstFailure_append graph host after checks namespaces
  | .environment module :: checks, namespaces => by
      rw [cons_append, firstFailure, firstFailure]
      obtain ⟨next, failure | failure⟩ := checkEnvironment graph host module namespaces
      · exact firstFailure_append graph host after checks next
      · rfl

variable {unlinked : Nat → Bool}

theorem Sees.followRequest {visited : List Nat} {state : LinkState}
    (hsees : Sees unlinked visited state) (module required : Nat) :
    Sees unlinked visited (followRequest state module required) := by
  obtain ⟨hstatus, -, -, -, hstack, -⟩ := followRequest_fields state module required
  refine ⟨?_, ?_, ?_⟩
  · rw [hstatus]
    exact hsees.unlinked_iff
  · rw [hstatus]
    exact hsees.notEvaluating
  · rw [hstatus, hstack]
    exact hsees.onStack

theorem Sees.enterModule {visited : List Nat} {state : LinkState}
    (hsees : Sees unlinked visited state) (index module : Nat) :
    Sees unlinked (module :: visited) (enterModule state index module) := by
  have hmodule : (Parser.enterModule state index module).status module = .linking := update_self ..
  have hother {other : Nat} (hne : other ≠ module) :
      (Parser.enterModule state index module).status other = state.status other :=
    update_of_ne hne _ _
  refine ⟨fun other => ?_, fun other => ?_, fun other hmem => ?_⟩
  · rcases eq_or_ne other module with rfl | hne
    · rw [hmodule]
      exact iff_of_false nofun fun h => h.2 mem_cons_self
    · rw [hother hne, hsees.unlinked_iff, mem_cons, not_or, and_iff_right hne]
  · rcases eq_or_ne other module with rfl | hne
    · rw [hmodule]
      exact nofun
    · rw [hother hne]
      exact hsees.notEvaluating other
  · rcases eq_or_ne other module with rfl | hne
    · rw [hmodule]
      exact nofun
    · rw [hother hne]
      exact hsees.onStack other ((List.mem_cons.mp hmem).resolve_left hne)

theorem popComponent_status (module : Nat) :
    ∀ (stack : List Nat) (status : Nat → ModuleStatus),
      (∀ other, (popComponent module stack status).2 other = status other ∨
        other ∈ stack ∧ (popComponent module stack status).2 other = .linked) ∧
      ∀ other ∈ (popComponent module stack status).1, other ∈ stack
  | [], status => ⟨fun _ => .inl rfl, fun _ h => h⟩
  | top :: stack, status => by
      have htop (other : Nat) : Function.update status top .linked other = status other ∨
          other ∈ top :: stack ∧ Function.update status top .linked other = .linked := by
        rcases eq_or_ne other top with rfl | hne
        · exact .inr ⟨mem_cons_self, update_self ..⟩
        · exact .inl (update_of_ne hne _ _)
      rw [popComponent]
      split
      · exact ⟨htop, fun other h => mem_cons_of_mem _ h⟩
      · obtain ⟨hstatus, hstack⟩ :=
          popComponent_status module stack (Function.update status top .linked)
        refine ⟨fun other => ?_, fun other h => mem_cons_of_mem _ (hstack other h)⟩
        rcases hstatus other with h | ⟨hmem, h⟩
        · rw [h]
          exact htop other
        · exact .inr ⟨mem_cons_of_mem _ hmem, h⟩

theorem Sees.leaveModule {visited : List Nat} {state : LinkState}
    (hsees : Sees unlinked visited state) (module : Nat) :
    Sees unlinked visited (leaveModule state module) := by
  unfold Parser.leaveModule
  split
  · obtain ⟨hstatus, hstack⟩ := popComponent_status module state.stack state.status
    refine ⟨fun other => ?_, fun other => ?_, fun other h => ?_⟩
    · rw [← hsees.unlinked_iff]
      rcases hstatus other with h | ⟨hmem, h⟩
      · dsimp only
        rw [h]
      · dsimp only
        rw [h]
        exact iff_of_false nofun (hsees.onStack other hmem)
    · dsimp only
      rcases hstatus other with h | ⟨-, h⟩
      · rw [h]
        exact hsees.notEvaluating other
      · rw [h]
        exact nofun
    · dsimp only
      rcases hstatus other with hsame | ⟨-, hlinked⟩
      · rw [hsame]
        exact hsees.onStack other (hstack other h)
      · rw [hlinked]
        exact nofun
  · exact hsees

theorem linkRequests_follows {graph : ModuleGraph} {host : Host} {unlinked : Nat → Bool}
    {visit : LinkState → Nat → Nat → LinkState × Except Failure Nat}
    {checks : List Nat → Nat → List Nat × List LinkCheck}
    (hvisit : ∀ state index required visited, Sees unlinked visited state →
      Follows graph host unlinked state.namespaces (checks visited required)
        (visit state index required)) (module : Nat) :
    ∀ (requests : List ModuleRequest) (state : LinkState) (index : Nat) (visited : List Nat),
      Sees unlinked visited state →
      Follows graph host unlinked state.namespaces (requestChecks graph checks module requests visited)
        (linkRequests graph host visit module requests state index)
  | [], state, index, visited, hsees => .inr ⟨⟨index, rfl⟩, rfl, hsees⟩
  | request :: requests, state, index, visited, hsees => by
      have hspec := hvisit state index (graph.resolve module request) visited hsees
      rw [linkRequests, requestChecks, Follows, cons_append, firstFailure]
      cases hload : loadModuleFromScript graph host module request with
      | error abort => exact .inr rfl
      | ok required =>
        have hrequired : graph.resolve module request = required := by
          unfold loadModuleFromScript at hload
          split at hload
          · cases hload
          · exact Except.ok.inj hload
        rw [hrequired] at hspec ⊢
        dsimp only
        rw [firstFailure_append]
        generalize visit state index required = result at hspec ⊢
        obtain ⟨next, outcome⟩ := result
        rcases hspec with hdiverges | hspec
        · dsimp only at hdiverges
          subst hdiverges
          exact .inl rfl
        generalize firstFailure graph host (checks visited required).2 state.namespaces = first
          at hspec ⊢
        obtain ⟨namespaces, failure | failure⟩ := first
        · obtain ⟨⟨index', hok⟩, hnamespaces, hnext⟩ := hspec
          dsimp only at hok hnamespaces
          subst hok
          subst hnamespaces
          have hrest := linkRequests_follows hvisit module requests
            (followRequest next module required) index' _ (hnext.followRequest module required)
          rw [(followRequest_fields next module required).2.2.2.1] at hrest
          exact hrest
        · dsimp only at hspec
          subst hspec
          exact .inr rfl

theorem innerModuleLinking_follows (graph : ModuleGraph) (host : Host) (unlinked : Nat → Bool) :
    ∀ (turns : Nat) (state : LinkState) (index module : Nat) (visited : List Nat),
      Sees unlinked visited state →
      Follows graph host unlinked state.namespaces (linkingChecks graph unlinked turns visited module)
        (innerModuleLinking graph host turns state index module)
  | 0, _, _, _, _, _ => .inl rfl
  | turns + 1, state, index, module, visited, hsees => by
      rw [innerModuleLinking, linkingChecks]
      by_cases hseen : state.status module = .linking ∨ state.status module = .linked ∨
          state.status module = .evaluated
      · rw [if_pos hseen, if_neg]
        · exact .inr ⟨⟨index, rfl⟩, rfl, hsees⟩
        · intro hnew
          rw [← hsees.unlinked_iff] at hnew
          rw [hnew] at hseen
          exact absurd hseen (by decide)
      · have hnew : state.status module = .unlinked := by
          cases hcase : state.status module with
          | unlinked => rfl
          | linking => exact absurd (.inl hcase) hseen
          | linked => exact absurd (.inr (.inl hcase)) hseen
          | evaluating => exact absurd hcase (hsees.notEvaluating module)
          | evaluated => exact absurd (.inr (.inr hcase)) hseen
        rw [if_neg hseen, if_pos ((hsees.unlinked_iff module).mp hnew)]
        have hspec := linkRequests_follows
          (fun state index required visited hstate =>
            innerModuleLinking_follows graph host unlinked turns state index required visited hstate)
          module (graph.source module).requestedModules _ (index + 1) _
          (hsees.enterModule index module)
        have hsame : (enterModule state index module).namespaces = state.namespaces := rfl
        rw [hsame] at hspec
        rw [Follows, firstFailure_append]
        generalize linkRequests graph host (innerModuleLinking graph host turns) module
          (graph.source module).requestedModules (enterModule state index module) (index + 1) =
            result at hspec ⊢
        generalize requestChecks graph (linkingChecks graph unlinked turns) module
          (graph.source module).requestedModules (module :: visited) = checks at hspec ⊢
        obtain ⟨scanned, outcome⟩ := result
        rcases hspec with hdiverges | hspec
        · dsimp only at hdiverges
          subst hdiverges
          exact .inl rfl
        generalize firstFailure graph host checks.2 state.namespaces = first at hspec ⊢
        obtain ⟨namespaces, failure | failure⟩ := first
        · obtain ⟨⟨index', hok⟩, hnamespaces, hscanned⟩ := hspec
          dsimp only at hok hnamespaces hscanned
          subst hok
          subst hnamespaces
          have hinitializes := moduleInitializeEnvironment_spec graph host scanned module
          dsimp only
          rw [firstFailure, ← hinitializes.checked]
          have hseen' : Sees unlinked checks.1
              (moduleInitializeEnvironment graph host scanned module).1 := by
            refine ⟨?_, ?_, ?_⟩
            · rw [hinitializes.status]
              exact hscanned.unlinked_iff
            · rw [hinitializes.status]
              exact hscanned.notEvaluating
            · rw [hinitializes.status, hinitializes.stack]
              exact hscanned.onStack
          generalize moduleInitializeEnvironment graph host scanned module = result at hseen' ⊢
          obtain ⟨initialized, failure | failure⟩ := result
          · refine .inr ⟨⟨index', rfl⟩, ?_, hseen'.leaveModule module⟩
            dsimp only
            unfold leaveModule
            split <;> rfl
          · exact .inr rfl
        · dsimp only at hspec
          subst hspec
          exact .inr rfl

structure Ready (graph : ModuleGraph) (state : LinkState) : Prop where
  noneLinking : ∀ module, state.status module ≠ .linking
  notEvaluating : ∀ module, state.status module ≠ .evaluating
  closed : ∀ module, IsLinked (state.status module) →
    ∀ required, Requests graph module required → IsLinked (state.status required)
  linkedRecord : ∀ module, IsLinked (state.status module) →
    (state.moduleRecord module).isSome = true
  unlinkedRecord : ∀ module, state.status module = .unlinked → state.moduleRecord module = none

theorem Ready.unlinked_or_linked (hready : Ready graph state) (module : Nat) :
    state.status module = .unlinked ∨ IsLinked (state.status module) := by
  cases hcase : state.status module with
  | unlinked => exact .inl rfl
  | linking => exact absurd hcase (hready.noneLinking module)
  | linked => exact .inr (.inl rfl)
  | evaluating => exact absurd hcase (hready.notEvaluating module)
  | evaluated => exact .inr (.inr rfl)

theorem Ready.searching (hready : Ready graph state) :
    Searching graph state { state with stack := [], initialized := [] } 0 where
  onStack module := iff_of_false (hready.noneLinking module) not_mem_nil
  notEvaluating := hready.notEvaluating
  closed := hready.closed
  linkedRecord := hready.linkedRecord
  unlinkedRecord := hready.unlinkedRecord
  keeps _ _ := ⟨rfl, rfl⟩
  sorted := .nil
  bounded _ h := absurd h not_mem_nil
  ancestor_le _ h := absurd h not_mem_nil
  unlinkedBefore _ h := h
  initialized module := by
    rw [if_neg]
    · rfl
    · rintro ⟨hunlinked, hrecord⟩
      rw [hready.unlinkedRecord module hunlinked] at hrecord
      cases hrecord

theorem Ready.sees (hready : Ready graph state) :
    Sees (fun module => state.status module = .unlinked) []
      { state with stack := [], initialized := [] } :=
  ⟨fun module => by simp, hready.notEvaluating, fun _ h => absurd h not_mem_nil⟩

theorem rollBack_spec :
    ∀ (stack : List Nat) (state : LinkState),
      (stack.foldl rollBackModule state).stack = state.stack ∧
      ∀ module, ((stack.foldl rollBackModule state).status module =
          if module ∈ stack then .unlinked else state.status module) ∧
        (stack.foldl rollBackModule state).moduleRecord module =
          if module ∈ stack then none else state.moduleRecord module
  | [], state => ⟨rfl, fun _ => ⟨rfl, rfl⟩⟩
  | top :: stack, state => by
      obtain ⟨hstack, hfields⟩ := rollBack_spec stack (rollBackModule state top)
      rw [foldl_cons]
      refine ⟨hstack, fun module => ?_⟩
      obtain ⟨hstatus, hrecord⟩ := hfields module
      rw [hstatus, hrecord]
      simp only [rollBackModule, update_apply, mem_cons]
      split
      · rw [if_pos (.inr ‹_›), if_pos (.inr ‹_›)]
        exact ⟨rfl, rfl⟩
      · split
        · rw [if_pos (.inl ‹_›), if_pos (.inl ‹_›)]
          exact ⟨rfl, rfl⟩
        · rw [if_neg (by simp [*]), if_neg (by simp [*])]
          exact ⟨rfl, rfl⟩

variable {root : Nat}

theorem Visited.allOrNothing
    (hvisited : Visited graph state { state with stack := [], initialized := [] } root 0 next
      index) : AllOrNothing graph state root (next, none) := by
  have hsearching := hvisited.searching
  obtain ⟨new, hstack, -, hroot⟩ := hvisited.new
  have hempty : next.stack = [] := by
    rw [hstack, append_nil]
    by_contra hne
    obtain ⟨-, hlt, hzero⟩ := hroot hne
    exact absurd hlt (by omega)
  have hnone (module : Nat) : next.status module ≠ .linking := by
    rw [Ne, hsearching.onStack, hempty]
    exact not_mem_nil
  have hcases (module : Nat) : next.status module = .unlinked ∨ IsLinked (next.status module) :=
    (Ready.mk hnone hsearching.notEvaluating hsearching.closed hsearching.linkedRecord
      hsearching.unlinkedRecord).unlinked_or_linked module
  refine ⟨nofun, hnone, fun _ module hreaches => ?_, fun h => absurd rfl h, hsearching.keeps,
    fun module => ?_⟩
  · have hlinked : IsLinked (next.status module) := by
      induction hreaches with
      | refl => exact (hcases root).resolve_left hvisited.visited
      | tail _ hrequests ih => exact hsearching.closed _ ih _ hrequests
    have hrecord := hsearching.linkedRecord module hlinked
    refine ⟨hlinked, hrecord, ?_⟩
    rw [hsearching.initialized]
    simp only [hrecord, and_true]
  · rcases hcases module with h | h
    · exact .inl ⟨h, hsearching.unlinkedRecord module h⟩
    · exact .inr ⟨h, hsearching.linkedRecord module h, hsearching.closed module h⟩

theorem Failed.allOrNothing {error : ModuleError}
    (hfailed : Failed graph state [] root next (.returned error)) :
    AllOrNothing graph state root (next.stack.foldl rollBackModule next, some (.returned error)) := by
  have hpart := hfailed.part
  obtain ⟨hstack, hfields⟩ := rollBack_spec next.stack next
  have hon {module : Nat} (h : module ∈ next.stack) :
      (next.stack.foldl rollBackModule next).status module = .unlinked ∧
        (next.stack.foldl rollBackModule next).moduleRecord module = none := by
    rw [(hfields module).1, (hfields module).2, if_pos h, if_pos h]
    exact ⟨rfl, rfl⟩
  have hoff {module : Nat} (h : module ∉ next.stack) :
      (next.stack.foldl rollBackModule next).status module = next.status module ∧
        (next.stack.foldl rollBackModule next).moduleRecord module = next.moduleRecord module := by
    rw [(hfields module).1, (hfields module).2, if_neg h, if_neg h]
    exact ⟨rfl, rfl⟩
  have hnot {module : Nat} (h : IsLinked (next.status module)) : module ∉ next.stack := by
    intro hmem
    rw [(hpart.onStack module).mpr hmem] at h
    exact absurd h (by decide)
  refine ⟨nofun, fun module => ?_, nofun, fun _ => ⟨?_, fun module h => ?_⟩, fun module h => ?_,
    fun module => ?_⟩
  · by_cases h : module ∈ next.stack
    · rw [(hon h).1]
      exact nofun
    · rw [(hoff h).1, Ne, hpart.onStack]
      exact h
  · change root ∈ (next.stack.foldl rollBackModule next).stack
    rw [hstack]
    exact hfailed.onStack
  · exact hon (hstack ▸ h)
  · obtain ⟨hsame, hrecord⟩ := hpart.keeps module h
    have hout := hnot (hsame ▸ h)
    exact ⟨(hoff hout).1.trans hsame, (hoff hout).2.trans hrecord⟩
  · by_cases h : module ∈ next.stack
    · exact .inl (hon h)
    · rw [(hoff h).1, (hoff h).2]
      cases hcase : next.status module with
      | unlinked => exact .inl ⟨rfl, hpart.unlinkedRecord module hcase⟩
      | linking => exact absurd ((hpart.onStack module).mp hcase) h
      | evaluating => exact absurd hcase (hpart.notEvaluating module)
      | linked =>
        have hlinked : IsLinked (next.status module) := .inl hcase
        refine .inr ⟨.inl rfl, hpart.linkedRecord module hlinked, fun required hrequests => ?_⟩
        have hrequired := hpart.closed module hlinked required hrequests
        rwa [(hoff (hnot hrequired)).1]
      | evaluated =>
        have hlinked : IsLinked (next.status module) := .inr hcase
        refine .inr ⟨.inr rfl, hpart.linkedRecord module hlinked, fun required hrequests => ?_⟩
        have hrequired := hpart.closed module hlinked required hrequests
        rwa [(hoff (hnot hrequired)).1]

/-- Linking leaves every module linked or as it was where the checks come to no exception, and only
there. -/
theorem Ready.moduleLinking {graph : ModuleGraph} {state : LinkState} (hready : Ready graph state)
    (host : Host) (hlt : root < graph.count) :
    AllOrNothing graph state root (moduleLinking graph host state root) ↔
      ThrowsNothing graph host state root := by
  have hspec := innerModuleLinking_spec host (graph.count + 1) _ 0 root hready.searching hlt (by
    refine Nat.lt_succ_of_le (Nat.le_trans countP_le_length ?_)
    rw [length_range])
  have hfollows := innerModuleLinking_follows graph host _ (graph.count + 1) _ 0 root []
    hready.sees
  unfold Parser.moduleLinking ThrowsNothing
  generalize innerModuleLinking graph host (graph.count + 1)
    { state with stack := [], initialized := [] } 0 root = result at hspec hfollows ⊢
  obtain ⟨next, outcome⟩ := result
  have hsame : ({ state with stack := [], initialized := [] } : LinkState).namespaces =
    state.namespaces := rfl
  rw [Follows, hsame] at hfollows
  generalize firstFailure graph host (linkingChecks graph (fun module =>
    state.status module = .unlinked) (graph.count + 1) [] root).2 state.namespaces = first
      at hfollows ⊢
  obtain ⟨namespaces, failure | failure⟩ := first
  · rcases hfollows with hdiverges | ⟨⟨index, hok⟩, -, -⟩
    · dsimp only at hdiverges
      subst hdiverges
      exact absurd rfl hspec.comesBack
    · dsimp only at hok
      subst hok
      exact iff_of_true hspec.allOrNothing nofun
  · rcases hfollows with hdiverges | hfails
    · dsimp only at hdiverges
      subst hdiverges
      exact absurd rfl hspec.comesBack
    · dsimp only at hfails
      subst hfails
      cases failure with
      | returned error => exact iff_of_true hspec.allOrNothing nofun
      | thrown abort =>
        cases abort with
        | diverges => exact absurd rfl hspec.comesBack
        | exception error =>
          refine iff_of_false (fun h => ?_) fun h => h error rfl
          exact h.noneLinking root ((hspec.part.onStack root).mpr hspec.onStack)

inductive LinkOp
  | link (root : Nat) (host : Host)
  | evaluate (modules : List Nat)

/-- `moduleLinking` asserts that its root is not in the middle of something. -/
def linkStep (graph : ModuleGraph) (state : LinkState) :
    LinkOp → Option (LinkState × Option Failure)
  | .link root host =>
    if root < graph.count ∧ state.status root ≠ .linking ∧ state.status root ≠ .evaluating then
      some (moduleLinking graph host state root)
    else none
  | .evaluate modules =>
    some ({ state with
      status := fun module =>
        if module ∈ modules ∧ state.status module = .linked then .evaluated
        else state.status module }, none)

def parsed (graph : ModuleGraph) : LinkState where
  status module := if (graph.source module).isSynthetic then .linked else .unlinked
  dfsIndex _ := none
  dfsAncestorIndex _ := none
  moduleRecord module := if (graph.source module).isSynthetic then some [] else none
  namespaces _ := none
  stack := []
  initialized := []

def LinkCondition (graph : ModuleGraph) (state : LinkState) : LinkOp → Prop
  | .link root host => ThrowsNothing graph host state root
  | .evaluate _ => True

theorem ready_parsed (graph : ModuleGraph) : Ready graph (parsed graph) := by
  refine ⟨fun module => ?_, fun module => ?_, fun module h required hrequests => ?_,
    fun module h => ?_, fun module h => ?_⟩
  · unfold parsed
    dsimp only
    split <;> exact nofun
  · unfold parsed
    dsimp only
    split <;> exact nofun
  · unfold parsed at h
    dsimp only at h
    split at h
    · obtain ⟨request, hmem, -⟩ := hrequests
      rw [graph.synthetic_requests module ‹_›] at hmem
      exact absurd hmem not_mem_nil
    · exact absurd h (by decide)
  · unfold parsed at h ⊢
    dsimp only at h ⊢
    split at h
    · rw [if_pos ‹_›]
      rfl
    · exact absurd h (by decide)
  · unfold parsed at h ⊢
    dsimp only at h ⊢
    split at h
    · cases h
    · rw [if_neg ‹_›]

theorem AllOrNothing.ready (hresult : AllOrNothing graph before root result) :
    Ready graph result.1 := by
  have hlinked {module : Nat} (h : IsLinked (result.1.status module)) :
      (result.1.moduleRecord module).isSome = true ∧
        ∀ required, Requests graph module required → IsLinked (result.1.status required) := by
    rcases hresult.isReady module with ⟨hunlinked, -⟩ | ⟨-, hrest⟩
    · rw [hunlinked] at h
      exact absurd h (by decide)
    · exact hrest
  refine ⟨hresult.noneLinking, fun module h => ?_, fun module h => (hlinked h).2,
    fun module h => (hlinked h).1, fun module h => ?_⟩
  · rcases hresult.isReady module with ⟨hunlinked, -⟩ | ⟨hother, -⟩
    · rw [h] at hunlinked
      cases hunlinked
    · rw [h] at hother
      exact absurd hother (by decide)
  · rcases hresult.isReady module with ⟨-, hrecord⟩ | ⟨hother, -⟩
    · exact hrecord
    · rw [h] at hother
      exact absurd hother (by decide)

theorem Ready.step {op : LinkOp} {outcome : Option Failure} (hready : Ready graph state)
    (hcondition : LinkCondition graph state op)
    (hstep : linkStep graph state op = some (next, outcome)) : Ready graph next := by
  cases op with
  | link root host =>
    simp only [linkStep] at hstep
    split at hstep
    · rename_i hruns
      have hresult := (hready.moduleLinking host hruns.1).mpr hcondition
      rw [Option.some.inj hstep] at hresult
      exact hresult.ready
    · cases hstep
  | evaluate modules =>
    cases hstep
    have hlinked {module : Nat} :
        IsLinked (if module ∈ modules ∧ state.status module = .linked then .evaluated
          else state.status module) ↔ IsLinked (state.status module) := by
      split
      · rename_i h
        exact iff_of_true (.inr rfl) (.inl h.2)
      · rfl
    refine ⟨fun module => ?_, fun module => ?_, fun module h required hrequests => ?_,
      fun module h => hready.linkedRecord module (hlinked.mp h), fun module h => ?_⟩
    · dsimp only
      split
      · exact nofun
      · exact hready.noneLinking module
    · dsimp only
      split
      · exact nofun
      · exact hready.notEvaluating module
    · exact hlinked.mpr (hready.closed module (hlinked.mp h) required hrequests)
    · dsimp only at h
      split at h
      · cases h
      · exact hready.unlinkedRecord module h

/-- After every run of linkings that come to no exception, one more linking is all or nothing
if and only if its checks come to no exception. -/
theorem linking_is_all_or_nothing {graph : ModuleGraph} {state : LinkState}
    (hreached : ReachedBy (linkStep graph) (LinkCondition graph) (parsed graph) state)
    (host : Host) {root : Nat} (hlt : root < graph.count) :
    AllOrNothing graph state root (moduleLinking graph host state root) ↔
      ThrowsNothing graph host state root :=
  (hreached.invariant (ready_parsed graph) Ready.step).moduleLinking host hlt

def sampleGraph (importName : String) : ModuleGraph where
  count := 3
  source module :=
    { srcName := "m"
      isSynthetic := false
      isAsync := false
      requestedModules := [⟨if module = 0 then "1" else "0", .es⟩]
      importEntries := if module = 2 then [⟨⟨"0", .es⟩, importName, "y"⟩] else []
      localExportEntries := []
      indirectExportEntries := []
      starExportEntries := []
      identifiers := ["y"] }
  resolve _ request := if request.specifier = "1" then 1 else 0
  resolve_lt _ request := by split <;> decide
  synthetic_requests _ h := nomatch h

/-- A missing name is returned as an error: the component below is linked, and linking can be
tried again. -/
theorem linking_is_rolled_back :
    ∃ state, ReachedBy (linkStep (sampleGraph "x")) (LinkCondition (sampleGraph "x"))
        (parsed (sampleGraph "x")) state ∧
      state.status 0 = .linked ∧ state.status 1 = .linked ∧ state.status 2 = .unlinked ∧
      AllOrNothing (sampleGraph "x") state 2
        (moduleLinking (sampleGraph "x") (fun _ _ => none) state 2) := by
  have hfails {state : LinkState} (h : (firstFailure (sampleGraph "x") (fun _ _ => none)
      (linkingChecks (sampleGraph "x") (fun module => state.status module = .unlinked) 4 [] 2).2
      state.namespaces).2 = some (.returned (.syntaxError
        "The requested module '0' does not provide an export named 'y'"))) :
      ThrowsNothing (sampleGraph "x") (fun _ _ => none) state 2 := by
    intro error herror
    rw [show (sampleGraph "x").count + 1 = 4 from rfl, h] at herror
    cases herror
  have hreached : ReachedBy (linkStep (sampleGraph "x")) (LinkCondition (sampleGraph "x"))
      (parsed (sampleGraph "x"))
      (moduleLinking (sampleGraph "x") (fun _ _ => none) (parsed (sampleGraph "x")) 2).1 :=
    ⟨[.link 2 fun _ _ => none], _, ⟨hfails (by decide +kernel), fun _ _ _ => trivial⟩, rfl⟩
  exact ⟨_, hreached, by decide +kernel, by decide +kernel, by decide +kernel,
    (linking_is_all_or_nothing hreached _ (by decide)).mpr (hfails (by decide +kernel))⟩

/-- A missing default export is thrown, and so is the error of a host that cannot load: each
leaves the root in the middle. -/
theorem linking_is_left_in_the_middle :
    (moduleLinking (sampleGraph "default") (fun _ _ => none) (parsed (sampleGraph "default"))
        2).1.status 2 = .linking ∧
      ¬ AllOrNothing (sampleGraph "default") (parsed (sampleGraph "default")) 2
        (moduleLinking (sampleGraph "default") (fun _ _ => none) (parsed (sampleGraph "default"))
          2) ∧
      (moduleLinking (sampleGraph "x") (fun _ _ => some (.loadError 0 "Error reading"))
        (parsed (sampleGraph "x")) 0).1.status 0 = .linking ∧
      ¬ AllOrNothing (sampleGraph "x") (parsed (sampleGraph "x")) 0
        (moduleLinking (sampleGraph "x") (fun _ _ => some (.loadError 0 "Error reading"))
          (parsed (sampleGraph "x")) 0) := by
  refine ⟨by decide +kernel, fun h => h.noneLinking 2 (by decide +kernel), by decide +kernel,
    fun h => h.noneLinking 0 (by decide +kernel)⟩

end Escargot.Parser
