/-
# Module records

What a parsed module asks of other modules, and how its exports are resolved.
A request is loaded by the host, which can refuse it, and the error is thrown
through whatever asked. Export resolution walks re-exports, which can form
cycles: the set of pairs that were tried is what ends it. Here that is a number
of turns, shown to be enough.
-/

import Escargot.Foundation.DepthFirst

namespace Escargot.Parser

open List Escargot.Foundation

inductive ModuleType
  | es
  | json
  deriving DecidableEq

structure ModuleRequest where
  specifier : String
  type : ModuleType
  deriving DecidableEq

structure ImportEntry where
  moduleRequest : ModuleRequest
  importName : String
  localName : String

/-- An entry of `m_localExportEntries`. -/
structure LocalExportEntry where
  exportName : String
  localName : String

/-- An entry of `m_indirectExportEntries`. -/
structure IndirectExportEntry where
  exportName : String
  moduleRequest : ModuleRequest
  importName : String

/-- An entry of `m_starExportEntries`. -/
structure StarExportEntry where
  moduleRequest : ModuleRequest

/-- What the parser makes of a module. A synthetic one has no `m_topCodeBlock`, which is
`isAsync` where the module has an await of its own. -/
structure ModuleSource where
  srcName : String
  isSynthetic : Bool
  isAsync : Bool
  requestedModules : List ModuleRequest
  importEntries : List ImportEntry
  localExportEntries : List LocalExportEntry
  indirectExportEntries : List IndirectExportEntry
  starExportEntries : List StarExportEntry
  identifiers : List String

/-- The modules there are, by their numbers, and which of them the host gives for a request of a
module where it gives one. A synthetic module requests nothing. -/
structure ModuleGraph where
  count : Nat
  source : Nat → ModuleSource
  resolve : Nat → ModuleRequest → Nat
  resolve_lt : ∀ module request, resolve module request < count
  synthetic_requests : ∀ module, (source module).isSynthetic = true →
    (source module).requestedModules = []

def Requests (graph : ModuleGraph) (module required : Nat) : Prop :=
  ∃ request ∈ (graph.source module).requestedModules, graph.resolve module request = required

/-- `LoadModuleResult` without a script, as an error that is thrown, or a `SyntaxError`. -/
inductive ModuleError
  | loadError (errorCode : Nat) (message : String)
  | syntaxError (message : String)
  deriving DecidableEq

/-- `onLoadModule`: the error with which the host refuses a request. -/
abbrev Host := Nat → ModuleRequest → Option ModuleError

/-- Why a function does not return: an exception, or the turns are used up. -/
inductive Abort
  | exception (error : ModuleError)
  | diverges
  deriving DecidableEq

def loadModuleFromScript (graph : ModuleGraph) (host : Host) (module : Nat)
    (request : ModuleRequest) : Except Abort Nat :=
  match host module request with
  | some error => .error (.exception error)
  | none => .ok (graph.resolve module request)

variable {graph : ModuleGraph} {module : Nat}
  {host : Host} {required : Nat} {request : ModuleRequest}

theorem lt_of_loadModuleFromScript
    (hload : loadModuleFromScript graph host module request = .ok required) :
    required < graph.count := by
  unfold loadModuleFromScript at hload
  split at hload
  · cases hload
  · cases hload
    exact graph.resolve_lt module request

theorem ne_diverges_of_loadModuleFromScript
    {abort : Abort} (hload : loadModuleFromScript graph host module request = .error abort) :
    abort ≠ .diverges := by
  unfold loadModuleFromScript at hload
  split at hload
  · cases hload
    exact nofun
  · cases hload

inductive ResolveExportResult
  | null
  | record (module : Nat) (bindingName : String)
  | ambiguous
  deriving DecidableEq

/-- The pairs that a resolution has tried. -/
abbrev ResolveSet := List (Nat × String)

def resolveStarExports (graph : ModuleGraph) (host : Host)
    (resolveExport : Nat → ResolveSet → ResolveSet × Except Abort ResolveExportResult)
    (module : Nat) :
    List StarExportEntry → ResolveSet → ResolveExportResult →
      ResolveSet × Except Abort ResolveExportResult
  | [], resolveSet, starResolution => (resolveSet, .ok starResolution)
  | e :: entries, resolveSet, starResolution =>
    match loadModuleFromScript graph host module e.moduleRequest with
    | .error abort => (resolveSet, .error abort)
    | .ok importedModule =>
      match resolveExport importedModule resolveSet with
      | (resolveSet, .error abort) => (resolveSet, .error abort)
      | (resolveSet, .ok .ambiguous) => (resolveSet, .ok .ambiguous)
      | (resolveSet, .ok .null) =>
        resolveStarExports graph host resolveExport module entries resolveSet starResolution
      | (resolveSet, .ok resolution) =>
        if starResolution = .null then
          resolveStarExports graph host resolveExport module entries resolveSet resolution
        else if resolution ≠ starResolution then (resolveSet, .ok .ambiguous)
        else
          resolveStarExports graph host resolveExport module entries resolveSet
            starResolution

/-- `Script::resolveExport`. A default export that is missing is thrown as an exception. -/
def resolveExport (graph : ModuleGraph) (host : Host) :
    Nat → Nat → String → ResolveSet → ResolveSet × Except Abort ResolveExportResult
  | 0, _, _, resolveSet => (resolveSet, .error .diverges)
  | turns + 1, module, exportName, resolveSet =>
    if (module, exportName) ∈ resolveSet then (resolveSet, .ok .null)
    else
      let resolveSet := resolveSet ++ [(module, exportName)]
      let source := graph.source module
      match source.localExportEntries.find? (·.exportName = exportName) with
      | some e => (resolveSet, .ok (.record module e.localName))
      | none =>
        if source.isSynthetic then (resolveSet, .ok .null)
        else
          match source.indirectExportEntries.find? (·.exportName = exportName) with
          | some e =>
            match loadModuleFromScript graph host module e.moduleRequest with
            | .error abort => (resolveSet, .error abort)
            | .ok importedModule =>
              if e.importName = "*" then
                (resolveSet, .ok (.record importedModule "*namespace*"))
              else resolveExport graph host turns importedModule e.importName resolveSet
          | none =>
            if exportName = "default" then
              (resolveSet, .error (.exception (.syntaxError ("The module '" ++
                source.srcName ++ "' does not provide an export named 'default'"))))
            else
              resolveStarExports graph host
                (fun importedModule => resolveExport graph host turns importedModule
                  exportName) module source.starExportEntries resolveSet .null

def exportedStarNames (graph : ModuleGraph) (host : Host)
    (exportedNames : Nat → List Nat → List Nat × Except Abort (List String)) (module : Nat) :
    List StarExportEntry → List Nat → List String → List Nat × Except Abort (List String)
  | [], exportStarSet, names => (exportStarSet, .ok names)
  | e :: entries, exportStarSet, names =>
    match loadModuleFromScript graph host module e.moduleRequest with
    | .error abort => (exportStarSet, .error abort)
    | .ok requestedModule =>
      match exportedNames requestedModule exportStarSet with
      | (exportStarSet, .error abort) => (exportStarSet, .error abort)
      | (exportStarSet, .ok starNames) =>
        exportedStarNames graph host exportedNames module entries exportStarSet
          (starNames.foldl
            (fun names name =>
              if name ≠ "default" ∧ name ∉ names then names ++ [name] else names) names)

def exportedNames (graph : ModuleGraph) (host : Host) :
    Nat → Nat → List Nat → List Nat × Except Abort (List String)
  | 0, _, exportStarSet => (exportStarSet, .error .diverges)
  | turns + 1, module, exportStarSet =>
    if module ∈ exportStarSet then (exportStarSet, .ok [])
    else
      let source := graph.source module
      exportedStarNames graph host (exportedNames graph host turns) module
        source.starExportEntries (exportStarSet ++ [module])
        (source.localExportEntries.map LocalExportEntry.exportName ++
          source.indirectExportEntries.map IndirectExportEntry.exportName)

/-- The names that re-exports ask for. -/
def reexportedNames (graph : ModuleGraph) : List String :=
  (List.range graph.count).flatMap fun module =>
    (graph.source module).indirectExportEntries.map IndirectExportEntry.importName

def resolveTurns (graph : ModuleGraph) : Nat :=
  graph.count * ((reexportedNames graph).length + 1) + 1

def resolveExportOf (graph : ModuleGraph) (host : Host) (module : Nat) (exportName : String) :
    Except Abort ResolveExportResult :=
  (resolveExport graph host (resolveTurns graph) module exportName []).2

/-- The constructor of `ModuleNamespaceObject`, over the names that are exported. -/
def unambiguousNames (graph : ModuleGraph) (host : Host) (module : Nat) :
    List String → Except Abort (List String)
  | [] => .ok []
  | name :: names =>
    match resolveExportOf graph host module name with
    | .error abort => .error abort
    | .ok .null => .error (.exception (.syntaxError ("Exported name '" ++ name ++ "' is null")))
    | .ok .ambiguous => unambiguousNames graph host module names
    | .ok (.record _ _) => (unambiguousNames graph host module names).map (name :: ·)

/-- `new ModuleNamespaceObject`, up to the order of its names. -/
def moduleNamespaceObject (graph : ModuleGraph) (host : Host) (module : Nat) :
    Except Abort (List String) :=
  match (exportedNames graph host (graph.count + 1) module []).2 with
  | .error abort => .error abort
  | .ok names => unambiguousNames graph host module names

def triedPairs (graph : ModuleGraph) (exportName : String) : ResolveSet :=
  List.range graph.count ×ˢ (exportName :: reexportedNames graph)

theorem length_triedPairs (graph : ModuleGraph) (exportName : String) :
    (triedPairs graph exportName).length + 1 = resolveTurns graph := by
  rw [triedPairs, length_product, length_range, length_cons, resolveTurns]

theorem mem_triedPairs {exportName name : String} : (module, name) ∈ triedPairs graph exportName ↔
      module < graph.count ∧ (name = exportName ∨ name ∈ reexportedNames graph) := by
  rw [triedPairs, mem_product, mem_range, mem_cons]

theorem importName_mem_reexportedNames (hlt : module < graph.count) {e : IndirectExportEntry}
    (hmem : e ∈ (graph.source module).indirectExportEntries) :
    e.importName ∈ reexportedNames graph :=
  List.mem_flatMap.mpr ⟨module, List.mem_range.mpr hlt, List.mem_map_of_mem hmem⟩

/-- A resolution that does not run out of turns, and leaves the pairs tried so far. -/
def TriesOn {α β : Type} (all : List α) (turns : Nat) (result : List α × Except Abort β) : Prop :=
  Tries all turns result.1 ∧ result.2 ≠ .error .diverges

theorem resolveStarExports_triesOn {graph : ModuleGraph} (host : Host) {exportName : String}
    {turns : Nat} {resolve : Nat → ResolveSet → ResolveSet × Except Abort ResolveExportResult}
    (hresolve : ∀ importedModule < graph.count, ∀ resolveSet,
      Tries (triedPairs graph exportName) turns resolveSet →
      TriesOn (triedPairs graph exportName) turns (resolve importedModule resolveSet))
    (module : Nat) :
    ∀ (entries : List StarExportEntry) (resolveSet : ResolveSet)
      (starResolution : ResolveExportResult),
      Tries (triedPairs graph exportName) turns resolveSet →
      TriesOn (triedPairs graph exportName) turns
        (resolveStarExports graph host resolve module entries resolveSet starResolution)
  | [], resolveSet, starResolution, htries => ⟨htries, by simp [resolveStarExports]⟩
  | e :: entries, resolveSet, starResolution, htries => by
      rw [resolveStarExports]
      split
      · rename_i abort hload
        exact ⟨htries, by simpa using ne_diverges_of_loadModuleFromScript hload⟩
      · rename_i importedModule hload
        obtain ⟨htried, hreturns⟩ :=
          hresolve importedModule (lt_of_loadModuleFromScript hload) resolveSet htries
        split
        · rename_i next abort hresult
          rw [hresult] at htried hreturns
          exact ⟨htried, by simpa using hreturns⟩
        · rename_i next hresult
          rw [hresult] at htried
          exact ⟨htried, by simp⟩
        · rename_i next hresult
          rw [hresult] at htried
          exact resolveStarExports_triesOn host hresolve module entries next starResolution htried
        · rename_i next resolution hambiguous hnull hresult
          rw [hresult] at htried
          split
          · exact resolveStarExports_triesOn host hresolve module entries next resolution htried
          · split
            · exact ⟨htried, by simp⟩
            · exact resolveStarExports_triesOn host hresolve module entries next starResolution htried

theorem resolveExport_triesOn (graph : ModuleGraph) (host : Host) (exportName : String) :
    ∀ (turns module : Nat) (name : String) (resolveSet : ResolveSet),
      (module, name) ∈ triedPairs graph exportName →
      Tries (triedPairs graph exportName) turns resolveSet →
      TriesOn (triedPairs graph exportName) turns
        (resolveExport graph host turns module name resolveSet)
  | 0, _, _, _, _, htries => absurd rfl htries.turns_ne_zero
  | turns + 1, module, name, resolveSet, hmem, htries => by
      rw [resolveExport]
      split
      · exact ⟨htries, by simp⟩
      rename_i hnew
      have hnext := htries.concat hmem hnew
      have hlt := (mem_triedPairs.mp hmem).1
      dsimp only
      split
      · exact ⟨hnext.succ, by simp⟩
      split
      · exact ⟨hnext.succ, by simp⟩
      split
      · rename_i e hfind
        split
        · rename_i abort hload
          exact ⟨hnext.succ, by simpa using ne_diverges_of_loadModuleFromScript hload⟩
        · rename_i importedModule hload
          split
          · exact ⟨hnext.succ, by simp⟩
          · have hname := importName_mem_reexportedNames hlt (mem_of_find?_eq_some hfind)
            have hpair : (importedModule, e.importName) ∈ triedPairs graph exportName :=
              mem_triedPairs.mpr ⟨lt_of_loadModuleFromScript hload, .inr hname⟩
            have hrest := resolveExport_triesOn graph host exportName turns importedModule
              e.importName _ hpair hnext
            exact ⟨hrest.1.succ, hrest.2⟩
      · split
        · exact ⟨hnext.succ, by simp⟩
        · have hrest := resolveStarExports_triesOn host
            (fun importedModule hlt' set hset => resolveExport_triesOn graph host exportName turns
              importedModule name set
              (mem_triedPairs.mpr ⟨hlt', (mem_triedPairs.mp hmem).2⟩) hset)
            module (graph.source module).starExportEntries _ .null hnext
          exact ⟨hrest.1.succ, hrest.2⟩

theorem resolveExportOf_ne_diverges (hlt : module < graph.count) (host : Host)
    (exportName : String) :
    resolveExportOf graph host module exportName ≠ .error .diverges := by
  refine (resolveExport_triesOn graph host exportName (resolveTurns graph) module exportName []
    (mem_triedPairs.mpr ⟨hlt, .inl rfl⟩) (Tries.nil ?_)).2
  rw [← length_triedPairs graph exportName]
  exact Nat.lt_succ_self _

theorem resolveStarExports_lt {graph : ModuleGraph} {host : Host}
    {resolve : Nat → ResolveSet → ResolveSet × Except Abort ResolveExportResult}
    (hresolve : ∀ importedModule < graph.count, ∀ resolveSet target bindingName,
      (resolve importedModule resolveSet).2 = .ok (.record target bindingName) →
      target < graph.count)
    (module : Nat) {target : Nat} {bindingName : String} :
    ∀ (entries : List StarExportEntry) (resolveSet : ResolveSet)
      (starResolution : ResolveExportResult),
      (∀ target bindingName, starResolution = .record target bindingName → target < graph.count) →
      (resolveStarExports graph host resolve module entries resolveSet starResolution).2 =
        .ok (.record target bindingName) → target < graph.count
  | [], _, starResolution, hstar, hresult => hstar target bindingName (Except.ok.inj hresult)
  | e :: entries, resolveSet, starResolution, hstar, hresult => by
      rw [resolveStarExports] at hresult
      split at hresult
      · cases hresult
      · rename_i importedModule hload
        have hlt := lt_of_loadModuleFromScript hload
        split at hresult
        · cases hresult
        · cases hresult
        · exact resolveStarExports_lt hresolve module entries _ starResolution hstar hresult
        · rename_i next resolution hambiguous hnull hnext
          split at hresult
          · refine resolveStarExports_lt hresolve module entries _ resolution ?_ hresult
            rintro other name rfl
            exact hresolve importedModule hlt resolveSet other name (by rw [hnext])
          · split at hresult
            · cases hresult
            · exact resolveStarExports_lt hresolve module entries _ starResolution hstar hresult

theorem resolveExport_lt (graph : ModuleGraph) (host : Host) :
    ∀ (turns module : Nat) (name : String) (resolveSet : ResolveSet) (target : Nat)
      (bindingName : String), module < graph.count →
      (resolveExport graph host turns module name resolveSet).2 = .ok (.record target bindingName) →
      target < graph.count
  | 0, _, _, _, _, _, _, hresult => nomatch hresult
  | turns + 1, module, name, resolveSet, target, bindingName, hlt, hresult => by
      rw [resolveExport] at hresult
      split at hresult
      · cases hresult
      dsimp only at hresult
      split at hresult
      · cases hresult
        exact hlt
      split at hresult
      · cases hresult
      split at hresult
      · split at hresult
        · cases hresult
        · rename_i importedModule hload
          split at hresult
          · cases hresult
            exact lt_of_loadModuleFromScript hload
          · exact resolveExport_lt graph host turns importedModule _ _ target bindingName
              (lt_of_loadModuleFromScript hload) hresult
      · split at hresult
        · cases hresult
        · exact resolveStarExports_lt
            (fun importedModule hlt' set target bindingName =>
              resolveExport_lt graph host turns importedModule name set target bindingName hlt')
            module (graph.source module).starExportEntries _ .null (fun _ _ h => nomatch h) hresult

theorem exportedStarNames_triesOn {graph : ModuleGraph} (host : Host) {turns : Nat}
    {names : Nat → List Nat → List Nat × Except Abort (List String)}
    (hnames : ∀ requestedModule < graph.count, ∀ exportStarSet,
      Tries (List.range graph.count) turns exportStarSet →
      TriesOn (List.range graph.count) turns (names requestedModule exportStarSet))
    (module : Nat) :
    ∀ (entries : List StarExportEntry) (exportStarSet : List Nat) (exported : List String),
      Tries (List.range graph.count) turns exportStarSet →
      TriesOn (List.range graph.count) turns
        (exportedStarNames graph host names module entries exportStarSet exported)
  | [], exportStarSet, exported, htries => ⟨htries, by simp [exportedStarNames]⟩
  | e :: entries, exportStarSet, exported, htries => by
      rw [exportedStarNames]
      split
      · rename_i abort hload
        exact ⟨htries, by simpa using ne_diverges_of_loadModuleFromScript hload⟩
      · rename_i requestedModule hload
        obtain ⟨htried, hreturns⟩ :=
          hnames requestedModule (lt_of_loadModuleFromScript hload) exportStarSet htries
        split
        · rename_i next abort hresult
          rw [hresult] at htried hreturns
          exact ⟨htried, by simpa using hreturns⟩
        · rename_i next starNames hresult
          rw [hresult] at htried
          exact exportedStarNames_triesOn host hnames module entries next _ htried

theorem exportedNames_triesOn (graph : ModuleGraph) (host : Host) :
    ∀ (turns module : Nat) (exportStarSet : List Nat), module < graph.count →
      Tries (List.range graph.count) turns exportStarSet →
      TriesOn (List.range graph.count) turns (exportedNames graph host turns module exportStarSet)
  | 0, _, _, _, htries => absurd rfl htries.turns_ne_zero
  | turns + 1, module, exportStarSet, hlt, htries => by
      rw [exportedNames]
      split
      · exact ⟨htries, by simp⟩
      · rename_i hnew
        have hrest := exportedStarNames_triesOn host
          (fun requestedModule hlt' set hset =>
            exportedNames_triesOn graph host turns requestedModule set hlt' hset)
          module (graph.source module).starExportEntries _
          ((graph.source module).localExportEntries.map LocalExportEntry.exportName ++
            (graph.source module).indirectExportEntries.map IndirectExportEntry.exportName)
          (htries.concat (List.mem_range.mpr hlt) hnew)
        exact ⟨hrest.1.succ, hrest.2⟩

theorem unambiguousNames_ne_diverges {graph : ModuleGraph} {module : Nat}
    (hlt : module < graph.count) (host : Host) :
    ∀ names : List String, unambiguousNames graph host module names ≠ .error .diverges
  | [] => by simp [unambiguousNames]
  | name :: names => by
      have hreturns := resolveExportOf_ne_diverges hlt host name
      have hrest := unambiguousNames_ne_diverges hlt host names
      rw [unambiguousNames]
      split
      · rename_i abort hresult
        rw [hresult] at hreturns
        simpa using hreturns
      · simp
      · exact hrest
      · cases hnames : unambiguousNames graph host module names with
        | error abort =>
          rw [hnames] at hrest
          simpa [Except.map] using hrest
        | ok rest => simp [Except.map]

theorem moduleNamespaceObject_ne_diverges (hlt : module < graph.count) (host : Host) :
    moduleNamespaceObject graph host module ≠ .error .diverges := by
  have hnames := (exportedNames_triesOn graph host (graph.count + 1) module [] hlt
    (Tries.nil (by simp))).2
  unfold moduleNamespaceObject
  split
  · rename_i abort hresult
    rw [hresult] at hnames
    simpa using hnames
  · exact unambiguousNames_ne_diverges hlt host _

end Escargot.Parser
