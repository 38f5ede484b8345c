/-
# The names that a module exports

`exportedNames` collects the explicit names of a module and of the modules that its
star exports lead to. With the resolution of a name this is what is known of the
exports of a module.
-/

import Escargot.Traversal.ExportResolution

namespace Escargot.Parser

open List Escargot.Traversal

def ExportsStar (graph : ModuleGraph) (module next : Nat) : Prop :=
  ∃ e ∈ (graph.source module).starExportEntries, graph.resolve module e.moduleRequest = next

def explicitNames (graph : ModuleGraph) (module : Nat) : List String :=
  (graph.source module).localExportEntries.map LocalExportEntry.exportName ++
    (graph.source module).indirectExportEntries.map IndirectExportEntry.exportName

/-- The names are the explicit ones of some modules but for the default, and only those of the
first module more than once. -/
structure NamesOf (graph : ModuleGraph) (first : Nat) (modules : List Nat) (names : List String) :
    Prop where
  mem : ∀ name, name ≠ "default" →
    (name ∈ names ↔ ∃ module ∈ modules, name ∈ explicitNames graph module)
  once : ∀ name ∉ explicitNames graph first, names.count name ≤ 1

inductive NameSearch (graph : ModuleGraph) (module : Nat) (seen : List Nat) :
    List Nat → Except Abort (List String) → Prop
  | diverges {exportStarSet : List Nat} : NameSearch graph module seen exportStarSet
      (.error .diverges)
  | found {new : List Nat} {names : List String}
      (explored : Explored (ExportsStar graph) (· = module) seen new)
      (namesOf : NamesOf graph module new names) :
      NameSearch graph module seen (seen ++ new) (.ok names)

section NameSearch

variable {graph : ModuleGraph}

/-- The names of another module are added, once. -/
def addNames (names starNames : List String) : List String :=
  starNames.foldl
    (fun names name => if name ≠ "default" ∧ name ∉ names then names ++ [name] else names) names

variable {starNames : List String}

theorem mem_addNames {name : String} (hname : name ≠ "default") :
    ∀ {names : List String}, name ∈ addNames names starNames ↔ name ∈ names ∨ name ∈ starNames := by
  induction starNames with
  | nil => simp [addNames]
  | cons first starNames ih =>
    intro names
    rw [addNames, foldl_cons, ← addNames, ih, mem_cons]
    split_ifs with hnew
    · rw [mem_append, mem_singleton, or_assoc]
    · rw [not_and_or, not_not, not_not] at hnew
      constructor
      · exact Or.imp_right Or.inr
      · rintro (hmem | rfl | hmem)
        · exact Or.inl hmem
        · exact Or.inl (hnew.resolve_left hname)
        · exact Or.inr hmem

theorem count_addNames {name : String} :
    ∀ {names : List String}, names.count name ≤ 1 → (addNames names starNames).count name ≤ 1 := by
  induction starNames with
  | nil => exact fun h => h
  | cons first starNames ih =>
    intro names hnames
    rw [addNames, foldl_cons, ← addNames]
    refine ih ?_
    split_ifs with hnew
    · rw [count_append]
      by_cases hfirst : first = name
      · rw [List.count_eq_zero.mpr (hfirst ▸ hnew.2), hfirst]
        simp
      · simp [hfirst, hnames]
    · exact hnames

theorem NamesOf.addNames {first first' : Nat} {modules modules' : List Nat} {names : List String}
    (h : NamesOf graph first modules names) (h' : NamesOf graph first' modules' starNames) :
    NamesOf graph first (modules ++ modules') (addNames names starNames) where
  mem name hname := by
    rw [mem_addNames hname, h.mem name hname, h'.mem name hname]
    constructor
    · rintro (⟨module, hmem, hexplicit⟩ | ⟨module, hmem, hexplicit⟩)
      · exact ⟨module, mem_append_left _ hmem, hexplicit⟩
      · exact ⟨module, mem_append_right _ hmem, hexplicit⟩
    · rintro ⟨module, hmem, hexplicit⟩
      rcases List.mem_append.mp hmem with hold | hnew
      · exact Or.inl ⟨module, hold, hexplicit⟩
      · exact Or.inr ⟨module, hnew, hexplicit⟩
  once name hname := count_addNames (h.once name hname)

theorem exportedStarNames_search {visit : Nat → List Nat → List Nat × Except Abort (List String)}
    (hvisit : ∀ requestedModule seen, NameSearch graph requestedModule seen
      (visit requestedModule seen).1 (visit requestedModule seen).2)
    {module : Nat} {seen : List Nat} :
    ∀ (entries : List StarExportEntry) (done : Nat → Prop) (new : List Nat)
      (names : List String),
      (∀ next, ExportsStar graph module next ↔
        done next ∨ ∃ e ∈ entries, graph.resolve module e.moduleRequest = next) →
      Explored (ExportsStar graph) done (seen ++ [module]) new →
      NamesOf graph module (module :: new) names →
      NameSearch graph module seen
        (exportedStarNames graph loadsAll visit module entries (seen ++ [module] ++ new) names).1
        (exportedStarNames graph loadsAll visit module entries (seen ++ [module] ++ new) names).2
  | [], done, new, names, hentries, hexplored, hnames => by
      have hvisited := (hexplored.congr fun next => by rw [hentries next]; simp).visit
      have hsplit : seen ++ [module] ++ new = seen ++ module :: new := by simp
      rw [exportedStarNames, hsplit]
      exact .found hvisited hnames
  | e :: entries, done, new, names, hentries, hexplored, hnames => by
      have hnext := hvisit (graph.resolve module e.moduleRequest) (seen ++ [module] ++ new)
      rw [exportedStarNames, loadModuleFromScript_loadsAll]
      dsimp only
      generalize visit (graph.resolve module e.moduleRequest) (seen ++ [module] ++ new) = next
        at hnext ⊢
      obtain ⟨exportStarSet, result⟩ := next
      dsimp only at hnext ⊢
      cases hnext with
      | diverges => exact .diverges
      | @found new' starNames explored namesOf =>
        have hboth := hexplored.append explored
        rw [append_assoc (seen ++ [module])]
        refine exportedStarNames_search hvisit entries _ (new ++ new') _ (fun next => ?_) hboth
          (hnames.addNames namesOf)
        rw [hentries next, exists_mem_cons_iff, or_assoc, eq_comm (a := next)]

theorem exportedNames_search (graph : ModuleGraph) : ∀ (turns module : Nat) (seen : List Nat),
    NameSearch graph module seen (exportedNames graph loadsAll turns module seen).1
      (exportedNames graph loadsAll turns module seen).2
  | 0, _, _ => .diverges
  | turns + 1, module, seen => by
      rw [exportedNames]
      by_cases hseen : module ∈ seen
      · rw [if_pos hseen]
        have hnothing : NameSearch graph module seen (seen ++ []) (.ok []) :=
          .found (.of_seen fun next hnext => hnext ▸ hseen)
            ⟨fun name _ => by simp, fun name _ => by simp⟩
        rwa [append_nil] at hnothing
      · rw [if_neg hseen]
        have hstart : Explored (ExportsStar graph) (fun _ => False) (seen ++ [module]) [] :=
          .of_seen fun _ h => h.elim
        have hexplicit : NamesOf graph module [module] (explicitNames graph module) :=
          ⟨fun name _ => by simp, fun name hname => by
            rw [List.count_eq_zero.mpr hname]
            exact Nat.zero_le 1⟩
        have hloop := exportedStarNames_search (exportedNames_search graph turns)
          (graph.source module).starExportEntries (fun _ => False) [] _
          (fun next => by rw [false_or]; rfl) hstart hexplicit
        rw [append_nil] at hloop
        exact hloop

theorem exportedNames_eq {module : Nat} (hlt : module < graph.count) :
    ∃ names, (exportedNames graph loadsAll (graph.count + 1) module []).2 = .ok names ∧
      (∀ name, name ≠ "default" → (name ∈ names ↔
        ∃ other, Relation.ReflTransGen (ExportsStar graph) module other ∧
          name ∈ explicitNames graph other)) ∧
      ∀ name ∉ explicitNames graph module, names.count name ≤ 1 := by
  have hends := (exportedNames_triesOn graph loadsAll (graph.count + 1) module [] hlt
    (Foundation.Tries.nil (by simp))).2
  have hsearch := exportedNames_search graph (graph.count + 1) module []
  generalize exportedNames graph loadsAll (graph.count + 1) module [] = outcome at hends hsearch ⊢
  obtain ⟨exportStarSet, result⟩ := outcome
  cases hsearch with
  | diverges => exact absurd rfl hends
  | found explored namesOf =>
    refine ⟨_, rfl, fun name hname => ?_, namesOf.once⟩
    rw [namesOf.mem name hname]
    refine exists_congr fun other => and_congr_left fun _ => ?_
    rw [explored.mem_iff, ReachedFrom]
    simp

end NameSearch

structure ExportsOf (graph : ModuleGraph) (module : Nat) (exportName : String) : Prop where
  answers : HasDefaults graph module exportName →
    ∃ result, resolveExportOf graph loadsAll module exportName = .ok result
  record : HasDefaults graph module exportName → ∀ target bindingName,
    resolveExportOf graph loadsAll module exportName = .ok (.record target bindingName) ↔
      BindingsOf graph module exportName (target, bindingName) ∧
        ∀ binding, BindingsOf graph module exportName binding → binding = (target, bindingName)
  ambiguous : HasDefaults graph module exportName →
    (resolveExportOf graph loadsAll module exportName = .ok .ambiguous ↔
      ∃ first second, BindingsOf graph module exportName first ∧
        BindingsOf graph module exportName second ∧ first ≠ second)
  null : HasDefaults graph module exportName →
    (resolveExportOf graph loadsAll module exportName = .ok .null ↔
      ∀ binding, ¬BindingsOf graph module exportName binding)
  order : HasDefaults graph module exportName → ∀ graph', StarsReordered graph graph' →
    resolveExportOf graph' loadsAll module exportName =
      resolveExportOf graph loadsAll module exportName
  missing : ¬HasDefaults graph module exportName →
    (∃ pair, LeadsTo graph (module, exportName) pair ∧ exportStep graph pair = .missingDefault ∧
        resolveExportOf graph loadsAll module exportName =
          .error (.exception (missingDefaultError graph pair))) ∨
      (resolveExportOf graph loadsAll module exportName = .ok .ambiguous ∧
        Answer.several.For (BindingsOf graph module exportName))
  names : ∃ names, (exportedNames graph loadsAll (graph.count + 1) module []).2 = .ok names ∧
    (∀ name, name ≠ "default" → (name ∈ names ↔
      ∃ other, Relation.ReflTransGen (ExportsStar graph) module other ∧
        name ∈ explicitNames graph other)) ∧
    ∀ name ∉ explicitNames graph module, names.count name ≤ 1

variable {graph : ModuleGraph} {module : Nat}

theorem resolveExportOf_eq_ok_iff {exportName : String}
    (hlt : module < graph.count) (hdefaults : HasDefaults graph module exportName)
    (result : ResolveExportResult) :
    resolveExportOf graph loadsAll module exportName = .ok result ↔
      result.answer.For (BindingsOf graph module exportName) := by
  obtain ⟨actual, hactual, hanswer⟩ := resolveExportOf_answers hlt hdefaults
  rw [hactual, Except.ok.injEq]
  constructor
  · rintro rfl
    exact hanswer
  · exact fun hother => ResolveExportResult.answer_injective (hanswer.unique hother)

/-- Every module has its exports, with cycles and diamonds among its star exports. -/
theorem exportsOf (hlt : module < graph.count)
    (exportName : String) : ExportsOf graph module exportName where
  answers hdefaults := by
    obtain ⟨result, hresult, -⟩ := resolveExportOf_answers hlt hdefaults
    exact ⟨result, hresult⟩
  record hdefaults target bindingName :=
    resolveExportOf_eq_ok_iff hlt hdefaults (.record target bindingName)
  ambiguous hdefaults := resolveExportOf_eq_ok_iff hlt hdefaults .ambiguous
  null hdefaults := resolveExportOf_eq_ok_iff hlt hdefaults .null
  order hdefaults _ hreordered := hreordered.resolveExportOf_eq hlt hdefaults
  missing hmissing := resolveExportOf_of_missing hlt hmissing
  names := exportedNames_eq hlt

theorem of_false_eq_true {p : Prop} (h : false = true) : p := absurd h Bool.false_ne_true

variable (request : ModuleRequest)

def secondModule : Nat := if request.specifier = "b" then 1 else 0

theorem secondModule_lt : secondModule request < 2 := by
  rw [secondModule]
  split
  · decide
  · decide

/-- Two modules that export all of each other. The second one exports a name, which the first one
can export from there explicitly. -/
def starCycle (indirectExportEntries : List IndirectExportEntry) : ModuleGraph where
  count := 2
  source module :=
    { srcName := if module = 0 then "a" else "b"
      isSynthetic := false
      isAsync := false
      requestedModules := [⟨if module = 0 then "b" else "a", .es⟩]
      importEntries := []
      localExportEntries := if module = 0 then [] else [⟨"x", "x"⟩]
      indirectExportEntries := if module = 0 then indirectExportEntries else []
      starExportEntries := [⟨⟨if module = 0 then "b" else "a", .es⟩⟩]
      identifiers := if module = 0 then [] else ["x"] }
  resolve _ request := secondModule request
  resolve_lt _ request := secondModule_lt request
  synthetic_requests _ h := of_false_eq_true h

theorem exportsOf_starCycle : ExportsOf (starCycle []) 0 "x" := exportsOf (show 0 < 2 by decide) "x"

/-- A name that is exported from a default export that is missing is an exception. -/
theorem missing_default_is_thrown : ¬∀ (graph : ModuleGraph) (module : Nat) (exportName : String),
    module < graph.count → exportName ≠ "default" →
      ∃ result, resolveExportOf graph loadsAll module exportName = .ok result ∧
        result.answer.For (BindingsOf graph module exportName) := by
  intro hanswers
  obtain ⟨result, hresult, -⟩ := hanswers (starCycle [⟨"x", ⟨"b", .es⟩, "default"⟩]) 0 "x"
    (show 0 < 2 by decide) (by decide)
  have hthrown : resolveExportOf (starCycle [⟨"x", ⟨"b", .es⟩, "default"⟩]) loadsAll 0 "x" =
      .error (.exception (.syntaxError
        "The module 'b' does not provide an export named 'default'")) := by
    rfl
  cases hthrown.symm.trans hresult

end Escargot.Parser
