/-
# What exports resolve to

An export name of a module is a node of a graph: it is bound where a module exports a
binding or a namespace itself, and otherwise it leads to names of other modules. A
resolution is a search of this graph. Nothing leads on from a missing default export:
it is thrown as an exception. The modules are all there, so that the host refuses none.
-/

import Escargot.Parser.ModuleRecord
import Escargot.Traversal.Exploration

namespace Escargot.Parser

open List Escargot.Traversal

inductive ExportStep
  | binding (module : Nat) (bindingName : String)
  | missingDefault
  | follow (pairs : List (Nat × String))

variable (graph : ModuleGraph) (pair : Nat × String)

def starPairs (module : Nat) (exportName : String)
    (entries : List StarExportEntry) : List (Nat × String) :=
  entries.map fun e => (graph.resolve module e.moduleRequest, exportName)

/-- An explicit entry shadows the star exports, and a default export is no part of them. -/
def exportStep : ExportStep :=
  let source := graph.source pair.1
  match source.localExportEntries.find? (·.exportName = pair.2) with
  | some e => .binding pair.1 e.localName
  | none =>
    if source.isSynthetic then .follow []
    else
      match source.indirectExportEntries.find? (·.exportName = pair.2) with
      | some e =>
        if e.importName = "*" then
          .binding (graph.resolve pair.1 e.moduleRequest) "*namespace*"
        else .follow [(graph.resolve pair.1 e.moduleRequest, e.importName)]
      | none =>
        if pair.2 = "default" then .missingDefault
        else .follow (starPairs graph pair.1 pair.2 source.starExportEntries)

def LeadsOn (pair next : Nat × String) : Prop :=
  ∃ pairs, exportStep graph pair = .follow pairs ∧ next ∈ pairs

def Provides (pairs : Nat × String → Prop) (binding : Nat × String) : Prop :=
  ∃ pair, pairs pair ∧ exportStep graph pair = .binding binding.1 binding.2

/-- The pairs that a pair leads to. -/
def LeadsTo : Nat × String → Prop := ReachedFrom (LeadsOn graph) (· = pair)

def missingDefaultError : ModuleError :=
  .syntaxError ("The module '" ++ (graph.source pair.1).srcName ++
    "' does not provide an export named 'default'")

def ResolveExportResult.answer : ResolveExportResult → Answer (Nat × String)
  | .null => .nothing
  | .record module bindingName => .one (module, bindingName)
  | .ambiguous => .several

theorem ResolveExportResult.answer_injective : Function.Injective ResolveExportResult.answer := by
  intro result result' h
  cases result <;> cases result' <;> cases h <;> rfl

def loadsAll : Host := fun _ _ => none

theorem loadModuleFromScript_loadsAll (module : Nat) (request : ModuleRequest) :
    loadModuleFromScript graph loadsAll module request = .ok (graph.resolve module request) := rfl

theorem provides_nil : Answer.nothing.For (Provides graph (· ∈ [])) := by
  rintro binding ⟨pair, hmem, -⟩
  cases hmem

theorem Provides.append {graph : ModuleGraph} {new new' : List (Nat × String)}
    {binding : Nat × String} :
    Provides graph (· ∈ new ++ new') binding ↔
      Provides graph (· ∈ new) binding ∨ Provides graph (· ∈ new') binding := by
  constructor
  · rintro ⟨pair, hmem, hbinding⟩
    rcases List.mem_append.mp hmem with hfirst | hsecond
    · exact Or.inl ⟨pair, hfirst, hbinding⟩
    · exact Or.inr ⟨pair, hsecond, hbinding⟩
  · rintro (⟨pair, hmem, hbinding⟩ | ⟨pair, hmem, hbinding⟩)
    · exact ⟨pair, mem_append_left _ hmem, hbinding⟩
    · exact ⟨pair, mem_append_right _ hmem, hbinding⟩

theorem Provides.cons {graph : ModuleGraph} {pair : Nat × String} {pairs : List (Nat × String)}
    (hstep : exportStep graph pair = .follow pairs) {new : List (Nat × String)}
    {binding : Nat × String} :
    Provides graph (· ∈ pair :: new) binding ↔ Provides graph (· ∈ new) binding := by
  constructor
  · rintro ⟨other, hmem, hbinding⟩
    rcases List.mem_cons.mp hmem with rfl | hnew
    · cases hstep.symm.trans hbinding
    · exact ⟨other, hnew, hbinding⟩
  · rintro ⟨other, hmem, hbinding⟩
    exact ⟨other, mem_cons_of_mem _ hmem, hbinding⟩

/-- What a resolution from some pairs has done: it has come upon a missing default export, or upon
two bindings, or it has searched all that the pairs lead to and answers rightly. -/
inductive Resolution (graph : ModuleGraph) (roots : Nat × String → Prop) (seen : ResolveSet) :
    ResolveSet → Except Abort ResolveExportResult → Prop
  | diverges {resolveSet : ResolveSet} : Resolution graph roots seen resolveSet (.error .diverges)
  | thrown {new : List (Nat × String)} {pair : Nat × String}
      (reaches : Reaches (LeadsOn graph) roots new) (mem : pair ∈ new)
      (misses : exportStep graph pair = .missingDefault) :
      Resolution graph roots seen (seen ++ new)
        (.error (.exception (missingDefaultError graph pair)))
  | ambiguous {new : List (Nat × String)} (reaches : Reaches (LeadsOn graph) roots new)
      (several : Answer.several.For (Provides graph (· ∈ new))) :
      Resolution graph roots seen (seen ++ new) (.ok .ambiguous)
  | answered {new : List (Nat × String)} {result : ResolveExportResult}
      (settled : result ≠ .ambiguous) (explored : Explored (LeadsOn graph) roots seen new)
      (answer : result.answer.For (Provides graph (· ∈ new)))
      (defaults : ∀ pair ∈ new, exportStep graph pair ≠ .missingDefault) :
      Resolution graph roots seen (seen ++ new) (.ok result)

section Resolution

variable {graph : ModuleGraph} {roots roots' : Nat × String → Prop} {seen resolveSet : ResolveSet}
  {result : Except Abort ResolveExportResult}

theorem Resolution.congr (h : Resolution graph roots seen resolveSet result)
    (hroots : ∀ pair, roots pair ↔ roots' pair) :
    Resolution graph roots' seen resolveSet result := by
  have hsame : roots = roots' := funext fun pair => propext (hroots pair)
  exact hsame ▸ h

variable {pair : Nat × String}

theorem Resolution.visit {pairs : List (Nat × String)}
    (hstep : exportStep graph pair = .follow pairs)
    (h : Resolution graph (· ∈ pairs) (seen ++ [pair]) resolveSet result) :
    Resolution graph (· = pair) seen resolveSet result := by
  have hedge : ∀ next, next ∈ pairs ↔ LeadsOn graph pair next := by
    intro next
    constructor
    · exact fun hmem => ⟨pairs, hstep, hmem⟩
    · rintro ⟨pairs', hstep', hmem⟩
      cases hstep.symm.trans hstep'
      exact hmem
  have hsplit : ∀ new : List (Nat × String), seen ++ [pair] ++ new = seen ++ pair :: new := by simp
  cases h with
  | diverges => exact .diverges
  | @thrown new other reaches mem misses =>
    rw [hsplit]
    exact .thrown (reaches.mono fun next => (hedge next).mp).visit
      (mem_cons_of_mem _ mem) misses
  | @ambiguous new reaches several =>
    rw [hsplit]
    exact .ambiguous (reaches.mono fun next => (hedge next).mp).visit
      (several.congr fun binding => (Provides.cons hstep).symm)
  | @answered new _ settled explored answer defaults =>
    rw [hsplit]
    refine .answered settled (explored.congr hedge).visit
      (answer.congr fun binding => (Provides.cons hstep).symm) fun other hother => ?_
    rcases List.mem_cons.mp hother with rfl | hnew
    · rw [hstep]
      exact ExportStep.noConfusion
    · exact defaults other hnew

theorem resolveStarExports_resolution {exportName : String} (module : Nat)
    {resolve : Nat → ResolveSet → ResolveSet × Except Abort ResolveExportResult}
    (hresolve : ∀ importedModule seen, Resolution graph (· = (importedModule, exportName)) seen
      (resolve importedModule seen).1 (resolve importedModule seen).2) :
    ∀ (entries : List StarExportEntry) (roots : Nat × String → Prop) (new : List (Nat × String))
      (starResolution : ResolveExportResult), starResolution ≠ .ambiguous →
      Explored (LeadsOn graph) roots seen new →
      starResolution.answer.For (Provides graph (· ∈ new)) →
      (∀ pair ∈ new, exportStep graph pair ≠ .missingDefault) →
      Resolution graph (fun pair => roots pair ∨ pair ∈ starPairs graph module exportName entries)
        seen
        (resolveStarExports graph loadsAll resolve module entries (seen ++ new) starResolution).1
        (resolveStarExports graph loadsAll resolve module entries (seen ++ new) starResolution).2
  | [], roots, new, starResolution, hsettled, hexplored, hanswer, hdefaults => by
      refine Resolution.congr (.answered hsettled hexplored hanswer hdefaults) fun pair => ?_
      simp [starPairs]
  | e :: entries, roots, new, starResolution, hsettled, hexplored, hanswer, hdefaults => by
      have hnext := hresolve (graph.resolve module e.moduleRequest) (seen ++ new)
      rw [resolveStarExports, loadModuleFromScript_loadsAll]
      dsimp only
      generalize resolve (graph.resolve module e.moduleRequest) (seen ++ new) = next at hnext ⊢
      obtain ⟨resolveSet, result⟩ := next
      dsimp only at hnext ⊢
      have hpairs : ∀ pair, (roots pair ∨ pair = (graph.resolve module e.moduleRequest, exportName)) ∨
          pair ∈ starPairs graph module exportName entries ↔
          roots pair ∨ pair ∈ starPairs graph module exportName (e :: entries) := by
        intro pair
        rw [starPairs, starPairs, map_cons, mem_cons, or_assoc]
      cases hnext with
      | diverges => exact .diverges
      | @thrown new' pair reaches mem misses =>
        rw [append_assoc]
        refine .thrown ?_ (mem_append_right new mem) misses
        refine (hexplored.reaches.mono fun _ => Or.inl).append (reaches.mono ?_)
        exact fun other hother => (hpairs other).mp (Or.inl (Or.inr hother))
      | @ambiguous new' reaches several =>
        rw [append_assoc]
        refine .ambiguous ?_ ?_
        · refine (hexplored.reaches.mono fun _ => Or.inl).append (reaches.mono ?_)
          exact fun other hother => (hpairs other).mp (Or.inl (Or.inr hother))
        · obtain ⟨first, second, hfirst, hsecond, hne⟩ := several
          exact ⟨first, second, Provides.append.mpr (Or.inr hfirst),
            Provides.append.mpr (Or.inr hsecond), hne⟩
      | @answered new' resolution settled explored answer defaults =>
        have hboth := hexplored.append explored
        have hnone : ∀ pair ∈ new ++ new', exportStep graph pair ≠ .missingDefault := by
          intro pair hpair
          rcases List.mem_append.mp hpair with hfirst | hsecond
          · exact hdefaults pair hfirst
          · exact defaults pair hsecond
        have hrest := fun (star : ResolveExportResult) (hstar : star ≠ .ambiguous)
            (hfor : star.answer.For fun binding => Provides graph (· ∈ new) binding ∨
              Provides graph (· ∈ new') binding) =>
          (resolveStarExports_resolution module hresolve entries _ (new ++ new') star hstar hboth
            (hfor.congr fun binding => Provides.append.symm) hnone).congr hpairs
        rw [append_assoc]
        cases resolution with
        | ambiguous => exact absurd rfl settled
        | null => exact hrest starResolution hsettled (hanswer.or_nothing answer)
        | record target bindingName =>
          cases starResolution with
          | ambiguous => exact absurd rfl hsettled
          | null =>
            refine hrest _ settled (answer.congr fun binding => ?_)
            exact ⟨Or.inr, fun hor => hor.resolve_left (hanswer binding)⟩
          | record target' bindingName' =>
            dsimp only
            rw [if_neg ResolveExportResult.noConfusion]
            split_ifs with hne
            · refine .ambiguous ?_ ?_
              · exact hboth.reaches.mono fun other hother => (hpairs other).mp (Or.inl hother)
              · refine (hanswer.or_other answer ?_).congr fun binding => Provides.append.symm
                rintro hsame
                cases hsame
                exact hne rfl
            · rw [not_not] at hne
              rw [hne] at answer
              exact hrest _ hsettled (hanswer.or_same answer)

theorem Resolution.of_binding {target : Nat} {bindingName : String}
    (hstep : exportStep graph pair = .binding target bindingName) :
    Resolution graph (· = pair) seen (seen ++ [pair]) (.ok (.record target bindingName)) := by
  have hbinding : ∀ other ∈ [pair], exportStep graph other = .binding target bindingName := by
    intro other hother
    rw [List.mem_singleton.mp hother, hstep]
  refine .answered ResolveExportResult.noConfusion (.visit (.of_seen fun next hnext => ?_))
    ⟨⟨pair, List.mem_singleton.mpr rfl, hstep⟩, ?_⟩ fun other hother => ?_
  · obtain ⟨pairs, hfollow, -⟩ := hnext
    cases hstep.symm.trans hfollow
  · rintro binding ⟨other, hother, hother'⟩
    cases (hbinding other hother).symm.trans hother'
    rfl
  · rw [hbinding other hother]
    exact ExportStep.noConfusion

theorem Resolution.of_seen (hseen : pair ∈ seen) :
    Resolution graph (· = pair) seen seen (.ok .null) := by
  have hnothing : Resolution graph (· = pair) seen (seen ++ []) (.ok .null) := by
    refine .answered ResolveExportResult.noConfusion (.of_seen fun other hother => ?_)
      (provides_nil graph) fun other hmem => absurd hmem not_mem_nil
    rw [hother]
    exact hseen
  rwa [append_nil] at hnothing

theorem Resolution.of_nowhere (hstep : exportStep graph pair = .follow []) :
    Resolution graph (· = pair) seen (seen ++ [pair]) (.ok .null) := by
  refine .visit hstep ?_
  have hnothing : Resolution graph (· ∈ []) (seen ++ [pair]) (seen ++ [pair] ++ []) (.ok .null) := by
    exact .answered ResolveExportResult.noConfusion
      (.of_seen fun other hother => absurd hother not_mem_nil) (provides_nil graph)
      fun other hmem => absurd hmem not_mem_nil
  rwa [append_nil] at hnothing

theorem Resolution.of_missing (hstep : exportStep graph pair = .missingDefault) :
    Resolution graph (· = pair) seen (seen ++ [pair])
      (.error (.exception (missingDefaultError graph pair))) := by
  refine .thrown ?_ (List.mem_singleton.mpr rfl) hstep
  intro other hother
  exact ⟨pair, rfl, List.mem_singleton.mp hother ▸ .refl⟩

theorem resolveExport_resolution (graph : ModuleGraph) :
    ∀ (turns module : Nat) (exportName : String) (seen : ResolveSet),
      Resolution graph (· = (module, exportName)) seen
        (resolveExport graph loadsAll turns module exportName seen).1
        (resolveExport graph loadsAll turns module exportName seen).2
  | 0, _, _, _ => .diverges
  | turns + 1, module, exportName, seen => by
      rw [resolveExport]
      by_cases hseen : (module, exportName) ∈ seen
      · rw [if_pos hseen]
        exact .of_seen hseen
      rw [if_neg hseen]
      dsimp only
      have hstep := exportStep.eq_1 graph (module, exportName)
      dsimp only at hstep
      cases hlocal : (graph.source module).localExportEntries.find?
        (·.exportName = exportName) with
      | some e =>
        rw [hlocal] at hstep
        exact .of_binding hstep
      | none =>
        rw [hlocal] at hstep
        dsimp only at hstep ⊢
        by_cases hsynthetic : (graph.source module).isSynthetic = true
        · rw [if_pos hsynthetic] at hstep ⊢
          exact .of_nowhere hstep
        rw [if_neg hsynthetic] at hstep ⊢
        cases hindirect : (graph.source module).indirectExportEntries.find?
          (·.exportName = exportName) with
        | some e =>
          rw [hindirect] at hstep
          dsimp only at hstep ⊢
          rw [loadModuleFromScript_loadsAll]
          dsimp only
          by_cases hnamespace : e.importName = "*"
          · rw [if_pos hnamespace] at hstep ⊢
            exact .of_binding hstep
          · rw [if_neg hnamespace] at hstep ⊢
            refine .visit hstep ((resolveExport_resolution graph turns _ _ _).congr ?_)
            exact fun pair => List.mem_singleton.symm
        | none =>
          rw [hindirect] at hstep
          dsimp only at hstep ⊢
          by_cases hdefault : exportName = "default"
          · rw [if_pos hdefault] at hstep ⊢
            exact .of_missing hstep
          · rw [if_neg hdefault] at hstep ⊢
            have hnothing : Explored (LeadsOn graph) (fun _ => False)
                (seen ++ [(module, exportName)]) [] := .of_seen fun _ h => h.elim
            have hloop := resolveStarExports_resolution module (fun importedModule seen =>
              resolveExport_resolution graph turns importedModule exportName seen)
              (graph.source module).starExportEntries _ [] .null
              ResolveExportResult.noConfusion hnothing (provides_nil graph)
              (fun _ hmem => absurd hmem not_mem_nil)
            rw [append_nil] at hloop
            exact .visit hstep (hloop.congr fun pair => by simp)

end Resolution

section Answers

variable {graph graph' : ModuleGraph} {module : Nat} {exportName : String}

variable (graph) (module) (exportName)

/-- No default export is asked for where it is missing. -/
def HasDefaults : Prop :=
  ∀ pair, LeadsTo graph (module, exportName) pair → exportStep graph pair ≠ .missingDefault

/-- The bindings that an export name leads to. -/
def BindingsOf : Nat × String → Prop := Provides graph (LeadsTo graph (module, exportName))

variable {graph} {module} {exportName}

theorem resolveExportOf_resolution (hlt : module < graph.count) (exportName : String) :
    resolveExportOf graph loadsAll module exportName ≠ .error .diverges ∧
      ∃ resolveSet, Resolution graph (· = (module, exportName)) [] resolveSet
        (resolveExportOf graph loadsAll module exportName) :=
  ⟨resolveExportOf_ne_diverges hlt loadsAll exportName, _,
    resolveExport_resolution graph (resolveTurns graph) module exportName []⟩

theorem BindingsOf.of_reaches {new : List (Nat × String)}
    (hreaches : Reaches (LeadsOn graph) (· = (module, exportName)) new) {binding : Nat × String}
    (hprovides : Provides graph (· ∈ new) binding) :
    BindingsOf graph module exportName binding := by
  obtain ⟨pair, hmem, hbinding⟩ := hprovides
  exact ⟨pair, hreaches pair hmem, hbinding⟩

theorem resolveExportOf_answers (hlt : module < graph.count)
    (hdefaults : HasDefaults graph module exportName) :
    ∃ result, resolveExportOf graph loadsAll module exportName = .ok result ∧
      result.answer.For (BindingsOf graph module exportName) := by
  obtain ⟨hends, resolveSet, hresolution⟩ := resolveExportOf_resolution hlt exportName
  generalize resolveExportOf graph loadsAll module exportName = outcome at hends hresolution ⊢
  cases hresolution with
  | diverges => exact absurd rfl hends
  | thrown reaches mem misses => exact absurd misses (hdefaults _ (reaches _ mem))
  | ambiguous reaches several =>
    obtain ⟨first, second, hfirst, hsecond, hne⟩ := several
    exact ⟨.ambiguous, rfl, first, second, .of_reaches reaches hfirst,
      .of_reaches reaches hsecond, hne⟩
  | answered settled explored answer defaults =>
    refine ⟨_, rfl, answer.congr fun binding => ?_⟩
    exact exists_congr fun pair => and_congr_left fun _ => explored.mem_iff pair

theorem resolveExportOf_of_missing (hlt : module < graph.count)
    (hmissing : ¬HasDefaults graph module exportName) :
    (∃ pair, LeadsTo graph (module, exportName) pair ∧ exportStep graph pair = .missingDefault ∧
        resolveExportOf graph loadsAll module exportName =
          .error (.exception (missingDefaultError graph pair))) ∨
      (resolveExportOf graph loadsAll module exportName = .ok .ambiguous ∧
        Answer.several.For (BindingsOf graph module exportName)) := by
  obtain ⟨hends, resolveSet, hresolution⟩ := resolveExportOf_resolution hlt exportName
  generalize resolveExportOf graph loadsAll module exportName = outcome at hends hresolution ⊢
  cases hresolution with
  | diverges => exact absurd rfl hends
  | thrown reaches mem misses => exact Or.inl ⟨_, reaches _ mem, misses, rfl⟩
  | ambiguous reaches several =>
    obtain ⟨first, second, hfirst, hsecond, hne⟩ := several
    exact Or.inr ⟨rfl, first, second, .of_reaches reaches hfirst, .of_reaches reaches hsecond, hne⟩
  | answered settled explored answer defaults =>
    exact absurd (fun pair hpair => defaults pair ((explored.mem_iff pair).mpr hpair)) hmissing

/-- The star exports of every module are in another order. -/
structure StarsReordered (graph graph' : ModuleGraph) : Prop where
  count : graph'.count = graph.count
  resolve : graph'.resolve = graph.resolve
  isSynthetic : ∀ module, (graph'.source module).isSynthetic = (graph.source module).isSynthetic
  localExportEntries : ∀ module,
    (graph'.source module).localExportEntries = (graph.source module).localExportEntries
  indirectExportEntries : ∀ module,
    (graph'.source module).indirectExportEntries = (graph.source module).indirectExportEntries
  starExportEntries : ∀ module, List.Perm (graph'.source module).starExportEntries
    (graph.source module).starExportEntries

section

variable (h : StarsReordered graph graph')
include h

/-- What a module says of a name is the same, up to the order of what it leads to. -/
theorem StarsReordered.exportStep_or_perm (pair : Nat × String) :
    exportStep graph' pair = exportStep graph pair ∨
      ∃ pairs pairs', exportStep graph pair = .follow pairs ∧
        exportStep graph' pair = .follow pairs' ∧ List.Perm pairs' pairs := by
  have hperm := (h.starExportEntries pair.1).map fun e =>
    (graph.resolve pair.1 e.moduleRequest, pair.2)
  rw [exportStep, exportStep]
  simp only [h.resolve, h.isSynthetic, h.localExportEntries, h.indirectExportEntries, starPairs]
  split
  · exact Or.inl rfl
  · split
    · exact Or.inl rfl
    · split
      · exact Or.inl rfl
      · split
        · exact Or.inl rfl
        · exact Or.inr ⟨_, _, rfl, rfl, hperm⟩

theorem StarsReordered.follows : LeadsOn graph' = LeadsOn graph := by
  funext pair next
  rw [LeadsOn, LeadsOn, eq_iff_iff]
  rcases h.exportStep_or_perm pair with hsame | ⟨pairs, pairs', hstep, hstep', hperm⟩
  · rw [hsame]
  · rw [hstep, hstep']
    simp only [ExportStep.follow.injEq, exists_eq_left']
    exact hperm.mem_iff

theorem StarsReordered.bindingsOf :
    BindingsOf graph' module exportName = BindingsOf graph module exportName := by
  funext binding
  have hbound : ∀ pair, exportStep graph' pair = .binding binding.1 binding.2 ↔
      exportStep graph pair = .binding binding.1 binding.2 := by
    intro pair
    rcases h.exportStep_or_perm pair with hsame | ⟨pairs, pairs', hstep, hstep', -⟩
    · rw [hsame]
    · rw [hstep, hstep']
      exact iff_of_false ExportStep.noConfusion ExportStep.noConfusion
  rw [BindingsOf, BindingsOf, Provides, Provides, LeadsTo, LeadsTo, h.follows]
  simp only [hbound]

theorem StarsReordered.hasDefaults (hdefaults : HasDefaults graph module exportName) :
    HasDefaults graph' module exportName := by
  intro pair hpair
  rw [LeadsTo, h.follows] at hpair
  have hhere := hdefaults pair hpair
  rcases h.exportStep_or_perm pair with hsame | ⟨pairs, pairs', hstep, hstep', -⟩
  · rwa [hsame]
  · rw [hstep']
    exact ExportStep.noConfusion

theorem StarsReordered.resolveExportOf_eq (hlt : module < graph.count)
    (hdefaults : HasDefaults graph module exportName) :
    resolveExportOf graph' loadsAll module exportName =
      resolveExportOf graph loadsAll module exportName := by
  obtain ⟨result, hresult, hanswer⟩ := resolveExportOf_answers hlt hdefaults
  obtain ⟨result', hresult', hanswer'⟩ := resolveExportOf_answers (h.count ▸ hlt)
    (h.hasDefaults hdefaults)
  rw [h.bindingsOf] at hanswer'
  rw [hresult, hresult', ResolveExportResult.answer_injective (hanswer'.unique hanswer)]

end

end Answers

end Escargot.Parser
