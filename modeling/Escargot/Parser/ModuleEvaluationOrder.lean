/-
# The order of module bodies

Every body starts once, after those it requests. What carries this is a list
of the pairs of a module and one that waits for it which have not been counted
down: a counter is the number of its pairs. A module that is not in the list
waits for nothing any more, and through the modules that it has waited for it
reaches all that it requests. The depth-first evaluation builds the list, the
settlement of promises takes it down.
-/

import Escargot.Parser.ModuleEvaluation

namespace Escargot.Parser

open List Option
open Function (update_eq_self update_of_ne update_self)

open Escargot.Foundation

universe u

variable {V : Type u}

/-- Two modules request each other, perhaps through others. -/
def SameComponent (graph : ModuleGraph) (module other : Nat) : Prop :=
  Relation.ReflTransGen (Requests graph) module other ∧
    Relation.ReflTransGen (Requests graph) other module

def startedModules (log : List (EvalEvent V)) : List Nat :=
  log.filterMap fun event =>
    match event with
    | .started module => some module
    | _ => none

/-- No body starts before those it requests have completed, but for the modules that request
it in turn. -/
def Ordered (graph : ModuleGraph) (log : List (EvalEvent V)) : Prop :=
  ∀ earlier module later, log = earlier ++ .started module :: later →
    ∀ required, Requests graph module required →
      .completed required ∈ earlier ∨ SameComponent graph required module

/-- Bodies start once and in order, and a module that waits starts when its counter is zero and
not before: a counter of what has not started is above zero, unless its component has failed. -/
structure StartsInOrder (graph : ModuleGraph) (state : EvalState V) : Prop where
  startsOnce : (startedModules state.log).Nodup
  ordered : Ordered graph state.log
  startsAtZero : ∀ module, .started module ∈ state.log →
    state.pendingAsyncDependencies module = some 0
  waits : ∀ module, state.asyncEvaluating module = true → .started module ∉ state.log →
    state.evaluationError module = none →
    (state.cycleRoot module).bind state.evaluationError = none → 0 < pendingOf state module

/-- Where the loop of `asyncModuleFulfilled` comes to a parent and neither that nor the root of its
component has failed, the parent waits for nothing else. -/
def WaitsForOne (state : EvalState V) : EvalOp V → Prop
  | .resume =>
    match state.frames with
    | .fulfilling _ (m :: _) :: _ =>
      state.evaluationError m = none →
      (state.cycleRoot m).bind state.evaluationError = none → pendingOf state m = 1
    | _ => True
  | _ => True

def HasStarted (state : EvalState V) (module : Nat) : Prop := .started module ∈ state.log

def HasCompleted (state : EvalState V) (module : Nat) : Prop := .completed module ∈ state.log

variable {log : List (EvalEvent V)} {module : Nat}

theorem mem_startedModules : module ∈ startedModules log ↔ .started module ∈ log := by
  rw [startedModules, mem_filterMap]
  constructor
  · rintro ⟨event, hmem, hevent⟩
    cases event with
    | started other =>
      cases hevent
      exact hmem
    | completed other => cases hevent
    | settled promise rejection => cases hevent
  · exact fun hmem => ⟨_, hmem, rfl⟩

theorem startedModules_append (log rest : List (EvalEvent V)) :
    startedModules (log ++ rest) = startedModules log ++ startedModules rest :=
  filterMap_append

theorem startsOnce_started (honce : (startedModules log).Nodup) (hnew : .started module ∉ log) :
    (startedModules (log ++ [.started module])).Nodup := by
  rw [startedModules_append]
  refine List.nodup_append.mpr ⟨honce, by simp [startedModules], fun a ha b hb heq => ?_⟩
  have hself : b = module := by simpa [startedModules] using hb
  exact hnew (mem_startedModules.mp (hself ▸ heq ▸ ha))

variable {graph : ModuleGraph}

theorem Ordered.started (hordered : Ordered graph log)
    (hafter : ∀ required, Requests graph module required →
      .completed required ∈ log ∨ SameComponent graph required module) :
    Ordered graph (log ++ [.started module]) := by
  intro earlier other later hsplit
  rcases List.append_eq_append_iff.mp hsplit with ⟨rest, hearlier, hrest⟩ | ⟨rest, hlog, hrest⟩
  · cases rest with
    | nil =>
      cases hrest
      rw [append_nil] at hearlier
      rw [hearlier]
      exact hafter
    | cons event rest =>
      have hlength := congrArg List.length hrest
      simp at hlength
  · cases rest with
    | nil =>
      cases hrest
      rw [append_nil] at hlog
      rw [← hlog]
      exact hafter
    | cons event rest =>
      injection hrest with hevent hlater
      exact hordered earlier other rest (hlog.trans (by rw [← hevent]))

theorem Ordered.append {graph : ModuleGraph} {log : List (EvalEvent V)}
    (hordered : Ordered graph log) {event : EvalEvent V} (hevent : ∀ module, event ≠ .started module) :
    Ordered graph (log ++ [event]) := by
  intro earlier other later hsplit
  rcases List.append_eq_append_iff.mp hsplit with ⟨rest, hearlier, hrest⟩ | ⟨rest, hlog, hrest⟩
  · cases rest with
    | nil =>
      injection hrest with hhead htail
      exact absurd hhead (hevent other)
    | cons first rest =>
      have hlength := congrArg List.length hrest
      simp at hlength
  · cases rest with
    | nil =>
      injection hrest with hhead htail
      exact absurd hhead.symm (hevent other)
    | cons first rest =>
      injection hrest with hhead hlater
      exact hordered earlier other rest (hlog.trans (by rw [← hhead]))

/-- A module needs another one no more, which has completed, or is counted down by it. -/
def Awaited (state : EvalState V) (module required : Nat) : Prop :=
  HasCompleted state required ∨ module ∈ state.asyncParentModules required

/-- A module completes after another one. -/
def Covers (state : EvalState V) : Nat → Nat → Prop := Relation.ReflTransGen (Awaited state)

/-- What keeps a body from starting too early for a request: it is waited for, or it is in the
same component. -/
def Heeds (graph : ModuleGraph) (state : EvalState V) (module required : Nat) : Prop :=
  (∃ next, Awaited state module next ∧ Covers state next required) ∨
    SameComponent graph required module

variable {state next : EvalState V} {required : Nat}

theorem Awaited.mono (hlog : state.log ⊆ next.log)
    (hparents : ∀ module, state.asyncParentModules module ⊆ next.asyncParentModules module)
    (hawaited : Awaited state module required) :
    Awaited next module required :=
  hawaited.imp (fun hcompleted => hlog hcompleted) fun hparent => hparents required hparent

theorem Covers.mono (hcovers : Covers state module required) (hlog : state.log ⊆ next.log)
    (hparents : ∀ module, state.asyncParentModules module ⊆ next.asyncParentModules module) :
    Covers next module required :=
  Relation.ReflTransGen.mono (fun _ _ hawaited => Awaited.mono hlog hparents hawaited) _ _
    hcovers

theorem Heeds.mono (hheeds : Heeds graph state module required) (hlog : state.log ⊆ next.log)
    (hparents : ∀ module, state.asyncParentModules module ⊆ next.asyncParentModules module) :
    Heeds graph next module required := by
  rcases hheeds with ⟨other, hawaited, hcovers⟩ | hsame
  · exact .inl ⟨other, hawaited.mono hlog hparents, hcovers.mono hlog hparents⟩
  · exact .inr hsame

/-- The books of an evaluation: `owed` has a pair of a module and one that waits for it for each
time that the second has still to be counted down. -/
structure Accounts (graph : ModuleGraph) (state : EvalState V) (owed : List (Nat × Nat)) : Prop
    where
  startsOnce : (startedModules state.log).Nodup
  ordered : Ordered graph state.log
  completed_started : ∀ module, HasCompleted state module → HasStarted state module
  promised_started : ∀ module ∈ state.promises, HasStarted state module
  pending_eq : ∀ module, pendingOf state module = owed.countP fun pair => pair.2 = module
  startsAtZero : ∀ module, HasStarted state module → state.pendingAsyncDependencies module = some 0
  parent_owed : ∀ module, ∀ parent ∈ state.asyncParentModules module,
    HasCompleted state module ∨ (module, parent) ∈ owed
  parents_le : ∀ module, state.asyncEvaluating module = true → ∀ parent,
    (state.asyncParentModules module).count parent ≤ owed.count (module, parent)
  heeds : ∀ module, state.asyncEvaluating module = true ∨ HasStarted state module →
    ∀ required, Requests graph module required → Heeds graph state module required

namespace Accounts

variable {graph : ModuleGraph} {state : EvalState V} {owed : List (Nat × Nat)} {module : Nat}

section

variable (haccounts : Accounts graph state owed)
include haccounts

theorem not_owed (hzero : pendingOf state module = 0) (required : Nat) :
    (required, module) ∉ owed := by
  rw [haccounts.pending_eq, countP_eq_zero] at hzero
  exact fun hmem => hzero _ hmem (decide_eq_true rfl)

theorem not_owed_of_started (hstarted : HasStarted state module) (required : Nat) :
    (required, module) ∉ owed :=
  haccounts.not_owed (by rw [pendingOf, haccounts.startsAtZero module hstarted, getD_some])
    required

theorem completed_of_awaited {required : Nat} (hnot : ∀ other, (other, module) ∉ owed)
    (hawaited : Awaited state module required) :
    HasCompleted state required := by
  rcases hawaited with hcompleted | hparent
  · exact hcompleted
  · exact (haccounts.parent_owed required module hparent).resolve_right (hnot required)

theorem completed_of_covers {required : Nat} (hcompleted : HasCompleted state module)
    (hcovers : Covers state module required) :
    HasCompleted state required := by
  induction hcovers with
  | refl => exact hcompleted
  | tail _ hawaited ih =>
    have hstarted := haccounts.completed_started _ ih
    exact haccounts.completed_of_awaited (haccounts.not_owed_of_started hstarted) hawaited

theorem completed_of_heeds {required : Nat} (hnot : ∀ other, (other, module) ∉ owed)
    (hheeds : Heeds graph state module required) :
    HasCompleted state required ∨ SameComponent graph required module := by
  rcases hheeds with ⟨next, hawaited, hcovers⟩ | hsame
  · exact .inl (haccounts.completed_of_covers (haccounts.completed_of_awaited hnot hawaited) hcovers)
  · exact .inr hsame

theorem of_eq {next : EvalState V} (hlog : next.log = state.log)
    (hpromises : next.promises = state.promises)
    (hpending : next.pendingAsyncDependencies = state.pendingAsyncDependencies)
    (hparents : next.asyncParentModules = state.asyncParentModules)
    (hasync : next.asyncEvaluating = state.asyncEvaluating) : Accounts graph next owed := by
  obtain ⟨_, _, _, _, _, _, _, _, _, _, _, _, _, _⟩ := next
  cases hlog
  cases hpromises
  cases hpending
  cases hparents
  cases hasync
  exact { haccounts with }

theorem start (hnew : ¬ HasStarted state module)
    (hzero : state.pendingAsyncDependencies module = some 0)
    (hheeds : ∀ required, Requests graph module required → Heeds graph state module required) :
    Accounts graph { state with log := state.log ++ [.started module] } owed := by
  have hlog : state.log ⊆ state.log ++ [.started module] := subset_append_left _ _
  have hnot : ∀ other, (other, module) ∉ owed :=
    haccounts.not_owed (by rw [pendingOf, hzero, getD_some])
  have hstarted : ∀ other, .started other ∈ state.log ++ [.started module] →
      HasStarted state other ∨ other = module := by
    intro other hmem
    rcases List.mem_append.mp hmem with hold | hself
    · exact .inl hold
    · injection List.mem_singleton.mp hself with hself
      exact .inr hself
  have hcompleted : ∀ other, .completed other ∈ state.log ++ [.started module] →
      HasCompleted state other := by
    intro other hmem
    rcases List.mem_append.mp hmem with hold | hself
    · exact hold
    · cases List.mem_singleton.mp hself
  refine {
    startsOnce := startsOnce_started haccounts.startsOnce hnew
    ordered := haccounts.ordered.started fun required hrequests =>
      haccounts.completed_of_heeds hnot (hheeds required hrequests)
    completed_started := fun other hother => hlog (haccounts.completed_started _ (hcompleted _ hother))
    promised_started := fun other hother => hlog (haccounts.promised_started _ hother)
    pending_eq := haccounts.pending_eq
    startsAtZero := ?_
    parent_owed := fun other parent hparent =>
      (haccounts.parent_owed other parent hparent).imp_left fun hold => hlog hold
    parents_le := haccounts.parents_le
    heeds := ?_ }
  · intro other hother
    rcases hstarted other hother with hold | rfl
    · exact haccounts.startsAtZero other hold
    · exact hzero
  · intro other hother required hrequests
    have hold : Heeds graph state other required := by
      rcases hother with hasync | hother
      · exact haccounts.heeds other (.inl hasync) required hrequests
      · rcases hstarted other hother with hold | rfl
        · exact haccounts.heeds other (.inr hold) required hrequests
        · exact hheeds required hrequests
    exact hold.mono hlog fun _ => List.Subset.refl _

theorem append (event : EvalEvent V) (hevent : ∀ module, event ≠ .started module)
    (hcompletes : ∀ module, event = .completed module → HasStarted state module) :
    Accounts graph { state with log := state.log ++ [event] } owed := by
  have hlog : state.log ⊆ state.log ++ [event] := subset_append_left _ _
  have hstarted : ∀ other, .started other ∈ state.log ++ [event] → HasStarted state other := by
    intro other hmem
    rcases List.mem_append.mp hmem with hold | hself
    · exact hold
    · exact absurd (List.mem_singleton.mp hself).symm (hevent other)
  refine {
    startsOnce := ?_
    ordered := haccounts.ordered.append hevent
    completed_started := ?_
    promised_started := fun other hother => hlog (haccounts.promised_started _ hother)
    pending_eq := haccounts.pending_eq
    startsAtZero := fun other hother => haccounts.startsAtZero other (hstarted other hother)
    parent_owed := fun other parent hparent =>
      (haccounts.parent_owed other parent hparent).imp_left fun hold => hlog hold
    parents_le := haccounts.parents_le
    heeds := ?_ }
  · have hnone : startedModules [event] = [] := by
      cases event with
      | started module => exact absurd rfl (hevent module)
      | completed module => rfl
      | settled promise rejection => rfl
    rw [startedModules_append, hnone, append_nil]
    exact haccounts.startsOnce
  · intro other hother
    rcases List.mem_append.mp hother with hold | hself
    · exact hlog (haccounts.completed_started other hold)
    · exact hlog (hcompletes other (List.mem_singleton.mp hself).symm)
  · intro other hother required hrequests
    exact (haccounts.heeds other (hother.imp_right (hstarted other)) required hrequests).mono hlog
      fun _ => List.Subset.refl _

theorem complete (hstarted : HasStarted state module) :
    Accounts graph { state with log := state.log ++ [.completed module] } owed :=
  haccounts.append _ (fun _ => nofun) fun other hother => by
    injection hother with hother
    exact hother ▸ hstarted

theorem settle (rejection : Option V) (promises : List Nat) :
    Accounts graph { state with log := state.log ++ promises.map (.settled · rejection) } owed := by
  induction promises generalizing state with
  | nil =>
    rw [map_nil, append_nil]
    exact haccounts
  | cons promise promises ih =>
    have hone := haccounts.append (.settled promise rejection) (fun _ => nofun)
      fun _ => nofun
    have hrest := ih hone
    rw [append_assoc] at hrest
    exact hrest

theorem wait (required : Nat) (hnew : ¬ HasStarted state module) : Accounts graph { state with
      pendingAsyncDependencies := Function.update state.pendingAsyncDependencies module
        (some (pendingOf state module + 1))
      asyncParentModules := Function.update state.asyncParentModules required
        (state.asyncParentModules required ++ [module]) } ((required, module) :: owed) := by
  have hparents : ∀ other, state.asyncParentModules other ⊆
      Function.update state.asyncParentModules required
        (state.asyncParentModules required ++ [module]) other := by
    intro other
    by_cases hother : other = required
    · rw [hother, update_self]
      exact subset_append_left _ _
    · rw [update_of_ne hother]
      exact List.Subset.refl _
  refine {
    startsOnce := haccounts.startsOnce
    ordered := haccounts.ordered
    completed_started := haccounts.completed_started
    promised_started := haccounts.promised_started
    pending_eq := fun other => ?_
    startsAtZero := fun other hother => ?_
    parent_owed := fun other parent hparent => ?_
    parents_le := fun other hasync parent => ?_
    heeds := fun other hother required hrequests =>
      (haccounts.heeds other hother required hrequests).mono (List.Subset.refl _) hparents }
  · rw [countP_cons, ← haccounts.pending_eq]
    by_cases hother : other = module
    · simp [pendingOf, hother]
    · simp [pendingOf, hother, Ne.symm hother]
  · have hne : other ≠ module := fun heq => hnew (heq ▸ hother)
    dsimp only
    rw [update_of_ne hne]
    exact haccounts.startsAtZero other hother
  · dsimp only at hparent
    by_cases hother : other = required
    · subst hother
      rw [update_self] at hparent
      rcases List.mem_append.mp hparent with hold | hself
      · exact (haccounts.parent_owed other parent hold).imp_right (mem_cons_of_mem _)
      · rw [List.mem_singleton.mp hself]
        exact .inr mem_cons_self
    · rw [update_of_ne hother] at hparent
      exact (haccounts.parent_owed other parent hparent).imp_right (mem_cons_of_mem _)
  · have hle := haccounts.parents_le other hasync parent
    dsimp only
    rw [count_cons]
    by_cases hother : other = required
    · subst hother
      by_cases hparent : parent = module
      · subst hparent
        simpa using hle
      · simpa [Ne.symm hparent] using hle
    · rw [update_of_ne hother]
      exact Nat.le_add_right_of_le hle

theorem evaluate (hparents : ∀ parent, (state.asyncParentModules module).count parent ≤
      owed.count (module, parent))
    (hheeds : ∀ required, Requests graph module required → Heeds graph state module required) :
    Accounts graph { state with
      asyncEvaluating := Function.update state.asyncEvaluating module true } owed :=
  { haccounts with
    parents_le := fun other hasync parent => by
      by_cases hother : other = module
      · exact hother ▸ hparents parent
      · dsimp only at hasync
        rw [update_of_ne hother] at hasync
        exact haccounts.parents_le other hasync parent
    heeds := fun other hasync required hrequests => by
      by_cases hother : other = module
      · exact hother ▸ hheeds required (hother ▸ hrequests)
      · dsimp only at hasync
        rw [update_of_ne hother] at hasync
        exact haccounts.heeds other hasync required hrequests }

theorem release (module : Nat) : Accounts graph { state with
      asyncEvaluating := Function.update state.asyncEvaluating module false } owed :=
  have hkeep : ∀ other, Function.update state.asyncEvaluating module false other = true →
      state.asyncEvaluating other = true := by
    intro other hasync
    by_cases hother : other = module
    · rw [hother, update_self] at hasync
      cases hasync
    · rwa [update_of_ne hother] at hasync
  { haccounts with
    parents_le := fun other hasync => haccounts.parents_le other (hkeep other hasync)
    heeds := fun other hasync => haccounts.heeds other (hasync.imp_left (hkeep other)) }

theorem pay {parent : Nat} (howed : (module, parent) ∈ owed)
    (hcompleted : HasCompleted state module) (hasync : state.asyncEvaluating module = false) :
    Accounts graph { state with
      pendingAsyncDependencies := Function.update state.pendingAsyncDependencies parent
        (some (pendingOf state parent - 1)) } (owed.erase (module, parent)) := by
  have hnew : ¬ HasStarted state parent := fun hstarted =>
    haccounts.not_owed_of_started hstarted module howed
  refine {
    startsOnce := haccounts.startsOnce
    ordered := haccounts.ordered
    completed_started := haccounts.completed_started
    promised_started := haccounts.promised_started
    pending_eq := fun other => ?_
    startsAtZero := fun other hother => ?_
    parent_owed := fun other waiting hwaiting => ?_
    parents_le := fun other hother waiting => ?_
    heeds := haccounts.heeds }
  · rw [countP_erase, ← haccounts.pending_eq]
    by_cases hother : other = parent
    · simp [pendingOf, hother, howed]
    · simp [pendingOf, hother, Ne.symm hother]
  · have hne : other ≠ parent := fun heq => hnew (heq ▸ hother)
    dsimp only
    rw [update_of_ne hne]
    exact haccounts.startsAtZero other hother
  · by_cases hother : other = module
    · exact .inl (hother ▸ hcompleted)
    · refine (haccounts.parent_owed other waiting hwaiting).imp_right fun hmem => ?_
      exact (mem_erase_of_ne fun heq => hother (congrArg Prod.fst heq)).mpr hmem
  · have hne : other ≠ module := by
      rintro rfl
      rw [hasync] at hother
      cases hother
    rw [count_erase_of_ne fun heq => hne (congrArg Prod.fst heq)]
    exact haccounts.parents_le other hother waiting

end

end Accounts

/-- A module that the search has come to. -/
def IsSeen (state : EvalState V) (module : Nat) : Prop :=
  state.status module = .evaluating ∨ state.status module = .evaluated

instance (state : EvalState V) (module : Nat) : Decidable (IsSeen state module) :=
  inferInstanceAs (Decidable (_ ∨ _))

/-- A module whose requests are being visited. -/
def InProgress (state : EvalState V) (module : Nat) : Prop :=
  state.status module = .evaluating ∧ state.asyncEvaluating module = false ∧
    ¬ HasCompleted state module

/-- What holds during a search. What has been left is covered by the root of its component,
which the search asks instead. -/
structure EvalSearch (graph : ModuleGraph) (state : EvalState V) (owed : List (Nat × Nat)) : Prop
    extends Accounts graph state owed where
  fresh : ∀ module, ¬ IsSeen state module → ¬ HasStarted state module ∧
    state.asyncEvaluating module = false ∧ ∀ required, (required, module) ∉ owed
  counted : ∀ module, state.status module = .evaluating →
    state.pendingAsyncDependencies module ≠ none
  on_stack : ∀ module, state.status module = .evaluating → module ∈ state.stack
  no_parents : ∀ module, state.asyncEvaluating module = false → state.asyncParentModules module = []
  owed_waits : ∀ module required, (required, module) ∈ owed →
    state.asyncEvaluating module = true ∨ InProgress state module
  waits : ∀ module, state.asyncEvaluating module = true → ¬ HasStarted state module →
    0 < pendingOf state module
  left : ∀ module, state.status module = .evaluated → ∃ cycleRoot,
    state.cycleRoot module = some cycleRoot ∧ Covers state cycleRoot module ∧
    (state.evaluationError cycleRoot = none →
      state.asyncEvaluating cycleRoot = true ∨ HasCompleted state cycleRoot)
  quiet : state.frames = []

/-- What a search leaves of the modules that it has come to before. -/
structure EvalKeeps (state next : EvalState V) : Prop where
  status : ∀ module, IsSeen state module → next.status module = state.status module
  async : ∀ module, IsSeen state module → next.asyncEvaluating module = state.asyncEvaluating module
  started : ∀ module, IsSeen state module → HasStarted next module → HasStarted state module
  completed : ∀ module, IsSeen state module → HasCompleted next module → HasCompleted state module
  log : state.log ⊆ next.log
  parents : ∀ module, state.asyncParentModules module ⊆ next.asyncParentModules module

theorem EvalKeeps.refl (state : EvalState V) : EvalKeeps state state :=
  ⟨fun _ _ => rfl, fun _ _ => rfl, fun _ _ => id, fun _ _ => id, List.Subset.refl _,
    fun _ => List.Subset.refl _⟩

theorem EvalKeeps.seen (hkeeps : EvalKeeps state next) (hseen : IsSeen state module) :
    IsSeen next module := by
  unfold IsSeen
  rw [hkeeps.status module hseen]
  exact hseen

theorem EvalKeeps.trans {middle : EvalState V} (hfirst : EvalKeeps state middle)
    (hsecond : EvalKeeps middle next) : EvalKeeps state next where
  status module hseen :=
    (hsecond.status module (hfirst.seen hseen)).trans (hfirst.status module hseen)
  async module hseen := (hsecond.async module (hfirst.seen hseen)).trans (hfirst.async module hseen)
  started module hseen hstarted :=
    hfirst.started module hseen (hsecond.started module (hfirst.seen hseen) hstarted)
  completed module hseen hcompleted :=
    hfirst.completed module hseen (hsecond.completed module (hfirst.seen hseen) hcompleted)
  log := List.Subset.trans hfirst.log hsecond.log
  parents module := List.Subset.trans (hfirst.parents module) (hsecond.parents module)

theorem EvalKeeps.inProgress (hkeeps : EvalKeeps state next) (hprogress : InProgress state module) :
    InProgress next module := by
  have hseen : IsSeen state module := .inl hprogress.1
  refine ⟨(hkeeps.status module hseen).trans hprogress.1,
    (hkeeps.async module hseen).trans hprogress.2.1, fun hcompleted => ?_⟩
  exact hprogress.2.2 (hkeeps.completed module hseen hcompleted)

theorem Covers.keeps (hcovers : Covers state module required) (hkeeps : EvalKeeps state next) :
    Covers next module required :=
  hcovers.mono hkeeps.log hkeeps.parents

theorem Heeds.keeps (hheeds : Heeds graph state module required) (hkeeps : EvalKeeps state next) :
    Heeds graph next module required :=
  hheeds.mono hkeeps.log hkeeps.parents

/-- The modules that the search has not come to. -/
def unseenModules (graph : ModuleGraph) (state : EvalState V) : Nat :=
  unseen (fun module => decide (IsSeen state module)) (List.range graph.count)

theorem EvalKeeps.unseenModules_le (hkeeps : EvalKeeps state next) (graph : ModuleGraph) :
    unseenModules graph next ≤ unseenModules graph state :=
  unseen_le _ fun _ hseen => decide_eq_true (hkeeps.seen (of_decide_eq_true hseen))

/-- What a visit that gives an index has done: it leaves nothing in progress of its own, and what
it leaves on the stack is covered by the module. -/
structure EvalVisited (state next : EvalState V) (module : Nat) : Prop extends
    EvalKeeps state next where
  self_seen : IsSeen next module
  settled : ∀ other, InProgress next other → InProgress state other
  stack : next.stack = state.stack ∨ next.status module = .evaluating ∧ ¬ InProgress next module ∧
      ∃ new, next.stack = new ++ state.stack ∧
        ∀ other ∈ new, ¬ IsSeen state other ∧ Covers next module other

/-- What a visit leaves, also where it throws. -/
def EvalVisitSpec (graph : ModuleGraph) (state : EvalState V) (module : Nat)
    (result : EvalState V × Except (EvalFailure V) Nat) : Prop :=
  (∃ owed, EvalSearch graph result.1 owed) ∧ match result.2 with
    | .ok _ => EvalVisited state result.1 module
    | .error failure => failure ≠ .diverges

structure EvalScanning (graph : ModuleGraph) (start state : EvalState V) (module : Nat)
    (rest : List ModuleRequest) : Prop where
  keeps : EvalKeeps start state
  progress : InProgress state module
  not_started : ¬ HasStarted state module
  others : ∀ other, InProgress state other → InProgress start other ∨ other = module
  stack : ∃ new, state.stack = new ++ module :: start.stack ∧
    ∀ other ∈ new, ¬ IsSeen start other ∧ other ≠ module ∧ Covers state module other
  heeds : ∀ request ∈ (graph.source module).requestedModules, request ∈ rest ∨
    Heeds graph state module (graph.resolve module request)

section Enter

variable {graph : ModuleGraph} {state : EvalState V} {owed : List (Nat × Nat)} {module : Nat}

theorem evalKeeps_enterEvaluation (hnew : ¬ IsSeen state module) (index : Nat) :
    EvalKeeps state (enterEvaluation state index module) where
  status other hseen := update_of_ne (fun heq : other = module => hnew (heq ▸ hseen)) _ _
  async _ _ := rfl
  started _ _ := id
  completed _ _ := id
  log := List.Subset.refl _
  parents _ := List.Subset.refl _

theorem EvalSearch.enter (hsearch : EvalSearch graph state owed) (hnew : ¬ IsSeen state module)
    (index : Nat) : EvalSearch graph (enterEvaluation state index module) owed := by
  obtain ⟨hstarted, hasync, hnot⟩ := hsearch.fresh module hnew
  have hkeeps := evalKeeps_enterEvaluation hnew index
  have hzero : owed.countP (fun pair => pair.2 = module) = 0 :=
    List.countP_eq_zero.mpr fun pair hmem hpair => hnot pair.1 (of_decide_eq_true hpair ▸ hmem)
  refine { hsearch with
    pending_eq := fun other => ?_
    startsAtZero := fun other hother => ?_
    fresh := fun other hother => hsearch.fresh other fun hseen => hother (hkeeps.seen hseen)
    counted := fun other hother => ?_
    on_stack := fun other hother => ?_
    owed_waits := fun other required hmem =>
      (hsearch.owed_waits other required hmem).imp_right hkeeps.inProgress
    waits := fun other hother hnone => ?_
    left := fun other hother => ?_ }
  · by_cases hother : other = module
    · subst hother
      simp [pendingOf, enterEvaluation, hzero]
    · rw [← hsearch.pending_eq]
      simp [pendingOf, enterEvaluation, hother]
  · have hne : other ≠ module := fun heq => hstarted (heq ▸ hother)
    simp only [enterEvaluation]
    rw [update_of_ne hne]
    exact hsearch.startsAtZero other hother
  · by_cases hself : other = module
    · simp [enterEvaluation, hself]
    · simp only [enterEvaluation] at hother ⊢
      rw [update_of_ne hself] at hother ⊢
      exact hsearch.counted other hother
  · by_cases hself : other = module
    · rw [hself]
      exact mem_cons_self
    · simp only [enterEvaluation] at hother
      rw [update_of_ne hself] at hother
      exact mem_cons_of_mem _ (hsearch.on_stack other hother)
  · have hne : other ≠ module := by
      rintro rfl
      exact absurd (hother.symm.trans hasync) nofun
    have hwaits := hsearch.waits other hother hnone
    simpa [pendingOf, enterEvaluation, hne] using hwaits
  · have hne : other ≠ module := by
      rintro rfl
      simp [enterEvaluation] at hother
    simp only [enterEvaluation] at hother
    rw [update_of_ne hne] at hother
    exact hsearch.left other hother

theorem EvalSearch.scanning_enter (hsearch : EvalSearch graph state owed)
    (hnew : ¬ IsSeen state module) (index : Nat) :
    EvalScanning graph state (enterEvaluation state index module) module
      (graph.source module).requestedModules := by
  obtain ⟨hstarted, hasync, -⟩ := hsearch.fresh module hnew
  refine {
    keeps := evalKeeps_enterEvaluation hnew index
    progress := ⟨update_self _ _ _, hasync, fun hcompleted => ?_⟩
    not_started := hstarted
    others := fun other hother => ?_
    stack := ⟨[], rfl, nofun⟩
    heeds := fun request hmem => .inl hmem }
  · exact hstarted (hsearch.completed_started module hcompleted)
  · by_cases hself : other = module
    · exact .inr hself
    · refine .inl ⟨?_, hother.2⟩
      have hstatus := hother.1
      simp only [enterEvaluation] at hstatus
      rwa [update_of_ne hself] at hstatus

end Enter

section Follow

variable {graph : ModuleGraph} {state : EvalState V} {owed : List (Nat × Nat)}
  {module required : Nat}

variable {next : EvalState V}

theorem evalKeeps_of_eq (hstatus : next.status = state.status)
    (hasync : next.asyncEvaluating = state.asyncEvaluating) (hlog : next.log = state.log)
    (hparents : ∀ other, state.asyncParentModules other ⊆ next.asyncParentModules other) :
    EvalKeeps state next where
  status _ _ := by rw [hstatus]
  async _ _ := by rw [hasync]
  started _ _ hstarted := by rwa [HasStarted, hlog] at hstarted
  completed _ _ hcompleted := by rwa [HasCompleted, hlog] at hcompleted
  log := by rw [hlog]; exact List.Subset.refl _
  parents := hparents

/-- What a request does to a module: it is at most counted. -/
structure OnlyCounts (state next : EvalState V) : Prop where
  status : next.status = state.status
  async : next.asyncEvaluating = state.asyncEvaluating
  log : next.log = state.log
  stack : next.stack = state.stack
  parents : ∀ other, state.asyncParentModules other ⊆ next.asyncParentModules other

theorem OnlyCounts.keeps (hcounts : OnlyCounts state next) : EvalKeeps state next :=
  evalKeeps_of_eq hcounts.status hcounts.async hcounts.log hcounts.parents

theorem OnlyCounts.inProgress (hcounts : OnlyCounts state next) {other : Nat} :
    InProgress next other ↔ InProgress state other := by
  unfold InProgress HasCompleted
  rw [hcounts.status, hcounts.async, hcounts.log]

theorem onlyCounts_awaitDependency (state : EvalState V) (module required : Nat) :
    OnlyCounts state (awaitDependency state module required) := by
  unfold awaitDependency
  split
  · refine ⟨rfl, rfl, rfl, rfl, fun other => ?_⟩
    by_cases hother : other = required
    · simp [hother]
    · simp [hother]
  · exact ⟨rfl, rfl, rfl, rfl, fun _ => List.Subset.refl _⟩

theorem mem_awaitDependency (hasync : state.asyncEvaluating required = true) :
    module ∈ (awaitDependency state module required).asyncParentModules required := by
  simp [awaitDependency, hasync]

theorem EvalSearch.wait (hsearch : EvalSearch graph state owed)
    (hprogress : InProgress state module) (hnew : ¬ HasStarted state module) :
    ∃ owed, EvalSearch graph (awaitDependency state module required) owed := by
  by_cases hasync : state.asyncEvaluating required = true
  · have hcounts := onlyCounts_awaitDependency state module required
    have hkeeps := hcounts.keeps
    rw [awaitDependency, if_pos hasync] at hcounts hkeeps ⊢
    have haccounts := hsearch.toAccounts.wait required hnew
    refine ⟨(required, module) :: owed, { haccounts with
      fresh := fun other hother => ?_
      counted := fun other hother => ?_
      on_stack := hsearch.on_stack
      no_parents := fun other hother => ?_
      owed_waits := fun other needed hmem => ?_
      waits := fun other hother hnone => ?_
      left := fun other hother => ?_
      quiet := hsearch.quiet }⟩
    · obtain ⟨hstarted, hidle, hnot⟩ := hsearch.fresh other hother
      refine ⟨hstarted, hidle, fun needed hmem => ?_⟩
      rcases List.mem_cons.mp hmem with heq | hmem
      · injection heq with _ hself
        exact hother (.inl (hself ▸ hprogress.1))
      · exact hnot needed hmem
    · by_cases hself : other = module
      · simp [hself]
      · simpa [hself] using hsearch.counted other hother
    · have hne : other ≠ required := by
        rintro rfl
        exact absurd (hasync.symm.trans hother) nofun
      dsimp only
      rw [update_of_ne hne]
      exact hsearch.no_parents other hother
    · rcases List.mem_cons.mp hmem with heq | hmem
      · injection heq with _ hself
        exact .inr (hself ▸ hprogress)
      · exact hsearch.owed_waits other needed hmem
    · have hwaits := hsearch.waits other hother hnone
      by_cases hself : other = module
      · simp [pendingOf, hself]
      · simpa [pendingOf, hself] using hwaits
    · obtain ⟨cycleRoot, hroot, hcovers, hdone⟩ := hsearch.left other hother
      exact ⟨cycleRoot, hroot, hcovers.keeps hkeeps, hdone⟩
  · rw [awaitDependency, if_neg hasync]
    exact ⟨owed, hsearch⟩

theorem EvalSearch.ancestor (hsearch : EvalSearch graph state owed)
    (dfsAncestorIndex : Nat → Option Nat) :
    EvalSearch graph { state with dfsAncestorIndex := dfsAncestorIndex } owed :=
  { hsearch with toAccounts := hsearch.toAccounts.of_eq rfl rfl rfl rfl rfl }

theorem onlyCounts_followEvaluation (state : EvalState V) (module required : Nat) :
    OnlyCounts state (followEvaluation state module required).1 := by
  unfold followEvaluation
  split
  · have hcounts := onlyCounts_awaitDependency { state with
      dfsAncestorIndex := Function.update state.dfsAncestorIndex module
        (some (min ((state.dfsAncestorIndex module).getD 0)
          ((state.dfsAncestorIndex required).getD 0))) } module required
    exact ⟨hcounts.status, hcounts.async, hcounts.log, hcounts.stack, hcounts.parents⟩
  · dsimp only
    split
    · exact ⟨rfl, rfl, rfl, rfl, fun _ => List.Subset.refl _⟩
    · exact onlyCounts_awaitDependency state module _

theorem EvalSearch.follow (hsearch : EvalSearch graph state owed)
    (hprogress : InProgress state module) (hnew : ¬ HasStarted state module) :
    ∃ owed, EvalSearch graph (followEvaluation state module required).1 owed := by
  unfold followEvaluation
  split
  · exact (hsearch.ancestor _).wait hprogress hnew
  · dsimp only
    split
    · exact ⟨owed, hsearch⟩
    · exact hsearch.wait hprogress hnew

/-- A request that is on the stack and not in progress is waited for, or has completed. -/
theorem awaited_followEvaluation (hstatus : state.status required = .evaluating)
    (hprogress : ¬ InProgress state required) :
    Awaited (followEvaluation state module required).1 module required := by
  by_cases hasync : state.asyncEvaluating required = true
  · refine .inr ?_
    rw [followEvaluation, if_pos hstatus]
    exact mem_awaitDependency hasync
  · have hcompleted : HasCompleted state required := by
      by_contra hcompleted
      exact hprogress ⟨hstatus, eq_false_of_ne_true hasync, hcompleted⟩
    exact .inl ((onlyCounts_followEvaluation state module required).keeps.log hcompleted)

theorem heeds_followEvaluation (hsearch : EvalSearch graph state owed)
    (hseen : IsSeen state required) (hrequests : Requests graph module required)
    (hreach : InProgress state required → Relation.ReflTransGen (Requests graph) required module)
    (hnone : (followEvaluation state module required).2 = none) :
    Heeds graph (followEvaluation state module required).1 module required := by
  by_cases hprogress : InProgress state required
  · exact .inr ⟨hreach hprogress, Relation.ReflTransGen.single hrequests⟩
  · rcases hseen with hstatus | hstatus
    · exact .inl ⟨required, awaited_followEvaluation hstatus hprogress, Relation.ReflTransGen.refl⟩
    · obtain ⟨cycleRoot, hroot, hcovers, hdone⟩ := hsearch.left required hstatus
      have hkeeps := (onlyCounts_followEvaluation state module required).keeps
      refine .inl ⟨cycleRoot, ?_, hcovers.keeps hkeeps⟩
      have hother : state.status required ≠ .evaluating := by
        rw [hstatus]
        exact nofun
      rw [followEvaluation, if_neg hother] at hnone hkeeps ⊢
      rw [hroot, getD_some] at hnone hkeeps ⊢
      dsimp only at hnone hkeeps ⊢
      cases herror : state.evaluationError cycleRoot with
      | some error =>
        rw [herror] at hnone
        cases hnone
      | none =>
        rw [herror] at hkeeps
        rcases hdone herror with hasync | hcompleted
        · exact .inr (mem_awaitDependency hasync)
        · exact .inl (hkeeps.log hcompleted)

theorem EvalScanning.follow {start : EvalState V} {request : ModuleRequest}
    {rest : List ModuleRequest}
    (hscanning : EvalScanning graph start state module (request :: rest))
    (hvisited : EvalVisited state next (graph.resolve module request))
    (hsearch : EvalSearch graph next owed)
    (hmem : request ∈ (graph.source module).requestedModules)
    (hreach : ∀ other, InProgress state other → Relation.ReflTransGen (Requests graph) other module)
    (hnone : (followEvaluation next module (graph.resolve module request)).2 = none) :
    EvalScanning graph start (followEvaluation next module (graph.resolve module request)).1 module
      rest := by
  have hcounts := onlyCounts_followEvaluation next module (graph.resolve module request)
  have hkeeps := hvisited.toEvalKeeps.trans hcounts.keeps
  have hself : IsSeen state module := .inl hscanning.progress.1
  refine {
    keeps := hscanning.keeps.trans hkeeps
    progress := hkeeps.inProgress hscanning.progress
    not_started := fun hstarted => hscanning.not_started (hkeeps.started module hself hstarted)
    others := fun other hother =>
      hscanning.others other (hvisited.settled other (hcounts.inProgress.mp hother))
    stack := ?_
    heeds := fun other hother => ?_ }
  · obtain ⟨new, hstack, hnew⟩ := hscanning.stack
    have hold : ∀ other ∈ new, ¬ IsSeen start other ∧ other ≠ module ∧
        Covers (followEvaluation next module (graph.resolve module request)).1 module other :=
      fun other hmem => ⟨(hnew other hmem).1, (hnew other hmem).2.1,
        (hnew other hmem).2.2.keeps hkeeps⟩
    rcases hvisited.stack with hsame | ⟨hstatus, hprogress, added, hadded, hcovered⟩
    · exact ⟨new, hcounts.stack.trans (hsame.trans hstack), hold⟩
    · refine ⟨added ++ new, ?_, fun other hmem => ?_⟩
      · rw [hcounts.stack, hadded, hstack, append_assoc]
      · rcases List.mem_append.mp hmem with hmem | hmem
        · obtain ⟨hunseen, hcovers⟩ := hcovered other hmem
          refine ⟨fun hseen => hunseen (hscanning.keeps.seen hseen), ?_, ?_⟩
          · rintro rfl
            exact hunseen hself
          · exact Relation.ReflTransGen.head (awaited_followEvaluation hstatus hprogress)
              (hcovers.keeps hcounts.keeps)
        · exact hold other hmem
  · rcases hscanning.heeds other hother with hleft | hheeds
    · rcases List.mem_cons.mp hleft with rfl | hleft
      · exact .inr (heeds_followEvaluation hsearch hvisited.self_seen ⟨other, hother, rfl⟩
          (fun hprogress => hreach _ (hvisited.settled _ hprogress)) hnone)
      · exact .inl hleft
    · exact .inr (hheeds.keeps hkeeps)

theorem evaluateRequests_spec {start : EvalState V} {turns : Nat}
    {visit : EvalState V → Nat → Nat → EvalState V × Except (EvalFailure V) Nat}
    (hvisit : ∀ (state : EvalState V) (owed : List (Nat × Nat)) (index required : Nat),
      EvalSearch graph state owed →
      (∀ other, InProgress state other → Relation.ReflTransGen (Requests graph) other required) →
      unseenModules graph state < turns → required < graph.count →
      EvalVisitSpec graph state required (visit state index required))
    (hreach : ∀ other, InProgress start other →
      Relation.ReflTransGen (Requests graph) other module) :
    ∀ (requests : List ModuleRequest) (state : EvalState V) (owed : List (Nat × Nat))
      (index : Nat),
      requests ⊆ (graph.source module).requestedModules →
      EvalSearch graph state owed → EvalScanning graph start state module requests →
      unseenModules graph state < turns →
      (∃ owed, EvalSearch graph (evaluateRequests graph visit module requests state index).1 owed) ∧
        match (evaluateRequests graph visit module requests state index).2 with
        | .ok _ => EvalScanning graph start
            (evaluateRequests graph visit module requests state index).1 module []
        | .error failure => failure ≠ .diverges
  | [], state, owed, index, _, hsearch, hscanning, _ => ⟨⟨owed, hsearch⟩, hscanning⟩
  | request :: requests, state, owed, index, hsubset, hsearch, hscanning, henough => by
    have hmem : request ∈ (graph.source module).requestedModules := hsubset mem_cons_self
    have hown : ∀ other, InProgress state other →
        Relation.ReflTransGen (Requests graph) other module := by
      intro other hprogress
      rcases hscanning.others other hprogress with hold | rfl
      · exact hreach other hold
      · exact Relation.ReflTransGen.refl
    have hspec := hvisit state owed index (graph.resolve module request) hsearch
      (fun other hprogress => (hown other hprogress).tail ⟨request, hmem, rfl⟩) henough
      (graph.resolve_lt module request)
    rw [evaluateRequests]
    rcases hresult : visit state index (graph.resolve module request) with ⟨next, result⟩
    rw [hresult] at hspec
    obtain ⟨⟨nextOwed, hnext⟩, hspec⟩ := hspec
    cases result with
    | error failure => exact ⟨⟨nextOwed, hnext⟩, hspec⟩
    | ok nextIndex =>
      have hvisited : EvalVisited state next (graph.resolve module request) := hspec
      have hself : IsSeen state module := .inl hscanning.progress.1
      obtain ⟨followedOwed, hfollowed⟩ := hnext.follow

        (hvisited.toEvalKeeps.inProgress hscanning.progress)
        fun hstarted => hscanning.not_started (hvisited.started module hself hstarted)
      have hscanned := hscanning.follow hvisited hnext hmem hown
      have hcounts := onlyCounts_followEvaluation next module (graph.resolve module request)
      have hkeeps := hvisited.toEvalKeeps.trans hcounts.keeps
      rcases hfollow : followEvaluation next module (graph.resolve module request) with
        ⟨followed, thrown⟩
      rw [hfollow] at hfollowed hscanned hkeeps
      simp only [hfollow]
      cases thrown with
      | some error => exact ⟨⟨followedOwed, hfollowed⟩, nofun⟩
      | none =>
        exact evaluateRequests_spec hvisit hreach requests followed followedOwed nextIndex
          (fun other hother => hsubset (mem_cons_of_mem _ hother)) hfollowed
          (hscanned rfl) (Nat.lt_of_le_of_lt (hkeeps.unseenModules_le graph) henough)

end Follow

section Execute

variable {graph : ModuleGraph} {state : EvalState V} {owed : List (Nat × Nat)} {module : Nat}

section

variable (hsearch : EvalSearch graph state owed)
include hsearch

theorem EvalSearch.start (hseen : IsSeen state module) (hnew : ¬ HasStarted state module)
    (hzero : state.pendingAsyncDependencies module = some 0)
    (hheeds : ∀ required, Requests graph module required → Heeds graph state module required) :
    EvalSearch graph { state with log := state.log ++ [.started module] } owed := by
  have hlog : state.log ⊆ state.log ++ [.started module] := subset_append_left _ _
  have hcompleted : ∀ other, .completed other ∈ state.log ++ [.started module] →
      HasCompleted state other := by
    intro other hmem
    rcases List.mem_append.mp hmem with hold | hself
    · exact hold
    · cases List.mem_singleton.mp hself
  refine { hsearch with
    toAccounts := hsearch.toAccounts.start hnew hzero hheeds
    fresh := fun other hother => ?_
    owed_waits := fun other required hmem => ?_
    waits := fun other hasync hnone => hsearch.waits other hasync fun hold => hnone (hlog hold)
    left := fun other hother => ?_ }
  · obtain ⟨hstarted, hrest⟩ := hsearch.fresh other hother
    refine ⟨fun hmem => ?_, hrest⟩
    rcases List.mem_append.mp hmem with hold | hself
    · exact hstarted hold
    · injection List.mem_singleton.mp hself with hself
      exact hother (hself ▸ hseen)
  · refine (hsearch.owed_waits other required hmem).imp_right fun hprogress => ?_
    exact ⟨hprogress.1, hprogress.2.1, fun hdone => hprogress.2.2 (hcompleted other hdone)⟩
  · obtain ⟨cycleRoot, hroot, hcovers, hdone⟩ := hsearch.left other hother
    exact ⟨cycleRoot, hroot, hcovers.mono hlog fun _ => List.Subset.refl _,
      fun hnone => (hdone hnone).imp_right fun hold => hlog hold⟩

theorem EvalSearch.complete (hstarted : HasStarted state module) :
    EvalSearch graph { state with log := state.log ++ [.completed module] } owed := by
  have hlog : state.log ⊆ state.log ++ [.completed module] := subset_append_left _ _
  have hold : ∀ other, .started other ∈ state.log ++ [.completed module] →
      HasStarted state other := by
    intro other hmem
    rcases List.mem_append.mp hmem with hold | hself
    · exact hold
    · cases List.mem_singleton.mp hself
  refine { hsearch with
    toAccounts := hsearch.toAccounts.complete hstarted
    fresh := fun other hother =>
      ⟨fun hmem => (hsearch.fresh other hother).1 (hold other hmem), (hsearch.fresh other hother).2⟩
    owed_waits := fun other required hmem => ?_
    waits := fun other hasync hnone => hsearch.waits other hasync fun hmem => hnone (hlog hmem)
    left := fun other hother => ?_ }
  · refine (hsearch.owed_waits other required hmem).imp_right fun hprogress => ?_
    refine ⟨hprogress.1, hprogress.2.1, fun hdone => ?_⟩
    rcases List.mem_append.mp hdone with hdone | hself
    · exact hprogress.2.2 hdone
    · injection List.mem_singleton.mp hself with hself
      exact hsearch.not_owed_of_started (hself ▸ hstarted) required hmem
  · obtain ⟨cycleRoot, hroot, hcovers, hdone⟩ := hsearch.left other hother
    exact ⟨cycleRoot, hroot, hcovers.mono hlog fun _ => List.Subset.refl _,
      fun hnone => (hdone hnone).imp_right fun hmem => hlog hmem⟩

theorem EvalSearch.evaluate (hseen : IsSeen state module)
    (hasync : state.asyncEvaluating module = false)
    (hwaits : HasStarted state module ∨ 0 < pendingOf state module)
    (hheeds : ∀ required, Requests graph module required → Heeds graph state module required) :
    EvalSearch graph { state with
      asyncEvaluating := Function.update state.asyncEvaluating module true } owed := by
  have hparents : ∀ parent, (state.asyncParentModules module).count parent ≤
      owed.count (module, parent) := by
    intro parent
    rw [hsearch.no_parents module hasync]
    exact Nat.zero_le _
  have hkeep : ∀ other, state.asyncEvaluating other = true →
      Function.update state.asyncEvaluating module true other = true := by
    intro other hother
    by_cases hself : other = module
    · rw [hself, update_self]
    · rwa [update_of_ne hself]
  refine { hsearch with
    toAccounts := hsearch.toAccounts.evaluate hparents hheeds
    fresh := fun other hother => ?_
    no_parents := fun other hother => ?_
    owed_waits := fun other required hmem => ?_
    waits := fun other hother hnone => ?_
    left := fun other hother => ?_ }
  · have hne : other ≠ module := fun heq => hother (heq ▸ hseen)
    dsimp only
    rw [update_of_ne hne]
    exact hsearch.fresh other hother
  · have hne : other ≠ module := by
      rintro rfl
      dsimp only at hother
      rw [update_self] at hother
      cases hother
    dsimp only at hother
    rw [update_of_ne hne] at hother
    exact hsearch.no_parents other hother
  · by_cases hself : other = module
    · exact .inl (by dsimp only; rw [hself, update_self])
    · rcases hsearch.owed_waits other required hmem with hold | hprogress
      · exact .inl (hkeep other hold)
      · refine .inr ⟨hprogress.1, ?_, hprogress.2.2⟩
        dsimp only
        rw [update_of_ne hself]
        exact hprogress.2.1
  · by_cases hself : other = module
    · subst hself
      exact hwaits.resolve_left hnone
    · dsimp only at hother
      rw [update_of_ne hself] at hother
      exact hsearch.waits other hother hnone
  · obtain ⟨cycleRoot, hroot, hcovers, hdone⟩ := hsearch.left other hother
    exact ⟨cycleRoot, hroot, hcovers, fun hnone => (hdone hnone).imp_left (hkeep cycleRoot)⟩

theorem EvalSearch.promise (hstarted : HasStarted state module) :
    EvalSearch graph { state with promises := module :: state.promises } owed :=
  { hsearch with
    toAccounts := { hsearch.toAccounts with
      promised_started := fun other hother => by
        rcases List.mem_cons.mp hother with rfl | hmem
        · exact hstarted
        · exact hsearch.promised_started other hmem } }

theorem EvalSearch.storeError (error : V) : EvalSearch graph { state with
      evaluationError := Function.update state.evaluationError module (some error) } owed := by
  refine { hsearch with
    toAccounts := hsearch.toAccounts.of_eq rfl rfl rfl rfl rfl
    left := fun other hother => ?_ }
  obtain ⟨cycleRoot, hroot, hcovers, hdone⟩ := hsearch.left other hother
  refine ⟨cycleRoot, hroot, hcovers, fun hnone => hdone ?_⟩
  dsimp only at hnone
  by_cases hself : cycleRoot = module
  · rw [hself, update_self] at hnone
    cases hnone
  · rwa [update_of_ne hself] at hnone

theorem EvalSearch.executeAsync (hprogress : InProgress state module)
    (hnew : ¬ HasStarted state module) (hzero : state.pendingAsyncDependencies module = some 0)
    (hheeds : ∀ required, Requests graph module required → Heeds graph state module required) :
    EvalSearch graph (moduleExecuteAsyncModule state module) owed := by
  have hstart := hsearch.start (.inl hprogress.1) hnew hzero hheeds
  have hstarted : HasStarted { state with log := state.log ++ [.started module] } module :=
    mem_append_right _ (mem_singleton_self _)
  exact (hstart.evaluate (.inl hprogress.1) hprogress.2.1 (.inl hstarted)
    fun required hrequests => hstart.heeds module (.inr hstarted) required hrequests).promise hstarted

end

structure EvalExecuted (state next : EvalState V) (module : Nat) : Prop where
  status : next.status = state.status
  stack : next.stack = state.stack
  parents : next.asyncParentModules = state.asyncParentModules
  log : state.log ⊆ next.log
  async : ∀ other, other ≠ module → next.asyncEvaluating other = state.asyncEvaluating other
  started : ∀ other, other ≠ module → HasStarted next other → HasStarted state other
  completed : ∀ other, other ≠ module → HasCompleted next other → HasCompleted state other

variable {next : EvalState V}

theorem EvalExecuted.keeps {start : EvalState V} (hexecuted : EvalExecuted state next module)
    (hkeeps : EvalKeeps start state) (hnew : ¬ IsSeen start module) : EvalKeeps start next where
  status other hseen := by rw [hexecuted.status, hkeeps.status other hseen]
  async other hseen := by
    rw [hexecuted.async other fun heq => hnew (heq ▸ hseen), hkeeps.async other hseen]
  started other hseen hstarted :=
    hkeeps.started other hseen (hexecuted.started other (fun heq => hnew (heq ▸ hseen)) hstarted)
  completed other hseen hcompleted :=
    hkeeps.completed other hseen
      (hexecuted.completed other (fun heq => hnew (heq ▸ hseen)) hcompleted)
  log := List.Subset.trans hkeeps.log hexecuted.log
  parents other := by
    rw [hexecuted.parents]
    exact hkeeps.parents other

theorem EvalExecuted.covers (hexecuted : EvalExecuted state next module) {other required : Nat}
    (hcovers : Covers state other required) : Covers next other required :=
  hcovers.mono hexecuted.log fun other => by
    rw [hexecuted.parents]
    exact List.Subset.refl _

theorem evalExecuted_log (events : List (EvalEvent V))
    (hevents : ∀ other, other ≠ module → .started other ∉ events ∧ .completed other ∉ events)
    (hlog : next.log = state.log ++ events) (hstatus : next.status = state.status)
    (hstack : next.stack = state.stack)
    (hparents : next.asyncParentModules = state.asyncParentModules)
    (hasync : ∀ other, other ≠ module → next.asyncEvaluating other = state.asyncEvaluating other) :
    EvalExecuted state next module where
  status := hstatus
  stack := hstack
  parents := hparents
  log := by
    rw [hlog]
    exact subset_append_left _ _
  async := hasync
  started other hne hstarted := by
    rw [HasStarted, hlog] at hstarted
    exact (List.mem_append.mp hstarted).resolve_right (hevents other hne).1
  completed other hne hcompleted := by
    rw [HasCompleted, hlog] at hcompleted
    exact (List.mem_append.mp hcompleted).resolve_right (hevents other hne).2

theorem not_mem_bodyEvents {other : Nat} (hne : other ≠ module) :
    (.started other ∉ [(.started module : EvalEvent V), .completed module] ∧
      .completed other ∉ [(.started module : EvalEvent V), .completed module]) ∧
    .started other ∉ [(.started module : EvalEvent V)] ∧
      .completed other ∉ [(.started module : EvalEvent V)] := by
  simp [hne]

/-- What an execution that does not throw leaves of the module: it is waited for, it has
completed, or it is synthetic and has stored an error. -/
def IsExecuted (graph : ModuleGraph) (next : EvalState V) (module : Nat) : Prop :=
  next.asyncEvaluating module = true ∨ HasCompleted next module ∨
    (graph.source module).isSynthetic = true ∧ next.evaluationError module ≠ none ∧
      HasStarted next module

theorem executeModule_spec (outcome : Nat → Option V) (hsearch : EvalSearch graph state owed)
    (hprogress : InProgress state module) (hnew : ¬ HasStarted state module)
    (hheeds : ∀ required, Requests graph module required → Heeds graph state module required)
    (hidle : (graph.source module).isSynthetic = true →
      state.pendingAsyncDependencies module = some 0) :
    EvalSearch graph (executeModule graph outcome state module).1 owed ∧
      EvalExecuted state (executeModule graph outcome state module).1 module ∧
      ((executeModule graph outcome state module).2 = none →
        IsExecuted graph (executeModule graph outcome state module).1 module) := by
  have hseen : IsSeen state module := .inl hprogress.1
  have hbody : state.pendingAsyncDependencies module = some 0 →
      EvalSearch graph { state with log := state.log ++ [.started module] } owed :=
    fun hzero => hsearch.start hseen hnew hzero hheeds
  have hstarted : HasStarted { state with log := state.log ++ [.started module] } module :=
    mem_append_right _ (mem_singleton_self _)
  have hthrows : EvalExecuted state { state with log := state.log ++ [.started module] } module :=
    evalExecuted_log [.started module] (fun _ hne => (not_mem_bodyEvents hne).2) rfl rfl rfl rfl
      fun _ _ => rfl
  have hreturns : EvalExecuted state
      { state with log := state.log ++ [.started module] ++ [.completed module] } module :=
    evalExecuted_log [.started module, .completed module]
      (fun _ hne => (not_mem_bodyEvents hne).1) (append_assoc _ _ _) rfl rfl rfl fun _ _ => rfl
  have hcompleted :
      HasCompleted { state with log := state.log ++ [.started module] ++ [.completed module] }
        module := mem_append_right _ (mem_singleton_self _)
  unfold executeModule
  by_cases hsynthetic : (graph.source module).isSynthetic = true
  · rw [if_pos hsynthetic]
    have hstart := hbody (hidle hsynthetic)
    cases houtcome : outcome module with
    | none => exact ⟨hstart.complete hstarted, hreturns, fun _ => .inr (.inl hcompleted)⟩
    | some error =>
      refine ⟨hstart.storeError error, ?_, fun _ => .inr (.inr ⟨hsynthetic, ?_, hstarted⟩)⟩
      · exact ⟨hthrows.status, hthrows.stack, hthrows.parents, hthrows.log, hthrows.async,
          hthrows.started, hthrows.completed⟩
      · simp
  · rw [if_neg hsynthetic]
    have hupdate : ∀ other, other ≠ module →
        Function.update state.asyncEvaluating module true other = state.asyncEvaluating other :=
      fun other hne => update_of_ne hne _ _
    by_cases hpending : 0 < pendingOf state module
    · rw [if_pos hpending]
      refine ⟨hsearch.evaluate hseen hprogress.2.1 (.inr hpending) hheeds, ?_,
        fun _ => .inl (update_self _ _ _)⟩
      exact evalExecuted_log [] (fun _ _ => ⟨nofun, nofun⟩) (append_nil _).symm rfl rfl rfl
        hupdate
    · rw [if_neg hpending]
      have hzero : state.pendingAsyncDependencies module = some 0 := by
        have hnone : pendingOf state module = 0 := Nat.eq_zero_of_not_pos hpending
        unfold pendingOf at hnone
        cases hcount : state.pendingAsyncDependencies module with
        | none => exact absurd hcount (hsearch.counted module hprogress.1)
        | some count =>
          rw [hcount, getD_some] at hnone
          rw [hnone]
      have hstart := hbody hzero
      by_cases hisAsync : (graph.source module).isAsync = true
      · rw [if_pos hisAsync]
        refine ⟨hsearch.executeAsync hprogress hnew hzero hheeds, ?_,
          fun _ => .inl (update_self _ _ _)⟩
        exact evalExecuted_log [.started module] (fun _ hne => (not_mem_bodyEvents hne).2) rfl rfl
          rfl rfl hupdate
      · rw [if_neg hisAsync]
        cases houtcome : outcome module with
        | none => exact ⟨hstart.complete hstarted, hreturns, fun _ => .inr (.inl hcompleted)⟩
        | some error => exact ⟨hstart, hthrows, nofun⟩

end Execute

section Leave

variable {graph : ModuleGraph} {start state : EvalState V} {owed : List (Nat × Nat)}
  {module : Nat}

theorem popCycle_spec (base : List Nat) :
    ∀ (new : List Nat) (status : Nat → ModuleStatus) (cycleRoots : Nat → Option Nat),
      (∀ other ∈ new, other ≠ module) →
      (popCycle module (new ++ module :: base) status cycleRoots).1 = base ∧ ∀ other,
          (other ∈ new ++ [module] →
            (popCycle module (new ++ module :: base) status cycleRoots).2.1 other = .evaluated ∧
              (popCycle module (new ++ module :: base) status cycleRoots).2.2 other = some module) ∧
          (other ∉ new ++ [module] →
            (popCycle module (new ++ module :: base) status cycleRoots).2.1 other = status other ∧
              (popCycle module (new ++ module :: base) status cycleRoots).2.2 other =
                cycleRoots other)
  | [], status, cycleRoots, _ => by
    rw [nil_append, popCycle]
    rw [if_pos rfl]
    dsimp only
    refine ⟨rfl, fun other => ⟨fun hmem => ?_, fun hnot => ?_⟩⟩
    · rw [List.mem_singleton.mp hmem, update_self, update_self]
      exact ⟨rfl, rfl⟩
    · have hne : other ≠ module := fun heq => hnot (List.mem_singleton.mpr heq)
      rw [update_of_ne hne, update_of_ne hne]
      exact ⟨rfl, rfl⟩
  | first :: new, status, cycleRoots, hne => by
    rw [cons_append, popCycle]
    rw [if_neg (hne first mem_cons_self)]
    obtain ⟨hstack, hrest⟩ := popCycle_spec base new (Function.update status first .evaluated)
      (Function.update cycleRoots first (some module))
      fun other hmem => hne other (mem_cons_of_mem _ hmem)
    refine ⟨hstack, fun other => ⟨fun hmem => ?_, fun hnot => ?_⟩⟩
    · by_cases hin : other ∈ new ++ [module]
      · exact (hrest other).1 hin
      · have hself : other = first := (List.mem_cons.mp hmem).resolve_right hin
        obtain ⟨hstatus, hroot⟩ := (hrest other).2 hin
        rw [hstatus, hroot, hself, update_self, update_self]
        exact ⟨rfl, rfl⟩
    · have hself : other ≠ first := fun heq => hnot (heq ▸ mem_cons_self)
      obtain ⟨hstatus, hroot⟩ := (hrest other).2 fun hin => hnot (mem_cons_of_mem _ hin)
      rw [hstatus, hroot, update_of_ne hself, update_of_ne hself]
      exact ⟨rfl, rfl⟩

/-- What has been executed, with what is above it on the stack. -/
structure EvalFinished (graph : ModuleGraph) (start state : EvalState V) (module : Nat)
    (new : List Nat) : Prop where
  keeps : EvalKeeps start state
  status : state.status module = .evaluating
  executed : IsExecuted graph state module
  others : ∀ other, InProgress state other → InProgress start other ∨ other = module
  stack : state.stack = new ++ module :: start.stack
  above : ∀ other ∈ new, ¬ IsSeen start other ∧ other ≠ module ∧ Covers state module other

theorem EvalSearch.pop (hsearch : EvalSearch graph state owed) {new : List Nat}
    (hnew : ¬ IsSeen start module) (hfinished : EvalFinished graph start state module new) :
    EvalSearch graph { state with
      stack := (popCycle module state.stack state.status state.cycleRoot).1
      status := (popCycle module state.stack state.status state.cycleRoot).2.1
      cycleRoot := (popCycle module state.stack state.status state.cycleRoot).2.2 } owed := by
  rw [hfinished.stack]
  obtain ⟨hstack, hpopped⟩ := popCycle_spec start.stack new state.status state.cycleRoot
    fun other hmem => (hfinished.above other hmem).2.1
  rw [hstack]
  have hcovered : ∀ other ∈ new ++ [module], Covers state module other := by
    intro other hmem
    rcases List.mem_append.mp hmem with hmem | hself
    · exact (hfinished.above other hmem).2.2
    · rw [List.mem_singleton.mp hself]
      exact Relation.ReflTransGen.refl
  have hidle : ∀ other ∈ new ++ [module], ∀ required, (required, other) ∈ owed →
      state.asyncEvaluating other = true := by
    intro other hmem required howed
    rcases hsearch.owed_waits other required howed with hasync | hprogress
    · exact hasync
    · rcases hfinished.others other hprogress with hold | rfl
      · rcases List.mem_append.mp hmem with hmem | hself
        · exact absurd (.inl hold.1) (hfinished.above other hmem).1
        · exact absurd (List.mem_singleton.mp hself ▸ .inl hold.1) hnew
      · rcases hfinished.executed with hasync | hcompleted | ⟨-, -, hstarted⟩
        · exact hasync
        · exact absurd hcompleted hprogress.2.2
        · exact absurd howed (hsearch.not_owed_of_started hstarted required)
  refine { hsearch with
    toAccounts := hsearch.toAccounts.of_eq rfl rfl rfl rfl rfl
    fresh := fun other hother => hsearch.fresh other fun hseen => hother ?_
    counted := fun other hother => ?_
    on_stack := fun other hother => ?_
    owed_waits := fun other required hmem => ?_
    left := fun other hother => ?_ }
  · by_cases hmem : other ∈ new ++ [module]
    · exact .inr ((hpopped other).1 hmem).1
    · unfold IsSeen
      dsimp only
      rw [((hpopped other).2 hmem).1]
      exact hseen
  · by_cases hmem : other ∈ new ++ [module]
    · exact absurd (((hpopped other).1 hmem).1.symm.trans hother) nofun
    · exact hsearch.counted other (((hpopped other).2 hmem).1.symm.trans hother)
  · by_cases hmem : other ∈ new ++ [module]
    · exact absurd (((hpopped other).1 hmem).1.symm.trans hother) nofun
    · have hon := hsearch.on_stack other (((hpopped other).2 hmem).1.symm.trans hother)
      rw [hfinished.stack] at hon
      rcases List.mem_append.mp hon with hin | hin
      · exact absurd (mem_append_left _ hin) hmem
      · rcases List.mem_cons.mp hin with hself | hin
        · exact absurd (hself ▸ mem_append_right _ (mem_singleton_self _)) hmem
        · exact hin
  · by_cases hpop : other ∈ new ++ [module]
    · exact .inl (hidle other hpop required hmem)
    · refine (hsearch.owed_waits other required hmem).imp_right fun hprogress => ?_
      exact ⟨((hpopped other).2 hpop).1.trans hprogress.1, hprogress.2⟩
  · by_cases hmem : other ∈ new ++ [module]
    · refine ⟨module, ((hpopped other).1 hmem).2, hcovered other hmem, fun hnone => ?_⟩
      rcases hfinished.executed with hasync | hcompleted | ⟨-, herror, -⟩
      · exact .inl hasync
      · exact .inr hcompleted
      · exact absurd hnone herror
    · obtain ⟨hstatus, hroot⟩ := (hpopped other).2 hmem
      dsimp only
      rw [hroot]
      exact hsearch.left other (hstatus.symm.trans hother)

theorem EvalFinished.leave (hsearch : EvalSearch graph state owed) {new : List Nat}
    (hnew : ¬ IsSeen start module) (hfinished : EvalFinished graph start state module new)
    (hsynthetic : (graph.source module).isSynthetic = true →
      state.dfsAncestorIndex module = state.dfsIndex module) :
    EvalSearch graph (leaveEvaluation state module) owed ∧
      EvalVisited start (leaveEvaluation state module) module := by
  have hbefore : ∀ other ∈ new ++ [module], ¬ IsSeen start other := by
    intro other hmem
    rcases List.mem_append.mp hmem with hmem | hself
    · exact (hfinished.above other hmem).1
    · rwa [List.mem_singleton.mp hself]
  unfold leaveEvaluation
  by_cases hroot : state.dfsAncestorIndex module = state.dfsIndex module
  · rw [if_pos hroot]
    refine ⟨hsearch.pop hnew hfinished, ?_⟩
    obtain ⟨hstack, hpopped⟩ := popCycle_spec start.stack new state.status state.cycleRoot
      fun other hmem => (hfinished.above other hmem).2.1
    rw [← hfinished.stack] at hstack hpopped
    have hself : module ∈ new ++ [module] := mem_append_right _ (mem_singleton_self _)
    refine {
      status := fun other hseen => ?_
      async := hfinished.keeps.async
      started := hfinished.keeps.started
      completed := hfinished.keeps.completed
      log := hfinished.keeps.log
      parents := hfinished.keeps.parents
      self_seen := .inr ((hpopped module).1 hself).1
      settled := fun other hprogress => ?_
      stack := .inl hstack }
    · have hnot : other ∉ new ++ [module] := fun hmem => hbefore other hmem hseen
      exact ((hpopped other).2 hnot).1.trans (hfinished.keeps.status other hseen)
    · by_cases hmem : other ∈ new ++ [module]
      · exact absurd (((hpopped other).1 hmem).1.symm.trans hprogress.1) nofun
      · have hold : InProgress state other :=
          ⟨((hpopped other).2 hmem).1.symm.trans hprogress.1, hprogress.2⟩
        exact (hfinished.others other hold).resolve_right fun heq => hmem (heq ▸ hself)
  · rw [if_neg hroot]
    have hdone : ¬ InProgress state module := by
      intro hprogress
      rcases hfinished.executed with hasync | hcompleted | ⟨hsynth, -, -⟩
      · exact absurd (hasync.symm.trans hprogress.2.1) nofun
      · exact hprogress.2.2 hcompleted
      · exact hroot (hsynthetic hsynth)
    refine ⟨hsearch, {
      hfinished.keeps with
      self_seen := .inl hfinished.status
      settled := fun other hprogress => (hfinished.others other hprogress).resolve_right ?_
      stack := .inr ⟨hfinished.status, hdone, new ++ [module], ?_, fun other hmem => ?_⟩ }⟩
    · exact fun heq => hdone (heq ▸ hprogress)
    · rw [hfinished.stack, append_assoc, singleton_append]
    · refine ⟨hbefore other hmem, ?_⟩
      rcases List.mem_append.mp hmem with hmem | hself
      · exact (hfinished.above other hmem).2.2
      · rw [List.mem_singleton.mp hself]
        exact Relation.ReflTransGen.refl

end Leave

theorem evalVisited_self (hseen : IsSeen state module) : EvalVisited state state module :=
  { EvalKeeps.refl state with self_seen := hseen, settled := fun _ => id, stack := .inl rfl }

theorem innerModuleEvaluation_spec (graph : ModuleGraph) (isUndefined : V → Bool)
    (outcome : Nat → Option V) :
    ∀ (turns : Nat) (state : EvalState V) (owed : List (Nat × Nat)) (index module : Nat),
      EvalSearch graph state owed →
      (∀ other, InProgress state other → Relation.ReflTransGen (Requests graph) other module) →
      unseenModules graph state < turns → module < graph.count →
      EvalVisitSpec graph state module
        (innerModuleEvaluation graph isUndefined outcome turns state index module)
  | 0, _, _, _, _, _, _, henough, _ => absurd henough (Nat.not_lt_zero _)
  | turns + 1, state, owed, index, module, hsearch, hreach, henough, hlt => by
    unfold innerModuleEvaluation
    by_cases hevaluated : state.status module = .evaluated
    · rw [if_pos hevaluated]
      have hvisited := evalVisited_self (.inr hevaluated : IsSeen state module)
      cases herror : state.evaluationError module with
      | none => exact ⟨⟨owed, hsearch⟩, hvisited⟩
      | some error =>
        refine ⟨⟨owed, hsearch⟩, ?_⟩
        by_cases hundefined : isUndefined error = true
        · simp only [hundefined, if_true]
          exact hvisited
        · simp [hundefined]
    · rw [if_neg hevaluated]
      by_cases hevaluating : state.status module = .evaluating
      · rw [if_pos hevaluating]
        exact ⟨⟨owed, hsearch⟩, evalVisited_self (.inl hevaluating)⟩
      · rw [if_neg hevaluating]
        have hnew : ¬ IsSeen state module := fun hseen => hseen.elim hevaluating hevaluated
        have henter := hsearch.enter hnew index
        have hscan := hsearch.scanning_enter hnew index
        have hseen : IsSeen (enterEvaluation state index module) module := .inl hscan.progress.1
        have hless : unseenModules graph (enterEvaluation state index module) < turns :=
          Nat.lt_of_lt_of_le
            (unseen_lt (fun other hother => decide_eq_true
                (hscan.keeps.seen (of_decide_eq_true hother)))
              (List.mem_range.mpr hlt) (decide_eq_false hnew) (decide_eq_true hseen))
            (Nat.le_of_lt_succ henough)
        have hspec := evaluateRequests_spec
          (innerModuleEvaluation_spec graph isUndefined outcome turns) hreach
          (graph.source module).requestedModules (enterEvaluation state index module) owed
          (index + 1) (List.Subset.refl _) henter hscan hless
        have hsynthetic : (graph.source module).isSynthetic = true →
            evaluateRequests graph (innerModuleEvaluation graph isUndefined outcome turns) module
              (graph.source module).requestedModules (enterEvaluation state index module)
              (index + 1) = (enterEvaluation state index module, .ok (index + 1)) := by
          intro hsynth
          rw [graph.synthetic_requests module hsynth, evaluateRequests]
        rcases hresult : evaluateRequests graph
          (innerModuleEvaluation graph isUndefined outcome turns) module
          (graph.source module).requestedModules (enterEvaluation state index module)
          (index + 1) with ⟨scanned, result⟩
        rw [hresult] at hspec hsynthetic
        obtain ⟨⟨scannedOwed, hscanned⟩, hspec⟩ := hspec
        cases result with
        | error failure => exact ⟨⟨scannedOwed, hscanned⟩, hspec⟩
        | ok nextIndex =>
          have hscanning : EvalScanning graph state scanned module [] := hspec
          have hentered : (graph.source module).isSynthetic = true →
              scanned = enterEvaluation state index module := fun hsynth =>
            congrArg Prod.fst (hsynthetic hsynth)
          obtain ⟨hexecute, hexecuted, hdone⟩ := executeModule_spec outcome hscanned
            hscanning.progress hscanning.not_started
            (fun required ⟨request, hmem, hrequired⟩ => hrequired ▸
              (hscanning.heeds request hmem).resolve_left not_mem_nil)
            (fun hsynth => by rw [hentered hsynth]; simp [enterEvaluation])
          dsimp only
          have hindices : (graph.source module).isSynthetic = true →
              (executeModule graph outcome scanned module).1.dfsAncestorIndex module =
                (executeModule graph outcome scanned module).1.dfsIndex module := by
            intro hsynth
            unfold executeModule
            rw [if_pos hsynth, hentered hsynth]
            cases outcome module <;> simp [enterEvaluation]
          rcases hrun : executeModule graph outcome scanned module with ⟨executed, thrown⟩
          rw [hrun] at hexecute hexecuted hdone hindices
          cases thrown with
          | some error => exact ⟨⟨scannedOwed, hexecute⟩, nofun⟩
          | none =>
            obtain ⟨new, hstack, habove⟩ := hscanning.stack
            have hfinished : EvalFinished graph state executed module new := {
              keeps := hexecuted.keeps hscanning.keeps hnew
              status := by rw [hexecuted.status, hscanning.progress.1]
              executed := hdone rfl
              others := fun other hprogress => by
                by_cases hself : other = module
                · exact .inr hself
                · refine hscanning.others other ⟨?_, ?_, fun hcompleted => ?_⟩
                  · rw [← hexecuted.status, hprogress.1]
                  · rw [← hexecuted.async other hself, hprogress.2.1]
                  · exact hprogress.2.2 (hexecuted.log hcompleted)
              stack := hexecuted.stack.trans hstack
              above := fun other hmem => ⟨(habove other hmem).1, (habove other hmem).2.1,
                hexecuted.covers (habove other hmem).2.2⟩ }
            obtain ⟨hleft, hvisited⟩ := hfinished.leave hexecute hnew hindices
            exact ⟨⟨scannedOwed, hleft⟩, hvisited⟩

/-- The modules whose completion is told to the modules that wait for them. -/
def fulfillingModules (frames : List (EvalFrame V)) : List Nat :=
  frames.filterMap fun frame =>
    match frame with
    | .fulfilling module _ => some module
    | _ => none

/-- What a call that has not returned relies on. -/
def FrameHolds (state : EvalState V) (owed : List (Nat × Nat)) : EvalFrame V → Prop
  | .fulfilling module parents =>
    HasCompleted state module ∧ state.asyncEvaluating module = false ∧
      ∀ parent, parents.count parent ≤ owed.count (module, parent)
  | .rejecting _ _ _ => True
  | .executing module => HasStarted state module

/-- What a step of a settlement keeps. -/
structure Settles (graph : ModuleGraph) (state : EvalState V) (owed : List (Nat × Nat)) : Prop
    extends Accounts graph state owed where
  owed_waits : ∀ module required, (required, module) ∈ owed →
    state.evaluationError module = none → state.asyncEvaluating module = true
  frames_hold : ∀ frame ∈ state.frames, FrameHolds state owed frame
  fulfilling_nodup : (fulfillingModules state.frames).Nodup

/-- A module that waits has something to wait for, unless its component has failed. -/
def WaitsAboveZero (state : EvalState V) (module : Nat) : Prop :=
  state.asyncEvaluating module = true → ¬ HasStarted state module →
    state.evaluationError module = none →
    (state.cycleRoot module).bind state.evaluationError = none → 0 < pendingOf state module

/-- What holds after a search, whatever settles. -/
structure Settling (graph : ModuleGraph) (state : EvalState V) (owed : List (Nat × Nat)) : Prop
    extends Settles graph state owed where
  waits : ∀ module, WaitsAboveZero state module

variable {owed : List (Nat × Nat)}

theorem Settling.startsInOrder (hsettling : Settling graph state owed) :
    StartsInOrder graph state where
  startsOnce := hsettling.startsOnce
  ordered := hsettling.ordered
  startsAtZero := hsettling.startsAtZero
  waits := hsettling.waits

theorem evalSearch_linkedModules (graph : ModuleGraph) (capability : Nat → Option (Capability V)) :
    EvalSearch graph { (linkedModules graph : EvalState V) with
      topLevelCapability := capability, stack := [] } [] where
  startsOnce := nodup_nil
  ordered earlier module later hsplit := by
    have hlength := congrArg List.length hsplit
    simp [linkedModules] at hlength
  completed_started _ hcompleted := absurd hcompleted not_mem_nil
  promised_started _ hmem := absurd hmem not_mem_nil
  pending_eq _ := rfl
  startsAtZero _ hstarted := absurd hstarted not_mem_nil
  parent_owed _ _ hparent := absurd hparent not_mem_nil
  parents_le _ hasync := absurd hasync nofun
  heeds _ hother := by
    rcases hother with hasync | hstarted
    · cases hasync
    · exact absurd hstarted not_mem_nil
  fresh _ _ := ⟨not_mem_nil, rfl, fun _ => not_mem_nil⟩
  counted _ hstatus := absurd hstatus nofun
  on_stack _ hstatus := absurd hstatus nofun
  no_parents _ _ := rfl
  owed_waits _ _ hmem := absurd hmem not_mem_nil
  waits _ hasync := absurd hasync nofun
  left _ hstatus := absurd hstatus nofun
  quiet := rfl

theorem none_of_update_error {errors : Nat → Option V} {other : Nat} {error : V}
    (hnone : Function.update errors module (some error) other = none) :
    other ≠ module ∧ errors other = none := by
  by_cases hself : other = module
  · rw [hself, update_self] at hnone
    cases hnone
  · exact ⟨hself, by rwa [update_of_ne hself] at hnone⟩

theorem foldl_failModule (error : V) : ∀ (stack : List Nat) (state : EvalState V),
      (stack.foldl (failModule error) state).log = state.log ∧
      (stack.foldl (failModule error) state).promises = state.promises ∧
      (stack.foldl (failModule error) state).pendingAsyncDependencies =
        state.pendingAsyncDependencies ∧
      (stack.foldl (failModule error) state).asyncParentModules = state.asyncParentModules ∧
      (stack.foldl (failModule error) state).asyncEvaluating = state.asyncEvaluating ∧
      (stack.foldl (failModule error) state).frames = state.frames ∧
      ∀ module, (stack.foldl (failModule error) state).evaluationError module = none →
        state.evaluationError module = none ∧ module ∉ stack
  | [], state => ⟨rfl, rfl, rfl, rfl, rfl, rfl, fun _ hnone => ⟨hnone, not_mem_nil⟩⟩
  | first :: stack, state => by
    obtain ⟨hlog, hpromises, hpending, hparents, hasync, hframes, herror⟩ :=
      foldl_failModule error stack (failModule error state first)
    refine ⟨hlog, hpromises, hpending, hparents, hasync, hframes, fun module hnone => ?_⟩
    obtain ⟨hnone, hnot⟩ := herror module hnone
    obtain ⟨hne, hnone⟩ := none_of_update_error hnone
    exact ⟨hnone, fun hmem => (List.mem_cons.mp hmem).elim hne hnot⟩

theorem EvalSearch.settling (hsearch : EvalSearch graph state owed) (hlog : next.log = state.log)
    (hpromises : next.promises = state.promises)
    (hpending : next.pendingAsyncDependencies = state.pendingAsyncDependencies)
    (hparents : next.asyncParentModules = state.asyncParentModules)
    (hasync : next.asyncEvaluating = state.asyncEvaluating) (hframes : next.frames = state.frames)
    (hfailed : ∀ module, next.evaluationError module = none → ¬ InProgress state module) :
    Settling graph next owed where
  toAccounts := hsearch.toAccounts.of_eq hlog hpromises hpending hparents hasync
  owed_waits module required hmem hnone := by
    rw [hasync]
    exact (hsearch.owed_waits module required hmem).resolve_right (hfailed module hnone)
  frames_hold frame hmem := by
    rw [hframes, hsearch.quiet] at hmem
    cases hmem
  fulfilling_nodup := by
    rw [hframes, hsearch.quiet]
    exact nodup_nil
  waits module hwaits hnew _ _ := by
    rw [HasStarted, hlog] at hnew
    rw [hasync] at hwaits
    rw [pendingOf, hpending]
    exact hsearch.waits module hwaits hnew

theorem moduleEvaluation_spec (graph : ModuleGraph) (isUndefined : V → Bool)
    (outcome : Nat → Option V) {root : Nat} (hlt : root < graph.count) :
    (∃ owed, Settling graph
      (moduleEvaluation graph isUndefined outcome (linkedModules graph) root).1 owed) ∧
    (moduleEvaluation graph isUndefined outcome (linkedModules graph) root).2 ≠
      .error .diverges := by
  have henough : unseenModules graph { (linkedModules graph : EvalState V) with
      topLevelCapability := Function.update (linkedModules graph : EvalState V).topLevelCapability
        root (some .pending)
      stack := [] } < graph.count + 1 := by
    have hle := countP_le_length (p := fun module => ! decide (IsSeen
      (linkedModules graph : EvalState V) module)) (l := List.range graph.count)
    rw [length_range] at hle
    exact Nat.lt_succ_of_le hle
  have hspec := innerModuleEvaluation_spec graph isUndefined outcome (graph.count + 1) _ [] 0 root
    (evalSearch_linkedModules graph _) (fun other hprogress => absurd hprogress.1 nofun) henough hlt
  unfold moduleEvaluation
  rcases hresult : innerModuleEvaluation graph isUndefined outcome (graph.count + 1)
    { (linkedModules graph : EvalState V) with
      topLevelCapability := Function.update (linkedModules graph : EvalState V).topLevelCapability
        root (some .pending)
      stack := [] } 0 root with ⟨state, result⟩
  rw [hresult] at hspec
  obtain ⟨⟨owed, hsearch⟩, hspec⟩ := hspec
  match result, hspec with
  | .ok index, hvisited =>
    refine ⟨⟨owed, ?_⟩, nofun⟩
    have hidle : ∀ module, ¬ InProgress state module := fun module hprogress =>
      absurd (hvisited.settled module hprogress).1 nofun
    dsimp only
    split
    · exact hsearch.settling rfl rfl rfl rfl rfl rfl fun module _ => hidle module
    · exact hsearch.settling rfl rfl rfl rfl rfl rfl fun module _ => hidle module
  | .error (.error error), _ =>
    refine ⟨⟨owed, ?_⟩, nofun⟩
    obtain ⟨hlog, hpromises, hpending, hparents, hasync, hframes, herror⟩ :=
      foldl_failModule error state.stack state
    exact hsearch.settling hlog hpromises hpending hparents hasync hframes
      fun module hnone hprogress => (herror module hnone).2 (hsearch.on_stack module hprogress.1)
  | .error .diverges, hne => exact absurd rfl hne

section Steps

variable {graph : ModuleGraph} {state : EvalState V} {owed : List (Nat × Nat)}

/-- Frames stay right where bodies have started and completed, and nothing more is counted
down. -/
theorem FrameHolds.mono {next : EvalState V} {frame : EvalFrame V}
    (hholds : FrameHolds state owed frame) (hlog : state.log ⊆ next.log)
    (hasync : ∀ module, HasCompleted state module → state.asyncEvaluating module = false →
      next.asyncEvaluating module = false) : FrameHolds next owed frame := by
  cases frame with
  | fulfilling module parents =>
    exact ⟨hlog hholds.1, hasync module hholds.1 hholds.2.1, hholds.2.2⟩
  | rejecting module error parents => trivial
  | executing module => exact hlog hholds

variable {module : Nat}

theorem mem_fulfillingModules {frames : List (EvalFrame V)} :
    module ∈ fulfillingModules frames ↔ ∃ parents, .fulfilling module parents ∈ frames := by
  rw [fulfillingModules, mem_filterMap]
  constructor
  · rintro ⟨frame, hmem, hframe⟩
    cases frame with
    | fulfilling other parents =>
      cases hframe
      exact ⟨parents, hmem⟩
    | rejecting other error parents => cases hframe
    | executing other => cases hframe
  · exact fun ⟨parents, hmem⟩ => ⟨_, hmem, rfl⟩

theorem Settling.setFrames (hsettling : Settling graph state owed) (frames : List (EvalFrame V))
    (hhold : ∀ frame ∈ frames, FrameHolds state owed frame)
    (hnodup : (fulfillingModules frames).Nodup) :
    Settling graph { state with frames := frames } owed :=
  { hsettling with
    toAccounts := hsettling.toAccounts.of_eq rfl rfl rfl rfl rfl
    frames_hold := fun frame hmem => (hhold frame hmem).mono (List.Subset.refl _) fun _ _ => id
    fulfilling_nodup := hnodup }

theorem Settling.return (hsettling : Settling graph state owed) {frame : EvalFrame V}
    {callers : List (EvalFrame V)} (hframes : state.frames = frame :: callers) :
    Settling graph { state with frames := callers } owed := by
  have hhold := hsettling.frames_hold
  have hnodup := hsettling.fulfilling_nodup
  rw [hframes] at hhold hnodup
  refine hsettling.setFrames _ (fun other hmem => hhold other (mem_cons_of_mem _ hmem)) ?_
  exact hnodup.sublist ((sublist_cons_self frame callers).filterMap _)

theorem Settling.complete (hsettling : Settling graph state owed)
    (hstarted : HasStarted state module) :
    Settling graph { state with log := state.log ++ [.completed module] } owed :=
  have hlog : state.log ⊆ state.log ++ [.completed module] := subset_append_left _ _
  { hsettling with
    toAccounts := hsettling.toAccounts.complete hstarted
    frames_hold := fun frame hmem => (hsettling.frames_hold frame hmem).mono hlog fun _ _ => id
    waits := fun other hasync hnew => hsettling.waits other hasync fun hold => hnew (hlog hold) }

theorem Settling.settle (hsettling : Settling graph state owed) (rejection : Option V)
    (promises : List Nat) :
    Settling graph { state with log := state.log ++ promises.map (.settled · rejection) } owed :=
  have hlog : state.log ⊆ state.log ++ promises.map (.settled · rejection) := subset_append_left _ _
  { hsettling with
    toAccounts := hsettling.toAccounts.settle rejection promises
    frames_hold := fun frame hmem => (hsettling.frames_hold frame hmem).mono hlog fun _ _ => id
    waits := fun other hasync hnew => hsettling.waits other hasync fun hold => hnew (hlog hold) }

variable {async : Nat → Bool} {other : Nat}

theorem release_eq_true (htrue : Function.update async module false other = true) :
    other ≠ module ∧ async other = true := by
  by_cases hself : other = module
  · rw [hself, update_self] at htrue
    cases htrue
  · exact ⟨hself, by rwa [update_of_ne hself] at htrue⟩

theorem release_eq_false (hfalse : async other = false) :
    Function.update async module false other = false := by
  by_cases hself : other = module
  · rw [hself, update_self]
  · rwa [update_of_ne hself]

section

variable (hsettling : Settling graph state owed)
include hsettling

theorem Settling.fulfill (hcompleted : HasCompleted state module) :
    Settling graph (asyncModuleFulfilled state module) owed := by
  unfold asyncModuleFulfilled
  by_cases hasync : state.asyncEvaluating module = true
  · rw [if_pos hasync]
    have hstarted := hsettling.completed_started module hcompleted
    refine {
      toAccounts := (hsettling.toAccounts.release module).of_eq rfl rfl rfl rfl rfl
      owed_waits := fun other required hmem hnone => ?_
      frames_hold := fun frame hmem => ?_
      fulfilling_nodup := ?_
      waits := fun other hother hnew => hsettling.waits other (release_eq_true hother).2 hnew }
    · have hne : other ≠ module := by
        rintro rfl
        exact hsettling.not_owed_of_started hstarted required hmem
      dsimp only
      rw [update_of_ne hne]
      exact hsettling.owed_waits other required hmem hnone
    · rcases List.mem_cons.mp hmem with rfl | hmem
      · exact ⟨hcompleted, update_self _ _ _, hsettling.parents_le module hasync⟩
      · exact (hsettling.frames_hold frame hmem).mono (List.Subset.refl _)
          fun _ _ => release_eq_false
    · refine List.nodup_cons.mpr ⟨fun hmem => ?_, hsettling.fulfilling_nodup⟩
      obtain ⟨parents, hmem⟩ := mem_fulfillingModules.mp hmem
      exact absurd (hasync.symm.trans (hsettling.frames_hold _ hmem).2.1) nofun
  · rw [if_neg hasync]
    exact hsettling

theorem Settling.reject (module : Nat) (error : V) :
    Settling graph (asyncModuleRejected state module error) owed := by
  unfold asyncModuleRejected
  by_cases hasync : state.asyncEvaluating module = true
  · rw [if_pos hasync]
    refine {
      toAccounts := (hsettling.toAccounts.release module).of_eq rfl rfl rfl rfl rfl
      owed_waits := fun other required hmem hnone => ?_
      frames_hold := fun frame hmem => ?_
      fulfilling_nodup := hsettling.fulfilling_nodup
      waits := fun other hother hnew hnone hroot => ?_ }
    · obtain ⟨hne, hnone⟩ := none_of_update_error hnone
      dsimp only
      rw [update_of_ne hne]
      exact hsettling.owed_waits other required hmem hnone
    · rcases List.mem_cons.mp hmem with rfl | hmem
      · trivial
      · exact (hsettling.frames_hold frame hmem).mono (List.Subset.refl _)
          fun _ _ => release_eq_false
    · refine hsettling.waits other (release_eq_true hother).2 hnew (none_of_update_error hnone).2 ?_
      cases hcycle : state.cycleRoot other with
      | none => rfl
      | some cycleRoot =>
        rw [hcycle] at hroot
        exact (none_of_update_error hroot).2
  · rw [if_neg hasync]
    exact hsettling

theorem Settling.takePromise (module : Nat) :
    Settling graph { state with promises := state.promises.erase module } owed :=
  { hsettling with
    toAccounts := { hsettling.toAccounts with
      promised_started := fun other hmem =>
        hsettling.promised_started other (mem_of_mem_erase hmem) } }

theorem Settling.setPromises (asyncPendingPromises : Nat → List Nat)
    (topLevelCapability : Nat → Option (Capability V)) :
    Settling graph { state with
      asyncPendingPromises := asyncPendingPromises
      topLevelCapability := topLevelCapability } owed :=
  { hsettling with toAccounts := hsettling.toAccounts.of_eq rfl rfl rfl rfl rfl }

theorem Settling.pay {m : Nat} {parents : List Nat} {callers : List (EvalFrame V)}
    (hframes : state.frames = .fulfilling module (m :: parents) :: callers) :
    (module, m) ∈ owed ∧
    Settles graph { state with
      pendingAsyncDependencies := Function.update state.pendingAsyncDependencies m
        (some (pendingOf state m - 1))
      frames := .fulfilling module parents :: callers } (owed.erase (module, m)) := by
  have hhold := hsettling.frames_hold
  have hnodup := hsettling.fulfilling_nodup
  rw [hframes] at hhold hnodup
  obtain ⟨hcompleted, hasync, hcount⟩ := hhold _ mem_cons_self
  have howed : (module, m) ∈ owed := by
    have hone := hcount m
    rw [count_cons_self] at hone
    exact List.count_pos_iff.mp (Nat.lt_of_lt_of_le (Nat.succ_pos _) hone)
  refine ⟨howed, {
    toAccounts := (hsettling.toAccounts.pay howed hcompleted hasync).of_eq rfl rfl rfl rfl rfl
    owed_waits := fun other required hmem =>
      hsettling.owed_waits other required (mem_of_mem_erase hmem)
    frames_hold := fun frame hmem => ?_
    fulfilling_nodup := hnodup }⟩
  rcases List.mem_cons.mp hmem with rfl | hcaller
  · refine ⟨hcompleted, hasync, fun parent => ?_⟩
    have hle := hcount parent
    rw [count_erase]
    by_cases hparent : parent = m
    · subst hparent
      rw [count_cons_self] at hle
      simp only [BEq.rfl, if_true]
      exact Nat.le_sub_one_of_lt hle
    · rw [count_cons_of_ne (Ne.symm hparent)] at hle
      rw [if_neg (by simpa using Ne.symm hparent)]
      exact hle
  · have hold := hhold frame (mem_cons_of_mem _ hcaller)
    cases frame with
    | fulfilling other rest =>
      have hne : other ≠ module := by
        rintro rfl
        exact (List.nodup_cons.mp hnodup).1 (mem_fulfillingModules.mpr ⟨rest, hcaller⟩)
      refine ⟨hold.1, hold.2.1, fun parent => ?_⟩
      rw [count_erase_of_ne fun heq => hne (congrArg Prod.fst heq)]
      exact hold.2.2 parent
    | rejecting other error rest => trivial
    | executing other => exact hold

end

theorem Settles.start (hsettles : Settles graph state owed)
    (hasync : state.asyncEvaluating module = true) (hnew : ¬ HasStarted state module)
    (hzero : state.pendingAsyncDependencies module = some 0)
    (hwaits : ∀ other, other ≠ module → WaitsAboveZero state other) :
    Settling graph { state with log := state.log ++ [.started module] } owed :=
  have hlog : state.log ⊆ state.log ++ [.started module] := subset_append_left _ _
  { hsettles with
    toAccounts := hsettles.toAccounts.start hnew hzero (hsettles.heeds module (.inl hasync))
    frames_hold := fun frame hmem => (hsettles.frames_hold frame hmem).mono hlog fun _ _ => id
    waits := fun other hother hidle => by
      have hne : other ≠ module := by
        rintro rfl
        exact hidle (mem_append_right _ (mem_singleton_self _))
      exact hwaits other hne hother fun hold => hidle (hlog hold) }

theorem Settling.execute (hsettling : Settling graph state owed)
    (hstarted : HasStarted state module) :
    Settling graph { state with frames := .executing module :: state.frames } owed := by
  refine hsettling.setFrames _ (fun frame hmem => ?_) hsettling.fulfilling_nodup
  rcases List.mem_cons.mp hmem with rfl | hcaller
  · exact hstarted
  · exact hsettling.frames_hold frame hcaller

theorem Settling.promise (hsettling : Settling graph state owed)
    (hstarted : HasStarted state module) (hasync : state.asyncEvaluating module = true) :
    Settling graph { state with
      asyncEvaluating := Function.update state.asyncEvaluating module true
      promises := module :: state.promises } owed := by
  have hsame : Function.update state.asyncEvaluating module true = state.asyncEvaluating := by
    rw [← hasync, update_eq_self]
  rw [hsame]
  exact { hsettling with
    toAccounts := { hsettling.toAccounts with
      promised_started := fun other hother => by
        rcases List.mem_cons.mp hother with rfl | hmem
        · exact hstarted
        · exact hsettling.promised_started other hmem } }

theorem Settling.visitParent (hsettling : Settling graph state owed) {module m : Nat}
    {parents : List Nat} {callers : List (EvalFrame V)}
    (hframes : state.frames = .fulfilling module (m :: parents) :: callers)
    (hone : state.evaluationError m = none →
      (state.cycleRoot m).bind state.evaluationError = none → pendingOf state m = 1) :
    ∃ owed, Settling graph (visitParent graph state module m parents callers) owed := by
  obtain ⟨howed, hsettles⟩ := hsettling.pay hframes
  have hothers : ∀ other, other ≠ m → WaitsAboveZero { state with
      pendingAsyncDependencies := Function.update state.pendingAsyncDependencies m
        (some (pendingOf state m - 1))
      frames := .fulfilling module parents :: callers } other := by
    intro other hne hasync hnew hnone hroot
    have hpositive := hsettling.waits other hasync hnew hnone hroot
    simpa [pendingOf, hne] using hpositive
  refine ⟨owed.erase (module, m), ?_⟩
  unfold Parser.visitParent
  dsimp only
  by_cases hnone : state.evaluationError m = none
  · rw [if_pos ⟨by rw [update_self]; rfl, Option.isNone_iff_eq_none.mpr hnone⟩]
    by_cases hroot : (state.cycleRoot m).bind state.evaluationError = none
    · rw [if_neg fun hsome => Option.isSome_iff_ne_none.mp hsome hroot]
      have hasync := hsettling.owed_waits m module howed hnone
      have hnew : ¬ HasStarted state m := fun hstarted =>
        hsettling.not_owed_of_started hstarted module howed
      have hstart := hsettles.start hasync hnew
        (by dsimp only; rw [update_self, hone hnone hroot]) hothers
      have hstarted : EvalEvent.started m ∈ state.log ++ [.started m] :=
        mem_append_right _ (mem_singleton_self _)
      split
      · exact hstart.promise hstarted hasync
      · exact hstart.execute hstarted
    · have hsome : ((state.cycleRoot m).bind state.evaluationError).isSome = true :=
        Option.isSome_iff_ne_none.mpr hroot
      rw [if_pos hsome]
      have hsettling' : Settling graph _ (owed.erase (module, m)) := { hsettles with
        waits := fun other => by
          by_cases hself : other = m
          · exact fun _ _ _ hnone' => absurd (hself ▸ hnone') hroot
          · exact hothers other hself }
      exact hsettling'.return rfl
  · rw [if_neg fun hboth => hnone (Option.isNone_iff_eq_none.mp hboth.2)]
    exact { hsettles with
      waits := fun other => by
        by_cases hself : other = m
        · exact fun _ _ hnone' => absurd (hself ▸ hnone') hnone
        · exact hothers other hself }

/-- A step keeps the books, where no module is started that waits. -/
theorem Settling.step (hsettling : Settling graph state owed) {op : EvalOp V}
    {next : EvalState V} (hone : WaitsForOne state op)
    (hstep : evalStep graph state op = some (next, ())) : ∃ owed, Settling graph next owed := by
  cases op with
  | settle module rejection =>
    simp only [evalStep] at hstep
    split at hstep
    · rename_i hready
      have hstarted := hsettling.promised_started module hready.2
      have htaken := hsettling.takePromise module
      cases rejection with
      | none =>
        cases hstep
        exact ⟨owed, (htaken.complete hstarted).fulfill
          (mem_append_right _ (mem_singleton_self _))⟩
      | some error =>
        cases hstep
        exact ⟨owed, htaken.reject module error⟩
    · cases hstep
  | resume =>
    unfold evalStep at hstep
    unfold WaitsForOne at hone
    cases hframes : state.frames with
    | nil =>
      simp only [hframes] at hstep
      cases hstep
    | cons frame callers =>
      simp only [hframes] at hstep hone
      cases frame with
      | fulfilling module parents =>
        cases parents with
        | nil =>
          cases hstep
          exact ⟨owed, ((hsettling.settle none _).setPromises _ _).return hframes⟩
        | cons m parents =>
          cases hstep
          exact hsettling.visitParent hframes hone
      | rejecting module error parents =>
        cases parents with
        | nil =>
          cases hstep
          refine ⟨owed, ?_⟩
          unfold rejectPromises
          dsimp only
          split
          · exact ((hsettling.settle (some error) _).setPromises _ _).return hframes
          · exact (hsettling.setFrames [] nofun nodup_nil).setPromises _ _
        | cons m parents =>
          cases hstep
          have hreturned := hsettling.return hframes
          have hnext : Settling graph
              { state with frames := .rejecting module error parents :: callers } owed :=
            hreturned.setFrames _
              (fun frame hmem => by
                rcases List.mem_cons.mp hmem with rfl | hcaller
                · trivial
                · exact hreturned.frames_hold frame hcaller)
              hreturned.fulfilling_nodup
          exact ⟨owed, hnext.reject m error⟩
      | executing module => cases hstep
  | bodyReturns =>
    unfold evalStep at hstep
    cases hframes : state.frames with
    | nil =>
      simp only [hframes] at hstep
      cases hstep
    | cons frame callers =>
      simp only [hframes] at hstep
      cases frame with
      | executing module =>
        cases hstep
        have hstarted : HasStarted state module :=
          hsettling.frames_hold (.executing module) (hframes ▸ mem_cons_self)
        exact ⟨owed, ((hsettling.return hframes).complete hstarted).fulfill
          (mem_append_right _ (mem_singleton_self _))⟩
      | fulfilling module parents => cases hstep
      | rejecting module error parents => cases hstep
  | bodyThrows error =>
    unfold evalStep at hstep
    cases hframes : state.frames with
    | nil =>
      simp only [hframes] at hstep
      cases hstep
    | cons frame callers =>
      simp only [hframes] at hstep
      cases frame with
      | executing module =>
        cases hstep
        exact ⟨owed, (hsettling.return hframes).reject module error⟩
      | fulfilling module parents => cases hstep
      | rejecting module error parents => cases hstep
  | dynamicImport module promise =>
    unfold evalStep at hstep
    dsimp only at hstep
    split at hstep
    · cases hstep
      refine ⟨owed, ?_⟩
      split
      · exact hsettling.setPromises _ _
      · exact hsettling.settle none [promise]
    · cases hstep

end Steps

/-- Where a parent is started that waits for another module too, it has started before its
counter is zero. -/
theorem not_startsInOrder_of_not_waitsForOne {op : EvalOp V}
    (hsettling : Settling graph state owed) (hstep : evalStep graph state op = some (next, ()))
    (hmore : ¬ WaitsForOne state op) :
    ¬ StartsInOrder graph next := by
  intro horder
  cases op with
  | resume =>
    unfold WaitsForOne at hmore
    dsimp only at hmore
    split at hmore
    · rename_i module m parents callers hframes
      push Not at hmore
      obtain ⟨hnone, hroot, hcount⟩ := hmore
      have howed := (hsettling.pay hframes).1
      have hpositive : pendingOf state m ≠ 0 := fun hzero => hsettling.not_owed hzero module howed
      simp only [evalStep, hframes] at hstep
      cases hstep
      have hstarted : EvalEvent.started m ∈ (visitParent graph state module m parents callers).log ∧
          (visitParent graph state module m parents callers).pendingAsyncDependencies m =
            some (pendingOf state m - 1) := by
        unfold visitParent
        dsimp only
        rw [if_pos ⟨by rw [update_self]; rfl, Option.isNone_iff_eq_none.mpr hnone⟩,
          if_neg fun hsome => Option.isSome_iff_ne_none.mp hsome hroot]
        split
        · exact ⟨mem_append_right _ (mem_singleton_self _), update_self _ _ _⟩
        · exact ⟨mem_append_right _ (mem_singleton_self _), update_self _ _ _⟩
      have hzero := horder.startsAtZero m hstarted.1
      rw [hstarted.2] at hzero
      injection hzero with hzero
      omega
    · exact hmore trivial
  | settle module rejection => exact hmore trivial
  | bodyReturns => exact hmore trivial
  | bodyThrows error => exact hmore trivial
  | dynamicImport module promise => exact hmore trivial

/-- The evaluation of a linked root comes to an end, and as long as the loops of
`asyncModuleFulfilled` come to no parent that waits for another module too, bodies start once and
in order. The first such parent breaks this. -/
theorem modules_start_in_order (graph : ModuleGraph) (isUndefined : V → Bool)
    (outcome : Nat → Option V) {root : Nat} (hlt : root < graph.count) :
    (moduleEvaluation graph isUndefined outcome (linkedModules graph) root).2 ≠ .error .diverges ∧
    ∀ state, ReachedBy (evalStep graph) WaitsForOne
        (moduleEvaluation graph isUndefined outcome (linkedModules graph) root).1 state →
      StartsInOrder graph state ∧ ∀ op next, evalStep graph state op = some (next, ()) →
          (StartsInOrder graph next ↔ WaitsForOne state op) := by
  obtain ⟨hstart, hends⟩ := moduleEvaluation_spec graph isUndefined outcome hlt
  refine ⟨hends, fun state hreached => ?_⟩
  have hinv : ∃ owed, Settling graph state owed := by
    refine @ReachedBy.invariant _ _ _ _ _ (fun state => ∃ owed, Settling graph state owed) _ _
      hreached hstart fun {state op next out} hinv hone hstep => ?_
    obtain ⟨owed, hsettling⟩ := hinv
    exact hsettling.step hone hstep
  obtain ⟨owed, hsettling⟩ := hinv
  refine ⟨hsettling.startsInOrder, fun op next hstep => ⟨fun horder => ?_, fun hone => ?_⟩⟩
  · by_contra hmore
    exact not_startsInOrder_of_not_waitsForOne hsettling hstep hmore horder
  · obtain ⟨_, hnext⟩ := hsettling.step hone hstep
    exact hnext.startsInOrder

variable (requested : List String)

def awaitingGraph : ModuleGraph where
  count := 3
  source module :=
    { srcName := "m"
      isSynthetic := false
      isAsync := 0 < module
      requestedModules := if module = 0 then requested.map (⟨·, .es⟩) else []
      importEntries := []
      localExportEntries := []
      indirectExportEntries := []
      starExportEntries := []
      identifiers := [] }
  resolve _ request := if request.specifier = "1" then 1 else 2
  resolve_lt _ request := by split <;> decide
  synthetic_requests _ h := nomatch h

def awaitingState : EvalState Nat :=
  (moduleEvaluation (awaitingGraph requested) (· == 0) (fun _ => none)
    (linkedModules (awaitingGraph requested)) 0).1

/-- A module that waits for one other starts when that has completed. -/
theorem modules_start_in_order_of_one :
    ∃ state, ReachedBy (evalStep (awaitingGraph ["1"])) WaitsForOne (awaitingState ["1"]) state ∧
      state.log = [.started 1, .completed 1, .started 0] ∧
      StartsInOrder (awaitingGraph ["1"]) state := by
  have hsettled := (ReachedBy.refl (evalStep (awaitingGraph ["1"])) WaitsForOne
    (awaitingState ["1"])).next (.settle 1 none) trivial rfl
  have hreached := hsettled.next .resume (fun _ _ => by decide +kernel) rfl
  exact ⟨_, hreached, by decide +kernel,
    ((modules_start_in_order (awaitingGraph ["1"]) (· == 0) (fun _ => none)
      (by decide : 0 < (awaitingGraph ["1"]).count)).2 _ hreached).1⟩

/-- A module that waits for two others starts when the first has completed, and again when the
second has. -/
theorem module_starts_early_and_again : ∃ state outs, run (evalStep (awaitingGraph ["1", "2"]))
        [.settle 1 none, .resume, .bodyReturns, .resume, .resume, .settle 2 none, .resume]
        (awaitingState ["1", "2"]) = some (state, outs) ∧
      startedModules state.log = [1, 2, 0, 0] ∧ ¬ Ordered (awaitingGraph ["1", "2"]) state.log := by
  refine ⟨_, _, rfl, by decide +kernel, fun hordered => ?_⟩
  have hcompleted := hordered [.started 1, .started 2, .completed 1] 0
    [.completed 0, .completed 2, .started 0] (by decide +kernel) 2
    ⟨⟨"2", .es⟩, by decide +kernel, rfl⟩
  have hsame := hcompleted.resolve_left (by decide)
  rcases Relation.ReflTransGen.cases_head hsame.1 with heq | ⟨other, ⟨request, hmem, _⟩, _⟩
  · cases heq
  · exact absurd hmem not_mem_nil

end Escargot.Parser
