/-
# Reaction jobs of promises

A reaction job passes its argument to a handler, and what the handler returns or
throws to one of the two functions of a capability. All three can be user code: they
change a world that is not known, and return or throw. A reaction without a
capability whose handler is not a function has a null pointer called, which has no
result. The hooks of the host and the debugger stand around the job.
-/

import Escargot.Foundation.Interaction

namespace Escargot.Runtime.ReactionJobs

open Option Foundation

section Code

variable {F V σ : Type}

inductive Handler (F : Type)
  | identity
  | thrower
  | function (f : F)

structure Capability (F : Type) where
  resolveFunction : F
  rejectFunction : F

/-- `PromiseReaction`. There is no capability when `then` was called without one. -/
structure PromiseReaction (F : Type) where
  capability : Option (Capability F)
  handler : Handler F

/-- What the functions do when they are called with a value. -/
abbrev Behaviour (F V σ : Type) := F → V → σ → Except V V × σ

/-- What a call of the job is for. -/
inductive Role
  | handler
  | resolve
  | reject
  deriving DecidableEq

/-- The world, and the calls of the job with their arguments. -/
structure JobState (V σ : Type) where
  world : σ
  calls : List (Role × V)

variable (behaviour : Behaviour F V σ)

/-- `Object::call`, of a function with one argument. -/
def call (role : Role) (function : F) (argument : V) : Interaction V (JobState V σ) V := fun state =>
  some ((behaviour function argument state.world).1,
    { world := (behaviour function argument state.world).2
      calls := state.calls ++ [(role, argument)] })

/-- A call of the function of a capability, or of a null pointer. -/
def callCapability (role : Role) (select : Capability F → F) (capability : Option (Capability F))
    (argument : V) : Interaction V (JobState V σ) V :=
  match capability with
  | none => fun _ => none
  | some capability => call behaviour role (select capability) argument

variable (reaction : PromiseReaction F) (argument : V) (world : σ)

/-- The body of `PromiseReactionJob::run`. -/
def runReaction : Interaction V (JobState V σ) V :=
  match reaction.handler with
  | .identity =>
    callCapability behaviour .resolve Capability.resolveFunction reaction.capability argument
  | .thrower =>
    callCapability behaviour .reject Capability.rejectFunction reaction.capability argument
  | .function f =>
    tryCatch
      (do
        let res ← call behaviour .handler f argument
        if reaction.capability.isSome then
          let _ ← callCapability behaviour .resolve Capability.resolveFunction
            reaction.capability res
          return res
        else return res)
      fun reason =>
        if reaction.capability.isSome then
          callCapability behaviour .reject Capability.rejectFunction reaction.capability reason
        else throw reason

/-- The call that a job is for: what the handler returns resolves, and what it throws rejects. -/
def settlingCall : Role × V :=
  match reaction.handler with
  | .identity => (.resolve, argument)
  | .thrower => (.reject, argument)
  | .function f =>
    match (behaviour f argument world).1 with
    | .ok res => (.resolve, res)
    | .error reason => (.reject, reason)

/-- The job calls the functions of the capability as it should, once. -/
def SettlesOnce : Prop :=
  ∃ completion next, runReaction behaviour reaction argument ⟨world, []⟩ = some (completion, next) ∧
      next.calls.filter (fun call => call.1 ≠ .handler) =
        [settlingCall behaviour reaction argument world]

/-- There is a capability, and when the handler is a function that returns, the resolving function
does not throw at what it returned. -/
def ResolveReturns : Prop :=
  ∃ capability, reaction.capability = some capability ∧ ∀ f, reaction.handler = .function f →
      ∀ res next, behaviour f argument world = (.ok res, next) →
        ∃ value, (behaviour capability.resolveFunction res next).1 = .ok value

end Code

section TryCatch

variable {F V σ : Type} {behaviour : Behaviour F V σ} {reaction : PromiseReaction F}
  {capability : Capability F} {f : F} {argument : V} {state : JobState V σ}

theorem callCapability_some (role : Role) (select : Capability F → F) :
    callCapability behaviour role select (some capability) argument =
      call behaviour role (select capability) argument := rfl

theorem runReaction_of_threw (hcapability : reaction.capability = some capability)
    (hhandler : reaction.handler = .function f) {reason : V} {next : JobState V σ}
    (hcall : call behaviour .handler f argument state = some (.error reason, next)) :
    runReaction behaviour reaction argument state =
      call behaviour .reject capability.rejectFunction reason next := by
  rw [runReaction, hhandler]
  simp only [hcapability, isSome_some, if_true]
  rw [Interaction.tryCatch_of_error (Interaction.bind_of_error hcall _)]
  rfl

theorem runReaction_of_returned (hcapability : reaction.capability = some capability)
    (hhandler : reaction.handler = .function f) {res : V} {next : JobState V σ}
    (hcall : call behaviour .handler f argument state = some (.ok res, next)) :
    runReaction behaviour reaction argument state =
      match call behaviour .resolve capability.resolveFunction res next with
      | some (.ok _, last) => some (.ok res, last)
      | some (.error reason, last) => call behaviour .reject capability.rejectFunction reason last
      | none => none := by
  rw [runReaction, hhandler]
  simp only [hcapability, isSome_some, if_true, callCapability_some]
  cases hresolve : call behaviour .resolve capability.resolveFunction res next with
  | none => cases hresolve
  | some result =>
    obtain ⟨completion, last⟩ := result
    cases completion with
    | ok value =>
      exact Interaction.tryCatch_of_ok
        ((Interaction.bind_of_ok hcall _).trans (Interaction.bind_of_ok hresolve _)) _
    | error reason =>
      exact Interaction.tryCatch_of_error
        ((Interaction.bind_of_ok hcall _).trans (Interaction.bind_of_error hresolve _)) _

end TryCatch

section Jobs

variable {F V σ : Type} {behaviour : Behaviour F V σ} {reaction : PromiseReaction F}
  {capability : Capability F} {f : F} {argument : V} {world : σ}

theorem not_settlesOnce_of_none (hcapability : reaction.capability = none) :
    ¬SettlesOnce behaviour reaction argument world := by
  rintro ⟨completion, next, hrun, hcalls⟩
  rw [runReaction] at hrun
  cases hhandler : reaction.handler with
  | identity =>
    rw [hhandler, hcapability] at hrun
    cases hrun
  | thrower =>
    rw [hhandler, hcapability] at hrun
    cases hrun
  | function f =>
    rw [hhandler] at hrun
    simp only [hcapability, isSome_none, Bool.false_eq_true, if_false] at hrun
    have hcall : call behaviour .handler f argument ⟨world, []⟩ =
        some ((behaviour f argument world).1,
          ⟨(behaviour f argument world).2, [(.handler, argument)]⟩) := rfl
    have hnext : next.calls = [(.handler, argument)] := by
      cases hcompletion : (behaviour f argument world).1 with
      | ok res =>
        rw [hcompletion] at hcall
        rw [Interaction.tryCatch_of_ok (Interaction.bind_of_ok hcall _)] at hrun
        cases hrun
        rfl
      | error reason =>
        rw [hcompletion] at hcall
        rw [Interaction.tryCatch_of_error (Interaction.bind_of_error hcall _)] at hrun
        cases hrun
        rfl
    rw [hnext] at hcalls
    cases hcalls

theorem settlesOnce_of_not_function (hcapability : reaction.capability = some capability)
    (hhandler : ∀ f, reaction.handler ≠ .function f) :
    SettlesOnce behaviour reaction argument world := by
  cases hcases : reaction.handler with
  | identity =>
    refine ⟨_, _, by rw [runReaction, hcases, hcapability]; rfl, ?_⟩
    rw [settlingCall, hcases]
    rfl
  | thrower =>
    refine ⟨_, _, by rw [runReaction, hcases, hcapability]; rfl, ?_⟩
    rw [settlingCall, hcases]
    rfl
  | function f => exact absurd hcases (hhandler f)

theorem settlesOnce_of_threw (hcapability : reaction.capability = some capability)
    (hhandler : reaction.handler = .function f) {reason : V}
    (hthrew : (behaviour f argument world).1 = .error reason) :
    SettlesOnce behaviour reaction argument world := by
  have hcall : call behaviour .handler f argument ⟨world, []⟩ = some (.error reason,
      ⟨(behaviour f argument world).2, [(.handler, argument)]⟩) := by
    rw [call, hthrew]
    rfl
  refine ⟨_, _, runReaction_of_threw hcapability hhandler hcall, ?_⟩
  simp only [settlingCall, hhandler, hthrew]
  rfl

/-- A job whose handler returns calls the resolving function, and also the rejecting one exactly
when the first throws. -/
theorem settlesOnce_of_returned_iff (hcapability : reaction.capability = some capability)
    (hhandler : reaction.handler = .function f) {res : V} {next : σ}
    (hreturned : behaviour f argument world = (.ok res, next)) :
    SettlesOnce behaviour reaction argument world ↔
      ∃ value, (behaviour capability.resolveFunction res next).1 = .ok value := by
  have hcall : call behaviour .handler f argument ⟨world, []⟩ =
      some (.ok res, ⟨next, [(.handler, argument)]⟩) := by
    rw [call, hreturned]
    rfl
  have hrun := runReaction_of_returned hcapability hhandler hcall
  rw [call] at hrun
  rw [SettlesOnce, hrun, settlingCall, hhandler]
  simp only [hreturned]
  cases hresolve : (behaviour capability.resolveFunction res next).1 with
  | ok value => exact iff_of_true ⟨_, _, rfl, rfl⟩ ⟨value, rfl⟩
  | error reason =>
    refine iff_of_false ?_ ?_
    · rintro ⟨completion, last, hlast, hcalls⟩
      cases hlast
      cases hcalls
    · rintro ⟨value, hvalue⟩
      cases hvalue

/-- A job settles its capability once exactly when there is one whose resolving function returns at
what the handler returned. -/
theorem settlesOnce_iff (behaviour : Behaviour F V σ) (reaction : PromiseReaction F)
    (argument : V) (world : σ) :
    SettlesOnce behaviour reaction argument world ↔
      ResolveReturns behaviour reaction argument world := by
  cases hcapability : reaction.capability with
  | none =>
    refine iff_of_false (not_settlesOnce_of_none hcapability) ?_
    rintro ⟨capability, hsome, -⟩
    cases hcapability.symm.trans hsome
  | some capability =>
    by_cases hfunction : ∃ f, reaction.handler = .function f
    · obtain ⟨f, hhandler⟩ := hfunction
      have hreturns : ResolveReturns behaviour reaction argument world ↔
          ∀ res next, behaviour f argument world = (.ok res, next) →
            ∃ value, (behaviour capability.resolveFunction res next).1 = .ok value := by
        constructor
        · rintro ⟨other, hother, hreturns⟩
          cases hcapability.symm.trans hother
          exact hreturns f hhandler
        · intro hreturns
          refine ⟨capability, hcapability, fun g hg => ?_⟩
          cases hhandler.symm.trans hg
          exact hreturns
      rw [hreturns]
      cases hresult : behaviour f argument world with
      | mk completion next =>
        cases completion with
        | ok res =>
          rw [settlesOnce_of_returned_iff hcapability hhandler hresult]
          constructor
          · rintro hvalue _ _ hsame
            cases hsame
            exact hvalue
          · exact fun hvalue => hvalue res next rfl
        | error reason =>
          refine iff_of_true (settlesOnce_of_threw hcapability hhandler (by rw [hresult])) ?_
          intro _ _ hsame
          cases hsame
    · refine iff_of_true (settlesOnce_of_not_function hcapability fun f hf => hfunction ⟨f, hf⟩)
        ⟨capability, hcapability, fun f hf => absurd ⟨f, hf⟩ hfunction⟩

/-- The functions of a capability whose resolving function throws: the handler 0 returns. -/
def throwingResolve : Behaviour Nat Nat Unit := fun f value world =>
  (if f = 1 then .error 7 else .ok value, world)

/-- The capability is rejected after its resolving function was called. -/
theorem throwing_resolve_is_rejected :
    ¬∀ (behaviour : Behaviour Nat Nat Unit) (reaction : PromiseReaction Nat) (argument : Nat)
      (world : Unit), SettlesOnce behaviour reaction argument world := by
  intro hsettles
  obtain ⟨completion, next, hrun, hcalls⟩ := hsettles throwingResolve
    ⟨some ⟨1, 2⟩, .function 0⟩ 5 ()
  cases hrun
  cases hcalls

end Jobs

end Escargot.Runtime.ReactionJobs
