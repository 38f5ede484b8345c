/-
# Runs of a component and guarded simulation

A component is a step function that consumes one operation and either produces
a next state with an answer or, written `none`, never returns. The rules below
lift one-step facts to whole operation sequences. A guard on the state and the
operation is checked along the run, so a simulation may be claimed for exactly
those sequences whose steps stay away from a known defect.
-/

import Mathlib

namespace Escargot.Foundation

open List

universe u v w x y

variable {S : Type u} {T : Type v} {Op : Type w} {Out : Type x} {Ref : Type y}

/-- Run a sequence of operations and collect the answers in order. A step that
does not return makes the whole run not return. -/
def run (step : S → Op → Option (S × Out)) : List Op → S → Option (S × List Out)
  | [], state => some (state, [])
  | op :: ops, state =>
    match step state op with
    | none => none
    | some (next, out) =>
      match run step ops next with
      | none => none
      | some (last, outs) => some (last, out :: outs)

@[simp]
theorem run_nil (step : S → Op → Option (S × Out)) (state : S) :
    run step [] state = some (state, []) := rfl

variable {step : S → Op → Option (S × Out)}

theorem run_cons_of_step {state next : S} {op : Op} {out : Out}
    (hstep : step state op = some (next, out)) (ops : List Op) :
    run step (op :: ops) state =
      (run step ops next).map (fun result => (result.1, out :: result.2)) := by
  rw [run, hstep]
  dsimp only
  cases run step ops next <;> rfl

/-- The guard holds at every step the run takes. -/
def Guarded (step : S → Op → Option (S × Out)) (guard : S → Op → Prop) : List Op → S → Prop
  | [], _ => True
  | op :: ops, state =>
    guard state op ∧ ∀ next out, step state op = some (next, out) → Guarded step guard ops next

variable {guard : S → Op → Prop}

theorem Guarded.head {op : Op} {ops : List Op} {state : S}
    (hguarded : Guarded step guard (op :: ops) state) : guard state op :=
  hguarded.1

theorem Guarded.tail {op : Op} {ops : List Op} {state next : S} {out : Out}
    (hguarded : Guarded step guard (op :: ops) state) (hstep : step state op = some (next, out)) :
    Guarded step guard ops next :=
  hguarded.2 next out hstep

/-- A decidable guard can be checked along a run. -/
instance Guarded.decidable (step : S → Op → Option (S × Out)) (guard : S → Op → Prop)
    [∀ state op, Decidable (guard state op)] :
    ∀ (ops : List Op) (state : S), Decidable (Guarded step guard ops state)
  | [], _ => isTrue trivial
  | op :: ops, state =>
    match hstep : step state op with
    | none =>
      decidable_of_iff (guard state op)
        ⟨fun h => ⟨h, fun _ _ hnext => nomatch hstep.symm.trans hnext⟩, And.left⟩
    | some (next, out) =>
      haveI := Guarded.decidable step guard ops next
      decidable_of_iff (guard state op ∧ Guarded step guard ops next)
        ⟨fun h => ⟨h.1, fun _ _ hnext => by
            cases hstep.symm.trans hnext
            exact h.2⟩,
          fun h => ⟨h.1, h.2 next out hstep⟩⟩

theorem run_chain {step : S → Op → Option (S × Out)} (rest : List Op) :
    ∀ (n : Nat) (state : Nat → S) (op : Nat → Op),
      (∀ i < n, ∃ out, step (state i) (op i) = some (state (i + 1), out)) →
      ∃ outs, run step ((List.range n).map op ++ rest) (state 0) =
        (run step rest (state n)).map fun result => (result.1, outs ++ result.2)
  | 0, state, op, _ => ⟨[], by simp⟩
  | n + 1, state, op, hstep => by
      obtain ⟨out, hout⟩ := hstep 0 (Nat.succ_pos n)
      obtain ⟨outs, houts⟩ := run_chain rest n (fun i => state (i + 1)) (fun i => op (i + 1))
        fun i hi => hstep (i + 1) (Nat.succ_lt_succ hi)
      refine ⟨out :: outs, ?_⟩
      have hops : (List.range (n + 1)).map op ++ rest =
          op 0 :: ((List.range n).map (fun i => op (i + 1)) ++ rest) := by
        rw [range_succ_eq_map, map_cons, List.map_map, cons_append]
        rfl
      rw [hops, run_cons_of_step hout, houts, Option.map_map]
      rfl

theorem Guarded.chain {rest : List Op} : ∀ (n : Nat) (state : Nat → S) (op : Nat → Op),
      (∀ i < n, ∃ out, step (state i) (op i) = some (state (i + 1), out)) →
      (∀ i < n, guard (state i) (op i)) → Guarded step guard rest (state n) →
      Guarded step guard ((List.range n).map op ++ rest) (state 0)
  | 0, state, op, _, _, hrest => hrest
  | n + 1, state, op, hstep, hguard, hrest => by
      obtain ⟨out, hout⟩ := hstep 0 (Nat.succ_pos n)
      have htail := Guarded.chain n (fun i => state (i + 1)) (fun i => op (i + 1))
        (fun i hi => hstep (i + 1) (Nat.succ_lt_succ hi))
        (fun i hi => hguard (i + 1) (Nat.succ_lt_succ hi)) hrest
      rw [range_succ_eq_map, map_cons, List.map_map, cons_append]
      refine ⟨hguard 0 (Nat.succ_pos n), fun next out' hnext => ?_⟩
      cases hout.symm.trans hnext
      exact htail

variable {Inv : S → Prop}

/-- Two guards that agree wherever an invariant of all steps holds are the same
along every run that starts with the invariant. -/
theorem Guarded.congr {guard' : S → Op → Prop}
    (hkeep : ∀ {state op next out}, Inv state → step state op = some (next, out) → Inv next)
    (hagree : ∀ {state op}, Inv state → (guard state op ↔ guard' state op)) :
    ∀ (ops : List Op) {state : S}, Inv state →
      (Guarded step guard ops state ↔ Guarded step guard' ops state)
  | [], _, _ => Iff.rfl
  | _ :: ops, _, hinv =>
    and_congr (hagree hinv) (forall_congr' fun _ => forall_congr' fun _ =>
      forall_congr' fun hstep => Guarded.congr hkeep hagree ops (hkeep hinv hstep))

/-- An invariant kept by guarded steps holds after a guarded run that returns,
together with a property of the answers that later steps do not destroy. -/
theorem Guarded.run_invariant {step : S → Op → Option (S × Out)} {guard : S → Op → Prop}
    {Inv : S → Prop} {Good : S → Out → Prop}
    (hstep : ∀ {state op next out}, Inv state → guard state op → step state op = some (next, out) →
      Inv next ∧ Good next out ∧ ∀ earlier, Good state earlier → Good next earlier) :
    ∀ (ops : List Op) {state last : S} {outs : List Out}, Guarded step guard ops state →
      Inv state → run step ops state = some (last, outs) →
      Inv last ∧ (∀ out ∈ outs, Good last out) ∧ ∀ earlier, Good state earlier → Good last earlier
  | [], state, last, outs, _, hinv, hrun => by
      cases hrun
      exact ⟨hinv, fun _ h => (not_mem_nil h).elim, fun _ h => h⟩
  | op :: ops, state, last, outs, hguarded, hinv, hrun => by
      rw [run] at hrun
      split at hrun
      · cases hrun
      · rename_i next out hnext
        obtain ⟨hinv', hgood, hkeep⟩ := hstep hinv hguarded.head hnext
        split at hrun
        · cases hrun
        · rename_i final rest hrest
          cases hrun
          obtain ⟨hlast, houts, hmono⟩ :=
            Guarded.run_invariant hstep ops (hguarded.tail hnext) hinv' hrest
          refine ⟨hlast, fun other hother => ?_, fun earlier h => hmono earlier (hkeep earlier h)⟩
          rcases List.mem_cons.mp hother with rfl | hmem
          · exact hmono other hgood
          · exact houts other hmem

theorem Guarded.run_history {step : S → Op → Option (S × Out)} {guard : S → Op → Prop}
    {Inv : List Op → List Out → S → Prop}
    (hstep : ∀ {past answers state op next out}, Inv past answers state → guard state op →
      step state op = some (next, out) → Inv (past ++ [op]) (answers ++ [out]) next) :
    ∀ (ops : List Op) {past : List Op} {answers : List Out} {state last : S} {outs : List Out},
      Guarded step guard ops state → Inv past answers state →
      run step ops state = some (last, outs) → Inv (past ++ ops) (answers ++ outs) last
  | [], past, answers, state, last, outs, _, hinv, hrun => by
      cases hrun
      rwa [append_nil, append_nil]
  | op :: ops, past, answers, state, last, outs, hguarded, hinv, hrun => by
      rw [run] at hrun
      split at hrun
      · cases hrun
      · rename_i next out hnext
        split at hrun
        · cases hrun
        · rename_i final rest hrest
          cases hrun
          have hlast := Guarded.run_history hstep ops (hguarded.tail hnext)
            (hstep hinv hguarded.head hnext) hrest
          rwa [append_assoc, append_assoc] at hlast

/-- A relation between a record of the operations so far and the state, kept by every
step that is allowed, holds after every run of allowed steps that returns. -/
theorem run_tracks {step : S → Op → Option (S × Out)} {allowed : Op → Prop}
    {track : T → Op → T} {related : T → S → Prop}
    (hstep : ∀ {record state op next out}, allowed op → related record state →
      step state op = some (next, out) → related (track record op) next) :
    ∀ (ops : List Op) {record : T} {state last : S} {outs : List Out},
      (∀ op ∈ ops, allowed op) → related record state →
      run step ops state = some (last, outs) → related (ops.foldl track record) last
  | [], _, _, _, _, _, hrelated, hrun => by
      cases hrun
      exact hrelated
  | op :: ops, record, state, last, outs, hallowed, hrelated, hrun => by
      rw [run] at hrun
      split at hrun
      · cases hrun
      · rename_i next out hnext
        split at hrun
        · cases hrun
        · rename_i final rest hrest
          cases hrun
          have hrelated' := hstep (hallowed op mem_cons_self) hrelated hnext
          exact run_tracks hstep ops (fun other hother => hallowed other (.tail op hother))
            hrelated' hrest

theorem run_invariant {step : S → Op → Option (S × Out)} {Inv : S → Prop}
    (hkeep : ∀ {state op next out}, Inv state → step state op = some (next, out) → Inv next)
    (ops : List Op) {state last : S} {outs : List Out} (hinv : Inv state)
    (hrun : run step ops state = some (last, outs)) : Inv last :=
  @run_tracks S Unit Op Out step (fun _ => True) (fun _ _ => ()) (fun _ state => Inv state)
    (fun _ hinv hstep => hkeep hinv hstep) ops () state last outs (fun _ _ => trivial) hinv hrun

theorem Guarded.of_invariant {step : S → Op → Option (S × Out)} {guard : S → Op → Prop}
    {Inv : S → Prop}
    (hkeep : ∀ {state op next out}, Inv state → step state op = some (next, out) → Inv next)
    (hguard : ∀ {state op}, Inv state → guard state op) :
    ∀ (ops : List Op) {state : S}, Inv state → Guarded step guard ops state
  | [], _, _ => trivial
  | _ :: ops, _, hinv =>
    ⟨hguard hinv, fun _ _ hstep => Guarded.of_invariant hkeep hguard ops (hkeep hinv hstep)⟩

theorem Guarded.of_forall (hguard : ∀ state op, guard state op) (ops : List Op) (state : S) :
    Guarded step guard ops state :=
  @Guarded.of_invariant S Op Out step guard (fun _ => True) (fun _ _ => trivial)
    (fun _ => hguard _ _) ops state trivial

theorem run_append {step : S → Op → Option (S × Out)} {second : List Op} :
    ∀ {first : List Op} {state middle : S} {outs : List Out},
      run step first state = some (middle, outs) →
      run step (first ++ second) state =
        (run step second middle).map fun result => (result.1, outs ++ result.2)
  | [], state, middle, outs, hrun => by
      cases hrun
      simp
  | op :: first, state, middle, outs, hrun => by
      rw [run] at hrun
      split at hrun
      · cases hrun
      · rename_i next out hnext
        split at hrun
        · cases hrun
        · rename_i final rest hrest
          cases hrun
          rw [cons_append, run_cons_of_step hnext, run_append hrest, Option.map_map]
          rfl

theorem Guarded.append_right {second : List Op} :
    ∀ {first : List Op} {state middle : S} {outs : List Out},
      Guarded step guard (first ++ second) state → run step first state = some (middle, outs) →
      Guarded step guard second middle
  | [], _, _, _, hguarded, hrun => by
      cases hrun
      exact hguarded
  | op :: first, state, middle, outs, hguarded, hrun => by
      rw [run] at hrun
      split at hrun
      · cases hrun
      · rename_i next out hnext
        split at hrun
        · cases hrun
        · rename_i final rest hrest
          cases hrun
          exact Guarded.append_right (hguarded.tail hnext) hrest

theorem Guarded.append_left {second : List Op} :
    ∀ {first : List Op} {state : S}, Guarded step guard (first ++ second) state →
      Guarded step guard first state
  | [], _, _ => trivial
  | _ :: _, _, hguarded =>
    ⟨hguarded.head, fun _ _ hnext => Guarded.append_left (hguarded.tail hnext)⟩

theorem run_concat {step : S → Op → Option (S × Out)} {op : Op} {out : Out} {next : S} :
    ∀ {ops : List Op} {state last : S} {outs : List Out},
      run step ops state = some (last, outs) → step last op = some (next, out) →
      run step (ops ++ [op]) state = some (next, outs ++ [out])
  | [], _, _, _, hrun, hstep => by
      cases hrun
      rw [nil_append, run_cons_of_step hstep]
      rfl
  | first :: ops, state, last, outs, hrun, hstep => by
      rw [run] at hrun
      split at hrun
      · cases hrun
      · rename_i middle head hnext
        split at hrun
        · cases hrun
        · rename_i final rest hrest
          cases hrun
          rw [cons_append, run_cons_of_step hnext, run_concat hrest hstep]
          rfl

theorem Guarded.concat {op : Op} :
    ∀ {ops : List Op} {state last : S} {outs : List Out}, Guarded step guard ops state →
      run step ops state = some (last, outs) → guard last op →
      Guarded step guard (ops ++ [op]) state
  | [], _, _, _, _, hrun, hguard => by
      cases hrun
      exact ⟨hguard, fun _ _ _ => trivial⟩
  | first :: ops, state, last, outs, hguarded, hrun, hguard => by
      refine ⟨hguarded.head, fun next out hnext => ?_⟩
      rw [run_cons_of_step hnext, Option.map_eq_some_iff] at hrun
      obtain ⟨⟨final, rest⟩, hrest, hpair⟩ := hrun
      cases hpair
      exact Guarded.concat (hguarded.tail hnext) hrest hguard

variable (step) (guard)

def ReachedBy (start state : S) : Prop :=
  ∃ ops outs, Guarded step guard ops start ∧ run step ops start = some (state, outs)

theorem ReachedBy.refl (start : S) : ReachedBy step guard start start := ⟨[], [], trivial, rfl⟩

variable {step} {guard}

theorem ReachedBy.next {step : S → Op → Option (S × Out)} {guard : S → Op → Prop}
    {start state next : S} (hreached : ReachedBy step guard start state) (op : Op) {out : Out}
    (hguard : guard state op) (hstep : step state op = some (next, out)) :
    ReachedBy step guard start next := by
  obtain ⟨ops, outs, hguarded, hrun⟩ := hreached
  exact ⟨ops ++ [op], outs ++ [out], hguarded.concat hrun hguard, run_concat hrun hstep⟩

theorem ReachedBy.invariant {step : S → Op → Option (S × Out)} {guard : S → Op → Prop}
    {Inv : S → Prop} {start state : S} (hreached : ReachedBy step guard start state)
    (hstart : Inv start)
    (hkeep : ∀ {state op next out}, Inv state → guard state op →
      step state op = some (next, out) → Inv next) : Inv state := by
  obtain ⟨ops, outs, hguarded, hrun⟩ := hreached
  exact (@Guarded.run_invariant S Op Out step guard Inv (fun _ _ => True)
    (fun hinv hguard hstep => ⟨hkeep hinv hguard hstep, trivial, fun _ _ => trivial⟩)
    ops start state outs hguarded hstart hrun).1

theorem Guarded.run_map (f : S → S) :
    ∀ {ops : List Op} {state : S}, Guarded step guard ops state → Inv state →
      (∀ state op, Inv state → guard state op → ∃ next out, step state op = some (next, out) ∧
        step (f state) op = some (f next, out) ∧ Inv next) →
      ∃ last outs, run step ops state = some (last, outs) ∧
        run step ops (f state) = some (f last, outs) ∧ Inv last
  | [], state, _, hinv, _ => ⟨state, [], rfl, rfl, hinv⟩
  | op :: ops, state, hguarded, hinv, hcommutes => by
      obtain ⟨next, out, hstep, hstep', hnext⟩ := hcommutes state op hinv hguarded.head
      obtain ⟨last, outs, hrun, hrun', hlast⟩ :=
        Guarded.run_map f (hguarded.tail hstep) hnext hcommutes
      refine ⟨last, out :: outs, ?_, ?_, hlast⟩
      · rw [run_cons_of_step hstep, hrun]
        rfl
      · rw [run_cons_of_step hstep', hrun']
        rfl

/-- One-step facts of a forward simulation between an implementation and a
reference. The implementation has to return whenever the guard holds. -/
structure GuardedSimulation (step : S → Op → Option (S × Out))
    (reference : T → Op → T × Ref) (guard : S → Op → Prop)
    (related : S → T → Prop) (agree : Out → Ref → Prop) : Prop where
  /-- A guarded step returns, answers as the reference does, and keeps the relation. -/
  step_related : ∀ {state : S} {abstract : T} {op : Op}, related state abstract → guard state op →
      ∃ next out, step state op = some (next, out) ∧
        agree out (reference abstract op).2 ∧ related next (reference abstract op).1

def referenceRun (reference : T → Op → T × Ref) : List Op → T → T × List Ref
  | [], abstract => (abstract, [])
  | op :: ops, abstract =>
    let rest := referenceRun reference ops (reference abstract op).1
    (rest.1, (reference abstract op).2 :: rest.2)

variable (reference : T → Op → T × Ref) (ops : List Op) (op : Op) (abstract : T)

theorem referenceRun_concat :
    (referenceRun reference (ops ++ [op]) abstract).2 = (referenceRun reference ops abstract).2 ++
        [(reference (referenceRun reference ops abstract).1 op).2] := by
  induction ops generalizing abstract with
  | nil => rfl
  | cons first ops ih => exact congrArg (_ :: ·) (ih _)

theorem referenceRun_fst : (referenceRun reference ops abstract).1 =
      ops.foldl (fun state op => (reference state op).1) abstract := by
  induction ops generalizing abstract with
  | nil => rfl
  | cons op ops ih => exact ih _

theorem GuardedSimulation.run_related {reference : T → Op → T × Ref} {related : S → T → Prop}
    {agree : Out → Ref → Prop} (sim : GuardedSimulation step reference guard related agree) :
    ∀ (ops : List Op) {state : S} {abstract : T}, related state abstract →
      Guarded step guard ops state →
      ∃ last outs, run step ops state = some (last, outs) ∧
        List.Forall₂ agree outs (referenceRun reference ops abstract).2 ∧
        related last (referenceRun reference ops abstract).1
  | [], state, _, hrelated, _ => ⟨state, [], rfl, .nil, hrelated⟩
  | op :: ops, state, abstract, hrelated, hguarded => by
      obtain ⟨next, out, hstep, hagree, hnext⟩ := sim.step_related hrelated hguarded.head
      obtain ⟨last, outs, hrun, houts, hlast⟩ := sim.run_related ops hnext (hguarded.tail hstep)
      refine ⟨last, out :: outs, ?_, .cons hagree houts, hlast⟩
      rw [run_cons_of_step hstep, hrun]
      rfl

/-- Where the implementation need not return: the answers of a guarded run that
does are those of the reference. -/
theorem Guarded.run_simulates {reference : T → Op → T × Out} {related : S → T → Prop}
    (hstep : ∀ {state abstract op next out}, related state abstract → guard state op →
      step state op = some (next, out) →
      out = (reference abstract op).2 ∧ related next (reference abstract op).1) :
    ∀ (ops : List Op) {state last : S} {abstract : T} {outs : List Out},
      Guarded step guard ops state → related state abstract →
      run step ops state = some (last, outs) →
      outs = (referenceRun reference ops abstract).2 ∧
        related last (referenceRun reference ops abstract).1
  | [], _, _, _, _, _, hrelated, hrun => by
      cases hrun
      exact ⟨rfl, hrelated⟩
  | op :: ops, state, last, abstract, outs, hguarded, hrelated, hrun => by
      rw [run] at hrun
      split at hrun
      · cases hrun
      · rename_i next out hnext
        obtain ⟨rfl, hrelated'⟩ := hstep hrelated hguarded.head hnext
        split at hrun
        · cases hrun
        · rename_i final rest hrest
          cases hrun
          obtain ⟨rfl, hlast⟩ :=
            Guarded.run_simulates hstep ops (hguarded.tail hnext) hrelated' hrest
          exact ⟨rfl, hlast⟩

theorem Guarded.run_isSome {guard' : S → Op → Prop}
    (hkeep : ∀ {state op next out}, Inv state → guard state op →
      step state op = some (next, out) → Inv next)
    (hreturns : ∀ {state op}, Inv state → guard' state op → (step state op).isSome = true) :
    ∀ (ops : List Op) {state : S}, Guarded step guard ops state → Guarded step guard' ops state →
      Inv state → (run step ops state).isSome = true
  | [], _, _, _, _ => rfl
  | op :: ops, state, hguarded, hguarded', hinv => by
      obtain ⟨⟨next, out⟩, hnext⟩ := Option.isSome_iff_exists.mp (hreturns hinv hguarded'.head)
      have hrest := Guarded.run_isSome hkeep hreturns ops (hguarded.tail hnext)
        (hguarded'.tail hnext) (hkeep hinv hguarded.head hnext)
      rw [run_cons_of_step hnext, Option.isSome_map]
      exact hrest

end Escargot.Foundation
