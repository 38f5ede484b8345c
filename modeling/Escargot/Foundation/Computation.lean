/-
# Computations that change a state and may fail

Two computations agree at a state if they end in the same state and with the same
answer, or fail there with errors that have the same meaning. The common start of
two computations can be cancelled. What a computation leaves behind when it answers
is stated with `Leaves`.
-/

import Mathlib

namespace Escargot.Foundation

universe u

variable {ε δ σ α β : Type u}

def interpretError (meaning : ε → δ) : EStateM.Result ε σ α → EStateM.Result δ σ α
  | .ok a state => .ok a state
  | .error e state => .error (meaning e) state

/-- Two computations do the same from a state on, up to the wording of errors. -/
def AgreesAt (meaning : ε → δ) (x y : EStateM ε σ α) (state : σ) : Prop :=
  interpretError meaning (x state) = interpretError meaning (y state)

def finalState : EStateM.Result ε σ α → σ
  | .ok _ state => state
  | .error _ state => state

/-- What holds whenever the computation answers. -/
def Leaves (x : EStateM ε σ α) (state : σ) (post : α → σ → Prop) : Prop :=
  ∀ a next, x state = .ok a next → post a next

section Agreement

variable {meaning : ε → δ}

theorem AgreesAt.refl (x : EStateM ε σ α) (state : σ) : AgreesAt meaning x x state := rfl

variable {x y : EStateM ε σ α} {state : σ}

theorem AgreesAt.symm (h : AgreesAt meaning x y state) : AgreesAt meaning y x state := Eq.symm h

theorem AgreesAt.trans {z : EStateM ε σ α} (h : AgreesAt meaning x y state)
    (h' : AgreesAt meaning y z state) : AgreesAt meaning x z state := Eq.trans h h'

theorem bind_of_ok {next : σ} {a : α} (h : x state = .ok a next) (f : α → EStateM ε σ β) :
    (x >>= f) state = f a next := by
  show EStateM.bind x f state = _
  rw [EStateM.bind, h]

theorem bind_of_error {next : σ} {e : ε} (h : x state = .error e next) (f : α → EStateM ε σ β) :
    (x >>= f) state = .error e next := by
  show EStateM.bind x f state = _
  rw [EStateM.bind, h]

theorem agreesAt_bind_iff (x : EStateM ε σ α) (f g : α → EStateM ε σ β) (state : σ) :
    AgreesAt meaning (x >>= f) (x >>= g) state ↔
      Leaves x state fun a next => AgreesAt meaning (f a) (g a) next := by
  cases hx : x state with
  | ok a next =>
    rw [AgreesAt, bind_of_ok hx, bind_of_ok hx]
    constructor
    · intro h a' next' hx'
      cases hx.symm.trans hx'
      exact h
    · exact fun h => h a next hx
  | error e next =>
    rw [AgreesAt, bind_of_error hx, bind_of_error hx]
    refine iff_of_true rfl fun a' next' hx' => ?_
    cases hx.symm.trans hx'

theorem agreesAt_throw (e e' : ε) (he : meaning e = meaning e') (state : σ) :
    AgreesAt meaning (throw e : EStateM ε σ α) (throw e') state := by
  show EStateM.Result.error _ _ = EStateM.Result.error _ _
  rw [he]

theorem not_agreesAt_pure_throw (a : α) (e : ε) (state : σ) :
    ¬ AgreesAt meaning (pure a : EStateM ε σ α) (throw e) state := nofun

theorem agreesAt_map_iff {f : α → β} (hf : ∀ a b, f a = f b → a = b) (x y : EStateM ε σ α)
    (state : σ) : AgreesAt meaning (f <$> x) (f <$> y) state ↔ AgreesAt meaning x y state := by
  show interpretError meaning (EStateM.map f x state) =
    interpretError meaning (EStateM.map f y state) ↔ _
  rw [AgreesAt, EStateM.map, EStateM.map]
  cases x state with
  | ok a next =>
    cases y state with
    | ok b next' =>
      simp only [interpretError, EStateM.Result.ok.injEq]
      exact and_congr_left fun _ => ⟨hf a b, congrArg f⟩
    | error e' next' => simp [interpretError]
  | error e next =>
    cases y state with
    | ok b next' => simp [interpretError]
    | error e' next' => simp [interpretError]

theorem finalState_interpretError (result : EStateM.Result ε σ α) :
    finalState (interpretError meaning result) = finalState result := by
  cases result <;> rfl

theorem AgreesAt.finalState_eq (h : AgreesAt meaning x y state) :
    finalState (x state) = finalState (y state) := by
  rw [← @finalState_interpretError _ _ _ _ meaning, h, finalState_interpretError]

/-- A computation that answers agrees only with one that gives the same answer. -/
theorem AgreesAt.ok {x y : EStateM ε σ α} {state next : σ} {a : α}
    (h : AgreesAt meaning x y state) (hx : x state = .ok a next) : y state = .ok a next := by
  rw [AgreesAt, hx] at h
  cases hy : y state with
  | ok b next' =>
    rw [hy] at h
    cases h
    rfl
  | error e next' =>
    rw [hy] at h
    cases h

end Agreement

section Answers

variable {post : β → σ → Prop} {state : σ}

theorem leaves_bind_iff (x : EStateM ε σ α) (f : α → EStateM ε σ β) :
    Leaves (x >>= f) state post ↔ Leaves x state fun a next => Leaves (f a) next post := by
  constructor
  · intro h a next hx b last hf
    exact h b last ((bind_of_ok hx f).trans hf)
  · intro h b last hbind
    cases hx : x state with
    | ok a next => exact h a next hx b last ((bind_of_ok hx f).symm.trans hbind)
    | error e next => cases (bind_of_error hx f).symm.trans hbind

theorem leaves_pure_iff (b : β) :
    Leaves (pure b : EStateM ε σ β) state post ↔ post b state := by
  constructor
  · exact fun h => h b state rfl
  · rintro h _ _ ⟨⟩
    exact h

theorem leaves_throw (e : ε) : Leaves (throw e : EStateM ε σ β) state post := nofun

theorem Leaves.mono {x : EStateM ε σ β} {post' : β → σ → Prop} (h : Leaves x state post)
    (himp : ∀ b next, post b next → post' b next) : Leaves x state post' :=
  fun b next hx => himp b next (h b next hx)

theorem leaves_of_ok {x : EStateM ε σ β} {b : β} {next : σ} (hx : x state = .ok b next) :
    Leaves x state post ↔ post b next := by
  constructor
  · exact fun h => h b next hx
  · intro h b' next' hx'
    cases hx.symm.trans hx'
    exact h

end Answers

end Escargot.Foundation
