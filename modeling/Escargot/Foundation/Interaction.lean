/-
# Computations with unknown code and loops

A computation that runs code it does not know may change a state, may fail, and
may never end; a loop is run with fuel, and `none` says that it was not enough.
`Gives` states that a computation ends with an answer. Its rules follow the
shape of the computation, and the one for loops asks for an invariant with a
number that becomes smaller in every turn.
-/

import Mathlib

namespace Escargot.Foundation

universe u

variable {ε σ α β S : Type u}

abbrev Interaction (ε σ α : Type u) := ExceptT ε (StateT σ Option) α

namespace Interaction

/-- The computation ends with an answer. -/
def Gives (x : Interaction ε σ α) (state : σ) (post : α → σ → Prop) : Prop :=
  ∃ a next, x state = some (.ok a, next) ∧ post a next

/-- The loop has not ended when the fuel is used up. -/
def diverges : Interaction ε σ α := fun _ => none

/-- Run the body until it gives a result, with the state of the loop that it leaves. -/
def loop (body : S → Interaction ε σ (S ⊕ α)) : Nat → S → Interaction ε σ α
  | 0, _ => diverges
  | fuel + 1, s => do
      match ← body s with
      | .inl s => loop body fuel s
      | .inr a => pure a

variable {x : Interaction ε σ α} {state next : σ}

theorem bind_of_ok {a : α} (h : x state = some (.ok a, next)) (f : α → Interaction ε σ β) :
    (x >>= f) state = f a next := by
  simp only [ExceptT.bind, ExceptT.mk, bind, StateT.bind]
  rw [h]
  rfl

theorem bind_of_error {e : ε} (h : x state = some (.error e, next)) (f : α → Interaction ε σ β) :
    (x >>= f) state = some (.error e, next) := by
  simp only [ExceptT.bind, ExceptT.mk, bind, StateT.bind]
  rw [h]
  rfl

theorem bind_of_none (h : x state = none) (f : α → Interaction ε σ β) : (x >>= f) state = none := by
  simp only [ExceptT.bind, ExceptT.mk, bind, StateT.bind]
  rw [h]
  rfl

theorem tryCatch_of_ok {a : α} (h : x state = some (.ok a, next))
    (handler : ε → Interaction ε σ α) :
    (tryCatch x handler) state = some (.ok a, next) := by
  show (ExceptT.tryCatch x handler : ExceptT ε (StateT σ Option) α) state = _
  simp only [ExceptT.tryCatch, ExceptT.mk, bind, StateT.bind]
  rw [h]
  rfl

theorem tryCatch_of_error {e : ε} (h : x state = some (.error e, next))
    (handler : ε → Interaction ε σ α) :
    (tryCatch x handler) state = handler e next := by
  show (ExceptT.tryCatch x handler : ExceptT ε (StateT σ Option) α) state = _
  simp only [ExceptT.tryCatch, ExceptT.mk, bind, StateT.bind]
  rw [h]
  rfl

theorem Gives.pure {a : α} {post : α → σ → Prop} (h : post a state) :
    Gives (Pure.pure a : Interaction ε σ α) state post :=
  ⟨a, state, rfl, h⟩

variable {f : α → Interaction ε σ β}

theorem Gives.bind {mid : α → σ → Prop} {post : β → σ → Prop} (hx : Gives x state mid)
    (hf : ∀ a next, mid a next → Gives (f a) next post) : Gives (x >>= f) state post := by
  obtain ⟨a, next, hrun, hmid⟩ := hx
  obtain ⟨b, last, hrun', hpost⟩ := hf a next hmid
  exact ⟨b, last, (bind_of_ok hrun f).trans hrun', hpost⟩

theorem Gives.bind_of_ok {a : α} {post : β → σ → Prop} (hx : x state = some (.ok a, next))
    (hf : Gives (f a) next post) : Gives (x >>= f) state post := by
  obtain ⟨b, last, hrun, hpost⟩ := hf
  exact ⟨b, last, (Interaction.bind_of_ok hx f).trans hrun, hpost⟩

theorem Gives.mono {post post' : α → σ → Prop} (hx : Gives x state post)
    (h : ∀ a next, post a next → post' a next) : Gives x state post' := by
  obtain ⟨a, next, hrun, hpost⟩ := hx
  exact ⟨a, next, hrun, h a next hpost⟩

/-- The invariant holds with a number of turns that may be left. A turn ends the loop, or makes
the number smaller. -/
theorem Gives.loop {body : S → Interaction ε σ (S ⊕ α)} (inv : Nat → S → σ → Prop)
    {post : α → σ → Prop}
    (hbody : ∀ n s state, inv n s state → Gives (body s) state fun
      | .inl s', next => ∃ n' < n, inv n' s' next
      | .inr a, next => post a next) :
    ∀ {fuel n : Nat} {s : S} {state : σ}, inv n s state → n < fuel →
      Gives (loop body fuel s) state post
  | 0, n, _, _, _, hfuel => (Nat.not_lt_zero n hfuel).elim
  | fuel + 1, n, s, state, hinv, hfuel => by
      refine (hbody n s state hinv).bind fun result next hresult => ?_
      cases result with
      | inl s' =>
        obtain ⟨n', hn', hinv'⟩ := hresult
        exact Gives.loop inv hbody hinv' (by omega)
      | inr a => exact .pure hresult

theorem bind_eq_ok {last : σ} {b : β} (h : (x >>= f) state = some (.ok b, last)) :
    ∃ a next, x state = some (.ok a, next) ∧ f a next = some (.ok b, last) := by
  cases hx : x state with
  | none => cases (bind_of_none hx f).symm.trans h
  | some result =>
    obtain ⟨_ | a, next⟩ := result
    · cases (bind_of_error hx f).symm.trans h
    · exact ⟨a, next, rfl, (bind_of_ok hx f).symm.trans h⟩

theorem bind_congr {g : α → Interaction ε σ β}
    (h : ∀ a next, x state = some (.ok a, next) → f a next = g a next) :
    (x >>= f) state = (x >>= g) state := by
  cases hx : x state with
  | none => rw [bind_of_none hx, bind_of_none hx]
  | some result =>
    obtain ⟨_ | a, next⟩ := result
    · rw [bind_of_error hx, bind_of_error hx]
    · rw [bind_of_ok hx, bind_of_ok hx, h a next hx]

/-- Two first steps that do the same here leave the same to be done. -/
theorem bind_congr_left {y : Interaction ε σ α} (h : x state = y state)
    (f : α → Interaction ε σ β) : (x >>= f) state = (y >>= f) state := by
  cases hx : x state with
  | none => rw [bind_of_none hx, bind_of_none (h.symm.trans hx)]
  | some result =>
    obtain ⟨_ | a, next⟩ := result
    · rw [bind_of_error hx, bind_of_error (h.symm.trans hx)]
    · rw [bind_of_ok hx, bind_of_ok (h.symm.trans hx)]

/-- Two loops do the same where an invariant makes every turn of them the same. -/
theorem loop_congr {body body' : S → Interaction ε σ (S ⊕ α)} (inv : S → σ → Prop)
    (hsame : ∀ s state, inv s state → body s state = body' s state)
    (hkeep : ∀ s state s' next, inv s state → body s state = some (.ok (.inl s'), next) →
      inv s' next) :
    ∀ (fuel : Nat) {s : S} {state : σ}, inv s state →
      loop body fuel s state = loop body' fuel s state
  | 0, _, _, _ => rfl
  | fuel + 1, s, state, hinv => by
      rw [loop, loop]
      cases hbody : body s state with
      | none => rw [bind_of_none hbody, bind_of_none ((hsame s state hinv).symm.trans hbody)]
      | some result =>
        have hbody' := (hsame s state hinv).symm.trans hbody
        obtain ⟨e | s' | a, next⟩ := result
        · rw [bind_of_error hbody, bind_of_error hbody']
        · rw [bind_of_ok hbody, bind_of_ok hbody']
          exact loop_congr inv hsame hkeep fuel (hkeep s state s' next hinv hbody)
        · rw [bind_of_ok hbody, bind_of_ok hbody']

end Interaction

end Escargot.Foundation
