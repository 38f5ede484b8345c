/-
# Loops that jump

A loop visits the positions below a bound, and each round may end the loop with an
exception. A loop that jumps over rounds that do nothing ends in the same state.
-/

import Mathlib

namespace Escargot.Foundation

variable {S ε : Type}

/-- Goes on unless there is an exception. -/
def andThen (outcome : S × Option ε) (next : S → S × Option ε) : S × Option ε :=
  match outcome with
  | (s, none) => next s
  | (s, some e) => (s, some e)

/-- The loop that visits every position. -/
def rounds (round : Nat → S → S × Option ε) (stop k : Nat) (s : S) : S × Option ε :=
  if k < stop then andThen (round k s) (rounds round stop (k + 1)) else (s, none)
termination_by stop - k

/-- Where a loop goes on after a round, from the states before and after it. -/
structure LoopJumps (S : Type) (stop : Nat) where
  next : Nat → S → S → Nat
  lt : ∀ k s s', k < stop → k < next k s s'

def jumpingRounds {stop : Nat} (jumps : LoopJumps S stop) (round : Nat → S → S × Option ε) (k : Nat)
    (s : S) : S × Option ε :=
  if _ : k < stop then
    match round k s with
    | (s', none) => jumpingRounds jumps round (jumps.next k s s') s'
    | (s', some e) => (s', some e)
  else (s, none)
termination_by stop - k
decreasing_by
  have hlt := jumps.lt k s s' (by assumption)
  omega

variable {round : Nat → S → S × Option ε} {stop k m : Nat} {s : S}

theorem rounds_of_lt (h : k < stop) :
    rounds round stop k s = andThen (round k s) (rounds round stop (k + 1)) := by
  rw [rounds, if_pos h]

theorem rounds_of_le (h : stop ≤ k) : rounds round stop k s = (s, none) := by
  rw [rounds, if_neg (Nat.not_lt.mpr h)]

theorem rounds_eq_of_idle (hle : k ≤ m)
    (idle : ∀ j, k ≤ j → j < m → j < stop → round j s = (s, none)) :
    rounds round stop k s = rounds round stop m s := by
  induction m, hle using Nat.le_induction with
  | base => rfl
  | succ m hle ih =>
    rw [ih fun j hj hlt => idle j hj (Nat.lt_succ_of_lt hlt)]
    rcases Nat.lt_or_ge m stop with hlt | hge
    · rw [rounds_of_lt hlt, idle m hle (Nat.lt_succ_self m) hlt]
      rfl
    · rw [rounds_of_le hge, rounds_of_le (Nat.le_succ_of_le hge)]

theorem jumpingRounds_eq (jumps : LoopJumps S stop)
    (idle : ∀ k s s', k < stop → round k s = (s', none) →
      ∀ j, k < j → j < jumps.next k s s' → j < stop → round j s' = (s', none)) (k : Nat) (s : S) :
    jumpingRounds jumps round k s = rounds round stop k s := by
  induction hm : stop - k using Nat.strong_induction_on generalizing k s with
  | _ m ih =>
    rw [jumpingRounds]
    by_cases hk : k < stop
    · rw [dif_pos hk, rounds_of_lt hk]
      rcases hround : round k s with ⟨s', _ | e⟩
      · have hlt := jumps.lt k s s' hk
        dsimp only [andThen]
        rw [ih _ (by omega) _ _ rfl, rounds_eq_of_idle hlt]
        exact fun j hj hnext => idle k s s' hk hround j hj hnext
      · rfl
    · rw [dif_neg hk, rounds_of_le (Nat.not_lt.mp hk)]

def visitAll (round : Nat → S → S × Option ε) : List Nat → S → S × Option ε
  | [], s => (s, none)
  | k :: positions, s => andThen (round k s) (visitAll round positions)

theorem rounds_eq_visitAll (round : Nat → S → S × Option ε) (stop k : Nat) (s : S) :
    rounds round stop k s = visitAll round (List.range' k (stop - k)) s := by
  induction hm : stop - k generalizing k s with
  | zero => exact rounds_of_le (Nat.le_of_sub_eq_zero hm)
  | succ m ih =>
    rw [rounds_of_lt (by omega), List.range'_succ, visitAll]
    rcases round k s with ⟨s', _ | e⟩
    · exact ih (k + 1) s' (by omega)
    · rfl

/-- The loop that counts down while the position is above a bound. -/
def roundsDown (round : Nat → S → S × Option ε) (stop : Nat) : Nat → S → S × Option ε
  | 0, s => (s, none)
  | k + 1, s =>
    if stop < k + 1 then andThen (round (k + 1) s) (roundsDown round stop k) else (s, none)

theorem roundsDown_eq_visitAll (round : Nat → S → S × Option ε) (stop k : Nat) (s : S) :
    roundsDown round stop k s =
      visitAll (fun j => round (j + 1)) (List.range' stop (k - stop)).reverse s := by
  induction k generalizing s with
  | zero =>
    rw [Nat.zero_sub]
    rfl
  | succ k ih =>
    rw [roundsDown]
    by_cases hk : stop < k + 1
    · have hcount : k + 1 - stop = k - stop + 1 := by omega
      have hlast : stop + (k - stop) = k := by omega
      rw [if_pos hk, hcount, List.range'_1_concat, List.reverse_append, hlast]
      show _ = andThen (round (k + 1) s) _
      rcases round (k + 1) s with ⟨s', _ | e⟩
      · exact ih s'
      · rfl
    · rw [if_neg hk, Nat.sub_eq_zero_of_le (Nat.not_lt.mp hk)]
      rfl

end Escargot.Foundation
