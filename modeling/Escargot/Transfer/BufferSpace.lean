/-
# The space of a growing buffer

Before a demand is written, its reservation grows the buffer when there is no room for what is
reserved. So a reservation that is too small does no harm when the buffer grows, and none when
there is room to spare. It falls short where the room ends between what is reserved and what is
written.
-/

import Escargot.Foundation.Serialization

namespace Escargot.Foundation

/-- How far a buffer is filled, and what it can hold. -/
structure Space where
  index : Nat
  capacity : Nat

section Space

variable (grow : Nat → Nat)

/-- What the buffer can hold after a reservation. -/
def Space.room (s : Space) (reserved : Nat) : Nat :=
  if s.index + reserved ≤ s.capacity then s.capacity else grow (s.capacity + reserved)

def Space.after (s : Space) : List (Nat × Nat) → Space
  | [] => s
  | demand :: rest =>
    Space.after { index := s.index + demand.2, capacity := s.room grow demand.1 } rest

/-- There is room for what is reserved, but not for what is written. -/
def Space.FallsShort (s : Space) (demand : Nat × Nat) : Prop :=
  s.index + demand.1 ≤ s.capacity ∧ s.capacity < s.index + demand.2

variable {grow} {s : Space} (p q : List (Nat × Nat))

theorem Space.after_append : s.after grow (p ++ q) = (s.after grow p).after grow q := by
  induction p generalizing s with
  | nil => rfl
  | cons demand p ih => exact ih

theorem Space.fits_cons (demand : Nat × Nat) (rest : List (Nat × Nat)) :
    Fits grow s.index s.capacity (demand :: rest) ↔ s.index + demand.2 ≤ s.room grow demand.1 ∧
        Fits grow (s.index + demand.2) (s.room grow demand.1) rest := Iff.rfl

/-- Demands fit when the first ones do and the others do after them. -/
theorem Space.fits_append : Fits grow s.index s.capacity (p ++ q) ↔ Fits grow s.index s.capacity p ∧
        Fits grow (s.after grow p).index (s.after grow p).capacity q := by
  induction p generalizing s with
  | nil => exact (and_iff_right trivial).symm
  | cons demand p ih =>
    have hrest := ih (s := { index := s.index + demand.2, capacity := s.room grow demand.1 })
    rw [List.cons_append, fits_cons, fits_cons, and_assoc]
    exact and_congr_right fun _ => hrest

theorem Space.after_bounded (hs : s.index ≤ s.capacity) {demand : List (Nat × Nat)}
    (h : Fits grow s.index s.capacity demand) :
    (s.after grow demand).index ≤ (s.after grow demand).capacity := by
  induction demand generalizing s with
  | nil => exact hs
  | cons first rest ih =>
    exact @ih { index := s.index + first.2, capacity := s.room grow first.1 } h.1 h.2

/-- A demand fits unless it falls short. Less than half of it is missing in the reservation, and a
buffer that grows is at least doubled. -/
theorem Space.fits_one_iff (hgrow : ∀ n, 2 * n ≤ grow n) (hs : s.index ≤ s.capacity)
    {demand : Nat × Nat} (hdemand : demand.2 ≤ 2 * demand.1) :
    Fits grow s.index s.capacity [demand] ↔ ¬s.FallsShort demand := by
  have hdouble := hgrow (s.capacity + demand.1)
  constructor
  · rintro ⟨hroom, -⟩ ⟨hreserved, hwritten⟩
    rw [if_pos hreserved] at hroom
    exact absurd hroom (Nat.not_le.mpr hwritten)
  · intro h
    refine ⟨?_, trivial⟩
    split_ifs with hreserved
    · exact Nat.le_of_not_lt fun hwritten => h ⟨hreserved, hwritten⟩
    · omega

/-- After a first demand, the others fit if they are reserved in full. -/
theorem Space.fits_cons_iff (hgrow : ∀ n, 2 * n ≤ grow n) (hs : s.index ≤ s.capacity)
    {demand : Nat × Nat} (hdemand : demand.2 ≤ 2 * demand.1) {rest : List (Nat × Nat)}
    (hrest : ∀ d ∈ rest, d.2 ≤ d.1) :
    Fits grow s.index s.capacity (demand :: rest) ↔ ¬s.FallsShort demand := by
  have hle : ∀ n, n ≤ grow n := fun n => (Nat.le_mul_of_pos_left n Nat.two_pos).trans (hgrow n)
  rw [← fits_one_iff hgrow hs hdemand, fits_cons, fits_cons]
  exact and_congr_right fun hroom => iff_of_true (Fits.of_le hle hrest hroom) trivial

end Space

end Escargot.Foundation
