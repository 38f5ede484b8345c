/-
# Linear probing

A table of buckets searched circularly from a home position. The development
is about one question: when does a search that stops at the first free bucket
meet an entry? It does as long as buckets are only ever filled, at the first
free bucket of a search, and one bucket stays free.
-/

import Mathlib

namespace Escargot.Foundation

section Probe

variable {γ : Type*}

/-- Follow `next` from position `i` until `stop` gives an answer, looking at no
more than `fuel` positions. -/
def probe (next : Nat → Nat) (stop : Nat → Option γ) : Nat → Nat → Option γ
  | 0, _ => none
  | fuel + 1, i =>
    match stop i with
    | some answer => some answer
    | none => probe next stop fuel (next i)

variable {next : Nat → Nat} {stop : Nat → Option γ}

theorem probe_eq_some_iff {fuel i : Nat} {answer : γ} : probe next stop fuel i = some answer ↔
      ∃ k < fuel, stop (next^[k] i) = some answer ∧ ∀ j < k, stop (next^[j] i) = none := by
  induction fuel generalizing i with
  | zero => simp [probe]
  | succ fuel ih =>
    rw [probe]
    cases hstop : stop i with
    | some found =>
      constructor
      · intro h
        exact ⟨0, Nat.succ_pos _, hstop.trans h, fun j hj => absurd hj (Nat.not_lt_zero _)⟩
      · rintro ⟨k, -, hk, hbefore⟩
        cases k with
        | zero => exact hstop.symm.trans hk
        | succ k => exact absurd (hstop.symm.trans (hbefore 0 (Nat.succ_pos _))) (by simp)
    | none =>
      rw [ih]
      constructor
      · rintro ⟨k, hk, hanswer, hbefore⟩
        refine ⟨k + 1, Nat.succ_lt_succ hk, hanswer, fun j hj => ?_⟩
        cases j with
        | zero => exact hstop
        | succ j => exact hbefore j (Nat.lt_of_succ_lt_succ hj)
      · rintro ⟨k, hk, hanswer, hbefore⟩
        cases k with
        | zero => exact absurd (hstop.symm.trans hanswer) (by simp)
        | succ k =>
          exact ⟨k, Nat.lt_of_succ_lt_succ hk, hanswer,
            fun j hj => hbefore (j + 1) (Nat.succ_lt_succ hj)⟩

/-- A search returns as soon as one of its positions has an answer. -/
theorem probe_isSome {fuel i k : Nat} (hk : k < fuel) (hstop : (stop (next^[k] i)).isSome) :
    (probe next stop fuel i).isSome := by
  induction fuel generalizing i k with
  | zero => exact absurd hk (Nat.not_lt_zero _)
  | succ fuel ih =>
    rw [probe]
    cases hfirst : stop i with
    | some found => rfl
    | none =>
      cases k with
      | zero =>
        rw [Function.iterate_zero, id_eq, hfirst] at hstop
        exact absurd hstop (by simp)
      | succ k => exact ih (Nat.lt_of_succ_lt_succ hk) hstop

end Probe

/-- The position after `i` in a table of `mask + 1` slots. -/
def nextSlot (mask i : Nat) : Nat := (i + 1) &&& mask

/-- The position `k` steps after the home position in a table of `n` slots. -/
def slot (n home k : Nat) : Nat := (home + k) % n

theorem slot_lt {n : Nat} (hn : 0 < n) (home k : Nat) : slot n home k < n := Nat.mod_lt _ hn

/-- With a power of two of slots the masked successor walks the slots in order. -/
theorem iterate_nextSlot (p hash k : Nat) :
    (nextSlot (2 ^ p - 1))^[k] (hash &&& (2 ^ p - 1)) = slot (2 ^ p) hash k := by
  induction k with
  | zero => rw [Function.iterate_zero, id_eq, Nat.and_two_pow_sub_one_eq_mod, slot, Nat.add_zero]
  | succ k ih =>
    rw [Function.iterate_succ_apply', ih, nextSlot, Nat.and_two_pow_sub_one_eq_mod, slot, slot,
      Nat.mod_add_mod, Nat.add_assoc]

theorem slot_succ (n home k : Nat) : slot n home (k + 1) = slot n (slot n home k) 1 := by
  rw [slot, slot, slot, Nat.mod_add_mod, Nat.add_assoc]

theorem slot_one_injective {n i j : Nat} (hi : i < n) (hj : j < n)
    (h : slot n i 1 = slot n j 1) : i = j := by
  have hcases : ∀ {k : Nat}, k < n → slot n k 1 = if k + 1 = n then 0 else k + 1 := by
    intro k hk
    rw [slot]
    split
    · rename_i heq
      rw [heq, Nat.mod_self]
    · exact Nat.mod_eq_of_lt (by omega)
  rw [hcases hi, hcases hj] at h
  split at h <;> split at h <;> omega

theorem exists_slot_eq {n i : Nat} (hi : i < n) (home : Nat) : ∃ k < n, slot n home k = i := by
  have hn : 0 < n := Nat.zero_lt_of_lt hi
  refine ⟨(i + (n - home % n)) % n, Nat.mod_lt _ hn, ?_⟩
  have hhome : home % n < n := Nat.mod_lt _ hn
  have hsum : home % n + (i + (n - home % n)) = i + n := by omega
  rw [slot, Nat.add_mod_mod, ← Nat.mod_add_mod, hsum, Nat.add_mod_right, Nat.mod_eq_of_lt hi]

section Table

variable {β : Type*} {free : β → Bool} {n : Nat} {buckets : Nat → β} {home : Nat} {entry : β}

def Reached (free : β → Bool) (n : Nat) (buckets : Nat → β) (home : Nat) (entry : β) : Prop :=
  ∃ k < n, buckets (slot n home k) = entry ∧ ∀ j < k, free (buckets (slot n home j)) = false

theorem update_of_occupied {i j : Nat} {new : β} (hfree : free (buckets i) = true)
    (hocc : free (buckets j) = false) : Function.update buckets i new j = buckets j := by
  apply Function.update_of_ne
  rintro rfl
  exact absurd (hfree.symm.trans hocc) (by decide)

theorem Reached.update (hreached : Reached free n buckets home entry)
    (hentry : free entry = false) {i : Nat} {new : β} (hfree : free (buckets i) = true) :
    Reached free n (Function.update buckets i new) home entry := by
  obtain ⟨k, hk, hmet, hbefore⟩ := hreached
  refine ⟨k, hk, ?_, fun j hj => ?_⟩
  · rw [update_of_occupied hfree (hmet ▸ hentry)]
    exact hmet
  · rw [update_of_occupied hfree (hbefore j hj)]
    exact hbefore j hj

theorem reached_update_self {k : Nat} (hk : k < n) (hfree : free (buckets (slot n home k)) = true)
    (hbefore : ∀ j < k, free (buckets (slot n home j)) = false) :
    Reached free n (Function.update buckets (slot n home k) entry) home entry := by
  refine ⟨k, hk, Function.update_self _ _ _, fun j hj => ?_⟩
  rw [update_of_occupied hfree (hbefore j hj)]
  exact hbefore j hj

def occupiedCount (free : β → Bool) (n : Nat) (buckets : Nat → β) : Nat :=
  ((Finset.range n).filter fun i => free (buckets i) = false).card

theorem exists_free_of_occupiedCount_lt (h : occupiedCount free n buckets < n) :
    ∃ i < n, free (buckets i) = true := by
  by_contra hnone
  have hall : ∀ i ∈ Finset.range n, free (buckets i) = false := fun i hi => by
    by_contra hfree
    exact hnone ⟨i, Finset.mem_range.mp hi, by simpa using hfree⟩
  rw [occupiedCount, Finset.filter_true_of_mem hall, Finset.card_range] at h
  exact Nat.lt_irrefl _ h

theorem occupiedCount_update {i : Nat} {new : β} (hi : i < n) (hfree : free (buckets i) = true)
    (hnew : free new = false) :
    occupiedCount free n (Function.update buckets i new) = occupiedCount free n buckets + 1 := by
  have hinsert : ((Finset.range n).filter fun j => free (Function.update buckets i new j) = false) =
      insert i ((Finset.range n).filter fun j => free (buckets j) = false) := by
    ext j
    by_cases hj : j = i
    · subst hj
      simp [hi, hnew]
    · simp [hj]
  rw [occupiedCount, hinsert, Finset.card_insert_of_notMem, occupiedCount]
  simp [hfree]

theorem le_occupiedCount {k : Nat} (home : Nat) (hk : k ≤ n)
    (hocc : ∀ j < k, free (buckets (slot n home j)) = false) :
    k ≤ occupiedCount free n buckets := by
  have hinj : Set.InjOn (slot n home) (Finset.range k : Set Nat) := by
    intro i hi j hj hij
    rw [Finset.coe_range, Set.mem_Iio] at hi hj
    have hmod : i % n = j % n := Nat.ModEq.add_left_cancel' home hij
    rwa [Nat.mod_eq_of_lt (by omega), Nat.mod_eq_of_lt (by omega)] at hmod
  have hsub : (Finset.range k).image (slot n home) ⊆
      (Finset.range n).filter fun i => free (buckets i) = false := by
    intro i hi
    obtain ⟨j, hj, rfl⟩ := Finset.mem_image.mp hi
    rw [Finset.mem_range] at hj
    exact Finset.mem_filter.mpr
      ⟨Finset.mem_range.mpr (slot_lt (by omega) home j), hocc j hj⟩
  calc
    k = ((Finset.range k).image (slot n home)).card := by
      rw [Finset.card_image_of_injOn hinj, Finset.card_range]
    _ ≤ occupiedCount free n buckets := Finset.card_le_card hsub

/-- Overwriting an occupied bucket does not change the number of them. -/
theorem occupiedCount_update_of_occupied {i : Nat} {new : β} (hocc : free (buckets i) = false)
    (hnew : free new = false) :
    occupiedCount free n (Function.update buckets i new) = occupiedCount free n buckets := by
  rw [occupiedCount, occupiedCount]
  congr 1
  apply Finset.filter_congr
  intro j _
  by_cases hj : j = i
  · subst hj
    rw [Function.update_self, hnew, hocc]
  · rw [Function.update_of_ne hj]

end Table

end Escargot.Foundation
