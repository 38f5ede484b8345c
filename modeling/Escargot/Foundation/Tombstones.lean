/-
# Append-only storage with tombstones

A sequence whose entries are deleted in place: a dead entry keeps its position
and only the live ones count. Positions are found by a search for the one entry
that matches, and changes at that position are described on the live entries.
-/

import Mathlib

namespace Escargot.Foundation

open List

variable {ε : Type*} {live hit : ε → Bool} {storage : List ε} {i : Nat} {list : List ε} {x y : ε}

theorem getElem?_concat_iff {i : Nat} :
    (list ++ [x])[i]? = some y ↔ list[i]? = some y ∨ i = list.length ∧ y = x := by
  rcases Nat.lt_trichotomy i list.length with h | h | h
  · rw [getElem?_append_left h]
    constructor
    · exact Or.inl
    · rintro (h' | ⟨h', -⟩)
      · exact h'
      · omega
  · subst h
    simp [eq_comm]
  · rw [getElem?_eq_none (by rw [length_append, length_singleton]; omega),
      getElem?_eq_none (by omega)]
    simp only [reduceCtorEq, false_or, false_iff, not_and]
    omega

theorem getElem?_set_cases {j : Nat} (h : (list.set i x)[j]? = some y) :
    j = i ∧ y = x ∨ j ≠ i ∧ list[j]? = some y := by
  by_cases heq : j = i
  · subst heq
    have hlt := (List.getElem?_eq_some_iff.mp h).1
    rw [length_set] at hlt
    rw [getElem?_set_self hlt] at h
    exact .inl ⟨rfl, (Option.some.inj h).symm⟩
  · rw [getElem?_set_ne (Ne.symm heq)] at h
    exact .inr ⟨heq, h⟩

/-- At most one entry matches. -/
def UniqueHit (hit : ε → Bool) (storage : List ε) : Prop :=
  storage.Pairwise fun a b => hit a = true → hit b = false

theorem UniqueHit.split (hunique : UniqueHit hit storage) (hfound : storage.findIdx? hit = some i) :
    ∃ front entry back, storage = front ++ entry :: back ∧ front.length = i ∧
      hit entry = true ∧ ∀ other ∈ front ++ back, hit other = false := by
  obtain ⟨hi, hhit, hbefore⟩ := List.findIdx?_eq_some_iff_getElem.mp hfound
  have hsplit : storage = storage.take i ++ storage[i] :: storage.drop (i + 1) := by
    rw [getElem_cons_drop, take_append_drop]
  refine ⟨storage.take i, storage[i], storage.drop (i + 1), hsplit,
    by rw [length_take]; omega, hhit, fun other hother => ?_⟩
  rcases List.mem_append.mp hother with hfront | hback
  · obtain ⟨j, hj, rfl⟩ := List.mem_take_iff_getElem.mp hfront
    have hji : j < i := by omega
    simpa using hbefore j hji
  · rw [UniqueHit, hsplit] at hunique
    exact rel_of_pairwise_cons (List.pairwise_append.mp hunique).2.1 hback hhit

theorem modify_length_append (front back : List ε) (entry : ε) (f : ε → ε) :
    (front ++ entry :: back).modify front.length f = front ++ f entry :: back := by
  induction front with
  | nil => rfl
  | cons first front ih => exact congrArg (first :: ·) ih

/-- A relation that holds between an entry and its replacement holds pointwise. -/
theorem forall₂_modify {R : ε → ε → Prop} {f : ε → ε} (hrefl : ∀ e, R e e) (hf : ∀ e, R e (f e))
    (storage : List ε) (i : Nat) : List.Forall₂ R storage (storage.modify i f) := by
  induction storage generalizing i with
  | nil => cases i <;> exact .nil
  | cons first storage ih =>
    cases i with
    | zero => exact .cons (hf first) (List.forall₂_same.mpr fun e _ => hrefl e)
    | succ i => exact .cons (hrefl first) (ih i)

theorem UniqueHit.getElem?_eq_find? (hlive : ∀ e, hit e = true → live e = true)
    (hunique : UniqueHit hit storage) (hfound : storage.findIdx? hit = some i) :
    ∃ entry, storage[i]? = some entry ∧ (storage.filter live).find? hit = some entry := by
  obtain ⟨front, entry, back, rfl, rfl, hhit, hother⟩ := hunique.split hfound
  refine ⟨entry, by simp, ?_⟩
  have hfront : (front.filter live).find? hit = none := by
    rw [find?_eq_none]
    intro other hmem
    rw [hother other (mem_append_left _ (List.mem_filter.mp hmem).1)]
    exact Bool.false_ne_true
  rw [filter_append, find?_append, hfront, filter_cons_of_pos (hlive _ hhit)]
  simp [hhit]

theorem find?_filter_eq_none (hfound : storage.findIdx? hit = none) :
    (storage.filter live).find? hit = none := by
  rw [find?_eq_none]
  intro other hmem
  rw [List.findIdx?_eq_none_iff.mp hfound other (List.mem_filter.mp hmem).1]
  exact Bool.false_ne_true

/-- Changing the match in place changes it among the live entries. -/
theorem UniqueHit.filter_modify (hunique : UniqueHit hit storage)
    (hfound : storage.findIdx? hit = some i) (f : ε → ε) (hf : ∀ e, live (f e) = live e) :
    (storage.modify i f).filter live =
      (storage.filter live).map fun e => if hit e then f e else e := by
  obtain ⟨front, entry, back, rfl, rfl, hhit, hother⟩ := hunique.split hfound
  have hkeep : ∀ part : List ε, (∀ other ∈ part, hit other = false) →
      (part.filter live).map (fun e => if hit e then f e else e) = part.filter live := by
    intro part hpart
    rw [map_congr_left, List.map_id]
    intro other hmem
    rw [hpart other (List.mem_filter.mp hmem).1]
    rfl
  have hfront := hkeep front fun other h => hother other (mem_append_left _ h)
  have hback := hkeep back fun other h => hother other (mem_append_right _ h)
  rw [modify_length_append, filter_append, filter_append, map_append, hfront]
  congr 1
  cases hentry : live entry with
  | true =>
    rw [filter_cons_of_pos ((hf entry).trans hentry), filter_cons_of_pos hentry,
      map_cons, hback, if_pos hhit]
  | false =>
    rw [filter_cons_of_neg, filter_cons_of_neg, hback]
    · rw [hentry]
      exact Bool.false_ne_true
    · rw [hf, hentry]
      exact Bool.false_ne_true

theorem UniqueHit.filter_modify_dead (hunique : UniqueHit hit storage)
    (hfound : storage.findIdx? hit = some i) {f : ε → ε} (hf : ∀ e, live (f e) = false) :
    (storage.modify i f).filter live = (storage.filter live).filter fun e => !hit e := by
  obtain ⟨front, entry, back, rfl, rfl, hhit, hother⟩ := hunique.split hfound
  have hkeep : ∀ part : List ε, (∀ other ∈ part, hit other = false) →
      (part.filter live).filter (fun e => !hit e) = part.filter live := by
    intro part hpart
    rw [filter_eq_self]
    intro other hmem
    rw [hpart other (List.mem_filter.mp hmem).1]
    rfl
  have hfront := hkeep front fun other h => hother other (mem_append_left _ h)
  have hback := hkeep back fun other h => hother other (mem_append_right _ h)
  rw [modify_length_append, filter_append, filter_append, filter_append, hfront]
  congr 1
  have hdead : (f entry :: back).filter live = back.filter live := by
    rw [filter_cons_of_neg]
    rw [hf]
    exact Bool.false_ne_true
  rw [hdead]
  cases hentry : live entry with
  | true =>
    rw [filter_cons_of_pos hentry, filter_cons_of_neg, hback]
    rw [hhit]
    exact Bool.false_ne_true
  | false =>
    rw [filter_cons_of_neg, hback]
    rw [hentry]
    exact Bool.false_ne_true

end Escargot.Foundation
