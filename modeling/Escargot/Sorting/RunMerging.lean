/-
# Merging sorted runs

A list is cut into runs of a fixed width, neighbouring runs are merged, and the
width is doubled until one run is left. A comparison is a relation between its
two operands and its answer, so that a comparator may change its mind from one
call to the next.
-/

import Mathlib

namespace Escargot.Foundation

open List

variable {α : Type}

/-- A merge of two lists. The first of the right list is compared with the first of the left
one and goes before it if the answer is `true`. -/
inductive Merges (answers : α → α → Bool → Prop) : List α → List α → List α → Prop
  | leftNil (ys : List α) : Merges answers [] ys ys
  | rightNil (xs : List α) : Merges answers xs [] xs
  | takeRight {x y : α} {xs ys out : List α} (answer : answers y x true)
      (rest : Merges answers (x :: xs) ys out) : Merges answers (x :: xs) (y :: ys) (y :: out)
  | takeLeft {x y : α} {xs ys out : List α} (answer : answers y x false)
      (rest : Merges answers xs (y :: ys) out) : Merges answers (x :: xs) (y :: ys) (x :: out)

inductive MergesRuns (answers : α → α → Bool → Prop) (w : Nat) : List α → List α → Prop
  | nil : MergesRuns answers w [] []
  | run {input out rest : List α} (nonempty : input ≠ [])
      (merges : Merges answers (input.take w) ((input.drop w).take w) out)
      (later : MergesRuns answers w (input.drop (2 * w)) rest) :
      MergesRuns answers w input (out ++ rest)

/-- Passes of doubled width until one run is left. -/
inductive MergesAll (answers : α → α → Bool → Prop) : Nat → List α → List α → Prop
  | done {w : Nat} {input : List α} (le : input.length ≤ w) : MergesAll answers w input input
  | pass {w : Nat} {input mid out : List α} (runs : MergesRuns answers w input mid)
      (later : MergesAll answers (2 * w) mid out) : MergesAll answers w input out

/-- Every run of width `w` is ordered. -/
def Runs (r : α → α → Prop) (w : Nat) (l : List α) : Prop :=
  ∀ k, ((l.drop (k * w)).take w).Pairwise r

section Merging

variable {answers : α → α → Bool → Prop} {w : Nat} {xs ys out input : List α}

namespace Merges

theorem eq_right (h : Merges answers [] ys out) : out = ys := by cases h <;> rfl

theorem eq_left (h : Merges answers xs [] out) : out = xs := by cases h <;> rfl

theorem perm (h : Merges answers xs ys out) : out.Perm (xs ++ ys) := by
  induction h with
  | leftNil ys => exact .refl ys
  | rightNil xs => rw [append_nil]
  | takeRight answer rest ih => exact (ih.cons _).trans List.perm_middle.symm
  | takeLeft answer rest ih => exact ih.cons _

end Merges

theorem MergesRuns.perm (h : MergesRuns answers w input out) : out.Perm input := by
  induction h with
  | nil => exact .refl []
  | @run input out rest nonempty merges later ih =>
    have hsplit : input = (input.take w ++ (input.drop w).take w) ++ input.drop (2 * w) := by
      rw [append_assoc, Nat.two_mul, ← drop_drop, take_append_drop, take_append_drop]
    rw [hsplit]
    exact merges.perm.append ih

theorem MergesAll.perm (h : MergesAll answers w input out) : out.Perm input := by
  induction h with
  | done le => exact .refl _
  | pass runs later ih => exact ih.trans runs.perm

end Merging

section Order

variable {r : α → α → Prop} {answers : α → α → Bool → Prop} {w : Nat} {xs ys out input : List α}

theorem runs_one (l : List α) : Runs r 1 l := by
  intro k
  cases l.drop (k * 1) with
  | nil => exact .nil
  | cons x rest => exact pairwise_singleton r x

theorem Runs.pairwise (h : Runs r w input) (hle : input.length ≤ w) : input.Pairwise r := by
  have hfirst := h 0
  rwa [Nat.zero_mul, drop_zero, take_of_length_le hle] at hfirst

theorem Runs.drop_two (h : Runs r w input) : Runs r w (input.drop (2 * w)) := by
  intro k
  rw [drop_drop, ← Nat.add_mul]
  exact h (2 + k)

/-- The elements that are equivalent to `a` keep their order in a merge. -/
theorem Merges.filter_equiv [DecidableRel r] (trans : ∀ a b c, r a b → r b c → r a c)
    (strict : ∀ a b, answers a b true → ¬ r b a) (h : Merges answers xs ys out)
    (hxs : xs.Pairwise r) (a : α) :
    out.filter (fun z => decide (r a z ∧ r z a)) = xs.filter (fun z => decide (r a z ∧ r z a)) ++
        ys.filter (fun z => decide (r a z ∧ r z a)) := by
  induction h with
  | leftNil ys => rfl
  | rightNil xs => rw [filter_nil, append_nil]
  | @takeRight x y xs ys out answer rest ih =>
    rw [filter_cons, filter_cons (x := y), ih hxs]
    by_cases hy : r a y ∧ r y a
    · have hnone : (x :: xs).filter (fun z => decide (r a z ∧ r z a)) = [] := by
        rw [filter_eq_nil_iff]
        intro z hz hequiv
        have hequiv := of_decide_eq_true hequiv
        refine strict y x answer ?_
        rcases List.mem_cons.mp hz with rfl | hlater
        · exact trans z a y hequiv.2 hy.1
        · exact trans x z y ((List.pairwise_cons.mp hxs).1 z hlater)
            (trans z a y hequiv.2 hy.1)
      rw [hnone, nil_append, nil_append]
    · rw [decide_eq_false hy]
      rfl
  | @takeLeft x y xs ys out answer rest ih =>
    rw [filter_cons, ih (List.pairwise_cons.mp hxs).2, filter_cons (x := x)]
    split
    · rfl
    · rfl

theorem MergesRuns.filter_equiv [DecidableRel r] (trans : ∀ a b c, r a b → r b c → r a c)
    (strict : ∀ a b, answers a b true → ¬ r b a) (h : MergesRuns answers w input out)
    (hruns : Runs r w input) (a : α) :
    out.filter (fun z => decide (r a z ∧ r z a)) =
      input.filter (fun z => decide (r a z ∧ r z a)) := by
  induction h with
  | nil => rfl
  | @run input out rest nonempty merges later ih =>
    have hsplit : input = (input.take w ++ (input.drop w).take w) ++ input.drop (2 * w) := by
      rw [append_assoc, Nat.two_mul, ← drop_drop, take_append_drop, take_append_drop]
    have hfirst : (input.take w).Pairwise r := by
      have h := hruns 0
      rwa [Nat.zero_mul, drop_zero] at h
    rw [filter_append, ih hruns.drop_two, merges.filter_equiv trans strict hfirst,
      ← filter_append, ← filter_append, ← hsplit]

variable (trans : ∀ a b c, r a b → r b c → r a c)
  (yes : ∀ a b, answers a b true → r a b) (no : ∀ a b, answers a b false → r b a)

include trans yes no

theorem Merges.pairwise (h : Merges answers xs ys out) (hxs : xs.Pairwise r)
    (hys : ys.Pairwise r) : out.Pairwise r := by
  induction h with
  | leftNil ys => exact hys
  | rightNil xs => exact hxs
  | @takeRight x y xs ys out answer rest ih =>
    obtain ⟨hy, hrest⟩ := List.pairwise_cons.mp hys
    refine List.pairwise_cons.mpr ⟨fun z hz => ?_, ih hxs hrest⟩
    rcases List.mem_append.mp (rest.perm.mem_iff.mp hz) with hleft | hright
    · have hyx := yes y x answer
      rcases List.mem_cons.mp hleft with rfl | hlater
      · exact hyx
      · exact trans y x z hyx ((List.pairwise_cons.mp hxs).1 z hlater)
    · exact hy z hright
  | @takeLeft x y xs ys out answer rest ih =>
    obtain ⟨hx, hrest⟩ := List.pairwise_cons.mp hxs
    refine List.pairwise_cons.mpr ⟨fun z hz => ?_, ih hrest hys⟩
    rcases List.mem_append.mp (rest.perm.mem_iff.mp hz) with hleft | hright
    · exact hx z hleft
    · have hxy := no y x answer
      rcases List.mem_cons.mp hright with rfl | hlater
      · exact hxy
      · exact trans x y z hxy ((List.pairwise_cons.mp hys).1 z hlater)

theorem MergesRuns.runs (h : MergesRuns answers w input out) (hruns : Runs r w input) :
    Runs r (2 * w) out := by
  induction h with
  | nil =>
    intro k
    rw [drop_nil, take_nil]
    exact .nil
  | @run input out rest nonempty merges later ih =>
    have hout : out.Pairwise r := by
      refine merges.pairwise trans yes no ?_ ?_
      · have h := hruns 0
        rwa [Nat.zero_mul, drop_zero] at h
      · have h := hruns 1
        rwa [Nat.one_mul] at h
    have hlength : out.length = min (2 * w) input.length := by
      rw [merges.perm.length_eq, length_append, length_take, length_take, length_drop]
      omega
    have hrest : out.length < 2 * w → rest = [] := by
      intro hshort
      apply eq_nil_of_length_eq_zero
      rw [later.perm.length_eq, length_drop]
      omega
    have hle : out.length ≤ 2 * w := hlength ▸ Nat.min_le_left _ _
    intro k
    cases k with
    | zero =>
      rw [Nat.zero_mul, drop_zero]
      rcases Nat.lt_or_eq_of_le hle with hshort | hfull
      · rw [hrest hshort, append_nil, take_of_length_le hle]
        exact hout
      · rw [← hfull, take_left]
        exact hout
    | succ k =>
      rcases Nat.lt_or_eq_of_le hle with hshort | hfull
      · rw [hrest hshort, append_nil, drop_of_length_le, take_nil]
        · exact .nil
        · rw [Nat.succ_mul k (2 * w)]
          exact Nat.le_trans hle (Nat.le_add_left _ _)
      · rw [Nat.succ_mul k (2 * w), Nat.add_comm (k * (2 * w)), ← drop_drop, drop_left' hfull]
        exact ih hruns.drop_two k

theorem MergesAll.pairwise (h : MergesAll answers w input out) (hruns : Runs r w input) :
    out.Pairwise r := by
  induction h with
  | done le => exact hruns.pairwise le
  | pass runs later ih => exact ih (runs.runs trans yes no hruns)

variable [DecidableRel r] (strict : ∀ a b, answers a b true → ¬ r b a)

include strict

theorem MergesAll.filter_equiv (h : MergesAll answers w input out) (hruns : Runs r w input)
    (a : α) :
    out.filter (fun z => decide (r a z ∧ r z a)) =
      input.filter (fun z => decide (r a z ∧ r z a)) := by
  induction h with
  | done le => rfl
  | pass runs later ih =>
    rw [ih (runs.runs trans yes no hruns), runs.filter_equiv trans strict hruns]

end Order

section Unique

variable {α : Type} {r : α → α → Prop} [DecidableRel r]

/-- Two ordered lists are equal if each class of equivalent elements stands in the same order in
both. -/
theorem eq_of_pairwise_of_filter_equiv (refl : ∀ a, r a a) {l : List α} :
    ∀ {l' : List α}, l.Pairwise r → l'.Pairwise r →
      (∀ a, l.filter (fun z => decide (r a z ∧ r z a)) =
        l'.filter (fun z => decide (r a z ∧ r z a))) → l = l' := by
  have hself : ∀ a, decide (r a a ∧ r a a) = true := fun a => decide_eq_true ⟨refl a, refl a⟩
  have hfirst : ∀ {a b : α} {l l' : List α}, (a :: l).Pairwise r →
      (a :: l).filter (fun z => decide (r b z ∧ r z b)) =
        (b :: l').filter (fun z => decide (r b z ∧ r z b)) → r a b := by
    intro a b l l' hl hsame
    have hmem : b ∈ (a :: l).filter (fun z => decide (r b z ∧ r z b)) := by
      rw [hsame]
      exact List.mem_filter.mpr ⟨mem_cons_self, hself b⟩
    rcases List.mem_cons.mp (List.mem_filter.mp hmem).1 with rfl | hb
    · exact refl b
    · exact (List.pairwise_cons.mp hl).1 b hb
  induction l with
  | nil =>
    intro l' _ _ hsame
    cases l' with
    | nil => rfl
    | cons b l' =>
      have hb := hsame b
      rw [filter_nil, filter_cons, hself b] at hb
      cases hb
  | cons a l ih =>
    intro l' hl hl' hsame
    cases l' with
    | nil =>
      have ha := hsame a
      rw [filter_nil, filter_cons, hself a] at ha
      cases ha
    | cons b l' =>
      have hequiv : decide (r a b ∧ r b a) = true :=
        decide_eq_true ⟨hfirst hl (hsame b), hfirst hl' (hsame a).symm⟩
      have ha := hsame a
      rw [filter_cons, filter_cons, hself a, hequiv] at ha
      obtain ⟨rfl, -⟩ := List.cons.inj ha
      congr 1
      apply ih (List.pairwise_cons.mp hl).2 (List.pairwise_cons.mp hl').2
      intro c
      have hc := hsame c
      rw [filter_cons, filter_cons] at hc
      split at hc
      · exact (List.cons.inj hc).2
      · exact hc

omit [DecidableRel r] in
/-- The elements of a lower class come first in an ordered list. -/
theorem eq_filter_append_of_pairwise (p : α → Bool) (lower : ∀ a b, r a b → p b = true → p a = true)
    {l : List α} (h : l.Pairwise r) : l = l.filter p ++ l.filter fun a => !p a := by
  induction l with
  | nil => rfl
  | cons a l ih =>
    obtain ⟨hfirst, hrest⟩ := List.pairwise_cons.mp h
    cases ha : p a with
    | true =>
      rw [filter_cons_of_pos ha, filter_cons_of_neg (by rw [ha]; exact Bool.false_ne_true),
        cons_append, ← ih hrest]
    | false =>
      have hnone : ∀ b ∈ l, ¬ p b = true := by
        intro b hb hpb
        rw [lower a b (hfirst b hb) hpb] at ha
        cases ha
      rw [filter_cons_of_neg (by rw [ha]; exact Bool.false_ne_true),
        List.filter_eq_nil_iff.mpr hnone, nil_append, List.filter_eq_self.mpr]
      intro b hb
      rcases List.mem_cons.mp hb with rfl | hb
      · rw [ha]
        rfl
      · rw [Bool.eq_false_of_not_eq_true (hnone b hb)]
        rfl

end Unique

end Escargot.Foundation
