/-
# Depth-first search

What a search that marks what it has seen rests on. It tries nothing twice, so
a finite number of turns is enough. And where each node on the stack keeps how
far down its edges lead, a node that leads no further down than itself closes
its part of the stack: no edge goes from there to what is below.
-/

import Mathlib

namespace Escargot.Foundation

open List

universe u

variable {α : Type u}

/-- The elements that were tried, with turns for those of a universe that are left. -/
structure Tries (all : List α) (turns : Nat) (tried : List α) : Prop where
  nodup : tried.Nodup
  subset : tried ⊆ all
  enough : all.length < tried.length + turns

variable {all : List α} {turns : Nat}

theorem Tries.nil (henough : all.length < turns) : Tries all turns [] :=
  ⟨nodup_nil, nil_subset _, by rwa [length_nil, Nat.zero_add]⟩

variable {tried : List α}

theorem Tries.turns_ne_zero (htries : Tries all turns tried) : turns ≠ 0 := by
  have hlength := (htries.nodup.subperm htries.subset).length_le
  have henough := htries.enough
  omega

theorem Tries.concat {next : α} (htries : Tries all (turns + 1) tried)
    (hmem : next ∈ all) (hnew : next ∉ tried) :
    Tries all turns (tried ++ [next]) := by
  refine ⟨?_, ?_, ?_⟩
  · refine List.nodup_append.mpr ⟨htries.nodup, by simp, fun a ha b hb heq => ?_⟩
    exact hnew (List.mem_singleton.mp hb ▸ heq ▸ ha)
  · exact List.append_subset.mpr ⟨htries.subset, List.cons_subset.mpr ⟨hmem, nil_subset _⟩⟩
  · have henough := htries.enough
    rw [length_append, length_singleton]
    omega

theorem Tries.succ (htries : Tries all turns tried) : Tries all (turns + 1) tried :=
  ⟨htries.nodup, htries.subset, Nat.lt_succ_of_lt htries.enough⟩

def unseen (seen : α → Bool) (all : List α) : Nat := all.countP fun a => ! seen a

variable {seen seen' : α → Bool}

theorem unseen_le (all : List α)
    (hkeep : ∀ a, seen a = true → seen' a = true) : unseen seen' all ≤ unseen seen all := by
  refine countP_mono_left fun a _ hnot => ?_
  cases hseen : seen a with
  | false => rfl
  | true => simp [hkeep a hseen] at hnot

theorem unseen_lt {next : α} (hkeep : ∀ a, seen a = true → seen' a = true)
    (hmem : next ∈ all) (hnew : seen next = false) (hseen : seen' next = true) :
    unseen seen' all < unseen seen all := by
  induction all with
  | nil => exact absurd hmem not_mem_nil
  | cons a all ih =>
    have hrest := unseen_le all hkeep
    unfold unseen at hrest ih ⊢
    rw [countP_cons, countP_cons]
    rcases List.mem_cons.mp hmem with rfl | hmem
    · simp only [hnew, hseen]
      simp
      omega
    · have hless := ih hmem
      cases ha : seen a with
      | false => cases ha' : seen' a <;> simp <;> omega
      | true =>
        simp only [hkeep a ha]
        simpa using hless

section Components

variable {index ancestor : α → Nat} {edge : α → α → Prop} {new base : List α} {root : α}

/-- The nodes of a stack from a root on, the last first. Each keeps an index that its edges into
the stack do not go below, and no edge of the root or of what is above it leads further down than
the root: then no edge leaves that part of the stack downwards. -/
theorem closed_of_ancestor_eq
    (hsorted : (new ++ root :: base).Pairwise fun above below => index below < index above)
    (hedges : ∀ node ∈ new ++ [root], ∀ target, edge node target →
      target ∈ new ++ root :: base → ancestor node ≤ index target)
    (hleast : ∀ node ∈ new, ancestor root ≤ ancestor node) (hroot : ancestor root = index root) :
    ∀ node ∈ new ++ [root], ∀ target, edge node target → target ∈ new ++ root :: base →
      target ∈ new ++ [root] := by
  intro node hnode target hedge htarget
  have hlow : index root ≤ index target := by
    have hle := hedges node hnode target hedge htarget
    rcases List.mem_append.mp hnode with hnew | hself
    · exact Nat.le_trans (hroot ▸ hleast node hnew) hle
    · rw [List.mem_singleton.mp hself, hroot] at hle
      exact hle
  rcases List.mem_append.mp htarget with hnew | hrest
  · exact mem_append_left _ hnew
  · rcases List.mem_cons.mp hrest with rfl | hbelow
    · exact mem_append_right _ (mem_singleton_self _)
    · have hsplit := (List.pairwise_append.mp hsorted).2.1
      have hless := (List.pairwise_cons.mp hsplit).1 target hbelow
      exact absurd hlow (Nat.not_le.mpr hless)

end Components

end Escargot.Foundation
