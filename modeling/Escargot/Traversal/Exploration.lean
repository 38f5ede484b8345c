/-
# Explorations of a graph

A search marks what it comes to and goes on along the edges from there. `Explored` says
what one part of it has done: which nodes it came to besides those that were marked
before, that all of them are reached from its roots, and that no edge leaves them but
to nodes that are marked. The parts of a search are put together by one rule for a
node that is new and one for parts that follow each other.

A search can be looking for something that nodes provide. `Answers` is what the parts
of it give: nothing, one thing, or that there are several.
-/

import Mathlib

namespace Escargot.Traversal

open List

universe u v

section Exploration

variable {P : Type u} {edge : P → P → Prop} {roots roots' : P → Prop} {seen new new' : List P}

variable (edge) (roots) (new)

/-- The nodes that roots lead to. -/
def ReachedFrom (node : P) : Prop := ∃ root, roots root ∧ Relation.ReflTransGen edge root node

/-- A part of a search came to these nodes, from its roots. -/
def Reaches : Prop := ∀ node ∈ new, ReachedFrom edge roots node

theorem Reaches.nil : Reaches edge roots [] := fun _ hnode => absurd hnode not_mem_nil

variable {edge} {roots} {new}

theorem Reaches.mono (h : Reaches edge roots new) (hroots : ∀ root, roots root → roots' root) :
    Reaches edge roots' new := by
  intro node hnode
  obtain ⟨root, hroot, hpath⟩ := h node hnode
  exact ⟨root, hroots root hroot, hpath⟩

theorem Reaches.append (h : Reaches edge roots new) (h' : Reaches edge roots new') :
    Reaches edge roots (new ++ new') := by
  intro node hnode
  rcases List.mem_append.mp hnode with hfirst | hsecond
  · exact h node hfirst
  · exact h' node hsecond

theorem Reaches.visit {node : P} (h : Reaches edge (edge node) new) :
    Reaches edge (· = node) (node :: new) := by
  intro other hother
  rcases List.mem_cons.mp hother with rfl | hnew
  · exact ⟨other, rfl, .refl⟩
  · obtain ⟨root, hroot, hpath⟩ := h other hnew
    exact ⟨node, rfl, .head hroot hpath⟩

/-- A part of a search, from what was marked before. -/
structure Explored (edge : P → P → Prop) (roots : P → Prop) (seen new : List P) : Prop where
  reaches : Reaches edge roots new
  roots : ∀ root, roots root → root ∈ seen ++ new
  closed : ∀ node ∈ new, ∀ next, edge node next → next ∈ seen ++ new

theorem Explored.of_seen (hroots : ∀ root, roots root → root ∈ seen) :
    Explored edge roots seen [] where
  reaches := .nil edge roots
  roots root hroot := by
    rw [append_nil]
    exact hroots root hroot
  closed _ hnode := absurd hnode not_mem_nil

theorem Explored.visit {node : P} (h : Explored edge (edge node) (seen ++ [node]) new) :
    Explored edge (· = node) seen (node :: new) where
  reaches := h.reaches.visit
  roots root hroot := by
    subst hroot
    exact mem_append_right _ mem_cons_self
  closed other hother next hnext := by
    have hsplit : seen ++ [node] ++ new = seen ++ node :: new := by simp
    rw [← hsplit]
    rcases List.mem_cons.mp hother with rfl | hnew
    · exact h.roots next hnext
    · exact h.closed other hnew next hnext

theorem Explored.append (h : Explored edge roots seen new)
    (h' : Explored edge roots' (seen ++ new) new') :
    Explored edge (fun root => roots root ∨ roots' root) seen (new ++ new') where
  reaches := (h.reaches.mono fun _ => Or.inl).append (h'.reaches.mono fun _ => Or.inr)
  roots root hroot := by
    rw [← append_assoc]
    rcases hroot with hfirst | hsecond
    · exact mem_append_left _ (h.roots root hfirst)
    · exact h'.roots root hsecond
  closed node hnode next hnext := by
    rw [← append_assoc]
    rcases List.mem_append.mp hnode with hfirst | hsecond
    · exact mem_append_left _ (h.closed node hfirst next hnext)
    · exact h'.closed node hsecond next hnext

theorem Explored.congr (h : Explored edge roots seen new)
    (hroots : ∀ root, roots root ↔ roots' root) : Explored edge roots' seen new where
  reaches := h.reaches.mono fun root => (hroots root).mp
  roots root hroot := h.roots root ((hroots root).mpr hroot)
  closed := h.closed

theorem Explored.mem_iff (h : Explored edge roots [] new) (node : P) :
    node ∈ new ↔ ReachedFrom edge roots node := by
  constructor
  · exact h.reaches node
  · rintro ⟨root, hroot, hpath⟩
    induction hpath with
    | refl => exact h.roots root hroot
    | tail _ hedge ih => exact h.closed _ ih _ hedge

end Exploration

section Answers

variable {B : Type v}

/-- What is known of the things that were found. -/
inductive Answer (B : Type v)
  | nothing
  | one (thing : B)
  | several

def Answer.For (things : B → Prop) : Answer B → Prop
  | .nothing => ∀ thing, ¬things thing
  | .one thing => things thing ∧ ∀ other, things other → other = thing
  | .several => ∃ thing other, things thing ∧ things other ∧ thing ≠ other

variable {things things' : B → Prop} {answer : Answer B}

theorem Answer.For.congr (h : answer.For things) (hthings : ∀ thing, things thing ↔ things' thing) :
    answer.For things' := by
  have hsame : things = things' := funext fun thing => propext (hthings thing)
  exact hsame ▸ h

theorem Answer.For.unique {answer' : Answer B} (h : answer.For things) (h' : answer'.For things) :
    answer = answer' := by
  cases answer with
  | nothing =>
    cases answer' with
    | nothing => rfl
    | one thing => exact absurd h'.1 (h thing)
    | several =>
      obtain ⟨thing, _, hthing, _⟩ := h'
      exact absurd hthing (h thing)
  | one thing =>
    cases answer' with
    | nothing => exact absurd h.1 (h' thing)
    | one thing' => rw [h'.2 thing h.1]
    | several =>
      obtain ⟨first, second, hfirst, hsecond, hne⟩ := h'
      exact absurd ((h.2 first hfirst).trans (h.2 second hsecond).symm) hne
  | several =>
    obtain ⟨first, second, hfirst, hsecond, hne⟩ := h
    cases answer' with
    | nothing => exact absurd hfirst (h' first)
    | one thing' => exact absurd ((h'.2 first hfirst).trans (h'.2 second hsecond).symm) hne
    | several => rfl

theorem Answer.For.or_nothing (h : answer.For things) (h' : Answer.nothing.For things') :
    answer.For fun thing => things thing ∨ things' thing :=
  h.congr fun thing => ⟨Or.inl, fun hor => hor.resolve_right (h' thing)⟩

theorem Answer.For.or_same {thing : B} (h : (Answer.one thing).For things)
    (h' : (Answer.one thing).For things') :
    (Answer.one thing).For fun other => things other ∨ things' other :=
  ⟨Or.inl h.1, fun other hor => hor.elim (h.2 other) (h'.2 other)⟩

theorem Answer.For.or_other {thing thing' : B} (h : (Answer.one thing).For things)
    (h' : (Answer.one thing').For things') (hne : thing ≠ thing') :
    (Answer.several (B := B)).For fun other =>
      things other ∨ things' other :=
  ⟨thing, thing', Or.inl h.1, Or.inr h'.1, hne⟩

end Answers

end Escargot.Traversal
