/-
# Sets kept as lists

A set with an order is a list without duplicates. What it means to insert all
elements of another list, to remove them, or to do one or the other, is a
filter of the two lists.
-/

import Mathlib

namespace Escargot.Foundation

open List

universe u

variable {ι : Type u} [DecidableEq ι]

/-- Append an element that is not there. -/
def insertNew (list : List ι) (a : ι) : List ι := if a ∈ list then list else list ++ [a]

/-- Remove an element of `own`, and insert any other. -/
def toggle (own list : List ι) (a : ι) : List ι :=
  if a ∈ own then list.erase a else insertNew list a

theorem nodup_eraseDups : ∀ list : List ι, list.eraseDups.Nodup
  | [] => nodup_nil
  | a :: rest => by
      rw [eraseDups_cons, nodup_cons]
      constructor
      · rw [mem_eraseDups, mem_filter]
        simp
      · exact nodup_eraseDups (rest.filter fun b => !b == a)
termination_by list => list.length
decreasing_by exact Nat.lt_succ_of_le (length_filter_le _ _)

variable {own : List ι} (keys : List ι)

theorem foldl_insertNew : ∀ list : List ι,
    keys.foldl insertNew list = list ++ (keys.filter (· ∉ list)).eraseDups := by
  induction keys with
  | nil => intro list; simp
  | cons k keys ih =>
    intro list
    rw [foldl_cons, ih, insertNew]
    by_cases hk : k ∈ list
    · rw [if_pos hk, filter_cons_of_neg (by simpa using hk)]
    · rw [if_neg hk, filter_cons_of_pos (by simpa using hk), eraseDups_cons,
        List.filter_filter, append_assoc, singleton_append]
      congr 4
      funext b
      by_cases hb : b = k <;> simp [hb]

theorem nodup_foldl_insertNew {keys list : List ι} (hlist : list.Nodup) :
    (keys.foldl insertNew list).Nodup := by
  rw [foldl_insertNew]
  refine hlist.append (nodup_eraseDups _) fun a hlist' hnew => ?_
  rw [mem_eraseDups, mem_filter, decide_eq_true_iff] at hnew
  exact hnew.2 hlist'

theorem foldl_insertNew_of_nodup : ∀ {list : List ι}, (list ++ keys).Nodup →
    keys.foldl insertNew list = list ++ keys := by
  induction keys with
  | nil => exact fun _ => (append_nil _).symm
  | cons k keys ih =>
    intro list hnodup
    have hnew : k ∉ list := fun hmem => (nodup_append.1 hnodup).2.2 k hmem k mem_cons_self rfl
    rw [append_cons] at hnodup ⊢
    rw [foldl_cons, insertNew, if_neg hnew, ih hnodup]

theorem foldl_toggle_append : ∀ kept added : List ι,
    (∀ a ∈ kept, a ∈ own) → (∀ a ∈ added, a ∉ own) →
    keys.foldl (toggle own) (kept ++ added) =
      kept.diff keys ++ (keys.filter (· ∉ own)).foldl insertNew added := by
  induction keys with
  | nil => intro kept added _ _; simp
  | cons k keys ih =>
    intro kept added hkept hadded
    rw [foldl_cons, toggle, diff_cons]
    by_cases hk : k ∈ own
    · have hnotAdded : k ∉ added := fun h => hadded k h hk
      have herase : (kept ++ added).erase k = kept.erase k ++ added := by
        rw [erase_append]
        split
        · rfl
        · rw [erase_of_not_mem hnotAdded, erase_of_not_mem ‹_›]
      rw [if_pos hk, herase, filter_cons_of_neg (by simpa using hk)]
      exact ih _ _ (fun a h => hkept a (mem_of_mem_erase h)) hadded
    · have hnotKept : k ∉ kept := fun h => hk (hkept k h)
      have hinsert : insertNew (kept ++ added) k = kept ++ insertNew added k := by
        unfold insertNew
        by_cases hmem : k ∈ added
        · rw [if_pos hmem, if_pos (mem_append_right _ hmem)]
        · rw [if_neg hmem, if_neg (by simp [hnotKept, hmem]), append_assoc]
      rw [if_neg hk, hinsert, erase_of_not_mem hnotKept,
        filter_cons_of_pos (by simpa using hk), foldl_cons]
      refine ih _ _ hkept fun a h => ?_
      unfold insertNew at h
      split at h
      · exact hadded a h
      · rcases List.mem_append.mp h with hold | hnew
        · exact hadded a hold
        · exact List.mem_singleton.mp hnew ▸ hk

theorem foldl_toggle (hown : own.Nodup) (keys : List ι) :
    keys.foldl (toggle own) own = own.filter (· ∉ keys) ++ (keys.filter (· ∉ own)).eraseDups := by
  have h := foldl_toggle_append keys own [] (fun _ h => h) nofun
  rw [append_nil] at h
  rw [h, hown.sdiff_eq_filter, foldl_insertNew]
  simp

theorem nodup_foldl_toggle (hown : own.Nodup) (keys : List ι) :
    (keys.foldl (toggle own) own).Nodup := by
  rw [foldl_toggle hown]
  refine (hown.filter _).append (nodup_eraseDups _) fun a hkept hadded => ?_
  rw [mem_eraseDups, mem_filter, decide_eq_true_iff] at hadded
  exact hadded.2 (mem_of_mem_filter hkept)

end Escargot.Foundation
