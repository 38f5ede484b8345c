/-
# Merge sort

`mergeSort` merges runs of doubled width from one buffer into the other and
swaps the two after each pass. The comparator may fail, and it may be a function
of the script, so it reads and changes a state of its own. Sizes are `Nat`: an
array has fewer than `2 ^ 63` elements, and the width stays below twice that.
-/

import Escargot.Sorting.RunMerging

namespace Escargot.Sorting

open List Escargot.Foundation

variable {σ α : Type}

/-- The comparator: `none` where it returns `false`, and otherwise `*lessOrEqualp`. -/
abbrev Comparator (σ α : Type) := α → α → σ → Option (Bool × σ)

/-- The memory behind a `T*`. -/
abbrev Buffer (α : Type) := Nat → α

/-- The elements from `i` up to `j`. -/
def segment (buffer : Buffer α) (i j : Nat) : List α := (List.range' i (j - i)).map buffer

def mergeLoop (c : Comparator σ α) (src : Buffer α) (leftEnd rightEnd dstIndex left right : Nat)
    (dst : Buffer α) (s : σ) : Option (Buffer α × σ) :=
  if dstIndex < rightEnd then
    if right < rightEnd then
      if left ≥ leftEnd then
        mergeLoop c src leftEnd rightEnd (dstIndex + 1) left (right + 1)
          (Function.update dst dstIndex (src right)) s
      else
        match c (src right) (src left) s with
        | none => none
        | some (true, s) =>
          mergeLoop c src leftEnd rightEnd (dstIndex + 1) left (right + 1)
            (Function.update dst dstIndex (src right)) s
        | some (false, s) =>
          mergeLoop c src leftEnd rightEnd (dstIndex + 1) (left + 1) right
            (Function.update dst dstIndex (src left)) s
    else
      mergeLoop c src leftEnd rightEnd (dstIndex + 1) (left + 1) right
        (Function.update dst dstIndex (src left)) s
  else some (dst, s)
termination_by rightEnd - dstIndex

def merge (c : Comparator σ α) (dst src : Buffer α) (srcIndex srcEnd width : Nat) (s : σ) :
    Option (Buffer α × σ) :=
  mergeLoop c src (min (srcIndex + width) srcEnd) (min (min (srcIndex + width) srcEnd + width) srcEnd)
    srcIndex srcIndex (min (srcIndex + width) srcEnd) dst s

/-- The inner loop of `mergeSort`: one pass from `src` to `dst`. -/
def mergePass (c : Comparator σ α) (src : Buffer α) (nelems : Nat) (width : ℕ+) (srcIndex : Nat)
    (dst : Buffer α) (s : σ) : Option (Buffer α × σ) :=
  if srcIndex < nelems then
    match merge c dst src srcIndex nelems width s with
    | none => none
    | some (dst, s) => mergePass c src nelems width (srcIndex + 2 * width) dst s
  else some (dst, s)
termination_by nelems - srcIndex
decreasing_by
  have := width.pos
  omega

/-- The two buffers between the passes: `src`, `dst` and whether `src` is the array. -/
structure MergeBuffers (α : Type) where
  src : Buffer α
  dst : Buffer α
  srcIsArray : Bool

/-- The outer loop of `mergeSort`. -/
def mergePasses (c : Comparator σ α) (nelems : Nat) (width : ℕ+) (buffers : MergeBuffers α) (s : σ) :
    Option (MergeBuffers α × σ) :=
  if width < nelems then
    match mergePass c buffers.src nelems width 0 buffers.dst s with
    | none => none
    | some (dst, s) => mergePasses c nelems (2 * width) ⟨dst, buffers.src, !buffers.srcIsArray⟩ s
  else some (buffers, s)
termination_by nelems - width
decreasing_by
  have := width.pos
  rw [PNat.mul_coe, PNat.val_ofNat]
  omega

def copyBack (src : Buffer α) (nelems : Nat) (array : Buffer α) : Buffer α :=
  (List.range nelems).foldl (fun array i => Function.update array i (src i)) array

def mergeSort (c : Comparator σ α) (array : Buffer α) (nelems : Nat) (scratch : Buffer α) (s : σ) :
    Option (Buffer α × σ) :=
  match mergePasses c nelems 1 ⟨array, scratch, true⟩ s with
  | none => none
  | some (buffers, s) =>
    if buffers.srcIsArray then some (buffers.src, s)
    else some (copyBack buffers.src nelems buffers.dst, s)

section Segments

variable {buffer other : Buffer α} {i j m w : Nat}

theorem segment_eq_nil (h : j ≤ i) : segment buffer i j = [] := by
  rw [segment, Nat.sub_eq_zero_of_le h]
  rfl

theorem segment_cons (h : i < j) :
    segment buffer i j = buffer i :: segment buffer (i + 1) j := by
  rw [segment, segment, show j - i = (j - (i + 1)) + 1 by omega, range'_succ, map_cons]

@[simp]
theorem length_segment : (segment buffer i j).length = j - i := by
  rw [segment, length_map, length_range']

theorem segment_append (him : i ≤ m) (hmj : m ≤ j) :
    segment buffer i m ++ segment buffer m j = segment buffer i j := by
  have hm : m = i + 1 * (m - i) := by omega
  rw [segment, segment, segment, ← map_append]
  conv_lhs => rw [show List.range' m (j - m) = List.range' (i + 1 * (m - i)) (j - m) by rw [← hm]]
  rw [range'_append, show m - i + (j - m) = j - i by omega]

theorem segment_congr (h : ∀ k, i ≤ k → k < j → buffer k = other k) :
    segment buffer i j = segment other i j := by
  apply map_congr_left
  intro k hk
  obtain ⟨hik, hkj⟩ := List.mem_range'_1.mp hk
  exact h k hik (by omega)

theorem take_segment : (segment buffer i j).take w = segment buffer i (min (i + w) j) := by
  rcases Nat.le_total (i + w) j with h | h
  · rw [Nat.min_eq_left h, ← segment_append (Nat.le_add_right i w) h, take_left']
    rw [length_segment, Nat.add_sub_cancel_left]
  · rw [Nat.min_eq_right h, take_of_length_le]
    rw [length_segment]
    omega

theorem drop_segment : (segment buffer i j).drop w = segment buffer (i + w) j := by
  rcases Nat.le_total (i + w) j with h | h
  · rw [← segment_append (Nat.le_add_right i w) h, drop_left']
    rw [length_segment, Nat.add_sub_cancel_left]
  · rw [segment_eq_nil h, drop_of_length_le]
    rw [length_segment]
    omega

end Segments

def Comparator.Answers (c : Comparator σ α) (a b : α) (answer : Bool) : Prop :=
  ∃ s s', c a b s = some (answer, s')

section Code

variable {c : Comparator σ α} {src dst dst' : Buffer α} {leftEnd rightEnd dstIndex left right : Nat}
  {s s' : σ}

theorem mergeLoop_spec
    (h : mergeLoop c src leftEnd rightEnd dstIndex left right dst s = some (dst', s'))
    (hcount : rightEnd - dstIndex = (leftEnd - left) + (rightEnd - right)) :
    (∀ k, k < dstIndex ∨ rightEnd ≤ k → dst' k = dst k) ∧
      Merges c.Answers (segment src left leftEnd) (segment src right rightEnd)
        (segment dst' dstIndex rightEnd) := by
  have hwritten : ∀ {dstIndex : Nat} {dst : Buffer α} {x : α}, dstIndex < rightEnd →
      (∀ k, k < dstIndex + 1 ∨ rightEnd ≤ k → dst' k = Function.update dst dstIndex x k) →
      (∀ k, k < dstIndex ∨ rightEnd ≤ k → dst' k = dst k) ∧
        segment dst' dstIndex rightEnd = x :: segment dst' (dstIndex + 1) rightEnd := by
    intro dstIndex dst x hlt hframe
    constructor
    · intro k hk
      rw [hframe k (hk.imp_left Nat.lt_succ_of_lt), Function.update_of_ne]
      omega
    · rw [segment_cons hlt, hframe dstIndex (.inl (Nat.lt_succ_self _)), Function.update_self]
  fun_induction mergeLoop c src leftEnd rightEnd dstIndex left right dst s with
  | case1 dstIndex left right dst s hdst hright hleft ih =>
    obtain ⟨hframe, hmerges⟩ := ih h (by omega)
    obtain ⟨hframe', hcons⟩ := hwritten hdst hframe
    rw [segment_eq_nil hleft] at hmerges ⊢
    rw [hcons, hmerges.eq_right, ← segment_cons hright]
    exact ⟨hframe', .leftNil _⟩
  | case2 dstIndex left right dst s hdst hright hleft hfail => cases h
  | case3 dstIndex left right dst s hdst hright hleft t hanswer ih =>
    obtain ⟨hframe, hmerges⟩ := ih h (by omega)
    obtain ⟨hframe', hcons⟩ := hwritten hdst hframe
    have hlt : left < leftEnd := Nat.not_le.mp hleft
    rw [segment_cons hlt] at hmerges ⊢
    rw [hcons, segment_cons hright]
    exact ⟨hframe', .takeRight ⟨s, t, hanswer⟩ hmerges⟩
  | case4 dstIndex left right dst s hdst hright hleft t hanswer ih =>
    obtain ⟨hframe, hmerges⟩ := ih h (by omega)
    obtain ⟨hframe', hcons⟩ := hwritten hdst hframe
    have hlt : left < leftEnd := Nat.not_le.mp hleft
    rw [segment_cons hright] at hmerges ⊢
    rw [hcons, segment_cons hlt]
    exact ⟨hframe', .takeLeft ⟨s, t, hanswer⟩ hmerges⟩
  | case5 dstIndex left right dst s hdst hright ih =>
    obtain ⟨hframe, hmerges⟩ := ih h (by omega)
    obtain ⟨hframe', hcons⟩ := hwritten hdst hframe
    have hlt : left < leftEnd := by omega
    rw [segment_eq_nil (Nat.not_lt.mp hright)] at hmerges ⊢
    rw [hcons, hmerges.eq_left, ← segment_cons hlt]
    exact ⟨hframe', .rightNil _⟩
  | case6 dstIndex left right dst s hdst =>
    cases h
    rw [segment_eq_nil (show leftEnd ≤ left by omega),
      segment_eq_nil (show rightEnd ≤ right by omega), segment_eq_nil (Nat.not_lt.mp hdst)]
    exact ⟨fun _ _ => rfl, .leftNil []⟩

variable {nelems srcIndex : Nat} {width : ℕ+}

theorem mergePass_spec (h : mergePass c src nelems width srcIndex dst s = some (dst', s')) :
    (∀ k < srcIndex, dst' k = dst k) ∧
      MergesRuns c.Answers width (segment src srcIndex nelems) (segment dst' srcIndex nelems) := by
  fun_induction mergePass c src nelems width srcIndex dst s with
  | case1 srcIndex dst s hlt hfail => cases h
  | case2 srcIndex dst s hlt mid t hmerge ih =>
    obtain ⟨hkept, hlater⟩ := ih h
    obtain ⟨hframe, hmerges⟩ := mergeLoop_spec hmerge (by omega)
    have hend : min (min (srcIndex + ↑width) nelems + ↑width) nelems =
        min (srcIndex + 2 * ↑width) nelems := by omega
    rw [hend] at hframe hmerges
    have hdone : segment dst' srcIndex (min (srcIndex + 2 * ↑width) nelems) =
        segment mid srcIndex (min (srcIndex + 2 * ↑width) nelems) :=
      segment_congr fun k _ hk => hkept k (by omega)
    have hsplit : segment dst' srcIndex nelems =
        segment dst' srcIndex (min (srcIndex + 2 * ↑width) nelems) ++
          segment dst' (srcIndex + 2 * ↑width) nelems := by
      rcases Nat.le_total (srcIndex + 2 * ↑width) nelems with hle | hle
      · rw [Nat.min_eq_left hle, segment_append (Nat.le_add_right _ _) hle]
      · rw [Nat.min_eq_right hle, segment_eq_nil hle, append_nil]
    refine ⟨fun k hk => ?_, ?_⟩
    · rw [hkept k (by omega), hframe k (.inl hk)]
    · rw [hsplit, hdone]
      refine .run ?_ ?_ ?_
      · rw [segment_cons hlt]
        exact cons_ne_nil _ _
      · rw [take_segment, drop_segment, take_segment]
        have hright : segment src (srcIndex + ↑width)
            (min (srcIndex + ↑width + ↑width) nelems) =
            segment src (min (srcIndex + ↑width) nelems)
              (min (srcIndex + 2 * ↑width) nelems) := by
          rcases Nat.le_total (srcIndex + ↑width) nelems with hle | hle
          · rw [Nat.min_eq_left hle, show srcIndex + ↑width + ↑width = srcIndex + 2 * ↑width by omega]
          · rw [segment_eq_nil (by omega), segment_eq_nil (by omega)]
        rw [hright]
        exact hmerges
      · rw [drop_segment]
        exact hlater
  | case3 srcIndex dst s hlt =>
    cases h
    rw [segment_eq_nil (Nat.not_lt.mp hlt), segment_eq_nil (Nat.not_lt.mp hlt)]
    exact ⟨fun _ _ => rfl, .nil⟩

theorem mergePasses_spec {buffers buffers' : MergeBuffers α}
    (h : mergePasses c nelems width buffers s = some (buffers', s')) :
    MergesAll c.Answers width (segment buffers.src 0 nelems) (segment buffers'.src 0 nelems) := by
  fun_induction mergePasses c nelems width buffers s with
  | case1 width buffers s hlt hfail => cases h
  | case2 width buffers s hlt dst t hpass ih => exact .pass (mergePass_spec hpass).2 (ih h)
  | case3 width buffers s hlt =>
    cases h
    refine .done ?_
    rw [length_segment]
    exact Nat.not_lt.mp hlt

theorem copyBack_of_lt (src array : Buffer α) {i : Nat} (hi : i < nelems) :
    copyBack src nelems array i = src i := by
  induction nelems with
  | zero => cases hi
  | succ n ih =>
    rw [copyBack, range_succ, foldl_append]
    rcases Nat.lt_succ_iff_lt_or_eq.mp hi with hlt | rfl
    · have hkept := ih hlt
      rw [copyBack] at hkept
      rw [foldl_cons, foldl_nil, Function.update_of_ne (Nat.ne_of_lt hlt), hkept]
    · rw [foldl_cons, foldl_nil, Function.update_self]

/-- The array is merged from the runs of one element until one run is left. -/
theorem mergeSort_merges {array array' scratch : Buffer α}
    (h : mergeSort c array nelems scratch s = some (array', s')) :
    MergesAll c.Answers 1 (segment array 0 nelems) (segment array' 0 nelems) := by
  rw [mergeSort] at h
  split at h
  · cases h
  · rename_i buffers t hpasses
    have hmerges := mergePasses_spec hpasses
    split at h
    · cases h
      exact hmerges
    · cases h
      rw [segment_congr fun k _ hk => copyBack_of_lt _ _ hk]
      exact hmerges

section State

variable {p : σ → Prop} (step : ∀ {a b s answer s'}, c a b s = some (answer, s') → p s → p s')

include step

theorem mergeLoop_state
    (h : mergeLoop c src leftEnd rightEnd dstIndex left right dst s = some (dst', s'))
    (hs : p s) : p s' := by
  fun_induction mergeLoop c src leftEnd rightEnd dstIndex left right dst s with
  | case1 dstIndex left right dst s hdst hright hleft ih => exact ih h hs
  | case2 dstIndex left right dst s hdst hright hleft hfail => cases h
  | case3 dstIndex left right dst s hdst hright hleft t hanswer ih => exact ih h (step hanswer hs)
  | case4 dstIndex left right dst s hdst hright hleft t hanswer ih => exact ih h (step hanswer hs)
  | case5 dstIndex left right dst s hdst hright ih => exact ih h hs
  | case6 dstIndex left right dst s hdst =>
    cases h
    exact hs

theorem mergePass_state (h : mergePass c src nelems width srcIndex dst s = some (dst', s'))
    (hs : p s) : p s' := by
  fun_induction mergePass c src nelems width srcIndex dst s with
  | case1 srcIndex dst s hlt hfail => cases h
  | case2 srcIndex dst s hlt mid t hmerge ih => exact ih h (mergeLoop_state step hmerge hs)
  | case3 srcIndex dst s hlt =>
    cases h
    exact hs

theorem mergePasses_state {buffers buffers' : MergeBuffers α}
    (h : mergePasses c nelems width buffers s = some (buffers', s')) (hs : p s) : p s' := by
  fun_induction mergePasses c nelems width buffers s with
  | case1 width buffers s hlt hfail => cases h
  | case2 width buffers s hlt dst t hpass ih => exact ih h (mergePass_state step hpass hs)
  | case3 width buffers s hlt =>
    cases h
    exact hs

theorem mergeSort_state {array array' scratch : Buffer α}
    (h : mergeSort c array nelems scratch s = some (array', s')) (hs : p s) : p s' := by
  rw [mergeSort] at h
  split at h
  · cases h
  · rename_i buffers t hpasses
    have ht := mergePasses_state step hpasses hs
    split at h
    · cases h
      exact ht
    · cases h
      exact ht

end State

variable (hc : ∀ a b s, (c a b s).isSome)

include hc

theorem mergeLoop_isSome :
    (mergeLoop c src leftEnd rightEnd dstIndex left right dst s).isSome := by
  fun_induction mergeLoop c src leftEnd rightEnd dstIndex left right dst s with
  | case1 dstIndex left right dst s hdst hright hleft ih => exact ih
  | case2 dstIndex left right dst s hdst hright hleft hfail =>
    have hsome := hc (src right) (src left) s
    rw [hfail] at hsome
    cases hsome
  | case3 dstIndex left right dst s hdst hright hleft t hanswer ih => exact ih
  | case4 dstIndex left right dst s hdst hright hleft t hanswer ih => exact ih
  | case5 dstIndex left right dst s hdst hright ih => exact ih
  | case6 dstIndex left right dst s hdst => rfl

theorem mergePass_isSome : (mergePass c src nelems width srcIndex dst s).isSome := by
  fun_induction mergePass c src nelems width srcIndex dst s with
  | case1 srcIndex dst s hlt hfail =>
    have hsome : (merge c dst src srcIndex nelems width s).isSome := mergeLoop_isSome hc
    rw [hfail] at hsome
    cases hsome
  | case2 srcIndex dst s hlt mid t hmerge ih => exact ih
  | case3 srcIndex dst s hlt => rfl

theorem mergePasses_isSome {buffers : MergeBuffers α} :
    (mergePasses c nelems width buffers s).isSome := by
  fun_induction mergePasses c nelems width buffers s with
  | case1 width buffers s hlt hfail =>
    have hsome : (mergePass c buffers.src nelems width 0 buffers.dst s).isSome :=
      mergePass_isSome hc
    rw [hfail] at hsome
    cases hsome
  | case2 width buffers s hlt dst t hpass ih => exact ih
  | case3 width buffers s hlt => rfl

theorem mergeSort_isSome {array scratch : Buffer α} :
    (mergeSort c array nelems scratch s).isSome := by
  have hsome : (mergePasses c nelems 1 ⟨array, scratch, true⟩ s).isSome := mergePasses_isSome hc
  obtain ⟨⟨buffers, t⟩, hpasses⟩ := Option.isSome_iff_exists.mp hsome
  rw [mergeSort, hpasses]
  dsimp only
  split <;> rfl

end Code

/-- Merge sort ends for every comparator. If no comparison fails, the array is left as a
permutation of what it was; the strict part of a total preorder sorts it stably, and a total
preorder itself sorts it. -/
theorem mergeSort_sorts (c : Comparator σ α) (array scratch : Buffer α) (nelems : Nat) (s : σ) :
    ((∀ a b t, (c a b t).isSome) → (mergeSort c array nelems scratch s).isSome) ∧
      ∀ array' s', mergeSort c array nelems scratch s = some (array', s') →
        (segment array' 0 nelems).Perm (segment array 0 nelems) ∧
        ∀ (r : α → α → Prop) [DecidableRel r], (∀ a b, r a b ∨ r b a) →
          (∀ a b d, r a b → r b d → r a d) →
          ((∀ a b answer, c.Answers a b answer → (answer = true ↔ r a b ∧ ¬ r b a)) →
            (segment array' 0 nelems).Pairwise r ∧
              ∀ a, (segment array' 0 nelems).filter (fun z => decide (r a z ∧ r z a)) =
                (segment array 0 nelems).filter (fun z => decide (r a z ∧ r z a))) ∧
          ((∀ a b answer, c.Answers a b answer → (answer = true ↔ r a b)) →
            (segment array' 0 nelems).Pairwise r) := by
  refine ⟨fun hc => mergeSort_isSome hc, ?_⟩
  intro array' s' h
  have hmerges := mergeSort_merges h
  refine ⟨hmerges.perm, ?_⟩
  intro r _ total trans
  constructor
  · intro hstrict
    have yes : ∀ a b, c.Answers a b true → r a b := fun a b h => ((hstrict a b true h).mp rfl).1
    have strict : ∀ a b, c.Answers a b true → ¬ r b a :=
      fun a b h => ((hstrict a b true h).mp rfl).2
    have no : ∀ a b, c.Answers a b false → r b a := by
      intro a b h
      by_contra hba
      have hab : r a b := (total a b).resolve_right hba
      exact Bool.false_ne_true ((hstrict a b false h).mpr ⟨hab, hba⟩)
    exact ⟨hmerges.pairwise trans yes no (runs_one _),
      hmerges.filter_equiv trans yes no strict (runs_one _)⟩
  · intro hle
    have yes : ∀ a b, c.Answers a b true → r a b := fun a b h => (hle a b true h).mp rfl
    have no : ∀ a b, c.Answers a b false → r b a := by
      intro a b h
      refine (total a b).resolve_left fun hab => ?_
      exact Bool.false_ne_true ((hle a b false h).mpr hab)
    exact hmerges.pairwise trans yes no (runs_one _)

end Escargot.Sorting
