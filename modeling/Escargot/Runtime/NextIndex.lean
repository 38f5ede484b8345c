/-
# The next index below

`Object::nextIndexBackward` looks for the greatest index below a position, so
that loops over array-likes can jump over holes. It goes through the
enumerations of an object and its prototypes and takes every string key as a
number, be it an index or not.
-/

import Mathlib

namespace Escargot.Runtime

/-- An object of a prototype chain as `nextIndexBackward` sees it: whether it is ordinary, and
`doubleToInt64ForIndexCompare` of every key that its enumeration gives. -/
structure EnumeratedObject where
  isOrdinary : Bool
  indices : List Int

/-- The callback of the enumeration in `nextIndexBackward`. -/
def updateBackward (cur ret index : Int) : Int :=
  if index ≠ -1 then if index < cur then max index ret else ret else ret

/-- The loop of `nextIndexBackward` over the prototype chain. -/
def backwardLoop (cur stop : Int) : List EnumeratedObject → Int → Int
  | [], ret => min ret (cur - 1)
  | ptr :: rest, ret =>
    if !ptr.isOrdinary then max stop (cur - 1)
    else backwardLoop cur stop rest (ptr.indices.foldl (updateBackward cur) ret)

/-- `Object::nextIndexBackward`, where `stop` is its parameter `end`. -/
def nextIndexBackward (chain : List EnumeratedObject) (cur stop : Int) : Int :=
  backwardLoop cur stop chain stop

section Spec

variable {cur stop : Int}

theorem foldl_updateBackward (indices : List Int) : ∀ {ret : Int}, ret ≤ cur - 1 →
    ret ≤ indices.foldl (updateBackward cur) ret ∧
      indices.foldl (updateBackward cur) ret ≤ cur - 1 ∧
      ∀ index ∈ indices, index ≠ -1 → index < cur →
        index ≤ indices.foldl (updateBackward cur) ret := by
  induction indices with
  | nil => exact fun h => ⟨Int.le_refl _, h, nofun⟩
  | cons first indices ih =>
    intro ret hret
    have hfirst : ret ≤ updateBackward cur ret first ∧ updateBackward cur ret first ≤ cur - 1 ∧
        (first ≠ -1 → first < cur → first ≤ updateBackward cur ret first) := by
      unfold updateBackward
      split_ifs <;> omega
    obtain ⟨hle, hlt, hall⟩ := ih hfirst.2.1
    refine ⟨hfirst.1.trans hle, hlt, ?_⟩
    rintro index (_ | ⟨_, hindex⟩) hne hcur
    · exact (hfirst.2.2 hne hcur).trans hle
    · exact hall index hindex hne hcur

/-- The result lies between the end and the position, and no index that is enumerated lies
between it and the position. -/
theorem nextIndexBackward_spec (chain : List EnumeratedObject) (hstop : stop ≤ cur - 1) :
    stop ≤ nextIndexBackward chain cur stop ∧ nextIndexBackward chain cur stop ≤ cur - 1 ∧
      ∀ object ∈ chain, ∀ index ∈ object.indices, index ≠ -1 → index < cur →
        index ≤ nextIndexBackward chain cur stop := by
  have hloop : ∀ (chain : List EnumeratedObject) {ret : Int}, stop ≤ ret → ret ≤ cur - 1 →
      ret ≤ backwardLoop cur stop chain ret ∧ backwardLoop cur stop chain ret ≤ cur - 1 ∧
        ∀ object ∈ chain, ∀ index ∈ object.indices, index ≠ -1 → index < cur →
          index ≤ backwardLoop cur stop chain ret := by
    intro chain
    induction chain with
    | nil =>
      intro ret _ hret
      rw [backwardLoop]
      exact ⟨by omega, by omega, nofun⟩
    | cons ptr rest ih =>
      intro ret hlow hret
      rw [backwardLoop]
      split
      · exact ⟨by omega, by omega, fun _ _ index _ _ hcur => by omega⟩
      · obtain ⟨hle, hlt, hkeys⟩ := foldl_updateBackward ptr.indices hret
        obtain ⟨hle', hlt', hrest⟩ := ih (hlow.trans hle) hlt
        refine ⟨hle.trans hle', hlt', ?_⟩
        rintro object (_ | ⟨_, hobject⟩) index hindex hne hcur
        · exact (hkeys index hindex hne hcur).trans hle'
        · exact hrest object hobject index hindex hne hcur
  exact hloop chain (Int.le_refl _) hstop

theorem foldl_updateBackward_le_iff (indices : List Int) : ∀ {ret bound : Int},
    indices.foldl (updateBackward cur) ret ≤ bound ↔
      ret ≤ bound ∧ ∀ index ∈ indices, index ≠ -1 → index < cur → index ≤ bound := by
  induction indices with
  | nil => intro ret bound; simp
  | cons first indices ih =>
    intro ret bound
    have hfirst : updateBackward cur ret first ≤ bound ↔
        ret ≤ bound ∧ (first ≠ -1 → first < cur → first ≤ bound) := by
      unfold updateBackward
      split_ifs <;> omega
    rw [List.foldl_cons, ih, hfirst, List.forall_mem_cons, and_assoc]

/-- The search depends on no more of the receiver than on the indices below the position. -/
theorem nextIndexBackward_congr {first second : EnumeratedObject}
    (hordinary : first.isOrdinary = second.isOrdinary)
    (hindices : ∀ index, index < cur → (index ∈ first.indices ↔ index ∈ second.indices))
    (rest : List EnumeratedObject) :
    nextIndexBackward (first :: rest) cur stop = nextIndexBackward (second :: rest) cur stop := by
  have hfold : first.indices.foldl (updateBackward cur) stop =
      second.indices.foldl (updateBackward cur) stop := by
    refine eq_of_forall_ge_iff fun bound => ?_
    rw [foldl_updateBackward_le_iff, foldl_updateBackward_le_iff]
    refine and_congr_right fun _ => ⟨fun h index hindex hne hcur => ?_,
      fun h index hindex hne hcur => ?_⟩
    · exact h index ((hindices index hcur).2 hindex) hne hcur
    · exact h index ((hindices index hcur).1 hindex) hne hcur
  rw [nextIndexBackward, nextIndexBackward, backwardLoop, backwardLoop, hordinary, hfold]

theorem nextIndexBackward_of_not_isOrdinary {chain : List EnumeratedObject}
    {object : EnumeratedObject} (hmem : object ∈ chain) (h : object.isOrdinary = false) :
    nextIndexBackward chain cur stop = max stop (cur - 1) := by
  have hloop : ∀ ret, backwardLoop cur stop chain ret = max stop (cur - 1) := by
    induction chain with
    | nil => cases hmem
    | cons ptr rest ih =>
      intro ret
      rw [backwardLoop]
      rcases List.mem_cons.1 hmem with rfl | hrest
      · rw [h]
        rfl
      · split
        · rfl
        · exact ih hrest _
  exact hloop stop

end Spec

end Escargot.Runtime
