/-
# The next index above

`Object::nextIndexForward` looks for the least index above a position, the way
`nextIndexBackward` looks for the greatest one below.
-/

import Escargot.Runtime.NextIndex

namespace Escargot.Runtime

/-- The callback of the enumeration in `nextIndexForward`. -/
def updateForward (cur ret index : Int) : Int :=
  if index ≠ -1 then if index > cur ∧ ret > index then min index ret else ret else ret

/-- The loop of `nextIndexForward` over the prototype chain. -/
def forwardLoop (cur stop : Int) : List EnumeratedObject → Int → Int
  | [], ret => max ret (cur + 1)
  | ptr :: rest, ret =>
    if !ptr.isOrdinary then min stop (cur + 1)
    else forwardLoop cur stop rest (ptr.indices.foldl (updateForward cur) ret)

/-- `Object::nextIndexForward`, where `stop` is its parameter `end`. -/
def nextIndexForward (chain : List EnumeratedObject) (cur stop : Int) : Int :=
  forwardLoop cur stop chain stop

section Spec

variable {cur stop : Int}

theorem foldl_updateForward (indices : List Int) : ∀ {ret : Int}, cur + 1 ≤ ret →
    indices.foldl (updateForward cur) ret ≤ ret ∧ cur + 1 ≤ indices.foldl (updateForward cur) ret ∧
      ∀ index ∈ indices, index ≠ -1 → cur < index →
        indices.foldl (updateForward cur) ret ≤ index := by
  induction indices with
  | nil => exact fun h => ⟨Int.le_refl _, h, fun _ hindex => absurd hindex List.not_mem_nil⟩
  | cons first indices ih =>
    intro ret hret
    have hfirst : updateForward cur ret first ≤ ret ∧ cur + 1 ≤ updateForward cur ret first ∧
        (first ≠ -1 → cur < first → updateForward cur ret first ≤ first) := by
      unfold updateForward
      split_ifs <;> omega
    obtain ⟨hle, hlow, hall⟩ := ih hfirst.2.1
    refine ⟨hle.trans hfirst.1, hlow, ?_⟩
    intro index hindex hne hcur
    rcases List.mem_cons.mp hindex with rfl | hindex
    · exact hle.trans (hfirst.2.2 hne hcur)
    · exact hall index hindex hne hcur

/-- The result lies between the position and the end, and no index that is enumerated lies
between the position and it. -/
theorem nextIndexForward_spec (chain : List EnumeratedObject) (hstop : cur + 1 ≤ stop) :
    cur + 1 ≤ nextIndexForward chain cur stop ∧ nextIndexForward chain cur stop ≤ stop ∧
      ∀ object ∈ chain, ∀ index ∈ object.indices, index ≠ -1 → cur < index →
        nextIndexForward chain cur stop ≤ index := by
  have hloop : ∀ (chain : List EnumeratedObject) {ret : Int}, ret ≤ stop → cur + 1 ≤ ret →
      cur + 1 ≤ forwardLoop cur stop chain ret ∧ forwardLoop cur stop chain ret ≤ ret ∧
        ∀ object ∈ chain, ∀ index ∈ object.indices, index ≠ -1 → cur < index →
          forwardLoop cur stop chain ret ≤ index := by
    intro chain
    induction chain with
    | nil =>
      intro ret _ hret
      rw [forwardLoop]
      exact ⟨by omega, by omega, fun _ hobject => absurd hobject List.not_mem_nil⟩
    | cons ptr rest ih =>
      intro ret hhigh hret
      rw [forwardLoop]
      split
      · exact ⟨by omega, by omega, fun _ _ index _ _ hcur => by omega⟩
      · obtain ⟨hle, hlow, hkeys⟩ := foldl_updateForward ptr.indices hret
        obtain ⟨hlow', hle', hrest⟩ := ih (hle.trans hhigh) hlow
        refine ⟨hlow', hle'.trans hle, ?_⟩
        intro object hobject index hindex hne hcur
        rcases List.mem_cons.mp hobject with rfl | hobject
        · exact hle'.trans (hkeys index hindex hne hcur)
        · exact hrest object hobject index hindex hne hcur
  exact hloop chain (Int.le_refl _) hstop

variable {chain : List EnumeratedObject}

theorem nextIndexForward_of_not_isOrdinary
    {object : EnumeratedObject} (hmem : object ∈ chain) (h : object.isOrdinary = false) :
    nextIndexForward chain cur stop = min stop (cur + 1) := by
  have hloop : ∀ ret, forwardLoop cur stop chain ret = min stop (cur + 1) := by
    induction chain with
    | nil => cases hmem
    | cons ptr rest ih =>
      intro ret
      rw [forwardLoop]
      rcases List.mem_cons.mp hmem with rfl | hrest
      · rw [h]
        rfl
      · split
        · rfl
        · exact ih hrest _
  exact hloop stop

theorem nextIndexBackward_le (hstop : stop ≤ cur) : nextIndexBackward chain cur stop ≤ cur := by
  have hloop : ∀ (chain : List EnumeratedObject) (ret : Int),
      backwardLoop cur stop chain ret ≤ cur := by
    intro chain
    induction chain with
    | nil =>
      intro ret
      rw [backwardLoop]
      omega
    | cons ptr rest ih =>
      intro ret
      rw [backwardLoop]
      split
      · omega
      · exact ih _
  exact hloop chain stop

end Spec

end Escargot.Runtime
