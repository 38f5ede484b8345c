/-
# The two sorts of arrays

The sort of the raw storage and the generic one are compared. They leave the
same elements if the comparison leaves the array alone. If it makes the array
leave fast mode, the values are stored one by one, and Empty is stored like a
value.
-/

import Escargot.Sorting.ArraySort

namespace Escargot.Sorting

open List Option Escargot.Foundation Escargot.Runtime
open SortValue (rank Ordered present)

variable {β τ : Type}

section Generic

variable {env : Environment β τ} {object : OrdinaryObject Nat (SortValue β)} {writable : Bool}
  {length n : Nat} {elements : List (SortValue β)} {w : World β τ}

theorem inherited_eq_none (h : ∀ prototype ∈ w.prototypes, prototype.isOrdinary = true ∧
      ∀ i < n, prototype.getOwnProperty (.index i) = none) {i : Nat} (hi : i < n) :
    (w.prototypes.findSome? fun prototype => prototype.getOwnProperty (.index i)) = none ∧
      inheritedTarget i w.prototypes = .absent := by
  constructor
  · exact List.findSome?_eq_none_iff.mpr fun prototype hmem => (h prototype hmem).2 i hi
  · revert h
    induction w.prototypes with
    | nil => exact fun _ => rfl
    | cons prototype rest ih =>
      intro h
      obtain ⟨hordinary, hown⟩ := h prototype mem_cons_self
      rw [inheritedTarget, hordinary, hown i hi]
      exact ih fun other hother => h other (mem_cons_of_mem _ hother)

theorem getOwnProperty_of_lt_nextIndex {k i : Nat} (hlength : n ≤ w.array.arrayLength)
    (hk : k < n) (hki : k < i) (hi : i < w.nextIndex k n) : w.array.getOwnProperty i = none := by
  by_contra hsome
  have hspec := nextIndexForward_spec
    (⟨true, w.names ++ ((List.range w.array.arrayLength).filter fun i =>
        (w.array.getOwnProperty i).isSome).map Int.ofNat⟩ ::
      w.prototypes.map fun prototype => ⟨prototype.isOrdinary, prototype.indices⟩)
    (show (k : Int) + 1 ≤ n by omega)
  have hin : i < w.array.arrayLength := by
    rw [World.nextIndex] at hi
    omega
  have hmem : (i : Int) ∈ w.names ++ ((List.range w.array.arrayLength).filter fun i =>
      (w.array.getOwnProperty i).isSome).map Int.ofNat := by
    apply mem_append_right
    apply List.mem_map_of_mem (f := Int.ofNat)
    exact List.mem_filter.mpr ⟨List.mem_range.mpr hin, Option.isSome_iff_ne_none.mpr hsome⟩
  have hle := hspec.2.2 _ mem_cons_self i hmem (by omega) (by omega)
  rw [World.nextIndex] at hi
  omega

theorem collect_eq (h : w.HasElements elements) (hw : w.IsGeneric elements.length) (k : Nat)
    (selected : List (SortValue β)) :
    env.collect elements.length k selected w = some (selected ++ present (elements.drop k), w) := by
  have hlength := h.arrayLength_eq
  induction hm : elements.length - k using Nat.strong_induction_on generalizing k selected with
  | _ m ih =>
    rw [Environment.collect]
    by_cases hk : k < elements.length
    · rw [if_pos hk, World.hasProperty, h.getOwnProperty_eq k hk,
        (inherited_eq_none hw.2 hk).1, or_none]
      rw [drop_eq_getElem_cons hk]
      cases hempty : (elements[k]).isEmpty with
      | false =>
        rw [SortValue.slot_of_not_isEmpty hempty]
        show env.collect elements.length (k + 1) (selected ++ [elements[k]]) w = _
        rw [ih (elements.length - (k + 1)) (by omega) (k + 1) _ rfl, SortValue.present_cons,
          hempty, append_assoc]
        rfl
      | true =>
        rw [SortValue.slot_eq_none_iff.mpr hempty]
        show env.collect elements.length (w.nextIndex k elements.length) selected w = _
        have hnext := w.lt_nextIndex hk
        rw [ih _ (by omega) _ _ rfl, SortValue.present_cons, hempty, if_pos rfl]
        -- The elements between the two positions are holes.
        have hskip : present
            ((elements.drop (k + 1)).take (w.nextIndex k elements.length - (k + 1))) = [] := by
          apply SortValue.present_eq_nil
          intro v hv
          obtain ⟨j, hj, rfl⟩ := List.mem_iff_getElem.mp hv
          rw [length_take, length_drop] at hj
          rw [getElem_take, getElem_drop]
          have hnone := getOwnProperty_of_lt_nextIndex (i := k + 1 + j) hlength.symm.le hk
            (by omega) (by omega)
          rw [h.getOwnProperty_eq _ (by omega), map_eq_none_iff,
            SortValue.slot_eq_none_iff] at hnone
          exact hnone
        have hsplit := take_append_drop (w.nextIndex k elements.length - (k + 1))
          (elements.drop (k + 1))
        rw [drop_drop, Nat.add_sub_cancel' (Nat.succ_le_of_lt hnext)] at hsplit
        rw [← hsplit, SortValue.present_append, hskip, nil_append]
    · rw [if_neg hk, drop_of_length_le (Nat.not_lt.mp hk)]
      exact congrArg some (Prod.ext (append_nil selected).symm rfl)

theorem deleteRest_generic (length i : Nat) :
    ∀ {object : OrdinaryObject Nat (SortValue β)} {w : World β τ},
    w.array = .nonFast object writable length →
      (∀ j < length, object.properties j = none ∨ ∃ old, object.properties j = some (.plain old)) →
        ∃ object', (Environment.deleteRest length i w).array = .nonFast object' writable length ∧
          ∀ j, object'.properties j = if i ≤ j ∧ j < length then none else object.properties j := by
  induction hm : length - i using Nat.strong_induction_on generalizing i with
  | _ m ih =>
    intro object w harray hplain
    have hown : ∀ j, w.array.getOwnProperty j = object.properties j := by
      intro j
      rw [harray]
      rfl
    rw [Environment.deleteRest]
    by_cases hi : i < length
    · rw [if_pos hi]
      rcases hplain i hi with hnone | ⟨old, hold⟩
      · rw [hown i, hnone, isSome_none, if_neg Bool.false_ne_true]
        have hnext := w.lt_nextIndex hi
        obtain ⟨object', harray', hproperties⟩ := ih _ (by omega) (w.nextIndex i length) rfl
          harray hplain
        refine ⟨object', harray', fun j => ?_⟩
        rw [hproperties j]
        by_cases hj : i ≤ j ∧ j < length
        · rw [if_pos hj]
          by_cases hlater : w.nextIndex i length ≤ j
          · rw [if_pos ⟨hlater, hj.2⟩]
          · rw [if_neg fun h => hlater h.1, ← hown j]
            rcases Nat.eq_or_lt_of_le hj.1 with rfl | hlt
            · rw [hown i, hnone]
            · exact getOwnProperty_of_lt_nextIndex (by rw [harray]; exact Nat.le_refl _) hi hlt
                (Nat.not_le.mp hlater)
        · rw [if_neg hj, if_neg]
          omega
      · rw [hown i, hold, isSome_some, if_pos rfl, harray]
        have hdelete : (ArrayObject.nonFast object writable length).deleteOwnProperty i =
            (.nonFast (object.setProperty i none) writable length, true) := by
          rw [ArrayObject.deleteOwnProperty, OrdinaryObject.deleteOwnProperty, hold]
          rfl
        rw [hdelete]
        have hupdate : ∀ j, (object.setProperty i none).properties j =
            if j = i then none else object.properties j := fun j => Function.update_apply _ _ _ _
        obtain ⟨object', harray', hproperties⟩ := @ih (length - (i + 1)) (by omega) (i + 1) rfl
          (object.setProperty i none)
          { w with array := .nonFast (object.setProperty i none) writable length } rfl
          (fun j hj => by
            rw [hupdate j]
            by_cases hji : j = i
            · exact .inl (if_pos hji)
            · rw [if_neg hji]
              exact hplain j hj)
        refine ⟨object', harray', fun j => ?_⟩
        rw [hproperties j, hupdate j]
        by_cases hji : j = i
        · rw [if_neg (by omega), if_pos hji, if_pos (by omega)]
        · rw [if_neg hji]
          by_cases hj : i ≤ j ∧ j < length
          · rw [if_pos hj, if_pos (by omega)]
          · rw [if_neg hj, if_neg (by omega)]
    · rw [if_neg hi]
      refine ⟨object, harray, fun j => ?_⟩
      rw [if_neg]
      omega

theorem isGeneric_congr {w w' : World β τ} (harray : w'.array = w.array)
    (hprototypes : w'.prototypes = w.prototypes) (h : w.IsGeneric n) : w'.IsGeneric n := by
  rw [World.IsGeneric, harray, hprototypes]
  exact h

variable [DecidableEq β]

theorem defineInNonFastPath_of_lt {object' : OrdinaryObject Nat (SortValue β)} {i : Nat}
    {desc : ObjectPropertyDescriptor (SortValue β)}
    (hdefine : object.defineOwnPropertyMethod i desc = (object', true)) (hi : i < length)
    (hindex : i < invalidIndexPropertyValue) :
    (ArrayObject.nonFast object writable length).defineInNonFastPath env.build env.garbage i desc =
      some (.nonFast object' writable length, true) := by
  simp only [ArrayObject.defineInNonFastPath, ArrayObject.object, ArrayObject.arrayLength, hdefine,
    if_pos hindex, Nat.not_le.mpr hi, false_and, if_false, Bool.true_eq_false]
  rfl

theorem setIndexedPropertyThrowsException_generic {i : Nat} {v : SortValue β}
    (harray : w.array = .nonFast object writable length) (hext : object.isExtensible = true)
    (hprototypes : inheritedTarget i w.prototypes = .absent)
    (hplain : object.properties i = none ∨ ∃ old, object.properties i = some (.plain old))
    (hi : i < length) (hindex : i < invalidIndexPropertyValue) :
    env.setIndexedPropertyThrowsException i v w = some { w with
        array := .nonFast (object.setProperty i (some (.plain v))) writable length } := by
  have hset : (ArrayObject.nonFast object writable length).setIndexedProperty env.build env.garbage
      i true v = some (.nonFast (object.setProperty i (some (.plain v))) writable length,
          .boolean true) := by
    rcases hplain with hnone | ⟨old, hold⟩
    · have hown : (ArrayObject.nonFast object writable length).getOwnProperty i = none := hnone
      rw [ArrayObject.setIndexedProperty, ArrayObject.set, hown]
      exact congrArg ArrayObject.answer (defineInNonFastPath_of_lt
        (OrdinaryObject.defineOwnPropertyMethod_absent hext hnone _) hi hindex)
    · have hown : (ArrayObject.nonFast object writable length).getOwnProperty i =
          some (.plain old) := hold
      rw [ArrayObject.setIndexedProperty, ArrayObject.set, hown]
      exact congrArg ArrayObject.answer (defineInNonFastPath_of_lt
        (OrdinaryObject.defineOwnPropertyMethod_plain hold rfl (.inl rfl)) hi hindex)
  rw [Environment.setIndexedPropertyThrowsException, hprototypes, harray]
  rcases hplain with hnone | ⟨old, hold⟩
  · have hown : (ArrayObject.nonFast object writable length).getOwnProperty i = none := hnone
    rw [hown]
    rw [Environment.setOwn, harray, hset]
  · have hown : (ArrayObject.nonFast object writable length).getOwnProperty i =
        some (.plain old) := hold
    rw [hown]
    dsimp only
    rw [Environment.setOwn, harray, hset]

theorem setAll_generic (values : Buffer (SortValue β))
    (harray : w.array = .nonFast object writable length) (hext : object.isExtensible = true)
    (hprototypes : ∀ i < length, inheritedTarget i w.prototypes = .absent)
    (hplain : ∀ i < length,
      object.properties i = none ∨ ∃ old, object.properties i = some (.plain old))
    (hfits : length ≤ invalidIndexPropertyValue) {m : Nat} (hm : m ≤ length) :
    ∃ object', env.setAll values m w = some { w with array := .nonFast object' writable length } ∧
      object'.isExtensible = true ∧
      ∀ i, object'.properties i =
        if i < m then some (.plain (values i)) else object.properties i := by
  induction m with
  | zero =>
    refine ⟨object, ?_, hext, fun i => rfl⟩
    rw [← harray]
    rfl
  | succ m ih =>
    obtain ⟨object', hset, hext', hproperties⟩ := ih (Nat.le_of_succ_le hm)
    have hlt : m < length := hm
    refine ⟨object'.setProperty m (some (.plain (values m))), ?_, hext', fun i => ?_⟩
    · rw [Environment.setAll, range_succ, foldlM_append, ← Environment.setAll, hset]
      have hstep := @setIndexedPropertyThrowsException_generic β τ env object' writable length
        { w with array := .nonFast object' writable length } _ m (values m) rfl hext'
        (hprototypes m hlt)
        (by
          rw [hproperties m, if_neg (Nat.lt_irrefl m)]
          exact hplain m hlt)
        hlt (Nat.lt_of_lt_of_le hlt hfits)
      show (env.setIndexedPropertyThrowsException m (values m) _).bind some = _
      rw [hstep]
      rfl
    · show Function.update object'.properties m (some (.plain (values m))) i = _
      by_cases hi : i = m
      · rw [hi, Function.update_self, if_pos (Nat.lt_succ_self m)]
      · rw [Function.update_of_ne hi, hproperties i]
        by_cases hlt' : i < m
        · rw [if_pos hlt', if_pos (Nat.lt_succ_of_lt hlt')]
        · rw [if_neg hlt', if_neg]
          omega

theorem Environment.arraySort_generic (hmut : env.DoesNotMutate)
    (hgeneric : w.IsGeneric elements.length) (h : w.HasElements elements) :
    (∀ w', env.builtinArraySort w = some w' → env.Leaves elements w') ∧
      (env.NeverThrows → (env.builtinArraySort w).isSome) := by
  obtain ⟨object, writable, length, hw, hext⟩ := hgeneric.1
  have hlength : length = elements.length := by
    have hlength := h.arrayLength_eq
    rwa [hw] at hlength
  subst hlength
  rw [Environment.builtinArraySort, h.arrayLength_eq, Environment.arraySort]
  by_cases hzero : elements.length = 0
  · rw [if_pos hzero]
    have hnil := eq_nil_of_length_eq_zero hzero
    subst hnil
    refine ⟨fun w' hw' => ?_, fun _ => rfl⟩
    cases hw'
    exact ⟨[], Environment.sorted_nil, h⟩
  rw [if_neg hzero, hw]
  rw [Environment.objectSort, collect_eq h hgeneric 0 [], nil_append, drop_zero]
  dsimp only
  have hselected : segment (fun i => (present elements).getD i .undefined) 0
      (present elements).length = present elements := by
    apply ext_getElem
    · rw [length_segment, Nat.sub_zero]
    · intro i hi hi'
      rw [getElem_segment, getD_eq_getElem _ _ hi']
  have hle : (present elements).length ≤ elements.length := length_filter_le _ _
  have hplain : ∀ i < elements.length,
      object.properties i = none ∨ ∃ old, object.properties i = some (.plain old) := by
    intro i hi
    have hown := h.getOwnProperty_eq i hi
    rw [hw] at hown
    change object.properties i = _ at hown
    rw [hown]
    cases (elements[i]).slot with
    | none => exact .inl rfl
    | some v => exact .inr ⟨v, rfl⟩
  -- What is stored after any sort of the present elements that leaves the array alone.
  have hstore : ∀ {selected' : Buffer (SortValue β)} {w₁ : World β τ}, w₁.array = w.array →
      w₁.prototypes = w.prototypes → ∃ w₂,
        env.setAll selected' (present elements).length w₁ = some w₂ ∧
          ((segment selected' 0 (present elements).length).Perm (present elements) →
            (Environment.deleteRest elements.length (present elements).length w₂).HasElements
              (segment selected' 0 (present elements).length ++
                List.replicate (elements.length - (present elements).length) .empty)) := by
    intro selected' w₁ harray hprototypes
    obtain ⟨object₂, hset, -, hproperties⟩ := setAll_generic selected'
      (harray.trans hw) hext
      (fun i hi => (inherited_eq_none (isGeneric_congr harray hprototypes hgeneric).2 hi).2)
      hplain h.fits hle
    refine ⟨_, hset, fun hperm => ?_⟩
    obtain ⟨object₃, harray₃, hproperties₃⟩ := deleteRest_generic elements.length
      (present elements).length
      (w := { w₁ with array := .nonFast object₂ writable elements.length }) rfl (by
        intro j hj
        rw [hproperties j]
        by_cases hlt : j < (present elements).length
        · exact .inr ⟨_, if_pos hlt⟩
        · rw [if_neg hlt]
          exact hplain j hj)
    have hlength : (segment selected' 0 (present elements).length ++
        List.replicate (elements.length - (present elements).length)
          (SortValue.empty : SortValue β)).length = elements.length := by
      rw [length_append, length_segment, length_replicate]
      omega
    refine ⟨?_, ?_, ?_⟩
    · rw [harray₃, hlength]
      rfl
    · rw [hlength]
      exact h.fits
    · intro i hi
      rw [harray₃]
      change object₃.properties i = _
      rw [hproperties₃ i, hproperties i]
      rw [hlength] at hi
      by_cases hlt : i < (present elements).length
      · have hin : i < (segment selected' 0 (present elements).length).length := by
          rw [length_segment]
          exact hlt
        have hmem := hperm.subset (getElem_mem hin)
        rw [getElem_segment] at hmem
        have hempty := (List.mem_filter.mp hmem).2
        rw [Bool.not_eq_true'] at hempty
        rw [if_neg (by omega), if_pos hlt, getElem_append_left hin, getElem_segment,
          SortValue.slot_of_not_isEmpty hempty]
        rfl
      · rw [if_pos ⟨Nat.not_lt.mp hlt, hi⟩, getElem_append_right, getElem_replicate]
        · rfl
        · rw [length_segment]
          exact Nat.not_lt.mp hlt
  have hstate : ∀ {selected' w₁}, mergeSort env.comp
      (fun i => (present elements).getD i .undefined) (present elements).length env.tempSpace w =
        some (selected', w₁) → w₁.array = w.array ∧ w₁.prototypes = w.prototypes :=
    fun hsort => mergeSort_state (p := fun t => t.array = w.array ∧ t.prototypes = w.prototypes)
      (fun hcomp ht => ⟨(comp_state hmut hcomp).1.trans ht.1, (comp_state hmut hcomp).2.trans ht.2⟩)
      hsort ⟨rfl, rfl⟩
  constructor
  · intro w' hw'
    cases hsort : mergeSort env.comp (fun i => (present elements).getD i .undefined)
        (present elements).length env.tempSpace w with
    | none =>
      rw [hsort] at hw'
      cases hw'
    | some sorted =>
      obtain ⟨selected', w₁⟩ := sorted
      rw [hsort] at hw'
      dsimp only at hw'
      obtain ⟨harray, hprototypes⟩ := hstate hsort
      obtain ⟨w₂, hset, helements⟩ := @hstore selected' w₁ harray hprototypes
      rw [hset] at hw'
      cases hw'
      obtain ⟨hperm, hsorted, -⟩ := mergeSort_comp hsort
      rw [hselected] at hperm hsorted
      have hall : present (segment selected' 0 (present elements).length) =
          segment selected' 0 (present elements).length :=
        List.filter_eq_self.mpr fun v hv => (List.mem_filter.mp (hperm.subset hv)).2
      have hsame : present (present elements) = present elements :=
        List.filter_eq_self.mpr fun v hv => (List.mem_filter.mp hv).2
      rw [hall] at hsorted
      refine ⟨_, ⟨?_, hsorted.undefinedLast, hsorted.ordered, ?_⟩, ?_⟩
      · exact hperm
      · intro r _ hr a
        rw [hsorted.stable r hr a, hsame]
      · rw [length_segment, Nat.sub_zero]
        exact helements hperm
  · intro hthrows
    have hsome : (mergeSort env.comp (fun i => (present elements).getD i .undefined)
        (present elements).length env.tempSpace w).isSome := mergeSort_isSome (comp_isSome hthrows)
    obtain ⟨⟨selected', w₁⟩, hsort⟩ := Option.isSome_iff_exists.mp hsome
    obtain ⟨harray, hprototypes⟩ := hstate hsort
    obtain ⟨w₂, hset, -⟩ := @hstore selected' w₁ harray hprototypes
    rw [hsort]
    dsimp only
    rw [hset]
    rfl

end Generic

/-- What is stored reaches no setter and no object that is not ordinary. -/
def InheritedTarget.isData : InheritedTarget β → Bool
  | .absent => true
  | .property inherited => inherited.isDataProperty
  | .exotic => false

/-- The array is not in fast mode, and the elements below `n` are stored without the script. -/
def World.Undisturbed (w : World β τ) (n : Nat) : Prop :=
  ∃ object writable length, w.array = .nonFast object writable length ∧
    ∀ i < n, (object.properties i).all Property.isDataProperty = true ∧
      (inheritedTarget i w.prototypes).isData = true

section NonFast

variable [DecidableEq β] {env : Environment β τ} {object : OrdinaryObject Nat (SortValue β)}
  {writable : Bool} {length n i : Nat} {elements : List (SortValue β)} {w w' : World β τ}
  {v : SortValue β}

variable {desc : ObjectPropertyDescriptor (SortValue β)} {b : Bool} {a : ArrayObject (SortValue β)}

theorem defineInNonFastPath_cases (hindex : i < invalidIndexPropertyValue)
    (h : (ArrayObject.nonFast object writable length).defineInNonFastPath env.build env.garbage i
      desc = some (a, b)) :
    b = false ∨ (object.defineOwnPropertyMethod i desc).2 = true ∧
      ∃ length', a = .nonFast (object.defineOwnPropertyMethod i desc).1 writable length' := by
  rw [ArrayObject.defineInNonFastPath, if_pos hindex] at h
  split at h
  · cases h
    exact .inl rfl
  split at h
  · cases h
    exact .inl rfl
  · rename_i hdefined
    refine .inr ⟨Bool.eq_true_of_not_eq_false hdefined, ?_⟩
    split at h
    · rename_i hgrow
      have hle : length ≤ i + 1 := Nat.le_succ_of_le hgrow
      change some (ArrayObject.setNonFastLength _ writable length (i + 1)) = _ at h
      rw [ArrayObject.setNonFastLength_grow _ _ hle] at h
      cases h
      exact ⟨_, rfl⟩
    · cases h
      exact ⟨_, rfl⟩

theorem setIndexedProperty_nonFast
    {result : ArrayResult (SortValue β)} (hindex : i < invalidIndexPropertyValue)
    (hdata : (object.properties i).all Property.isDataProperty = true)
    (h : (ArrayObject.nonFast object writable length).setIndexedProperty env.build env.garbage i
      true v = some (a, result)) :
    result = .boolean false ∨ result = .boolean true ∧ ∃ object' length',
      a = .nonFast object' writable length' ∧
        (∃ first second third, object'.properties i = some (.data v first second third)) ∧
        ∀ j, j ≠ i → object'.properties j = object.properties j := by
  have hdefine : ∀ (desc : ObjectPropertyDescriptor (SortValue β)) property,
      (object.defineOwnPropertyMethod i desc).2 = false ∨
        object.defineOwnPropertyMethod i desc = (object.setProperty i (some property), true) →
      (∃ first second third, property = .data v first second third) →
      ArrayObject.answer ((ArrayObject.nonFast object writable length).defineInNonFastPath env.build
        env.garbage i desc) = some (a, result) →
      result = .boolean false ∨ result = .boolean true ∧ ∃ object' length',
        a = .nonFast object' writable length' ∧
          (∃ first second third, object'.properties i = some (.data v first second third)) ∧
          ∀ j, j ≠ i → object'.properties j = object.properties j := by
    intro desc property hmethod hproperty hanswer
    cases hpath : (ArrayObject.nonFast object writable length).defineInNonFastPath env.build
        env.garbage i desc with
    | none =>
      rw [hpath] at hanswer
      cases hanswer
    | some answered =>
      obtain ⟨a', b⟩ := answered
      rw [hpath] at hanswer
      cases hanswer
      rcases defineInNonFastPath_cases hindex hpath with rfl | ⟨hdone, length', rfl⟩
      · exact .inl rfl
      · have hmethod := hmethod.resolve_left fun hfalse =>
          Bool.false_ne_true (hfalse.symm.trans hdone)
        obtain ⟨first, second, third, rfl⟩ := hproperty
        cases b with
        | false => exact .inl rfl
        | true =>
          refine .inr ⟨rfl, _, length', rfl, ?_, ?_⟩
          · rw [hmethod]
            exact ⟨first, second, third, Function.update_self _ _ _⟩
          · intro j hj
            rw [hmethod]
            exact Function.update_of_ne hj _ _
  rw [ArrayObject.setIndexedProperty, ArrayObject.set] at h
  have hown : (ArrayObject.nonFast object writable length).getOwnProperty i =
      object.properties i := rfl
  rw [hown] at h
  cases hcurrent : object.properties i with
  | none =>
    rw [hcurrent] at h
    refine hdefine (.allPresent v) (.plain v) ?_ ⟨_, _, _, rfl⟩ h
    rw [OrdinaryObject.defineOwnPropertyMethod, hcurrent]
    dsimp only
    split
    · exact .inr rfl
    · exact .inl rfl
  | some current =>
    rw [hcurrent] at h hdata
    cases current with
    | accessor getter setter enumerable configurable => cases hdata
    | data old first second third =>
      dsimp only at h
      split at h
      · refine hdefine (.valueAlone v) (.data v first second third) ?_
          ⟨_, _, _, rfl⟩ h
        rw [OrdinaryObject.defineOwnPropertyMethod, hcurrent]
        dsimp only
        split
        · exact .inl rfl
        · exact .inr rfl
      · cases h
        exact .inl rfl

theorem setIndexedPropertyThrowsException_undisturbed (hindex : i < invalidIndexPropertyValue)
    (harray : w.array = .nonFast object writable length)
    (hdata : (object.properties i).all Property.isDataProperty = true)
    (htarget : (inheritedTarget i w.prototypes).isData = true)
    (h : env.setIndexedPropertyThrowsException i v w = some w') :
    w'.prototypes = w.prototypes ∧ ∃ object' length', w'.array = .nonFast object' writable length' ∧
      (∃ first second third, object'.properties i = some (.data v first second third)) ∧
      ∀ j, j ≠ i → object'.properties j = object.properties j := by
  have hown : env.setOwn i v w = some w' := by
    rw [Environment.setIndexedPropertyThrowsException] at h
    split at h
    · rename_i hexotic
      rw [hexotic] at htarget
      cases htarget
    · rename_i haccessor
      rw [haccessor] at htarget
      cases htarget
    · cases h
    · exact h
  rw [Environment.setOwn, harray] at hown
  split at hown
  · rename_i a hset
    cases hown
    rcases setIndexedProperty_nonFast hindex hdata hset with
      hfalse | ⟨-, object', length', rfl, hspec⟩
    · cases hfalse
    · exact ⟨rfl, object', length', rfl, hspec⟩
  · rename_i a setter hset
    rcases setIndexedProperty_nonFast hindex hdata hset with hfalse | ⟨htrue, -⟩
    · cases hfalse
    · cases htrue
  · cases hown

/-- What is stored from the start is in data properties, Empty like every other value. -/
theorem setAll_undisturbed (values : Buffer (SortValue β)) (hfits : n ≤ invalidIndexPropertyValue)
    (hw : w.Undisturbed n) (m : Nat) (hm : m ≤ n) : ∀ {w' : World β τ},
      env.setAll values m w = some w' → w'.Undisturbed n ∧ ∀ i < m, ∃ first second third,
          w'.array.getOwnProperty i = some (.data (values i) first second third) := by
  induction m with
  | zero =>
    intro w' h
    cases h
    exact ⟨hw, fun i hi => absurd hi (Nat.not_lt_zero i)⟩
  | succ m ih =>
    intro w' h
    rw [Environment.setAll, range_succ, foldlM_append, ← Environment.setAll] at h
    obtain ⟨mid, hmid, h⟩ := Option.bind_eq_some_iff.mp h
    obtain ⟨last, hlast, h⟩ := Option.bind_eq_some_iff.mp h
    cases h
    obtain ⟨⟨object, writable, length, harray, hquiet⟩, hstored⟩ := ih (Nat.le_of_succ_le hm) hmid
    obtain ⟨hprototypes, object', length', harray', hvalue, hother⟩ :=
      setIndexedPropertyThrowsException_undisturbed (Nat.lt_of_lt_of_le hm hfits) harray
        (hquiet m hm).1 (hquiet m hm).2 hlast
    constructor
    · refine ⟨object', writable, length', harray', fun i hi => ?_⟩
      rw [hprototypes]
      refine ⟨?_, (hquiet i hi).2⟩
      by_cases him : i = m
      · obtain ⟨first, second, third, hvalue⟩ := hvalue
        rw [him, hvalue]
        rfl
      · rw [hother i him]
        exact (hquiet i hi).1
    · intro i hi
      rw [harray']
      change ∃ first second third, object'.properties i = _
      rcases Nat.lt_succ_iff_lt_or_eq.mp hi with hlt | rfl
      · rw [hother i (Nat.ne_of_lt hlt)]
        have hkept := hstored i hlt
        rw [harray] at hkept
        exact hkept
      · exact hvalue

variable {storage : FastModeStorage (SortValue β)} {tempBuffer : Buffer (SortValue β)}

theorem sortRaw_holes (hw : w.array = .fast object writable storage)
    (hobject : ∀ i < invalidIndexPropertyValue, object.properties i = none)
    (h : w.HasElements elements)
    (hsort : env.sortRaw elements.length storage w = some (tempBuffer, w')) :
    ∀ i, (present elements).length ≤ i → i < elements.length → tempBuffer i = .empty := by
  obtain ⟨w₁, hmerge⟩ : ∃ w₁, mergeSort env.comp (fun i => .ofSlot (storage.fastModeData i))
      elements.length env.tempSpace w = some (tempBuffer, w₁) := by
    rw [Environment.sortRaw] at hsort
    split at hsort
    · cases hsort
    · rename_i buffer w₁ hmerge
      split at hsort
      · obtain ⟨w₂, -, hsame⟩ := Option.map_eq_some_iff.mp hsort
        cases hsame
        exact ⟨w₁, hmerge⟩
      · cases hsort
        exact ⟨_, hmerge⟩
  obtain ⟨hperm, hsorted, hrank⟩ := Environment.mergeSort_comp hmerge
  rw [segment_ofSlot h hobject hw] at hperm hsorted
  intro i hle hlt
  have hi : i < (segment tempBuffer 0 elements.length).length := by
    rw [length_segment]
    exact hlt
  rw [← getElem_segment hi]
  have hcount := hsorted.perm.length_eq
  have hget : (segment tempBuffer 0 elements.length)[i]? = some .empty := by
    rw [SortValue.eq_present_append hperm hrank, getElem?_append_right (by omega),
      getElem?_replicate, if_pos (by omega)]
  exact (List.getElem?_eq_some_iff.mp hget).2

theorem writeBack_holes_iff {w₁ : World β τ} (hw : w.array = .fast object writable storage)
    (hobject : ∀ i < invalidIndexPropertyValue, object.properties i = none)
    (h : w.HasElements elements)
    (hsort : env.sortRaw elements.length storage w = some (tempBuffer, w₁))
    (hback : env.writeBack elements.length tempBuffer w₁ = some w')
    (hmode : w₁.InFastMode ∨ w₁.Undisturbed elements.length) :
    (∀ i, (present elements).length ≤ i → i < elements.length → w'.array.getOwnProperty i = none) ↔
      w₁.InFastMode ∨ (present elements).length = elements.length := by
  have hholes := sortRaw_holes hw hobject h hsort
  have hle : (present elements).length ≤ elements.length := length_filter_le _ _
  constructor
  · intro habsent
    rcases hmode with hfast | hquiet
    · exact .inl hfast
    · right
      by_contra hne
      have hlt : (present elements).length < elements.length := Nat.lt_of_le_of_ne hle hne
      obtain ⟨object', writable', length', harray, -⟩ := id hquiet
      rw [Environment.writeBack, harray] at hback
      obtain ⟨-, hstored⟩ := setAll_undisturbed tempBuffer h.fits hquiet _ (Nat.le_refl _) hback
      obtain ⟨first, second, third, hvalue⟩ := hstored _ hlt
      rw [habsent _ (Nat.le_refl _) hlt] at hvalue
      cases hvalue
  · rintro (⟨object', writable', storage', harray, -, hobject'⟩ | hnone) i hi hlt
    · rw [Environment.writeBack, harray] at hback
      dsimp only at hback
      split at hback
      · cases hback
        have hspec := @Environment.writeRaw_spec β storage' tempBuffer elements.length
        show (ArrayObject.fast object' writable' _).getOwnProperty i = none
        rw [getOwnProperty_fast hobject' (Nat.lt_of_lt_of_le hlt h.fits), hspec.2 i, if_pos hlt,
          hholes i hi hlt]
        split
        · rfl
        · rfl
      · cases hback
    · omega

end NonFast

/-- With a comparison that leaves the array alone, the two sorts leave the present elements, sorted
and with undefined last, followed by holes, and the length; and the same elements if the comparison
follows an order. Whatever the comparison changed, the holes are absent after the write back if the
array is still in fast mode. -/
theorem array_sort_agree [DecidableEq β] (env : Environment β τ) (elements : List (SortValue β)) :
    (env.DoesNotMutate → ∀ w v : World β τ, w.InFastMode → w.HasElements elements →
      v.IsGeneric elements.length → v.HasElements elements →
        (∀ w', env.builtinArraySort w = some w' → env.Leaves elements w') ∧
        (∀ v', env.builtinArraySort v = some v' → env.Leaves elements v') ∧
        (env.NeverThrows → (env.builtinArraySort w).isSome ∧ (env.builtinArraySort v).isSome) ∧
        ∀ r, env.Follows r → ∀ w' v', env.builtinArraySort w = some w' →
          env.builtinArraySort v = some v' →
            ∃ result, w'.HasElements result ∧ v'.HasElements result) ∧
    ∀ (w : World β τ) object writable storage, w.array = .fast object writable storage →
      w.InFastMode → w.HasElements elements → ∀ tempBuffer w₁ w',
        env.sortRaw elements.length storage w = some (tempBuffer, w₁) →
        env.writeBack elements.length tempBuffer w₁ = some w' → w₁.InFastMode →
          ∀ i, (present elements).length ≤ i → i < elements.length →
            w'.array.getOwnProperty i = none := by
  constructor
  · intro hmut w v hfast hw hgeneric hv
    obtain ⟨hleaves, hends⟩ := Environment.arraySort_fast hmut hfast hw
    obtain ⟨hleaves', hends'⟩ := Environment.arraySort_generic hmut hgeneric hv
    refine ⟨hleaves, hleaves', fun hthrows => ⟨hends hthrows, hends' hthrows⟩, ?_⟩
    intro r hr w' v' hw' hv'
    obtain ⟨sorted, hsorted, helements⟩ := hleaves w' hw'
    obtain ⟨sorted', hsorted', helements'⟩ := hleaves' v' hv'
    rw [← hsorted.unique hr hsorted'] at helements'
    exact ⟨_, helements, helements'⟩
  · intro w object writable storage hw hfast h tempBuffer w₁ w' hsort hback hmode
    obtain ⟨object', writable', storage', hw', -, hobject⟩ := hfast
    rw [hw] at hw'
    cases hw'
    exact (writeBack_holes_iff hw hobject h hsort hback (.inl hmode)).mpr (.inl hmode)

/-- A comparison by which `0` comes before `1`, `1` before `2` and `2` before `0`. -/
def cyclicEnvironment : Environment Nat Unit where
  build := .rawBuffer
  garbage := fun _ => none
  tempSpace := fun _ => .empty
  compare := fun x y w => some (decide ((x + 1) % 3 = y), w)
  callGetter := fun _ _ => none
  callSetter := fun _ _ _ => none
  setExotic := fun _ _ _ => none

/-- The array `[0, , 1, 2]`. -/
def cyclicArray : World Nat Unit where
  array := .fast ⟨fun _ => none, true⟩ true
    ⟨4, fun i => [some (.other 0), none, some (.other 1), some (.other 2)].getD i none, 4, none⟩
  prototypes := []
  names := []
  script := ()

def cyclicObject : World Nat Unit :=
  { cyclicArray with array := cyclicArray.array.convertIntoNonFastMode }

theorem hasElements_cyclic : cyclicArray.HasElements [.other 0, .empty, .other 1, .other 2] ∧
    cyclicObject.HasElements [.other 0, .empty, .other 1, .other 2] := by
  constructor
  · refine ⟨rfl, by decide, fun i hi => ?_⟩
    match i, hi with
    | 0, _ | 1, _ | 2, _ | 3, _ => rfl
  · refine ⟨rfl, by decide, fun i hi => ?_⟩
    match i, hi with
    | 0, _ | 1, _ | 2, _ | 3, _ => rfl

theorem builtinArraySort_cyclic :
    (cyclicEnvironment.builtinArraySort cyclicArray).map (fun w =>
      (w.array.arrayLength, w.array.getOwnProperty 0)) =
        some (4, some (.data (.other 0) true true true)) ∧
    (cyclicEnvironment.builtinArraySort cyclicObject).map (fun w => w.array.getOwnProperty 0) =
      some (some (.data (.other 2) true true true)) := by
  decide +kernel

/-- The sort of the raw storage leaves `[0, 1, 2, ]`, the generic one `[2, 0, 1, ]`. -/
theorem cyclic_sorts_differ :
    ¬ ∀ (env : Environment Nat Unit) (elements : List (SortValue Nat)), env.DoesNotMutate →
      ∀ w v : World Nat Unit, w.InFastMode → w.HasElements elements →
        v.IsGeneric elements.length → v.HasElements elements →
          ∀ w' v', env.builtinArraySort w = some w' → env.builtinArraySort v = some v' →
            ∃ result, w'.HasElements result ∧ v'.HasElements result := by
  intro hall
  have hmut : cyclicEnvironment.DoesNotMutate := by
    rintro x y w result w' ⟨⟩
    exact ⟨rfl, rfl⟩
  have hfast : cyclicArray.InFastMode := ⟨_, _, _, rfl, Nat.le_refl 4, fun _ _ => rfl⟩
  have hgeneric : cyclicObject.IsGeneric 4 := ⟨⟨_, _, _, rfl, rfl⟩, nofun⟩
  obtain ⟨w', hw', hraw⟩ := Option.map_eq_some_iff.mp builtinArraySort_cyclic.1
  obtain ⟨v', hv', hcollected⟩ := Option.map_eq_some_iff.mp builtinArraySort_cyclic.2
  obtain ⟨hlength, hfirst⟩ := Prod.mk.inj hraw
  obtain ⟨result, hresult, hresult'⟩ := hall cyclicEnvironment _ hmut cyclicArray cyclicObject hfast
    hasElements_cyclic.1 hgeneric hasElements_cyclic.2 w' v' hw' hv'
  have hpos : 0 < result.length := by
    rw [← hresult.arrayLength_eq, hlength]
    decide
  have hsame := (hresult.getOwnProperty_eq 0 hpos).trans (hresult'.getOwnProperty_eq 0 hpos).symm
  rw [hfirst, hcollected] at hsame
  cases hsame

/-- A comparison of numbers after which the array is no longer in fast mode. -/
def convertingEnvironment : Environment Nat Unit where
  build := .rawBuffer
  garbage := fun _ => none
  tempSpace := fun _ => .empty
  compare := fun x y w => some (decide (x < y), { w with array := w.array.convertIntoNonFastMode })
  callGetter := fun _ _ => none
  callSetter := fun _ _ _ => none
  setExotic := fun _ _ _ => none

/-- The array `[2, 1, , ]`. -/
def twoOneHole : World Nat Unit where
  array := .fast ⟨fun _ => none, true⟩ true
    ⟨3, fun i => if i = 0 then some (.other 2) else if i = 1 then some (.other 1) else none, 3,
      none⟩
  prototypes := []
  names := []
  script := ()

/-- The hole is an own property with the value Empty then. -/
theorem hole_is_stored : (convertingEnvironment.builtinArraySort twoOneHole).map
    (fun w => w.array.getOwnProperty 2) = some (some (.data .empty true true true)) := by
  decide +kernel

end Escargot.Sorting
