/-
# Fast mode element storage of arrays

A fast mode array keeps its elements in one raw buffer, with Empty in the
holes. `ArrayObject::setArrayLength` resizes the buffer either to the exact
length or with spare capacity that the rare data remembers. This file follows
the buffer through every resize and says when a resize shows an old element in
a new slot, and when it copies more than the new buffer holds.
-/

import Escargot.Foundation.Run

namespace Escargot.Runtime

open Escargot.Foundation

variable (newSize : Nat)

/-- `ComputeReservedCapacityFunctionWithLog2<>`. -/
def reservedCapacityWithLog2 : Nat :=
  if newSize = 0 then 0 else 2 ^ (Nat.log 2 newSize + 1)

/-- Conversion of an integer to `float`, to the nearest with ties to even. -/
def roundToFloat (m : Nat) : Nat :=
  if m < 2 ^ 24 then m
  else
    let unit := 2 ^ (Nat.log 2 m - 23)
    let quotient := m / unit
    let rest := m % unit
    if 2 * rest < unit ∨ (2 * rest = unit ∧ quotient % 2 = 0) then quotient * unit
    else (quotient + 1) * unit

/-- The value of `130 / 100.f`, in units of `2 ^ -23`. -/
def growFactor130 : Nat := 10905190

/-- `ComputeReservedCapacityFunctionWithPercent<130>`: a product of floats. -/
def reservedCapacityWithPercent130 : Nat :=
  roundToFloat (roundToFloat newSize * growFactor130) / 2 ^ 23

theorem le_reservedCapacityWithLog2 : newSize ≤ reservedCapacityWithLog2 newSize := by
  unfold reservedCapacityWithLog2
  split
  · omega
  · exact (Nat.lt_pow_succ_log_self Nat.one_lt_two newSize).le

theorem le_roundToFloat (m : Nat) : m * 8388608 ≤ roundToFloat m * 8388608 + m := by
  unfold roundToFloat
  split
  · exact Nat.le_add_right _ _
  · rename_i hlarge
    have hlog : 23 ≤ Nat.log 2 m := by
      apply Nat.le_log_of_pow_le Nat.one_lt_two
      omega
    have hunit : 2 ^ (Nat.log 2 m - 23) * 8388608 ≤ m := by
      rw [show 8388608 = 2 ^ 23 from rfl, ← Nat.pow_add, Nat.sub_add_cancel hlog]
      apply Nat.pow_log_le_self
      omega
    have hpos : 0 < 2 ^ (Nat.log 2 m - 23) := Nat.two_pow_pos _
    generalize 2 ^ (Nat.log 2 m - 23) = unit at hunit hpos
    have hfloor : m < m / unit * unit + unit := Nat.lt_div_mul_add hpos
    dsimp only
    rw [Nat.add_mul, Nat.one_mul]
    generalize m / unit * unit = floor at hfloor
    split <;> linarith

theorem le_reservedCapacityWithPercent130 : newSize ≤ reservedCapacityWithPercent130 newSize := by
  have hsize := le_roundToFloat newSize
  have hproduct := le_roundToFloat (roundToFloat newSize * growFactor130)
  unfold reservedCapacityWithPercent130
  rw [Nat.le_div_iff_mul_le (by decide), show 2 ^ 23 = 8388608 from rfl]
  generalize roundToFloat (roundToFloat newSize * growFactor130) = product at hproduct
  generalize roundToFloat newSize = size at hsize hproduct
  rw [growFactor130] at hproduct
  linarith

/-- How the element buffer is kept. -/
inductive BufferBuild
  /-- `ESCARGOT_USE_32BIT_IN_64BIT`: the buffer is a `TightVectorWithNoSize`. -/
  | tightVector
  /-- Other builds: the buffer is resized by the collector's own functions. -/
  | rawBuffer
  deriving DecidableEq

/-- The part of `ObjectRareData` that fast mode arrays use. -/
structure FastModeRareData where
  arrayObjectFastModeBufferCapacity : Nat
  arrayObjectFastModeBufferExpandCount : Nat

/-- The rare data that `ensureRareData` creates. -/
def FastModeRareData.fresh : FastModeRareData := ⟨0, 0⟩

/-- The elements of a fast mode array. A slot that is `none` holds Empty. Slots
from `allocated` on are not part of the buffer. -/
structure FastModeStorage (α : Type) where
  arrayLength : Nat
  fastModeData : Nat → Option α
  allocated : Nat
  rareData : Option FastModeRareData

/-- One copy of elements into a newly allocated buffer. -/
structure BufferCopy where
  copied : Nat
  allocated : Nat
  deriving DecidableEq

def BufferCopy.fits (copy : BufferCopy) : Prop := copy.copied ≤ copy.allocated

instance (copy : BufferCopy) : Decidable copy.fits := inferInstanceAs (Decidable (_ ≤ _))

variable {α : Type}

/-- `memset` of the slots in `[start, stop)` to Empty. -/
def clearSlots (data : Nat → Option α) (start stop : Nat) : Nat → Option α :=
  fun i => if start ≤ i ∧ i < stop then none else data i

def copySlots (dst src : Nat → Option α) (count : Nat) : Nat → Option α :=
  fun i => if i < count then src i else dst i

/-- `GC_MALLOC` hands out cleared memory. -/
def mallocSlots (garbage : Nat → Option α) (capacity : Nat) : Nat → Option α :=
  fun i => if i < capacity then none else garbage i

namespace FastModeStorage

/-- `ESCARGOT_ARRAY_FASTMODE_EXACT_ALLOC_MAX_LENGTH`. -/
def exactAllocMaxLength : Nat := 16

def minExpandCountForUsingLog2Function : Nat := 3

variable (rareData : Option FastModeRareData)

/-- A new array: no buffer, with or without rare data. -/
def empty : FastModeStorage α :=
  { arrayLength := 0, fastModeData := fun _ => none, allocated := 0, rareData := rareData }

/-- The capacity in the rare data, zero when there is none. -/
def trackedCapacity (s : FastModeStorage α) : Nat :=
  match s.rareData with
  | some rd => rd.arrayObjectFastModeBufferCapacity
  | none => 0

/-- The capacity that the branch with spare capacity starts from. -/
def oldCapacity (s : FastModeStorage α) : Nat :=
  match s.rareData with
  | some rd => rd.arrayObjectFastModeBufferCapacity
  | none => s.arrayLength

def ensureRareData (s : FastModeStorage α) : FastModeRareData := s.rareData.getD .fresh

/-- The choice between an exact buffer and one with spare capacity. -/
def usesExactStorage (s : FastModeStorage α) (newLength : Nat) (useFitStorage : Bool) : Bool :=
  useFitStorage || s.arrayLength == 0 || newLength ≤ exactAllocMaxLength

def newCapacity (s : FastModeStorage α) (newLength : Nat) : Nat :=
  if newLength = s.arrayLength + 1 ∨ minExpandCountForUsingLog2Function ≤
        s.ensureRareData.arrayObjectFastModeBufferExpandCount then
    reservedCapacityWithLog2 newLength
  else reservedCapacityWithPercent130 newLength

/-- The rare data after a new buffer with spare capacity was made. -/
def expandedRareData (s : FastModeStorage α) (capacity : Nat) : FastModeRareData :=
  let count := s.ensureRareData.arrayObjectFastModeBufferExpandCount
  { arrayObjectFastModeBufferCapacity := capacity
    arrayObjectFastModeBufferExpandCount :=
      if count < minExpandCountForUsingLog2Function then count + 1 else count }

variable (garbage : Nat → Option α)

/-- `TightVectorWithNoSize::resizeWithUninitializedValues` with the copy it makes. -/
def resizeWithUninitializedValues (s : FastModeStorage α)
    (newSize : Nat) : (Nat → Option α) × Option BufferCopy :=
  if newSize = 0 then (garbage, none)
  else (copySlots garbage s.fastModeData (min s.arrayLength newSize),
    some ⟨min s.arrayLength newSize, newSize⟩)

/-- `GC_REALLOC`: the old slots stay, further slots hold anything. -/
def realloc (s : FastModeStorage α) (newSize : Nat) : Nat → Option α :=
  copySlots garbage s.fastModeData (min s.allocated newSize)

/-- The branch of `setArrayLength` that allocates exactly the new length. -/
def setExactLength (build : BufferBuild) (garbage : Nat → Option α) (s : FastModeStorage α)
    (newLength : Nat) : FastModeStorage α × Option BufferCopy :=
  let rareData := s.rareData.map fun rd => { rd with arrayObjectFastModeBufferCapacity := 0 }
  match build with
  | .tightVector =>
    let resized := s.resizeWithUninitializedValues garbage newLength
    (⟨newLength, clearSlots resized.1 s.arrayLength newLength, newLength, rareData⟩, resized.2)
  | .rawBuffer =>
    let resized := s.realloc garbage newLength
    -- Within a remembered capacity nothing is cleared.
    let data :=
      if s.trackedCapacity ≠ 0 ∧ newLength ≤ s.trackedCapacity then resized
      else clearSlots resized s.arrayLength newLength
    (⟨newLength, data, newLength, rareData⟩, none)

/-- The branch of `setArrayLength` that keeps spare capacity. -/
def setSpareLength (build : BufferBuild) (garbage : Nat → Option α) (s : FastModeStorage α)
    (newLength : Nat) (clearNewSlots : Bool) : FastModeStorage α × Option BufferCopy :=
  if s.oldCapacity < newLength then
    let capacity := s.newCapacity newLength
    let rareData := some (s.expandedRareData capacity)
    match build with
    | .tightVector =>
      let resized := s.resizeWithUninitializedValues garbage capacity
      (⟨newLength, clearSlots resized.1 s.arrayLength newLength, capacity, rareData⟩, resized.2)
    | .rawBuffer =>
      let copy := copySlots (mallocSlots garbage capacity) s.fastModeData s.arrayLength
      let data := if clearNewSlots then clearSlots copy s.arrayLength newLength else copy
      (⟨newLength, data, capacity, rareData⟩, some ⟨s.arrayLength, capacity⟩)
  else
    let clears := match build with
      | .tightVector => true
      | .rawBuffer => clearNewSlots
    let data := if clears then clearSlots s.fastModeData s.arrayLength newLength else s.fastModeData
    let rareData := { s.ensureRareData with arrayObjectFastModeBufferCapacity := s.oldCapacity }
    (⟨newLength, data, s.allocated, some rareData⟩, none)

/-- `ArrayObject::setArrayLength` on a fast mode array that stays in fast mode,
with the copy into a new buffer, if one is made. -/
def setArrayLength (build : BufferBuild) (garbage : Nat → Option α) (s : FastModeStorage α)
    (newLength : Nat) (useFitStorage clearNewSlots : Bool) :
    FastModeStorage α × Option BufferCopy :=
  if s.arrayLength = newLength then (s, none)
  else if s.usesExactStorage newLength useFitStorage then
    s.setExactLength build garbage newLength
  else s.setSpareLength build garbage newLength clearNewSlots

/-- A write of one element, `m_fastModeData[idx] = value`. -/
def write (s : FastModeStorage α) (idx : Nat) (value : Option α) : FastModeStorage α :=
  { s with fastModeData := Function.update s.fastModeData idx value }

/-- The elements lie inside the buffer, and a remembered capacity is the real
one. -/
structure WellFormed (s : FastModeStorage α) : Prop where
  length_le : s.arrayLength ≤ s.allocated
  tracked : s.trackedCapacity ≠ 0 → s.trackedCapacity = s.allocated
  exact : s.trackedCapacity = 0 → s.allocated = s.arrayLength

theorem empty_wellFormed (hfresh : rareData = none ∨ rareData = some .fresh) :
    (empty rareData : FastModeStorage α).WellFormed := by
  rcases hfresh with rfl | rfl
  · exact ⟨le_rfl, fun h => (h rfl).elim, fun _ => rfl⟩
  · exact ⟨le_rfl, fun h => (h rfl).elim, fun _ => rfl⟩

theorem le_newCapacity (s : FastModeStorage α) (newLength : Nat) :
    newLength ≤ s.newCapacity newLength := by
  unfold newCapacity
  split
  · exact le_reservedCapacityWithLog2 newLength
  · exact le_reservedCapacityWithPercent130 newLength

theorem oldCapacity_eq_trackedCapacity (s : FastModeStorage α) (rd : FastModeRareData)
    (hrd : s.rareData = some rd) : s.oldCapacity = s.trackedCapacity := by
  simp only [oldCapacity, trackedCapacity, hrd]

variable {s : FastModeStorage α}

/-- The capacity the code starts from is the size of the buffer, unless rare
data that says zero hides it. -/
theorem WellFormed.oldCapacity_cases (wf : s.WellFormed) :
    s.oldCapacity = s.allocated ∨ s.oldCapacity = 0 := by
  cases hrd : s.rareData with
  | none =>
    have htracked : s.trackedCapacity = 0 := by simp only [trackedCapacity, hrd]
    have hold : s.oldCapacity = s.arrayLength := by simp only [oldCapacity, hrd]
    exact .inl (hold.trans (wf.exact htracked).symm)
  | some rd =>
    rw [oldCapacity_eq_trackedCapacity s rd hrd]
    by_cases hzero : s.trackedCapacity = 0
    · exact .inr hzero
    · exact .inl (wf.tracked hzero)

@[simp]
theorem setArrayLength_arrayLength (build : BufferBuild) (garbage : Nat → Option α)
    (s : FastModeStorage α) (newLength : Nat) (useFitStorage clearNewSlots : Bool) :
    (s.setArrayLength build garbage newLength useFitStorage clearNewSlots).1.arrayLength =
      newLength := by
  unfold setArrayLength
  split
  · assumption
  · split
    · cases build <;> rfl
    · unfold setSpareLength
      split <;> cases build <;> rfl

theorem setExactLength_trackedCapacity (build : BufferBuild) (garbage : Nat → Option α)
    (s : FastModeStorage α) (newLength : Nat) :
    (s.setExactLength build garbage newLength).1.trackedCapacity = 0 := by
  cases build <;> cases hrd : s.rareData <;> simp [setExactLength, trackedCapacity, hrd]

theorem setExactLength_wellFormed (build : BufferBuild) (garbage : Nat → Option α)
    (s : FastModeStorage α) (newLength : Nat) :
    (s.setExactLength build garbage newLength).1.WellFormed := by
  have hexact := setExactLength_trackedCapacity build garbage s newLength
  have hallocated : (s.setExactLength build garbage newLength).1.allocated = newLength := by
    cases build <;> rfl
  have hlength : (s.setExactLength build garbage newLength).1.arrayLength = newLength := by
    cases build <;> rfl
  exact ⟨by rw [hlength, hallocated], fun h => (h hexact).elim, fun _ => by rw [hlength, hallocated]⟩

variable {newLength : Nat}

theorem setSpareLength_wellFormed (build : BufferBuild) (garbage : Nat → Option α)
    (wf : s.WellFormed) (hpos : 0 < newLength) (clearNewSlots : Bool) :
    (s.setSpareLength build garbage newLength clearNewSlots).1.WellFormed := by
  unfold setSpareLength
  split
  · have hcapacity := s.le_newCapacity newLength
    cases build with
    | tightVector =>
      exact ⟨hcapacity, fun _ => rfl, fun h => absurd h (by change s.newCapacity _ ≠ 0; omega)⟩
    | rawBuffer =>
      exact ⟨hcapacity, fun _ => rfl, fun h => absurd h (by change s.newCapacity _ ≠ 0; omega)⟩
  · rename_i hwithin
    have hold : s.oldCapacity = s.allocated := by
      rcases wf.oldCapacity_cases with h | h
      · exact h
      · omega
    exact ⟨by change newLength ≤ s.allocated; omega, fun _ => hold,
      fun h => absurd h (by change s.oldCapacity ≠ 0; omega)⟩

theorem usesExactStorage_eq_false {useFitStorage : Bool}
    (h : ¬ s.usesExactStorage newLength useFitStorage = true) :
    useFitStorage = false ∧ s.arrayLength ≠ 0 ∧ exactAllocMaxLength < newLength := by
  simp only [usesExactStorage, Bool.or_eq_true, beq_iff_eq, decide_eq_true_eq, not_or] at h
  exact ⟨Bool.eq_false_iff.mpr h.1.1, h.1.2, Nat.lt_of_not_le h.2⟩

theorem WellFormed.setArrayLength (wf : s.WellFormed) (build : BufferBuild)
    (garbage : Nat → Option α) (newLength : Nat) (useFitStorage clearNewSlots : Bool) :
    (s.setArrayLength build garbage newLength useFitStorage clearNewSlots).1.WellFormed := by
  unfold FastModeStorage.setArrayLength
  split
  · exact wf
  · split
    · exact setExactLength_wellFormed build garbage s newLength
    · rename_i hspare
      have hpos : 0 < newLength := (usesExactStorage_eq_false hspare).2.2.trans_le' (Nat.zero_le _)
      exact setSpareLength_wellFormed build garbage wf hpos clearNewSlots

theorem WellFormed.write (wf : s.WellFormed) (idx : Nat) (value : Option α) :
    (s.write idx value).WellFormed :=
  ⟨wf.length_le, wf.tracked, wf.exact⟩

theorem setArrayLength_spare (build : BufferBuild) (garbage : Nat → Option α)
    (hspare : s.trackedCapacity ≠ 0 → exactAllocMaxLength < s.arrayLength) (newLength : Nat)
    (useFitStorage clearNewSlots : Bool) :
    (s.setArrayLength build garbage newLength useFitStorage clearNewSlots).1.trackedCapacity ≠ 0 →
      exactAllocMaxLength < newLength := by
  unfold setArrayLength
  split
  · rename_i hsame
    rw [← hsame]
    exact hspare
  · split
    · intro htracked
      exact absurd (setExactLength_trackedCapacity build garbage s newLength) htracked
    · rename_i hspare
      intro _
      exact (usesExactStorage_eq_false hspare).2.2

/-- The resize takes slots of the spare capacity as they are. -/
def keepsSpareSlots (build : BufferBuild) (s : FastModeStorage α) (newLength : Nat)
    (useFitStorage clearNewSlots : Bool) : Prop :=
  build = .rawBuffer ∧ if s.usesExactStorage newLength useFitStorage then
      s.trackedCapacity ≠ 0 ∧ newLength ≤ s.trackedCapacity
    else newLength ≤ s.oldCapacity ∧ clearNewSlots = false

instance (build : BufferBuild) (s : FastModeStorage α) (newLength : Nat)
    (useFitStorage clearNewSlots : Bool) :
    Decidable (s.keepsSpareSlots build newLength useFitStorage clearNewSlots) :=
  inferInstanceAs (Decidable (_ ∧ ite _ _ _))

theorem setArrayLength_keeps (wf : s.WellFormed) (build : BufferBuild) (garbage : Nat → Option α)
    {i : Nat} (useFitStorage clearNewSlots : Bool) (hold : i < s.arrayLength)
    (hnew : i < newLength) :
    (s.setArrayLength build garbage newLength useFitStorage clearNewSlots).1.fastModeData i =
      s.fastModeData i := by
  have hallocated := wf.length_le
  have hnot : ¬ (s.arrayLength ≤ i ∧ i < newLength) := by omega
  have hnonzero : newLength ≠ 0 := by omega
  unfold setArrayLength
  split
  · rfl
  · split
    · cases build with
      | tightVector =>
        simp only [setExactLength, resizeWithUninitializedValues, clearSlots, copySlots,
          if_neg hnot, if_neg hnonzero]
        exact if_pos (by omega)
      | rawBuffer =>
        have hread : s.realloc garbage newLength i = s.fastModeData i := if_pos (by omega)
        simp only [setExactLength]
        split
        · exact hread
        · simp only [clearSlots, if_neg hnot, hread]
    · unfold setSpareLength
      have hcapacity := s.le_newCapacity newLength
      split
      · cases build with
        | tightVector =>
          simp only [resizeWithUninitializedValues, clearSlots, copySlots, if_neg hnot,
            if_neg (show s.newCapacity newLength ≠ 0 by omega)]
          exact if_pos (by omega)
        | rawBuffer => cases clearNewSlots <;> simp [clearSlots, copySlots, hold]
      · cases build <;> cases clearNewSlots <;> simp [clearSlots, hold]

theorem setArrayLength_new_slot (wf : s.WellFormed) (build : BufferBuild)
    (garbage : Nat → Option α) {i : Nat} (useFitStorage clearNewSlots : Bool)
    (hold : s.arrayLength ≤ i) (hnew : i < newLength) :
    (s.setArrayLength build garbage newLength useFitStorage clearNewSlots).1.fastModeData i =
      if s.keepsSpareSlots build newLength useFitStorage clearNewSlots then s.fastModeData i
      else none := by
  have hin : s.arrayLength ≤ i ∧ i < newLength := ⟨hold, hnew⟩
  unfold setArrayLength keepsSpareSlots
  rw [if_neg (by omega)]
  split
  · cases build with
    | tightVector => simp [setExactLength, clearSlots, hin]
    | rawBuffer =>
      simp only [setExactLength, true_and]
      split
      · rename_i htracked
        have hallocated := wf.tracked htracked.1
        exact if_pos (by omega)
      · exact if_pos hin
  · rename_i hspare
    unfold setSpareLength
    have hcapacity := s.le_newCapacity newLength
    split
    · rename_i hgrows
      have hnot : ¬ (newLength ≤ s.oldCapacity ∧ clearNewSlots = false) := by omega
      cases build with
      | tightVector => simp [clearSlots, hin]
      | rawBuffer =>
        have hmalloc : i < s.newCapacity newLength := by omega
        have hcopy : ¬ i < s.arrayLength := by omega
        rw [if_neg (fun h => hnot h.2)]
        cases clearNewSlots <;>
          simp [clearSlots, copySlots, mallocSlots, hin, hcopy, hmalloc]
    · rename_i hwithin
      cases build with
      | tightVector => simp [clearSlots, hin]
      | rawBuffer =>
        have hwithin' : newLength ≤ s.oldCapacity := by omega
        cases clearNewSlots <;> simp [clearSlots, hin, hwithin']

/-- A grow takes over a spare slot that still holds an element. -/
def exposesStale (build : BufferBuild) (s : FastModeStorage α) (newLength : Nat)
    (useFitStorage clearNewSlots : Bool) : Prop :=
  s.keepsSpareSlots build newLength useFitStorage clearNewSlots ∧
    ∃ i < newLength, s.arrayLength ≤ i ∧ (s.fastModeData i).isSome

/-- The rare data hides the size of the buffer, so a shrink allocates a new
buffer, and one that is smaller than the elements it copies. -/
def overruns (build : BufferBuild) (s : FastModeStorage α) (newLength : Nat)
    (useFitStorage : Bool) : Prop :=
  build = .rawBuffer ∧ s.usesExactStorage newLength useFitStorage = false ∧
    s.oldCapacity < newLength ∧ s.newCapacity newLength < s.arrayLength

variable {build : BufferBuild}

theorem not_overruns_of_le (hgrow : s.arrayLength ≤ newLength) (useFitStorage : Bool) :
    ¬ s.overruns build newLength useFitStorage := by
  rintro ⟨-, -, -, hsmall⟩
  exact absurd (s.le_newCapacity newLength) (by omega)

theorem not_keepsSpareSlots_of_lt
    (hspare : s.trackedCapacity ≠ 0 → exactAllocMaxLength < s.arrayLength)
    (hgrow : s.arrayLength < newLength) : ¬ s.keepsSpareSlots build newLength false true := by
  rintro ⟨-, hkeeps⟩
  split at hkeeps
  · rename_i hexact
    simp only [usesExactStorage, Bool.false_or, Bool.or_eq_true, beq_iff_eq,
      decide_eq_true_eq] at hexact
    omega
  · exact Bool.noConfusion hkeeps.2

instance (build : BufferBuild) (s : FastModeStorage α) (newLength : Nat)
    (useFitStorage clearNewSlots : Bool) :
    Decidable (s.exposesStale build newLength useFitStorage clearNewSlots) :=
  inferInstanceAs (Decidable (_ ∧ _))

instance (build : BufferBuild) (s : FastModeStorage α) (newLength : Nat)
    (useFitStorage : Bool) : Decidable (s.overruns build newLength useFitStorage) :=
  inferInstanceAs (Decidable (_ ∧ _ ∧ _ ∧ _))

theorem new_slots_empty_iff (wf : s.WellFormed) (build : BufferBuild) (garbage : Nat → Option α)
    (newLength : Nat) (useFitStorage clearNewSlots : Bool) :
    (∀ i, s.arrayLength ≤ i → i < newLength →
      (s.setArrayLength build garbage newLength useFitStorage clearNewSlots).1.fastModeData i =
        none) ↔
      ¬ s.exposesStale build newLength useFitStorage clearNewSlots := by
  constructor
  · rintro hempty ⟨hkeeps, i, hnew, hold, hsome⟩
    have hread := hempty i hold hnew
    rw [setArrayLength_new_slot wf build garbage useFitStorage clearNewSlots hold hnew,
      if_pos hkeeps] at hread
    rw [hread] at hsome
    exact absurd hsome Bool.false_ne_true
  · intro hclean i hold hnew
    rw [setArrayLength_new_slot wf build garbage useFitStorage clearNewSlots hold hnew]
    split
    · rename_i hkeeps
      apply Option.not_isSome_iff_eq_none.mp
      intro hsome
      exact hclean ⟨hkeeps, i, hnew, hold, hsome⟩
    · rfl

theorem resizeWithUninitializedValues_fits (s : FastModeStorage α)
    (newSize : Nat) : ∀ copy ∈ (s.resizeWithUninitializedValues garbage newSize).2, copy.fits := by
  unfold resizeWithUninitializedValues
  split
  · simp
  · simp [BufferCopy.fits]

theorem copies_fit_iff (build : BufferBuild) (garbage : Nat → Option α)
    (s : FastModeStorage α) (newLength : Nat) (useFitStorage clearNewSlots : Bool) :
    (∀ copy ∈ (s.setArrayLength build garbage newLength useFitStorage clearNewSlots).2,
      copy.fits) ↔ ¬ s.overruns build newLength useFitStorage := by
  have hcapacity := s.le_newCapacity newLength
  unfold setArrayLength overruns
  split
  · rename_i hsame
    have : ¬ s.newCapacity newLength < s.arrayLength := by omega
    simp [this]
  · split
    · rename_i hexact
      cases build with
      | tightVector =>
        have hfits := s.resizeWithUninitializedValues_fits garbage newLength
        simpa [setExactLength] using hfits
      | rawBuffer => simp [setExactLength, hexact]
    · rename_i hspare
      unfold setSpareLength
      split
      · rename_i hgrows
        cases build with
        | tightVector =>
          have hfits := s.resizeWithUninitializedValues_fits garbage (s.newCapacity newLength)
          simpa using hfits
        | rawBuffer => simp [BufferCopy.fits, hspare, hgrows]
      · rename_i hwithin
        simp [hwithin]

/-- What happens to a fast mode array. A resize comes with whatever memory that
was never cleared holds. -/
inductive Operation (α : Type)
  | setArrayLength (newLength : Nat) (useFitStorage clearNewSlots : Bool)
      (garbage : Nat → Option α)
  | write (idx : Nat) (value : Option α)

def step (build : BufferBuild) (s : FastModeStorage α) :
    Operation α → Option (FastModeStorage α × Option BufferCopy)
  | .setArrayLength newLength useFitStorage clearNewSlots garbage =>
    some (s.setArrayLength build garbage newLength useFitStorage clearNewSlots)
  | .write idx value => if idx < s.arrayLength then some (s.write idx value, none) else none

/-- The slots that a grow adds read as Empty, and the copy into a new buffer
stays inside it. -/
def StepSafe (build : BufferBuild) (s : FastModeStorage α) : Operation α → Prop
  | .setArrayLength newLength useFitStorage clearNewSlots garbage =>
    let result := s.setArrayLength build garbage newLength useFitStorage clearNewSlots
    (∀ i, s.arrayLength ≤ i → i < newLength → result.1.fastModeData i = none) ∧
      ∀ copy ∈ result.2, copy.fits
  | .write _ _ => True

def AvoidsResizeDefects (build : BufferBuild) (s : FastModeStorage α) : Operation α → Prop
  | .setArrayLength newLength useFitStorage clearNewSlots _ =>
    ¬ s.exposesStale build newLength useFitStorage clearNewSlots ∧
      ¬ s.overruns build newLength useFitStorage
  | .write _ _ => True

instance (build : BufferBuild) (s : FastModeStorage α) (op : Operation α) :
    Decidable (s.AvoidsResizeDefects build op) :=
  match op with
  | .setArrayLength _ _ _ _ => inferInstanceAs (Decidable (_ ∧ _))
  | .write _ _ => isTrue trivial

theorem step_wellFormed {next : FastModeStorage α} {op : Operation α} {out : Option BufferCopy}
    (wf : s.WellFormed) (hstep : s.step build op = some (next, out)) : next.WellFormed := by
  cases op with
  | setArrayLength newLength useFitStorage clearNewSlots garbage =>
    have hnext : (s.setArrayLength build garbage newLength useFitStorage clearNewSlots).1 =
        next := congrArg Prod.fst (Option.some.inj hstep)
    rw [← hnext]
    exact wf.setArrayLength build garbage newLength useFitStorage clearNewSlots
  | write idx value =>
    simp only [step] at hstep
    split at hstep
    · cases hstep
      exact wf.write idx value
    · cases hstep

theorem stepSafe_iff (wf : s.WellFormed) (build : BufferBuild) (op : Operation α) :
    s.StepSafe build op ↔ s.AvoidsResizeDefects build op := by
  cases op with
  | setArrayLength newLength useFitStorage clearNewSlots garbage =>
    exact and_congr (new_slots_empty_iff wf build garbage newLength useFitStorage clearNewSlots)
      (copies_fit_iff build garbage s newLength useFitStorage clearNewSlots)
  | write => exact Iff.rfl

/-- From a new array, every step of a run is safe exactly when no step takes over
an old element of the spare capacity and no shrink copies past its new buffer. -/
theorem run_safe_iff (build : BufferBuild) (rareData : Option FastModeRareData)
    (hfresh : rareData = none ∨ rareData = some .fresh) (ops : List (Operation α)) :
    Guarded (step build) (StepSafe build) ops (empty rareData) ↔
      Guarded (step build) (AvoidsResizeDefects build) ops (empty rareData) :=
  Guarded.congr step_wellFormed (fun wf => stepSafe_iff wf build _) ops
    (empty_wellFormed rareData hfresh)

/-- Both lengths above the exact limit, growing and shrinking with spare
capacity: nothing goes wrong. -/
theorem run_safe_with_spare_capacity : Guarded (step .rawBuffer) (StepSafe .rawBuffer)
      [.setArrayLength 17 true true (fun _ => some 5), .setArrayLength 18 false true (fun _ => none),
        .write 17 (some 7), .setArrayLength 17 false true (fun _ => none),
        .setArrayLength 20 false true (fun _ => none)]
      (empty none : FastModeStorage Nat) := by
  rw [run_safe_iff .rawBuffer none (.inl rfl)]
  decide +kernel

/-- Slot 17 is left behind by a shrink that keeps the capacity, and a grow to the
exact length shows it again. Rare data that says zero makes a shrink from 100 to
17 copy 100 elements into a buffer of 22. -/
theorem run_not_always_safe : ¬ Guarded (step .rawBuffer) (StepSafe .rawBuffer)
      [.setArrayLength 17 true true (fun _ => none), .setArrayLength 18 false true (fun _ => none),
        .write 17 (some 7), .setArrayLength 17 false true (fun _ => none),
        .setArrayLength 18 true true (fun _ => none)]
      (empty none : FastModeStorage Nat) ∧
    ¬ Guarded (step .rawBuffer) (StepSafe .rawBuffer)
      [.setArrayLength 17 true true (fun _ => none), .setArrayLength 18 false true (fun _ => none),
        .setArrayLength 100 true true (fun _ => none),
        .setArrayLength 17 false true (fun _ => none)]
      (empty none : FastModeStorage Nat) := by
  constructor
  · intro hsafe
    have hlast := ((((hsafe.tail rfl).tail rfl).tail rfl).tail rfl).head
    have hslot := hlast.1 17 (by decide +kernel) (by decide +kernel)
    revert hslot
    decide +kernel
  · intro hsafe
    have hlast := (((hsafe.tail rfl).tail rfl).tail rfl).head
    have hcopy := hlast.2 ⟨100, 22⟩ (by decide +kernel)
    revert hcopy
    decide +kernel

end FastModeStorage

end Escargot.Runtime
