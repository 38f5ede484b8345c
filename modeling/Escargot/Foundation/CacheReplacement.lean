/-
# Caches that forget

A cache answers a lookup with a value it was given earlier or misses; which
entries it still holds is up to its replacement policy. The reference records
every insertion. A policy is sound when a hit is some value recorded for
exactly the searched key, and recent when it is the one recorded last. Two
policies are developed: sets of two ways with promotion on a hit, and a single
set swept by a clock hand.
-/

import Escargot.Foundation.Run

namespace Escargot.Foundation

open List
open Function (update_apply update_of_ne update_self)

universe u v w

/-- The values inserted for each key, the last one first. -/
abbrev History (κ : Type u) (ν : Type v) := κ → List ν

variable {ν : Type v} (hit : Option ν) (past : List ν)

/-- A hit is a value that was inserted for the key. -/
def Hit.Sound : Prop :=
  ∀ value, hit = some value → value ∈ past

/-- A hit is the value that was inserted last for the key. -/
def Hit.Recent : Prop := hit = none ∨ hit = past.head?

inductive CacheOp (κ : Type u) (ν : Type v) (Policy : Type w)
  | lookup (key : κ)
  | insert (policy : Policy) (key : κ) (value : ν)
  | clear

section Reference

variable {κ : Type u} {ν : Type v} {Policy : Type w} [DecidableEq κ]
  (history : History κ ν) (key : κ) (value : ν)

/-- Record one more value for the key. -/
def History.record : History κ ν := Function.update history key (value :: history key)

@[simp]
theorem History.record_self : history.record key value key = value :: history key :=
  update_self _ _ _

theorem History.record_of_ne {key other : κ} (h : other ≠ key)
    (value : ν) : history.record key value other = history other :=
  update_of_ne h _ _

theorem History.mem_record {history : History κ ν} {key other : κ} {value old : ν}
    (h : old ∈ history other) : old ∈ history.record key value other := by
  by_cases hother : other = key
  · subst hother
    rw [record_self]
    exact mem_cons_of_mem value h
  · rwa [history.record_of_ne hother]

def History.step : CacheOp κ ν Policy → History κ ν × List ν
  | .lookup key => (history, history key)
  | .insert _ key value => (history.record key value, [])
  | .clear => (history, [])

end Reference

variable {ν : Type v} (past : List ν)

theorem Hit.sound_none : Hit.Sound none past := fun _ h => by cases h

theorem Hit.recent_none : Hit.Recent none past := Or.inl rfl

theorem Hit.recent_of_forall {hit : Option ν} {past : List ν}
    (h : ∀ value, hit = some value → past.head? = some value) : Hit.Recent hit past := by
  cases hit with
  | none => exact Hit.recent_none past
  | some value => exact Or.inr (h value rfl).symm

/-- Set `i` has the slots `2 * i` and `2 * i + 1`, each empty or a key with its value. -/
abbrev TwoWayCache (κ : Type u) (ν : Type v) := Nat → Option (κ × ν)

/-- A new entry replaces the second way, either directly or after the first way
has moved there. -/
inductive Admission
  | mru
  | probation

namespace TwoWayCache

variable {κ : Type u} {ν : Type v} [DecidableEq κ]

/-- The cache after its memory was cleared. -/
def empty : TwoWayCache κ ν := fun _ => none

/-- The value in one slot if the slot holds the key. -/
def way (cache : TwoWayCache κ ν) (i : Nat) (key : κ) : Option ν :=
  match cache i with
  | some (held, value) => if held = key then some value else none
  | none => none

/-- Exchange the two ways of the set whose first slot is `i`. -/
def swap (cache : TwoWayCache κ ν) (i : Nat) : TwoWayCache κ ν :=
  Function.update (Function.update cache i (cache (i + 1))) (i + 1) (cache i)

variable (set : κ → Nat)

/-- A hit in the second way is promoted to the first. -/
def lookup (cache : TwoWayCache κ ν) (key : κ) : TwoWayCache κ ν × Option ν :=
  match cache.way (set key * 2) key with
  | some value => (cache, some value)
  | none =>
    match cache.way (set key * 2 + 1) key with
    | some value => (cache.swap (set key * 2), some value)
    | none => (cache, none)

/-- The first way moves to the second, and the entry takes its place. -/
def insertMRU (cache : TwoWayCache κ ν) (key : κ) (value : ν) : TwoWayCache κ ν :=
  Function.update (Function.update cache (set key * 2 + 1) (cache (set key * 2))) (set key * 2)
    (some (key, value))

/-- The entry takes the second way. -/
def insertProbation (cache : TwoWayCache κ ν) (key : κ) (value : ν) : TwoWayCache κ ν :=
  Function.update cache (set key * 2 + 1) (some (key, value))

def insert (cache : TwoWayCache κ ν) : Admission → κ → ν → TwoWayCache κ ν
  | .mru => cache.insertMRU set
  | .probation => cache.insertProbation set

/-- One operation; only a lookup has an answer. -/
def step (cache : TwoWayCache κ ν) : CacheOp κ ν Admission → Option (TwoWayCache κ ν × Option ν)
  | .lookup key => some (cache.lookup set key)
  | .insert admission key value => some (cache.insert set admission key value, none)
  | .clear => some (empty, none)

def admits (cache : TwoWayCache κ ν) : CacheOp κ ν Admission → Prop
  | .insert .probation key _ => (cache.lookup set key).2 = none
  | _ => True

instance (cache : TwoWayCache κ ν) : ∀ op, Decidable (admits set cache op)
  | .insert .probation key _ => inferInstanceAs (Decidable ((cache.lookup set key).2 = none))
  | .insert .mru _ _ | .lookup _ | .clear => isTrue trivial

variable {set} {cache : TwoWayCache κ ν}

theorem way_eq_some {i : Nat} {key : κ} {value : ν} :
    cache.way i key = some value ↔ cache i = some (key, value) := by
  rw [way]
  cases h : cache i with
  | none => simp
  | some entry =>
    obtain ⟨held, stored⟩ := entry
    by_cases hheld : held = key
    · simp [hheld]
    · simp [hheld]

theorem lookup_cases (set : κ → Nat) (cache : TwoWayCache κ ν) (key : κ) :
    (∃ value, cache (set key * 2) = some (key, value) ∧
      cache.lookup set key = (cache, some value)) ∨
    ((∀ value, cache (set key * 2) ≠ some (key, value)) ∧
      ∃ value, cache (set key * 2 + 1) = some (key, value) ∧
        cache.lookup set key = (cache.swap (set key * 2), some value)) ∨
    ((∀ value, cache (set key * 2) ≠ some (key, value)) ∧
      (∀ value, cache (set key * 2 + 1) ≠ some (key, value)) ∧
      cache.lookup set key = (cache, none)) := by
  rw [lookup]
  cases hfirst : cache.way (set key * 2) key with
  | some value => exact Or.inl ⟨value, way_eq_some.mp hfirst, rfl⟩
  | none =>
    have hmiss : ∀ value, cache (set key * 2) ≠ some (key, value) := fun value h => by
      rw [way_eq_some.mpr h] at hfirst
      cases hfirst
    cases hsecond : cache.way (set key * 2 + 1) key with
    | some value => exact Or.inr (Or.inl ⟨hmiss, value, way_eq_some.mp hsecond, rfl⟩)
    | none =>
      refine Or.inr (Or.inr ⟨hmiss, fun value h => ?_, rfl⟩)
      rw [way_eq_some.mpr h] at hsecond
      cases hsecond

/-- Every entry of the cache satisfies `P`. -/
def All (P : κ → ν → Prop) (cache : TwoWayCache κ ν) : Prop :=
  ∀ i key value, cache i = some (key, value) → P key value

section All

variable {P : κ → ν → Prop}

section

omit [DecidableEq κ]

theorem all_empty : All P (empty : TwoWayCache κ ν) := fun _ _ _ h => by cases h

theorem All.update (hall : All P cache) {i : Nat} {entry : Option (κ × ν)}
    (hentry : ∀ key value, entry = some (key, value) → P key value) :
    All P (Function.update cache i entry) := by
  intro j key value h
  by_cases hj : j = i
  · subst hj
    rw [update_self] at h
    exact hentry key value h
  · rw [update_of_ne hj] at h
    exact hall j key value h

theorem All.insert (hall : All P cache) {key : κ} {value : ν} (h : P key value)
    (admission : Admission) : All P (cache.insert set admission key value) := by
  have hnew : ∀ other stored, some (key, value) = some (other, stored) → P other stored := by
    intro other stored heq
    cases heq
    exact h
  cases admission with
  | mru => exact (hall.update (hall _)).update hnew
  | probation => exact hall.update hnew

end

theorem All.lookup (set : κ → Nat) (hall : All P cache) (key : κ) : All P (cache.lookup set key).1 ∧
      ∀ value, (cache.lookup set key).2 = some value → P key value := by
  rcases lookup_cases set cache key with
    ⟨value, hfirst, hlookup⟩ | ⟨-, value, hsecond, hlookup⟩ | ⟨-, -, hlookup⟩
  · rw [hlookup]
    exact ⟨hall, fun _ h => Option.some.inj h ▸ hall _ _ _ hfirst⟩
  · rw [hlookup]
    exact ⟨(hall.update (hall _)).update (hall _), fun _ h => Option.some.inj h ▸ hall _ _ _ hsecond⟩
  · rw [hlookup]
    exact ⟨hall, fun _ h => by cases h⟩

end All

theorem sound_simulates (set : κ → Nat) :
    GuardedSimulation (step set) History.step (fun _ _ => True)
      (fun (cache : TwoWayCache κ ν) (history : History κ ν) =>
        cache.All fun key value => value ∈ history key) Hit.Sound := by
  refine ⟨fun {cache history op} hall _ => ?_⟩
  cases op with
  | lookup key =>
    obtain ⟨hnext, hhit⟩ := All.lookup set hall key
    exact ⟨_, _, rfl, hhit, hnext⟩
  | insert admission key value =>
    refine ⟨_, _, rfl, Hit.sound_none _, All.insert ?_ ?_ admission⟩
    · exact fun i other old h => History.mem_record (hall i other old h)
    · show value ∈ history.record key value key
      simp
  | clear => exact ⟨_, _, rfl, Hit.sound_none _, all_empty⟩

/-- An entry lies in the set of its key, and what a lookup of its key would find is
the value inserted last. -/
structure UpToDate (set : κ → Nat) (cache : TwoWayCache κ ν) (history : History κ ν) : Prop where
  home : ∀ i key value, cache i = some (key, value) → i / 2 = set key
  first : ∀ i key value, cache (i * 2) = some (key, value) → (history key).head? = some value
  second : ∀ i key value, cache (i * 2 + 1) = some (key, value) →
    (∀ other, cache (i * 2) ≠ some (key, other)) → (history key).head? = some value

section UpToDate

variable {history : History κ ν}

omit [DecidableEq κ] in
theorem upToDate_empty : UpToDate set (empty : TwoWayCache κ ν) history :=
  ⟨fun _ _ _ h => (by cases h), fun _ _ _ h => (by cases h), fun _ _ _ h _ => (by cases h)⟩

omit [DecidableEq κ] in
/-- The second way is promoted when the first does not hold its key. -/
theorem UpToDate.swap (hcache : UpToDate set cache history) {key : κ} {value : ν}
    (hother : ∀ stored, cache (set key * 2) ≠ some (key, stored))
    (hsecond : cache (set key * 2 + 1) = some (key, value)) :
    UpToDate set (cache.swap (set key * 2)) history := by
  constructor
  · intro i held stored h
    rw [TwoWayCache.swap, update_apply, update_apply] at h
    split at h
    · have := hcache.home _ _ _ h
      omega
    · split at h
      · have := hcache.home _ _ _ h
        omega
      · exact hcache.home _ _ _ h
  · intro i held stored h
    rw [TwoWayCache.swap, update_of_ne (by omega), update_apply] at h
    split at h
    · rw [hsecond] at h
      cases h
      exact hcache.second _ _ _ hsecond hother
    · exact hcache.first _ _ _ h
  · intro i held stored h hfree
    rw [TwoWayCache.swap, update_apply] at h
    split at h
    · exact hcache.first _ _ _ h
    · rename_i hi
      rw [update_of_ne (by omega)] at h
      refine hcache.second _ _ _ h fun other hsame => hfree other ?_
      rw [TwoWayCache.swap, update_of_ne (by omega), update_of_ne (by omega)]
      exact hsame

theorem UpToDate.lookup (hcache : UpToDate set cache history) (key : κ) :
    Hit.Recent (cache.lookup set key).2 (history key) ∧
      UpToDate set (cache.lookup set key).1 history := by
  rcases lookup_cases set cache key with
    ⟨value, hfirst, hlookup⟩ | ⟨hother, value, hsecond, hlookup⟩ | ⟨-, -, hlookup⟩
  · rw [hlookup]
    exact ⟨Or.inr (hcache.first _ _ _ hfirst).symm, hcache⟩
  · rw [hlookup]
    exact ⟨Or.inr (hcache.second _ _ _ hsecond hother).symm, hcache.swap hother hsecond⟩
  · rw [hlookup]
    exact ⟨Hit.recent_none _, hcache⟩

theorem head?_record_of_ne {key other : κ} {value stored : ν} (h : other ≠ key)
    (hhead : (history other).head? = some stored) :
    (history.record key value other).head? = some stored := by
  rwa [history.record_of_ne h]

theorem UpToDate.insertMRU (hcache : UpToDate set cache history) (key : κ) (value : ν) :
    UpToDate set (cache.insertMRU set key value) (history.record key value) := by
  constructor
  · intro i held stored h
    rw [TwoWayCache.insertMRU, update_apply, update_apply] at h
    split at h
    · cases h
      omega
    · split at h
      · have := hcache.home _ _ _ h
        omega
      · exact hcache.home _ _ _ h
  · intro i held stored h
    rw [TwoWayCache.insertMRU, update_apply] at h
    split at h
    · cases h
      simp
    · rename_i hi
      rw [update_of_ne (by omega)] at h
      refine head?_record_of_ne ?_ (hcache.first _ _ _ h)
      rintro rfl
      have := hcache.home _ _ _ h
      omega
  · intro i held stored h hfree
    rw [TwoWayCache.insertMRU, update_of_ne (by omega), update_apply] at h
    have hset : i = set key → held ≠ key := by
      rintro rfl rfl
      exact hfree value (update_self _ _ _)
    split at h
    · rename_i hi
      exact head?_record_of_ne (hset (by omega)) (hcache.first _ _ _ h)
    · rename_i hi
      have hne : held ≠ key := by
        rintro rfl
        have := hcache.home _ _ _ h
        omega
      refine head?_record_of_ne hne (hcache.second _ _ _ h fun other hsame => hfree other ?_)
      rw [TwoWayCache.insertMRU, update_of_ne (by omega), update_of_ne (by omega)]
      exact hsame

theorem UpToDate.insertProbation (hcache : UpToDate set cache history) {key : κ}
    (hmiss : (cache.lookup set key).2 = none) (value : ν) :
    UpToDate set (cache.insertProbation set key value) (history.record key value) := by
  have hfirst : ∀ stored, cache (set key * 2) ≠ some (key, stored) := by
    rcases lookup_cases set cache key with
      ⟨_, -, hlookup⟩ | ⟨-, _, -, hlookup⟩ | ⟨hfirst, -, -⟩
    · rw [hlookup] at hmiss
      cases hmiss
    · rw [hlookup] at hmiss
      cases hmiss
    · exact hfirst
  constructor
  · intro i held stored h
    rw [TwoWayCache.insertProbation, update_apply] at h
    split at h
    · cases h
      omega
    · exact hcache.home _ _ _ h
  · intro i held stored h
    rw [TwoWayCache.insertProbation, update_of_ne (by omega)] at h
    refine head?_record_of_ne ?_ (hcache.first _ _ _ h)
    rintro rfl
    have hi : i = set held := by
      have := hcache.home _ _ _ h
      omega
    exact hfirst stored (hi ▸ h)
  · intro i held stored h hfree
    rw [TwoWayCache.insertProbation, update_apply] at h
    split at h
    · cases h
      simp
    · have hne : held ≠ key := by
        rintro rfl
        have := hcache.home _ _ _ h
        omega
      refine head?_record_of_ne hne (hcache.second _ _ _ h fun other hsame => hfree other ?_)
      rw [TwoWayCache.insertProbation, update_of_ne (by omega)]
      exact hsame

end UpToDate

theorem recent_simulates (set : κ → Nat) : GuardedSimulation (step set) History.step (admits set)
      (fun (cache : TwoWayCache κ ν) (history : History κ ν) => UpToDate set cache history)
      Hit.Recent := by
  refine ⟨fun {cache history op} hcache hadmits => ?_⟩
  cases op with
  | lookup key =>
    obtain ⟨hhit, hnext⟩ := hcache.lookup key
    exact ⟨_, _, rfl, hhit, hnext⟩
  | insert admission key value =>
    refine ⟨_, _, rfl, Hit.recent_none _, ?_⟩
    cases admission with
    | mru => exact hcache.insertMRU key value
    | probation => exact hcache.insertProbation hadmits value
  | clear => exact ⟨_, _, rfl, Hit.recent_none _, upToDate_empty⟩

/-- For every sequence of operations: a hit was inserted for exactly the searched key,
and it is the value inserted last when probation only admits keys that missed. -/
def AnswersLastInserted (ν : Type v) (set : κ → Nat) : Prop :=
  ∀ ops : List (CacheOp κ ν Admission), ∃ last answers,
    run (step set) ops empty = some (last, answers) ∧ List.Forall₂ Hit.Sound answers
        (referenceRun History.step ops (fun _ => [] : History κ ν)).2 ∧
      (Guarded (step set) (admits set) ops empty → List.Forall₂ Hit.Recent answers
          (referenceRun History.step ops (fun _ => [] : History κ ν)).2)

theorem answersLastInserted (set : κ → Nat) : AnswersLastInserted ν set := by
  intro ops
  obtain ⟨last, answers, hrun, hsound, -⟩ :=
    (sound_simulates set).run_related ops all_empty
      (Guarded.of_forall (fun _ _ => trivial) ops _)
  refine ⟨last, answers, hrun, hsound, fun hadmits => ?_⟩
  obtain ⟨_, _, hrun', hrecent, -⟩ := (recent_simulates set).run_related ops upToDate_empty hadmits
  cases hrun.symm.trans hrun'
  exact hrecent

/-- The cache is in a state that callers who only put missed keys on probation can
bring about. -/
def InUse (set : κ → Nat) (cache : TwoWayCache κ ν) : Prop :=
  ReachedBy (step set) (admits set) empty cache

theorem InUse.lookup (hcache : InUse set cache) (key : κ) : InUse set (cache.lookup set key).1 :=
  ReachedBy.next hcache (.lookup key) trivial rfl

theorem InUse.insertMRU (hcache : InUse set cache) (key : κ) (value : ν) :
    InUse set (cache.insertMRU set key value) :=
  ReachedBy.next hcache (.insert .mru key value) trivial rfl

theorem InUse.insertProbation (hcache : InUse set cache) {key : κ}
    (hmiss : (cache.lookup set key).2 = none) (value : ν) :
    InUse set (cache.insertProbation set key value) :=
  ReachedBy.next hcache (.insert .probation key value) hmiss rfl

theorem lookup_of_miss {key : κ} (hmiss : (cache.lookup set key).2 = none) :
    (cache.lookup set key).1 = cache := by
  rcases lookup_cases set cache key with
    ⟨_, -, hlookup⟩ | ⟨-, _, -, hlookup⟩ | ⟨-, -, hlookup⟩
  · rw [hlookup] at hmiss
    cases hmiss
  · rw [hlookup] at hmiss
    cases hmiss
  · rw [hlookup]

end TwoWayCache

/-- A slot is empty or holds a key with its value, and has a reference bit. -/
structure ClockSlot (κ : Type u) (ν : Type v) where
  entry : Option (κ × ν)
  used : Bool

/-- A fixed number of slots and a hand on one of them. -/
structure ClockCache (κ : Type u) (ν : Type v) (ways : Nat) where
  slots : Fin ways → ClockSlot κ ν
  hand : Fin ways

namespace ClockCache

variable {κ : Type u} {ν : Type v} {ways : Nat}

/-- The slot after `i`, around the clock. -/
def next (i : Fin ways) : Fin ways := ⟨(i + 1) % ways, Nat.mod_lt _ (Nat.zero_lt_of_lt i.isLt)⟩

/-- Write the reference bit of a slot. -/
def mark (cache : ClockCache κ ν ways) (i : Fin ways) (used : Bool) : ClockCache κ ν ways :=
  { cache with slots := Function.update cache.slots i { cache.slots i with used := used } }

def create (hways : 0 < ways) : ClockCache κ ν ways where
  slots := fun _ => ⟨none, false⟩
  hand := ⟨0, hways⟩

/-- Every slot is empty, and the hand is on the first. -/
def clear (cache : ClockCache κ ν ways) : ClockCache κ ν ways :=
  create (Nat.zero_lt_of_lt cache.hand.isLt)

/-- The sweep: every used slot loses its reference bit until the hand is on a slot
that had none. `none` when the fuel does not suffice. -/
def sweep : Nat → ClockCache κ ν ways → Option (ClockCache κ ν ways)
  | 0, _ => none
  | fuel + 1, cache =>
    if (cache.slots cache.hand).used then
      sweep fuel { cache.mark cache.hand false with hand := next cache.hand }
    else some cache

/-- Sweep, then write the slot under the hand and move on. -/
def insert (fuel : Nat) (cache : ClockCache κ ν ways) (key : κ) (value : ν) :
    Option (ClockCache κ ν ways) :=
  (sweep fuel cache).map fun swept =>
    { slots := Function.update swept.slots swept.hand ⟨some (key, value), true⟩
      hand := next swept.hand }

/-- The number of slots with a reference bit. -/
def usedCount (cache : ClockCache κ ν ways) : Nat :=
  (Finset.univ.filter fun i => (cache.slots i).used = true).card

variable (cache : ClockCache κ ν ways)

theorem usedCount_le : cache.usedCount ≤ ways :=
  (Finset.card_le_univ _).trans_eq (Fintype.card_fin ways)

theorem usedCount_mark_lt {cache : ClockCache κ ν ways} {i : Fin ways}
    (hused : (cache.slots i).used = true) : (cache.mark i false).usedCount < cache.usedCount := by
  apply Finset.card_lt_card
  rw [Finset.ssubset_iff_of_subset]
  · refine ⟨i, by simpa using hused, ?_⟩
    rw [Finset.mem_filter, mark]
    simp
  · intro j hj
    rw [Finset.mem_filter] at hj ⊢
    by_cases hji : j = i
    · exact ⟨hj.1, hji ▸ hused⟩
    · refine ⟨hj.1, ?_⟩
      rw [mark] at hj
      simpa [update_of_ne hji] using hj.2

def SameEntries (before after : ClockCache κ ν ways) : Prop :=
  ∀ i, (after.slots i).entry = (before.slots i).entry

theorem sameEntries_mark (i : Fin ways) (used : Bool) : SameEntries cache (cache.mark i used) := by
  intro j
  rw [mark]
  dsimp only
  by_cases hji : j = i
  · rw [hji, update_self]
  · rw [update_of_ne hji]

/-- The sweep ends once every used slot has been passed, on a slot without a
reference bit, and moves no entry. More fuel changes nothing. -/
theorem sweep_spec : ∀ {count : Nat} {cache : ClockCache κ ν ways}, cache.usedCount ≤ count →
    ∃ swept, (∀ fuel, count < fuel → sweep fuel cache = some swept) ∧
      (swept.slots swept.hand).used = false ∧ SameEntries cache swept
  | count, cache, hcount => by
      cases hused : (cache.slots cache.hand).used with
      | false =>
        refine ⟨cache, fun fuel hfuel => ?_, hused, fun _ => rfl⟩
        obtain ⟨n, rfl⟩ := Nat.exists_eq_succ_of_ne_zero (Nat.ne_of_gt (Nat.zero_lt_of_lt hfuel))
        rw [sweep, hused]
        rfl
      | true =>
        have hless : (cache.mark cache.hand false).usedCount < count :=
          Nat.lt_of_lt_of_le (usedCount_mark_lt hused) hcount
        cases count with
        | zero => exact absurd hless (Nat.not_lt_zero _)
        | succ count =>
          obtain ⟨swept, hswept, hfree, hsame⟩ :=
            @sweep_spec count { cache.mark cache.hand false with hand := next cache.hand }
              (Nat.le_of_lt_succ hless)
          refine ⟨swept, fun fuel hfuel => ?_, hfree, fun i => ?_⟩
          · obtain ⟨n, rfl⟩ :=
              Nat.exists_eq_succ_of_ne_zero (Nat.ne_of_gt (Nat.zero_lt_of_lt hfuel))
            rw [sweep, if_pos hused]
            exact hswept n (Nat.lt_of_succ_lt_succ hfuel)
          · rw [hsame i]
            exact sameEntries_mark cache cache.hand false i

theorem insert_spec (key : κ) (value : ν) :
    ∃ after, (∀ fuel, ways < fuel → insert fuel cache key value = some after) ∧
      ∃ victim : Fin ways, (after.slots victim).entry = some (key, value) ∧
        ∀ i, i ≠ victim → (after.slots i).entry = (cache.slots i).entry := by
  obtain ⟨swept, hswept, -, hsame⟩ := sweep_spec cache.usedCount_le
  refine ⟨_, fun fuel hfuel => by rw [insert, hswept fuel hfuel]; rfl, swept.hand, ?_, ?_⟩
  · show (Function.update swept.slots swept.hand ⟨some (key, value), true⟩ swept.hand).entry = _
    rw [update_self]
  · intro i hi
    show (Function.update swept.slots swept.hand ⟨some (key, value), true⟩ i).entry = _
    rw [update_of_ne hi]
    exact hsame i

variable [DecidableEq κ]

def holds (slot : ClockSlot κ ν) (key : κ) : Bool := slot.entry.map Prod.fst = some key

/-- The first slot with the key; a hit sets its reference bit. -/
def lookup (cache : ClockCache κ ν ways) (key : κ) : ClockCache κ ν ways × Option ν :=
  match (List.finRange ways).find? fun i => holds (cache.slots i) key with
  | some i => (cache.mark i true, (cache.slots i).entry.map Prod.snd)
  | none => (cache, none)

/-- One operation; only a lookup has an answer. The sweep gets one step more than
there are slots. -/
def step (cache : ClockCache κ ν ways) : CacheOp κ ν Unit → Option (ClockCache κ ν ways × Option ν)
  | .lookup key => some (cache.lookup key)
  | .insert _ key value => (cache.insert (ways + 1) key value).map fun after => (after, none)
  | .clear => some (cache.clear, none)

def admits (cache : ClockCache κ ν ways) : CacheOp κ ν Unit → Prop
  | .insert _ key _ => (cache.lookup key).2 = none
  | _ => True

theorem lookup_cases (key : κ) : (∃ i value, (cache.slots i).entry = some (key, value) ∧
      cache.lookup key = (cache.mark i true, some value)) ∨
    ((∀ i value, (cache.slots i).entry ≠ some (key, value)) ∧
      cache.lookup key = (cache, none)) := by
  rw [lookup]
  cases hfind : (List.finRange ways).find? fun i => holds (cache.slots i) key with
  | some i =>
    have hholds : (cache.slots i).entry.map Prod.fst = some key := by
      simpa [holds] using find?_some hfind
    obtain ⟨⟨held, value⟩, hentry, rfl⟩ := Option.map_eq_some_iff.mp hholds
    refine Or.inl ⟨i, value, hentry, ?_⟩
    show (cache.mark i true, (cache.slots i).entry.map Prod.snd) = (cache.mark i true, some value)
    rw [hentry]
    rfl
  | none =>
    refine Or.inr ⟨fun i value hentry => ?_, rfl⟩
    have hmiss := List.find?_eq_none.mp hfind i (mem_finRange i)
    simp [holds, hentry] at hmiss

/-- Every entry of the cache satisfies `P`. -/
def All (P : κ → ν → Prop) (cache : ClockCache κ ν ways) : Prop :=
  ∀ i key value, (cache.slots i).entry = some (key, value) → P key value

section All

variable {P : κ → ν → Prop} {cache : ClockCache κ ν ways}

omit [DecidableEq κ] in
theorem all_create (hways : 0 < ways) : All P (create hways : ClockCache κ ν ways) :=
  fun _ _ _ h => by cases h

theorem All.lookup (hall : All P cache) (key : κ) :
    All P (cache.lookup key).1 ∧ ∀ value, (cache.lookup key).2 = some value → P key value := by
  rcases lookup_cases cache key with ⟨i, value, hentry, hlookup⟩ | ⟨-, hlookup⟩
  · rw [hlookup]
    refine ⟨fun j held stored h => ?_, fun _ h => Option.some.inj h ▸ hall i key value hentry⟩
    rw [sameEntries_mark] at h
    exact hall j held stored h
  · rw [hlookup]
    exact ⟨hall, fun _ h => by cases h⟩

omit [DecidableEq κ] in
theorem All.insert (hall : All P cache) (key : κ) (value : ν) (hnew : P key value) :
    ∃ after, (∀ fuel, ways < fuel → cache.insert fuel key value = some after) ∧ All P after := by
  obtain ⟨after, hinsert, victim, hvictim, hothers⟩ := insert_spec cache key value
  refine ⟨after, hinsert, fun i held stored h => ?_⟩
  by_cases hi : i = victim
  · rw [hi, hvictim] at h
    cases h
    exact hnew
  · rw [hothers i hi] at h
    exact hall i held stored h

end All

theorem sound_simulates : GuardedSimulation step History.step (fun _ _ => True)
      (fun (cache : ClockCache κ ν ways) (history : History κ ν) =>
        cache.All fun key value => value ∈ history key) Hit.Sound := by
  refine ⟨fun {cache history op} hall _ => ?_⟩
  cases op with
  | lookup key =>
    obtain ⟨hnext, hhit⟩ := hall.lookup key
    exact ⟨_, _, rfl, hhit, hnext⟩
  | insert policy key value =>
    have hold : cache.All fun other old => old ∈ history.record key value other :=
      fun i other old h => History.mem_record (hall i other old h)
    obtain ⟨after, hinsert, hafter⟩ := hold.insert key value (by simp)
    refine ⟨after, none, ?_, Hit.sound_none _, hafter⟩
    rw [step, hinsert _ (Nat.lt_succ_self ways)]
    rfl
  | clear => exact ⟨_, _, rfl, Hit.sound_none _, all_create _⟩

theorem recent_simulates : GuardedSimulation step History.step admits
      (fun (cache : ClockCache κ ν ways) (history : History κ ν) =>
        cache.All fun key value => (history key).head? = some value) Hit.Recent := by
  refine ⟨fun {cache history op} hall hadmits => ?_⟩
  cases op with
  | lookup key =>
    obtain ⟨hnext, hhit⟩ := hall.lookup key
    exact ⟨_, _, rfl, Hit.recent_of_forall hhit, hnext⟩
  | insert policy key value =>
    have hmiss : ∀ i stored, (cache.slots i).entry ≠ some (key, stored) := by
      rcases lookup_cases cache key with ⟨i, stored, -, hlookup⟩ | ⟨hmiss, -⟩
      · rw [admits, hlookup] at hadmits
        cases hadmits
      · exact hmiss
    have hold : cache.All fun other old =>
        (history.record key value other).head? = some old := by
      intro i other old h
      have hne : other ≠ key := by
        rintro rfl
        exact hmiss i old h
      rw [history.record_of_ne hne]
      exact hall i other old h
    obtain ⟨after, hinsert, hafter⟩ := hold.insert key value (by simp)
    refine ⟨after, none, ?_, Hit.recent_none _, hafter⟩
    rw [step, hinsert _ (Nat.lt_succ_self ways)]
    rfl
  | clear => exact ⟨_, _, rfl, Hit.recent_none _, all_create _⟩

/-- For every sequence of operations: it ends, a hit was inserted for exactly the
searched key, and it is the value inserted last when only missed keys are inserted. -/
def AnswersLastInserted (κ : Type u) (ν : Type v) [DecidableEq κ] (ways : Nat) : Prop :=
  ∀ (hways : 0 < ways) (ops : List (CacheOp κ ν Unit)), ∃ last answers,
    run step ops (create hways : ClockCache κ ν ways) = some (last, answers) ∧
      List.Forall₂ Hit.Sound answers
        (referenceRun History.step ops (fun _ => [] : History κ ν)).2 ∧
      (Guarded step admits ops (create hways : ClockCache κ ν ways) →
        List.Forall₂ Hit.Recent answers
          (referenceRun History.step ops (fun _ => [] : History κ ν)).2)

theorem answersLastInserted : AnswersLastInserted κ ν ways := by
  intro hways ops
  obtain ⟨last, answers, hrun, hsound, -⟩ :=
    sound_simulates.run_related ops (all_create hways)
      (Guarded.of_forall (fun _ _ => trivial) ops _)
  refine ⟨last, answers, hrun, hsound, fun hadmits => ?_⟩
  obtain ⟨_, _, hrun', hrecent, -⟩ := recent_simulates.run_related ops (all_create hways) hadmits
  cases hrun.symm.trans hrun'
  exact hrecent

end ClockCache

end Escargot.Foundation
