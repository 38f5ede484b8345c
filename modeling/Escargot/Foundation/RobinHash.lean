/-
# Robin hood hashing

The open-addressing table of the vendored `tsl::robin_hash`, with the
power-of-two growth policy and a maximal load of one half. A bucket stores its
entry together with the distance from the entry's ideal bucket; a search stops
at the first bucket whose distance is smaller than its own, and an insertion
steals that bucket and moves its entry on. The library is generic in the entry
type; hashes and comparisons are parameters of the operations, as a caller may
search with a key that is no entry.
-/

import Escargot.Foundation.LinearProbing

namespace Escargot.Foundation

open List
open Function (update_of_ne update_self)

/-- `robin_hash`: a bucket is empty or holds an entry and its
`dist_from_ideal_bucket`. A table of no buckets reads the one static empty
bucket. -/
structure RobinTable (ε : Type*) where
  bucketCount : Nat
  buckets : Nat → Option (ε × Nat)
  size : Nat
  growOnNextInsert : Bool

namespace RobinTable

variable {ε : Type*}

/-- A table constructed with `DEFAULT_INIT_BUCKETS_SIZE`, which is zero. -/
def empty : RobinTable ε := ⟨0, fun _ => none, 0, false⟩

/-- `reserve` on a table without entries: at a maximal load of one half it takes
twice the count of buckets, rounded up to a power of two. -/
def reserved (count : Nat) : RobinTable ε :=
  ⟨if count = 0 then 0 else 2 ^ (Nat.log 2 (2 * count - 1) + 1), fun _ => none, 0, false⟩

variable (hash : ε → Nat) (hit : ε → Bool) (entry : ε) (table : RobinTable ε)

/-- `m_mask` of the growth policy. -/
def mask : Nat := table.bucketCount - 1

/-- `bucket_for_hash`. -/
def bucketForHash (hash : Nat) : Nat := hash &&& table.mask

/-- `DIST_FROM_IDEAL_BUCKET_LIMIT`. -/
def distanceLimit : Nat := 8192

/-- `m_load_threshold` for the default maximal load factor `0.5f`. -/
def loadThreshold : Nat := table.bucketCount / 2

/-- How a search ends. -/
inductive Seek (ε : Type*)
  | found (entry : ε)
  | stopped (ibucket dist : Nat)

/-- The loop of `find_impl` and of `insert_impl`. -/
def seek (table : RobinTable ε) (hit : ε → Bool) : Nat → Nat → Nat → Seek ε
  | 0, ibucket, dist => .stopped ibucket dist
  | fuel + 1, ibucket, dist =>
    match table.buckets ibucket with
    | none => .stopped ibucket dist
    | some (entry, entryDist) =>
      if entryDist < dist then .stopped ibucket dist
      else if hit entry then .found entry
      else table.seek hit fuel (nextSlot table.mask ibucket) (dist + 1)

/-- `find_impl`; the loop is over after at most one turn. -/
def find (hash : Nat) (hit : ε → Bool) : Option ε :=
  match table.seek hit table.bucketCount (table.bucketForHash hash) 0 with
  | .found entry => some entry
  | .stopped _ _ => none

/-- `insert_value_impl` and `insert_value_on_rehash`: the carried entry takes the
first bucket whose entry is closer to its ideal bucket, and that entry is
carried on. Only the former asks for a growth when a distance gets too large. -/
def place (watch : Bool) : Nat → Nat → Nat → ε → RobinTable ε → Option (RobinTable ε)
  | 0, _, _, _, _ => none
  | fuel + 1, ibucket, dist, entry, table =>
    match table.buckets ibucket with
    | none =>
      some { table with buckets := Function.update table.buckets ibucket (some (entry, dist)) }
    | some (other, otherDist) =>
      if otherDist < dist then
        place watch fuel (nextSlot table.mask ibucket) (otherDist + 1) other
          { table with
            buckets := Function.update table.buckets ibucket (some (entry, dist))
            growOnNextInsert := table.growOnNextInsert || (watch && decide (distanceLimit < dist)) }
      else place watch fuel (nextSlot table.mask ibucket) (dist + 1) entry table

/-- The entries in the order of their buckets. -/
def entries : List ε := ((List.range table.bucketCount).filterMap table.buckets).map Prod.fst

/-- The loop of `rehash_impl` over the entries of the old table. -/
def placeAll (hash : ε → Nat) : List ε → RobinTable ε → Option (RobinTable ε)
  | [], table => some table
  | entry :: rest, table =>
    match place false table.bucketCount (table.bucketForHash (hash entry)) 0 entry table with
    | none => none
    | some table => placeAll hash rest table

/-- `rehash_impl` into twice the buckets: `next_bucket_count` of a table without
buckets is two, as its mask is zero. -/
def rehash : Option (RobinTable ε) :=
  (placeAll hash table.entries ⟨(table.mask + 1) * 2, fun _ => none, 0, false⟩).map
    fun grown => { grown with size := table.size, growOnNextInsert := false }

/-- The loop around `rehash_on_extreme_load`. After 64 doublings the bucket count
exceeds every `size_t` and the process is terminated. -/
def settle (hash : ε → Nat) (keyHash : Nat) : Nat → RobinTable ε → Nat → Nat →
    Option (RobinTable ε × Nat × Nat)
  | 0, _, _, _ => none
  | fuel + 1, table, ibucket, dist =>
    if table.growOnNextInsert || decide (distanceLimit < dist) ||
        decide (table.loadThreshold ≤ table.size) then
      match table.rehash hash with
      | none => none
      | some grown =>
        match grown.seek (fun _ => false) grown.bucketCount (grown.bucketForHash keyHash) 0 with
        | .found _ => none
        | .stopped ibucket dist => settle hash keyHash fuel grown ibucket dist
    else some (table, ibucket, dist)

/-- `insert_impl`: an entry equal to the new one is kept instead of it. -/
def insert : Option (RobinTable ε) :=
  match table.seek hit table.bucketCount (table.bucketForHash (hash entry)) 0 with
  | .found _ => some table
  | .stopped ibucket dist =>
    match settle hash (hash entry) 64 table ibucket dist with
    | none => none
    | some (table, ibucket, dist) =>
      (place true table.bucketCount ibucket dist entry table).map
        fun table => { table with size := table.size + 1 }

variable (n : Nat) (buckets : Nat → Option (ε × Nat))

/-- The entry is in one of the first `n` buckets. -/
def StoredIn (entry : ε) : Prop :=
  ∃ i < n, ∃ dist, buckets i = some (entry, dist)

def Stored (entry : ε) : Prop := StoredIn table.bucketCount table.buckets entry

/-- The bucket is occupied by an entry at least `dist` away from home. -/
def AtLeast (i dist : Nat) : Prop :=
  ∃ entry far, buckets i = some (entry, far) ∧ dist ≤ far

/-- Entries stand at their recorded distance, and the bucket before an entry
away from home is at least as far from home, up to one. -/
structure Placed (hash : ε → Nat) (n : Nat) (buckets : Nat → Option (ε × Nat)) : Prop where
  home : ∀ {i entry dist}, i < n → buckets i = some (entry, dist) → slot n (hash entry) dist = i
  chained : ∀ {i entry dist}, i < n → buckets (slot n i 1) = some (entry, dist + 1) →
    AtLeast buckets i dist

section Order

variable {hash : ε → Nat} {n : Nat} {buckets : Nat → Option (ε × Nat)}

theorem Placed.walk (hplaced : Placed hash n buckets) (hn : 0 < n) {home k : Nat}
    (hfar : AtLeast buckets (slot n home k) k) :
    ∀ j ≤ k, AtLeast buckets (slot n home j) j := by
  induction k with
  | zero =>
    intro j hj
    rwa [Nat.le_zero.mp hj]
  | succ k ih =>
    intro j hj
    rcases Nat.lt_or_ge j (k + 1) with hlt | hge
    · refine ih ?_ j (Nat.le_of_lt_succ hlt)
      obtain ⟨entry, far, hentry, hle⟩ := hfar
      obtain ⟨dist, rfl⟩ : ∃ dist, far = dist + 1 := ⟨far - 1, by omega⟩
      rw [slot_succ] at hentry
      obtain ⟨other, otherFar, hother, hotherle⟩ := hplaced.chained (slot_lt hn home k) hentry
      exact ⟨other, otherFar, hother, by omega⟩
    · rwa [Nat.le_antisymm hj hge]

/-- Writing an entry at its place, over nothing or over an entry closer to home,
keeps the order. -/
theorem Placed.update (hplaced : Placed hash n buckets) {i dist : Nat} {entry : ε}
    (hhome : slot n (hash entry) dist = i)
    (hbefore : ∀ {j d}, j < n → slot n j 1 = i → dist = d + 1 → AtLeast buckets j d)
    (hcloser : ∀ {other far}, buckets i = some (other, far) → far ≤ dist) :
    Placed hash n (Function.update buckets i (some (entry, dist))) := by
  have hkeep : ∀ {j d}, AtLeast buckets j d →
      AtLeast (Function.update buckets i (some (entry, dist))) j d := by
    rintro j d ⟨other, far, hother, hle⟩
    by_cases hj : j = i
    · subst hj
      exact ⟨entry, dist, update_self _ _ _, Nat.le_trans hle (hcloser hother)⟩
    · exact ⟨other, far, by rwa [update_of_ne hj], hle⟩
  constructor
  · intro j other far hj hget
    by_cases hji : j = i
    · subst hji
      rw [update_self] at hget
      cases hget
      exact hhome
    · rw [update_of_ne hji] at hget
      exact hplaced.home hj hget
  · intro j other d hj hget
    apply hkeep
    by_cases hji : slot n j 1 = i
    · rw [hji, update_self] at hget
      cases hget
      exact hbefore hj hji rfl
    · rw [update_of_ne hji] at hget
      exact hplaced.chained hj hget

end Order

/-- The number of buckets: none, or a power of two. -/
def BucketsPow (table : RobinTable ε) : Prop := ∃ p, 1 ≤ p ∧ table.bucketCount = 2 ^ p

section Search

variable {hash : ε → Nat} {table : RobinTable ε} {hit : ε → Bool}

theorem nextSlot_mask (hpow : table.BucketsPow) {i : Nat} :
    nextSlot table.mask i = slot table.bucketCount i 1 := by
  obtain ⟨p, -, hp⟩ := hpow
  rw [nextSlot, mask, hp, Nat.and_two_pow_sub_one_eq_mod, slot]

theorem bucketForHash_eq (hpow : table.BucketsPow) (keyHash : Nat) :
    table.bucketForHash keyHash = slot table.bucketCount keyHash 0 := by
  obtain ⟨p, -, hp⟩ := hpow
  rw [bucketForHash, mask, hp, Nat.and_two_pow_sub_one_eq_mod, slot, Nat.add_zero]

theorem bucketCount_pos (hpow : table.BucketsPow) : 0 < table.bucketCount := by
  obtain ⟨p, -, hp⟩ := hpow
  rw [hp]
  exact Nat.two_pow_pos p

/-- What a search that started at `keyHash` has seen when it ends. -/
def SeekSpec (table : RobinTable ε) (hit : ε → Bool) (keyHash : Nat) : Seek ε → Prop
  | .found entry => hit entry = true ∧ table.Stored entry
  | .stopped ibucket dist =>
    ibucket = slot table.bucketCount keyHash dist ∧ dist < table.bucketCount ∧
      ¬ AtLeast table.buckets ibucket dist ∧
      ∀ j < dist, ∃ entry far,
        table.buckets (slot table.bucketCount keyHash j) = some (entry, far) ∧ j ≤ far ∧
          hit entry = false

theorem seek_spec (hpow : table.BucketsPow) {keyHash k : Nat} (hk : k < table.bucketCount)
    (hempty : table.buckets (slot table.bucketCount keyHash k) = none) :
    ∀ (fuel dist : Nat), dist ≤ k → k < dist + fuel → (∀ j < dist, ∃ entry far,
        table.buckets (slot table.bucketCount keyHash j) = some (entry, far) ∧ j ≤ far ∧
          hit entry = false) →
      SeekSpec table hit keyHash
        (table.seek hit fuel (slot table.bucketCount keyHash dist) dist) := by
  intro fuel
  induction fuel with
  | zero => intro dist hle hlt; omega
  | succ fuel ih =>
    intro dist hle hlt hseen
    rw [seek]
    cases hbucket : table.buckets (slot table.bucketCount keyHash dist) with
    | none =>
      refine ⟨rfl, by omega, ?_, hseen⟩
      rintro ⟨entry, far, hentry, -⟩
      rw [hbucket] at hentry
      cases hentry
    | some pair =>
      obtain ⟨entry, far⟩ := pair
      dsimp only
      have hne : dist ≠ k := by
        rintro rfl
        rw [hempty] at hbucket
        cases hbucket
      by_cases hfar : far < dist
      · rw [if_pos hfar]
        refine ⟨rfl, by omega, ?_, hseen⟩
        rintro ⟨other, otherFar, hother, hotherle⟩
        rw [hbucket] at hother
        cases hother
        omega
      · rw [if_neg hfar]
        cases hhit : hit entry with
        | true => exact ⟨hhit, _, slot_lt (bucketCount_pos hpow) _ _, far, hbucket⟩
        | false =>
          rw [if_neg Bool.false_ne_true, nextSlot_mask hpow, ← slot_succ]
          refine ih (dist + 1) (by omega) (by omega) fun j hj => ?_
          rcases Nat.lt_or_ge j dist with hjd | hjd
          · exact hseen j hjd
          · obtain rfl : j = dist := by omega
            exact ⟨entry, far, hbucket, by omega, hhit⟩

end Search

/-- A table as the operations leave it. -/
structure Valid (hash : ε → Nat) (table : RobinTable ε) : Prop where
  shape : table = empty ∨ table.BucketsPow
  placed : Placed hash table.bucketCount table.buckets
  size_eq : occupiedCount Option.isNone table.bucketCount table.buckets = table.size
  load : table.size ≤ table.loadThreshold

theorem valid_empty (hash : ε → Nat) : Valid hash empty where
  shape := Or.inl rfl
  placed := ⟨fun hi => absurd hi (Nat.not_lt_zero _), fun hi => absurd hi (Nat.not_lt_zero _)⟩
  size_eq := rfl
  load := Nat.zero_le _

theorem valid_reserved (hash : ε → Nat) (count : Nat) : Valid hash (reserved count : RobinTable ε) ∧
      ∀ entry, ¬ (reserved count : RobinTable ε).Stored entry := by
  refine ⟨⟨?_, ⟨?_, ?_⟩, ?_, Nat.zero_le _⟩, ?_⟩
  · by_cases hcount : count = 0
    · subst hcount
      exact Or.inl rfl
    · exact Or.inr ⟨Nat.log 2 (2 * count - 1) + 1, Nat.succ_pos _, if_neg hcount⟩
  · intro i entry dist _ hget
    cases hget
  · intro i entry dist _ hget
    cases hget
  · apply Finset.card_eq_zero.mpr
    exact Finset.filter_false_of_mem fun i _ => by simp [reserved]
  · rintro entry ⟨i, -, dist, hget⟩
    cases hget

section Valid

variable {hash : ε → Nat} {table : RobinTable ε} {hit : ε → Bool}

theorem exists_empty_slot
    (hroom : occupiedCount Option.isNone table.bucketCount table.buckets < table.bucketCount)
    (home : Nat) :
    ∃ k < table.bucketCount, table.buckets (slot table.bucketCount home k) = none := by
  obtain ⟨i, hi, hnone⟩ := exists_free_of_occupiedCount_lt hroom
  obtain ⟨k, hk, hslot⟩ := exists_slot_eq hi home
  exact ⟨k, hk, by rw [hslot]; exact Option.isNone_iff_eq_none.mp hnone⟩

theorem Valid.room (hvalid : Valid hash table) (hpow : table.BucketsPow) :
    occupiedCount Option.isNone table.bucketCount table.buckets < table.bucketCount := by
  have hpos := bucketCount_pos hpow
  have hload := hvalid.load
  rw [loadThreshold] at hload
  rw [hvalid.size_eq]
  omega

theorem Valid.seek_spec (hvalid : Valid hash table) (hpow : table.BucketsPow) (hit : ε → Bool)
    (keyHash : Nat) :
    SeekSpec table hit keyHash
      (table.seek hit table.bucketCount (table.bucketForHash keyHash) 0) := by
  obtain ⟨k, hk, hempty⟩ := exists_empty_slot (hvalid.room hpow) keyHash
  rw [bucketForHash_eq hpow]
  exact RobinTable.seek_spec hpow hk hempty _ 0 (Nat.zero_le k) (by omega)
    fun j hj => absurd hj (Nat.not_lt_zero j)

theorem Valid.find_sound (hvalid : Valid hash table) {keyHash : Nat} {entry : ε}
    (hfind : table.find keyHash hit = some entry) :
    hit entry = true ∧ table.Stored entry := by
  rcases hvalid.shape with rfl | hpow
  · cases hfind
  · have hspec := hvalid.seek_spec hpow hit keyHash
    rw [find] at hfind
    split at hfind
    · rename_i found hseek
      rw [hseek] at hspec
      cases hfind
      exact hspec
    · cases hfind

theorem Valid.find_complete (hvalid : Valid hash table) {entry : ε} {keyHash : Nat}
    (hstored : table.Stored entry) (hhit : hit entry = true) (hhash : hash entry = keyHash) :
    (table.find keyHash hit).isSome = true := by
  rcases hvalid.shape with rfl | hpow
  · obtain ⟨i, hi, -⟩ := hstored
    exact absurd hi (Nat.not_lt_zero i)
  · have hspec := hvalid.seek_spec hpow hit keyHash
    rw [find]
    split
    · rfl
    · rename_i ibucket dist hseek
      rw [hseek] at hspec
      obtain ⟨rfl, -, hstop, hseen⟩ := hspec
      obtain ⟨i, hi, far, hget⟩ := hstored
      have hhome := hvalid.placed.home hi hget
      rw [hhash] at hhome
      subst hhome
      rcases Nat.lt_or_ge far dist with hlt | hge
      · obtain ⟨other, otherFar, hother, -, hmiss⟩ := hseen far hlt
        rw [hget] at hother
        cases hother
        rw [hhit] at hmiss
        cases hmiss
      · refine absurd ?_ hstop
        exact hvalid.placed.walk (bucketCount_pos hpow) ⟨entry, far, hget, Nat.le_refl _⟩ dist hge

end Valid

section Insert

variable {hash : ε → Nat}

/-- The bucket before `i` is far enough from home for an entry at distance
`dist` to stand at `i`. -/
def Supported (n : Nat) (buckets : Nat → Option (ε × Nat)) (i dist : Nat) : Prop :=
  ∀ {j d}, j < n → slot n j 1 = i → dist = d + 1 → AtLeast buckets j d

variable {buckets : Nat → Option (ε × Nat)} {n : Nat} {i : Nat}

theorem supported_zero : Supported n buckets i 0 := fun _ _ h => absurd h.symm (Nat.succ_ne_zero _)

variable {dist : Nat}

theorem supported_next (hi : i < n) (h : AtLeast buckets i dist) :
    Supported n buckets (slot n i 1) (dist + 1) := by
  intro j d hj hslot hdist
  rw [slot_one_injective hj hi hslot]
  rwa [← Nat.succ.inj hdist]

variable {entry : ε}

theorem storedIn_update {i far : Nat} {other : ε} (hi : i < n)
    (hget : buckets i = some (other, far)) (w : ε) :
    StoredIn n (Function.update buckets i (some (entry, dist))) w ∨ w = other ↔
      StoredIn n buckets w ∨ w = entry := by
  constructor
  · rintro (⟨j, hj, d, hw⟩ | rfl)
    · by_cases hji : j = i
      · subst hji
        rw [update_self] at hw
        cases hw
        exact Or.inr rfl
      · rw [update_of_ne hji] at hw
        exact Or.inl ⟨j, hj, d, hw⟩
    · exact Or.inl ⟨i, hi, far, hget⟩
  · rintro (⟨j, hj, d, hw⟩ | rfl)
    · by_cases hji : j = i
      · subst hji
        rw [hget] at hw
        cases hw
        exact Or.inr rfl
      · exact Or.inl ⟨j, hj, d, by rwa [update_of_ne hji]⟩
    · exact Or.inl ⟨i, hi, dist, update_self _ _ _⟩

theorem storedIn_update_empty (hi : i < n) (hget : buckets i = none) (w : ε) :
    StoredIn n (Function.update buckets i (some (entry, dist))) w ↔
      StoredIn n buckets w ∨ w = entry := by
  constructor
  · rintro ⟨j, hj, d, hw⟩
    by_cases hji : j = i
    · subst hji
      rw [update_self] at hw
      cases hw
      exact Or.inr rfl
    · rw [update_of_ne hji] at hw
      exact Or.inl ⟨j, hj, d, hw⟩
  · rintro (⟨j, hj, d, hw⟩ | rfl)
    · refine ⟨j, hj, d, ?_⟩
      rwa [update_of_ne]
      rintro rfl
      rw [hget] at hw
      cases hw
    · exact ⟨i, hi, dist, update_self _ _ _⟩

/-- The carrying loop adds exactly its entry, provided a bucket is empty. -/
theorem place_spec (watch : Bool) :
    ∀ (fuel : Nat) {table : RobinTable ε} {i dist k : Nat} {entry : ε}, table.BucketsPow →
      Placed hash table.bucketCount table.buckets → i < table.bucketCount →
      slot table.bucketCount (hash entry) dist = i →
      Supported table.bucketCount table.buckets i dist →
      table.buckets (slot table.bucketCount i k) = none → k < fuel →
      ∃ next, place watch fuel i dist entry table = some next ∧
        next.bucketCount = table.bucketCount ∧ next.size = table.size ∧
        Placed hash next.bucketCount next.buckets ∧
        occupiedCount Option.isNone next.bucketCount next.buckets =
          occupiedCount Option.isNone table.bucketCount table.buckets + 1 ∧
        ∀ w, next.Stored w ↔ table.Stored w ∨ w = entry := by
  intro fuel
  induction fuel with
  | zero => intro table i dist k entry _ _ _ _ _ _ hk; exact absurd hk (Nat.not_lt_zero k)
  | succ fuel ih =>
    intro table i dist k entry hpow hplaced hi hhome hsupported hempty hk
    rw [place]
    cases hget : table.buckets i with
    | none =>
      refine ⟨_, rfl, rfl, rfl, ?_, ?_, storedIn_update_empty hi hget⟩
      · refine hplaced.update hhome hsupported fun {other far} h => ?_
        rw [hget] at h
        cases h
      · exact occupiedCount_update hi (by rw [hget]; rfl) rfl
    | some pair =>
      obtain ⟨other, far⟩ := pair
      dsimp only
      rw [nextSlot_mask hpow]
      obtain ⟨k, rfl⟩ : ∃ m, k = m + 1 := by
        cases k with
        | zero =>
          rw [slot, Nat.add_zero, Nat.mod_eq_of_lt hi, hget] at hempty
          cases hempty
        | succ m => exact ⟨m, rfl⟩
      have hnext : slot table.bucketCount i (k + 1) =
          slot table.bucketCount (slot table.bucketCount i 1) k := by
        rw [slot, slot, slot, Nat.mod_add_mod, Nat.add_assoc, Nat.add_comm k 1]
      rw [hnext] at hempty
      by_cases hfar : far < dist
      · -- the entry takes the bucket and the other one is carried on
        rw [if_pos hfar]
        have hne : slot table.bucketCount (slot table.bucketCount i 1) k ≠ i := by
          intro heq
          rw [heq, hget] at hempty
          cases hempty
        have hotherHome : slot table.bucketCount (hash other) (far + 1) =
            slot table.bucketCount i 1 := by
          rw [slot_succ, hplaced.home hi hget]
        have hplaced' := hplaced.update hhome hsupported fun {o f} h => by
          rw [hget] at h
          cases h
          exact Nat.le_of_lt hfar
        obtain ⟨next, hplace, hcount, hsize, hnextPlaced, hocc, hstored⟩ :=
          @ih { table with
            buckets := Function.update table.buckets i (some (entry, dist))
            growOnNextInsert := table.growOnNextInsert || (watch && decide (distanceLimit < dist)) }
            (slot table.bucketCount i 1) (far + 1) k other hpow hplaced'
            (slot_lt (bucketCount_pos hpow) _ _) hotherHome
            (supported_next hi ⟨entry, dist, update_self _ _ _, Nat.le_of_lt hfar⟩)
            ((update_of_ne hne _ _).trans hempty) (by omega)
        refine ⟨next, hplace, hcount, hsize, hnextPlaced, ?_, fun w => ?_⟩
        · rw [hocc, occupiedCount_update_of_occupied (by rw [hget]; rfl) rfl]
        · rw [hstored w]
          exact storedIn_update hi hget w
      · rw [if_neg hfar]
        refine ih hpow hplaced (slot_lt (bucketCount_pos hpow) _ _) ?_
          (supported_next hi ⟨other, far, hget, Nat.le_of_not_lt hfar⟩) hempty (by omega)
        rw [slot_succ, hhome]

theorem placeAll_spec (list : List ε) :
    ∀ {table : RobinTable ε}, table.BucketsPow → Placed hash table.bucketCount table.buckets →
      occupiedCount Option.isNone table.bucketCount table.buckets + list.length <
        table.bucketCount →
      ∃ next, placeAll hash list table = some next ∧ next.bucketCount = table.bucketCount ∧
        Placed hash next.bucketCount next.buckets ∧
        occupiedCount Option.isNone next.bucketCount next.buckets =
          occupiedCount Option.isNone table.bucketCount table.buckets + list.length ∧
        ∀ w, next.Stored w ↔ table.Stored w ∨ w ∈ list := by
  induction list with
  | nil =>
    intro table _ hplaced _
    exact ⟨table, rfl, rfl, hplaced, rfl, fun w => by simp⟩
  | cons entry rest ih =>
    intro table hpow hplaced hroom
    rw [length_cons] at hroom
    have hhome := bucketForHash_eq hpow (hash entry)
    have hlt : table.bucketForHash (hash entry) < table.bucketCount := by
      rw [hhome]
      exact slot_lt (bucketCount_pos hpow) _ _
    have hroom' :
        occupiedCount Option.isNone table.bucketCount table.buckets < table.bucketCount := by
      omega
    obtain ⟨k, hk, hempty⟩ := exists_empty_slot hroom' (table.bucketForHash (hash entry))
    obtain ⟨mid, hplace, hcount, -, hmid, hocc, hstored⟩ :=
      place_spec false table.bucketCount hpow hplaced hlt hhome.symm supported_zero hempty hk
    have hmidPow : mid.BucketsPow := by
      rw [BucketsPow, hcount]
      exact hpow
    obtain ⟨next, hrest, hnextCount, hnext, hnextOcc, hnextStored⟩ :=
      ih hmidPow hmid (by rw [hocc, hcount]; omega)
    rw [placeAll, hplace]
    refine ⟨next, hrest, hnextCount.trans hcount, hnext, ?_, fun w => ?_⟩
    · rw [hnextOcc, hocc, length_cons]
      omega
    · rw [hnextStored, hstored, mem_cons, or_assoc]

theorem mem_entries (table : RobinTable ε) (w : ε) : w ∈ table.entries ↔ table.Stored w := by
  simp only [entries, List.mem_map, mem_filterMap, mem_range, Stored, StoredIn]
  constructor
  · rintro ⟨⟨entry, dist⟩, ⟨i, hi, hget⟩, rfl⟩
    exact ⟨i, hi, dist, hget⟩
  · rintro ⟨i, hi, dist, hget⟩
    exact ⟨(w, dist), ⟨i, hi, hget⟩, rfl⟩

theorem length_entries (table : RobinTable ε) :
    table.entries.length = occupiedCount Option.isNone table.bucketCount table.buckets := by
  rw [entries, length_map]
  induction table.bucketCount with
  | zero => rfl
  | succ n ih =>
    rw [range_succ, filterMap_append, length_append, ih, occupiedCount,
      occupiedCount, Finset.range_add_one, Finset.filter_insert]
    cases hget : table.buckets n with
    | none => simp [hget]
    | some pair => simp [hget]

variable {table : RobinTable ε}

theorem Valid.rehash_spec (hvalid : Valid hash table) :
    ∃ grown, table.rehash hash = some grown ∧ Valid hash grown ∧ grown.BucketsPow ∧
      grown.size < grown.loadThreshold ∧ grown.size = table.size ∧
      grown.growOnNextInsert = false ∧ ∀ w, grown.Stored w ↔ table.Stored w := by
  have hpow : ∃ p, 1 ≤ p ∧ (table.mask + 1) * 2 = 2 ^ p ∧ table.size < 2 ^ p / 2 := by
    have hload := hvalid.load
    rw [loadThreshold] at hload
    rcases hvalid.shape with rfl | ⟨p, hp, hcount⟩
    · exact ⟨1, Nat.le_refl _, rfl, Nat.zero_lt_one⟩
    · have hpos : 0 < 2 ^ p := Nat.two_pow_pos p
      refine ⟨p + 1, by omega, ?_, ?_⟩
      · rw [mask, hcount, Nat.pow_succ, Nat.sub_add_cancel hpos]
      · rw [hcount] at hload
        omega
  obtain ⟨p, hp, hcount, hsize⟩ := hpow
  have hfresh : Placed hash ((table.mask + 1) * 2) (fun _ => (none : Option (ε × Nat))) :=
    ⟨fun _ h => (Option.some_ne_none _ h.symm).elim, fun _ h => (Option.some_ne_none _ h.symm).elim⟩
  have hzero : occupiedCount Option.isNone ((table.mask + 1) * 2)
      (fun _ => (none : Option (ε × Nat))) = 0 := by
    simp [occupiedCount]
  have hroom : occupiedCount Option.isNone ((table.mask + 1) * 2)
      (fun _ => (none : Option (ε × Nat))) + table.entries.length < (table.mask + 1) * 2 := by
    rw [hzero, length_entries, hvalid.size_eq, hcount]
    omega
  obtain ⟨grown, hall, hgrownCount, hplaced, hocc, hstored⟩ :=
    @placeAll_spec _ hash table.entries ⟨(table.mask + 1) * 2, fun _ => none, 0, false⟩
      ⟨p, hp, hcount⟩ hfresh hroom
  rw [hzero, length_entries, hvalid.size_eq, Nat.zero_add] at hocc
  rw [rehash, hall]
  refine ⟨_, rfl, ⟨Or.inr ⟨p, hp, hgrownCount.trans hcount⟩, hplaced, hocc, ?_⟩,
    ⟨p, hp, hgrownCount.trans hcount⟩, ?_, rfl, rfl, fun w => ?_⟩
  · rw [loadThreshold, hgrownCount, hcount]
    exact Nat.le_of_lt hsize
  · rw [loadThreshold, hgrownCount, hcount]
    exact hsize
  · have hnot : ¬ Stored ⟨(table.mask + 1) * 2, fun _ => none, 0, false⟩ w := by
      rintro ⟨i, -, d, h⟩
      cases h
    rw [← mem_entries table]
    exact (hstored w).trans (or_iff_right hnot)

/-- Where a search for a new entry ends: the entry may take this bucket. -/
structure StopsAt (table : RobinTable ε) (keyHash ibucket dist : Nat) : Prop where
  ibucket_eq : ibucket = slot table.bucketCount keyHash dist
  dist_le : dist ≤ table.size
  passed : ∀ j < dist, AtLeast table.buckets (slot table.bucketCount keyHash j) j

variable {hit : ε → Bool} {keyHash : Nat}

theorem Valid.stopsAt_of_seek (hvalid : Valid hash table) (hpow : table.BucketsPow) {ibucket : Nat}
    (hseek : table.seek hit table.bucketCount (table.bucketForHash keyHash) 0 =
      .stopped ibucket dist) : StopsAt table keyHash ibucket dist := by
  have hspec := hvalid.seek_spec hpow hit keyHash
  rw [hseek] at hspec
  obtain ⟨hbucket, hlt, -, hseen⟩ := hspec
  refine ⟨hbucket, ?_, fun j hj => ?_⟩
  · rw [← hvalid.size_eq]
    refine le_occupiedCount keyHash (Nat.le_of_lt hlt) fun j hj => ?_
    obtain ⟨entry, far, hget, -⟩ := hseen j hj
    rw [hget]
    rfl
  · obtain ⟨entry, far, hget, hle, -⟩ := hseen j hj
    exact ⟨entry, far, hget, hle⟩

theorem StopsAt.supported (hpow : table.BucketsPow) {ibucket : Nat}
    (hstops : StopsAt table keyHash ibucket dist) :
    Supported table.bucketCount table.buckets ibucket dist := by
  obtain ⟨rfl, -, hpassed⟩ := hstops
  cases dist with
  | zero => exact supported_zero
  | succ d =>
    rw [slot_succ]
    exact supported_next (slot_lt (bucketCount_pos hpow) _ _) (hpassed d (Nat.lt_succ_self d))

theorem seek_false_ne_found :
    ∀ fuel ibucket dist, table.seek (fun _ => false) fuel ibucket dist ≠ .found entry := by
  intro fuel
  induction fuel with
  | zero => intro ibucket dist h; cases h
  | succ fuel ih =>
    intro ibucket dist
    rw [seek]
    split
    · exact fun h => by cases h
    · split
      · exact fun h => by cases h
      · exact ih _ _

/-- What the growth loop leaves behind. -/
structure Settled (hash : ε → Nat) (keyHash : Nat) (table settled : RobinTable ε)
    (ibucket dist : Nat) : Prop where
  valid : Valid hash settled
  pow : settled.BucketsPow
  room : settled.size < settled.loadThreshold
  size_eq : settled.size = table.size
  stops : StopsAt settled keyHash ibucket dist
  stored : ∀ w, settled.Stored w ↔ table.Stored w

theorem Valid.settle_spec :
    ∀ (fuel : Nat) {table : RobinTable ε} {ibucket dist : Nat}, Valid hash table →
      (table.BucketsPow → StopsAt table keyHash ibucket dist) →
      ∀ {settled i d}, settle hash keyHash fuel table ibucket dist = some (settled, i, d) →
        Settled hash keyHash table settled i d := by
  intro fuel
  induction fuel with
  | zero => intro table ibucket dist _ _ settled i d h; cases h
  | succ fuel ih =>
    intro table ibucket dist hvalid hstops settled i d hsettle
    rw [settle] at hsettle
    split at hsettle
    · obtain ⟨grown, hrehash, hgrown, hpow, -, hsize, -, hstored⟩ := hvalid.rehash_spec
      rw [hrehash] at hsettle
      dsimp only at hsettle
      cases hseek : grown.seek (fun _ => false) grown.bucketCount
          (grown.bucketForHash keyHash) 0 with
      | found entry => exact absurd hseek (seek_false_ne_found _ _ _)
      | stopped ibucket' dist' =>
        rw [hseek] at hsettle
        have hrest := ih hgrown (fun _ => hgrown.stopsAt_of_seek hpow hseek) hsettle
        exact ⟨hrest.valid, hrest.pow, hrest.room, hrest.size_eq.trans hsize, hrest.stops,
          fun w => (hrest.stored w).trans (hstored w)⟩
    · rename_i hcond
      simp only [Bool.or_eq_true, decide_eq_true_eq, not_or, Nat.not_le] at hcond
      cases hsettle
      have hpow : table.BucketsPow := by
        rcases hvalid.shape with rfl | hpow
        · exact absurd hcond.2 (by simp [empty, loadThreshold])
        · exact hpow
      exact ⟨hvalid, hpow, hcond.2, rfl, hstops hpow, fun w => Iff.rfl⟩

theorem Valid.settle_isSome {table : RobinTable ε} (hvalid : Valid hash table)
    {keyHash ibucket dist : Nat} (hsmall : table.size ≤ distanceLimit) :
    (settle hash keyHash 64 table ibucket dist).isSome = true := by
  rw [settle]
  split
  · obtain ⟨grown, hrehash, hgrown, hpow, hroom, hsize, hflag, -⟩ := hvalid.rehash_spec
    rw [hrehash]
    dsimp only
    cases hseek : grown.seek (fun _ => false) grown.bucketCount
        (grown.bucketForHash keyHash) 0 with
    | found entry => exact absurd hseek (seek_false_ne_found _ _ _)
    | stopped ibucket' dist' =>
      have hdist := (hgrown.stopsAt_of_seek hpow hseek).dist_le
      dsimp only
      rw [settle, if_neg]
      · rfl
      · simp only [hflag, Bool.or_eq_true, decide_eq_true_eq, not_or]
        exact ⟨⟨Bool.false_ne_true, by omega⟩, by omega⟩
  · rfl

theorem Settled.place_spec {settled : RobinTable ε} {ibucket : Nat}
    (hsettled : Settled hash (hash entry) table settled ibucket dist) :
    ∃ next, place true settled.bucketCount ibucket dist entry settled = some next ∧
      Valid hash { next with size := next.size + 1 } ∧ next.size = table.size ∧
      ∀ w, next.Stored w ↔ table.Stored w ∨ w = entry := by
  have hlt : ibucket < settled.bucketCount := by
    rw [hsettled.stops.ibucket_eq]
    exact slot_lt (bucketCount_pos hsettled.pow) _ _
  obtain ⟨k, hk, hempty⟩ := exists_empty_slot (hsettled.valid.room hsettled.pow) ibucket
  obtain ⟨next, hplace, hcount, hsize, hplaced, hocc, hstored⟩ :=
    RobinTable.place_spec true settled.bucketCount hsettled.pow hsettled.valid.placed hlt
      hsettled.stops.ibucket_eq.symm (hsettled.stops.supported hsettled.pow) hempty hk
  refine ⟨next, hplace, ⟨Or.inr ?_, hplaced, ?_, ?_⟩, hsize.trans hsettled.size_eq, fun w => ?_⟩
  · obtain ⟨p, hp, hpow⟩ := hsettled.pow
    exact ⟨p, hp, hcount.trans hpow⟩
  · rw [hocc, hsettled.valid.size_eq, hsize]
  · have hroom := hsettled.room
    rw [loadThreshold] at hroom ⊢
    dsimp only
    omega
  · rw [hstored, hsettled.stored]

variable {next : RobinTable ε}

/-- An insertion that returns leaves the table as it is where the key is found, or places the
entry in the table that it has settled on. -/
theorem Valid.insert_cases (hvalid : Valid hash table)
    (hinsert : insert hash hit entry table = some next) :
    (table.find (hash entry) hit).isSome = true ∧ next = table ∨
      table.find (hash entry) hit = none ∧ Valid hash next ∧ next.size = table.size + 1 ∧
        ∀ w, next.Stored w ↔ table.Stored w ∨ w = entry := by
  rw [insert] at hinsert
  rw [find]
  cases hseek : table.seek hit table.bucketCount (table.bucketForHash (hash entry)) 0 with
  | found other =>
    rw [hseek] at hinsert
    cases hinsert
    exact Or.inl ⟨rfl, rfl⟩
  | stopped ibucket dist =>
    rw [hseek] at hinsert
    dsimp only at hinsert
    split at hinsert
    · cases hinsert
    · rename_i settled i d hsettle
      have hsettled := Valid.settle_spec 64 hvalid
        (fun hpow => hvalid.stopsAt_of_seek hpow hseek) hsettle
      obtain ⟨placed, hplace, hvalid', hsize, hstored⟩ := hsettled.place_spec
      rw [hplace] at hinsert
      cases hinsert
      exact Or.inr ⟨rfl, hvalid', congrArg (· + 1) hsize, hstored⟩

theorem Valid.insert_spec (hvalid : Valid hash table)
    (hinsert : insert hash hit entry table = some next) :
    Valid hash next ∧ ((table.find (hash entry) hit).isSome = true ∧ next = table ∨
        table.find (hash entry) hit = none ∧ ∀ w, next.Stored w ↔ table.Stored w ∨ w = entry) := by
  rcases hvalid.insert_cases hinsert with ⟨hfound, rfl⟩ | ⟨hnone, hvalid', -, hstored⟩
  · exact ⟨hvalid, Or.inl ⟨hfound, rfl⟩⟩
  · exact ⟨hvalid', Or.inr ⟨hnone, hstored⟩⟩

theorem Valid.insert_size_le (hvalid : Valid hash table)
    (hinsert : insert hash hit entry table = some next) : next.size ≤ table.size + 1 := by
  rcases hvalid.insert_cases hinsert with ⟨-, rfl⟩ | ⟨-, -, hsize, -⟩
  · exact Nat.le_succ _
  · exact Nat.le_of_eq hsize

theorem Valid.insert_isSome {table : RobinTable ε} (hvalid : Valid hash table) {hit : ε → Bool}
    {entry : ε} (hsmall : table.size ≤ distanceLimit) :
    (insert hash hit entry table).isSome = true := by
  rw [insert]
  cases hseek : table.seek hit table.bucketCount (table.bucketForHash (hash entry)) 0 with
  | found other => rfl
  | stopped ibucket dist =>
    obtain ⟨⟨settled, i, d⟩, hsettle⟩ :=
      Option.isSome_iff_exists.mp (@Valid.settle_isSome _ hash table hvalid (hash entry)
        ibucket dist hsmall)
    have hsettled := Valid.settle_spec 64 hvalid
      (fun hpow => hvalid.stopsAt_of_seek hpow hseek) hsettle
    obtain ⟨placed, hplace, -⟩ := hsettled.place_spec
    dsimp only
    rw [hsettle]
    dsimp only
    rw [hplace]
    rfl

theorem insert_of_free (hcount : 0 < table.bucketCount)
    (hfree : table.buckets (table.bucketForHash (hash entry)) = none)
    (hgrow : table.growOnNextInsert = false) (hload : table.size < table.loadThreshold) :
    insert hash hit entry table = some { table with
      buckets := Function.update table.buckets (table.bucketForHash (hash entry)) (some (entry, 0))
      size := table.size + 1 } := by
  obtain ⟨fuel, hfuel⟩ := Nat.exists_eq_succ_of_ne_zero (Nat.pos_iff_ne_zero.mp hcount)
  have hsettle : settle hash (hash entry) 64 table (table.bucketForHash (hash entry)) 0 =
      some (table, table.bucketForHash (hash entry), 0) := by
    have hstay : (table.growOnNextInsert || decide (distanceLimit < 0) ||
        decide (table.loadThreshold ≤ table.size)) = false := by
      rw [hgrow, decide_eq_false (Nat.not_le.mpr hload)]
      rfl
    rw [settle, hstay]
    rfl
  have hseek : table.seek hit table.bucketCount (table.bucketForHash (hash entry)) 0 =
      .stopped (table.bucketForHash (hash entry)) 0 := by
    rw [hfuel, seek, hfree]
  have hplace : place true (fuel + 1) (table.bucketForHash (hash entry)) 0 entry table =
      some { table with
        buckets := Function.update table.buckets (table.bucketForHash (hash entry))
          (some (entry, 0)) } := by
    rw [place, hfree]
  rw [← Nat.succ_eq_add_one, ← hfuel] at hplace
  rw [insert, hseek]
  dsimp only
  rw [hsettle]
  dsimp only
  rw [hplace]
  rfl

end Insert

end RobinTable

end Escargot.Foundation
