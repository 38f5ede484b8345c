/-
# How many scripts the code cache keeps

`CodeCache` has a list of entries, and beside it a map from scripts to the times at which they
were stored last. When this map has as many scripts as the limit allows, the oldest one of them
is removed before an entry is added. The map is not restored with the list, and the script that
is being stored is in it already. A store is within the limit when all this does no harm.
-/

import Escargot.Foundation.Run

namespace Escargot.Runtime

open List Foundation

structure ScriptID where
  srcHash : UInt64
  srcLength : UInt64
  deriving DecidableEq

/-- `CodeCacheIndex`: a function of a script, or its global code. -/
structure CacheIndex where
  scriptID : ScriptID
  functionIndex : UInt64
  deriving DecidableEq

/-- `CODE_CACHE_MAX_CACHE_COUNT`. -/
def defaultMaxCacheCount : Nat := 16

/-- `std::numeric_limits<uint64_t>::max()`. -/
def maxTimeStamp : Nat := 2 ^ 64 - 1

/-- `CodeCache`, and the list file in its directory. -/
structure CodeCache (Entry : Type) where
  enabled : Bool
  cacheList : List (CacheIndex × Entry)
  cacheLRUList : List (ScriptID × Nat)
  nodup : (cacheLRUList.map Prod.fst).Nodup
  maxCacheCount : Nat
  listFile : Option (List (CacheIndex × Entry))

/-- What the outside decides in a store: whether the data could be written, the time, the order in
which the map of times is gone through, and whether a file could be removed and the list file be
written. -/
structure StoreOutcome where
  finished : Bool
  time : Nat
  iteration : List (ScriptID × Nat)
  removesFile : Bool
  writesList : Bool

/-- Whether a directory could be locked, and its list file be read. -/
inductive InitOutcome
  | ready
  | directoryFailed
  | listFailed
  deriving DecidableEq

inductive CacheCall (Entry : Type)
  | store (cacheIndex : CacheIndex) (entry : Entry) (outcome : StoreOutcome)
  | setMaxCacheCount (s : Nat)
  | reopen (outcome : InitOutcome)

/-- A successful store: the script, what was removed for it, and the cache after it. -/
structure StoreReport (Entry : Type) where
  script : ScriptID
  removed : Option ScriptID
  cache : CodeCache Entry

namespace CodeCache

variable {Entry : Type}

/-- `unordered_map::insert`, which leaves an entry that is there. -/
def insertEntry (list : List (CacheIndex × Entry)) (cacheIndex : CacheIndex) (entry : Entry) :
    List (CacheIndex × Entry) :=
  if cacheIndex ∈ list.map Prod.fst then list else (cacheIndex, entry) :: list

/-- `m_cacheLRUList[script] = time`. -/
def setTime (times : List (ScriptID × Nat)) (script : ScriptID) (time : Nat) :
    List (ScriptID × Nat) :=
  (script, time) :: times.filter (·.1 ≠ script)

variable {times : List (ScriptID × Nat)}

theorem setTime_nodup (h : (times.map Prod.fst).Nodup) (script : ScriptID) (time : Nat) :
    ((setTime times script time).map Prod.fst).Nodup := by
  rw [setTime, map_cons, nodup_cons]
  constructor
  · intro hmem
    obtain ⟨other, hother, hscript⟩ := List.mem_map.mp hmem
    simp [hscript] at hother
  · exact (List.filter_sublist.map Prod.fst).nodup h

theorem filter_nodup (h : (times.map Prod.fst).Nodup) (p : ScriptID × Nat → Bool) :
    ((times.filter p).map Prod.fst).Nodup :=
  (List.filter_sublist.map Prod.fst).nodup h

/-- `CodeCache::clearAll`, which removes the files too. -/
def clearAll (cache : CodeCache Entry) : CodeCache Entry where
  enabled := false
  cacheList := []
  cacheLRUList := []
  nodup := nodup_nil
  maxCacheCount := cache.maxCacheCount
  listFile := none

/-- `m_cacheLRUList[cacheIndex.scriptID()] = fastTickCount()`. -/
def touch (cache : CodeCache Entry) (script : ScriptID) (time : Nat) : CodeCache Entry where
  enabled := cache.enabled
  cacheList := cache.cacheList
  cacheLRUList := setTime cache.cacheLRUList script time
  nodup := setTime_nodup cache.nodup script time
  maxCacheCount := cache.maxCacheCount
  listFile := cache.listFile

/-- The order of an iteration over a map, if it is one. -/
def iterated (times iteration : List (ScriptID × Nat)) : List (ScriptID × Nat) :=
  if iteration.Perm times then iteration else times

/-- The loop of `removeLRUCacheEntry`: the first one of the oldest scripts. -/
def lruIndex (times : List (ScriptID × Nat)) : ScriptID × Nat :=
  times.foldl (fun lru e => if e.2 < lru.2 then e else lru) (⟨0, 0⟩, maxTimeStamp)

def erase (cache : CodeCache Entry) (script : ScriptID) : CodeCache Entry where
  enabled := cache.enabled
  cacheList := cache.cacheList.filter (·.1.scriptID ≠ script)
  cacheLRUList := cache.cacheLRUList.filter (·.1 ≠ script)
  nodup := filter_nodup cache.nodup _
  maxCacheCount := cache.maxCacheCount
  listFile := cache.listFile

/-- `CodeCache::removeLRUCacheEntry`: the script that is removed, and the cache without it. -/
def removeLRUCacheEntry (cache : CodeCache Entry) (outcome : StoreOutcome) :
    Option (ScriptID × CodeCache Entry) :=
  let lru := (lruIndex (iterated cache.cacheLRUList outcome.iteration)).1
  if outcome.removesFile then some (lru, cache.erase lru) else none

def insert (cache : CodeCache Entry) (cacheIndex : CacheIndex) (entry : Entry) : CodeCache Entry :=
  { cache with cacheList := insertEntry cache.cacheList cacheIndex entry }

/-- `CodeCache::addCacheEntry`: what was removed, if anything, and the cache with the entry. -/
def addCacheEntry (cache : CodeCache Entry) (cacheIndex : CacheIndex) (entry : Entry)
    (outcome : StoreOutcome) : Option (Option ScriptID × CodeCache Entry) :=
  if cache.cacheLRUList.length = cache.maxCacheCount then
    match cache.removeLRUCacheEntry outcome with
    | none => none
    | some (removed, rest) => some (some removed, rest.insert cacheIndex entry)
  else some (none, cache.insert cacheIndex entry)

def writeCacheList (cache : CodeCache Entry) : CodeCache Entry :=
  { cache with listFile := some cache.cacheList }

def postCacheWriting (cache : CodeCache Entry) (cacheIndex : CacheIndex) (entry : Entry)
    (outcome : StoreOutcome) : CodeCache Entry × Option (StoreReport Entry) :=
  if outcome.finished then
    match (cache.touch cacheIndex.scriptID outcome.time).addCacheEntry cacheIndex entry outcome with
    | some (removed, added) =>
      if outcome.writesList then
        (added.writeCacheList, some ⟨cacheIndex.scriptID, removed, added.writeCacheList⟩)
      else (added.clearAll, none)
    | none => (cache.clearAll, none)
  else (cache.clearAll, none)

/-- `CodeCache::CodeCache` on the directory of another cache. The list is loaded by
`setCacheEntry`, one entry after the other, and the map of times stays empty. -/
def reopen (cache : CodeCache Entry) (outcome : InitOutcome) : CodeCache Entry where
  enabled := decide (outcome = .ready)
  cacheList :=
    if outcome = .ready then
      (cache.listFile.getD []).foldl (fun list e => insertEntry list e.1 e.2) []
    else []
  cacheLRUList := []
  nodup := nodup_nil
  maxCacheCount := defaultMaxCacheCount
  listFile := if outcome = .listFailed then none else cache.listFile

def step (cache : CodeCache Entry) :
    CacheCall Entry → Option (CodeCache Entry × Option (StoreReport Entry))
  | .store cacheIndex entry outcome =>
    if cache.enabled then some (cache.postCacheWriting cacheIndex entry outcome)
    else some (cache, none)
  | .setMaxCacheCount s => some ({ cache with maxCacheCount := s }, none)
  | .reopen outcome => some (cache.reopen outcome, none)

def scripts (cache : CodeCache Entry) : Finset ScriptID :=
  (cache.cacheList.map fun e => e.1.scriptID).toFinset

def timed (cache : CodeCache Entry) : Finset ScriptID := (cache.cacheLRUList.map Prod.fst).toFinset

def TimedHaveEntries (cache : CodeCache Entry) : Prop := cache.timed ⊆ cache.scripts

/-- A store is within the limit; the stored script is counted in. Where the scripts with a time are
exactly as many as the limit, a script other than the stored one has an older time, and the scripts
with entries are at most one more than the limit. Everywhere else they are at most the limit. -/
def WithinLimit (cache : CodeCache Entry) : CacheCall Entry → Prop
  | .store cacheIndex _ outcome =>
    let known := Insert.insert cacheIndex.scriptID cache.scripts
    if (Insert.insert cacheIndex.scriptID cache.timed).card = cache.maxCacheCount then
      known.card ≤ cache.maxCacheCount + 1 ∧
        ∃ e ∈ cache.cacheLRUList, e.1 ≠ cacheIndex.scriptID ∧ e.2 < outcome.time ∧
          e.2 < maxTimeStamp
    else known.card ≤ cache.maxCacheCount
  | .setMaxCacheCount _ => True
  | .reopen _ => True

/-- What is promised of a successful store. -/
def Retained (stored : StoreReport Entry) : Prop :=
  stored.cache.scripts.card ≤ stored.cache.maxCacheCount ∧
    stored.removed ≠ some stored.script ∧ stored.script ∈ stored.cache.scripts

variable {cache : CodeCache Entry} {script : ScriptID}

theorem mem_scripts : script ∈ cache.scripts ↔ ∃ e ∈ cache.cacheList, e.1.scriptID = script := by
  rw [scripts, List.mem_toFinset, List.mem_map]

theorem mem_timed : script ∈ cache.timed ↔ ∃ e ∈ cache.cacheLRUList, e.1 = script := by
  rw [timed, List.mem_toFinset, List.mem_map]

variable (cache)

theorem scripts_insert (cacheIndex : CacheIndex) (entry : Entry) :
    (cache.insert cacheIndex entry).scripts = Insert.insert cacheIndex.scriptID cache.scripts := by
  ext script
  rw [Finset.mem_insert, mem_scripts, mem_scripts, insert, insertEntry]
  split_ifs with hold
  · obtain ⟨e, he, hindex⟩ := List.mem_map.mp hold
    constructor
    · exact Or.inr
    · rintro (rfl | hmem)
      · exact ⟨e, he, congrArg CacheIndex.scriptID hindex⟩
      · exact hmem
  · rw [exists_mem_cons_iff, eq_comm]

theorem toFinset_map_filter_ne {α : Type} (key : α → ScriptID) (list : List α) (script : ScriptID) :
    ((list.filter fun e => decide (key e ≠ script)).map key).toFinset =
      (list.map key).toFinset.erase script := by
  ext other
  rw [Finset.mem_erase, List.mem_toFinset, List.mem_toFinset, List.mem_map, List.mem_map]
  simp only [mem_filter, decide_eq_true_eq]
  constructor
  · rintro ⟨e, ⟨he, hne⟩, rfl⟩
    exact ⟨hne, e, he, rfl⟩
  · rintro ⟨hne, e, he, rfl⟩
    exact ⟨e, ⟨he, hne⟩, rfl⟩

theorem scripts_erase (script : ScriptID) :
    (cache.erase script).scripts = cache.scripts.erase script :=
  toFinset_map_filter_ne (fun e : CacheIndex × Entry => e.1.scriptID) cache.cacheList script

theorem timed_erase (script : ScriptID) : (cache.erase script).timed = cache.timed.erase script :=
  toFinset_map_filter_ne Prod.fst cache.cacheLRUList script

theorem timed_touch (script : ScriptID) (time : Nat) :
    (cache.touch script time).timed = Insert.insert script cache.timed := by
  have herased := toFinset_map_filter_ne Prod.fst cache.cacheLRUList script
  rw [timed, touch]
  dsimp only
  rw [setTime, map_cons, toFinset_cons, herased]
  ext other
  rw [Finset.mem_insert, Finset.mem_insert, Finset.mem_erase, timed]
  constructor
  · exact Or.imp_right And.right
  · intro h
    by_cases hsame : other = script
    · exact Or.inl hsame
    · exact h.imp_right fun hmem => ⟨hsame, hmem⟩

theorem card_timed : cache.timed.card = cache.cacheLRUList.length := by
  rw [timed, toFinset_card_of_nodup cache.nodup, length_map]

variable {cache}

theorem foldl_lru {first lru : ScriptID × Nat}
    (h : times.foldl (fun lru e => if e.2 < lru.2 then e else lru) first = lru) :
    (lru = first ∨ lru ∈ times) ∧ lru.2 ≤ first.2 ∧ ∀ e ∈ times, lru.2 ≤ e.2 := by
  induction times generalizing first with
  | nil =>
    subst h
    exact ⟨Or.inl rfl, le_rfl, fun _ h => absurd h not_mem_nil⟩
  | cons e times ih =>
    rw [foldl_cons] at h
    by_cases hlt : e.2 < first.2
    · rw [if_pos hlt] at h
      obtain ⟨hmem, hfirst, hall⟩ := ih h
      refine ⟨Or.inr ?_, hfirst.trans hlt.le, fun other hother => ?_⟩
      · exact hmem.elim (fun h => h ▸ mem_cons_self) (mem_cons_of_mem e)
      · rcases List.mem_cons.mp hother with rfl | hrest
        · exact hfirst
        · exact hall other hrest
    · rw [if_neg hlt] at h
      obtain ⟨hmem, hfirst, hall⟩ := ih h
      refine ⟨hmem.imp_right (mem_cons_of_mem e), hfirst, fun other hother => ?_⟩
      rcases List.mem_cons.mp hother with rfl | hrest
      · exact hfirst.trans (not_lt.mp hlt)
      · exact hall other hrest

theorem lruIndex_spec {e : ScriptID × Nat} (he : e ∈ times) (htime : e.2 < maxTimeStamp) :
    lruIndex times ∈ times ∧ (lruIndex times).2 ≤ e.2 := by
  obtain ⟨hmem, -, hall⟩ := foldl_lru (lruIndex.eq_1 times).symm
  have hle := hall e he
  refine ⟨hmem.resolve_left fun h => ?_, hle⟩
  rw [h] at hle
  exact absurd htime (not_lt.mpr hle)

theorem iterated_perm (times iteration : List (ScriptID × Nat)) :
    (iterated times iteration).Perm times := by
  rw [iterated]
  split_ifs with h
  · exact h
  · exact .refl times

/-- Where an older script is there, the one that is stored is not removed. -/
theorem lruIndex_touch {time : Nat} {e : ScriptID × Nat} (he : e ∈ cache.cacheLRUList)
    (hne : e.1 ≠ script) (hlt : e.2 < time) (hmax : e.2 < maxTimeStamp)
    (iteration : List (ScriptID × Nat)) :
    (lruIndex (iterated (cache.touch script time).cacheLRUList iteration)).1 ≠ script ∧
      (lruIndex (iterated (cache.touch script time).cacheLRUList iteration)).1 ∈ cache.timed := by
  have hperm := iterated_perm (cache.touch script time).cacheLRUList iteration
  have hold : e ∈ (cache.touch script time).cacheLRUList := by
    refine mem_cons_of_mem _ (List.mem_filter.mpr ⟨he, ?_⟩)
    exact decide_eq_true hne
  obtain ⟨hmem, hle⟩ := lruIndex_spec (hperm.mem_iff.mpr hold) hmax
  generalize lruIndex (iterated (cache.touch script time).cacheLRUList iteration) = lru at hmem hle
  rcases List.mem_cons.mp (hperm.mem_iff.mp hmem) with rfl | hrest
  · exact absurd (hle.trans_lt hlt) (Nat.lt_irrefl _)
  · obtain ⟨hlru, hother⟩ := List.mem_filter.mp hrest
    exact ⟨of_decide_eq_true hother, mem_timed.mpr ⟨lru, hlru, rfl⟩⟩

variable {cacheIndex : CacheIndex} {outcome : StoreOutcome} {removed : Option ScriptID}
  {added : CodeCache Entry}

theorem addCacheEntry_cases {entry : Entry}
    (h : (cache.touch cacheIndex.scriptID outcome.time).addCacheEntry cacheIndex entry outcome =
      some (removed, added)) :
    ((Insert.insert cacheIndex.scriptID cache.timed).card ≠ cache.maxCacheCount ∧ removed = none ∧
        added = (cache.touch cacheIndex.scriptID outcome.time).insert cacheIndex entry) ∨
      ((Insert.insert cacheIndex.scriptID cache.timed).card = cache.maxCacheCount ∧
        ∃ lru, lru = (lruIndex (iterated (cache.touch cacheIndex.scriptID
            outcome.time).cacheLRUList outcome.iteration)).1 ∧ removed = some lru ∧
          added = ((cache.touch cacheIndex.scriptID outcome.time).erase lru).insert
            cacheIndex entry) := by
  have hmax : (cache.touch cacheIndex.scriptID outcome.time).maxCacheCount =
      cache.maxCacheCount := rfl
  rw [addCacheEntry, ← card_timed, timed_touch, hmax, removeLRUCacheEntry] at h
  by_cases hfull : (Insert.insert cacheIndex.scriptID cache.timed).card = cache.maxCacheCount
  · rw [if_pos hfull] at h
    cases hremoves : outcome.removesFile with
    | true =>
      rw [hremoves] at h
      cases h
      exact Or.inr ⟨hfull, _, rfl, rfl, rfl⟩
    | false =>
      rw [hremoves] at h
      cases h
  · rw [if_neg hfull] at h
    cases h
    exact Or.inl ⟨hfull, rfl, rfl⟩

theorem step_cases {call : CacheCall Entry} {next : CodeCache Entry}
    {answer : Option (StoreReport Entry)} (h : cache.step call = some (next, answer)) :
    (answer = none ∧ (next.cacheLRUList = [] ∨
        (next.scripts = cache.scripts ∧ next.timed = cache.timed))) ∨
      ∃ cacheIndex entry outcome removed added, call = .store cacheIndex entry outcome ∧
        (cache.touch cacheIndex.scriptID outcome.time).addCacheEntry cacheIndex entry outcome =
          some (removed, added) ∧
        next = added.writeCacheList ∧
        answer = some ⟨cacheIndex.scriptID, removed, added.writeCacheList⟩ := by
  cases call with
  | setMaxCacheCount s =>
    cases h
    exact Or.inl ⟨rfl, Or.inr ⟨rfl, rfl⟩⟩
  | reopen outcome =>
    cases h
    exact Or.inl ⟨rfl, Or.inl rfl⟩
  | store cacheIndex entry outcome =>
    rw [step] at h
    by_cases henabled : cache.enabled = true
    · rw [if_pos henabled, postCacheWriting, Option.some_inj] at h
      by_cases hfinished : outcome.finished = true
      · rw [if_pos hfinished] at h
        cases hadd : (cache.touch cacheIndex.scriptID outcome.time).addCacheEntry cacheIndex entry
          outcome with
        | none =>
          rw [hadd] at h
          cases h
          exact Or.inl ⟨rfl, Or.inl rfl⟩
        | some result =>
          rw [hadd] at h
          dsimp only at h
          by_cases hwrites : outcome.writesList = true
          · rw [if_pos hwrites] at h
            cases h
            exact Or.inr ⟨_, _, _, _, _, rfl, hadd, rfl, rfl⟩
          · rw [if_neg hwrites] at h
            cases h
            exact Or.inl ⟨rfl, Or.inl rfl⟩
      · rw [if_neg hfinished] at h
        cases h
        exact Or.inl ⟨rfl, Or.inl rfl⟩
    · rw [if_neg henabled] at h
      cases h
      exact Or.inl ⟨rfl, Or.inr ⟨rfl, rfl⟩⟩

theorem TimedHaveEntries.of_nil (h : cache.cacheLRUList = []) : cache.TimedHaveEntries := by
  rw [TimedHaveEntries, timed, h]
  exact Finset.empty_subset _

theorem TimedHaveEntries.store (hinv : cache.TimedHaveEntries) {entry : Entry}
    (h : (cache.touch cacheIndex.scriptID outcome.time).addCacheEntry cacheIndex entry outcome =
      some (removed, added)) : added.TimedHaveEntries := by
  have hinsert := Finset.insert_subset_insert cacheIndex.scriptID hinv
  rcases addCacheEntry_cases h with ⟨-, -, rfl⟩ | ⟨-, lru, -, -, rfl⟩
  · rw [TimedHaveEntries, scripts_insert]
    show (cache.touch cacheIndex.scriptID outcome.time).timed ⊆ _
    rw [timed_touch]
    exact hinsert
  · rw [TimedHaveEntries, scripts_insert, scripts_erase]
    show ((cache.touch cacheIndex.scriptID outcome.time).erase lru).timed ⊆ _
    rw [timed_erase, timed_touch]
    intro script hscript
    obtain ⟨hne, hmem⟩ := Finset.mem_erase.mp hscript
    rcases Finset.mem_insert.mp (hinsert hmem) with rfl | hold
    · exact Finset.mem_insert_self _ _
    · exact Finset.mem_insert_of_mem (Finset.mem_erase.mpr ⟨hne, hold⟩)

theorem TimedHaveEntries.step (hinv : cache.TimedHaveEntries) {call : CacheCall Entry}
    {next : CodeCache Entry} {answer : Option (StoreReport Entry)}
    (h : cache.step call = some (next, answer)) : next.TimedHaveEntries := by
  rcases step_cases h with ⟨-, hnil | ⟨hscripts, htimed⟩⟩ |
    ⟨cacheIndex, entry, outcome, removed, added, -, hadd, rfl, -⟩
  · exact .of_nil hnil
  · rw [TimedHaveEntries, hscripts, htimed]
    exact hinv
  · show added.TimedHaveEntries
    exact hinv.store hadd

theorem retained_of_withinLimit (hinv : cache.TimedHaveEntries) {entry : Entry}
    (hlimit : cache.WithinLimit (.store cacheIndex entry outcome))
    (h : (cache.touch cacheIndex.scriptID outcome.time).addCacheEntry cacheIndex entry outcome =
      some (removed, added)) :
    Retained ⟨cacheIndex.scriptID, removed, added.writeCacheList⟩ := by
  rw [WithinLimit] at hlimit
  rcases addCacheEntry_cases h with ⟨hroom, rfl, rfl⟩ | ⟨hfull, lru, hlru, rfl, rfl⟩
  · rw [if_neg hroom] at hlimit
    refine ⟨?_, (Option.some_ne_none _).symm, ?_⟩
    · show ((cache.touch _ _).insert cacheIndex entry).scripts.card ≤ cache.maxCacheCount
      rw [scripts_insert]
      exact hlimit
    · show _ ∈ ((cache.touch _ _).insert cacheIndex entry).scripts
      rw [scripts_insert]
      exact Finset.mem_insert_self _ _
  · rw [if_pos hfull] at hlimit
    obtain ⟨hcard, e, he, hne, hlt, hmax⟩ := hlimit
    obtain ⟨hother, htimed⟩ := lruIndex_touch he hne hlt hmax outcome.iteration
    rw [← hlru] at hother htimed
    have hscripts : (((cache.touch cacheIndex.scriptID outcome.time).erase lru).insert cacheIndex
        entry).scripts = (Insert.insert cacheIndex.scriptID cache.scripts).erase lru := by
      rw [scripts_insert, scripts_erase, Finset.erase_insert_of_ne hother.symm]
      rfl
    refine ⟨?_, fun hremoved => hother (Option.some.inj hremoved), ?_⟩
    · show (((cache.touch _ _).erase lru).insert cacheIndex entry).scripts.card ≤
        cache.maxCacheCount
      rw [hscripts, Finset.card_erase_of_mem (Finset.mem_insert_of_mem (hinv htimed))]
      omega
    · show _ ∈ (((cache.touch _ _).erase lru).insert cacheIndex entry).scripts
      rw [scripts_insert]
      exact Finset.mem_insert_self _ _

variable (listFile : Option (List (CacheIndex × Entry)))

/-- A cache on a directory, with whatever list file is there. -/
def create (outcome : InitOutcome) : CodeCache Entry :=
  reopen
    { enabled := false, cacheList := [], cacheLRUList := [], nodup := nodup_nil
      maxCacheCount := defaultMaxCacheCount, listFile := listFile } outcome

/-- All successful stores among the answers keep to the limit. -/
def AllRetained (answers : List (Option (StoreReport Entry))) : Prop :=
  ∀ stored, some stored ∈ answers → Retained stored

/-- In a run whose stores are all within the limit, every successful store keeps to it. -/
theorem retained_of_run (outcome : InitOutcome) (calls : List (CacheCall Entry))
    (hguarded : Guarded step WithinLimit calls (create listFile outcome))
    {last : CodeCache Entry} {answers : List (Option (StoreReport Entry))}
    (hrun : run step calls (create listFile outcome) = some (last, answers)) :
    AllRetained answers := by
  have hstep : ∀ {cache : CodeCache Entry} {call next answer}, cache.TimedHaveEntries →
      cache.WithinLimit call → cache.step call = some (next, answer) →
      next.TimedHaveEntries ∧ (∀ stored, answer = some stored → Retained stored) ∧
        ∀ earlier : Option (StoreReport Entry),
          (∀ stored, earlier = some stored → Retained stored) →
            ∀ stored, earlier = some stored → Retained stored := by
    intro cache call next answer hinv hlimit h
    refine ⟨hinv.step h, fun stored hstored => ?_, fun _ hearlier => hearlier⟩
    rcases step_cases h with ⟨hnone, -⟩ |
      ⟨cacheIndex, entry, outcome, removed, added, rfl, hadd, rfl, hanswer⟩
    · cases hnone.symm.trans hstored
    · cases hanswer.symm.trans hstored
      exact retained_of_withinLimit hinv hlimit hadd
  obtain ⟨-, hall, -⟩ := @Guarded.run_invariant (CodeCache Entry) (CacheCall Entry)
    (Option (StoreReport Entry)) step WithinLimit TimedHaveEntries
    (fun _ answer => ∀ stored, answer = some stored → Retained stored) hstep calls _ last answers
    hguarded (.of_nil rfl) hrun
  exact fun stored hmem => hall _ hmem stored rfl

/-- The guard can be checked. -/
instance withinLimitDecidable (cache : CodeCache Entry) : ∀ call, Decidable (cache.WithinLimit call)
  | .store cacheIndex _ outcome =>
    inferInstanceAs (Decidable
      (if (Insert.insert cacheIndex.scriptID cache.timed).card = cache.maxCacheCount then
        (Insert.insert cacheIndex.scriptID cache.scripts).card ≤ cache.maxCacheCount + 1 ∧
          ∃ e ∈ cache.cacheLRUList, e.1 ≠ cacheIndex.scriptID ∧ e.2 < outcome.time ∧
            e.2 < maxTimeStamp
      else (Insert.insert cacheIndex.scriptID cache.scripts).card ≤ cache.maxCacheCount))
  | .setMaxCacheCount _ => isTrue trivial
  | .reopen _ => isTrue trivial

def storeAt (srcHash : UInt64) (time : Nat) : CacheCall Unit :=
  .store ⟨⟨srcHash, 10000⟩, 0⟩ () ⟨true, time, [], true, true⟩

/-- Three scripts, of which two may be kept. -/
def threeStores : List (CacheCall Unit) :=
  [.setMaxCacheCount 2, storeAt 1 100, storeAt 2 200, storeAt 3 300]

variable (calls : List (CacheCall Unit))

def answersOf : List (Option (StoreReport Unit)) :=
  ((run step calls (create none .ready)).map Prod.snd).getD []

def lastOf : CodeCache Unit :=
  ((run step calls (create none .ready)).map Prod.fst).getD (create none .ready)

theorem retained_threeStores : AllRetained (answersOf threeStores) :=
  @retained_of_run Unit none .ready threeStores (by decide +kernel) (lastOf threeStores)
    (answersOf threeStores) rfl

/-- With a limit of one, a script is removed when it is stored. -/
theorem limit_one_removes_script :
    ¬∀ calls : List (CacheCall Unit), AllRetained (answersOf calls) := by
  intro hretained
  have hanswers := hretained [.setMaxCacheCount 1, storeAt 1 100]
  obtain ⟨-, hkept, -⟩ := hanswers _ (mem_cons_of_mem _ mem_cons_self)
  exact hkept rfl

end CodeCache

end Escargot.Runtime
