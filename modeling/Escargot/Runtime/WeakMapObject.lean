/-
# Weak maps and sets

An entry of a `WeakMapObject` is gone when its key is deleted or collected. Where there is no
hash index its place is taken by a new entry, and otherwise it stays until the index is built
again. `WeakSetObject` has the same code without data.
-/

import Escargot.Foundation.Run
import Escargot.Foundation.Tombstones
import Escargot.Runtime.KeyedCollection

namespace Escargot.Runtime

open List Escargot.Foundation

variable {α : Type*}

/-- Keys are the addresses of objects and symbols. An entry whose key is a null pointer is none:
the data is cleared with it. -/
structure WeakMapObject (α : Type*) where
  storage : List (Option (Nat × α))
  hashIndex : Option KeyedCollectionHashIndex

inductive WeakMapOperation (α : Type*)
  | set (key : Nat) (data : α)
  | get (key : Nat)
  | has (key : Nat)
  | delete (key : Nat)
  | getOrInsert (key : Nat) (data : α)
  /-- The collector clears the entries of dead keys. -/
  | collect (dead : List Nat)

inductive WeakMapResult (α : Type*)
  | done
  | data (data : Option α)
  | boolean (b : Bool)
  deriving DecidableEq

namespace WeakMapObject

def empty : WeakMapObject α := ⟨[], none⟩

/-- A key as a value, on which the searches of Map compare addresses. -/
def keyOf (item : Option (Nat × α)) : EncodedValue := item.elim ⟨.empty⟩ fun e => ⟨.object e.1⟩

variable (map : WeakMapObject α) (key : Nat) (data : α)

def keys : List EncodedValue := map.storage.map keyOf

/-- Dead entries are compacted away first. -/
def buildOrRebuildHashIndex : Option (WeakMapObject α) :=
  let storage := map.storage.filter Option.isSome
  (buildHashIndex (storage.map keyOf)).map fun index => ⟨storage, some index⟩

def searchIndex : Option (WeakMapObject α × Option Nat) :=
  map.hashIndex.bind fun index =>
    (probeKeys index map.keys (.ofValue (.object key)) (keyedCollectionPointerHash key)).map
      (map, ·)

def findKeyIndex : Option (WeakMapObject α × Option Nat) :=
  if map.hashIndex.isSome then map.searchIndex key
  else if KeyedCollectionHashIndex.buildThreshold ≤ map.storage.length then
    map.buildOrRebuildHashIndex.bind (searchIndex · key)
  else some (map, scanKeys map.keys (.ofValue (.object key)))

/-- `addToHashIndex` of the last entry, which has this key. -/
def addToHashIndex (storageIndex : Nat) : Option (WeakMapObject α) :=
  match map.hashIndex with
  | none => some map
  | some index =>
    if index.needsRebuild then map.buildOrRebuildHashIndex
    else (index.insert (keyedCollectionPointerHash key) storageIndex).map fun index =>
      { map with hashIndex := some index }

/-- The place of a dead entry is taken only where there is no index. -/
def insertNew : Option (WeakMapObject α) :=
  match if map.hashIndex.isNone then map.storage.findIdx? Option.isNone else none with
  | some i => some { map with storage := map.storage.set i (some (key, data)) }
  | none =>
    addToHashIndex { map with storage := map.storage ++ [some (key, data)] } key map.storage.length

def deleteOperation : Option (WeakMapObject α × WeakMapResult α) :=
  (map.findKeyIndex key).map fun
    | (map, none) => (map, .boolean false)
    | (map, some i) =>
      if map.hashIndex.isSome then
        ({ map with storage := map.storage.set i none }, .boolean true)
      else ({ map with storage := map.storage.eraseIdx i }, .boolean true)

def dataAt (i : Nat) : Option α := (map.storage.getD i none).map Prod.snd

def set : Option (WeakMapObject α × WeakMapResult α) :=
  (map.findKeyIndex key).bind fun
    | (map, some i) => some ({ map with storage := map.storage.set i (some (key, data)) }, .done)
    | (map, none) => (map.insertNew key data).map (·, .done)

def getOrInsert : Option (WeakMapObject α × WeakMapResult α) :=
  (map.findKeyIndex key).bind fun
    | (map, some i) => some (map, .data (map.dataAt i))
    | (map, none) => (map.insertNew key data).map (·, .data data)

def step : WeakMapOperation α → Option (WeakMapObject α × WeakMapResult α)
  | .set key data => map.set key data
  | .get key =>
    (map.findKeyIndex key).map fun found => (found.1, .data (found.2.bind found.1.dataAt))
  | .has key => (map.findKeyIndex key).map fun found => (found.1, .boolean found.2.isSome)
  | .delete key => map.deleteOperation key
  | .getOrInsert key data => map.getOrInsert key data
  | .collect dead =>
    some ({ map with storage := map.storage.map (·.filter fun e => decide (e.1 ∉ dead)) }, .done)

/-- A partial map from addresses. -/
def referenceStep (map : Nat → Option α) : WeakMapOperation α → (Nat → Option α) × WeakMapResult α
  | .set key data => (Function.update map key data, .done)
  | .get key => (map, .data (map key))
  | .has key => (map, .boolean (map key).isSome)
  | .delete key => (Function.update map key none, .boolean (map key).isSome)
  | .getOrInsert key data =>
    match map key with
    | some found => (map, .data found)
    | none => (Function.update map key data, .data data)
  | .collect dead => (fun key => if key ∈ dead then none else map key, .done)

/-- Entries of different keys. -/
def Apart (item other : Option (Nat × α)) : Prop := ∀ e ∈ item, ∀ f ∈ other, e.1 ≠ f.1

structure Invariant (map : WeakMapObject α) : Prop where
  distinct : map.storage.Pairwise Apart
  small : map.storage.length * 6 < 2 ^ 31 * 5
  index_covers : ∀ index, map.hashIndex = some index → index.WellFormed ∧ Covers index map.keys

/-- One more entry stays within the `uint32_t` limits of the index. -/
def admits : WeakMapOperation α → Prop
  | .set _ _ | .getOrInsert _ _ => (map.storage.length + 1) * 6 < 2 ^ 31 * 5
  | _ => True

instance : ∀ op, Decidable (map.admits op)
  | .set _ _ | .getOrInsert _ _ => inferInstanceAs (Decidable (_ < _))
  | .get _ | .has _ | .delete _ | .collect _ => isTrue trivial

/-- The live entries of the map are those of a partial map. -/
structure Related (map : WeakMapObject α) (reference : Nat → Option α) : Prop where
  invariant : map.Invariant
  entries : ∀ key data, some (key, data) ∈ map.storage ↔ reference key = some data

variable {map next : WeakMapObject α} {key : Nat} {data : α} {storage : List (Option (Nat × α))}
  {reference : Nat → Option α}

theorem item_eq_iff {e : Nat × α} :
    some (key, data) = some e ↔ e.1 = key ∧ some data = some e.2 := by
  rw [Option.some_inj, Option.some_inj, Prod.ext_iff]
  exact and_congr_left' eq_comm

theorem Apart.symm {item other : Option (Nat × α)} (h : Apart item other) : Apart other item :=
  fun e he f hf heq => h f hf e he heq.symm

theorem distinctKeys (h : storage.Pairwise Apart) : DistinctKeys (storage.map keyOf) := by
  refine List.pairwise_map.mpr (h.imp fun {item other} hapart hitem hother heq => ?_)
  cases item with
  | none => cases hitem
  | some e =>
    cases other with
    | none => cases hother
    | some f => exact hapart e rfl f rfl (Value.object.inj (Value.Identity.immediate.inj heq))

theorem matchesKey_keyOf (item : Option (Nat × α)) :
    matchesKey (keyOf item) (.ofValue (.object key)) = true ↔ ∃ data, item = some (key, data) := by
  rw [matchesKey_iff _ rfl]
  constructor
  · rintro ⟨hlive, heq⟩
    cases item with
    | none => cases hlive
    | some e =>
      obtain rfl := Value.object.inj (Value.Identity.immediate.inj heq)
      exact ⟨e.2, rfl⟩
  · rintro ⟨data, rfl⟩
    exact ⟨rfl, rfl⟩

/-- An index covers what takes the places of covered keys. -/
theorem covers_thin {index : KeyedCollectionHashIndex} (hcovers : Covers index map.keys)
    (hthin : ∀ (i : Nat) (e : Nat × α), next.storage[i]? = some (some e) →
      ∃ f : Nat × α, map.storage[i]? = some (some f) ∧ f.1 = e.1) : Covers index next.keys := by
  intro i stored hstored hlive
  rw [keys, getElem?_map] at hstored
  obtain ⟨item, hitem, rfl⟩ := Option.map_eq_some_iff.mp hstored
  cases item with
  | none => cases hlive
  | some e =>
    obtain ⟨f, hf, hkey⟩ := hthin i e hitem
    refine hcovers i _ ?_ hlive
    rw [keys, getElem?_map, hf, Option.map_some, keyOf, keyOf, Option.elim_some, Option.elim_some,
      hkey]

theorem Related.rebuild (h : Related map reference) : ∃ next,
    map.buildOrRebuildHashIndex = some next ∧ Related next reference ∧
      next.hashIndex.isSome = true ∧ next.storage.length ≤ map.storage.length := by
  have hlength := List.length_filter_le Option.isSome map.storage
  have hsmall := h.invariant.small
  have hcount : liveCount ((map.storage.filter Option.isSome).map keyOf) ≤ _ := countP_le_length
  rw [length_map] at hcount
  obtain ⟨index, hbuild, hwf, hcovers⟩ := @buildHashIndex_spec
    ((map.storage.filter Option.isSome).map keyOf) (by rw [length_map]; omega) (by omega)
  refine ⟨⟨_, some index⟩, by rw [buildOrRebuildHashIndex, hbuild]; rfl, ⟨⟨?_, ?_, ?_⟩, ?_⟩, rfl,
    hlength⟩
  · exact h.invariant.distinct.sublist List.filter_sublist
  · dsimp only
    omega
  · intro found hfound
    obtain rfl := Option.some.inj hfound
    exact ⟨hwf, hcovers⟩
  · intro key data
    rw [← h.entries, List.mem_filter, Option.isSome_some, and_iff_left rfl]

theorem Related.searchIndex (h : Related map reference) (hindex : map.hashIndex.isSome = true) :
    map.searchIndex key = some (map, scanKeys map.keys (.ofValue (.object key))) := by
  obtain ⟨index, hindex⟩ := Option.isSome_iff_exists.mp hindex
  obtain ⟨hwf, hcovers⟩ := h.invariant.index_covers index hindex
  have hsmall := h.invariant.small
  rw [WeakMapObject.searchIndex, hindex, Option.bind_some, probeKeys_eq_scanKeys hwf hcovers
    (distinctKeys h.invariant.distinct) (by rw [keys, length_map]; omega) rfl, Option.map_some]
  intro stored hstored hlive heq
  obtain ⟨item, -, rfl⟩ := List.mem_map.mp hstored
  obtain ⟨data, rfl⟩ := (matchesKey_keyOf item).mp ((matchesKey_iff _ rfl).mpr ⟨hlive, heq⟩)
  rfl

/-- A lookup may build the index. It finds the entry of a key, if there is one. -/
theorem Related.findKeyIndex (h : Related map reference) (key : Nat) : ∃ next found,
    map.findKeyIndex key = some (next, found) ∧ Related next reference ∧
      next.storage.length ≤ map.storage.length ∧ (found = none ∧ reference key = none ∨
        ∃ i data, found = some i ∧ next.storage[i]? = some (some (key, data)) ∧
          reference key = some data) := by
  obtain ⟨next, hfind, hnext, hlength⟩ : ∃ next, map.findKeyIndex key =
      some (next, scanKeys next.keys (.ofValue (.object key))) ∧ Related next reference ∧
        next.storage.length ≤ map.storage.length := by
    rw [WeakMapObject.findKeyIndex]
    split_ifs with hindex hthreshold
    · exact ⟨map, h.searchIndex hindex, h, Nat.le_refl _⟩
    · obtain ⟨next, hbuild, hnext, hindex, hlength⟩ := h.rebuild
      exact ⟨next, by rw [hbuild, Option.bind_some, hnext.searchIndex hindex], hnext, hlength⟩
    · exact ⟨map, rfl, h, Nat.le_refl _⟩
  refine ⟨next, _, hfind, hnext, hlength, ?_⟩
  cases hscan : scanKeys next.keys (.ofValue (.object key)) with
  | none =>
    refine .inl ⟨rfl, Option.eq_none_iff_forall_not_mem.mpr fun data hdata => ?_⟩
    have hmiss := List.findIdx?_eq_none_iff.mp hscan _
      (mem_map_of_mem ((hnext.entries key data).mpr hdata))
    rw [(matchesKey_keyOf _).mpr ⟨data, rfl⟩] at hmiss
    cases hmiss
  | some i =>
    obtain ⟨hi, hmatch, -⟩ := List.findIdx?_eq_some_iff_getElem.mp hscan
    rw [keys, length_map] at hi
    simp only [keys, getElem_map] at hmatch
    obtain ⟨data, hdata⟩ := (matchesKey_keyOf _).mp hmatch
    exact .inr ⟨i, data, rfl, by rw [getElem?_eq_getElem hi, hdata],
      (hnext.entries key data).mp (hdata ▸ getElem_mem hi)⟩

/-- The entry of one key is exchanged, wherever the new one is put. -/
theorem Related.exchange (h : Related map reference) (old new rest : List (Option (Nat × α)))
    {data : Option α} (hold : map.storage ~ old ++ rest) (hnew : next.storage ~ new ++ rest)
    (holdKey : ∀ e, some e ∈ old ↔ e.1 = key ∧ reference key = some e.2)
    (hnewKey : ∀ e, some e ∈ new ↔ e.1 = key ∧ data = some e.2) (hone : new.Pairwise Apart)
    (hsmall : next.storage.length * 6 < 2 ^ 31 * 5)
    (hcovers : ∀ index, next.hashIndex = some index → index.WellFormed ∧ Covers index next.keys) :
    Related next (Function.update reference key data) := by
  have hdistinct := (hold.pairwise_iff Apart.symm).mp h.invariant.distinct
  obtain ⟨-, hrest, hapart⟩ := List.pairwise_append.mp hdistinct
  have hother : ∀ e, some e ∈ rest → e.1 ≠ key := by
    rintro ⟨_, found⟩ he rfl
    have hfound := (h.entries _ found).mp (hold.mem_iff.mpr (mem_append_right _ he))
    exact hapart _ ((holdKey _).mpr ⟨rfl, hfound⟩) _ he _ rfl _ rfl rfl
  refine ⟨⟨(hnew.pairwise_iff Apart.symm).mpr (List.pairwise_append.mpr ⟨hone, hrest, ?_⟩), hsmall,
    hcovers⟩, fun k found => ?_⟩
  · rintro _ hitem _ hmem e rfl f rfl
    rw [((hnewKey e).mp hitem).1]
    exact (hother f hmem).symm
  · rw [hnew.mem_iff, List.mem_append, hnewKey]
    by_cases hk : k = key
    · subst hk
      have hnot : some (k, found) ∉ rest := fun hmem => hother _ hmem rfl
      rw [Function.update_self, or_iff_left hnot, and_iff_right rfl]
    · have hnot : some (k, found) ∉ old := fun hmem => hk ((holdKey _).mp hmem).1
      rw [Function.update_of_ne hk, ← h.entries, hold.mem_iff, List.mem_append, or_iff_right hnot,
        or_iff_right fun hboth => hk hboth.1]

/-- What stands at a place is exchanged for something of the same key, or for nothing. -/
theorem Related.exchangeAt (h : Related map reference) {i : Nat} {old : Option (Nat × α)}
    (new : Option (Nat × α)) (hold : map.storage[i]? = some old)
    (holdKey : ∀ e, old = some e ↔ e.1 = key ∧ reference key = some e.2)
    (hnewKey : ∀ e, new = some e → e.1 = key)
    (hplace : map.hashIndex = none ∨ ∀ e, new = some e → old.isSome = true) :
    Related { map with storage := map.storage.set i new }
      (Function.update reference key (new.map Prod.snd)) := by
  obtain ⟨hi, rfl⟩ := List.getElem?_eq_some_iff.mp hold
  refine h.exchange [map.storage[i]] [new] (map.storage.eraseIdx i)
    (List.getElem_cons_eraseIdx_perm hi).symm (List.set_perm_cons_eraseIdx hi new) (fun e => ?_)
    (fun e => ?_) (List.pairwise_singleton _ _) ?_ fun index hindex => ?_
  · rw [List.mem_singleton, eq_comm, holdKey]
  · rw [List.mem_singleton]
    constructor
    · rintro rfl
      exact ⟨hnewKey e rfl, rfl⟩
    · rintro ⟨hkey, hdata⟩
      obtain ⟨f, rfl, hf⟩ := Option.map_eq_some_iff.mp hdata
      exact congrArg some (Prod.ext (hkey.trans (hnewKey f rfl).symm) hf.symm)
  · rw [length_set]
    exact h.invariant.small
  · obtain ⟨hwf, hcovers⟩ := h.invariant.index_covers index hindex
    refine ⟨hwf, covers_thin hcovers fun j e hj => ?_⟩
    rcases getElem?_set_cases hj with ⟨rfl, heq⟩ | ⟨-, hj⟩
    · have hsome := hplace.resolve_left (by rw [hindex]; simp) e heq.symm
      obtain ⟨f, hf⟩ := Option.isSome_iff_exists.mp hsome
      exact ⟨f, hold.trans (congrArg some hf),
        ((holdKey f).mp hf).1.trans (hnewKey e heq.symm).symm⟩
    · exact ⟨e, hj, rfl⟩

/-- An entry of a new key takes the place of a dead one, or is appended. -/
theorem Related.insertNew (h : Related map reference) (habsent : reference key = none) (data : α)
    (hroom : (map.storage.length + 1) * 6 < 2 ^ 31 * 5) : ∃ next,
      map.insertNew key data = some next ∧
        Related next (Function.update reference key (some data)) := by
  have hnone : ∀ e : Nat × α, ¬(e.1 = key ∧ reference key = some e.2) := by
    rw [habsent]
    exact fun e hboth => by cases hboth.2
  have hpush : ∀ hashIndex, (∀ index, hashIndex = some index → index.WellFormed ∧
      Covers index (map.keys ++ [keyOf (some (key, data))])) →
      Related ⟨map.storage ++ [some (key, data)], hashIndex⟩
        (Function.update reference key (some data)) := by
    intro hashIndex hcovers
    refine h.exchange [] [some (key, data)] map.storage (Perm.refl _)
      (perm_append_singleton _ _) (fun e => iff_of_false not_mem_nil (hnone e)) (fun e => ?_)
      (List.pairwise_singleton _ _) (by rwa [length_append]) fun index hindex => ?_
    · rw [List.mem_singleton, eq_comm, item_eq_iff]
    · rw [keys, map_append]
      exact hcovers index hindex
  rw [WeakMapObject.insertNew]
  cases hindex : map.hashIndex with
  | none =>
    rw [Option.isNone_none, if_pos rfl]
    cases hhole : map.storage.findIdx? Option.isNone with
    | none => exact ⟨_, rfl, hpush none nofun⟩
    | some i =>
      obtain ⟨hi, hdead, -⟩ := List.findIdx?_eq_some_iff_getElem.mp hhole
      have hold : map.storage[i]? = some none := by
        rw [getElem?_eq_getElem hi, Option.isNone_iff_eq_none.mp hdead]
      refine ⟨_, rfl, hindex ▸ h.exchangeAt (some (key, data)) hold
        (fun e => iff_of_false nofun (hnone e)) (fun e he => ?_) (.inl hindex)⟩
      rw [← Option.some.inj he]
  | some index =>
    obtain ⟨hwf, hcovers⟩ := h.invariant.index_covers index hindex
    rw [Option.isNone_some, if_neg Bool.false_ne_true]
    dsimp only [addToHashIndex]
    split_ifs with hfull
    · obtain ⟨next, hbuild, hnext, -⟩ := (hpush none nofun).rebuild
      exact ⟨next, hbuild, hnext⟩
    · have hoccupied := hwf.occupied_of_not_needsRebuild (Bool.not_eq_true _ ▸ hfull)
      have hcapacity : 16 ≤ index.capacity.toNat := by
        obtain ⟨p, hp, -, hpow⟩ := hwf.capacity_pow
        rw [hpow]
        exact Nat.pow_le_pow_right (Nat.succ_pos 1) hp
      obtain ⟨after, hinsert, hafter, hsame, -, hkeep, hnew⟩ :=
        hwf.insert_spec (keyedCollectionPointerHash key) map.storage.length (by omega) (by omega)
      have hlength : map.keys.length = map.storage.length := length_map _
      refine ⟨_, by rw [hinsert, Option.map_some], hpush (some after) fun found hfound => ?_⟩
      obtain rfl := Option.some.inj hfound
      exact ⟨hafter, hcovers.insert (by omega) hsame hkeep (hlength ▸ hnew)⟩

theorem Related.deleteAt (h : Related map reference) {i : Nat}
    (hget : map.storage[i]? = some (some (key, data))) (hdata : reference key = some data)
    (hindex : map.hashIndex = none) : Related { map with storage := map.storage.eraseIdx i }
      (Function.update reference key none) := by
  obtain ⟨hi, hitem⟩ := List.getElem?_eq_some_iff.mp hget
  have hperm := List.getElem_cons_eraseIdx_perm hi
  rw [hitem] at hperm
  refine h.exchange [some (key, data)] [] _ hperm.symm (Perm.refl _) (fun e => ?_)
    (fun e => iff_of_false not_mem_nil (by simp)) .nil ?_ fun index hsome => nomatch hindex ▸ hsome
  · rw [List.mem_singleton, eq_comm, hdata, item_eq_iff]
  · have hle := List.length_eraseIdx_le map.storage i
    have hsmall := h.invariant.small
    dsimp only
    omega

theorem Related.collect (h : Related map reference) (dead : List Nat) :
    Related { map with storage := map.storage.map (·.filter fun e => decide (e.1 ∉ dead)) }
      fun key => if key ∈ dead then none else reference key := by
  refine ⟨⟨?_, by rw [length_map]; exact h.invariant.small, fun index hindex => ?_⟩, ?_⟩
  · refine List.pairwise_map.mpr (h.invariant.distinct.imp fun hapart e he f hf => ?_)
    exact hapart e (Option.filter_eq_some_iff.mp he).1 f (Option.filter_eq_some_iff.mp hf).1
  · obtain ⟨hwf, hcovers⟩ := h.invariant.index_covers index hindex
    refine ⟨hwf, covers_thin hcovers fun i e he => ?_⟩
    rw [getElem?_map] at he
    obtain ⟨item, hitem, hfilter⟩ := Option.map_eq_some_iff.mp he
    rw [Option.filter_eq_some_iff] at hfilter
    exact ⟨e, hitem.trans (congrArg some hfilter.1), rfl⟩
  · intro key data
    simp only [List.mem_map, Option.filter_eq_some_iff, decide_eq_true_eq]
    split_ifs with hdead
    · simp [hdead]
    · simp [hdead, h.entries]

theorem simulation : GuardedSimulation (step (α := α)) referenceStep admits Related Eq := by
  refine ⟨fun {map reference op} h hadmits => ?_⟩
  cases op with
  | collect dead => exact ⟨_, _, rfl, rfl, h.collect dead⟩
  | get key =>
    obtain ⟨next, _, hfind, hnext, -, ⟨rfl, hdata⟩ | ⟨i, data, rfl, hget, hdata⟩⟩ :=
      h.findKeyIndex key
    · exact ⟨next, .data none, by rw [step, hfind]; rfl, congrArg _ hdata.symm, hnext⟩
    · refine ⟨next, .data (next.dataAt i), by rw [step, hfind]; rfl, congrArg _ ?_, hnext⟩
      rw [dataAt, List.getD, hget, hdata]
      rfl
  | has key =>
    obtain ⟨next, _, hfind, hnext, -, ⟨rfl, hdata⟩ | ⟨i, data, rfl, hget, hdata⟩⟩ :=
      h.findKeyIndex key
    · exact ⟨next, .boolean false, by rw [step, hfind]; rfl, by rw [referenceStep, hdata]; rfl,
        hnext⟩
    · exact ⟨next, .boolean true, by rw [step, hfind]; rfl, by rw [referenceStep, hdata]; rfl,
        hnext⟩
  | delete key =>
    obtain ⟨next, _, hfind, hnext, -, ⟨rfl, hdata⟩ | ⟨i, data, rfl, hget, hdata⟩⟩ :=
      h.findKeyIndex key
    · refine ⟨next, .boolean false, by rw [step, deleteOperation, hfind]; rfl,
        by rw [referenceStep, hdata]; rfl, ?_⟩
      rw [referenceStep, Function.update_eq_self_iff.mpr hdata.symm]
      exact hnext
    · rw [step, deleteOperation, hfind, referenceStep, hdata, Option.map_some]
      dsimp only
      split_ifs with hindex
      · refine ⟨_, .boolean true, rfl, rfl, hnext.exchangeAt none hget (fun e => ?_) nofun
          (.inr nofun)⟩
        rw [hdata, item_eq_iff]
      · exact ⟨_, .boolean true, rfl, rfl,
          hnext.deleteAt hget hdata (Option.not_isSome_iff_eq_none.mp hindex)⟩
  | set key data =>
    obtain ⟨next, _, hfind, hnext, hle, ⟨rfl, hdata⟩ | ⟨i, old, rfl, hget, hdata⟩⟩ :=
      h.findKeyIndex key
    · obtain ⟨last, hinsert, hlast⟩ := hnext.insertNew hdata data (by rw [admits] at hadmits; omega)
      refine ⟨last, .done, ?_, rfl, hlast⟩
      simp only [step, set, hfind, Option.bind_some, hinsert, Option.map_some]
    · refine ⟨_, .done, by rw [step, set, hfind]; rfl, rfl,
        hnext.exchangeAt (some (key, data)) hget (fun e => ?_) (fun e he => ?_)
          (.inr fun _ _ => rfl)⟩
      · rw [hdata, item_eq_iff]
      · rw [← Option.some.inj he]
  | getOrInsert key data =>
    obtain ⟨next, _, hfind, hnext, hle, ⟨rfl, hdata⟩ | ⟨i, old, rfl, hget, hdata⟩⟩ :=
      h.findKeyIndex key
    · obtain ⟨last, hinsert, hlast⟩ := hnext.insertNew hdata data (by rw [admits] at hadmits; omega)
      rw [referenceStep, hdata]
      refine ⟨last, .data (some data), ?_, rfl, hlast⟩
      simp only [step, getOrInsert, hfind, Option.bind_some, hinsert, Option.map_some]
    · rw [referenceStep, hdata]
      refine ⟨next, .data (next.dataAt i), by rw [step, getOrInsert, hfind]; rfl, congrArg _ ?_,
        hnext⟩
      rw [dataAt, List.getD, hget]
      rfl

/-- Every run on a weak map answers as a partial map does, from which the collector takes the dead
keys, as long as the storage stays within the limits of the index. -/
theorem run_refines_partial_map (ops : List (WeakMapOperation α))
    (hroom : Guarded step admits ops empty) : ∃ last, run step ops empty =
      some (last, (referenceRun referenceStep ops fun _ => none).2) := by
  have hempty : Related (α := α) empty fun _ => none :=
    ⟨⟨.nil, Nat.zero_lt_succ _, nofun⟩, fun key data => iff_of_false not_mem_nil nofun⟩
  obtain ⟨last, outs, hrun, hagree, -⟩ := simulation.run_related ops hempty hroom
  rw [List.forall₂_eq_eq_eq] at hagree
  exact ⟨last, hagree ▸ hrun⟩

/-- Forty keys are stored, some of which die or are removed, before and after the index is
built, and twenty more are stored. -/
def collectedOps : List (WeakMapOperation Nat) :=
  (List.range 40).map (fun k => .set (16 * k) k) ++
    (.collect ((List.range 10).map (16 * ·)) :: .delete 160 ::
      ((List.range 20).map (fun k => .set (16 * k + 800) k) ++
        [.has 16, .get 160, .get 176, .getOrInsert 16 1, .get 816]))

theorem run_refines_partial_map_collected :
    ∃ last outs, run step collectedOps empty = some (last, outs) ∧ last.hashIndex.isSome ∧
      outs = (referenceRun referenceStep collectedOps fun _ => none).2 ∧
      outs.drop 62 = [.boolean false, .data none, .data (some 11), .data (some 1), .data (some 1)] := by
  have hends : (run step collectedOps empty).map (fun result =>
      (result.1.hashIndex.isSome, result.2.drop 62)) = some (true,
        [.boolean false, .data none, .data (some 11), .data (some 1), .data (some 1)]) := by
    decide +kernel
  obtain ⟨last, hrun⟩ := run_refines_partial_map collectedOps (by decide +kernel)
  rw [hrun] at hends
  obtain ⟨hindex, houts⟩ := Prod.mk.inj (Option.some.inj hends)
  exact ⟨last, _, hrun, hindex, rfl, houts⟩

end WeakMapObject

abbrev WeakSetObject := WeakMapObject Unit

namespace WeakSetObject

variable (set : WeakSetObject) (key : Nat)

/-- An object that is in the set already is left alone. -/
def add : Option WeakSetObject :=
  (WeakMapObject.findKeyIndex set key).bind fun
    | (set, some _) => some set
    | (set, none) => WeakMapObject.insertNew set key ()

def has : Option (WeakSetObject × Bool) :=
  (WeakMapObject.findKeyIndex set key).map fun found => (found.1, found.2.isSome)

def deleteOperation : Option (WeakSetObject × WeakMapResult Unit) :=
  WeakMapObject.deleteOperation set key

/-- The operations of a weak set are steps of a weak map without data. -/
theorem steps_of_map : (set.step (.getOrInsert key ())).map Prod.fst = set.add key ∧
    set.step (.has key) = (set.has key).map (fun answer => (answer.1, .boolean answer.2)) ∧
    set.step (.delete key) = set.deleteOperation key := by
  refine ⟨?_, ?_, rfl⟩
  · rw [WeakMapObject.step, WeakMapObject.getOrInsert, add]
    rcases WeakMapObject.findKeyIndex set key with _ | ⟨set, _ | i⟩
    · rfl
    · show ((WeakMapObject.insertNew set key ()).map (·, _)).map Prod.fst = _
      rw [Option.map_map]
      exact Option.map_id_apply
    · rfl
  · rw [WeakMapObject.step, has, Option.map_map]
    rfl

end WeakSetObject

end Escargot.Runtime
