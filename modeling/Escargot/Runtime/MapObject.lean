/-
# Map objects

`MapObject` keeps its entries in an append-only storage. A lookup scans the
storage while it is small and goes through the hash index afterwards. Every
operation is compared with an insertion-ordered association list whose keys are
compared by `SameValueZero`.
-/

import Escargot.Foundation.Run
import Escargot.Foundation.Tombstones
import Escargot.Runtime.KeyedCollection

namespace Escargot.Runtime

open List Option Escargot.Foundation

/-- A value of the language: the empty marker is none. -/
abbrev JSValue := { v : Value // v.isEmpty = false }

/-- `canonicalizeKeyedCollectionKey`: a key `-0` becomes `+0`. -/
def canonicalizeKeyedCollectionKey (key : Value) : Value :=
  match key.asNumber? with
  | some d => if d.isZero && d.signbit then .int32 0 else key
  | none => key

inductive MapOperation
  | set (key value : JSValue)
  | get (key : JSValue)
  | has (key : JSValue)
  | delete (key : JSValue)
  | clear
  | getOrInsert (key value : JSValue)
  | size

/-- What an operation answers. -/
inductive MapResult
  | done
  | value (v : Value)
  | boolean (b : Bool)
  | count (n : Nat)
  deriving DecidableEq

/-- Answers agree when JavaScript cannot tell them apart. -/
def MapResult.agrees : MapResult → MapResult → Prop
  | value v, value w => v.sameValue w
  | r, s => r = s

structure MapObject where
  storage : List (EncodedValue × EncodedValue)
  hashIndex : Option KeyedCollectionHashIndex

namespace MapObject

def empty : MapObject := ⟨[], none⟩

variable (map : MapObject) (key : Value)

def keys : List EncodedValue := map.storage.map Prod.fst

/-- The storage size at which a lookup of the key builds the index. -/
def threshold : Nat := if !key.isPointerValue then 128 else KeyedCollectionHashIndex.buildThreshold

/-- The part of `findKeyIndex` that goes through the index. -/
def searchIndex (index : KeyedCollectionHashIndex) : Option (MapObject × Option Nat × UInt64) :=
  (probeKeys index map.keys (.ofValue key) (keyedCollectionHash key)).map fun i =>
    ({ map with hashIndex := some index }, i, keyedCollectionHash key)

/-- `MapObject::findKeyIndex`, with the index it may have built and `outHash`. -/
def findKeyIndex : Option (MapObject × Option Nat × UInt64) :=
  match map.hashIndex with
  | some index => map.searchIndex key index
  | none =>
    if threshold key ≤ map.storage.length then
      match buildHashIndex map.keys with
      | none => none
      | some index => map.searchIndex key index
    else
      match scanKeys map.keys (.ofValue key) with
      | some i => some (map, some i, 0)
      | none => some (map, none, keyedCollectionHash key)

def addToHashIndex (storageIndex : Nat) (hash : UInt64) : Option MapObject :=
  match map.hashIndex with
  | none => some map
  | some index =>
    if index.needsRebuild then
      (buildHashIndex map.keys).map fun index => { map with hashIndex := some index }
    else
      let hash :=
        if hash = 0 then keyedCollectionHash (map.keys.getD storageIndex ⟨.empty⟩).toValue
        else hash
      (index.insert hash storageIndex).map fun index => { map with hashIndex := some index }

/-- `m_storage.pushBack` followed by `addToHashIndex`. -/
def pushBack (key value : Value) (hash : UInt64) : Option MapObject :=
  addToHashIndex { map with storage := map.storage ++ [(.ofValue key, .ofValue value)] }
    map.storage.length hash

def set (key value : Value) : Option (MapObject × MapResult) :=
  match map.findKeyIndex key with
  | none => none
  | some (map, some i, _) =>
    some ({ map with storage := map.storage.modify i fun e => (e.1, e.2.assign value) }, .done)
  | some (map, none, hash) =>
    (map.pushBack (canonicalizeKeyedCollectionKey key) value hash).map (·, .done)

/-- The value slot at a position of the storage. -/
def valueAt (i : Nat) : Value := (map.storage.getD i (⟨.empty⟩, ⟨.empty⟩)).2.toValue

def get : Option (MapObject × MapResult) :=
  match map.findKeyIndex key with
  | none => none
  | some (map, some i, _) => some (map, .value (map.valueAt i))
  | some (map, none, _) => some (map, .value .undefined)

def has : Option (MapObject × MapResult) :=
  match map.findKeyIndex key with
  | none => none
  | some (map, i, _) => some (map, .boolean i.isSome)

def deleteOperation : Option (MapObject × MapResult) :=
  match map.findKeyIndex key with
  | none => none
  | some (map, some i, _) =>
    some ({ map with storage := map.storage.modify i fun _ => (⟨.empty⟩, ⟨.empty⟩) }, .boolean true)
  | some (map, none, _) => some (map, .boolean false)

def clear : MapObject := ⟨map.storage.map fun _ => (⟨.empty⟩, ⟨.empty⟩), none⟩

def getOrInsert (key value : Value) : Option (MapObject × MapResult) :=
  match map.findKeyIndex (canonicalizeKeyedCollectionKey key) with
  | none => none
  | some (map, some i, _) => some (map, .value (map.valueAt i))
  | some (map, none, hash) =>
    (map.pushBack (canonicalizeKeyedCollectionKey key) value hash).map (·, .value value)

def size : Nat := map.storage.countP fun e => !e.1.isEmpty

/-- One operation on a map; `none` when a loop of it never ends. -/
def step : MapOperation → Option (MapObject × MapResult)
  | .set key value => map.set key.1 value.1
  | .get key => map.get key.1
  | .has key => map.has key.1
  | .delete key => map.deleteOperation key.1
  | .clear => some (map.clear, .done)
  | .getOrInsert key value => map.getOrInsert key.1 value.1
  | .size => some (map, .count map.size)

end MapObject

/-- An association list in insertion order. -/
abbrev ReferenceMap := List (Value × Value)

namespace ReferenceMap

variable (map : ReferenceMap) (key : Value)

def hit (entry : Value × Value) : Bool := entry.1.sameValueZero key

def lookup : Option Value := (map.find? (hit key)).map Prod.snd

def insert (key value : Value) : ReferenceMap :=
  map ++ [(canonicalizeKeyedCollectionKey key, value)]

def step : MapOperation → ReferenceMap × MapResult
  | .set key value =>
    if (lookup map key.1).isSome then
      (map.map fun e => if hit key.1 e then (e.1, value.1) else e, .done)
    else (map.insert key.1 value.1, .done)
  | .get key => (map, .value ((lookup map key.1).getD .undefined))
  | .has key => (map, .boolean (lookup map key.1).isSome)
  | .delete key => (map.filter fun e => !hit key.1 e, .boolean (lookup map key.1).isSome)
  | .clear => ([], .done)
  | .getOrInsert key value =>
    match lookup map key.1 with
    | some found => (map, .value found)
    | none => (map.insert key.1 value.1, .value value.1)
  | .size => (map, .count map.length)

end ReferenceMap

namespace MapObject

variable (map : MapObject) (key : Value)

/-- The lookup of the key goes through the hash index. -/
def usesIndex : Bool := map.hashIndex.isSome || threshold key ≤ map.storage.length

/-- A live stored key equal to the wanted one has a compatible representation
whenever the index is consulted. -/
def compatible : Prop :=
  map.usesIndex key = true → ∀ stored ∈ map.keys, stored.isEmpty = false →
    stored.value.sameValueZero key = true → stored.value.hashCompatible key = true

/-- One more key stays within the `uint32_t` limits of the index. -/
def hasRoom : Prop := map.storage.length + 1 < 2 ^ 32 ∧ (map.size + 1) * 6 < 2 ^ 31 * 5

/-- The steps on which the map does what it should. -/
def admits : MapOperation → Prop
  | .set key _ | .getOrInsert key _ =>
    map.compatible key.1 ∧ (scanKeys map.keys (.ofValue key.1) = none → map.hasRoom)
  | .get key | .has key | .delete key => map.compatible key.1
  | .clear | .size => True

instance : Decidable (map.compatible key) :=
  inferInstanceAs (Decidable (_ → ∀ stored ∈ map.keys, _ → _ → _))

instance : ∀ op, Decidable (map.admits op)
  | .set _ _ | .getOrInsert _ _ => inferInstanceAs (Decidable (_ ∧ (_ → _ ∧ _)))
  | .get key | .has key | .delete key => inferInstanceAs (Decidable (map.compatible key.1))
  | .clear | .size => isTrue trivial

/-- What every operation maintains. -/
structure Invariant (map : MapObject) : Prop where
  distinct : DistinctKeys map.keys
  length_lt : map.storage.length < 2 ^ 32
  live_lt : liveCount map.keys * 6 < 2 ^ 31 * 5
  index_covers : ∀ index, map.hashIndex = some index → index.WellFormed ∧ Covers index map.keys

theorem length_keys : map.keys.length = map.storage.length := length_map _

theorem size_eq_liveCount : map.size = liveCount map.keys := by
  rw [size, liveCount, keys, countP_map]
  rfl

theorem invariant_empty : empty.Invariant where
  distinct := List.Pairwise.nil
  length_lt := by decide
  live_lt := by decide
  index_covers := fun index h => by cases h

section Lookup

variable {map : MapObject} {key : Value}

theorem searchIndex_eq {index : KeyedCollectionHashIndex} (hinv : map.Invariant)
    (hwf : index.WellFormed) (hcovers : Covers index map.keys) (hkey : key.isEmpty = false)
    (huses : map.usesIndex key = true) (hcompatible : map.compatible key) :
    map.searchIndex key index = some ({ map with hashIndex := some index },
      scanKeys map.keys (.ofValue key), keyedCollectionHash key) := by
  rw [searchIndex, probeKeys_eq_scanKeys hwf hcovers hinv.distinct
    (by rw [length_keys]; exact hinv.length_lt) hkey]
  · rfl
  · intro stored hmem hlive hidentity
    have hsame := (Value.sameValueZero_iff _ _).mpr hidentity
    exact keyedCollectionHash_congr hidentity (hcompatible huses stored hmem hlive hsame)

/-- A safe lookup answers as the scan would, whichever way it takes. -/
theorem findKeyIndex_spec (hinv : map.Invariant) (hkey : key.isEmpty = false)
    (hcompatible : map.compatible key) :
    ∃ next hash, map.findKeyIndex key = some (next, scanKeys map.keys (.ofValue key), hash) ∧
      next.storage = map.storage ∧ next.Invariant ∧
      (scanKeys map.keys (.ofValue key) = none → hash = keyedCollectionHash key) := by
  rw [findKeyIndex]
  cases hindex : map.hashIndex with
  | some index =>
    obtain ⟨hwf, hcovers⟩ := hinv.index_covers index hindex
    have huses : map.usesIndex key = true := by rw [usesIndex, hindex]; rfl
    refine ⟨_, _, searchIndex_eq hinv hwf hcovers hkey huses hcompatible, rfl, ?_, fun _ => rfl⟩
    exact ⟨hinv.distinct, hinv.length_lt, hinv.live_lt,
      fun _ h => Option.some.inj h ▸ ⟨hwf, hcovers⟩⟩
  | none =>
    by_cases hthreshold : threshold key ≤ map.storage.length
    · obtain ⟨index, hbuild, hwf, hcovers⟩ := buildHashIndex_spec
        (by rw [length_keys]; exact hinv.length_lt) hinv.live_lt
      have huses : map.usesIndex key = true := by
        rw [usesIndex, decide_eq_true hthreshold, Bool.or_true]
      rw [if_pos hthreshold, hbuild]
      refine ⟨_, _, searchIndex_eq hinv hwf hcovers hkey huses hcompatible, rfl, ?_, fun _ => rfl⟩
      exact ⟨hinv.distinct, hinv.length_lt, hinv.live_lt,
        fun _ h => Option.some.inj h ▸ ⟨hwf, hcovers⟩⟩
    · rw [if_neg hthreshold]
      cases hscan : scanKeys map.keys (.ofValue key) with
      | some i => exact ⟨map, 0, rfl, rfl, hinv, fun h => by cases h⟩
      | none => exact ⟨map, _, rfl, rfl, hinv, fun _ => rfl⟩

end Lookup

section Change

variable {map next : MapObject}

/-- Each key slot is kept or buried. -/
def Buried (old new : EncodedValue × EncodedValue) : Prop := new.1.isEmpty = true ∨ new.1 = old.1

theorem Buried.refl (entry : EncodedValue × EncodedValue) : Buried entry entry := Or.inr rfl

theorem liveCount_le_of_buried {storage storage' : List (EncodedValue × EncodedValue)}
    (h : List.Forall₂ Buried storage storage') :
    liveCount (storage'.map Prod.fst) ≤ liveCount (storage.map Prod.fst) := by
  induction h with
  | nil => exact Nat.le_refl _
  | @cons old new storage storage' hfirst _ ih =>
    simp only [liveCount, map_cons, countP_cons] at ih ⊢
    rcases hfirst with hempty | hsame
    · rw [hempty]
      exact Nat.le_trans ih (Nat.le_add_right _ _)
    · rw [hsame]
      exact Nat.add_le_add_right ih _

theorem getElem?_keys_of_buried (h : List.Forall₂ Buried map.storage next.storage) {i : Nat}
    {key : EncodedValue} (hget : next.keys[i]? = some key) (hlive : key.isEmpty = false) :
    map.keys[i]? = some key := by
  obtain ⟨hi, hget⟩ := List.getElem?_eq_some_iff.mp hget
  rw [length_keys] at hi
  have hi' : i < map.storage.length := h.length_eq ▸ hi
  simp only [keys, getElem_map] at hget
  have hburied := h.get hi' hi
  simp only [get_eq_getElem, Buried, hget, hlive] at hburied
  rw [keys, getElem?_map, getElem?_eq_getElem hi', map_some]
  simpa [eq_comm] using hburied

/-- Burying keys keeps the invariant; stale buckets are harmless. -/
theorem Invariant.bury (hinv : map.Invariant)
    (hburied : List.Forall₂ Buried map.storage next.storage)
    (hindex : ∀ index, next.hashIndex = some index → map.hashIndex = some index) :
    next.Invariant where
  distinct := by
    rw [DistinctKeys, pairwise_iff_getElem]
    intro i j hi hj hij hlivei hlivej
    obtain ⟨hi', hgeti⟩ := List.getElem?_eq_some_iff.mp
      (getElem?_keys_of_buried hburied (getElem?_eq_getElem hi) hlivei)
    obtain ⟨hj', hgetj⟩ := List.getElem?_eq_some_iff.mp
      (getElem?_keys_of_buried hburied (getElem?_eq_getElem hj) hlivej)
    have hne := List.pairwise_iff_getElem.mp hinv.distinct i j hi' hj' hij
    rw [hgeti, hgetj] at hne
    exact hne hlivei hlivej
  length_lt := hburied.length_eq ▸ hinv.length_lt
  live_lt := by
    have hle := liveCount_le_of_buried hburied
    have hlt := hinv.live_lt
    rw [keys] at hlt ⊢
    omega
  index_covers := fun index h => by
    obtain ⟨hwf, hcovers⟩ := hinv.index_covers index (hindex index h)
    exact ⟨hwf, fun i key hget hlive =>
      hcovers i key (getElem?_keys_of_buried hburied hget hlive) hlive⟩

theorem Invariant.modify_value (hinv : map.Invariant) (i : Nat) (value : Value) :
    Invariant { map with storage := map.storage.modify i fun e => (e.1, e.2.assign value) } := by
  have hkeep : ∀ e : EncodedValue × EncodedValue, Buried e (e.1, e.2.assign value) :=
    fun _ => Or.inr rfl
  exact hinv.bury (forall₂_modify Buried.refl hkeep _ _) fun _ h => h

theorem Invariant.delete (hinv : map.Invariant) (i : Nat) :
    Invariant { map with storage := map.storage.modify i fun _ => (⟨.empty⟩, ⟨.empty⟩) } :=
  hinv.bury (forall₂_modify Buried.refl (fun _ => Or.inl rfl) _ _) fun _ h => h

theorem Invariant.clear (hinv : map.Invariant) : map.clear.Invariant := by
  refine hinv.bury ?_ fun _ h => by cases h
  rw [MapObject.clear, forall₂_map_right_iff]
  exact List.forall₂_same.mpr fun _ _ => Or.inl rfl

/-- The slot written for a new key has the hash the lookup computed. -/
theorem keyedCollectionHash_ofValue (key : Value) :
    keyedCollectionHash (EncodedValue.ofValue key).toValue = keyedCollectionHash key := by
  refine keyedCollectionHash_congr (EncodedValue.sameValue_ofValue key).1 ?_
  cases key with
  | string address s =>
    show Value.hashCompatible (.string address s) (.string address s)
    simp [Value.hashCompatible, EString.hashCompatible]
  | double d => cases (EncodedValue.ofValue (.double d)).toValue <;> rfl
  | _ => rfl

def liveEntries (map : MapObject) : List (EncodedValue × EncodedValue) :=
  map.storage.filter fun e => !e.1.isEmpty

theorem addToHashIndex_spec {front : List EncodedValue} {key : EncodedValue}
    (hkeys : map.keys = front ++ [key]) (hdistinct : DistinctKeys map.keys)
    (hlength : map.storage.length < 2 ^ 32) (hlive : liveCount map.keys * 6 < 2 ^ 31 * 5)
    (hfront : ∀ index, map.hashIndex = some index → index.WellFormed ∧ Covers index front) :
    ∃ next, map.addToHashIndex front.length (keyedCollectionHash key.toValue) = some next ∧
      next.storage = map.storage ∧ next.Invariant := by
  rw [addToHashIndex]
  cases hindex : map.hashIndex with
  | none =>
    exact ⟨map, rfl, rfl, hdistinct, hlength, hlive,
      fun index h => absurd (hindex.symm.trans h) (by simp)⟩
  | some index =>
    obtain ⟨hwf, hcovers⟩ := hfront index hindex
    have hfrontLength : front.length + 1 = map.storage.length := by
      rw [← length_keys, hkeys, length_append, length_singleton]
    dsimp only
    cases hrebuild : index.needsRebuild with
    | true =>
      obtain ⟨built, hbuild, hbuiltwf, hbuiltcovers⟩ :=
        buildHashIndex_spec (by rw [length_keys]; exact hlength) hlive
      rw [if_pos rfl, hbuild]
      exact ⟨_, rfl, rfl, hdistinct, hlength, hlive,
        fun _ h => Option.some.inj h ▸ ⟨hbuiltwf, hbuiltcovers⟩⟩
    | false =>
      have hhash : keyedCollectionHash (map.keys.getD front.length ⟨.empty⟩).toValue =
          keyedCollectionHash key.toValue := by
        rw [hkeys, getD_append_right _ _ _ _ (Nat.le_refl _), Nat.sub_self]
        rfl
      have hocc := hwf.occupied_of_not_needsRebuild hrebuild
      have hcapacity : 16 ≤ index.capacity.toNat := by
        obtain ⟨p, hp, -, hpow⟩ := hwf.capacity_pow
        rw [hpow]
        exact Nat.pow_le_pow_right (Nat.succ_pos 1) hp
      obtain ⟨grown, hinsert, hgrown, hsame, -, hkeep, hnew⟩ :=
        hwf.insert_spec (keyedCollectionHash key.toValue) front.length (by omega) (by omega)
      rw [if_neg (by decide), hhash, ite_self, hinsert]
      refine ⟨_, rfl, rfl, hdistinct, hlength, hlive, fun _ h => ?_⟩
      obtain rfl := Option.some.inj h
      refine ⟨hgrown, ?_⟩
      have hgrownCovers := hcovers.insert (by omega) hsame hkeep hnew
      rwa [← hkeys] at hgrownCovers

theorem pushBack_spec (hinv : map.Invariant) (hroom : map.hasRoom) {key : Value} (value : Value)
    (hkey : key.isEmpty = false)
    (hfresh : ∀ stored ∈ map.keys, stored.isEmpty = false → stored.value.identity ≠ key.identity) :
    ∃ next, map.pushBack key value (keyedCollectionHash key) = some next ∧
      next.storage = map.storage ++ [(.ofValue key, .ofValue value)] ∧ next.Invariant := by
  have hempty := (EncodedValue.isEmpty_ofValue key).trans hkey
  obtain ⟨hlength, hlive⟩ := hroom
  rw [size_eq_liveCount] at hlive
  rw [pushBack, ← length_keys, ← keyedCollectionHash_ofValue]
  apply addToHashIndex_spec
  · exact map_append
  · rw [DistinctKeys, keys, map_append, pairwise_append]
    refine ⟨hinv.distinct, pairwise_singleton _ _, fun stored hmem added hadded hlive _ => ?_⟩
    rw [List.mem_singleton.mp hadded, (EncodedValue.sameValue_ofValue key).1]
    exact hfresh stored hmem hlive
  · rw [length_append]
    exact hlength
  · rw [keys, map_append, liveCount, countP_append]
    simpa [liveCount, keys, hempty] using hlive
  · exact hinv.index_covers

end Change

/-- A storage entry holds the observable content of a reference entry. -/
def EntryAgrees (stored : EncodedValue × EncodedValue) (entry : Value × Value) : Prop :=
  stored.1.value.sameValue entry.1 ∧ stored.2.value.sameValue entry.2

/-- The live entries of the map are those of the reference, in order. -/
structure Represents (map : MapObject) (reference : ReferenceMap) : Prop where
  invariant : map.Invariant
  entries : List.Forall₂ EntryAgrees map.liveEntries reference

/-- The comparison of the searches, on storage entries. -/
def storedHit (key : Value) (stored : EncodedValue × EncodedValue) : Bool :=
  matchesKey stored.1 (.ofValue key)

section Refinement

variable {map next : MapObject} {reference : ReferenceMap} {key : Value}

theorem isEmpty_of_identity_eq {v w : Value} (h : v.identity = w.identity)
    (hw : w.isEmpty = false) : v.isEmpty = false := by
  cases v with
  | empty => cases w <;> simp_all [Value.identity, Value.isEmpty]
  | _ => rfl

theorem storedHit_iff (hkey : key.isEmpty = false) (stored : EncodedValue × EncodedValue) :
    storedHit key stored = true ↔ stored.1.value.identity = key.identity := by
  rw [storedHit, matchesKey_iff _ hkey]
  exact ⟨fun h => h.2, fun h => ⟨isEmpty_of_identity_eq h hkey, h⟩⟩

theorem storedHit_eq_hit (hkey : key.isEmpty = false) {stored : EncodedValue × EncodedValue}
    {entry : Value × Value} (h : EntryAgrees stored entry) :
    storedHit key stored = ReferenceMap.hit key entry := by
  rw [Bool.eq_iff_iff, storedHit_iff hkey, ReferenceMap.hit, Value.sameValueZero_iff, h.1.1]

theorem live_of_storedHit (hkey : key.isEmpty = false) (stored : EncodedValue × EncodedValue)
    (h : storedHit key stored = true) : (!stored.1.isEmpty) = true := by
  rw [Bool.not_eq_true']
  exact ((matchesKey_iff _ hkey).mp h).1

theorem uniqueHit_storage (hinv : map.Invariant) (hkey : key.isEmpty = false) :
    UniqueHit (storedHit key) map.storage := by
  have hdistinct := List.pairwise_map.mp hinv.distinct
  refine hdistinct.imp fun {a b} hne ha => ?_
  by_contra hb
  obtain ⟨hlivea, hida⟩ := (matchesKey_iff _ hkey).mp ha
  obtain ⟨hliveb, hidb⟩ := (matchesKey_iff _ hkey).mp (Bool.not_eq_false _ ▸ hb)
  exact hne hlivea hliveb (hida.trans hidb.symm)

theorem scanKeys_eq_findIdx? (map : MapObject) (key : Value) :
    scanKeys map.keys (.ofValue key) = map.storage.findIdx? (storedHit key) :=
  findIdx?_map

theorem find?_agrees {live : List (EncodedValue × EncodedValue)} (hkey : key.isEmpty = false)
    (h : List.Forall₂ EntryAgrees live reference) :
    Option.Rel EntryAgrees (live.find? (storedHit key))
      (reference.find? (ReferenceMap.hit key)) := by
  induction h with
  | nil => exact .none
  | @cons stored entry live reference hfirst _ ih =>
    rw [find?_cons, find?_cons, storedHit_eq_hit hkey hfirst]
    cases ReferenceMap.hit key entry with
    | true => exact .some hfirst
    | false => exact ih

theorem lookup_of_scan_some (hrep : Represents map reference) (hkey : key.isEmpty = false)
    {i : Nat} (hscan : scanKeys map.keys (.ofValue key) = some i) :
    ∃ found, reference.lookup key = some found ∧ (map.valueAt i).sameValue found := by
  rw [scanKeys_eq_findIdx?] at hscan
  obtain ⟨stored, hget, hfind⟩ := (uniqueHit_storage hrep.invariant hkey).getElem?_eq_find?
    (live_of_storedHit hkey) hscan
  have hrel := find?_agrees hkey hrep.entries
  rw [liveEntries, hfind] at hrel
  cases hlookup : reference.find? (ReferenceMap.hit key) with
  | none =>
    rw [hlookup] at hrel
    cases hrel
  | some entry =>
    rw [hlookup] at hrel
    cases hrel with
    | some hagrees =>
      refine ⟨entry.2, by rw [ReferenceMap.lookup, hlookup]; rfl, ?_⟩
      rw [valueAt, getD_eq_getElem?_getD, hget]
      exact hagrees.2

theorem lookup_of_scan_none (hrep : Represents map reference) (hkey : key.isEmpty = false)
    (hscan : scanKeys map.keys (.ofValue key) = none) : reference.lookup key = none := by
  rw [scanKeys_eq_findIdx?] at hscan
  have hrel := find?_agrees hkey hrep.entries
  rw [liveEntries, find?_filter_eq_none hscan] at hrel
  cases hlookup : reference.find? (ReferenceMap.hit key) with
  | none => rw [ReferenceMap.lookup, hlookup]; rfl
  | some entry =>
    rw [hlookup] at hrel
    cases hrel

theorem fresh_of_scan_none (hkey : key.isEmpty = false)
    (hscan : scanKeys map.keys (.ofValue key) = none) :
    ∀ stored ∈ map.keys, stored.isEmpty = false → stored.value.identity ≠ key.identity := by
  intro stored hmem hlive hidentity
  have hnot := List.findIdx?_eq_none_iff.mp hscan stored hmem
  exact absurd ((matchesKey_iff stored hkey).mpr ⟨hlive, hidentity⟩) (by rw [hnot]; decide)

section

variable (hrep : Represents map reference)
include hrep

theorem Represents.of_storage_eq (hinv : next.Invariant) (hstorage : next.storage = map.storage) :
    Represents next reference :=
  ⟨hinv, by rw [liveEntries, hstorage]; exact hrep.entries⟩

theorem Represents.modify_value (hkey : key.isEmpty = false) {i : Nat}
    (hscan : scanKeys map.keys (.ofValue key) = some i) (value : Value) :
    Represents { map with storage := map.storage.modify i fun e => (e.1, e.2.assign value) }
      (reference.map fun e => if ReferenceMap.hit key e then (e.1, value) else e) := by
  rw [scanKeys_eq_findIdx?] at hscan
  refine ⟨hrep.invariant.modify_value i value, ?_⟩
  rw [liveEntries, (uniqueHit_storage hrep.invariant hkey).filter_modify hscan
    (fun e => (e.1, e.2.assign value)) fun _ => rfl,
    forall₂_map_left_iff, forall₂_map_right_iff]
  refine hrep.entries.imp fun stored entry hagrees => ?_
  rw [storedHit_eq_hit hkey hagrees]
  cases ReferenceMap.hit key entry with
  | true => exact ⟨hagrees.1, EncodedValue.sameValue_assign stored.2 value⟩
  | false => exact hagrees

theorem Represents.delete (hkey : key.isEmpty = false) {i : Nat}
    (hscan : scanKeys map.keys (.ofValue key) = some i) :
    Represents { map with storage := map.storage.modify i fun _ => (⟨.empty⟩, ⟨.empty⟩) }
      (reference.filter fun e => !ReferenceMap.hit key e) := by
  rw [scanKeys_eq_findIdx?] at hscan
  refine ⟨hrep.invariant.delete i, ?_⟩
  rw [liveEntries, (uniqueHit_storage hrep.invariant hkey).filter_modify_dead hscan fun _ => rfl]
  refine rel_filter ?_ hrep.entries
  intro stored entry hagrees
  dsimp only
  rw [storedHit_eq_hit hkey hagrees]

theorem Represents.pushBack (hinv : next.Invariant) {key value : Value} (hkey : key.isEmpty = false)
    (hstorage : next.storage = map.storage ++ [(.ofValue key, .ofValue value)]) :
    Represents next (reference ++ [(key, value)]) := by
  have hempty := (EncodedValue.isEmpty_ofValue key).trans hkey
  refine ⟨hinv, ?_⟩
  rw [liveEntries, hstorage, filter_append]
  refine rel_append hrep.entries ?_
  rw [filter_cons_of_pos (by rw [hempty]; rfl)]
  exact .cons ⟨EncodedValue.sameValue_ofValue key, EncodedValue.sameValue_ofValue value⟩ .nil

theorem Represents.clear : Represents map.clear [] := by
  refine ⟨hrep.invariant.clear, ?_⟩
  rw [liveEntries, MapObject.clear, List.filter_eq_nil_iff.mpr]
  · exact .nil
  · intro e he
    obtain ⟨-, -, rfl⟩ := List.mem_map.mp he
    decide

end

end Refinement

section Step

variable {map : MapObject} {reference : ReferenceMap} {key : Value}

theorem identity_canonicalize (key : Value) :
    (canonicalizeKeyedCollectionKey key).identity = key.identity := by
  rw [canonicalizeKeyedCollectionKey]
  cases hnumber : key.asNumber? with
  | none => rfl
  | some d =>
    dsimp only
    split
    · rename_i hzero
      rw [Bool.and_eq_true] at hzero
      have hidentity : key.identity = (Value.double d).identity := by
        cases key <;> simp_all [Value.asNumber?, Value.identity]
      rw [hidentity, ← Value.sameValueZero_iff]
      have hnan : d.isnan = false := by
        rw [Double.isZero, beq_iff_eq] at hzero
        rw [Double.isnan, hzero.1]
        rfl
      simp only [Value.sameValueZero, Value.sameValueZeroSlowCase, Value.isPointerValue,
        Value.asNumber?, Value.numberSameValueZero, hnan, Double.isnan_ofInt32, Double.eq,
        hzero.1, Double.isZero_ofInt32]
      simp
    · rfl

theorem hashCompatible_canonicalize {stored : Value} (h : stored.hashCompatible key = true) :
    stored.hashCompatible (canonicalizeKeyedCollectionKey key) = true := by
  rw [canonicalizeKeyedCollectionKey]
  cases key.asNumber? with
  | none => exact h
  | some d =>
    dsimp only
    split
    · cases stored <;> rfl
    · exact h

theorem threshold_canonicalize (key : Value) :
    threshold (canonicalizeKeyedCollectionKey key) = threshold key := by
  rw [canonicalizeKeyedCollectionKey]
  cases key <;> simp only [Value.asNumber?] <;> split <;> rfl

theorem isEmpty_canonicalize (hkey : key.isEmpty = false) :
    (canonicalizeKeyedCollectionKey key).isEmpty = false :=
  isEmpty_of_identity_eq (identity_canonicalize key) hkey

theorem compatible_canonicalize (h : map.compatible key) :
    map.compatible (canonicalizeKeyedCollectionKey key) := by
  intro huses stored hmem hlive hsame
  rw [usesIndex, threshold_canonicalize] at huses
  rw [Value.sameValueZero_iff, identity_canonicalize, ← Value.sameValueZero_iff] at hsame
  exact hashCompatible_canonicalize (h huses stored hmem hlive hsame)

theorem scanKeys_canonicalize (keys : List EncodedValue) (hkey : key.isEmpty = false) :
    scanKeys keys (.ofValue (canonicalizeKeyedCollectionKey key)) =
      scanKeys keys (.ofValue key) := by
  rw [scanKeys, scanKeys]
  congr 1
  funext stored
  rw [Bool.eq_iff_iff, matchesKey_iff _ hkey, matchesKey_iff _ (isEmpty_canonicalize hkey),
    identity_canonicalize]

theorem keyedCollectionHash_canonicalize (key : Value) :
    keyedCollectionHash (canonicalizeKeyedCollectionKey key) = keyedCollectionHash key := by
  refine keyedCollectionHash_congr (identity_canonicalize key) ?_
  cases key with
  | string address s => simp [canonicalizeKeyedCollectionKey, Value.asNumber?,
      Value.hashCompatible, EString.hashCompatible]
  | _ => cases canonicalizeKeyedCollectionKey _ <;> rfl

variable {next : MapObject}

theorem insert_related (hrep : Represents next reference) (hkey : key.isEmpty = false)
    (hscan : scanKeys next.keys (.ofValue key) = none) (hroom : next.hasRoom) (value : Value) :
    ∃ last, next.pushBack (canonicalizeKeyedCollectionKey key) value (keyedCollectionHash key) =
        some last ∧ Represents last (reference.insert key value) := by
  have hcanonical := isEmpty_canonicalize hkey
  obtain ⟨last, hpush, hstorage, hinv⟩ := pushBack_spec hrep.invariant hroom value hcanonical
    (fresh_of_scan_none hcanonical (by rwa [scanKeys_canonicalize _ hkey]))
  rw [keyedCollectionHash_canonicalize] at hpush
  exact ⟨last, hpush, hrep.pushBack hinv hcanonical hstorage⟩

theorem hasRoom_of_storage_eq (hstorage : next.storage = map.storage) (hroom : map.hasRoom) :
    next.hasRoom := by
  rw [hasRoom, size, hstorage]
  exact hroom

theorem keys_of_storage_eq (hstorage : next.storage = map.storage) : next.keys = map.keys := by
  rw [keys, hstorage, keys]

/-- A safe step returns, answers as the reference does and keeps the relation. -/
theorem step_related (op : MapOperation) (hrep : Represents map reference)
    (hadmits : map.admits op) :
    ∃ next out, map.step op = some (next, out) ∧ out.agrees (reference.step op).2 ∧
      Represents next (reference.step op).1 := by
  cases op with
  | clear => exact ⟨_, _, rfl, rfl, hrep.clear⟩
  | size =>
    refine ⟨_, _, rfl, ?_, hrep⟩
    show MapResult.count map.size = MapResult.count reference.length
    rw [← hrep.entries.length_eq, size, liveEntries, countP_eq_length_filter]
  | get key =>
    obtain ⟨next, hash, hfind, hstorage, hinv, -⟩ := findKeyIndex_spec hrep.invariant key.2 hadmits
    have hrep' := hrep.of_storage_eq hinv hstorage
    rw [step, get, hfind]
    cases hscan : scanKeys map.keys (.ofValue key.1) with
    | some i =>
      rw [← keys_of_storage_eq hstorage] at hscan
      obtain ⟨found, hlookup, hsame⟩ := lookup_of_scan_some hrep' key.2 hscan
      refine ⟨next, _, rfl, ?_, hrep'⟩
      rw [ReferenceMap.step, hlookup]
      exact hsame
    | none =>
      refine ⟨next, _, rfl, ?_, hrep'⟩
      rw [ReferenceMap.step, lookup_of_scan_none hrep key.2 hscan]
      exact Value.sameValue.refl _
  | has key =>
    obtain ⟨next, hash, hfind, hstorage, hinv, -⟩ := findKeyIndex_spec hrep.invariant key.2 hadmits
    rw [step, has, hfind]
    refine ⟨next, _, rfl, ?_, hrep.of_storage_eq hinv hstorage⟩
    rw [ReferenceMap.step]
    cases hscan : scanKeys map.keys (.ofValue key.1) with
    | some i =>
      obtain ⟨found, hlookup, -⟩ := lookup_of_scan_some hrep key.2 hscan
      rw [hlookup]
      rfl
    | none =>
      rw [lookup_of_scan_none hrep key.2 hscan]
      rfl
  | delete key =>
    obtain ⟨next, hash, hfind, hstorage, hinv, -⟩ := findKeyIndex_spec hrep.invariant key.2 hadmits
    have hrep' := hrep.of_storage_eq hinv hstorage
    rw [step, deleteOperation, hfind]
    cases hscan : scanKeys map.keys (.ofValue key.1) with
    | some i =>
      obtain ⟨found, hlookup, -⟩ := lookup_of_scan_some hrep key.2 hscan
      rw [← keys_of_storage_eq hstorage] at hscan
      refine ⟨_, _, rfl, ?_, hrep'.delete key.2 hscan⟩
      rw [ReferenceMap.step, hlookup]
      rfl
    | none =>
      have hlookup := lookup_of_scan_none hrep key.2 hscan
      refine ⟨next, _, rfl, ?_, ?_⟩
      · rw [ReferenceMap.step, hlookup]
        rfl
      · rw [ReferenceMap.step, List.filter_eq_self.mpr]
        · exact hrep'
        · intro entry hmem
          have hnot := List.find?_eq_none.mp (Option.map_eq_none_iff.mp hlookup) entry hmem
          rw [Bool.not_eq_true']
          exact Bool.eq_false_iff.mpr hnot
  | set key value =>
    obtain ⟨hcompatible, hroom⟩ := hadmits
    obtain ⟨next, hash, hfind, hstorage, hinv, hhash⟩ :=
      findKeyIndex_spec hrep.invariant key.2 hcompatible
    have hrep' := hrep.of_storage_eq hinv hstorage
    rw [step, set, hfind]
    cases hscan : scanKeys map.keys (.ofValue key.1) with
    | some i =>
      obtain ⟨found, hlookup, -⟩ := lookup_of_scan_some hrep key.2 hscan
      rw [← keys_of_storage_eq hstorage] at hscan
      rw [ReferenceMap.step, hlookup, if_pos isSome_some]
      exact ⟨_, _, rfl, rfl, hrep'.modify_value key.2 hscan value.1⟩
    | none =>
      have hlookup := lookup_of_scan_none hrep key.2 hscan
      have hscan' := keys_of_storage_eq hstorage ▸ hscan
      obtain ⟨last, hpush, hlast⟩ := insert_related hrep' key.2 hscan'
        (hasRoom_of_storage_eq hstorage (hroom hscan)) value.1
      dsimp only
      rw [hhash hscan, hpush, ReferenceMap.step, hlookup, if_neg (by simp)]
      exact ⟨last, _, rfl, rfl, hlast⟩
  | getOrInsert key value =>
    obtain ⟨hcompatible, hroom⟩ := hadmits
    obtain ⟨next, hash, hfind, hstorage, hinv, hhash⟩ :=
      findKeyIndex_spec hrep.invariant (isEmpty_canonicalize key.2)
        (compatible_canonicalize hcompatible)
    have hrep' := hrep.of_storage_eq hinv hstorage
    rw [scanKeys_canonicalize _ key.2, keyedCollectionHash_canonicalize] at hhash
    rw [step, getOrInsert, hfind, scanKeys_canonicalize _ key.2]
    cases hscan : scanKeys map.keys (.ofValue key.1) with
    | some i =>
      rw [← keys_of_storage_eq hstorage] at hscan
      obtain ⟨found, hlookup, hsame⟩ := lookup_of_scan_some hrep' key.2 hscan
      rw [ReferenceMap.step, hlookup]
      exact ⟨next, _, rfl, hsame, hrep'⟩
    | none =>
      have hlookup := lookup_of_scan_none hrep key.2 hscan
      have hscan' := keys_of_storage_eq hstorage ▸ hscan
      obtain ⟨last, hpush, hlast⟩ := insert_related hrep' key.2 hscan'
        (hasRoom_of_storage_eq hstorage (hroom hscan)) value.1
      dsimp only
      rw [hhash hscan, hpush, ReferenceMap.step, hlookup]
      exact ⟨last, _, rfl, Value.sameValue.refl _, hlast⟩

end Step

theorem simulation : GuardedSimulation step ReferenceMap.step admits Represents
    MapResult.agrees where
  step_related := fun {_ _ op} hrep hadmits => step_related op hrep hadmits

theorem represents_empty : Represents empty [] := ⟨invariant_empty, .nil⟩

/-- Every run whose steps are safe returns, and each of its answers is the
answer of the association list. -/
theorem run_refines_association_list (ops : List MapOperation)
    (hguarded : Guarded step admits ops empty) :
    ∃ last outs, run step ops empty = some (last, outs) ∧
      List.Forall₂ MapResult.agrees outs (referenceRun ReferenceMap.step ops []).2 := by
  obtain ⟨last, outs, hrun, hagree, -⟩ := simulation.run_related ops represents_empty hguarded
  exact ⟨last, outs, hrun, hagree⟩

/-- The object at the `k`-th aligned address. -/
def objectKey (k : Nat) : JSValue := ⟨.object (16 * k + 16), rfl⟩

def doubleKey (d : Double) : JSValue := ⟨.double d, rfl⟩

def int32Key (n : Int32) : JSValue := ⟨.int32 n, rfl⟩

/-- Twenty objects are stored, ten of them removed and twenty more stored, so that the index is
built, and rebuilt without the removed ones; `-0` is stored, and found as `0`. -/
def rebuiltOps : List MapOperation :=
  (List.range 20).map (fun k => .set (objectKey k) (objectKey k)) ++
    ((List.range 10).map (fun k => .delete (objectKey k)) ++
      ((List.range 20).map (fun k => .set (objectKey (k + 10)) (objectKey 0)) ++
        [.set (doubleKey 0x8000000000000000) ⟨.null, rfl⟩, .get (objectKey 12),
          .has (objectKey 3), .get (int32Key 0), .size]))

theorem run_refines_association_list_rebuilt : ∃ last outs,
    run step rebuiltOps empty = some (last, outs) ∧
      List.Forall₂ MapResult.agrees outs (referenceRun ReferenceMap.step rebuiltOps []).2 ∧
      outs.drop 51 = [.value (objectKey 0).1, .boolean false, .value .null, .count 21] := by
  have hanswers : (run step rebuiltOps empty).map (fun result => result.2.drop 51) =
      some [.value (objectKey 0).1, .boolean false, .value .null, .count 21] := by decide +kernel
  obtain ⟨last, outs, hrun, hagree⟩ := run_refines_association_list rebuiltOps (by decide +kernel)
  rw [hrun] at hanswers
  exact ⟨last, outs, hrun, hagree, Option.some.inj hanswers⟩

/-- Storing under the first 215 one-unit Latin-1 strings, which takes the index
to 512 buckets. -/
def latin1Sets : List MapOperation :=
  (List.range 215).map fun unit =>
    .set ⟨.string (16 * unit + 16) (.latin1 [UInt8.ofNat unit]), rfl⟩ ⟨.null, rfl⟩

/-- The key `0xC9`, stored in 8 bits, looked up in 16. -/
def wideKey : JSValue := ⟨.string 8 (.utf16 [0xC9]), rfl⟩

theorem run_latin1Sets_misses :
    (run step (latin1Sets ++ [.has wideKey]) empty).map (fun result => result.2.getLast?) =
      some (some (.boolean false)) := by
  decide +kernel

end MapObject

namespace ReferenceMap

variable (map : ReferenceMap) {key : Value}

theorem lookup_isSome_iff (key : Value) :
    (map.lookup key).isSome = true ↔ ∃ entry ∈ map, entry.1.identity = key.identity := by
  rw [lookup, isSome_map, find?_isSome]
  simp only [hit, Value.sameValueZero_iff]

theorem lookup_isSome_set (k v : JSValue)
    (h : (map.lookup key).isSome = true ∨ k.1.identity = key.identity) :
    (lookup (map.step (.set k v)).1 key).isSome = true := by
  have hmapped : ∀ entry ∈ map, entry.1.identity = key.identity →
      ∃ e ∈ map.map (fun e => if hit k.1 e then (e.1, v.1) else e),
        e.1.identity = key.identity := by
    intro entry hmem hentry
    refine ⟨_, List.mem_map.mpr ⟨entry, hmem, rfl⟩, ?_⟩
    split
    · exact hentry
    · exact hentry
  rw [lookup_isSome_iff] at h ⊢
  rw [step]
  split
  · rename_i hfound
    rcases h with ⟨entry, hmem, hentry⟩ | hk
    · exact hmapped entry hmem hentry
    · obtain ⟨entry, hmem, hentry⟩ := (lookup_isSome_iff map k.1).mp hfound
      exact hmapped entry hmem (hentry.trans hk)
  · rcases h with ⟨entry, hmem, hentry⟩ | hk
    · exact ⟨entry, mem_append_left _ hmem, hentry⟩
    · exact ⟨_, mem_append_right _ (mem_singleton_self _),
        (MapObject.identity_canonicalize k.1).trans hk⟩

theorem lookup_isSome_referenceRun (sets : List (JSValue × JSValue)) : ∀ map : ReferenceMap,
      (map.lookup key).isSome = true ∨ (∃ entry ∈ sets, entry.1.1.identity = key.identity) →
      (lookup (referenceRun step (sets.map fun e => .set e.1 e.2) map).1 key).isSome = true := by
  induction sets with
  | nil =>
    rintro map (h | ⟨_, hmem, _⟩)
    · exact h
    · cases hmem
  | cons first sets ih =>
    rintro map (h | ⟨entry, hmem, hentry⟩)
    · exact ih _ (Or.inl (map.lookup_isSome_set first.1 first.2 (Or.inl h)))
    · rcases List.mem_cons.mp hmem with rfl | hrest
      · exact ih _ (Or.inl (map.lookup_isSome_set entry.1 entry.2 (Or.inr hentry)))
      · exact ih _ (Or.inr ⟨entry, hrest, hentry⟩)

end ReferenceMap

namespace MapObject

/-- Not every run agrees with the association list: a stored key is missed under
its other width. -/
theorem run_not_always_refines :
    ¬ ∀ ops : List MapOperation, ∃ last outs, run step ops empty = some (last, outs) ∧
      List.Forall₂ MapResult.agrees outs (referenceRun ReferenceMap.step ops []).2 := by
  intro hall
  obtain ⟨last, outs, hrun, hagree⟩ := hall (latin1Sets ++ [.has wideKey])
  have hmiss := run_latin1Sets_misses
  rw [hrun, map_some, Option.some.injEq] at hmiss
  rw [referenceRun_concat] at hagree
  have hlast := forall₂_drop_append _ _ _ hagree
  obtain ⟨out, rest, hout, hrest, hdrop⟩ := List.forall₂_cons_right_iff.mp hlast
  rw [List.forall₂_nil_right_iff.mp hrest] at hdrop
  have houts := take_append_drop (referenceRun ReferenceMap.step latin1Sets []).2.length outs
  rw [hdrop] at houts
  rw [← houts, getLast?_concat, Option.some.injEq] at hmiss
  have hset : (ReferenceMap.lookup (referenceRun ReferenceMap.step latin1Sets []).1
      wideKey.1).isSome = true := by
    have hsets := @ReferenceMap.lookup_isSome_referenceRun wideKey.1
      ((List.range 215).map fun unit =>
        (⟨.string (16 * unit + 16) (.latin1 [UInt8.ofNat unit]), rfl⟩, ⟨.null, rfl⟩)) []
      (Or.inr ⟨_, List.mem_map.mpr ⟨0xC9, by decide, rfl⟩, by decide⟩)
    rwa [List.map_map] at hsets
  rw [hmiss, ReferenceMap.step, hset] at hout
  exact absurd hout (by simp [MapResult.agrees])

end MapObject

end Escargot.Runtime
