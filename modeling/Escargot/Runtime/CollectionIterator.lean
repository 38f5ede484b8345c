/-
# Iterators of maps and sets

`Map` and `Set` iterators hold an index into the append-only storage of their
collection and go to the next slot that is not empty. Every interleaving of their
advances with the operations of the collection is compared with visitors that
have a list of the entries they have still to visit.
-/

import Escargot.Foundation.Cursor
import Escargot.Runtime.MapObject

namespace Escargot.Runtime

open List Option Escargot.Foundation

inductive IteratorValue
  | single (v : Value)
  | pair (key value : Value)

/-- `MapIteratorObject::Type`. -/
inductive MapIterationType
  | key
  | value
  | keyValue

namespace MapObject

def isLive (entry : EncodedValue × EncodedValue) : Bool := !entry.1.isEmpty

/-- What `clear` and `deleteOperation` leave. -/
def tombstone : EncodedValue × EncodedValue := (⟨.empty⟩, ⟨.empty⟩)

end MapObject

abbrev MapIteratorObject := MapIterationType × Cursor

namespace MapIteratorObject

/-- The result for an entry that is not empty. -/
def result (itemKind : MapIterationType) (e : EncodedValue × EncodedValue) : IteratorValue :=
  match itemKind with
  | .key => .single e.1.toValue
  | .value => .single e.2.toValue
  | .keyValue => .pair e.1.toValue e.2.toValue

/-- `MapIteratorObject::advance`; no value stands for done. -/
def advance (map : MapObject) (iterator : MapIteratorObject) :
    MapIteratorObject × Option IteratorValue :=
  advanceIterator MapObject.isLive result map.storage iterator

end MapIteratorObject

def MapObject.iteratedStep (state : Iterated MapObject MapIterationType) :
    IterationOperation MapOperation MapIterationType →
      Option (Iterated MapObject MapIterationType × IterationAnswer MapResult IteratorValue) :=
  Iterated.step MapObject.step MapIteratorObject.advance state

structure SetObject where
  storage : List EncodedValue
  hashIndex : Option KeyedCollectionHashIndex

inductive SetOperation
  | add (key : JSValue)
  | has (key : JSValue)
  | delete (key : JSValue)
  | clear
  | size

namespace SetObject

def empty : SetObject := ⟨[], none⟩

variable (set : SetObject) (key : Value)

/-- The part of `findKeyIndex` that goes through the index. -/
def searchIndex (index : KeyedCollectionHashIndex) : Option (SetObject × Option Nat × UInt64) :=
  (probeKeys index set.storage (.ofValue key) (keyedCollectionHash key)).map fun i =>
    ({ set with hashIndex := some index }, i, keyedCollectionHash key)

/-- `SetObject::findKeyIndex`, with the index it may have built and `outHash`. -/
def findKeyIndex : Option (SetObject × Option Nat × UInt64) :=
  match set.hashIndex with
  | some index => set.searchIndex key index
  | none =>
    if MapObject.threshold key ≤ set.storage.length then
      match buildHashIndex set.storage with
      | none => none
      | some index => set.searchIndex key index
    else
      match scanKeys set.storage (.ofValue key) with
      | some i => some (set, some i, 0)
      | none => some (set, none, keyedCollectionHash key)

def addToHashIndex (storageIndex : Nat) (hash : UInt64) : Option SetObject :=
  match set.hashIndex with
  | none => some set
  | some index =>
    if index.needsRebuild then
      (buildHashIndex set.storage).map fun index => { set with hashIndex := some index }
    else
      let hash :=
        if hash = 0 then keyedCollectionHash (set.storage.getD storageIndex ⟨.empty⟩).toValue
        else hash
      (index.insert hash storageIndex).map fun index => { set with hashIndex := some index }

/-- `m_storage.pushBack` followed by `addToHashIndex`. -/
def pushBack (hash : UInt64) : Option SetObject :=
  addToHashIndex { set with storage := set.storage ++ [.ofValue key] } set.storage.length hash

def add : Option (SetObject × MapResult) :=
  match set.findKeyIndex key with
  | none => none
  | some (set, some _, _) => some (set, .done)
  | some (set, none, hash) =>
    (set.pushBack (canonicalizeKeyedCollectionKey key) hash).map (·, .done)

def has : Option (SetObject × MapResult) :=
  match set.findKeyIndex key with
  | none => none
  | some (set, i, _) => some (set, .boolean i.isSome)

def deleteOperation : Option (SetObject × MapResult) :=
  match set.findKeyIndex key with
  | none => none
  | some (set, some i, _) =>
    some ({ set with storage := set.storage.modify i fun _ => ⟨.empty⟩ }, .boolean true)
  | some (set, none, _) => some (set, .boolean false)

def clear : SetObject := ⟨set.storage.map fun _ => ⟨.empty⟩, none⟩

def size : Nat := set.storage.countP fun key => !key.isEmpty

/-- One operation on a set; `none` when a loop of it never ends. -/
def step : SetOperation → Option (SetObject × MapResult)
  | .add key => set.add key.1
  | .has key => set.has key.1
  | .delete key => set.deleteOperation key.1
  | .clear => some (set.clear, .done)
  | .size => some (set, .count set.size)

/-- An entry that was not deleted. -/
def isLive (key : EncodedValue) : Bool := !key.isEmpty

end SetObject

/-- `SetIteratorObject::Type`. -/
inductive SetIterationType
  | key
  | value
  | keyValue

abbrev SetIteratorObject := SetIterationType × Cursor

namespace SetIteratorObject

/-- The result for an entry that is not empty. -/
def result (itemKind : SetIterationType) (e : EncodedValue) : IteratorValue :=
  match itemKind with
  | .keyValue => .pair e.toValue e.toValue
  | .key | .value => .single e.toValue

/-- `SetIteratorObject::advance`; no value stands for done. -/
def advance (set : SetObject) (iterator : SetIteratorObject) :
    SetIteratorObject × Option IteratorValue :=
  advanceIterator SetObject.isLive result set.storage iterator

end SetIteratorObject

def SetObject.iteratedStep (state : Iterated SetObject SetIterationType) :
    IterationOperation SetOperation SetIterationType →
      Option (Iterated SetObject SetIterationType × IterationAnswer MapResult IteratorValue) :=
  Iterated.step SetObject.step SetIteratorObject.advance state

def MapOperation.key? : MapOperation → Option JSValue
  | .set key _ | .get key | .has key | .delete key | .getOrInsert key _ => some key
  | .clear | .size => none

/-- The operations of a map, once a lookup has found an entry or none. -/
def MapObject.description : Description (EncodedValue × EncodedValue) MapOperation MapResult where
  hit op entry :=
    match op.key? with
    | some key => entry.1.value.sameValueZero key.1
    | none => false
  change
    | .set _ value, some number => .assign number fun e => (e.1, e.2.assign value.1)
    | .set key value, none | .getOrInsert key value, none =>
      .append (.ofValue (canonicalizeKeyedCollectionKey key.1), .ofValue value.1)
    | .delete _, some number => .bury number
    | .clear, _ => .buryAll
    | _, _ => .keep
  answer
    | .set _ _, _, _ | .clear, _, _ => .done
    | .get _, some entry, _ | .getOrInsert _ _, some entry, _ => .value entry.2.toValue
    | .get _, none, _ => .value .undefined
    | .getOrInsert _ value, none, _ => .value value.1
    | .has _, found, _ | .delete _, found, _ => .boolean found.isSome
    | .size, _, entries => .count entries.length

def SetOperation.key? : SetOperation → Option JSValue
  | .add key | .has key | .delete key => some key
  | .clear | .size => none

/-- The operations of a set, once a lookup has found an entry or none. -/
def SetObject.description : Description EncodedValue SetOperation MapResult where
  hit op entry :=
    match op.key? with
    | some key => entry.value.sameValueZero key.1
    | none => false
  change
    | .add key, none => .append (.ofValue (canonicalizeKeyedCollectionKey key.1))
    | .delete _, some number => .bury number
    | .clear, _ => .buryAll
    | _, _ => .keep
  answer
    | .add _, _, _ | .clear, _, _ => .done
    | .has _, found, _ | .delete _, found, _ => .boolean found.isSome
    | .size, _, entries => .count entries.length

/-- A position is that of an entry with the key. -/
def HasKeyAt (keys : List EncodedValue) (key : Value) (i : Nat) : Prop :=
  ∃ stored, keys[i]? = some stored ∧ stored.isEmpty = false ∧ stored.value.sameValueZero key = true

section Lookup

variable {keys : List EncodedValue} {key : Value}

theorem hasKeyAt_of_matches (hkey : key.isEmpty = false) {i : Nat} {stored : EncodedValue}
    (hget : keys[i]? = some stored) (hmatches : matchesKey stored (.ofValue key) = true) :
    HasKeyAt keys key i := by
  obtain ⟨hlive, hidentity⟩ := (matchesKey_iff stored hkey).mp hmatches
  exact ⟨stored, hget, hlive, (Value.sameValueZero_iff _ _).mpr hidentity⟩

theorem scanKeys_hasKeyAt (hkey : key.isEmpty = false) {i : Nat}
    (h : scanKeys keys (.ofValue key) = some i) : HasKeyAt keys key i := by
  obtain ⟨hi, hmatches, -⟩ := List.findIdx?_eq_some_iff_getElem.mp h
  exact hasKeyAt_of_matches hkey (getElem?_eq_getElem hi) hmatches

theorem probeKeys_hasKeyAt (hkey : key.isEmpty = false) {index : KeyedCollectionHashIndex}
    {hash : UInt64} {i : Nat} (h : probeKeys index keys (.ofValue key) hash = some (some i)) :
    HasKeyAt keys key i := by
  obtain ⟨k, -, hstop, -⟩ := probe_eq_some_iff.mp h
  dsimp only at hstop
  split at hstop
  · cases hstop
  · split at hstop
    · rename_i hmatches
      cases hstop
      cases hget : keys[(index.buckets ((nextSlot index.mask)^[k]
          (hash.toNat &&& index.mask))).toNat - 1]? with
      | some stored =>
        rw [getD_eq_getElem?_getD, hget] at hmatches
        exact hasKeyAt_of_matches hkey hget hmatches
      | none =>
        -- a position past the end reads as empty, which matches no key
        rw [getD_eq_getElem?_getD, hget] at hmatches
        cases ((matchesKey_iff _ hkey).mp hmatches).1
    · cases hstop

end Lookup

namespace MapObject

variable {map next : MapObject} {key : Value} {found : Option Nat} {hash : UInt64}

theorem searchIndex_sound (hkey : key.isEmpty = false) {index : KeyedCollectionHashIndex}
    (h : map.searchIndex key index = some (next, found, hash)) :
    next.storage = map.storage ∧ ∀ i, found = some i → HasKeyAt map.keys key i := by
  obtain ⟨i, hprobe, hresult⟩ := Option.map_eq_some_iff.mp h
  cases hresult
  refine ⟨rfl, ?_⟩
  rintro i rfl
  exact probeKeys_hasKeyAt hkey hprobe

theorem findKeyIndex_sound (hkey : key.isEmpty = false)
    (h : map.findKeyIndex key = some (next, found, hash)) :
    next.storage = map.storage ∧ ∀ i, found = some i → HasKeyAt map.keys key i := by
  rw [findKeyIndex] at h
  split at h
  · exact searchIndex_sound hkey h
  · split at h
    · split at h
      · cases h
      · exact searchIndex_sound hkey h
    · split at h
      · rename_i i hscan
        cases h
        refine ⟨rfl, ?_⟩
        rintro _ ⟨⟩
        exact scanKeys_hasKeyAt hkey hscan
      · cases h
        exact ⟨rfl, fun _ hsome => by cases hsome⟩

theorem addToHashIndex_storage {storageIndex : Nat}
    (h : map.addToHashIndex storageIndex hash = some next) : next.storage = map.storage := by
  rw [addToHashIndex] at h
  split at h
  · cases h
    rfl
  · split at h
    · obtain ⟨index, -, rfl⟩ := Option.map_eq_some_iff.mp h
      rfl
    · obtain ⟨index, -, rfl⟩ := Option.map_eq_some_iff.mp h
      rfl

end MapObject

section Entries

variable {ε Op Out : Type} {live : ε → Bool} {keyOf : ε → EncodedValue}
  {description : Description ε Op Out} {strict : Bool} {op : Op} {key wanted : Value}
  {storage : List ε} {found : Option Nat}

theorem allows_of_lookup (hlive : ∀ e, live e = !(keyOf e).isEmpty)
    (hhit : ∀ e, description.hit op e = (keyOf e).value.sameValueZero wanted)
    (hkey : key.identity = wanted.identity)
    (hfound : ∀ i, found = some i → HasKeyAt (storage.map keyOf) key i)
    (hstrict : strict = true → found = none → ∀ stored ∈ storage.map keyOf,
      stored.isEmpty = false → stored.value.identity ≠ key.identity) :
    Visits.allows description strict (liveFrom live storage 0) op found = true := by
  cases found with
  | some i =>
    obtain ⟨stored, hget, hempty, hsame⟩ := hfound i rfl
    rw [getElem?_map] at hget
    obtain ⟨e, he, rfl⟩ := Option.map_eq_some_iff.mp hget
    refine List.any_eq_true.mpr ⟨(e, i), mem_liveFrom.mpr ⟨he, ?_, Nat.zero_le _⟩, ?_⟩
    · rw [hlive, hempty]
      rfl
    · rw [Value.sameValueZero_iff, hkey, ← Value.sameValueZero_iff] at hsame
      rw [hhit, hsame, beq_self_eq_true]
      rfl
  | none =>
    cases strict with
    | false => rfl
    | true =>
      show (!true || (liveFrom live storage 0).all fun e => !description.hit op e.1) = true
      rw [Bool.not_true, Bool.false_or, List.all_eq_true]
      intro e he
      obtain ⟨hget, hlive', -⟩ := mem_liveFrom.mp he
      rw [hlive, Bool.not_eq_true'] at hlive'
      have hne := hstrict rfl rfl (keyOf e.1)
        (List.mem_map.mpr ⟨e.1, mem_of_getElem? hget, rfl⟩) hlive'
      rw [hhit, Bool.not_eq_true', Bool.eq_false_iff]
      intro hsame
      rw [Value.sameValueZero_iff, ← hkey] at hsame
      exact hne hsame

theorem named_of_lookup (hlive : ∀ e, live e = !(keyOf e).isEmpty) {i : Nat}
    (h : HasKeyAt (storage.map keyOf) key i) :
    ∃ e, storage[i]? = some e ∧ Visits.named (liveFrom live storage 0) (some i) = some e := by
  obtain ⟨stored, hget, hempty, -⟩ := h
  rw [getElem?_map] at hget
  obtain ⟨e, he, rfl⟩ := Option.map_eq_some_iff.mp hget
  refine ⟨e, he, ?_⟩
  have hmem : (e, i) ∈ liveFrom live storage 0 := by
    refine mem_liveFrom.mpr ⟨he, ?_, Nat.zero_le _⟩
    rw [hlive, hempty]
    rfl
  rw [Visits.named, bind_some, find?_liveFrom hmem, map_some]

theorem length_liveFrom (storage : List ε) :
    ((liveFrom live storage 0).map Prod.fst).length = storage.countP live := by
  have hfilter : (liveFrom live storage 0).map Prod.fst = storage.filter live := by
    rw [liveFrom_eq_drop, drop_zero]
    generalize 0 = k
    induction storage generalizing k with
    | nil => rfl
    | cons e storage ih =>
      rw [zipIdx_cons, filter_cons, filter_cons]
      split
      · rw [map_cons, ih]
      · exact ih _
  rw [hfilter, countP_eq_length_filter]

end Entries

namespace MapObject

variable {map next : MapObject} {key : Value} {found : Option Nat} {hash : UInt64} {strict : Bool}
  {op : MapOperation} {out : MapResult}

theorem lookup_spec (hkey : key.isEmpty = false)
    (hstrict : strict = true → map.Invariant ∧ map.compatible key)
    (h : map.findKeyIndex key = some (next, found, hash)) :
    next.storage = map.storage ∧ (∀ i, found = some i → HasKeyAt map.keys key i) ∧
      (strict = true → found = none → ∀ stored ∈ map.keys, stored.isEmpty = false →
        stored.value.identity ≠ key.identity) := by
  obtain ⟨hstorage, hfound⟩ := findKeyIndex_sound hkey h
  refine ⟨hstorage, hfound, fun hs hnone => ?_⟩
  obtain ⟨hinv, hcompatible⟩ := hstrict hs
  obtain ⟨next', hash', hspec, -⟩ := findKeyIndex_spec hinv hkey hcompatible
  cases h.symm.trans hspec
  exact fresh_of_scan_none hkey hnone

theorem step_invariant (hinv : map.Invariant) (hadmits : map.admits op)
    (h : map.step op = some (next, out)) : next.Invariant := by
  have hrep : Represents map (map.liveEntries.map fun e => (e.1.value, e.2.value)) := by
    refine ⟨hinv, ?_⟩
    rw [forall₂_map_right_iff]
    exact List.forall₂_same.mpr fun _ _ => ⟨Value.sameValue.refl _, Value.sameValue.refl _⟩
  obtain ⟨next', out', hstep, -, hrep'⟩ := step_related op hrep hadmits
  cases h.symm.trans hstep
  exact hrep'.invariant

/-- Every operation does to the entries what its description says. -/
theorem step_follows (hstrict : strict = true → map.Invariant ∧ map.admits op)
    (h : map.step op = some (next, out)) :
    Follows storage isLive tombstone description strict map op next out := by
  have hlive : ∀ e : EncodedValue × EncodedValue, isLive e = !e.1.isEmpty := fun _ => rfl
  have hallowed : ∀ {key wanted : Value} {next : MapObject} {found : Option Nat} {hash : UInt64},
      key.isEmpty = false → key.identity = wanted.identity →
      (∀ e : EncodedValue × EncodedValue, description.hit op e = e.1.value.sameValueZero wanted) →
      (strict = true → map.Invariant ∧ map.compatible key) →
      map.findKeyIndex key = some (next, found, hash) → next.storage = map.storage ∧
        Visits.allows description strict (liveFrom isLive map.storage 0) op found = true ∧
        ∀ i, found = some i → ∃ e, map.storage[i]? = some e ∧
          Visits.named (liveFrom isLive map.storage 0) (some i) = some e := by
    intro key wanted next found hash hkey hidentity hhit hs hfind
    obtain ⟨hstorage, hfound, hnone⟩ := lookup_spec hkey hs hfind
    exact ⟨hstorage, allows_of_lookup hlive hhit hidentity hfound hnone,
      fun i hi => named_of_lookup hlive (hfound i hi)⟩
  have hnokey : ∀ {op : MapOperation}, op.key? = none →
      Visits.allows description strict (liveFrom isLive map.storage 0) op none = true := by
    intro op hop
    refine Bool.or_eq_true_iff.mpr (.inr (List.all_eq_true.mpr fun e _ => ?_))
    simp only [description, hop]
    rfl
  cases op with
  | clear =>
    cases h
    exact ⟨none, hnokey rfl, trivial, rfl, rfl⟩
  | size =>
    cases h
    refine ⟨none, hnokey rfl, trivial, rfl, ?_⟩
    show MapResult.count map.size = MapResult.count _
    rw [length_liveFrom]
    rfl
  | get key =>
    rw [step, get] at h
    split at h
    · cases h
    · rename_i mid i hash hfind
      cases h
      obtain ⟨hstorage, hallows, hnamed⟩ := hallowed key.2 rfl (fun _ => rfl) hstrict hfind
      obtain ⟨e, he, hname⟩ := hnamed i rfl
      refine ⟨some i, hallows, trivial, hstorage, ?_⟩
      rw [hname]
      show MapResult.value (next.valueAt i) = MapResult.value e.2.toValue
      rw [valueAt, hstorage, getD_eq_getElem?_getD, he]
      rfl
    · rename_i mid hash hfind
      cases h
      obtain ⟨hstorage, hallows, -⟩ := hallowed key.2 rfl (fun _ => rfl) hstrict hfind
      exact ⟨none, hallows, trivial, hstorage, rfl⟩
  | has key =>
    rw [step, has] at h
    split at h
    · cases h
    · rename_i mid found hash hfind
      cases h
      obtain ⟨hstorage, hallows, hnamed⟩ := hallowed key.2 rfl (fun _ => rfl) hstrict hfind
      refine ⟨found, hallows, trivial, hstorage, ?_⟩
      cases found with
      | none => rfl
      | some i =>
        obtain ⟨e, -, hname⟩ := hnamed i rfl
        rw [hname]
        rfl
  | delete key =>
    rw [step, deleteOperation] at h
    split at h
    · cases h
    · rename_i mid i hash hfind
      cases h
      obtain ⟨hstorage, hallows, hnamed⟩ := hallowed key.2 rfl (fun _ => rfl) hstrict hfind
      obtain ⟨e, -, hname⟩ := hnamed i rfl
      refine ⟨some i, hallows, trivial, ?_, by rw [hname]; rfl⟩
      show mid.storage.modify i _ = map.storage.modify i _
      rw [hstorage]
      rfl
    · rename_i mid hash hfind
      cases h
      obtain ⟨hstorage, hallows, -⟩ := hallowed key.2 rfl (fun _ => rfl) hstrict hfind
      exact ⟨none, hallows, trivial, hstorage, rfl⟩
  | set key value =>
    have hs : strict = true → map.Invariant ∧ map.compatible key.1 :=
      fun hs => ⟨(hstrict hs).1, (hstrict hs).2.1⟩
    rw [step, set] at h
    split at h
    · cases h
    · rename_i mid i hash hfind
      cases h
      obtain ⟨hstorage, hallows, -⟩ := hallowed key.2 rfl (fun _ => rfl) hs hfind
      refine ⟨some i, hallows, fun _ => rfl, ?_, rfl⟩
      show mid.storage.modify i _ = map.storage.modify i _
      rw [hstorage]
    · rename_i mid hash hfind
      obtain ⟨last, hpush, hresult⟩ := Option.map_eq_some_iff.mp h
      cases hresult
      obtain ⟨hstorage, hallows, -⟩ := hallowed key.2 rfl (fun _ => rfl) hs hfind
      refine ⟨none, hallows, ?_, ?_, rfl⟩
      · show (!(EncodedValue.ofValue _).isEmpty) = true
        rw [EncodedValue.isEmpty_ofValue, isEmpty_canonicalize key.2]
        rfl
      · rw [addToHashIndex_storage hpush]
        show mid.storage ++ _ = map.storage ++ _
        rw [hstorage]
  | getOrInsert key value =>
    have hs : strict = true → map.Invariant ∧
        map.compatible (canonicalizeKeyedCollectionKey key.1) :=
      fun hs => ⟨(hstrict hs).1, compatible_canonicalize (hstrict hs).2.1⟩
    rw [step, getOrInsert] at h
    split at h
    · cases h
    · rename_i mid i hash hfind
      cases h
      obtain ⟨hstorage, hallows, hnamed⟩ := hallowed (isEmpty_canonicalize key.2)
        (identity_canonicalize key.1) (fun _ => rfl) hs hfind
      obtain ⟨e, he, hname⟩ := hnamed i rfl
      refine ⟨some i, hallows, trivial, hstorage, ?_⟩
      rw [hname]
      show MapResult.value (next.valueAt i) = MapResult.value e.2.toValue
      rw [valueAt, hstorage, getD_eq_getElem?_getD, he]
      rfl
    · rename_i mid hash hfind
      obtain ⟨last, hpush, hresult⟩ := Option.map_eq_some_iff.mp h
      cases hresult
      obtain ⟨hstorage, hallows, -⟩ := hallowed (isEmpty_canonicalize key.2)
        (identity_canonicalize key.1) (fun _ => rfl) hs hfind
      refine ⟨none, hallows, ?_, ?_, rfl⟩
      · show (!(EncodedValue.ofValue _).isEmpty) = true
        rw [EncodedValue.isEmpty_ofValue, isEmpty_canonicalize key.2]
        rfl
      · rw [addToHashIndex_storage hpush]
        show mid.storage ++ _ = map.storage ++ _
        rw [hstorage]

end MapObject

namespace SetObject

/-- The map with every key as its own value. It is searched and changed in the same
way. -/
def asMap (set : SetObject) : MapObject := ⟨set.storage.map fun key => (key, key), set.hashIndex⟩

/-- The steps on which the set does what it should. -/
def admits (set : SetObject) : SetOperation → Prop
  | .add key =>
    set.asMap.compatible key.1 ∧ (scanKeys set.storage (.ofValue key.1) = none → set.asMap.hasRoom)
  | .has key | .delete key => set.asMap.compatible key.1
  | .clear | .size => True

instance (set : SetObject) : ∀ op, Decidable (set.admits op)
  | .add _ => inferInstanceAs (Decidable (_ ∧ (_ → _ ∧ _)))
  | .has key | .delete key => inferInstanceAs (Decidable (set.asMap.compatible key.1))
  | .clear | .size => isTrue trivial

/-- Twenty objects, of which ten are removed, and twenty more, so that the index is built and
rebuilt; then one and zero, each as an integer and as a double. -/
def rebuiltOps : List SetOperation :=
  (List.range 20).map (fun k => .add (MapObject.objectKey k)) ++
    ((List.range 10).map (fun k => .delete (MapObject.objectKey k)) ++
      ((List.range 20).map (fun k => .add (MapObject.objectKey (k + 10))) ++
        [.add (MapObject.int32Key 1), .add (MapObject.doubleKey 0x3FF0000000000000),
          .add (MapObject.doubleKey 0x8000000000000000), .add (MapObject.int32Key 0), .size]))

variable {set next : SetObject} {key : Value} {found : Option Nat} {hash : UInt64} {strict : Bool}
  {op : SetOperation} {out : MapResult}

variable (set) (key) (hash)

@[simp]
theorem keys_asMap : set.asMap.keys = set.storage := by
  rw [MapObject.keys, asMap, List.map_map]
  exact List.map_id _

theorem searchIndex_asMap (index : KeyedCollectionHashIndex) : set.asMap.searchIndex key index =
      (set.searchIndex key index).map fun result => (result.1.asMap, result.2) := by
  rw [MapObject.searchIndex, searchIndex, keys_asMap, Option.map_map]
  rfl

theorem findKeyIndex_asMap : set.asMap.findKeyIndex key =
      (set.findKeyIndex key).map fun result => (result.1.asMap, result.2) := by
  have hlength : set.asMap.storage.length = set.storage.length := length_map _
  rw [MapObject.findKeyIndex, findKeyIndex, keys_asMap, hlength]
  show (match set.hashIndex with | some index => _ | none => _) = _
  cases set.hashIndex with
  | some index => exact searchIndex_asMap set key index
  | none =>
    dsimp only
    split
    · cases buildHashIndex set.storage with
      | none => rfl
      | some index => exact searchIndex_asMap set key index
    · cases scanKeys set.storage (.ofValue key) with
      | none => rfl
      | some i => rfl

theorem addToHashIndex_asMap (storageIndex : Nat) (hash : UInt64) :
    set.asMap.addToHashIndex storageIndex hash =
      (set.addToHashIndex storageIndex hash).map asMap := by
  rw [MapObject.addToHashIndex, addToHashIndex, keys_asMap]
  show (match set.hashIndex with | none => _ | some index => _) = _
  cases set.hashIndex with
  | none => rfl
  | some index =>
    dsimp only
    split
    · rw [Option.map_map]
      rfl
    · rw [Option.map_map]
      rfl

theorem pushBack_asMap : set.asMap.pushBack key key hash = (set.pushBack key hash).map asMap := by
  have hlength : set.asMap.storage.length = set.storage.length := length_map _
  rw [MapObject.pushBack, pushBack, ← addToHashIndex_asMap, hlength]
  simp only [asMap, map_append, map_cons, map_nil]

variable {set} {key} {hash}

theorem addToHashIndex_storage {storageIndex : Nat}
    (h : set.addToHashIndex storageIndex hash = some next) : next.storage = set.storage := by
  have hmap : set.asMap.addToHashIndex storageIndex hash = some next.asMap := by
    rw [addToHashIndex_asMap, h, map_some]
  rw [← keys_asMap, MapObject.keys, MapObject.addToHashIndex_storage hmap, ← MapObject.keys,
    keys_asMap]

theorem lookup_spec (hkey : key.isEmpty = false)
    (hstrict : strict = true → set.asMap.Invariant ∧ set.asMap.compatible key)
    (h : set.findKeyIndex key = some (next, found, hash)) :
    next.storage = set.storage ∧ (∀ i, found = some i → HasKeyAt set.storage key i) ∧
      (strict = true → found = none → ∀ stored ∈ set.storage, stored.isEmpty = false →
        stored.value.identity ≠ key.identity) := by
  have hmap : set.asMap.findKeyIndex key = some (next.asMap, found, hash) := by
    rw [findKeyIndex_asMap, h, map_some]
  obtain ⟨hstorage, hfound, hnone⟩ := MapObject.lookup_spec hkey hstrict hmap
  rw [keys_asMap] at hfound hnone
  refine ⟨?_, hfound, hnone⟩
  rw [← keys_asMap, MapObject.keys, hstorage, ← MapObject.keys, keys_asMap]

/-- Every operation does to the entries what its description says. -/
theorem step_follows (hstrict : strict = true → set.asMap.Invariant ∧ set.admits op)
    (h : set.step op = some (next, out)) :
    Follows storage isLive ⟨.empty⟩ description strict set op next out := by
  have hlive : ∀ e : EncodedValue, isLive e = !(id e).isEmpty := fun _ => rfl
  have hallowed : ∀ {key : Value} {next : SetObject} {found : Option Nat} {hash : UInt64},
      key.isEmpty = false →
      (∀ e : EncodedValue, description.hit op e = e.value.sameValueZero key) →
      (strict = true → set.asMap.Invariant ∧ set.asMap.compatible key) →
      set.findKeyIndex key = some (next, found, hash) → next.storage = set.storage ∧
        Visits.allows description strict (liveFrom isLive set.storage 0) op found = true ∧
        ∀ i, found = some i → ∃ e, set.storage[i]? = some e ∧
          Visits.named (liveFrom isLive set.storage 0) (some i) = some e := by
    intro key next found hash hkey hhit hs hfind
    obtain ⟨hstorage, hfound, hnone⟩ := lookup_spec hkey hs hfind
    rw [← List.map_id set.storage] at hfound hnone
    exact ⟨hstorage, allows_of_lookup hlive hhit rfl hfound hnone,
      fun i hi => named_of_lookup hlive (hfound i hi)⟩
  have hnokey : ∀ {op : SetOperation}, op.key? = none →
      Visits.allows description strict (liveFrom isLive set.storage 0) op none = true := by
    intro op hop
    refine Bool.or_eq_true_iff.mpr (.inr (List.all_eq_true.mpr fun e _ => ?_))
    simp only [description, hop]
    rfl
  cases op with
  | clear =>
    cases h
    exact ⟨none, hnokey rfl, trivial, rfl, rfl⟩
  | size =>
    cases h
    refine ⟨none, hnokey rfl, trivial, rfl, ?_⟩
    show MapResult.count set.size = MapResult.count _
    rw [length_liveFrom]
    rfl
  | has key =>
    rw [step, has] at h
    split at h
    · cases h
    · rename_i mid found hash hfind
      cases h
      obtain ⟨hstorage, hallows, hnamed⟩ := hallowed key.2 (fun _ => rfl) hstrict hfind
      refine ⟨found, hallows, ?_, ?_, ?_⟩
      · cases found <;> trivial
      · cases found <;> exact hstorage
      · cases found with
        | none => rfl
        | some i =>
          obtain ⟨e, -, hname⟩ := hnamed i rfl
          rw [hname]
          rfl
  | delete key =>
    rw [step, deleteOperation] at h
    split at h
    · cases h
    · rename_i mid i hash hfind
      cases h
      obtain ⟨hstorage, hallows, hnamed⟩ := hallowed key.2 (fun _ => rfl) hstrict hfind
      obtain ⟨e, -, hname⟩ := hnamed i rfl
      refine ⟨some i, hallows, trivial, ?_, by rw [hname]; rfl⟩
      show mid.storage.modify i _ = set.storage.modify i _
      rw [hstorage]
    · rename_i mid hash hfind
      cases h
      obtain ⟨hstorage, hallows, -⟩ := hallowed key.2 (fun _ => rfl) hstrict hfind
      exact ⟨none, hallows, trivial, hstorage, rfl⟩
  | add key =>
    have hs : strict = true → set.asMap.Invariant ∧ set.asMap.compatible key.1 :=
      fun hs => ⟨(hstrict hs).1, (hstrict hs).2.1⟩
    rw [step, add] at h
    split at h
    · cases h
    · rename_i mid i hash hfind
      cases h
      obtain ⟨hstorage, hallows, -⟩ := hallowed key.2 (fun _ => rfl) hs hfind
      exact ⟨some i, hallows, trivial, hstorage, rfl⟩
    · rename_i mid hash hfind
      obtain ⟨last, hpush, hresult⟩ := Option.map_eq_some_iff.mp h
      cases hresult
      obtain ⟨hstorage, hallows, -⟩ := hallowed key.2 (fun _ => rfl) hs hfind
      refine ⟨none, hallows, ?_, ?_, rfl⟩
      · show (!(EncodedValue.ofValue _).isEmpty) = true
        rw [EncodedValue.isEmpty_ofValue, MapObject.isEmpty_canonicalize key.2]
        rfl
      · rw [addToHashIndex_storage hpush]
        show mid.storage ++ _ = set.storage ++ _
        rw [hstorage]

theorem step_invariant (hinv : set.asMap.Invariant) (hadmits : set.admits op)
    (h : set.step op = some (next, out)) : next.asMap.Invariant := by
  have hlookup : ∀ {key : Value} {next : SetObject} {found : Option Nat} {hash : UInt64},
      key.isEmpty = false → set.asMap.compatible key →
      set.findKeyIndex key = some (next, found, hash) → next.asMap.Invariant ∧
        next.asMap.storage = set.asMap.storage ∧
        (found = none → scanKeys set.storage (.ofValue key) = none ∧
          hash = keyedCollectionHash key) := by
    intro key next found hash hkey hcompatible hfind
    have hmap : set.asMap.findKeyIndex key = some (next.asMap, found, hash) := by
      rw [findKeyIndex_asMap, hfind, map_some]
    obtain ⟨next', hash', hspec, hstorage, hinv', hhash⟩ :=
      MapObject.findKeyIndex_spec hinv hkey hcompatible
    cases hmap.symm.trans hspec
    rw [keys_asMap] at hhash
    exact ⟨hinv', hstorage, fun hnone => ⟨by rwa [keys_asMap] at hnone, hhash (by
      rwa [keys_asMap] at hnone)⟩⟩
  cases op with
  | clear =>
    cases h
    have hclear : set.clear.asMap = set.asMap.clear := by
      rw [MapObject.clear, asMap, asMap, SetObject.clear, List.map_map, List.map_map]
      rfl
    rw [hclear]
    exact hinv.clear
  | size =>
    cases h
    exact hinv
  | has key =>
    rw [step, has] at h
    split at h
    · cases h
    · rename_i mid found hash hfind
      cases h
      exact (hlookup key.2 hadmits hfind).1
  | delete key =>
    rw [step, deleteOperation] at h
    split at h
    · cases h
    · rename_i mid i hash hfind
      cases h
      have hinv' := ((hlookup key.2 hadmits hfind).1).delete i
      have hmodify : asMap { mid with storage := mid.storage.modify i fun _ => ⟨.empty⟩ } =
          { mid.asMap with
            storage := mid.asMap.storage.modify i fun _ => (⟨.empty⟩, ⟨.empty⟩) } := by
        refine congrArg (fun storage => MapObject.mk storage mid.hashIndex) ?_
        apply ext_getElem?
        intro j
        rw [getElem?_map, getElem?_modify, getElem?_modify, asMap, getElem?_map]
        cases mid.storage[j]? with
        | none => rfl
        | some stored =>
          simp only [Option.map_eq_map, map_some]
          split
          · rfl
          · rfl
      rw [hmodify]
      exact hinv'
    · rename_i mid hash hfind
      cases h
      exact (hlookup key.2 hadmits hfind).1
  | add key =>
    obtain ⟨hcompatible, hroom⟩ := hadmits
    rw [step, add] at h
    split at h
    · cases h
    · rename_i mid i hash hfind
      cases h
      exact (hlookup key.2 hcompatible hfind).1
    · rename_i mid hash hfind
      obtain ⟨last, hpush, hresult⟩ := Option.map_eq_some_iff.mp h
      cases hresult
      obtain ⟨hinv', hstorage, hnone⟩ := hlookup key.2 hcompatible hfind
      obtain ⟨hscan, rfl⟩ := hnone rfl
      have hempty := MapObject.isEmpty_canonicalize key.2
      have hkeys : mid.asMap.keys = set.storage := by
        rw [MapObject.keys_of_storage_eq hstorage, keys_asMap]
      obtain ⟨last', hpush', -, hlast⟩ := MapObject.pushBack_spec hinv'
        (MapObject.hasRoom_of_storage_eq hstorage (hroom hscan))
        (canonicalizeKeyedCollectionKey key.1) hempty
        (MapObject.fresh_of_scan_none hempty (by
          rw [hkeys, MapObject.scanKeys_canonicalize _ key.2]
          exact hscan))
      rw [MapObject.keyedCollectionHash_canonicalize, pushBack_asMap, hpush] at hpush'
      cases hpush'
      exact hlast

end SetObject

/-- For every interleaving of operations on a map or set and advances of any number of
iterators, the answers are those of visitors with lists of pending entries, given which
entries the lookups found. In runs whose operations are safe, a lookup misses no entry
with its key. What an iterator answers always comes later in the order of insertion
than what it answered before, and once it was done it is done. -/
theorem iterators_visit_pending (strict : Bool) :
    (∀ (map : MapObject) (ops : List (IterationOperation MapOperation MapIterationType))
        (last : Iterated MapObject MapIterationType)
        (outs : List (IterationAnswer MapResult IteratorValue)),
      (strict = true → map.Invariant ∧ Guarded MapObject.iteratedStep
        (fun state op => ∀ op', op = .operate op' → state.collection.admits op') ops ⟨map, []⟩) →
      run MapObject.iteratedStep ops ⟨map, []⟩ = some (last, outs) →
      ∃ founds refLast refOuts, founds.length = ops.length ∧
        run (Visits.step MapObject.description strict MapIteratorObject.result) (ops.zip founds)
          (⟨liveFrom MapObject.isLive map.storage 0, map.storage.length, []⟩, []) =
            some (refLast, refOuts) ∧
        refOuts.map Prod.fst = outs ∧
        ∀ iterator, (visitsBy iterator ops refOuts).Pairwise Later) ∧
    ∀ (set : SetObject) (ops : List (IterationOperation SetOperation SetIterationType))
        (last : Iterated SetObject SetIterationType)
        (outs : List (IterationAnswer MapResult IteratorValue)),
      (strict = true → set.asMap.Invariant ∧ Guarded SetObject.iteratedStep
        (fun state op => ∀ op', op = .operate op' → state.collection.admits op') ops ⟨set, []⟩) →
      run SetObject.iteratedStep ops ⟨set, []⟩ = some (last, outs) →
      ∃ founds refLast refOuts, founds.length = ops.length ∧
        run (Visits.step SetObject.description strict SetIteratorObject.result) (ops.zip founds)
          (⟨liveFrom SetObject.isLive set.storage 0, set.storage.length, []⟩, []) =
            some (refLast, refOuts) ∧
        refOuts.map Prod.fst = outs ∧
        ∀ iterator, (visitsBy iterator ops refOuts).Pairwise Later := by
  have hordered : ∀ {ε : Type} (live : ε → Bool) (storage : List ε),
      Visits.Ordered ⟨liveFrom live storage 0, storage.length, []⟩ := by
    intro ε live storage
    refine ⟨List.pairwise_map.mpr (liveFrom_sorted storage 0), fun number hnumber => ?_, nofun⟩
    obtain ⟨e, he, rfl⟩ := List.mem_map.mp hnumber
    exact (List.getElem?_eq_some_iff.mp (mem_liveFrom.mp he).1).1
  constructor
  · intro map ops last outs hguarded hrun
    have hfollows : ∀ {map : MapObject} {op : MapOperation} {next : MapObject} {out : MapResult},
        (strict = true → map.Invariant ∧ map.admits op) → map.step op = some (next, out) →
        Follows MapObject.storage MapObject.isLive MapObject.tombstone MapObject.description
          strict map op next out ∧ (strict = true → next.Invariant) :=
      fun hs h => ⟨MapObject.step_follows hs h, fun hstrict =>
        MapObject.step_invariant (hs hstrict).1 (hs hstrict).2 h⟩
    obtain ⟨founds, refLast, refOuts, hlength, hrefRun, houts⟩ :=
      Iterated.run_visits rfl hfollows ops (fun _ h => absurd h not_mem_nil) hguarded hrun
    exact ⟨founds, refLast, refOuts, hlength, hrefRun, houts, fun iterator =>
      ((hordered MapObject.isLive map.storage).run ops founds hlength hrefRun).1⟩
  · intro set ops last outs hguarded hrun
    have hfollows : ∀ {set : SetObject} {op : SetOperation} {next : SetObject} {out : MapResult},
        (strict = true → set.asMap.Invariant ∧ set.admits op) → set.step op = some (next, out) →
        Follows SetObject.storage SetObject.isLive ⟨.empty⟩ SetObject.description
          strict set op next out ∧ (strict = true → next.asMap.Invariant) :=
      fun hs h => ⟨SetObject.step_follows hs h, fun hstrict =>
        SetObject.step_invariant (hs hstrict).1 (hs hstrict).2 h⟩
    obtain ⟨founds, refLast, refOuts, hlength, hrefRun, houts⟩ :=
      Iterated.run_visits rfl hfollows ops (fun _ h => absurd h not_mem_nil) hguarded hrun
    exact ⟨founds, refLast, refOuts, hlength, hrefRun, houts, fun iterator =>
      ((hordered SetObject.isLive set.storage).run ops founds hlength hrefRun).1⟩

theorem isEmpty_null : Value.isEmpty .null = false := rfl

theorem isEmpty_undefined : Value.isEmpty .undefined = false := rfl

theorem isEmpty_one : Value.isEmpty (.int32 1) = false := rfl

theorem isEmpty_two : Value.isEmpty (.int32 2) = false := rfl

/-- A key is visited, deleted, added again and visited again; then the iterator is done
and does not see what is added later. -/
def readdedKey : List (IterationOperation MapOperation MapIterationType) :=
  [.operate (.set ⟨.int32 1, isEmpty_one⟩ ⟨.null, isEmpty_null⟩), .create .key, .advance 0,
    .operate (.delete ⟨.int32 1, isEmpty_one⟩),
    .operate (.set ⟨.int32 1, isEmpty_one⟩ ⟨.null, isEmpty_null⟩), .advance 0, .advance 0,
    .operate (.set ⟨.int32 2, isEmpty_two⟩ ⟨.null, isEmpty_null⟩), .advance 0]

def deletedMember : List (IterationOperation SetOperation SetIterationType) :=
  [.operate (.add ⟨.null, isEmpty_null⟩), .operate (.add ⟨.undefined, isEmpty_undefined⟩),
    .create .value, .create .keyValue, .advance 0, .advance 0,
    .operate (.delete ⟨.null, isEmpty_null⟩), .advance 1]

theorem iterators_visit_pending_examples :
    (∃ last outs, run MapObject.iteratedStep readdedKey ⟨.empty, []⟩ = some (last, outs) ∧
      outs = [.answer .done, .created, .visited (.single (.int32 1)), .answer (.boolean true),
        .answer .done, .visited (.single (.int32 1)), .done, .answer .done, .done] ∧
      ∃ refOuts, refOuts.map Prod.fst = outs ∧
        ∀ iterator, (visitsBy iterator readdedKey refOuts).Pairwise Later) ∧
    ∃ last outs, run SetObject.iteratedStep deletedMember ⟨.empty, []⟩ = some (last, outs) ∧
      outs = [.answer .done, .answer .done, .created, .created, .visited (.single .null),
        .visited (.single .undefined), .answer (.boolean true),
        .visited (.pair .undefined .undefined)] ∧
      ∃ refOuts, refOuts.map Prod.fst = outs ∧
        ∀ iterator, (visitsBy iterator deletedMember refOuts).Pairwise Later := by
  constructor
  · have hguarded : Guarded MapObject.iteratedStep
        (fun state op => ∀ op', op = .operate op' → state.collection.admits op') readdedKey
        ⟨.empty, []⟩ := by
      have hsmall : ∀ {map : MapObject} {key : Value}, map.usesIndex key = false →
          map.compatible key := fun h huses => absurd huses (by rw [h]; decide)
      refine ⟨?_, fun next out h => ?_⟩
      · rintro _ ⟨⟩
        exact ⟨hsmall rfl, fun _ => ⟨by decide, by decide⟩⟩
      cases h
      refine ⟨nofun, fun next out h => ?_⟩
      cases h
      refine ⟨nofun, fun next out h => ?_⟩
      cases h
      refine ⟨?_, fun next out h => ?_⟩
      · rintro _ ⟨⟩
        exact hsmall rfl
      cases h
      refine ⟨?_, fun next out h => ?_⟩
      · rintro _ ⟨⟩
        exact ⟨hsmall rfl, fun _ => ⟨by decide, by decide⟩⟩
      cases h
      refine ⟨nofun, fun next out h => ?_⟩
      cases h
      refine ⟨nofun, fun next out h => ?_⟩
      cases h
      refine ⟨?_, fun next out h => ?_⟩
      · rintro _ ⟨⟩
        exact ⟨hsmall rfl, fun _ => ⟨by decide, by decide⟩⟩
      cases h
      exact ⟨nofun, fun _ _ _ => trivial⟩
    refine ⟨_, _, rfl, rfl, ?_⟩
    obtain ⟨founds, refLast, refOuts, -, -, houts, hlater⟩ := (iterators_visit_pending true).1
      .empty readdedKey _ _ (fun _ => ⟨MapObject.invariant_empty, hguarded⟩) rfl
    exact ⟨refOuts, houts, hlater⟩
  · refine ⟨_, _, rfl, rfl, ?_⟩
    obtain ⟨founds, refLast, refOuts, -, -, houts, hlater⟩ := (iterators_visit_pending false).2
      .empty deletedMember _ _ nofun rfl
    exact ⟨refOuts, houts, hlater⟩

end Escargot.Runtime
