/-
# The invariant of the hash index

What every run of a map or a set keeps: the index covers the live entries, some
bucket is free, and `insert` is called only while no rebuild is due. The calls
of `insert` that an operation makes are listed beside its model. `needsRebuild`
multiplies in `uint32_t`, so from a capacity of `2 ^ 30` on its two products
wrap around, and a rebuild then calls `insert` with a rebuild due again.
-/

import Escargot.Runtime.CollectionIterator

namespace Escargot.Runtime

open List Option Escargot.Foundation
open KeyedCollectionHashIndex (isFree isFree_ofNat)

/-- The indices on which the loop of `buildOrRebuildHashIndex` calls `insert`. -/
def insertKeysCalls : List EncodedValue → Nat → KeyedCollectionHashIndex →
    List KeyedCollectionHashIndex
  | [], _, _ => []
  | key :: keys, i, index =>
    if key.isEmpty then insertKeysCalls keys (i + 1) index
    else
      index ::
        match index.insert (keyedCollectionHash key.toValue) i with
        | none => []
        | some index => insertKeysCalls keys (i + 1) index

/-- The indices on which `buildOrRebuildHashIndex` calls `insert`. -/
def buildHashIndexCalls (keys : List EncodedValue) : List KeyedCollectionHashIndex :=
  match KeyedCollectionHashIndex.create (keys.countP (fun key => !key.isEmpty)) with
  | none => []
  | some index => insertKeysCalls keys 0 index

namespace SetObject

variable (set : SetObject) (key : Value)

/-- The indices on which `findKeyIndex` calls `insert`. -/
def findKeyIndexCalls : List KeyedCollectionHashIndex :=
  match set.hashIndex with
  | some _ => []
  | none =>
    if MapObject.threshold key ≤ set.storage.length then buildHashIndexCalls set.storage else []

/-- The indices on which `addToHashIndex` calls `insert`. -/
def addToHashIndexCalls : List KeyedCollectionHashIndex :=
  match set.hashIndex with
  | none => []
  | some index => if index.needsRebuild then buildHashIndexCalls set.storage else [index]

/-- The set after `m_storage.pushBack`. -/
def pushed : SetObject := { set with storage := set.storage ++ [.ofValue key] }

def insertCalls : SetOperation → List KeyedCollectionHashIndex
  | .add key =>
    set.findKeyIndexCalls key.1 ++
      match set.findKeyIndex key.1 with
      | some (set, none, _) =>
        (set.pushed (canonicalizeKeyedCollectionKey key.1)).addToHashIndexCalls
      | _ => []
  | .has key | .delete key => set.findKeyIndexCalls key.1
  | .clear | .size => []

/-- What holds of the index between operations: every live entry is met by probing from its
hash bucket before any empty bucket, the buckets in use are counted and are not all, and
both probing loops end for every key. -/
def IndexSound : Prop :=
  ∀ index, set.hashIndex = some index → Covers index set.storage ∧
      occupiedCount isFree index.capacity.toNat index.buckets = index.occupied.toNat ∧
      index.occupied.toNat < index.capacity.toNat ∧
      ∀ key hash, (probeKeys index set.storage key hash).isSome ∧ (index.freeSlot hash).isSome

/-- A step from a sound index that returns and calls `insert` only while no rebuild is due. -/
def KeepsIndex (op : SetOperation) : Prop :=
  set.IndexSound ∧ (set.step op).isSome ∧ ∀ index ∈ set.insertCalls op, index.needsRebuild = false

/-- One more entry fits the index: its position plus one is a `uint32_t`, and the live
entries need no more than `2 ^ 29` buckets. -/
def hasIndexRoom : SetOperation → Prop
  | .add _ => set.storage.length + 1 < 2 ^ 32 ∧ (set.size + 1) * 6 < 2 ^ 29 * 5
  | _ => True

instance : ∀ op, Decidable (set.hasIndexRoom op)
  | .add _ => inferInstanceAs (Decidable (_ ∧ _))
  | .has _ | .delete _ | .clear | .size => isTrue trivial

end SetObject

theorem canonicalize_idem (key : Value) :
    canonicalizeKeyedCollectionKey (canonicalizeKeyedCollectionKey key) =
      canonicalizeKeyedCollectionKey key := by
  have hcases : canonicalizeKeyedCollectionKey key = .int32 0 ∨
      canonicalizeKeyedCollectionKey key = key := by
    unfold canonicalizeKeyedCollectionKey
    split
    · split
      · exact .inl rfl
      · exact .inr rfl
    · exact .inr rfl
  rcases hcases with h | h
  · rw [h]
    decide
  · rw [h, h]

def MapOperation.onKeys : MapOperation → SetOperation
  | .set key _ => .add key
  | .get key | .has key => .has key
  | .delete key => .delete key
  | .clear => .clear
  | .getOrInsert key _ =>
    .add ⟨canonicalizeKeyedCollectionKey key.1, MapObject.isEmpty_canonicalize key.2⟩
  | .size => .size

namespace MapObject

/-- The keys of a map with its index. -/
def asSet (map : MapObject) : SetObject := ⟨map.keys, map.hashIndex⟩

/-- The steps of the index of a map, as those of its keys. -/
def KeepsIndex (map : MapObject) (op : MapOperation) : Prop := map.asSet.KeepsIndex op.onKeys

/-- One more entry fits the index. -/
def hasIndexRoom (map : MapObject) (op : MapOperation) : Prop := map.asSet.hasIndexRoom op.onKeys

instance (map : MapObject) (op : MapOperation) : Decidable (map.hasIndexRoom op) :=
  inferInstanceAs (Decidable (map.asSet.hasIndexRoom op.onKeys))

end MapObject

namespace KeyedCollectionHashIndex

variable {index : KeyedCollectionHashIndex}

/-- Up to `2 ^ 29` buckets the products of `needsRebuild` do not wrap around. -/
theorem needsRebuild_eq_false_iff (hcapacity : index.capacity.toNat ≤ 2 ^ 29)
    (hocc : index.occupied.toNat < index.capacity.toNat) :
    index.needsRebuild = false ↔ index.occupied.toNat * 6 < index.capacity.toNat * 5 := by
  rw [needsRebuild, decide_eq_false_iff_not, UInt32.not_le, UInt32.lt_iff_toNat_lt,
    UInt32.toNat_mul, UInt32.toNat_mul]
  simp only [UInt32.reduceToNat]
  rw [Nat.mod_eq_of_lt (by omega), Nat.mod_eq_of_lt (by omega)]

/-- The loop of `create` stops at the first power of two that is large enough. -/
theorem createCapacity_stops {liveCount q : Nat} (hq : q ≤ 31) (hlarge : liveCount * 6 < 2 ^ q * 5)
    (fuel : Nat) : ∀ p, p ≤ q → q < p + fuel → (∀ r, p ≤ r → r < q → 2 ^ r * 5 ≤ liveCount * 6) →
      createCapacity liveCount fuel (UInt32.ofNat (2 ^ p)) = some (UInt32.ofNat (2 ^ q)) := by
  have htoNat : ∀ r ≤ 31, (UInt32.ofNat (2 ^ r)).toNat = 2 ^ r := by
    intro r hr
    rw [UInt32.toNat_ofNat', Nat.mod_eq_of_lt]
    exact Nat.pow_lt_pow_right (by decide) (by omega)
  induction fuel with
  | zero =>
    intro p hle hlt
    omega
  | succ fuel ih =>
    intro p hle hlt hsmall
    rw [createCapacity, htoNat p (by omega)]
    rcases Nat.lt_or_ge p q with hpq | hpq
    · have hshift : UInt32.ofNat (2 ^ p) <<< 1 = UInt32.ofNat (2 ^ (p + 1)) := by
        have hp : p ≤ 30 := by omega
        interval_cases p <;> rfl
      rw [if_pos (hsmall p (Nat.le_refl p) hpq), hshift]
      exact ih (p + 1) hpq (by omega) fun r hr => hsmall r (by omega)
    · obtain rfl : p = q := by omega
      rw [if_neg (by omega)]

/-- `create` for a number of live entries that needs exactly `2 ^ q` buckets. -/
theorem create_eq {liveCount q : Nat} (hlow : 4 ≤ q) (hq : q ≤ 31)
    (hlarge : liveCount * 6 < 2 ^ q * 5) (hsmall : ∀ r, 4 ≤ r → r < q → 2 ^ r * 5 ≤ liveCount * 6) :
    ∃ index, create liveCount = some index ∧ index.WellFormed ∧ index.occupied = 0 ∧
      index.capacity.toNat = 2 ^ q := by
  have hcreate := createCapacity_stops hq hlarge 28 4 hlow (by omega) hsmall
  have hcapacity : (UInt32.ofNat (2 ^ q)).toNat = 2 ^ q := by
    rw [UInt32.toNat_ofNat', Nat.mod_eq_of_lt]
    exact Nat.pow_lt_pow_right (by decide) (by omega)
  refine ⟨_, by rw [create]; exact congrArg _ hcreate, ⟨⟨q, hlow, hq, hcapacity⟩, ?_, ?_⟩, rfl,
    hcapacity⟩
  · simp [occupiedCount, isFree]
  · rw [hcapacity]
    exact Nat.two_pow_pos q

theorem WellFormed.loops_end (hwf : index.WellFormed) (keys : List EncodedValue)
    (key : EncodedValue) (hash : UInt64) :
    (probeKeys index keys key hash).isSome ∧ (index.freeSlot hash).isSome := by
  obtain ⟨m, hm, hfree⟩ := hwf.exists_free_slot hash
  constructor
  · refine probe_isSome hm ?_
    rw [hwf.iterate_eq, hfree]
    rfl
  · refine probe_isSome hm ?_
    rw [hwf.iterate_eq, if_pos hfree]
    rfl

end KeyedCollectionHashIndex

theorem insertKeys_trace (keys : List EncodedValue) :
    ∀ (i : Nat) {index : KeyedCollectionHashIndex}, index.WellFormed → i + keys.length < 2 ^ 32 →
      index.occupied.toNat + liveCount keys < index.capacity.toNat →
      (∃ next, insertKeys keys i index = some next ∧ next.capacity = index.capacity ∧
        next.occupied.toNat = index.occupied.toNat + liveCount keys) ∧
      (insertKeysCalls keys i index).map (fun call => (call.capacity, call.occupied.toNat)) =
        (List.range' index.occupied.toNat (liveCount keys)).map fun o => (index.capacity, o) := by
  induction keys with
  | nil => exact fun i index _ _ _ => ⟨⟨index, rfl, rfl, rfl⟩, rfl⟩
  | cons key keys ih =>
    intro i index hwf hsmall hroom
    rw [length_cons] at hsmall
    rw [insertKeys, insertKeysCalls]
    cases hempty : key.isEmpty with
    | true =>
      have hlive : liveCount (key :: keys) = liveCount keys := by simp [liveCount, hempty]
      rw [hlive] at hroom ⊢
      exact ih (i + 1) hwf (by omega) hroom
    | false =>
      have hlive : liveCount (key :: keys) = liveCount keys + 1 := by simp [liveCount, hempty]
      rw [hlive] at hroom ⊢
      obtain ⟨next, hinsert, hnext, hcapacity, hocc, -, -⟩ :=
        hwf.insert_spec (keyedCollectionHash key.toValue) i (by omega) (by omega)
      obtain ⟨⟨last, hlast, hlastCapacity, hlastOcc⟩, hcalls⟩ :=
        ih (i + 1) hnext (by omega) (by rw [hcapacity]; omega)
      rw [if_neg (by decide), hinsert, if_neg (by decide)]
      refine ⟨⟨last, hlast, hlastCapacity.trans hcapacity, by omega⟩, ?_⟩
      dsimp only
      rw [map_cons, hcalls, range'_succ, map_cons, hcapacity, hocc]

/-- The limits of a storage that `2 ^ 29` buckets can index. -/
def Fits (keys : List EncodedValue) : Prop := keys.length < 2 ^ 32 ∧ liveCount keys * 6 < 2 ^ 29 * 5

/-- What is kept of an index: it is well formed, covers the storage and is not too large. -/
structure Indexes (index : KeyedCollectionHashIndex) (keys : List EncodedValue) : Prop where
  wellFormed : index.WellFormed
  covers : Covers index keys
  small : index.capacity.toNat ≤ 2 ^ 29
  live_le : liveCount keys ≤ index.occupied.toNat

theorem buildHashIndex_fits {keys : List EncodedValue} (hfits : Fits keys) :
    (∃ index, buildHashIndex keys = some index ∧ Indexes index keys) ∧
      ∀ call ∈ buildHashIndexCalls keys, call.needsRebuild = false := by
  obtain ⟨hlength, hlive⟩ := hfits
  -- the least power of two from 16 on that is large enough
  have hexists : ∃ q, 4 ≤ q ∧ liveCount keys * 6 < 2 ^ q * 5 := ⟨29, by decide, hlive⟩
  obtain ⟨hlow, hlarge⟩ := Nat.find_spec hexists
  have hmin : Nat.find hexists ≤ 29 := Nat.find_min' hexists ⟨by decide, hlive⟩
  have hsmall : ∀ r, 4 ≤ r → r < Nat.find hexists → 2 ^ r * 5 ≤ liveCount keys * 6 := by
    intro r hr hlt
    have := Nat.find_min hexists hlt
    omega
  generalize Nat.find hexists = q at *
  obtain ⟨index, hcreate, hwf, hzero, hcapacity⟩ :=
    KeyedCollectionHashIndex.create_eq hlow (by omega) hlarge hsmall
  have hpow : 2 ^ q ≤ 2 ^ 29 := Nat.pow_le_pow_right (by decide) hmin
  have hocc : index.occupied.toNat = 0 := by
    rw [hzero]
    rfl
  obtain ⟨⟨next, hnext, hnextCapacity, hnextOcc⟩, hcalls⟩ :=
    insertKeys_trace keys 0 hwf (by omega) (by omega)
  obtain ⟨last, hlast, hlastwf, hlastCovers⟩ := insertKeys_spec keys [] hwf
    (fun i key hget _ => by simp at hget) (by simpa using hlength) (by omega)
  cases hnext.symm.trans hlast
  rw [liveCount] at hcreate
  constructor
  · refine ⟨next, by rw [buildHashIndex, hcreate]; exact hnext, hlastwf, hlastCovers, ?_, by omega⟩
    rw [hnextCapacity, hcapacity]
    exact hpow
  · intro call hcall
    rw [buildHashIndexCalls, hcreate] at hcall
    have hmem := List.mem_map_of_mem (f := fun call => (call.capacity, call.occupied.toNat)) hcall
    rw [hcalls, List.mem_map] at hmem
    obtain ⟨o, ho, hpair⟩ := hmem
    have hfst : index.capacity = call.capacity := congrArg Prod.fst hpair
    have hsnd : o = call.occupied.toNat := congrArg Prod.snd hpair
    rw [mem_range'_1] at ho
    rw [KeyedCollectionHashIndex.needsRebuild_eq_false_iff (by rw [← hfst]; omega)
      (by rw [← hfst]; omega), ← hfst, ← hsnd]
    omega

theorem buildHashIndex_overflows {keys : List EncodedValue} (hlength : keys.length < 2 ^ 32)
    (hlow : 2 ^ 29 * 5 ≤ liveCount keys * 6) (hhigh : liveCount keys * 6 < 2 ^ 30 * 5) :
    ∃ call ∈ buildHashIndexCalls keys, call.needsRebuild = true := by
  obtain ⟨index, hcreate, hwf, hzero, hcapacity⟩ :=
    @KeyedCollectionHashIndex.create_eq (liveCount keys) 30 (by decide) (by decide) hhigh
      fun r _ hr => by
        have hpow : 2 ^ r ≤ 2 ^ 29 := Nat.pow_le_pow_right (by decide) (by omega)
        omega
  have hocc : index.occupied.toNat = 0 := by
    rw [hzero]
    rfl
  obtain ⟨-, hcalls⟩ := insertKeys_trace keys 0 hwf (by omega) (by omega)
  -- the first count of used buckets at which the wrapped product is too large
  have hmem : (index.capacity, 178956971) ∈
      (insertKeysCalls keys 0 index).map fun call => (call.capacity, call.occupied.toNat) := by
    rw [hcalls, List.mem_map]
    exact ⟨178956971, List.mem_range'_1.mpr (by omega), rfl⟩
  obtain ⟨call, hcall, hpair⟩ := List.mem_map.mp hmem
  rw [liveCount] at hcreate
  refine ⟨call, by rw [buildHashIndexCalls, hcreate]; exact hcall, ?_⟩
  have hfst : call.capacity.toNat = 2 ^ 30 := (congrArg (UInt32.toNat ·.1) hpair).trans hcapacity
  have hsnd : call.occupied.toNat = 178956971 := congrArg Prod.snd hpair
  rw [KeyedCollectionHashIndex.needsRebuild, decide_eq_true_eq, UInt32.le_iff_toNat_le,
    UInt32.toNat_mul, UInt32.toNat_mul, hfst, hsnd]
  decide

namespace SetObject

variable {set next : SetObject}

/-- What the steps keep. -/
structure IndexInvariant (set : SetObject) : Prop where
  fits : Fits set.storage
  indexes : ∀ index, set.hashIndex = some index → Indexes index set.storage

theorem IndexInvariant.sound (hinv : set.IndexInvariant) : set.IndexSound := by
  intro index hindex
  have hindexes := hinv.indexes index hindex
  exact ⟨hindexes.covers, hindexes.wellFormed.occupied_eq, hindexes.wellFormed.occupied_lt,
    hindexes.wellFormed.loops_end set.storage⟩

theorem indexInvariant_empty : empty.IndexInvariant := ⟨⟨by decide, by decide⟩, nofun⟩

theorem IndexInvariant.findKeyIndex (hinv : set.IndexInvariant) (key : Value) :
    (∃ next found hash, set.findKeyIndex key = some (next, found, hash) ∧
      next.storage = set.storage ∧ next.IndexInvariant ∧
      (found = none → hash = keyedCollectionHash key)) ∧
      ∀ call ∈ set.findKeyIndexCalls key, call.needsRebuild = false := by
  have hsearch : ∀ {index : KeyedCollectionHashIndex}, Indexes index set.storage →
      ∃ next found hash, set.searchIndex key index = some (next, found, hash) ∧
        next.storage = set.storage ∧ next.IndexInvariant ∧
        (found = none → hash = keyedCollectionHash key) := by
    intro index hindexes
    obtain ⟨found, hfound⟩ := Option.isSome_iff_exists.mp (hindexes.wellFormed.loops_end
      set.storage (.ofValue key) (keyedCollectionHash key)).1
    refine ⟨{ set with hashIndex := some index }, found, _, by rw [searchIndex, hfound]; rfl, rfl,
      ⟨hinv.fits, ?_⟩, fun _ => rfl⟩
    rintro _ ⟨⟩
    exact hindexes
  rw [SetObject.findKeyIndex, findKeyIndexCalls]
  cases hindex : set.hashIndex with
  | some index =>
    exact ⟨hsearch (hinv.indexes index hindex), fun _ hcall => absurd hcall not_mem_nil⟩
  | none =>
    by_cases hthreshold : MapObject.threshold key ≤ set.storage.length
    · obtain ⟨⟨index, hbuild, hindexes⟩, hcalls⟩ := buildHashIndex_fits hinv.fits
      rw [if_pos hthreshold, if_pos hthreshold, hbuild]
      exact ⟨hsearch hindexes, hcalls⟩
    · rw [if_neg hthreshold, if_neg hthreshold]
      refine ⟨?_, fun _ hcall => absurd hcall not_mem_nil⟩
      cases scanKeys set.storage (.ofValue key) with
      | some i => exact ⟨set, some i, 0, rfl, rfl, hinv, fun hnone => by cases hnone⟩
      | none => exact ⟨set, none, _, rfl, rfl, hinv, fun _ => rfl⟩

theorem liveCount_pushed (storage : List EncodedValue) (key : Value) :
    liveCount (storage ++ [.ofValue key]) ≤ liveCount storage + 1 := by
  rw [liveCount, countP_append, liveCount]
  exact Nat.add_le_add_left (countP_le_length) _

/-- An entry that fits is entered into the index, which is rebuilt first if it is due. -/
theorem IndexInvariant.addToHashIndex (hinv : set.IndexInvariant) (key : Value)
    (hfits : Fits (set.pushed key).storage) :
    (∃ next, (set.pushed key).addToHashIndex set.storage.length (keyedCollectionHash key) =
        some next ∧ next.storage = (set.pushed key).storage ∧ next.IndexInvariant) ∧
      ∀ call ∈ (set.pushed key).addToHashIndexCalls, call.needsRebuild = false := by
  have hlength : set.storage.length + 1 < 2 ^ 32 := by
    have := hfits.1
    rwa [pushed, length_append, length_singleton] at this
  have hhashIndex : (set.pushed key).hashIndex = set.hashIndex := rfl
  rw [SetObject.addToHashIndex, addToHashIndexCalls, hhashIndex]
  cases hindex : set.hashIndex with
  | none =>
    refine ⟨⟨_, rfl, rfl, hfits, fun index h => ?_⟩, fun _ hcall => absurd hcall not_mem_nil⟩
    cases hindex.symm.trans h
  | some index =>
    obtain ⟨hwf, hcovers, hsmall, hlive⟩ := hinv.indexes index hindex
    have hbound := hwf.occupied_lt
    dsimp only
    by_cases hrebuild : index.needsRebuild = true
    · obtain ⟨⟨built, hbuild, hindexes⟩, hcalls⟩ := buildHashIndex_fits hfits
      rw [if_pos hrebuild, if_pos hrebuild, hbuild]
      refine ⟨⟨_, rfl, rfl, hfits, ?_⟩, hcalls⟩
      rintro _ ⟨⟩
      exact hindexes
    · have hroom := (KeyedCollectionHashIndex.needsRebuild_eq_false_iff hsmall hbound).mp
        (Bool.not_eq_true _ ▸ hrebuild)
      have hhash : keyedCollectionHash
          ((set.pushed key).storage.getD set.storage.length ⟨.empty⟩).toValue =
          keyedCollectionHash key := by
        rw [pushed, getD_append_right _ _ _ _ (Nat.le_refl _), Nat.sub_self]
        exact MapObject.keyedCollectionHash_ofValue key
      obtain ⟨p, hp, -, hpow⟩ := hwf.capacity_pow
      have hsixteen : 2 ^ 4 ≤ 2 ^ p := Nat.pow_le_pow_right (by decide) hp
      obtain ⟨grown, hinsert, hgrown, hsame, hocc, hkeep, hnew⟩ :=
        hwf.insert_spec (keyedCollectionHash key) set.storage.length (by omega) hlength
      rw [if_neg hrebuild, if_neg hrebuild, hhash, ite_self, hinsert]
      refine ⟨⟨_, rfl, rfl, hfits, ?_⟩, fun call hcall => ?_⟩
      · rintro _ ⟨⟩
        rw [← MapObject.keyedCollectionHash_ofValue] at hnew
        refine ⟨hgrown, hcovers.insert hlength hsame hkeep hnew, by rw [hsame]; exact hsmall, ?_⟩
        have := liveCount_pushed set.storage key
        rw [hocc]
        exact this.trans (by omega)
      · rw [List.mem_singleton.mp hcall]
        exact Bool.not_eq_true _ ▸ hrebuild

theorem IndexInvariant.bury (hinv : set.IndexInvariant)
    (hburied : List.Forall₂ (fun old new => new.isEmpty = true ∨ new = old) set.storage
      next.storage)
    (hindex : ∀ index, next.hashIndex = some index → set.hashIndex = some index) :
    next.IndexInvariant := by
  have hkept : ∀ {i : Nat} {key : EncodedValue}, next.storage[i]? = some key →
      key.isEmpty = false → set.storage[i]? = some key := by
    intro i key hget hlive
    obtain ⟨hi, hget⟩ := List.getElem?_eq_some_iff.mp hget
    have hi' : i < set.storage.length := hburied.length_eq ▸ hi
    have hentry := hburied.get hi' hi
    simp only [get_eq_getElem, hget, hlive] at hentry
    rcases hentry with h | h
    · cases h
    · rw [h, getElem?_eq_getElem hi']
  have hcount : liveCount next.storage ≤ liveCount set.storage := by
    have : ∀ {old new : List EncodedValue},
        List.Forall₂ (fun old new => new.isEmpty = true ∨ new = old) old new →
        liveCount new ≤ liveCount old := by
      intro old new h
      induction h with
      | nil => exact Nat.le_refl _
      | cons hfirst _ ih =>
        simp only [liveCount, countP_cons] at ih ⊢
        rcases hfirst with hempty | hsame
        · rw [hempty]
          exact Nat.le_trans ih (Nat.le_add_right _ _)
        · rw [hsame]
          exact Nat.add_le_add_right ih _
    exact this hburied
  obtain ⟨hlength, hlive⟩ := hinv.fits
  refine ⟨⟨hburied.length_eq ▸ hlength, by omega⟩, fun index h => ?_⟩
  obtain ⟨hwf, hcovers, hsmall, hle⟩ := hinv.indexes index (hindex index h)
  exact ⟨hwf, fun i key hget hlive => hcovers i key (hkept hget hlive) hlive, hsmall,
    hcount.trans hle⟩

theorem IndexInvariant.step (hinv : set.IndexInvariant) {op : SetOperation}
    (hroom : set.hasIndexRoom op) :
    (∃ next out, set.step op = some (next, out) ∧ next.IndexInvariant) ∧
      ∀ call ∈ set.insertCalls op, call.needsRebuild = false := by
  cases op with
  | size => exact ⟨⟨set, _, rfl, hinv⟩, nofun⟩
  | clear =>
    refine ⟨⟨set.clear, _, rfl, hinv.bury ?_ nofun⟩, nofun⟩
    rw [SetObject.clear, forall₂_map_right_iff]
    exact List.forall₂_same.mpr fun _ _ => Or.inl rfl
  | has key =>
    obtain ⟨⟨next, found, hash, hfind, -, hnext, -⟩, hcalls⟩ := hinv.findKeyIndex key.1
    exact ⟨⟨next, _, by rw [SetObject.step, has, hfind], hnext⟩, hcalls⟩
  | delete key =>
    obtain ⟨⟨next, found, hash, hfind, -, hnext, -⟩, hcalls⟩ := hinv.findKeyIndex key.1
    refine ⟨?_, hcalls⟩
    rw [SetObject.step, deleteOperation, hfind]
    cases found with
    | none => exact ⟨next, _, rfl, hnext⟩
    | some i =>
      refine ⟨_, _, rfl, hnext.bury ?_ fun _ h => h⟩
      exact @forall₂_modify _ (fun old new : EncodedValue => new.isEmpty = true ∨ new = old) _
        (fun _ => Or.inr rfl) (fun _ => Or.inl rfl) _ _
  | add key =>
    obtain ⟨⟨next, found, hash, hfind, hstorage, hnext, hhash⟩, hcalls⟩ := hinv.findKeyIndex key.1
    rw [SetObject.step, add, insertCalls, hfind]
    cases found with
    | some i => exact ⟨⟨next, _, rfl, hnext⟩, by simpa using hcalls⟩
    | none =>
      obtain ⟨hlength, hlive⟩ := hroom
      have hfits : Fits (next.pushed (canonicalizeKeyedCollectionKey key.1)).storage := by
        rw [pushed, hstorage]
        refine ⟨by rwa [length_append], ?_⟩
        dsimp only
        have := liveCount_pushed set.storage (canonicalizeKeyedCollectionKey key.1)
        have hsize : set.size = liveCount set.storage := rfl
        omega
      obtain ⟨⟨last, hadd, -, hlast⟩, hmore⟩ := hnext.addToHashIndex _ hfits
      rw [hhash rfl, ← MapObject.keyedCollectionHash_canonicalize]
      refine ⟨⟨last, .done, ?_, hlast⟩, fun call hcall => ?_⟩
      · dsimp only
        rw [pushBack]
        exact congrArg (Option.map _) hadd
      · rcases List.mem_append.mp hcall with h | h
        · exact hcalls call h
        · exact hmore call h

theorem IndexInvariant.run (ops : List SetOperation) : ∀ {set : SetObject}, set.IndexInvariant →
    Guarded SetObject.step hasIndexRoom ops set →
    Guarded SetObject.step KeepsIndex ops set ∧
      ∃ last outs, run SetObject.step ops set = some (last, outs) ∧ last.IndexInvariant := by
  induction ops with
  | nil => exact fun hinv _ => ⟨trivial, _, _, rfl, hinv⟩
  | cons op ops ih =>
    intro set hinv hguarded
    obtain ⟨⟨next, out, hstep, hnext⟩, hcalls⟩ := hinv.step hguarded.head
    obtain ⟨hkeeps, last, outs, hrun, hlast⟩ := ih hnext (hguarded.tail hstep)
    refine ⟨⟨⟨hinv.sound, by rw [hstep]; rfl, hcalls⟩, fun other out' hother => ?_⟩,
      last, out :: outs, ?_, hlast⟩
    · cases hstep.symm.trans hother
      exact hkeeps
    · rw [run_cons_of_step hstep, hrun]
      rfl

end SetObject

namespace MapObject

variable {map : MapObject}

variable (map)

theorem searchIndex_asSet (key : Value) (index : KeyedCollectionHashIndex) :
    map.asSet.searchIndex key index =
      (map.searchIndex key index).map fun result => (result.1.asSet, result.2) := by
  rw [SetObject.searchIndex, searchIndex, Option.map_map]
  rfl

theorem findKeyIndex_asSet (key : Value) : map.asSet.findKeyIndex key =
      (map.findKeyIndex key).map fun result => (result.1.asSet, result.2) := by
  have hstorage : map.asSet.storage = map.keys := rfl
  have hindex : map.asSet.hashIndex = map.hashIndex := rfl
  rw [SetObject.findKeyIndex, findKeyIndex, hstorage, hindex, length_keys]
  cases map.hashIndex with
  | some index => exact searchIndex_asSet map key index
  | none =>
    dsimp only
    split
    · cases buildHashIndex map.keys with
      | none => rfl
      | some index => exact searchIndex_asSet map key index
    · cases scanKeys map.keys (.ofValue key) with
      | none => rfl
      | some i => rfl

theorem addToHashIndex_asSet (storageIndex : Nat) (hash : UInt64) :
    map.asSet.addToHashIndex storageIndex hash =
      (map.addToHashIndex storageIndex hash).map asSet := by
  have hstorage : map.asSet.storage = map.keys := rfl
  have hindex : map.asSet.hashIndex = map.hashIndex := rfl
  rw [SetObject.addToHashIndex, addToHashIndex, hindex, hstorage]
  cases map.hashIndex with
  | none => rfl
  | some index =>
    dsimp only
    split <;> (rw [Option.map_map]; rfl)

theorem pushBack_asSet (key value : Value) (hash : UInt64) :
    map.asSet.pushBack key hash = (map.pushBack key value hash).map asSet := by
  rw [pushBack, ← addToHashIndex_asSet, SetObject.pushBack, ← length_keys]
  have hkeys : asSet { map with storage := map.storage ++ [(.ofValue key, .ofValue value)] } =
      { map.asSet with storage := map.asSet.storage ++ [.ofValue key] } := by
    rw [asSet, keys, map_append]
    rfl
  rw [hkeys]
  rfl

theorem keys_modify (i : Nat)
    (f : EncodedValue × EncodedValue → EncodedValue × EncodedValue) (g : EncodedValue → EncodedValue)
    (hfg : ∀ e, (f e).1 = g e.1) :
    keys { map with storage := map.storage.modify i f } = map.keys.modify i g := by
  rw [keys, keys]
  apply ext_getElem?
  intro j
  rw [getElem?_map, getElem?_modify, getElem?_modify, getElem?_map]
  cases map.storage[j]? with
  | none => rfl
  | some e =>
    by_cases hij : i = j
    · simp [hij, hfg]
    · simp [hij]

theorem step_asSet (op : MapOperation) : (map.asSet.step op.onKeys).map (fun result => result.1) =
      (map.step op).map fun result => result.1.asSet := by
  have hfind := findKeyIndex_asSet map
  cases op with
  | size => rfl
  | clear =>
    have hclear : map.asSet.clear = map.clear.asSet := by
      simp only [SetObject.clear, asSet, clear, keys, List.map_map]
      rfl
    exact congrArg some hclear
  | get key =>
    rw [MapOperation.onKeys, step, get, SetObject.step, SetObject.has, hfind]
    cases map.findKeyIndex key.1 with
    | none => rfl
    | some result =>
      obtain ⟨next, found, hash⟩ := result
      cases found <;> rfl
  | has key =>
    rw [MapOperation.onKeys, step, has, SetObject.step, SetObject.has, hfind]
    cases map.findKeyIndex key.1 with
    | none => rfl
    | some result => rfl
  | delete key =>
    rw [MapOperation.onKeys, step, deleteOperation, SetObject.step, SetObject.deleteOperation,
      hfind]
    cases map.findKeyIndex key.1 with
    | none => rfl
    | some result =>
      obtain ⟨next, found, hash⟩ := result
      cases found with
      | none => rfl
      | some i =>
        have hkeys := keys_modify next i (fun _ => (⟨.empty⟩, ⟨.empty⟩)) (fun _ => ⟨.empty⟩)
          fun _ => rfl
        dsimp only [map_some]
        rw [asSet, asSet, hkeys]
  | set key value =>
    rw [MapOperation.onKeys, step, set, SetObject.step, SetObject.add, hfind]
    cases map.findKeyIndex key.1 with
    | none => rfl
    | some result =>
      obtain ⟨next, found, hash⟩ := result
      cases found with
      | none =>
        dsimp only [map_some]
        rw [pushBack_asSet next _ value.1, Option.map_map, Option.map_map, Option.map_map]
        rfl
      | some i =>
        have hkeys := keys_modify next i (fun e => (e.1, e.2.assign value.1)) id
          fun _ => rfl
        dsimp only [map_some]
        rw [asSet, asSet, hkeys, modify_id]
  | getOrInsert key value =>
    rw [MapOperation.onKeys, step, getOrInsert, SetObject.step, SetObject.add, hfind]
    dsimp only
    cases map.findKeyIndex (canonicalizeKeyedCollectionKey key.1) with
    | none => rfl
    | some result =>
      obtain ⟨next, found, hash⟩ := result
      cases found with
      | none =>
        dsimp only [map_some]
        rw [canonicalize_idem, pushBack_asSet next _ value.1, Option.map_map, Option.map_map,
          Option.map_map]
        rfl
      | some i => rfl

variable {map}

theorem indexInvariant_run (ops : List MapOperation) : ∀ {map : MapObject},
    map.asSet.IndexInvariant → Guarded MapObject.step hasIndexRoom ops map →
    Guarded MapObject.step KeepsIndex ops map ∧
      ∃ last outs, run MapObject.step ops map = some (last, outs) ∧ last.asSet.IndexInvariant := by
  induction ops with
  | nil => exact fun hinv _ => ⟨trivial, _, _, rfl, hinv⟩
  | cons op ops ih =>
    intro map hinv hguarded
    obtain ⟨⟨next', out', hstep', hnext'⟩, hcalls⟩ := hinv.step hguarded.head
    have hsame := step_asSet map op
    rw [hstep'] at hsame
    obtain ⟨⟨next, out⟩, hstep, hnext⟩ := Option.map_eq_some_iff.mp hsame.symm
    have hset : next.asSet = next' := hnext
    obtain ⟨hkeeps, last, outs, hrun, hlast⟩ := ih (hset ▸ hnext') (hguarded.tail hstep)
    refine ⟨⟨⟨hinv.sound, by rw [hstep']; rfl, hcalls⟩, fun other out' hother => ?_⟩,
      last, out :: outs, ?_, hlast⟩
    · cases hstep.symm.trans hother
      exact hkeeps
    · rw [run_cons_of_step hstep, hrun]
      rfl

end MapObject

namespace SetObject

variable {set next : SetObject} {hash : UInt64}

theorem hashIndex_of_findKeyIndex {key : Value} {found : Option Nat}
    (h : set.findKeyIndex key = some (next, found, hash))
    (hlarge : MapObject.threshold key ≤ set.storage.length) :
    ∃ index, next.hashIndex = some index ∧ (set.hashIndex = none ∨ set.hashIndex = some index) := by
  have hsearch : ∀ {index : KeyedCollectionHashIndex},
      set.searchIndex key index = some (next, found, hash) → next.hashIndex = some index := by
    intro index h
    obtain ⟨i, -, hresult⟩ := Option.map_eq_some_iff.mp h
    cases hresult
    rfl
  rw [SetObject.findKeyIndex] at h
  cases hindex : set.hashIndex with
  | some index =>
    rw [hindex] at h
    exact ⟨index, hsearch h, .inr rfl⟩
  | none =>
    rw [hindex] at h
    dsimp only at h
    rw [if_pos hlarge] at h
    split at h
    · cases h
    · exact ⟨_, hsearch h, .inl rfl⟩

variable {key : JSValue} {out : MapResult} {last : SetObject} {index : KeyedCollectionHashIndex}

theorem not_keepsIndex_of_rebuild (hfind : set.findKeyIndex key.1 = some (next, none, hash))
    (hindex : next.hashIndex = some index) (hrebuild : index.needsRebuild = true)
    (hlength : next.storage.length + 1 < 2 ^ 32)
    (hlow : 2 ^ 29 * 5 ≤ (liveCount next.storage + 1) * 6)
    (hhigh : (liveCount next.storage + 1) * 6 < 2 ^ 30 * 5) : ¬ set.KeepsIndex (.add key) := by
  rintro ⟨-, -, hcalls⟩
  have hempty : (EncodedValue.ofValue (canonicalizeKeyedCollectionKey key.1)).isEmpty = false := by
    rw [EncodedValue.isEmpty_ofValue, MapObject.isEmpty_canonicalize key.2]
  have hlive : liveCount (next.pushed (canonicalizeKeyedCollectionKey key.1)).storage =
      liveCount next.storage + 1 := by
    rw [pushed, liveCount, countP_append, countP_singleton, hempty]
    rfl
  obtain ⟨call, hcall, hdue⟩ := @buildHashIndex_overflows
    (next.pushed (canonicalizeKeyedCollectionKey key.1)).storage
    (by rwa [pushed, length_append]) (by rw [hlive]; exact hlow) (by rw [hlive]; exact hhigh)
  have hmem : call ∈ set.insertCalls (.add key) := by
    rw [insertCalls, hfind]
    refine mem_append_right _ ?_
    have hpushed : (next.pushed (canonicalizeKeyedCollectionKey key.1)).hashIndex = some index :=
      hindex
    dsimp only
    rw [addToHashIndexCalls, hpushed]
    dsimp only
    rw [if_pos hrebuild]
    exact hcall
  rw [hcalls call hmem] at hdue
  cases hdue

def intKey (k : Nat) : JSValue := ⟨.int32 (Int32.ofNat k), rfl⟩

theorem intKey_identity {j k : Nat} (hj : j < 2 ^ 31) (hk : k < 2 ^ 31)
    (h : (intKey j).1.identity = (intKey k).1.identity) : j = k := by
  have hnumber : Value.numberIdentity (.ofInt32 (Int32.ofNat j)) =
      Value.numberIdentity (.ofInt32 (Int32.ofNat k)) := by
    injection h
  rw [Value.numberIdentity_ofInt32, Value.numberIdentity_ofInt32, Option.some.injEq] at hnumber
  have hint := congrArg Int32.toInt (Double.ofInt32_injective hnumber)
  rw [Int32.toInt_ofNat_of_lt hj, Int32.toInt_ofNat_of_lt hk] at hint
  exact Int.ofNat_inj.mp hint

structure HoldsInts (set : SetObject) (n : Nat) : Prop where
  length_eq : set.storage.length = n
  live_eq : liveCount set.storage = n
  identities : ∀ stored ∈ set.storage, ∃ k < n, stored.value.identity = (intKey k).1.identity

theorem HoldsInts.fresh {n : Nat} (hholds : set.HoldsInts n) (hn : n < 2 ^ 31)
    {found : Option Nat} (hfind : set.findKeyIndex (intKey n).1 = some (next, found, hash)) :
    found = none ∧ next.storage = set.storage := by
  obtain ⟨hstorage, hfound, -⟩ := @lookup_spec set next _ found hash false (intKey n).2 nofun hfind
  refine ⟨?_, hstorage⟩
  cases found with
  | none => rfl
  | some i =>
    obtain ⟨stored, hget, -, hsame⟩ := hfound i rfl
    obtain ⟨k, hk, hidentity⟩ := hholds.identities stored (mem_of_getElem? hget)
    rw [Value.sameValueZero_iff, hidentity] at hsame
    have := intKey_identity (by omega) hn hsame
    omega

theorem HoldsInts.add {n : Nat} (hholds : set.HoldsInts n) (hn : n < 2 ^ 31) {out : MapResult}
    (hstep : set.step (.add (intKey n)) = some (next, out)) : next.HoldsInts (n + 1) := by
  rw [SetObject.step, SetObject.add] at hstep
  cases hfind : set.findKeyIndex (intKey n).1 with
  | none =>
    rw [hfind] at hstep
    cases hstep
  | some result =>
    obtain ⟨mid, found, hash⟩ := result
    obtain ⟨rfl, hmid⟩ := hholds.fresh hn hfind
    rw [hfind] at hstep
    obtain ⟨last, hpush, hresult⟩ := Option.map_eq_some_iff.mp hstep
    cases hresult
    have hstorage : next.storage = set.storage ++
        [.ofValue (canonicalizeKeyedCollectionKey (intKey n).1)] := by
      rw [addToHashIndex_storage hpush, ← hmid]
    have hempty :
        (EncodedValue.ofValue (canonicalizeKeyedCollectionKey (intKey n).1)).isEmpty = false := by
      rw [EncodedValue.isEmpty_ofValue, MapObject.isEmpty_canonicalize (intKey n).2]
    refine ⟨?_, ?_, ?_⟩
    · rw [hstorage, length_append, hholds.length_eq, length_singleton]
    · rw [hstorage, liveCount, countP_append, countP_singleton, hempty]
      exact congrArg (· + 1) hholds.live_eq
    · rw [hstorage]
      intro stored hmem
      rcases List.mem_append.mp hmem with h | h
      · obtain ⟨k, hk, hidentity⟩ := hholds.identities stored h
        exact ⟨k, by omega, hidentity⟩
      · rw [List.mem_singleton.mp h]
        exact ⟨n, Nat.lt_succ_self n, (EncodedValue.sameValue_ofValue _).1.trans
          (MapObject.identity_canonicalize _)⟩

/-- The first `n` keys, added one after another. -/
def addInts (n : Nat) : List SetOperation := (List.range n).map fun k => .add (intKey k)

theorem run_addInts : ∀ n, n * 6 < 2 ^ 29 * 5 →
    ∃ set outs, run SetObject.step (addInts n) empty = some (set, outs) ∧ set.IndexInvariant ∧
      set.HoldsInts n
  | 0, _ => ⟨_, _, rfl, indexInvariant_empty, rfl, rfl, nofun⟩
  | n + 1, hn => by
      obtain ⟨set, outs, hrun, hinv, hholds⟩ := run_addInts n (by omega)
      have hroom : set.hasIndexRoom (.add (intKey n)) := by
        have hsize : set.size = n := hholds.live_eq
        refine ⟨?_, ?_⟩
        · rw [hholds.length_eq]
          omega
        · rw [hsize]
          exact hn
      obtain ⟨⟨next, out, hstep, hnext⟩, -⟩ := hinv.step hroom
      have hops : addInts (n + 1) = addInts n ++ [.add (intKey n)] := by
        rw [addInts, range_succ, map_append]
        rfl
      rw [hops]
      exact ⟨next, _, run_concat hrun hstep, hnext, hholds.add (by omega) hstep⟩

theorem hashIndex_of_add (hfind : set.findKeyIndex key.1 = some (next, none, hash))
    (hindex : next.hashIndex = some index) (hrebuild : index.needsRebuild = false)
    (hstep : set.step (.add key) = some (last, out)) :
    ∃ grown, last.hashIndex = some grown ∧ grown.capacity = index.capacity ∧
      grown.occupied = index.occupied + 1 := by
  rw [SetObject.step, SetObject.add, hfind] at hstep
  obtain ⟨last, hpush, hresult⟩ := Option.map_eq_some_iff.mp hstep
  cases hresult
  rw [SetObject.pushBack, SetObject.addToHashIndex, hindex] at hpush
  dsimp only at hpush
  rw [if_neg (by rw [hrebuild]; decide)] at hpush
  obtain ⟨grown, hinsert, hresult⟩ := Option.map_eq_some_iff.mp hpush
  obtain ⟨i, -, hgrown⟩ := Option.map_eq_some_iff.mp hinsert
  cases hresult
  cases hgrown
  exact ⟨_, rfl, rfl, rfl⟩

/-- With 447392427 keys a rebuild is due, and the rebuild calls `insert` with one due again. -/
theorem index_overflows : ¬ ∀ ops, Guarded SetObject.step KeepsIndex ops SetObject.empty := by
  intro hall
  obtain ⟨set, outs, hrun, hinv, hholds⟩ := run_addInts 447392426 (by decide)
  have hguarded := (hall (addInts 447392426 ++
    [.add (intKey 447392426), .add (intKey 447392427)])).append_right hrun
  obtain ⟨⟨next, found, hash, hfind, -, hnext, -⟩, -⟩ := hinv.findKeyIndex (intKey 447392426).1
  obtain ⟨rfl, hstorage⟩ := hholds.fresh (by decide) hfind
  have hlarge : MapObject.threshold (intKey 447392426).1 ≤ set.storage.length := by
    rw [hholds.length_eq]
    decide
  obtain ⟨index, hindex, -⟩ := hashIndex_of_findKeyIndex hfind hlarge
  obtain ⟨hwf, -, hsmall, hlive⟩ := hnext.indexes index hindex
  have hlt := hwf.occupied_lt
  have hcount := hholds.live_eq
  rw [hstorage, hcount] at hlive
  have hlength := hholds.length_eq
  cases hrebuild : index.needsRebuild with
  | true =>
    refine not_keepsIndex_of_rebuild hfind hindex hrebuild ?_ ?_ ?_ hguarded.head <;>
      (rw [hstorage]; omega)
  | false =>
    obtain ⟨⟨last, out⟩, hstep⟩ := Option.isSome_iff_exists.mp hguarded.head.2.1
    have hheld := hholds.add (by decide) hstep
    obtain ⟨grown, hgrown, hcapacity, hoccupied⟩ := hashIndex_of_add hfind hindex hrebuild hstep
    have hkeeps := (hguarded.tail hstep).head
    obtain ⟨-, -, hbound, -⟩ := hkeeps.1 grown hgrown
    cases hfind' : last.findKeyIndex (intKey 447392427).1 with
    | none =>
      have hends := hkeeps.2.1
      rw [SetObject.step, SetObject.add, hfind'] at hends
      cases hends
    | some result =>
      obtain ⟨next', found, hash'⟩ := result
      obtain ⟨rfl, hstorage'⟩ := hheld.fresh (by decide) hfind'
      have hlarge' : MapObject.threshold (intKey 447392427).1 ≤ last.storage.length := by
        rw [hheld.length_eq]
        decide
      obtain ⟨index', hindex', hsame⟩ := hashIndex_of_findKeyIndex hfind' hlarge'
      rw [hgrown] at hsame
      obtain rfl : grown = index' := hsame.elim (fun hnone => by cases hnone) Option.some.inj
      have hgrownOcc : grown.occupied.toNat = index.occupied.toNat + 1 := by
        rw [hoccupied, UInt32.toNat_add, UInt32.toNat_one, Nat.mod_eq_of_lt (by omega)]
      have hdue : grown.needsRebuild = true := by
        by_contra hnot
        rw [Bool.not_eq_true, KeyedCollectionHashIndex.needsRebuild_eq_false_iff
          (by rw [hcapacity]; exact hsmall) hbound, hcapacity] at hnot
        omega
      have hcount' := hheld.live_eq
      have hlength' := hheld.length_eq
      refine not_keepsIndex_of_rebuild hfind' hindex' hdue ?_ ?_ ?_ hkeeps <;>
        (rw [hstorage']; omega)

end SetObject

/-- In every run of a set and in every run of a map whose insertions fit the index, each step
starts from a sound index, ends, and calls `insert` only while no rebuild is due; the
state reached has a sound index. -/
theorem hash_index_invariant (setOps : List SetOperation) (mapOps : List MapOperation)
    (hset : Guarded SetObject.step SetObject.hasIndexRoom setOps .empty)
    (hmap : Guarded MapObject.step MapObject.hasIndexRoom mapOps .empty) :
    (Guarded SetObject.step SetObject.KeepsIndex setOps .empty ∧
      ∃ set outs, run SetObject.step setOps .empty = some (set, outs) ∧ set.IndexSound) ∧
    (Guarded MapObject.step MapObject.KeepsIndex mapOps .empty ∧
      ∃ map outs, run MapObject.step mapOps .empty = some (map, outs) ∧ map.asSet.IndexSound) := by
  obtain ⟨hsetKeeps, set, setOuts, hsetRun, hsetInv⟩ :=
    SetObject.IndexInvariant.run setOps SetObject.indexInvariant_empty hset
  obtain ⟨hmapKeeps, map, mapOuts, hmapRun, hmapInv⟩ :=
    MapObject.indexInvariant_run mapOps
      (show MapObject.empty.asSet.IndexInvariant from SetObject.indexInvariant_empty) hmap
  exact ⟨⟨hsetKeeps, set, setOuts, hsetRun, hsetInv.sound⟩,
    ⟨hmapKeeps, map, mapOuts, hmapRun, hmapInv.sound⟩⟩

/-- A set and a map whose indexes were built, and rebuilt after keys were removed. -/
theorem hash_index_invariant_rebuilt :
    (Guarded SetObject.step SetObject.KeepsIndex SetObject.rebuiltOps .empty ∧
      ∃ set outs, run SetObject.step SetObject.rebuiltOps .empty = some (set, outs) ∧
        set.IndexSound ∧
        set.hashIndex.map (fun index => (index.capacity, index.occupied)) = some (32, 22)) ∧
    (Guarded MapObject.step MapObject.KeepsIndex MapObject.rebuiltOps .empty ∧
      ∃ map outs, run MapObject.step MapObject.rebuiltOps .empty = some (map, outs) ∧
        map.asSet.IndexSound ∧
        map.hashIndex.map (fun index => (index.capacity, index.occupied)) = some (32, 21)) := by
  have hset : (run SetObject.step SetObject.rebuiltOps .empty).map (fun result =>
      result.1.hashIndex.map fun index => (index.capacity, index.occupied)) =
      some (some (32, 22)) := by decide +kernel
  have hmap : (run MapObject.step MapObject.rebuiltOps .empty).map (fun result =>
      result.1.hashIndex.map fun index => (index.capacity, index.occupied)) =
      some (some (32, 21)) := by decide +kernel
  obtain ⟨⟨hsetKeeps, set, setOuts, hsetRun, hsetSound⟩,
      hmapKeeps, map, mapOuts, hmapRun, hmapSound⟩ :=
    hash_index_invariant SetObject.rebuiltOps MapObject.rebuiltOps (by decide +kernel)
      (by decide +kernel)
  rw [hsetRun] at hset
  rw [hmapRun] at hmap
  exact ⟨⟨hsetKeeps, set, setOuts, hsetRun, hsetSound, Option.some.inj hset⟩,
    hmapKeeps, map, mapOuts, hmapRun, hmapSound, Option.some.inj hmap⟩

end Escargot.Runtime
