/-
# The hash index of keyed collections

`Map` and `Set` keep their keys in an append-only storage whose deleted entries
become empty slots. Past a size they answer lookups from an open-addressing
index over the storage: a power of two of `uint32_t` buckets, each zero or one
more than a storage index. The model keeps the `uint32_t` arithmetic of the
index. A loop of the source that need not end is an `Option`.
-/

import Escargot.Foundation.LinearProbing
import Escargot.Runtime.Value

namespace Escargot.Runtime

open List Escargot.Foundation

def keyedCollectionHashMix (u : UInt64) : UInt64 :=
  let u := u ^^^ (u >>> 33)
  let u := u * 0xff51afd7ed558ccd
  u ^^^ (u >>> 33)

def keyedCollectionPointerHash (address : Nat) : UInt64 :=
  keyedCollectionHashMix (UInt64.ofNat address)

/-- `keyedCollectionHash`. The last case stands for `asBoolean` on a value that
is none of the others. -/
def keyedCollectionHash : Value → UInt64
  | .int32 i => if i = 0 then 0 else keyedCollectionHashMix (Double.ofInt32 i)
  | .double d =>
    if d.isZero then 0
    else if d.isnan then 0x7ff8000000000000 &&& 0xffffffff
    else keyedCollectionHashMix d
  | .string _ s => s.hashValue.toUInt64 ^^^ (UInt64.ofNat s.length * 0x9e3779b9)
  | .bigInt _ _ => 0x62696e74
  | .symbol address => keyedCollectionPointerHash address
  | .object address => keyedCollectionPointerHash address
  | .undefined => 0x75646566
  | .null => 0x6e756c6c
  | .boolean true => 0x74727565
  | _ => 0x66616c73

/-- Two values whose representations cannot disagree on the hash. Only strings
have representations that can. -/
def Value.hashCompatible : Value → Value → Bool
  | .string _ s, .string _ t => s.hashCompatible t
  | _, _ => true

theorem keyedCollectionHash_double_congr {a b : Double}
    (h : Value.numberIdentity a = Value.numberIdentity b) :
    keyedCollectionHash (.double a) = keyedCollectionHash (.double b) := by
  have hform : ∀ d : Double, keyedCollectionHash (.double d) = match Value.numberIdentity d with
      | none => 0
      | some c => if c.isZero then 0 else keyedCollectionHashMix c := by
    intro d
    have hnan : (0x7ff8000000000000 &&& 0xffffffff : UInt64) = 0 := by decide
    have hzero : Double.isZero 0 = true := by decide
    unfold keyedCollectionHash
    dsimp only
    rw [Value.numberIdentity, hnan]
    cases hd : d.isnan <;> cases hz : d.isZero <;> simp [hz, hzero]
  rw [hform, hform, h]

theorem keyedCollectionHash_int32 (i : Int32) :
    keyedCollectionHash (.int32 i) = keyedCollectionHash (.double (.ofInt32 i)) := by
  unfold keyedCollectionHash
  dsimp only
  rw [Double.isZero_ofInt32, Double.isnan_ofInt32]
  simp

theorem keyedCollectionHash_congr {v w : Value} (h : v.identity = w.identity)
    (hcompatible : v.hashCompatible w = true) :
    keyedCollectionHash v = keyedCollectionHash w := by
  cases v <;> cases w <;> simp only [Value.identity, Value.Identity.number.injEq,
    Value.Identity.text.injEq, Value.Identity.immediate.injEq, reduceCtorEq] at h
  case int32.int32 i j =>
    rw [keyedCollectionHash_int32, keyedCollectionHash_int32]
    exact keyedCollectionHash_double_congr h
  case int32.double i d =>
    rw [keyedCollectionHash_int32]
    exact keyedCollectionHash_double_congr h
  case double.int32 d i =>
    rw [keyedCollectionHash_int32 i]
    exact keyedCollectionHash_double_congr h
  case double.double a b => exact keyedCollectionHash_double_congr h
  case string.string a s b t =>
    have hlength : s.length = t.length := by
      rw [← EString.length_content, ← EString.length_content, h]
    unfold keyedCollectionHash
    dsimp only
    rw [hlength, EString.hashValue_eq_of_compatible h hcompatible]
  case boolean.boolean => rw [h]
  case symbol.symbol => rw [h]
  case object.object => rw [h]
  all_goals rfl

/-- `KeyedCollectionHashIndex`. The buckets are a buffer, read and written at
positions below the capacity. -/
structure KeyedCollectionHashIndex where
  capacity : UInt32
  occupied : UInt32
  buckets : Nat → UInt32

namespace KeyedCollectionHashIndex

def buildThreshold : Nat := 16

/-- The loop of `create`. The capacity is shifted out to zero after the 28
powers of two from 16 on, and then the loop never ends. -/
def createCapacity (liveCount : Nat) : Nat → UInt32 → Option UInt32
  | 0, _ => none
  | fuel + 1, capacity =>
    if capacity.toNat * 5 ≤ liveCount * 6 then createCapacity liveCount fuel (capacity <<< 1)
    else some capacity

def create (liveCount : Nat) : Option KeyedCollectionHashIndex :=
  (createCapacity liveCount 28 16).map fun capacity =>
    { capacity := capacity, occupied := 0, buckets := fun _ => 0 }

variable (index : KeyedCollectionHashIndex) (hash : UInt64)

/-- `KeyedCollectionHashIndex::needsRebuild`, in `uint32_t` arithmetic. -/
def needsRebuild : Bool := index.capacity * 5 ≤ index.occupied * 6

/-- The mask of both searches, a `size_t`. -/
def mask : Nat := (index.capacity - 1).toNat

/-- The free bucket `insert` ends at; the loop never ends in a full table. -/
def freeSlot : Option Nat :=
  probe (nextSlot index.mask) (fun i => if index.buckets i = 0 then some i else none)
    index.capacity.toNat (hash.toNat &&& index.mask)

def insert (storageIndex : Nat) : Option KeyedCollectionHashIndex :=
  (index.freeSlot hash).map fun i =>
    { index with
      buckets := Function.update index.buckets i (UInt32.ofNat (storageIndex + 1))
      occupied := index.occupied + 1 }

end KeyedCollectionHashIndex

/-- The comparison both searches make, payload first. -/
def matchesKey (stored key : EncodedValue) : Bool :=
  stored.samePayload key || (!stored.isEmpty && stored.value.sameValueZero key.value)

variable (index : KeyedCollectionHashIndex) (keys : List EncodedValue) (key : EncodedValue)

/-- The scan of `findKeyIndex` over the whole storage. -/
def scanKeys : Option Nat := keys.findIdx? (matchesKey · key)

/-- The search of `findKeyIndex` through the index. -/
def probeKeys (hash : UInt64) : Option (Option Nat) :=
  probe (nextSlot index.mask)
    (fun i =>
      let b := (index.buckets i).toNat
      if b = 0 then some none
      else if matchesKey (keys.getD (b - 1) ⟨.empty⟩) key then some (some (b - 1))
      else none)
    index.capacity.toNat (hash.toNat &&& index.mask)

/-- The loop of `buildOrRebuildHashIndex` over the storage from position `i` on. -/
def insertKeys : List EncodedValue → Nat → KeyedCollectionHashIndex →
    Option KeyedCollectionHashIndex
  | [], _, index => some index
  | key :: keys, i, index =>
    if key.isEmpty then insertKeys keys (i + 1) index
    else
      match index.insert (keyedCollectionHash key.toValue) i with
      | none => none
      | some index => insertKeys keys (i + 1) index

/-- `buildOrRebuildHashIndex`. -/
def buildHashIndex : Option KeyedCollectionHashIndex :=
  match KeyedCollectionHashIndex.create (keys.countP (fun key => !key.isEmpty)) with
  | none => none
  | some index => insertKeys keys 0 index

namespace KeyedCollectionHashIndex

variable {index : KeyedCollectionHashIndex}

def isFree (bucket : UInt32) : Bool := bucket == 0

/-- A power of two of buckets, counted correctly, with a free one among them. -/
structure WellFormed (index : KeyedCollectionHashIndex) : Prop where
  capacity_pow : ∃ p, 4 ≤ p ∧ p ≤ 31 ∧ index.capacity.toNat = 2 ^ p
  occupied_eq : occupiedCount isFree index.capacity.toNat index.buckets = index.occupied.toNat
  occupied_lt : index.occupied.toNat < index.capacity.toNat

theorem WellFormed.iterate_eq (hwf : index.WellFormed) (hash : UInt64) (k : Nat) :
    (nextSlot index.mask)^[k] (hash.toNat &&& index.mask) =
      slot index.capacity.toNat hash.toNat k := by
  obtain ⟨p, -, -, hp⟩ := hwf.capacity_pow
  have hone : (1 : UInt32) ≤ index.capacity := by
    rw [UInt32.le_iff_toNat_le, hp]
    exact Nat.two_pow_pos p
  rw [mask, UInt32.toNat_sub_of_le _ _ hone, hp]
  exact iterate_nextSlot p hash.toNat k

theorem WellFormed.exists_free_slot (hwf : index.WellFormed) (hash : UInt64) :
    ∃ k < index.capacity.toNat, index.buckets (slot index.capacity.toNat hash.toNat k) = 0 := by
  obtain ⟨i, hi, hfree⟩ := exists_free_of_occupiedCount_lt (hwf.occupied_eq ▸ hwf.occupied_lt)
  obtain ⟨k, hk, hslot⟩ := exists_slot_eq hi hash.toNat
  exact ⟨k, hk, by simpa [hslot, isFree] using hfree⟩

/-- While no rebuild is due, at most five sixths of the buckets are occupied,
also where the products of the comparison wrap around. -/
theorem WellFormed.occupied_of_not_needsRebuild (hwf : index.WellFormed)
    (h : index.needsRebuild = false) :
    index.occupied.toNat * 6 < index.capacity.toNat * 5 := by
  obtain ⟨p, hlow, hhigh, hp⟩ := hwf.capacity_pow
  have hocc := hwf.occupied_lt
  rw [needsRebuild, decide_eq_false_iff_not, UInt32.not_le, UInt32.lt_iff_toNat_lt,
    UInt32.toNat_mul, UInt32.toNat_mul] at h
  simp only [UInt32.reduceToNat] at h
  rcases Nat.lt_or_ge p 30 with hsmall | hlarge
  · have hpow : 2 ^ p ≤ 2 ^ 29 := Nat.pow_le_pow_right (by decide) (by omega)
    rwa [Nat.mod_eq_of_lt (by omega), Nat.mod_eq_of_lt (by omega)] at h
  · -- the two largest capacities, where the products are taken modulo `2 ^ 32`
    have hwraps : index.occupied.toNat * 6 / 2 ^ 32 ≤ 2 := by
      have hpow : 2 ^ p ≤ 2 ^ 31 := Nat.pow_le_pow_right (by decide) hhigh
      omega
    have hdiv := Nat.div_add_mod (index.occupied.toNat * 6) (2 ^ 32)
    generalize index.occupied.toNat * 6 / 2 ^ 32 = wraps at hwraps hdiv
    interval_cases p <;> interval_cases wraps <;> omega

/-- The first free bucket exists and is where the search of `insert` ends. -/
theorem WellFormed.freeSlot_eq (hwf : index.WellFormed) (hash : UInt64) :
    ∃ k < index.capacity.toNat,
      index.freeSlot hash = some (slot index.capacity.toNat hash.toNat k) ∧
      isFree (index.buckets (slot index.capacity.toNat hash.toNat k)) = true ∧
      ∀ j < k, isFree (index.buckets (slot index.capacity.toNat hash.toNat j)) = false := by
  obtain ⟨m, hm, hfree⟩ := hwf.exists_free_slot hash
  have hsome : (index.freeSlot hash).isSome := by
    refine probe_isSome hm ?_
    rw [hwf.iterate_eq, if_pos hfree]
    rfl
  obtain ⟨found, hfound⟩ := Option.isSome_iff_exists.mp hsome
  obtain ⟨k, hk, hstop, hbefore⟩ := probe_eq_some_iff.mp hfound
  rw [hwf.iterate_eq] at hstop
  split at hstop
  · rename_i hzero
    refine ⟨k, hk, ?_, by rw [hzero]; rfl, fun j hj => ?_⟩
    · rw [hfound, ← Option.some.inj hstop]
    · have hnone := hbefore j hj
      rw [hwf.iterate_eq] at hnone
      split at hnone
      · cases hnone
      · rename_i hocc
        exact beq_eq_false_iff_ne.mpr hocc
  · cases hstop

theorem isFree_ofNat {i : Nat} (hi : i + 1 < 2 ^ 32) : isFree (UInt32.ofNat (i + 1)) = false := by
  rw [isFree, beq_eq_false_iff_ne, Ne, ← UInt32.toNat_inj, UInt32.toNat_ofNat', Nat.mod_eq_of_lt hi]
  exact Nat.succ_ne_zero _

theorem WellFormed.insert_spec (hwf : index.WellFormed) (hash : UInt64) (storageIndex : Nat)
    (hroom : index.occupied.toNat + 1 < index.capacity.toNat)
    (hsmall : storageIndex + 1 < 2 ^ 32) :
    ∃ next, index.insert hash storageIndex = some next ∧ next.WellFormed ∧
      next.capacity = index.capacity ∧ next.occupied.toNat = index.occupied.toNat + 1 ∧
      (∀ home entry, isFree entry = false →
        Reached isFree index.capacity.toNat index.buckets home entry →
        Reached isFree index.capacity.toNat next.buckets home entry) ∧
      Reached isFree index.capacity.toNat next.buckets hash.toNat
        (UInt32.ofNat (storageIndex + 1)) := by
  obtain ⟨k, hk, hslot, hfree, hbefore⟩ := hwf.freeSlot_eq hash
  have hocc : (index.occupied + 1).toNat = index.occupied.toNat + 1 := by
    have := index.capacity.toNat_lt
    rw [UInt32.toNat_add, UInt32.toNat_one]
    omega
  have hlt : slot index.capacity.toNat hash.toNat k < index.capacity.toNat :=
    slot_lt (Nat.zero_lt_of_lt hk) _ _
  have hinsert : index.insert hash storageIndex = some
      { index with
        buckets := Function.update index.buckets (slot index.capacity.toNat hash.toNat k)
          (UInt32.ofNat (storageIndex + 1))
        occupied := index.occupied + 1 } := by
    rw [insert, hslot]
    rfl
  refine ⟨_, hinsert, ⟨hwf.capacity_pow, ?_, ?_⟩, rfl, hocc, ?_, ?_⟩
  · rw [hocc, ← hwf.occupied_eq]
    exact occupiedCount_update hlt hfree (isFree_ofNat hsmall)
  · rw [hocc]
    exact hroom
  · intro home entry hentry hreached
    exact hreached.update hentry hfree
  · exact reached_update_self hk hfree hbefore

theorem createCapacity_eq {liveCount : Nat} (hlive : liveCount * 6 < 2 ^ 31 * 5) :
    ∀ m p : Nat, 4 ≤ p → p + m = 31 → ∃ q, 4 ≤ q ∧ q ≤ 31 ∧ liveCount * 6 < 2 ^ q * 5 ∧
        createCapacity liveCount (m + 1) (UInt32.ofNat (2 ^ p)) = some (UInt32.ofNat (2 ^ q)) := by
  intro m
  induction m with
  | zero =>
    intro p hlow hp
    obtain rfl : p = 31 := hp
    refine ⟨31, by decide, by decide, hlive, ?_⟩
    rw [createCapacity, if_neg]
    simp only [UInt32.toNat_ofNat']
    omega
  | succ m ih =>
    intro p hlow hp
    have hle : p < 31 := by omega
    have htoNat : (UInt32.ofNat (2 ^ p)).toNat = 2 ^ p := by
      rw [UInt32.toNat_ofNat', Nat.mod_eq_of_lt]
      exact Nat.pow_lt_pow_right (by decide) (by omega)
    rw [createCapacity, htoNat]
    by_cases hcond : 2 ^ p * 5 ≤ liveCount * 6
    · have hshift : UInt32.ofNat (2 ^ p) <<< 1 = UInt32.ofNat (2 ^ (p + 1)) := by
        interval_cases p <;> rfl
      rw [if_pos hcond, hshift]
      exact ih (p + 1) (by omega) (by omega)
    · exact ⟨p, hlow, by omega, by omega, by rw [if_neg hcond]⟩

theorem create_spec {liveCount : Nat} (hlive : liveCount * 6 < 2 ^ 31 * 5) :
    ∃ index, create liveCount = some index ∧ index.WellFormed ∧ index.occupied = 0 ∧
      liveCount < index.capacity.toNat := by
  obtain ⟨q, hlow, hhigh, hq, hcreate⟩ := createCapacity_eq hlive 27 4 (by decide) (by decide)
  have hcapacity : (UInt32.ofNat (2 ^ q)).toNat = 2 ^ q := by
    rw [UInt32.toNat_ofNat', Nat.mod_eq_of_lt]
    exact Nat.pow_lt_pow_right (by decide) (by omega)
  refine ⟨_, by rw [create]; exact congrArg _ hcreate,
    ⟨⟨q, hlow, hhigh, hcapacity⟩, ?_, ?_⟩, rfl, ?_⟩
  · simp [occupiedCount, isFree]
  · rw [hcapacity]
    exact Nat.two_pow_pos q
  · rw [hcapacity]
    omega

end KeyedCollectionHashIndex

open KeyedCollectionHashIndex (isFree isFree_ofNat)

variable (index : KeyedCollectionHashIndex) (keys : List EncodedValue)

/-- Every live key can be met by a search from its own hash. -/
def Covers : Prop :=
  ∀ i key, keys[i]? = some key → key.isEmpty = false →
    Reached isFree index.capacity.toNat index.buckets
      (keyedCollectionHash key.toValue).toNat (UInt32.ofNat (i + 1))

/-- No two live keys are `SameValueZero`-equal. -/
def DistinctKeys : Prop :=
  keys.Pairwise fun a b =>
    a.isEmpty = false → b.isEmpty = false → a.value.identity ≠ b.value.identity

/-- The number of live keys. -/
def liveCount : Nat := keys.countP fun key => !key.isEmpty

theorem covers_concat {index : KeyedCollectionHashIndex} {keys : List EncodedValue}
    {key : EncodedValue} (hcovers : Covers index keys)
    (hkey : key.isEmpty = false → Reached isFree index.capacity.toNat index.buckets
      (keyedCollectionHash key.toValue).toNat (UInt32.ofNat (keys.length + 1))) :
    Covers index (keys ++ [key]) := by
  intro i stored hget hlive
  rcases Nat.lt_or_ge i keys.length with hlt | hge
  · rw [getElem?_append_left hlt] at hget
    exact hcovers i stored hget hlive
  · rw [getElem?_append_right hge] at hget
    obtain ⟨hlt, hget⟩ := List.getElem?_eq_some_iff.mp hget
    rw [length_singleton] at hlt
    obtain rfl : i = keys.length := by omega
    simp only [Nat.sub_self, getElem_cons_zero] at hget
    subst hget
    exact hkey hlive

theorem Covers.insert {index next : KeyedCollectionHashIndex} {keys : List EncodedValue}
    {key : EncodedValue} (hcovers : Covers index keys) (hsmall : keys.length + 1 < 2 ^ 32)
    (hcapacity : next.capacity = index.capacity)
    (hkeep : ∀ home entry, isFree entry = false →
      Reached isFree index.capacity.toNat index.buckets home entry →
      Reached isFree index.capacity.toNat next.buckets home entry)
    (hnew : Reached isFree index.capacity.toNat next.buckets
      (keyedCollectionHash key.toValue).toNat (UInt32.ofNat (keys.length + 1))) :
    Covers next (keys ++ [key]) := by
  rw [← hcapacity] at hnew
  refine covers_concat (fun i stored hget hlive => ?_) fun _ => hnew
  have hi : i < keys.length := (List.getElem?_eq_some_iff.mp hget).1
  rw [hcapacity]
  exact hkeep _ _ (isFree_ofNat (by omega)) (hcovers i stored hget hlive)

/-- The rebuild loop: every key of the rest is inserted, with room to spare. -/
theorem insertKeys_spec :
    ∀ (front : List EncodedValue) {index : KeyedCollectionHashIndex}, index.WellFormed →
      Covers index front → front.length + keys.length < 2 ^ 32 →
      index.occupied.toNat + liveCount keys < index.capacity.toNat →
      ∃ next, insertKeys keys front.length index = some next ∧ next.WellFormed ∧
        Covers next (front ++ keys) := by
  induction keys with
  | nil =>
    intro front index hwf hcovers _ _
    exact ⟨index, rfl, hwf, by rwa [append_nil]⟩
  | cons key keys ih =>
    intro front index hwf hcovers hsmall hroom
    rw [length_cons] at hsmall
    have hfront : (front ++ [key]).length = front.length + 1 := by simp
    have happend : front ++ key :: keys = front ++ [key] ++ keys := by simp
    rw [insertKeys]
    cases hempty : key.isEmpty with
    | true =>
      have hlive : liveCount (key :: keys) = liveCount keys := by simp [liveCount, hempty]
      have hcovers' : Covers index (front ++ [key]) :=
        covers_concat hcovers fun hlive => absurd (hempty.symm.trans hlive) (by decide)
      rw [hlive] at hroom
      rw [if_pos rfl, happend, ← hfront]
      exact ih _ hwf hcovers' (by omega) hroom
    | false =>
      have hlive : liveCount (key :: keys) = liveCount keys + 1 := by simp [liveCount, hempty]
      obtain ⟨next, hinsert, hnext, hcapacity, hocc, hkeep, hnew⟩ :=
        hwf.insert_spec (keyedCollectionHash key.toValue) front.length (by omega) (by omega)
      rw [if_neg (by decide), hinsert, happend, ← hfront]
      refine ih _ hnext (hcovers.insert (by omega) hcapacity hkeep hnew) (by omega) ?_
      rw [hocc, hcapacity]
      omega

/-- A rebuild returns within the limits of the index and covers the storage. -/
theorem buildHashIndex_spec {keys : List EncodedValue} (hlength : keys.length < 2 ^ 32)
    (hlive : liveCount keys * 6 < 2 ^ 31 * 5) :
    ∃ index, buildHashIndex keys = some index ∧ index.WellFormed ∧ Covers index keys := by
  obtain ⟨index, hcreate, hwf, hzero, hcapacity⟩ := KeyedCollectionHashIndex.create_spec hlive
  have hempty : Covers index [] := fun i key hget _ => by simp at hget
  rw [liveCount] at hcreate
  rw [buildHashIndex, hcreate]
  refine insertKeys_spec keys [] hwf hempty (by simpa using hlength) ?_
  rw [hzero]
  simpa using hcapacity

section Search

variable {keys : List EncodedValue} {key : Value}

theorem EncodedValue.isEmpty_ofValue (v : Value) :
    (EncodedValue.ofValue v).isEmpty = v.isEmpty := by
  cases v with
  | double d =>
    delta EncodedValue.ofValue
    dsimp only
    cases isInt32ConvertibleDouble d with
    | none => rfl
    | some i =>
      dsimp only
      split <;> rfl
  | _ => rfl

/-- The comparison of the searches finds the live keys of the same identity. -/
theorem matchesKey_iff (stored : EncodedValue) (hkey : key.isEmpty = false) :
    matchesKey stored (.ofValue key) = true ↔
      stored.isEmpty = false ∧ stored.value.identity = key.identity := by
  have hidentity := (EncodedValue.sameValue_ofValue key).1
  have hempty := (EncodedValue.isEmpty_ofValue key).trans hkey
  rw [matchesKey, Bool.or_eq_true, Bool.and_eq_true, Value.sameValueZero_iff, hidentity,
    Bool.not_eq_true']
  constructor
  · rintro (hpayload | hsame)
    · rw [EncodedValue.samePayload, Bool.and_eq_true, beq_iff_eq] at hpayload
      obtain rfl : stored = EncodedValue.ofValue key := by
        cases stored
        exact congrArg EncodedValue.mk hpayload.2
      exact ⟨hempty, hidentity⟩
    · exact hsame
  · exact Or.inr

theorem scanKeys_eq_some_iff (hdistinct : DistinctKeys keys) (hkey : key.isEmpty = false)
    (i : Nat) :
    scanKeys keys (.ofValue key) = some i ↔
      matchesKey (keys.getD i ⟨.empty⟩) (.ofValue key) = true := by
  have hrange : matchesKey (keys.getD i ⟨.empty⟩) (.ofValue key) = true → i < keys.length := by
    intro hmatch
    by_contra hge
    rw [getD_eq_default _ _ (Nat.le_of_not_lt hge), matchesKey_iff _ hkey] at hmatch
    exact absurd hmatch.1 (by decide)
  rw [scanKeys, findIdx?_eq_some_iff_getElem]
  constructor
  · rintro ⟨hi, hmatch, -⟩
    rwa [getD_eq_getElem _ _ hi]
  · intro hmatch
    have hi := hrange hmatch
    rw [getD_eq_getElem _ _ hi] at hmatch
    refine ⟨hi, hmatch, fun j hj hother => ?_⟩
    obtain ⟨hlivei, hidi⟩ := (matchesKey_iff _ hkey).mp hmatch
    obtain ⟨hlivej, hidj⟩ := (matchesKey_iff _ hkey).mp hother
    exact List.pairwise_iff_getElem.mp hdistinct j i (hj.trans hi) hi hj hlivej hlivei
      (hidj.trans hidi.symm)

/-- A search through the index returns, and answers as the scan does, when every
live key equal to the wanted one has the wanted hash. -/
theorem probeKeys_eq_scanKeys {index : KeyedCollectionHashIndex} {hash : UInt64}
    (hwf : index.WellFormed) (hcovers : Covers index keys) (hdistinct : DistinctKeys keys)
    (hlength : keys.length < 2 ^ 32) (hkey : key.isEmpty = false)
    (hhash : ∀ stored ∈ keys, stored.isEmpty = false → stored.value.identity = key.identity →
      keyedCollectionHash stored.toValue = hash) :
    probeKeys index keys (.ofValue key) hash = some (scanKeys keys (.ofValue key)) := by
  obtain ⟨m, hm, hfree⟩ := hwf.exists_free_slot hash
  have hsome : (probeKeys index keys (.ofValue key) hash).isSome := by
    refine probe_isSome hm ?_
    rw [hwf.iterate_eq, hfree]
    rfl
  obtain ⟨answer, hanswer⟩ := Option.isSome_iff_exists.mp hsome
  obtain ⟨k, hk, hstop, hbefore⟩ := probe_eq_some_iff.mp hanswer
  rw [hwf.iterate_eq] at hstop
  rw [hanswer]
  congr 1
  dsimp only at hstop
  split at hstop
  · -- the search met a free bucket, so no live key matches
    rename_i hzero
    obtain rfl : none = answer := Option.some.inj hstop
    symm
    rw [Option.eq_none_iff_forall_not_mem]
    intro i hi
    have hmatch := (scanKeys_eq_some_iff hdistinct hkey i).mp hi
    obtain ⟨hlt, hget, -⟩ := List.findIdx?_eq_some_iff_getElem.mp hi
    rw [getD_eq_getElem _ _ hlt] at hmatch
    obtain ⟨hlive, hidentity⟩ := (matchesKey_iff _ hkey).mp hmatch
    obtain ⟨n, hn, hmet, hocc⟩ := hcovers i keys[i] (getElem?_eq_getElem hlt) hlive
    rw [hhash _ (getElem_mem hlt) hlive hidentity] at hmet hocc
    have hbucket : (UInt32.ofNat (i + 1)).toNat = i + 1 := by
      rw [UInt32.toNat_ofNat', Nat.mod_eq_of_lt (by omega)]
    rcases Nat.lt_trichotomy n k with hnk | rfl | hkn
    · have hnone := hbefore n hnk
      rw [hwf.iterate_eq, hmet, hbucket, if_neg (Nat.succ_ne_zero _), Nat.add_sub_cancel,
        getD_eq_getElem _ _ hlt, if_pos hmatch] at hnone
      cases hnone
    · rw [hmet, hbucket] at hzero
      exact absurd hzero (Nat.succ_ne_zero _)
    · have hnotfree := hocc k hkn
      rw [← UInt32.toNat_zero, UInt32.toNat_inj] at hzero
      rw [hzero] at hnotfree
      cases hnotfree
  · split at hstop
    · rename_i hmatch
      obtain rfl := Option.some.inj hstop
      exact ((scanKeys_eq_some_iff hdistinct hkey _).mpr hmatch).symm
    · cases hstop

end Search

/-- Where representations are compatible, equal strings and equal keys hash
alike and a lookup through the index finds the stored key; the hashes of two
equal strings and of all their common prefixes agree only then. -/
theorem hash_agrees_iff_compatible (first second : EString)
    (hcontent : first.content = second.content) :
    (first.hashCompatible second = true → first.hashValue = second.hashValue) ∧
    ((∀ n, (EString.view first 0 n).hashValue = (EString.view second 0 n).hashValue) ↔
      first.hashCompatible second = true) ∧
    (∀ v w : Value, v.sameValueZero w = true → v.hashCompatible w = true →
      keyedCollectionHash v = keyedCollectionHash w) ∧
    ∀ (index : KeyedCollectionHashIndex) (keys : List EncodedValue) (key : Value) (i : Nat)
      (stored : EncodedValue), index.WellFormed → Covers index keys → DistinctKeys keys →
      keys.length < 2 ^ 32 → key.isEmpty = false → keys[i]? = some stored →
      stored.isEmpty = false → stored.value.sameValueZero key = true →
      stored.value.hashCompatible key = true →
      probeKeys index keys (.ofValue key) (keyedCollectionHash key) = some (some i) := by
  refine ⟨EString.hashValue_eq_of_compatible hcontent, EString.hashValue_views_eq_iff hcontent,
    fun v w hsame hcompatible => ?_, ?_⟩
  · exact keyedCollectionHash_congr ((Value.sameValueZero_iff v w).mp hsame) hcompatible
  · intro index keys key i stored hwf hcovers hdistinct hlength hkey hget hlive hsame hcompatible
    obtain ⟨hi, hget⟩ := List.getElem?_eq_some_iff.mp hget
    subst hget
    have hidentity := (Value.sameValueZero_iff _ _).mp hsame
    have hmatch : matchesKey (keys.getD i ⟨.empty⟩) (.ofValue key) = true := by
      rw [getD_eq_getElem _ _ hi]
      exact (matchesKey_iff _ hkey).mpr ⟨hlive, hidentity⟩
    have hscan := (scanKeys_eq_some_iff hdistinct hkey i).mpr hmatch
    rw [← hscan]
    refine probeKeys_eq_scanKeys hwf hcovers hdistinct hlength hkey ?_
    intro other hother hotherlive hotherid
    obtain ⟨j, hj, rfl⟩ := List.mem_iff_getElem.mp hother
    have hj' : matchesKey (keys.getD j ⟨.empty⟩) (.ofValue key) = true := by
      rw [getD_eq_getElem _ _ hj]
      exact (matchesKey_iff _ hkey).mpr ⟨hotherlive, hotherid⟩
    obtain rfl : i = j :=
      Option.some.inj (hscan.symm.trans ((scanKeys_eq_some_iff hdistinct hkey j).mpr hj'))
    exact keyedCollectionHash_congr hidentity hcompatible

/-- The string `"a"` in both widths. -/
theorem hash_agrees_on_ascii :
    (EString.latin1 [0x61]).hashValue = (EString.utf16 [0x61]).hashValue ∧
    keyedCollectionHash (.string 8 (.latin1 [0x61])) =
      keyedCollectionHash (.string 16 (.utf16 [0x61])) ∧
    ∃ index, buildHashIndex [⟨.string 8 (.latin1 [0x61])⟩] = some index ∧
      probeKeys index [⟨.string 8 (.latin1 [0x61])⟩] (.ofValue (.string 16 (.utf16 [0x61])))
        (keyedCollectionHash (.string 16 (.utf16 [0x61]))) = some (some 0) := by
  obtain ⟨hstrings, -, hvalues, hlookup⟩ :=
    hash_agrees_iff_compatible (.latin1 [0x61]) (.utf16 [0x61]) (by decide)
  refine ⟨hstrings (by decide), hvalues _ _ (by decide) (by decide), ?_⟩
  obtain ⟨index, hbuild, hwf, hcovers⟩ :=
    @buildHashIndex_spec [⟨.string 8 (.latin1 [0x61])⟩] (by decide) (by decide)
  exact ⟨index, hbuild, hlookup index _ _ 0 _ hwf hcovers (pairwise_singleton _ _) (by decide)
    (by decide) rfl (by decide) (by decide) (by decide)⟩

/-- The one-unit string `0xE9` hashes differently in the two widths. -/
theorem hashValue_differs_on_e_acute : ¬ ∀ first second : EString, first.content = second.content →
      first.hashValue = second.hashValue := by
  intro hall
  exact absurd (hall (.latin1 [0xE9]) (.utf16 [0xE9]) (by decide)) (by decide)

end Escargot.Runtime
