/-
# Searches in object structures

What a search of a structure has to answer is the index of the key in the list of
its properties. The loops, the last-found cache and the index map give that
answer as long as names with the same key compare and hash alike.
-/

import Escargot.Foundation.Tombstones
import Escargot.Runtime.ObjectStructure

namespace Escargot.Runtime

open List Option Escargot.Foundation

section Search

variable {memory : Nat → EString}

theorem findIdx?_congr {β : Type} {p q : β → Bool} {list : List β}
    (h : ∀ x ∈ list, p x = q x) : list.findIdx? p = list.findIdx? q := by
  induction list with
  | nil => rfl
  | cons x list ih =>
    rw [findIdx?_cons, findIdx?_cons, h x mem_cons_self, ih fun y hy => h y (mem_cons_of_mem x hy)]

open StructureState

variable (memory)

/-- The index of the pair with a key. -/
def lookup (properties : List ObjectStructureItem) (k : PropertyKey) : Option Nat :=
  (denote memory properties).findIdx? fun pair => pair.1 == k

/-- No two properties have the same key. -/
def DistinctPropertyKeys (properties : List ObjectStructureItem) : Prop :=
  (properties.map fun item => item.propertyName.key memory).Nodup

def FreshKey (properties : List ObjectStructureItem) (k : PropertyKey) : Prop :=
  ∀ item ∈ properties, item.propertyName.key memory ≠ k

variable {memory}

theorem lookup_eq (properties : List ObjectStructureItem) (k : PropertyKey) :
    lookup memory properties k =
      properties.findIdx? fun item => item.propertyName.key memory == k := by
  rw [lookup, denote, findIdx?_map]
  rfl

variable {properties : List ObjectStructureItem}

theorem lookup_eq_none_iff {k : PropertyKey} :
    lookup memory properties k = none ↔ FreshKey memory properties k := by
  rw [lookup_eq, findIdx?_eq_none_iff]
  simp only [FreshKey, beq_eq_false_iff_ne]

variable {item : ObjectStructureItem}

theorem lookup_eq_some (hdistinct : DistinctPropertyKeys memory properties) {i : Nat}
    (hitem : properties[i]? = some item) {k : PropertyKey}
    (hkey : item.propertyName.key memory = k) : lookup memory properties k = some i := by
  obtain ⟨hi, hget⟩ := List.getElem?_eq_some_iff.mp hitem
  rw [lookup_eq, findIdx?_eq_some_iff_getElem]
  refine ⟨hi, by rw [hget, hkey]; exact beq_self_eq_true k, fun j hj hsame => ?_⟩
  have hkeys : (properties.map fun item => item.propertyName.key memory)[j]? =
      (properties.map fun item => item.propertyName.key memory)[i]? := by
    rw [getElem?_map, getElem?_map, hitem, getElem?_eq_getElem (by omega),
      map_some, map_some, hkey, beq_iff_eq.mp hsame]
  exact List.nodup_iff_getElem?_ne_getElem?.mp hdistinct j i hj
    (by rw [length_map]; exact hi) hkeys

theorem exists_of_lookup_eq_some {i : Nat} {k : PropertyKey}
    (h : lookup memory properties k = some i) :
    ∃ item, properties[i]? = some item ∧ item.propertyName.key memory = k := by
  rw [lookup_eq, findIdx?_eq_some_iff_getElem] at h
  obtain ⟨hi, hkey, -⟩ := h
  exact ⟨properties[i], getElem?_eq_getElem hi, beq_iff_eq.mp hkey⟩

/-- The flags say nothing wrong about the names. -/
structure FlagsOk (flags : StructureFlags) (properties : List ObjectStructureItem) : Prop where
  atomic : flags.hasNonAtomicPropertyName = false →
    ∀ item ∈ properties, item.propertyName.hasAtomicString = true
  symbol : flags.hasSymbolPropertyName = false →
    ∀ item ∈ properties, item.propertyName.isSymbol = false

/-- Every property with the key of the name compares equal to it: no other
interned string has the same content. -/
def Comparable (memory : Nat → EString) (properties : List ObjectStructureItem)
    (s : ObjectStructurePropertyName) : Prop :=
  ∀ item ∈ properties, item.propertyName.key memory = s.key memory →
    item.propertyName.equals memory s = true

theorem Comparable.equals_eq {s : ObjectStructurePropertyName}
    (h : Comparable memory properties s) (hitem : item ∈ properties) :
    item.propertyName.equals memory s = (item.propertyName.key memory == s.key memory) := by
  by_cases hkey : item.propertyName.key memory = s.key memory
  · rw [h item hitem hkey, hkey, beq_self_eq_true]
  · rw [beq_false_of_ne hkey]
    exact Bool.eq_false_iff.mpr fun hequals =>
      hkey (ObjectStructurePropertyName.key_eq_of_equals hequals)

variable {flags : StructureFlags}

theorem searchProperties_eq (hflags : FlagsOk flags properties) {s : ObjectStructurePropertyName}
    (hcomparable : Comparable memory properties s) :
    searchProperties memory properties flags s = lookup memory properties (s.key memory) := by
  have hequals : properties.findIdx? (fun item => item.propertyName.equals memory s) =
      lookup memory properties (s.key memory) := by
    rw [lookup_eq]
    exact findIdx?_congr fun item hitem => hcomparable.equals_eq hitem
  unfold searchProperties
  split
  · rename_i hs
    split
    · rename_i hatomic
      rw [← hequals]
      apply findIdx?_congr
      intro item hitem
      rw [ObjectStructurePropertyName.equals_atomic
        (hflags.atomic (by simpa using hatomic) item hitem) hs]
    · exact hequals
  · split
    · rename_i hs
      split
      · exact hequals
      · rename_i hsymbol
        rw [← hequals, eq_comm, findIdx?_eq_none_iff]
        intro item hitem
        exact ObjectStructurePropertyName.equals_symbol
          (hflags.symbol (by simpa using hsymbol) item hitem) hs
    · exact hequals

theorem flagsOk_ofProperties (memory : Nat → EString) (properties : List ObjectStructureItem) :
    FlagsOk (.ofProperties memory properties) properties where
  atomic h item hitem := by
    simp only [StructureFlags.ofProperties, List.any_eq_false] at h
    simpa using h item hitem
  symbol h item hitem := by
    simp only [StructureFlags.ofProperties, List.any_eq_false] at h
    simpa using h item hitem

theorem FlagsOk.add (hflags : FlagsOk flags properties) (memory : Nat → EString)
    (name : ObjectStructurePropertyName) (desc : ObjectStructurePropertyDescriptor) :
    FlagsOk (flags.add memory name) (properties ++ [⟨name, desc⟩]) where
  atomic h item hitem := by
    simp only [StructureFlags.add, Bool.or_eq_false_iff, Bool.not_eq_false'] at h
    rcases List.mem_append.mp hitem with hold | hnew
    · exact hflags.atomic h.1 item hold
    · rw [List.mem_singleton.mp hnew]
      exact h.2
  symbol h item hitem := by
    simp only [StructureFlags.add, Bool.or_eq_false_iff] at h
    rcases List.mem_append.mp hitem with hold | hnew
    · exact hflags.symbol h.1 item hold
    · rw [List.mem_singleton.mp hnew]
      exact h.2

theorem DistinctPropertyKeys.add (hdistinct : DistinctPropertyKeys memory properties)
    {name : ObjectStructurePropertyName} (hfresh : FreshKey memory properties (name.key memory))
    (desc : ObjectStructurePropertyDescriptor) :
    DistinctPropertyKeys memory (properties ++ [⟨name, desc⟩]) := by
  rw [DistinctPropertyKeys, map_append, nodup_append]
  refine ⟨hdistinct, nodup_singleton _, ?_⟩
  intro k hk k' hk' heq
  obtain ⟨item, hitem, rfl⟩ := List.mem_map.mp hk
  rw [map_singleton, mem_singleton] at hk'
  exact hfresh item hitem (heq.trans hk')

theorem DistinctPropertyKeys.of_concat {items : List ObjectStructureItem}
    (hdistinct : DistinctPropertyKeys memory (properties ++ [item] ++ items)) :
    DistinctPropertyKeys memory properties ∧
      FreshKey memory properties (item.propertyName.key memory) := by
  have hinit : DistinctPropertyKeys memory (properties ++ [item]) :=
    List.Nodup.sublist ((sublist_append_left _ items).map _) hdistinct
  rw [DistinctPropertyKeys, map_append, nodup_append] at hinit
  refine ⟨hinit.1, fun other hother heq => ?_⟩
  exact hinit.2.2 _ (List.mem_map_of_mem hother) _ (List.mem_singleton.mpr rfl) heq

theorem DistinctPropertyKeys.eraseIdx (hdistinct : DistinctPropertyKeys memory properties)
    (i : Nat) :
    DistinctPropertyKeys memory (properties.eraseIdx i) := by
  exact List.Nodup.sublist ((eraseIdx_sublist properties i).map _) hdistinct

theorem DistinctPropertyKeys.set (hdistinct : DistinctPropertyKeys memory properties) {i : Nat}
    {new : ObjectStructureItem} (hitem : properties[i]? = some item)
    (hkey : new.propertyName.key memory = item.propertyName.key memory) :
    DistinctPropertyKeys memory (properties.set i new) := by
  have hi := (List.getElem?_eq_some_iff.mp hitem).1
  have hsame : (properties.set i new).map (fun item => item.propertyName.key memory) =
      properties.map fun item => item.propertyName.key memory := by
    apply ext_getElem?
    intro j
    rw [getElem?_map, getElem?_map]
    by_cases hj : i = j
    · subst hj
      rw [getElem?_set_self hi, hitem, map_some, map_some, hkey]
    · rw [getElem?_set_ne hj]
  rw [DistinctPropertyKeys, hsame]
  exact hdistinct

variable (properties)

theorem map_name_modify (i : Nat) (newDesc : ObjectStructurePropertyDescriptor) :
    (properties.modify i fun item => { item with descriptor := newDesc }).map
        (fun item => item.propertyName) = properties.map fun item => item.propertyName := by
  induction properties generalizing i with
  | nil => simp
  | cons item properties ih =>
    cases i with
    | zero => simp
    | succ i => simp [ih]

variable (idx : Nat)

theorem denote_modify (newDesc : ObjectStructurePropertyDescriptor) :
    denote memory (properties.modify idx fun item => { item with descriptor := newDesc }) =
      (denote memory properties).modify idx fun pair => (pair.1, newDesc) := by
  induction properties generalizing idx with
  | nil => simp [denote]
  | cons item properties ih =>
    cases idx with
    | zero => simp [denote]
    | succ idx =>
      simp only [denote, modify_succ_cons, map_cons] at ih ⊢
      rw [ih]

theorem lookup_modify (newDesc : ObjectStructurePropertyDescriptor) (k : PropertyKey) :
    lookup memory (properties.modify idx fun item => { item with descriptor := newDesc }) k =
      lookup memory properties k := by
  have hnames := map_name_modify properties idx newDesc
  rw [lookup_eq, lookup_eq]
  have hcompose : ∀ list : List ObjectStructureItem,
      (list.findIdx? fun item => item.propertyName.key memory == k) =
        (list.map fun item => item.propertyName).findIdx? fun name => name.key memory == k := by
    intro list
    rw [findIdx?_map]
    rfl
  rw [hcompose, hcompose, hnames]

theorem getElem?_modify_name
    (newDesc : ObjectStructurePropertyDescriptor) (i : Nat) (name : ObjectStructurePropertyName) :
    (∃ item, (properties.modify idx fun item => { item with descriptor := newDesc })[i]? =
        some item ∧ item.propertyName = name) ↔
      ∃ item, properties[i]? = some item ∧ item.propertyName = name := by
  have hcompose : ∀ list : List ObjectStructureItem,
      (∃ item, list[i]? = some item ∧ item.propertyName = name) ↔
        (list.map fun item => item.propertyName)[i]? = some name := by
    intro list
    rw [getElem?_map, map_eq_some_iff]
  rw [hcompose, hcompose, map_name_modify]

variable {properties}

theorem distinctPropertyKeys_modify (hdistinct : DistinctPropertyKeys memory properties)
    (idx : Nat) (newDesc : ObjectStructurePropertyDescriptor) :
    DistinctPropertyKeys memory (properties.modify idx fun item => { item with descriptor := newDesc }) := by
  have hcompose : ∀ list : List ObjectStructureItem,
      list.map (fun item => item.propertyName.key memory) =
        (list.map fun item => item.propertyName).map fun name => name.key memory := by
    intro list
    rw [List.map_map]
    rfl
  rw [DistinctPropertyKeys, hcompose, map_name_modify, ← hcompose]
  exact hdistinct

theorem flagsOk_modify (hflags : FlagsOk flags properties) (idx : Nat)
    (newDesc : ObjectStructurePropertyDescriptor) :
    FlagsOk flags (properties.modify idx fun item => { item with descriptor := newDesc }) := by
  have hmem : ∀ item ∈ properties.modify idx fun item => { item with descriptor := newDesc },
      ∃ other ∈ properties, other.propertyName = item.propertyName := by
    intro item hitem
    have hname : item.propertyName ∈ properties.map fun item => item.propertyName := by
      rw [← map_name_modify properties idx newDesc]
      exact List.mem_map_of_mem hitem
    exact List.mem_map.mp hname
  constructor
  · intro h item hitem
    obtain ⟨other, hother, hname⟩ := hmem item hitem
    rw [← hname]
    exact hflags.atomic h other hother
  · intro h item hitem
    obtain ⟨other, hother, hname⟩ := hmem item hitem
    rw [← hname]
    exact hflags.symbol h other hother

end Search

section Owned

open StructureState

variable {limits : StructureLimits} {memory : Nat → EString}

namespace ObjectStructureWithoutTransition

/-- The list and its flags fit, and the last answer is still right. -/
structure Ok (limits : StructureLimits) (memory : Nat → EString)
    (w : ObjectStructureWithoutTransition) : Prop where
  flags : FlagsOk w.flags w.properties
  distinct : DistinctPropertyKeys memory w.properties
  length_le : w.properties.length ≤ limits.accessCacheBuildMinSize
  cache : w.properties ≠ [] → lookup memory w.properties (w.lastFoundPropertyName.key memory) =
      if w.lastFoundPropertyIndex = 65535 then none else some w.lastFoundPropertyIndex

theorem ok_make {properties : List ObjectStructureItem} {flags : StructureFlags}
    (hflags : FlagsOk flags properties) (hdistinct : DistinctPropertyKeys memory properties)
    (hlength : properties.length ≤ limits.accessCacheBuildMinSize) :
    (make properties flags).Ok limits memory where
  flags := hflags
  distinct := hdistinct
  length_le := hlength
  cache := by
    intro (hnonempty : properties ≠ [])
    have hbuild := limits.build_lt
    have hlast : properties[properties.length - 1]? = some (properties.getLast hnonempty) := by
      rw [← getLast?_eq_getElem?, getLast?_eq_some_getLast hnonempty]
    have hname : (make properties flags).lastFoundPropertyName =
        (properties.getLast hnonempty).propertyName := by
      simp only [make, getLast?_eq_some_getLast hnonempty]
    have hindex : (make properties flags).lastFoundPropertyIndex = properties.length - 1 := by
      simp only [make, List.isEmpty_eq_false_iff.mpr hnonempty, Bool.false_eq_true, if_false]
      exact Nat.mod_eq_of_lt (by omega)
    rw [hname, hindex, if_neg (by omega)]
    exact lookup_eq_some hdistinct hlast rfl

/-- A search answers from the cache or by a loop. -/
def Answers (memory : Nat → EString) (self : ObjectStructureWithoutTransition)
    (s : ObjectStructurePropertyName) : Prop :=
  (self.properties ≠ [] ∧ self.lastFoundPropertyName.equals memory s = true) ∨
    Comparable memory self.properties s

theorem Ok.findProperty {self : ObjectStructureWithoutTransition} (ok : self.Ok limits memory)
    {s : ObjectStructurePropertyName} (hanswers : self.Answers memory s) :
    (self.findProperty memory s).2 = lookup memory self.properties (s.key memory) ∧
      (self.findProperty memory s).1.Ok limits memory ∧
      (self.findProperty memory s).1.properties = self.properties := by
  unfold ObjectStructureWithoutTransition.findProperty
  by_cases hhit : (!self.properties.isEmpty && self.lastFoundPropertyName.equals memory s) = true
  · rw [if_pos hhit]
    simp only [Bool.and_eq_true, Bool.not_eq_true', isEmpty_eq_false_iff] at hhit
    refine ⟨?_, ok, rfl⟩
    rw [← ok.cache hhit.1, ObjectStructurePropertyName.key_eq_of_equals hhit.2]
  · rw [if_neg hhit]
    simp only [Bool.and_eq_true, Bool.not_eq_true', isEmpty_eq_false_iff] at hhit
    have hsearch := searchProperties_eq ok.flags (hanswers.resolve_left hhit)
    refine ⟨hsearch, ⟨ok.flags, ok.distinct, ok.length_le, fun _ => ?_⟩, rfl⟩
    dsimp only
    rw [hsearch]
    cases hlookup : lookup memory self.properties (s.key memory) with
    | none => rfl
    | some i =>
      obtain ⟨item, hitem, -⟩ := exists_of_lookup_eq_some hlookup
      have hi := (List.getElem?_eq_some_iff.mp hitem).1
      have hlength := ok.length_le
      have hbuild := limits.build_lt
      have hmod : i % 65536 = i := Nat.mod_eq_of_lt (by omega)
      simp only [cachedIndex, hmod, if_neg (show i ≠ 65535 by omega)]

end ObjectStructureWithoutTransition

namespace PropertyNameMapWithCache

/-- The map holds exactly the names with their indices, and the last answer is
still right. -/
structure Ok (memory : Nat → EString) (m : PropertyNameMapWithCache)
    (properties : List ObjectStructureItem) : Prop where
  valid : m.map.Valid (hash memory)
  stored : ∀ entry, m.map.Stored entry ↔
    ∃ item, properties[entry.2]? = some item ∧ item.propertyName = entry.1
  size_le : m.map.size ≤ properties.length
  cache : m.lastIndex = lookup memory properties (m.lastName.key memory)

theorem ok_reserved (count : Nat) :
    (⟨RobinTable.reserved count, .atomic 0, none⟩ : PropertyNameMapWithCache).Ok memory [] where
  valid := (RobinTable.valid_reserved (hash memory) count).1
  stored entry := by
    constructor
    · intro h
      exact absurd h ((RobinTable.valid_reserved (hash memory) count).2 entry)
    · rintro ⟨item, hitem, -⟩
      cases hitem
  size_le := Nat.le_refl 0
  cache := rfl

variable {self : PropertyNameMapWithCache} {properties : List ObjectStructureItem}

theorem Ok.find_sound (ok : self.Ok memory properties) {name : ObjectStructurePropertyName}
    {keyHash : Nat} {entry : ObjectStructurePropertyName × Nat}
    (hfind : self.map.find keyHash (fun entry => entry.1.equals memory name) = some entry) :
    ∃ item, properties[entry.2]? = some item ∧ item.propertyName.key memory = name.key memory := by
  obtain ⟨hhit, hstored⟩ := ok.valid.find_sound hfind
  obtain ⟨item, hitem, hname⟩ := (ok.stored entry).mp hstored
  exact ⟨item, hitem, hname ▸ ObjectStructurePropertyName.key_eq_of_equals hhit⟩

theorem Ok.insert {next : PropertyNameMapWithCache} (ok : self.Ok memory properties)
    (hdistinct : DistinctPropertyKeys memory properties) {name : ObjectStructurePropertyName}
    (hfresh : FreshKey memory properties (name.key memory))
    (desc : ObjectStructurePropertyDescriptor)
    (hinsert : self.insert memory name properties.length = some next) :
    next.Ok memory (properties ++ [⟨name, desc⟩]) := by
  obtain ⟨map, hmap, rfl⟩ := Option.map_eq_some_iff.mp hinsert
  obtain ⟨hvalid, hcases⟩ := ok.valid.insert_spec hmap
  have hsize := ok.valid.insert_size_le hmap
  have hnone : self.map.find (hash memory (name, properties.length))
      (fun entry => entry.1.equals memory name) = none := by
    apply Option.eq_none_iff_forall_ne_some.mpr
    intro entry hfind
    obtain ⟨item, hitem, hkey⟩ := ok.find_sound hfind
    exact hfresh item (mem_of_getElem? hitem) hkey
  have hstored : ∀ entry, map.Stored entry ↔ self.map.Stored entry ∨
      entry = (name, properties.length) := by
    rcases hcases with ⟨hsome, -⟩ | ⟨-, hstored⟩
    · rw [hnone] at hsome
      cases hsome
    · exact hstored
  refine ⟨hvalid, fun entry => ?_, ?_, ?_⟩
  · rw [hstored, ok.stored]
    constructor
    · rintro (⟨item, hitem, hname⟩ | rfl)
      · exact ⟨item, getElem?_concat_iff.mpr (.inl hitem), hname⟩
      · exact ⟨⟨name, desc⟩, getElem?_concat_iff.mpr (.inr ⟨rfl, rfl⟩), rfl⟩
    · rintro ⟨item, hitem, hname⟩
      rcases getElem?_concat_iff.mp hitem with hold | ⟨hindex, rfl⟩
      · exact .inl ⟨item, hold, hname⟩
      · exact .inr (Prod.ext hname.symm hindex)
  · have := ok.size_le
    rw [length_append, length_singleton]
    exact Nat.le_trans hsize (by omega)
  · exact (lookup_eq_some (hdistinct.add hfresh desc)
      (getElem?_concat_iff.mpr (.inr ⟨rfl, rfl⟩)) rfl).symm

theorem ok_insertAll {items : List ObjectStructureItem}
    (hdistinct : DistinctPropertyKeys memory (properties ++ items))
    {next : PropertyNameMapWithCache} (ok : self.Ok memory properties)
    (hinsert : insertAll memory items properties.length self = some next) :
    next.Ok memory (properties ++ items) := by
  induction items generalizing properties self with
  | nil =>
    rw [append_nil]
    cases hinsert
    exact ok
  | cons item items ih =>
    rw [insertAll] at hinsert
    split at hinsert
    · cases hinsert
    · rename_i map hmap
      rw [append_cons] at hdistinct ⊢
      obtain ⟨hinit, hfresh⟩ := hdistinct.of_concat
      apply ih hdistinct (ok.insert hinit hfresh item.descriptor hmap)
      rw [length_append, length_singleton]
      exact hinsert

/-- Every property with the key of the name is met by a search for it. -/
def Reachable (memory : Nat → EString) (properties : List ObjectStructureItem)
    (s : ObjectStructurePropertyName) : Prop :=
  ∀ item ∈ properties, item.propertyName.key memory = s.key memory →
    item.propertyName.equals memory s = true ∧
      item.propertyName.hashValue memory = s.hashValue memory

theorem Ok.find (ok : self.Ok memory properties)
    (hdistinct : DistinctPropertyKeys memory properties) {s : ObjectStructurePropertyName}
    (hanswers : s.equals memory self.lastName = true ∨ Reachable memory properties s) :
    (self.find memory s).2 = lookup memory properties (s.key memory) ∧
      (self.find memory s).1.Ok memory properties := by
  unfold PropertyNameMapWithCache.find
  by_cases hhit : s.equals memory self.lastName = true
  · rw [if_pos hhit]
    exact ⟨by rw [ok.cache, ObjectStructurePropertyName.key_eq_of_equals hhit], ok⟩
  · rw [if_neg hhit]
    have hreachable := hanswers.resolve_left hhit
    have hfound : (self.map.find (s.hashValue memory) fun entry =>
        entry.1.equals memory s).map Prod.snd = lookup memory properties (s.key memory) := by
      cases hfind : self.map.find (s.hashValue memory) fun entry => entry.1.equals memory s with
      | some entry =>
        obtain ⟨item, hitem, hkey⟩ := ok.find_sound hfind
        exact (lookup_eq_some hdistinct hitem hkey).symm
      | none =>
        rw [map_none, eq_comm, lookup_eq_none_iff]
        intro item hitem hkey
        obtain ⟨i, hi⟩ := List.mem_iff_getElem?.mp hitem
        obtain ⟨hequals, hhash⟩ := hreachable item hitem hkey
        have hsome : (self.map.find (s.hashValue memory) fun entry =>
            entry.1.equals memory s).isSome = true :=
          ok.valid.find_complete ((ok.stored (item.propertyName, i)).mpr ⟨item, hi, rfl⟩)
            hequals hhash
        rw [hfind] at hsome
        cases hsome
    exact ⟨hfound, ok.valid, ok.stored, ok.size_le, hfound⟩

end PropertyNameMapWithCache

namespace ObjectStructureWithMap

/-- The keys are distinct, and a map that was built is right. -/
structure Ok (memory : Nat → EString) (w : ObjectStructureWithMap) : Prop where
  distinct : DistinctPropertyKeys memory w.properties
  map : ∀ map, w.propertyNameMap = some map → map.Ok memory w.properties

def Answers (memory : Nat → EString) (self : ObjectStructureWithMap)
    (s : ObjectStructurePropertyName) : Prop :=
  (∃ map, self.propertyNameMap = some map ∧ s.equals memory map.lastName = true) ∨
    PropertyNameMapWithCache.Reachable memory self.properties s

variable {self : ObjectStructureWithMap}

theorem Ok.findProperty {next : ObjectStructureWithMap} (ok : self.Ok memory)
    {s : ObjectStructurePropertyName} (hanswers : self.Answers memory s) {found : Option Nat}
    (hfind : self.findProperty memory s = some (next, found)) :
    found = lookup memory self.properties (s.key memory) ∧ next.Ok memory ∧
      next.properties = self.properties := by
  obtain ⟨map, hmap, hresult⟩ := Option.map_eq_some_iff.mp hfind
  have hok : map.Ok memory self.properties := by
    cases hbuilt : self.propertyNameMap with
    | some built =>
      rw [hbuilt] at hmap
      cases hmap
      exact ok.map map hbuilt
    | none =>
      rw [hbuilt] at hmap
      exact PropertyNameMapWithCache.ok_insertAll ok.distinct
        (PropertyNameMapWithCache.ok_reserved _) hmap
  have hanswers' : s.equals memory map.lastName = true ∨
      PropertyNameMapWithCache.Reachable memory self.properties s := by
    rcases hanswers with ⟨built, hbuilt, hequals⟩ | hreachable
    · rw [hbuilt] at hmap
      cases hmap
      exact .inl hequals
    · exact .inr hreachable
  obtain ⟨hanswer, hnext⟩ := hok.find ok.distinct hanswers'
  cases hresult
  refine ⟨hanswer, ⟨ok.distinct, ?_⟩, rfl⟩
  rintro _ ⟨⟩
  exact hnext

theorem Ok.addProperty {next : ObjectStructureWithMap} (ok : self.Ok memory)
    {name : ObjectStructurePropertyName} {desc : ObjectStructurePropertyDescriptor}
    (hfresh : FreshKey memory self.properties (name.key memory))
    (hadd : self.addProperty memory name desc = some next) :
    next.Ok memory ∧ next.properties = self.properties ++ [⟨name, desc⟩] := by
  have hdistinct := ok.distinct.add hfresh desc
  unfold ObjectStructureWithMap.addProperty at hadd
  split at hadd
  · rename_i map _ hmap
    obtain ⟨inserted, hinsert, rfl⟩ := Option.map_eq_some_iff.mp hadd
    refine ⟨⟨hdistinct, ?_⟩, rfl⟩
    rintro _ ⟨⟩
    exact (ok.map map hmap).insert ok.distinct hfresh desc hinsert
  · cases hadd
    refine ⟨⟨hdistinct, ?_⟩, rfl⟩
    rintro _ ⟨⟩

theorem Ok.replacePropertyDescriptor (ok : self.Ok memory) (idx : Nat)
    (newDesc : ObjectStructurePropertyDescriptor) :
    (self.replacePropertyDescriptor idx newDesc).Ok memory := by
  refine ⟨distinctPropertyKeys_modify ok.distinct idx newDesc, ?_⟩
  intro map hmap
  simp only [ObjectStructureWithMap.replacePropertyDescriptor] at hmap
  split at hmap
  · cases hmap
  · have hok := ok.map map hmap
    refine ⟨hok.valid, fun entry => ?_, ?_, ?_⟩
    · rw [hok.stored]
      exact (getElem?_modify_name self.properties idx newDesc entry.2 entry.1).symm
    · exact Nat.le_trans hok.size_le (Nat.le_of_eq (length_modify _ _ _).symm)
    · exact hok.cache.trans (lookup_modify self.properties idx newDesc _).symm

end ObjectStructureWithMap

end Owned

end Escargot.Runtime
