/-
# Property names and their hash

A property name is made from a property key by `ObjectStructurePropertyName`'s
constructor, which interns the text except for long texts that look like a
number. Names compare by content as soon as one of them is not interned, but an
interned name hashes as its address. Names of one form hash alike when they are
equal, and then the index map of a large structure finds what a linear scan
finds; a name in the other form is lost.
-/

import Escargot.Runtime.AtomicString
import Escargot.Runtime.ObjectStructureSearch

namespace Escargot.Runtime

open List Option Escargot.Foundation

/-- A property key after `toPrimitive` and `toString`: a symbol or a string object. -/
inductive KeyValue
  | symbol (address : Nat)
  | string (address : Nat)

/-- A long text that starts like a number is not interned. -/
def needsRemainNormalString : List UInt16 → Bool
  | [] => false
  | c :: cs => (c == 0x2E || (0x30 ≤ c && c ≤ 0x39)) && 16 < cs.length + 1

/-- `ESCARGOT_ASCII_TABLE_MAX`. -/
def asciiTableMax : Nat := 256

/-- `ObjectStructurePropertyName(ExecutionState&, const Value&)`. The table holds the
interned strings of one unit; `none` when the address designates no string. -/
def ObjectStructurePropertyName.ofValue (asciiTable : Nat → StringPointer) (interner : Interner) :
    KeyValue → Option (Interner × ObjectStructurePropertyName)
  | .symbol address => some (interner, .symbol address)
  | .string address =>
    match interner.heap[address]? with
    | none => none
    | some object =>
      match interner.typeTag address with
      | some canonical => some (interner, .atomic canonical.address)
      | none =>
        match object.string.content with
        | [] => some (interner, .atomic Interner.emptyString.address)
        | c :: cs =>
          if needsRemainNormalString (c :: cs) then some (interner, .plain address)
          else if c.toNat < asciiTableMax ∧ cs = [] then
            some (interner, .atomic (asciiTable c.toNat).address)
          else
            (interner.initContextString address object).map fun (next, string) =>
              (next, .atomic string.address)

/-- The constructor leaves the string as it is: it was never interned, is long and
starts like a number. -/
def Interner.remainsNormalString (interner : Interner) : KeyValue → Bool
  | .symbol _ => false
  | .string address =>
    match interner.heap[address]? with
    | none => false
    | some object =>
      (interner.typeTag address).isNone && needsRemainNormalString object.string.content

namespace ObjectStructurePropertyName

theorem ofValue_form {asciiTable : Nat → StringPointer} {interner next : Interner}
    {value : KeyValue} {name : ObjectStructurePropertyName}
    (h : ofValue asciiTable interner value = some (next, name)) :
    (interner.remainsNormalString value = true ∧ ∃ address, value = .string address ∧
        name = .plain address) ∨
      (interner.remainsNormalString value = false ∧
        ((∃ address, value = .symbol address ∧ name = .symbol address) ∨
          ∃ address string, value = .string address ∧ name = .atomic string)) := by
  cases value with
  | symbol address =>
    cases h
    exact .inr ⟨rfl, .inl ⟨address, rfl, rfl⟩⟩
  | string address =>
    simp only [ofValue] at h
    simp only [Interner.remainsNormalString]
    split at h
    · cases h
    · rename_i object hobject
      split at h
      · rename_i canonical htag
        cases h
        exact .inr ⟨by simp [htag], .inr ⟨address, _, rfl, rfl⟩⟩
      · rename_i htag
        split at h
        · rename_i hcontent
          cases h
          exact .inr ⟨by simp [hcontent, needsRemainNormalString], .inr ⟨address, _, rfl, rfl⟩⟩
        · rename_i c cs hcontent
          split at h
          · rename_i hneeds
            cases h
            exact .inl ⟨by simp [htag, hcontent, hneeds], address, rfl, rfl⟩
          · rename_i hneeds
            have hremains : ((interner.typeTag address).isNone &&
                needsRemainNormalString object.string.content) = false := by
              rw [hcontent, Bool.eq_false_iff.mpr hneeds, Bool.and_false]
            split at h
            · cases h
              exact .inr ⟨hremains, .inr ⟨address, _, rfl, rfl⟩⟩
            · obtain ⟨⟨made, string⟩, -, hname⟩ := Option.map_eq_some_iff.mp h
              cases hname
              exact .inr ⟨hremains, .inr ⟨address, _, rfl, rfl⟩⟩

variable {memory : Nat → EString}

def sameForm (memory : Nat → EString) :
    ObjectStructurePropertyName → ObjectStructurePropertyName → Bool
  | plain p, plain q => (memory p).hashCompatible (memory q)
  | atomic _, plain _ | plain _, atomic _ => false
  | _, _ => true

variable {p q : ObjectStructurePropertyName}

theorem hashValue_eq_of_equals (hform : sameForm memory p q = true) (h : p.equals memory q = true) :
    p.hashValue memory = q.hashValue memory := by
  cases p with
  | atomic p =>
    cases q with
    | atomic q => exact beq_iff_eq.mp h
    | plain q => cases hform
    | symbol q => cases h
  | plain p =>
    cases q with
    | atomic q => cases hform
    | plain q =>
      have hcontent : (memory p).content = (memory q).content := (EString.equals_iff _ _).mp h
      exact congrArg UInt32.toNat (EString.hashValue_eq_of_compatible hcontent hform)
    | symbol q => cases h
  | symbol p =>
    cases q with
    | atomic q => cases h
    | plain q => cases h
    | symbol q => exact beq_iff_eq.mp h

theorem equals_congr (hform : sameForm memory p q = true) (h : p.equals memory q = true)
    (other : ObjectStructurePropertyName) :
    other.equals memory p = other.equals memory q := by
  have hplain : ∀ a b s : Nat, (memory a).equals (memory b) = true →
      (memory s).equals (memory a) = (memory s).equals (memory b) := by
    intro a b s hab
    rw [Bool.eq_iff_iff, EString.equals_iff, EString.equals_iff, (EString.equals_iff _ _).mp hab]
  cases p with
  | atomic p =>
    cases q with
    | atomic q => rw [beq_iff_eq.mp h]
    | plain q => cases hform
    | symbol q => cases h
  | plain p =>
    cases q with
    | atomic q => cases hform
    | plain q =>
      cases other with
      | atomic s => exact hplain p q s h
      | plain s => exact hplain p q s h
      | symbol s => rfl
    | symbol q => cases h
  | symbol p =>
    cases q with
    | atomic q => cases h
    | plain q => cases h
    | symbol q => rw [beq_iff_eq.mp h]

/-- An interned name beyond the range of content hashes hashes unlike every name that
is not interned. -/
theorem hashValue_ne_of_atomic {address : Nat} (hhigh : 2 ^ 32 ≤ address) (string : Nat) :
    (atomic address).hashValue memory ≠ (plain string).hashValue memory := by
  show address ≠ (memory string).hashValue.toNat
  have hlt := (memory string).hashValue.toNat_lt
  omega

/-- Whenever two of the names are equal, they are of one form. -/
def Agreeing (memory : Nat → EString) (names : List ObjectStructurePropertyName) : Prop :=
  ∀ p ∈ names, ∀ q ∈ names, p.equals memory q = true → sameForm memory p q = true

end ObjectStructurePropertyName

section Scan

variable {memory : Nat → EString} {names : List ObjectStructurePropertyName}

/-- The index that a scan with `operator==` gives. -/
def scan (memory : Nat → EString) (properties : List ObjectStructureItem)
    (s : ObjectStructurePropertyName) : Option Nat :=
  properties.findIdx? fun item => item.propertyName.equals memory s

def UnequalNames (memory : Nat → EString) (properties : List ObjectStructureItem) : Prop :=
  properties.Pairwise fun a b => a.propertyName.equals memory b.propertyName = false

variable {properties : List ObjectStructureItem}

/-- The loops of `findProperty` are a scan, whatever their flags let them skip. -/
theorem searchProperties_eq_scan {flags : StructureFlags}
    (hflags : FlagsOk flags properties) (s : ObjectStructurePropertyName) :
    searchProperties memory properties flags s = scan memory properties s := by
  unfold searchProperties
  split
  · rename_i hs
    split
    · rename_i hatomic
      apply findIdx?_congr
      intro item hitem
      rw [ObjectStructurePropertyName.equals_atomic
        (hflags.atomic (by simpa using hatomic) item hitem) hs]
    · rfl
  · split
    · rename_i hs
      split
      · rfl
      · rename_i hsymbol
        rw [eq_comm, scan, findIdx?_eq_none_iff]
        intro item hitem
        exact ObjectStructurePropertyName.equals_symbol
          (hflags.symbol (by simpa using hsymbol) item hitem) hs
    · rfl

theorem scan_eq_some
    (hunequal : UnequalNames memory properties) {s : ObjectStructurePropertyName} {i : Nat}
    {item : ObjectStructureItem} (hitem : properties[i]? = some item)
    (hform : item.propertyName.sameForm memory s = true)
    (hequals : item.propertyName.equals memory s = true) :
    scan memory properties s = some i := by
  obtain ⟨hi, hget⟩ := List.getElem?_eq_some_iff.mp hitem
  rw [scan, findIdx?_eq_some_iff_getElem]
  refine ⟨hi, by rw [hget]; exact hequals, fun j hj hsame => ?_⟩
  have hpair := List.pairwise_iff_getElem.mp hunequal j i (Nat.lt_trans hj hi) hi hj
  rw [hget, ObjectStructurePropertyName.equals_congr hform hequals, hsame] at hpair
  cases hpair

/-- The map has every name under its index, and the last answer is the one of a scan
for every name that would get it. -/
structure PropertyNameMapWithCache.Exact (memory : Nat → EString)
    (names : List ObjectStructurePropertyName) (m : PropertyNameMapWithCache)
    (properties : List ObjectStructureItem) : Prop where
  valid : m.map.Valid (PropertyNameMapWithCache.hash memory)
  stored : ∀ entry, m.map.Stored entry ↔
    ∃ item, properties[entry.2]? = some item ∧ item.propertyName = entry.1
  cache : ∀ s ∈ names, s.equals memory m.lastName = true → m.lastIndex = scan memory properties s

namespace PropertyNameMapWithCache

theorem exact_reserved (count : Nat) :
    Exact memory names ⟨RobinTable.reserved count, .atomic 0, none⟩ [] where
  valid := (RobinTable.valid_reserved (hash memory) count).1
  stored entry := by
    constructor
    · intro h
      exact absurd h ((RobinTable.valid_reserved (hash memory) count).2 entry)
    · rintro ⟨item, hitem, -⟩
      cases hitem
  cache _ _ _ := rfl

variable {self : PropertyNameMapWithCache} {properties : List ObjectStructureItem}

section

variable (hnames : ObjectStructurePropertyName.Agreeing memory names)
include hnames

theorem Exact.insert {next : PropertyNameMapWithCache} {item : ObjectStructureItem}
    (hmem : item.propertyName ∈ names) (hexact : self.Exact memory names properties)
    (hunequal : UnequalNames memory (properties ++ [item]))
    (hinsert : self.insert memory item.propertyName properties.length = some next) :
    next.Exact memory names (properties ++ [item]) := by
  have hold : ∀ other ∈ properties, other.propertyName.equals memory item.propertyName = false := by
    intro other hother
    exact (List.pairwise_append.mp hunequal).2.2 other hother item (List.mem_singleton.mpr rfl)
  obtain ⟨map, hmap, rfl⟩ := Option.map_eq_some_iff.mp hinsert
  obtain ⟨hvalid, hcases⟩ := hexact.valid.insert_spec hmap
  have hnone : self.map.find (hash memory (item.propertyName, properties.length))
      (fun entry => entry.1.equals memory item.propertyName) = none := by
    apply Option.eq_none_iff_forall_ne_some.mpr
    intro entry hfind
    obtain ⟨hhit, hstored⟩ := hexact.valid.find_sound hfind
    obtain ⟨other, hother, hname⟩ := (hexact.stored entry).mp hstored
    rw [← hname, hold other (mem_of_getElem? hother)] at hhit
    cases hhit
  have hstored : ∀ entry, map.Stored entry ↔ self.map.Stored entry ∨
      entry = (item.propertyName, properties.length) := by
    rcases hcases with ⟨hsome, -⟩ | ⟨-, hstored⟩
    · rw [hnone] at hsome
      cases hsome
    · exact hstored
  refine ⟨hvalid, fun entry => ?_, fun s hs hequals => ?_⟩
  · rw [hstored, hexact.stored]
    constructor
    · rintro (⟨other, hother, hname⟩ | rfl)
      · exact ⟨other, getElem?_concat_iff.mpr (.inl hother), hname⟩
      · exact ⟨item, getElem?_concat_iff.mpr (.inr ⟨rfl, rfl⟩), rfl⟩
    · rintro ⟨other, hother, hname⟩
      rcases getElem?_concat_iff.mp hother with hin | ⟨hindex, rfl⟩
      · exact .inl ⟨other, hin, hname⟩
      · exact .inr (Prod.ext hname.symm hindex)
  · have hform := hnames s hs item.propertyName hmem hequals
    have hself : item.propertyName.equals memory s = true := by
      rw [ObjectStructurePropertyName.equals_congr hform hequals]
      exact ObjectStructurePropertyName.equals_self item.propertyName
    exact (scan_eq_some hunequal (getElem?_concat_iff.mpr (.inr ⟨rfl, rfl⟩))
      (hnames item.propertyName hmem s hs hself) hself).symm

theorem exact_insertAll {items : List ObjectStructureItem}
    (hmem : ∀ item ∈ items, item.propertyName ∈ names)
    (hunequal : UnequalNames memory (properties ++ items)) {next : PropertyNameMapWithCache}
    (hexact : self.Exact memory names properties)
    (hinsert : insertAll memory items properties.length self = some next) :
    next.Exact memory names (properties ++ items) := by
  induction items generalizing properties self with
  | nil =>
    rw [append_nil]
    cases hinsert
    exact hexact
  | cons item items ih =>
    rw [insertAll] at hinsert
    split at hinsert
    · cases hinsert
    · rename_i map hmap
      rw [append_cons] at hunequal ⊢
      have hinit : UnequalNames memory (properties ++ [item]) :=
        List.Pairwise.sublist (sublist_append_left _ items) hunequal
      apply ih (fun other hother => hmem other (mem_cons_of_mem item hother)) hunequal
        (hexact.insert hnames (hmem item mem_cons_self) hinit hmap)
      rw [length_append, length_singleton]
      exact hinsert

/-- A search through the map or its last answer gives what a scan gives. -/
theorem Exact.find (hmem : ∀ item ∈ properties, item.propertyName ∈ names)
    (hunequal : UnequalNames memory properties) (hexact : self.Exact memory names properties)
    {s : ObjectStructurePropertyName} (hs : s ∈ names) :
    (self.find memory s).2 = scan memory properties s ∧
      (self.find memory s).1.Exact memory names properties := by
  unfold PropertyNameMapWithCache.find
  by_cases hhit : s.equals memory self.lastName = true
  · rw [if_pos hhit]
    exact ⟨hexact.cache s hs hhit, hexact⟩
  · rw [if_neg hhit]
    have hfound : (self.map.find (s.hashValue memory) fun entry =>
        entry.1.equals memory s).map Prod.snd = scan memory properties s := by
      cases hfind : self.map.find (s.hashValue memory) fun entry => entry.1.equals memory s with
      | some entry =>
        obtain ⟨hequals, hstored⟩ := hexact.valid.find_sound hfind
        obtain ⟨item, hitem, hname⟩ := (hexact.stored entry).mp hstored
        rw [← hname] at hequals
        have hin := hmem item (mem_of_getElem? hitem)
        exact (scan_eq_some hunequal hitem (hnames _ hin s hs hequals) hequals).symm
      | none =>
        rw [map_none, eq_comm, scan, findIdx?_eq_none_iff]
        intro item hitem
        by_contra hequals
        rw [Bool.not_eq_false] at hequals
        obtain ⟨i, hi⟩ := List.mem_iff_getElem?.mp hitem
        have hform := hnames _ (hmem item hitem) s hs hequals
        have hsome : (self.map.find (s.hashValue memory) fun entry =>
            entry.1.equals memory s).isSome = true :=
          hexact.valid.find_complete ((hexact.stored (item.propertyName, i)).mpr ⟨item, hi, rfl⟩)
            hequals (ObjectStructurePropertyName.hashValue_eq_of_equals hform hequals)
        rw [hfind] at hsome
        cases hsome
    refine ⟨hfound, hexact.valid, hexact.stored, fun t ht hequals => ?_⟩
    have hform := hnames t ht s hs hequals
    rw [hfound]
    exact findIdx?_congr fun item _ =>
      (ObjectStructurePropertyName.equals_congr hform hequals item.propertyName).symm

end

end PropertyNameMapWithCache

namespace ObjectStructureWithMap

def Exact (memory : Nat → EString) (names : List ObjectStructurePropertyName)
    (self : ObjectStructureWithMap) : Prop :=
  ∀ map, self.propertyNameMap = some map → map.Exact memory names self.properties

theorem Exact.findProperty (hnames : ObjectStructurePropertyName.Agreeing memory names)
    {self next : ObjectStructureWithMap}
    (hmem : ∀ item ∈ self.properties, item.propertyName ∈ names)
    (hunequal : UnequalNames memory self.properties) (hexact : self.Exact memory names)
    {s : ObjectStructurePropertyName} (hs : s ∈ names) {found : Option Nat}
    (hfind : self.findProperty memory s = some (next, found)) :
    found = scan memory self.properties s ∧ next.Exact memory names ∧
      next.properties = self.properties := by
  obtain ⟨map, hmap, hresult⟩ := Option.map_eq_some_iff.mp hfind
  have hmapExact : map.Exact memory names self.properties := by
    cases hbuilt : self.propertyNameMap with
    | some built =>
      rw [hbuilt] at hmap
      cases hmap
      exact hexact map hbuilt
    | none =>
      rw [hbuilt] at hmap
      refine PropertyNameMapWithCache.exact_insertAll hnames hmem ?_
        (PropertyNameMapWithCache.exact_reserved _) hmap
      exact hunequal
  obtain ⟨hanswer, hnext⟩ := hmapExact.find hnames hmem hunequal hs
  cases hresult
  refine ⟨hanswer, ?_, rfl⟩
  rintro _ ⟨⟩
  exact hnext

theorem insertAll_isSome_of_valid {items : List ObjectStructureItem} {index : Nat}
    {map : PropertyNameMapWithCache}
    (hvalid : map.map.Valid (PropertyNameMapWithCache.hash memory))
    (hsmall : map.map.size + items.length ≤ RobinTable.distanceLimit + 1) :
    (PropertyNameMapWithCache.insertAll memory items index map).isSome = true := by
  induction items generalizing index map with
  | nil => rfl
  | cons item items ih =>
    rw [length_cons] at hsmall
    obtain ⟨grown, hgrown⟩ := Option.isSome_iff_exists.mp
      (hvalid.insert_isSome (by omega) :
        (map.map.insert (PropertyNameMapWithCache.hash memory)
          (fun entry => entry.1.equals memory item.propertyName)
          (item.propertyName, index)).isSome = true)
    have hsize := hvalid.insert_size_le hgrown
    rw [PropertyNameMapWithCache.insertAll, PropertyNameMapWithCache.insert, hgrown]
    exact ih (hvalid.insert_spec hgrown).1 (by simp only; omega)

theorem findProperty_isSome {self : ObjectStructureWithMap}
    (hsmall : self.properties.length ≤ RobinTable.distanceLimit)
    (s : ObjectStructurePropertyName) : (self.findProperty memory s).isSome = true := by
  rw [ObjectStructureWithMap.findProperty, isSome_map]
  split
  · rfl
  · apply insertAll_isSome_of_valid (RobinTable.valid_reserved _ _).1
    show 0 + self.properties.length ≤ RobinTable.distanceLimit + 1
    omega

theorem Exact.run_findProperty (hnames : ObjectStructurePropertyName.Agreeing memory names) :
    ∀ (searched : List ObjectStructurePropertyName) {self last : ObjectStructureWithMap}
      {outs : List (Option Nat)}, (∀ s ∈ searched, s ∈ names) →
      (∀ item ∈ self.properties, item.propertyName ∈ names) →
      UnequalNames memory self.properties → self.Exact memory names →
      run (fun w s => ObjectStructureWithMap.findProperty memory w s) searched self =
        some (last, outs) →
      outs = searched.map (scan memory self.properties)
  | [], self, last, outs, _, _, _, _, hrun => by
      cases hrun
      rfl
  | s :: searched, self, last, outs, hin, hmem, hunequal, hexact, hrun => by
      rw [run] at hrun
      split at hrun
      · cases hrun
      · rename_i next found hfind
        obtain ⟨hfound, hnext, hproperties⟩ :=
          hexact.findProperty hnames hmem hunequal (hin s mem_cons_self) hfind
        split at hrun
        · cases hrun
        · rename_i final rest hrest
          cases hrun
          have htail := Exact.run_findProperty hnames searched
            (fun t ht => hin t (mem_cons_of_mem s ht)) (by rwa [hproperties])
            (by rwa [hproperties]) hnext hrest
          rw [map_cons, hfound, htail, hproperties]

end ObjectStructureWithMap

end Scan

/-- The keys lead to names of one form: both strings are left as they are, with
compatible widths, or neither is. -/
def keysAgree (memory : Nat → EString) (first second : Interner) : KeyValue → KeyValue → Bool
  | .string a, .string b =>
    first.remainsNormalString (.string a) == second.remainsNormalString (.string b) &&
      (!first.remainsNormalString (.string a) || (memory a).hashCompatible (memory b))
  | _, _ => true

open ObjectStructurePropertyName in
theorem sameForm_of_keysAgree {asciiTable : Nat → StringPointer} {memory : Nat → EString}
    {first second next next' : Interner} {u v : KeyValue} {p q : ObjectStructurePropertyName}
    (hp : ofValue asciiTable first u = some (next, p))
    (hq : ofValue asciiTable second v = some (next', q))
    (hagree : keysAgree memory first second u v = true) : sameForm memory p q = true := by
  rcases ofValue_form hp with
    ⟨hu, a, rfl, rfl⟩ | ⟨hu, ⟨a, rfl, rfl⟩ | ⟨a, string, rfl, rfl⟩⟩
  · rcases ofValue_form hq with
      ⟨hv, b, rfl, rfl⟩ | ⟨hv, ⟨b, rfl, rfl⟩ | ⟨b, string', rfl, rfl⟩⟩
    · simp only [keysAgree, hu, hv, Bool.not_true, Bool.false_or, beq_self_eq_true,
        Bool.true_and] at hagree
      exact hagree
    · rfl
    · simp [keysAgree, hu, hv] at hagree
  · rcases ofValue_form hq with
      ⟨hv, b, rfl, rfl⟩ | ⟨hv, ⟨b, rfl, rfl⟩ | ⟨b, string', rfl, rfl⟩⟩ <;> rfl
  · rcases ofValue_form hq with
      ⟨hv, b, rfl, rfl⟩ | ⟨hv, ⟨b, rfl, rfl⟩ | ⟨b, string', rfl, rfl⟩⟩
    · simp [keysAgree, hu, hv] at hagree
    · rfl
    · rfl

open ObjectStructurePropertyName in
/-- Names that the constructor makes from agreeing keys hash alike when they are equal;
a string that it left as it is and an equal one that it interned above the range of
content hashes never do. Among names that agree, every sequence of searches through
the index map of a structure answers as the linear scan does. -/
theorem equal_names_hash_alike (asciiTable : Nat → StringPointer) (memory : Nat → EString) :
    (∀ (first second next next' : Interner) (u v : KeyValue) (p q : ObjectStructurePropertyName),
      ofValue asciiTable first u = some (next, p) →
      ofValue asciiTable second v = some (next', q) → p.equals memory q = true →
      (keysAgree memory first second u v = true → p.hashValue memory = q.hashValue memory) ∧
      (first.remainsNormalString u = false → second.remainsNormalString v = true →
        2 ^ 32 ≤ p.hashValue memory → p.hashValue memory ≠ q.hashValue memory)) ∧
    (∀ (names searched : List ObjectStructurePropertyName)
      (properties : List ObjectStructureItem) (flags : StructureFlags),
      Agreeing memory names → (∀ item ∈ properties, item.propertyName ∈ names) →
      (∀ s ∈ searched, s ∈ names) → UnequalNames memory properties →
      FlagsOk flags properties →
      let searches := run (fun w s => ObjectStructureWithMap.findProperty memory w s) searched
        ⟨properties, none, flags.hasIndexPropertyName, flags.hasSymbolPropertyName, false⟩
      (∀ last outs, searches = some (last, outs) →
        outs = searched.map (searchProperties memory properties flags)) ∧
      (properties.length ≤ RobinTable.distanceLimit → searches.isSome = true)) := by
  constructor
  · intro first second next next' u v p q hp hq hequals
    constructor
    · intro hagree
      exact hashValue_eq_of_equals (sameForm_of_keysAgree hp hq hagree) hequals
    · intro hu hv hhigh
      rcases ofValue_form hq with ⟨-, b, rfl, rfl⟩ | ⟨hv', -⟩
      · rcases ofValue_form hp with ⟨hu', -⟩ | ⟨-, ⟨a, rfl, rfl⟩ | ⟨a, string, rfl, rfl⟩⟩
        · rw [hu] at hu'
          cases hu'
        · cases hequals
        · exact hashValue_ne_of_atomic hhigh b
      · rw [hv] at hv'
        cases hv'
  · intro names searched properties flags hnames hmem hin hunequal hflags searches
    constructor
    · intro last outs hrun
      have hscan := ObjectStructureWithMap.Exact.run_findProperty hnames searched hin hmem hunequal
        (fun _ h => by cases h) hrun
      rw [hscan]
      apply map_congr_left
      intro s _
      exact (searchProperties_eq_scan hflags s).symm
    · intro hsmall
      have hreturns : ∀ (searched : List ObjectStructurePropertyName)
          (w : ObjectStructureWithMap), w.properties.length ≤ RobinTable.distanceLimit →
          (run (fun w s => ObjectStructureWithMap.findProperty memory w s) searched w).isSome =
            true := by
        intro searched
        induction searched with
        | nil => exact fun _ _ => rfl
        | cons s searched ih =>
          intro w hw
          obtain ⟨⟨next, found⟩, hfind⟩ := Option.isSome_iff_exists.mp
            (ObjectStructureWithMap.findProperty_isSome hw s)
          have hproperties : next.properties = w.properties := by
            obtain ⟨map, -, hresult⟩ := Option.map_eq_some_iff.mp hfind
            cases hresult
            rfl
          rw [run_cons_of_step hfind, isSome_map]
          exact ih next (by rwa [hproperties])
      exact hreturns searched _ hsmall

def Interner.memory (interner : Interner) (address : Nat) : EString :=
  match interner.heap[address]? with
  | some object => object.string
  | none => .latin1 []

/-- Seventeen digits in two string objects, of which the first may have been interned
as a string at a high address. -/
def seventeenDigits (interned : Bool) : Interner where
  heap := [⟨.latin1 [], false⟩, ⟨.latin1 (List.replicate 17 0x39), false⟩,
    ⟨.latin1 (List.replicate 17 0x39), false⟩]
  typeTag address :=
    if interned ∧ address = 1 then some ⟨2 ^ 32, .latin1 (List.replicate 17 0x39)⟩ else none
  map := .empty
  cache _ := none

open ObjectStructurePropertyName in
/-- Two plain names of the digits, an interned one against a plain one, and two
searches in a structure that has the plain name. -/
theorem equal_names_hash_alike_digits : (plain 1).hashValue (seventeenDigits false).memory =
        (plain 2).hashValue (seventeenDigits false).memory ∧
      (atomic (2 ^ 32)).hashValue (fun _ => .latin1 (List.replicate 17 0x39)) ≠
        (plain 2).hashValue (fun _ => .latin1 (List.replicate 17 0x39)) ∧
      ∃ last, run (fun w s => ObjectStructureWithMap.findProperty (seventeenDigits false).memory w s)
          [.plain 2, .symbol 5] ⟨[⟨.plain 1, ⟨0⟩⟩], none, false, false, false⟩ =
        some (last, [some 0, none]) := by
  have hall := equal_names_hash_alike (fun _ => Interner.emptyString)
  have hagree : Agreeing (seventeenDigits false).memory [.plain 1, .plain 2, .symbol 5] := by
    unfold Agreeing
    decide +kernel
  obtain ⟨houts, hreturns⟩ := (hall (seventeenDigits false).memory).2
    [.plain 1, .plain 2, .symbol 5] [.plain 2, .symbol 5] [⟨.plain 1, ⟨0⟩⟩] ⟨false, false, true⟩
    hagree (by decide) (by decide) (pairwise_singleton _ _)
    ⟨by decide, by decide⟩
  obtain ⟨⟨last, outs⟩, hrun⟩ := Option.isSome_iff_exists.mp (hreturns (by decide))
  refine ⟨?_, ?_, last, ?_⟩
  · exact ((hall _).1 (seventeenDigits false) (seventeenDigits false) _ _ (.string 1) (.string 2)
      _ _ rfl rfl (by decide +kernel)).1 (by decide +kernel)
  · exact ((hall _).1 (seventeenDigits true) (seventeenDigits true) _ _ (.string 1) (.string 2)
      _ _ rfl rfl (by decide +kernel)).2 (by decide +kernel) (by decide +kernel) (by decide)
  · have hanswers := houts last outs hrun
    rw [hanswers] at hrun
    exact hrun.trans (congrArg (fun outs => some (last, outs)) (by decide +kernel))

open ObjectStructurePropertyName in
/-- A string of seventeen digits is interned; another with the same text is left as it
is. The two names are equal and hash apart. -/
theorem equal_names_hash_apart :
    ¬ ∀ (asciiTable : Nat → StringPointer) (constructions : List Construction)
      (interner : Interner) (outs : List (Option StringPointer)),
      run Interner.step constructions Interner.initial = some (interner, outs) →
      ∀ (u v : KeyValue) (next next' : Interner) (p q : ObjectStructurePropertyName),
        ofValue asciiTable interner u = some (next, p) →
        ofValue asciiTable next v = some (next', q) → p.equals next'.memory q = true →
        p.hashValue next'.memory = q.hashValue next'.memory := by
  intro hall
  have hdigits := hall (fun _ => Interner.emptyString)
    [.newString ⟨.latin1 (List.replicate 17 0x39), false⟩,
      .newString ⟨.latin1 (List.replicate 17 0x39), false⟩, .fromContextString 1] _ _ rfl
    (.string 1) (.string 2) _ _ (.atomic 1) (.plain 2) rfl rfl (by decide +kernel)
  exact absurd hdigits (by decide +kernel)

end Escargot.Runtime
