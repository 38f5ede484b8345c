/-
# Atomic strings

An `AtomicString` holds a canonical `String*` from the `AtomicStringMap`, a
robin hood hash set of strings compared by content and hashed by `hashValue`. A
string that has been interned carries its canonical string in `m_typeTag`, and
a small content-keyed cache stands in front of the map. The constructors differ
in the probe they search with and in the string they insert after a miss.
-/

import Escargot.Foundation.RobinHash
import Escargot.Foundation.Run
import Escargot.Runtime.String

namespace Escargot.Runtime

open List Escargot.Foundation

/-- A `String*`: an address together with the string found there, which never
changes. -/
structure StringPointer where
  address : Nat
  string : EString
  deriving DecidableEq

/-- The hash of the set, `std::hash<String*>`. -/
def StringPointer.hash (pointer : StringPointer) : Nat := pointer.string.hashValue.toNat

/-- An entry of the map that equals the probe, `std::equal_to<String*>`. -/
def StringPointer.equals (probe : EString) (pointer : StringPointer) : Bool :=
  pointer.string.equals probe

abbrev AtomicStringMap := RobinTable StringPointer

/-- `SLRUSetCache`: two ways a set, each empty or a key with its string. -/
abbrev AtomicStringLookupCache := Nat → Option (List UInt8 × StringPointer)

namespace AtomicStringLookupCache

/-- `atomicStringLookupCacheSets`. -/
def sets : Nat := 128

def maxKeyLength : Nat := 16

variable (cache : AtomicStringLookupCache) (src : List UInt8)

/-- `computeHash`, which reads the bytes as unsigned. -/
def computeHash : UInt32 := src.foldl (fun hash c => (hash ^^^ c.toUInt32) * 16777619) 2166136261

/-- The first way of the set of a key. -/
def baseIdx : Nat := (computeHash src).toNat % sets * 2

/-- `lookup`: a hit in the second way is promoted to the first. -/
def lookup : AtomicStringLookupCache × Option StringPointer :=
  let i := baseIdx src
  match cache i, cache (i + 1) with
  | some (key, string), way =>
    if key = src then (cache, some string)
    else
      match way with
      | some (key', string') =>
        if key' = src then
          (Function.update (Function.update cache i (some (key', string'))) (i + 1)
            (some (key, string)), some string')
        else (cache, none)
      | none => (cache, none)
  | none, some (key', string') =>
    if key' = src then
      (Function.update (Function.update cache i (some (key', string'))) (i + 1) none, some string')
    else (cache, none)
  | none, none => (cache, none)

/-- `insertProbation`: new content lands in the second way. -/
def insertProbation (string : StringPointer) : AtomicStringLookupCache :=
  Function.update cache (baseIdx src + 1) (some (src, string))

/-- Every entry of the cache satisfies `P`. -/
def All (P : List UInt8 → StringPointer → Prop) (cache : AtomicStringLookupCache) : Prop :=
  ∀ i src string, cache i = some (src, string) → P src string

section All

variable {P : List UInt8 → StringPointer → Prop} {cache : AtomicStringLookupCache}

theorem All.update (hall : All P cache) {i : Nat} {entry : Option (List UInt8 × StringPointer)}
    (hentry : ∀ src string, entry = some (src, string) → P src string) :
    All P (Function.update cache i entry) := by
  intro j src string h
  by_cases hj : j = i
  · subst hj
    rw [Function.update_self] at h
    exact hentry src string h
  · rw [Function.update_of_ne hj] at h
    exact hall j src string h

theorem All.insertProbation (hall : All P cache) {src : List UInt8} {string : StringPointer}
    (h : P src string) : All P (insertProbation cache src string) := by
  refine All.update hall fun src' string' heq => ?_
  cases heq
  exact h

theorem All.swap (hall : All P cache) (i j : Nat) :
    All P (Function.update (Function.update cache i (cache j)) j (cache i)) := by
  refine All.update (All.update hall fun src string h => ?_) fun src string h => ?_
  · exact hall j src string h
  · exact hall i src string h

theorem All.lookup (hall : All P cache) (src : List UInt8) :
    All P (lookup cache src).1 ∧ ∀ string, (lookup cache src).2 = some string → P src string := by
  have hswap := All.swap hall (baseIdx src) (baseIdx src + 1)
  have hmiss : All P cache ∧ ∀ string, (none : Option StringPointer) = some string →
      P src string := ⟨hall, fun _ h => by cases h⟩
  rw [AtomicStringLookupCache.lookup]
  cases hfirst : cache (baseIdx src) with
  | none =>
    cases hsecond : cache (baseIdx src + 1) with
    | none => exact hmiss
    | some pair =>
      obtain ⟨key, string⟩ := pair
      rw [hfirst, hsecond] at hswap
      dsimp only
      split
      · rename_i hkey
        subst hkey
        exact ⟨hswap, fun _ h => Option.some.inj h ▸ hall _ _ _ hsecond⟩
      · exact hmiss
  | some first =>
    obtain ⟨key, string⟩ := first
    dsimp only
    split
    · rename_i hkey
      subst hkey
      exact ⟨hall, fun _ h => Option.some.inj h ▸ hall _ _ _ hfirst⟩
    · cases hsecond : cache (baseIdx src + 1) with
      | none => exact hmiss
      | some second =>
        rw [hfirst, hsecond] at hswap
        dsimp only
        split
        · rename_i hkey
          subst hkey
          exact ⟨hswap, fun _ h => Option.some.inj h ▸ hall _ _ _ hsecond⟩
        · exact hmiss

end All

end AtomicStringLookupCache

/-- A string object on the heap. Views and strings with out-of-line storage are
copied before they enter the map. -/
structure StringObject where
  string : EString
  outOfLine : Bool

/-- `isStringView() || isCompressibleString() || isReloadableString()`. -/
def StringObject.isCopied (object : StringObject) : Bool :=
  object.outOfLine || match object.string with
    | .view _ _ _ => true
    | _ => false

/-- What the constructors read and write: the string objects by address, their
`m_typeTag`, the map and the cache. -/
structure Interner where
  heap : List StringObject
  typeTag : Nat → Option StringPointer
  map : AtomicStringMap
  cache : AtomicStringLookupCache

/-- The constructions, and the creation of a string a program may intern. -/
inductive Construction
  | newString (object : StringObject)
  | fromChars (src : List UInt8)
  | fromExternalMemory (src : List UInt8)
  | fromLChars (src : List UInt8)
  | fromChar16s (src : List UInt16)
  | fromStringView (address : Nat)
  | fromParserStringView (source : EString) (start length : Nat)
  | fromMapString (address : Nat)
  | fromContextString (address : Nat)
  | initStaticString (src : List UInt8)

namespace Interner

/-- `String::emptyString()`, at address zero. -/
def emptyString : StringPointer := ⟨0, .latin1 []⟩

/-- The state after `initStaticStrings` inserted the empty string, which is
tagged as its own canonical string. -/
def initial : Interner where
  heap := [⟨.latin1 [], false⟩]
  typeTag := fun address => if address = 0 then some emptyString else none
  map :=
    (RobinTable.insert StringPointer.hash (StringPointer.equals emptyString.string) emptyString
      .empty).getD .empty
  cache := fun _ => none

variable (interner : Interner) (address : Nat) (object : StringObject)

def allocate : Interner × StringPointer :=
  ({ interner with heap := interner.heap ++ [object] }, ⟨interner.heap.length, object.string⟩)

variable (src : List UInt8)

def fromLatin1 : Interner × StringPointer :=
  if src = [] then (interner, emptyString) else interner.allocate ⟨.latin1 src, false⟩

/-- A flat copy of a buffer, as the constructors over views make it. -/
def copyOf : StringBufferAccessData → Interner × StringPointer
  | .bufferAs8Bit buffer => interner.fromLatin1 buffer
  | .bufferAs16Bit buffer => interner.allocate ⟨.utf16 buffer, false⟩

def isAllLatin1 (src : List UInt16) : Bool := src.all fun unit => unit ≤ 0xFF

def find (interner : Interner) (probe : EString) : Option StringPointer :=
  interner.map.find probe.hashValue.toNat (StringPointer.equals probe)

def insert (interner : Interner) (string : StringPointer) : Option Interner :=
  (RobinTable.insert StringPointer.hash (StringPointer.equals string.string) string
    interner.map).map fun map => { interner with map := map }

variable (canonical : StringPointer)

/-- The write of `m_typeTag`. -/
def setTag : Interner :=
  { interner with typeTag := Function.update interner.typeTag address (some canonical) }

theorem typeTag_setTag_self :
    (interner.setTag address canonical).typeTag address = some canonical :=
  Function.update_self _ _ _

theorem typeTag_setTag_of_ne {address other : Nat} (h : other ≠ address)
    (canonical : StringPointer) :
    (interner.setTag address canonical).typeTag other = interner.typeTag other :=
  Function.update_of_ne h _ _

/-- The shared shape of the constructors: search with the probe and, after a
miss, insert the string that `make` builds. -/
def initWith (probe : EString) (make : Interner → Interner × StringPointer) (tagsNew : Bool) :
    Option (Interner × StringPointer) :=
  match interner.find probe with
  | some found => some (interner, found)
  | none =>
    let (made, newStr) := make interner
    match made.insert newStr with
    | none => none
    | some next => some (if tagsNew then next.setTag newStr.address newStr else next, newStr)

/-- `AtomicString::init(map, const char*, len, false)`. -/
def initChars : Option (Interner × StringPointer) :=
  interner.initWith (.latin1 src) (·.fromLatin1 src) true

/-- `AtomicString::init(map, const char*, len, true)`. -/
def initExternalMemory : Option (Interner × StringPointer) :=
  interner.initWith (.latin1 src) (·.allocate ⟨.latin1 src, false⟩) true

/-- `AtomicString::init(map, const LChar*, len)`. -/
def initLChars : Option (Interner × StringPointer) :=
  interner.initWith (.latin1 src) (·.allocate ⟨.latin1 src, false⟩) true

/-- `AtomicString::init(map, const char16_t*, len)`: the probe is 16-bit, and the
string inserted is 8-bit when all units are Latin-1. -/
def initChar16s (src : List UInt16) : Option (Interner × StringPointer) :=
  interner.initWith (.utf16 src)
    (fun interner =>
      if isAllLatin1 src then interner.fromLatin1 (src.map UInt16.toUInt8)
      else interner.allocate ⟨.utf16 src, false⟩) true

/-- `AtomicString::AtomicString(Context*, const StringView&)`. -/
def initStringView : Option (Interner × StringPointer) :=
  match interner.typeTag address with
  | some canonical => some (interner, canonical)
  | none =>
    (interner.initWith object.string (·.copyOf object.string.bufferAccessData) false).map
      fun (next, string) => (next.setTag address string, string)

/-- `AtomicString::AtomicString(Context*, const ParserStringView&)`. -/
def initParserStringView (source : EString) (start length : Nat) :
    Option (Interner × StringPointer) :=
  interner.initWith (.view source start length)
    (·.copyOf (EString.view source start length).bufferAccessData) false

/-- `AtomicString::init(map, String*)`. A miss tags the string that was
inserted, a hit tags the source. -/
def initString : Option (Interner × StringPointer) :=
  match interner.typeTag address with
  | some canonical => some (interner, canonical)
  | none =>
    match interner.find object.string with
    | some found => some (interner.setTag address found, found)
    | none =>
      let (made, name) :=
        if object.isCopied then interner.copyOf object.string.bufferAccessData
        else (interner, ⟨address, object.string⟩)
      match made.insert name with
      | none => none
      | some next => some (next.setTag name.address name, name)

/-- `AtomicString::AtomicString(Context*, String*)` with `init(Context*, String*)`:
short 8-bit strings go through the lookup cache. -/
def initContextString : Option (Interner × StringPointer) :=
  match interner.typeTag address with
  | some canonical => some (interner, canonical)
  | none =>
    match object.string.bufferAccessData with
    | .bufferAs8Bit buffer =>
      if buffer.length ≤ AtomicStringLookupCache.maxKeyLength then
        let (cache, hit) := interner.cache.lookup buffer
        match hit with
        | some string => some ({ interner with cache := cache }, string)
        | none =>
          (initString { interner with cache := cache } address object).map
            fun (next, string) =>
              ({ next with cache := next.cache.insertProbation buffer string }, string)
      else interner.initString address object
    | .bufferAs16Bit _ => interner.initString address object

/-- `AtomicString::initStaticString` of a fresh `ASCIIStringFromExternalMemory`. -/
def initStaticString : Option (Interner × StringPointer) :=
  let (made, name) := interner.allocate ⟨.latin1 src, false⟩
  match made.insert name with
  | none => none
  | some next => some (next.setTag name.address name, name)

/-- One construction. The answer is the `m_string` of the new `AtomicString`;
`none` when the address designates no object or the set gives up growing. -/
def step : Construction → Option (Interner × Option StringPointer)
  | .newString object => some ((interner.allocate object).1, none)
  | .fromChars src => (interner.initChars src).map fun r => (r.1, some r.2)
  | .fromExternalMemory src => (interner.initExternalMemory src).map fun r => (r.1, some r.2)
  | .fromLChars src => (interner.initLChars src).map fun r => (r.1, some r.2)
  | .fromChar16s src => (interner.initChar16s src).map fun r => (r.1, some r.2)
  | .fromStringView address =>
    match interner.heap[address]? with
    | none => none
    | some object => (interner.initStringView address object).map fun r => (r.1, some r.2)
  | .fromParserStringView source start length =>
    (interner.initParserStringView source start length).map fun r => (r.1, some r.2)
  | .fromMapString address =>
    match interner.heap[address]? with
    | none => none
    | some object => (interner.initString address object).map fun r => (r.1, some r.2)
  | .fromContextString address =>
    match interner.heap[address]? with
    | none => none
    | some object => (interner.initContextString address object).map fun r => (r.1, some r.2)
  | .initStaticString src => (interner.initStaticString src).map fun r => (r.1, some r.2)

def Allocated (pointer : StringPointer) : Prop :=
  ∃ object, interner.heap[pointer.address]? = some object ∧ object.string = pointer.string

/-- No two strings of the map have the same content, and tags and cache only know
strings of the map. -/
structure Canonical (interner : Interner) : Prop where
  valid : interner.map.Valid StringPointer.hash
  empty_stored : interner.map.Stored emptyString
  allocated : ∀ e, interner.map.Stored e → interner.Allocated e
  distinct : ∀ e e', interner.map.Stored e → interner.map.Stored e' →
    e.string.content = e'.string.content → e = e'
  tags : ∀ address canonical, interner.typeTag address = some canonical →
    interner.map.Stored canonical ∧ ∀ object, interner.heap[address]? = some object →
      object.string.content = canonical.string.content
  tags_allocated : ∀ address, interner.heap.length ≤ address → interner.typeTag address = none
  cached : interner.cache.All fun src string =>
    interner.map.Stored string ∧ string.string.content = src.map UInt8.toUInt16

/-- The searched string cannot be missed for its representation. -/
def compatible (probe : EString) : Prop :=
  ∀ e, interner.map.Stored e → e.string.content = probe.content →
    e.string.hashCompatible probe = true

/-- What a construction from `content` achieves. -/
structure Interned (before after : Interner) (content : List UInt16) (p : StringPointer) :
    Prop where
  canonical : after.Canonical
  stored_mono : ∀ e, before.map.Stored e → after.map.Stored e
  heap_mono : ∀ (address : Nat) object, before.heap[address]? = some object →
    after.heap[address]? = some object
  stored : after.map.Stored p
  content_eq : p.string.content = content

section Steps

variable {interner : Interner}

theorem find_sound (hcan : interner.Canonical) {probe : EString} {found : StringPointer}
    (hfind : interner.find probe = some found) :
    interner.map.Stored found ∧ found.string.content = probe.content := by
  obtain ⟨hhit, hstored⟩ := hcan.valid.find_sound hfind
  exact ⟨hstored, (EString.equals_iff _ _).mp hhit⟩

theorem find_complete (hcan : interner.Canonical) {probe : EString}
    (hcompatible : interner.compatible probe) (hfind : interner.find probe = none) :
    ∀ e, interner.map.Stored e → e.string.content ≠ probe.content := by
  intro e hstored hcontent
  have hhash : e.hash = probe.hashValue.toNat := by
    rw [StringPointer.hash,
      EString.hashValue_eq_of_compatible hcontent (hcompatible e hstored hcontent)]
  have hhit : StringPointer.equals probe e = true :=
    (EString.equals_iff e.string probe).mpr hcontent
  have hsome := hcan.valid.find_complete hstored hhit hhash
  rw [find] at hfind
  rw [hfind] at hsome
  cases hsome

variable {next : Interner}

theorem insert_new (hcan : interner.Canonical) {newStr : StringPointer}
    (hallocated : interner.Allocated newStr)
    (hnew : ∀ e, interner.map.Stored e → e.string.content ≠ newStr.string.content)
    (hinsert : interner.insert newStr = some next) :
    Interned interner next newStr.string.content newStr := by
  rw [insert, Option.map_eq_some_iff] at hinsert
  obtain ⟨map, hmap, rfl⟩ := hinsert
  obtain ⟨hvalid, hresult⟩ := hcan.valid.insert_spec hmap
  have hstored : ∀ w, map.Stored w ↔ interner.map.Stored w ∨ w = newStr := by
    rcases hresult with ⟨hfound, -⟩ | ⟨-, hstored⟩
    · obtain ⟨found, hfind⟩ := Option.isSome_iff_exists.mp hfound
      obtain ⟨hhit, hin⟩ := hcan.valid.find_sound hfind
      exact absurd ((EString.equals_iff _ _).mp hhit) (hnew found hin)
    · exact hstored
  refine ⟨⟨hvalid, ?_, ?_, ?_, ?_, hcan.tags_allocated, ?_⟩, ?_, fun _ _ h => h, ?_, rfl⟩
  · exact (hstored _).mpr (Or.inl hcan.empty_stored)
  · intro e he
    rcases (hstored e).mp he with hold | rfl
    · exact hcan.allocated e hold
    · exact hallocated
  · intro e e' he he' hcontent
    rcases (hstored e).mp he with hold | rfl <;> rcases (hstored e').mp he' with hold' | rfl
    · exact hcan.distinct e e' hold hold' hcontent
    · exact absurd hcontent (hnew e hold)
    · exact absurd hcontent.symm (hnew e' hold')
    · rfl
  · intro address canonical htag
    obtain ⟨hin, hobject⟩ := hcan.tags address canonical htag
    exact ⟨(hstored canonical).mpr (Or.inl hin), hobject⟩
  · intro i src string hentry
    obtain ⟨hin, hcontent⟩ := hcan.cached i src string hentry
    exact ⟨(hstored string).mpr (Or.inl hin), hcontent⟩
  · exact fun e he => (hstored e).mpr (Or.inl he)
  · exact (hstored newStr).mpr (Or.inr rfl)

variable {address : Nat} {object : StringObject}

theorem canonical_setTag (hcan : interner.Canonical)
    (hobject : interner.heap[address]? = some object) {canonical : StringPointer}
    (hstored : interner.map.Stored canonical)
    (hcontent : object.string.content = canonical.string.content) :
    (interner.setTag address canonical).Canonical := by
  refine ⟨hcan.valid, hcan.empty_stored, hcan.allocated, hcan.distinct, ?_, ?_, hcan.cached⟩
  · intro other tag htag
    by_cases hother : other = address
    · subst hother
      rw [typeTag_setTag_self] at htag
      cases htag
      refine ⟨hstored, fun object' hobject' => ?_⟩
      cases hobject.symm.trans hobject'
      exact hcontent
    · rw [typeTag_setTag_of_ne _ hother] at htag
      exact hcan.tags other tag htag
  · intro other hother
    have hne : other ≠ address := by
      rintro rfl
      exact absurd (List.getElem?_eq_some_iff.mp hobject).1 (Nat.not_lt.mpr hother)
    rw [typeTag_setTag_of_ne _ hne]
    exact hcan.tags_allocated other hother

variable {before after : Interner} {content : List UInt16} {p : StringPointer}

theorem Interned.setTag (hinterned : Interned before after content p)
    (hobject : after.heap[address]? = some object) (hcontent : object.string.content = content) :
    Interned before (after.setTag address p) content p :=
  ⟨canonical_setTag hinterned.canonical hobject hinterned.stored
      (hcontent.trans hinterned.content_eq.symm),
    hinterned.stored_mono, hinterned.heap_mono, hinterned.stored, hinterned.content_eq⟩

/-- A string built for insertion: only the heap may have grown. -/
structure Made (before after : Interner) (content : List UInt16) (p : StringPointer) : Prop where
  canonical : after.Canonical
  map_eq : after.map = before.map
  heap_mono : ∀ (address : Nat) object, before.heap[address]? = some object →
    after.heap[address]? = some object
  allocated : after.Allocated p
  content_eq : p.string.content = content

theorem made_allocate (hcan : interner.Canonical) (object : StringObject) :
    Made interner (interner.allocate object).1 object.string.content
      (interner.allocate object).2 := by
  have hmono : ∀ (address : Nat) old, interner.heap[address]? = some old →
      (interner.heap ++ [object])[address]? = some old := by
    intro address old h
    rw [getElem?_append_left (List.getElem?_eq_some_iff.mp h).1]
    exact h
  refine ⟨⟨hcan.valid, hcan.empty_stored, ?_, hcan.distinct, ?_, ?_, hcan.cached⟩, rfl, hmono,
    ⟨object, ?_, rfl⟩, rfl⟩
  · intro e he
    obtain ⟨old, hold, hstring⟩ := hcan.allocated e he
    exact ⟨old, hmono _ _ hold, hstring⟩
  · intro address canonical htag
    obtain ⟨hin, hcontent⟩ := hcan.tags address canonical htag
    refine ⟨hin, fun found hfound => ?_⟩
    have hlt : address < interner.heap.length := by
      by_contra hge
      have := hcan.tags_allocated address (Nat.le_of_not_lt hge)
      rw [show interner.typeTag address = some canonical from htag] at this
      cases this
    refine hcontent found ?_
    rwa [allocate, getElem?_append_left hlt] at hfound
  · intro address haddress
    refine hcan.tags_allocated address ?_
    rw [allocate, length_append] at haddress
    omega
  · rw [allocate, getElem?_concat_length]

theorem made_fromLatin1 (hcan : interner.Canonical) (src : List UInt8) :
    Made interner (interner.fromLatin1 src).1 (src.map UInt8.toUInt16)
      (interner.fromLatin1 src).2 := by
  rw [fromLatin1]
  split
  · rename_i hnil
    subst hnil
    exact ⟨hcan, rfl, fun _ _ h => h, hcan.allocated _ hcan.empty_stored, rfl⟩
  · exact made_allocate hcan ⟨.latin1 src, false⟩

theorem made_copyOf (hcan : interner.Canonical) (data : StringBufferAccessData) :
    Made interner (interner.copyOf data).1 data.units (interner.copyOf data).2 := by
  cases data with
  | bufferAs8Bit buffer => exact made_fromLatin1 hcan buffer
  | bufferAs16Bit buffer => exact made_allocate hcan ⟨.utf16 buffer, false⟩

theorem Made.insert (hmade : Made before after content p)
    (hmiss : ∀ e, before.map.Stored e → e.string.content ≠ content)
    (hinsert : after.insert p = some next) : Interned before next content p := by
  have hinterned := insert_new hmade.canonical hmade.allocated (by
    intro e he
    rw [hmade.content_eq]
    exact hmiss e (hmade.map_eq ▸ he)) hinsert
  refine ⟨hinterned.canonical, fun e he => hinterned.stored_mono e (hmade.map_eq ▸ he),
    fun address object h => hinterned.heap_mono _ _ (hmade.heap_mono _ _ h), hinterned.stored,
    hmade.content_eq⟩

theorem Interned.setTag_self (hinterned : Interned before after content p) :
    Interned before (after.setTag p.address p) content p := by
  obtain ⟨object, hobject, hstring⟩ := hinterned.canonical.allocated p hinterned.stored
  exact hinterned.setTag hobject (by rw [hstring, hinterned.content_eq])

theorem initWith_spec (hcan : interner.Canonical) {probe : EString}
    (hcompatible : interner.compatible probe) {make : Interner → Interner × StringPointer}
    (hmake : Made interner (make interner).1 probe.content (make interner).2) {tagsNew : Bool}
    (hinit : interner.initWith probe make tagsNew = some (next, p)) :
    Interned interner next probe.content p := by
  rw [initWith] at hinit
  split at hinit
  · rename_i found hfind
    cases hinit
    obtain ⟨hstored, hcontent⟩ := find_sound hcan hfind
    exact ⟨hcan, fun _ h => h, fun _ _ h => h, hstored, hcontent⟩
  · rename_i hfind
    have hmiss := find_complete hcan hcompatible hfind
    dsimp only at hinit
    split at hinit
    · cases hinit
    · rename_i inserted hinsert
      cases hinit
      have hinterned := hmake.insert hmiss hinsert
      split
      · exact hinterned.setTag_self
      · exact hinterned

theorem Made.of_self (hcan : interner.Canonical) (hobject : interner.heap[address]? = some object) :
    Made interner interner object.string.content ⟨address, object.string⟩ :=
  ⟨hcan, rfl, fun _ _ h => h, ⟨object, hobject, rfl⟩, rfl⟩

theorem interned_of_tag (hcan : interner.Canonical)
    (hobject : interner.heap[address]? = some object) {canonical : StringPointer}
    (htag : interner.typeTag address = some canonical) :
    Interned interner interner object.string.content canonical := by
  obtain ⟨hstored, hcontent⟩ := hcan.tags address canonical htag
  exact ⟨hcan, fun _ h => h, fun _ _ h => h, hstored, (hcontent object hobject).symm⟩

theorem map_toUInt8_of_isAllLatin1 {src : List UInt16} (h : isAllLatin1 src = true) :
    (src.map UInt16.toUInt8).map UInt8.toUInt16 = src := by
  rw [List.map_map, map_congr_left, List.map_id]
  intro unit hunit
  have hle : unit ≤ 0xFF := by simpa using List.all_eq_true.mp h unit hunit
  rw [UInt16.le_iff_toNat_le] at hle
  have hlt : unit.toNat < 256 := by
    have : (0xFF : UInt16).toNat = 255 := rfl
    omega
  rw [Function.comp_apply, id, ← UInt16.toNat_inj, UInt8.toNat_toUInt16, UInt16.toNat_toUInt8]
  exact Nat.mod_eq_of_lt hlt

theorem initChar16s_spec (hcan : interner.Canonical) {src : List UInt16}
    (hcompatible : interner.compatible (.utf16 src))
    (hinit : interner.initChar16s src = some (next, p)) : Interned interner next src p := by
  refine initWith_spec hcan hcompatible ?_ hinit
  split
  · rename_i hall
    have hmade := made_fromLatin1 hcan (src.map UInt16.toUInt8)
    rwa [map_toUInt8_of_isAllLatin1 hall] at hmade
  · exact made_allocate hcan ⟨.utf16 src, false⟩

theorem initStringView_spec (hcan : interner.Canonical)
    (hobject : interner.heap[address]? = some object)
    (hcompatible : interner.typeTag address = none → interner.compatible object.string)
    (hinit : interner.initStringView address object = some (next, p)) :
    Interned interner next object.string.content p := by
  rw [initStringView] at hinit
  cases htag : interner.typeTag address with
  | some canonical =>
    rw [htag] at hinit
    cases hinit
    exact interned_of_tag hcan hobject htag
  | none =>
    rw [htag] at hinit
    obtain ⟨⟨middle, string⟩, hwith, hnext⟩ := Option.map_eq_some_iff.mp hinit
    cases hnext
    have hinterned := initWith_spec hcan (hcompatible htag)
      (made_copyOf hcan object.string.bufferAccessData) hwith
    exact hinterned.setTag (hinterned.heap_mono _ _ hobject) rfl

theorem initString_spec (hcan : interner.Canonical)
    (hobject : interner.heap[address]? = some object)
    (hcompatible : interner.typeTag address = none → interner.compatible object.string)
    (hinit : interner.initString address object = some (next, p)) :
    Interned interner next object.string.content p := by
  rw [initString] at hinit
  cases htag : interner.typeTag address with
  | some canonical =>
    rw [htag] at hinit
    cases hinit
    exact interned_of_tag hcan hobject htag
  | none =>
    rw [htag] at hinit
    dsimp only at hinit
    split at hinit
    · rename_i found hfind
      cases hinit
      obtain ⟨hstored, hcontent⟩ := find_sound hcan hfind
      exact Interned.setTag ⟨hcan, fun _ h => h, fun _ _ h => h, hstored, hcontent⟩ hobject rfl
    · rename_i hfind
      have hmiss := find_complete hcan (hcompatible htag) hfind
      have hmade : Made interner
          (if object.isCopied then interner.copyOf object.string.bufferAccessData
            else (interner, ⟨address, object.string⟩)).1 object.string.content
          (if object.isCopied then interner.copyOf object.string.bufferAccessData
            else (interner, ⟨address, object.string⟩)).2 := by
        split
        · exact made_copyOf hcan object.string.bufferAccessData
        · exact Made.of_self hcan hobject
      split at hinit
      · cases hinit
      · rename_i inserted hinsert
        cases hinit
        exact (hmade.insert hmiss hinsert).setTag_self

theorem canonical_of_cache (hcan : interner.Canonical) {cache : AtomicStringLookupCache}
    (hcache : cache.All fun src string =>
      interner.map.Stored string ∧ string.string.content = src.map UInt8.toUInt16) :
    Canonical { interner with cache := cache } :=
  ⟨hcan.valid, hcan.empty_stored, hcan.allocated, hcan.distinct, hcan.tags, hcan.tags_allocated,
    hcache⟩

/-- The construction is answered from the lookup cache. -/
def cacheHits (interner : Interner) (object : StringObject) : Bool :=
  match object.string.bufferAccessData with
  | .bufferAs8Bit buffer =>
    buffer.length ≤ AtomicStringLookupCache.maxKeyLength && (interner.cache.lookup buffer).2.isSome
  | .bufferAs16Bit _ => false

theorem initContextString_spec (hcan : interner.Canonical)
    (hobject : interner.heap[address]? = some object)
    (hcompatible : interner.typeTag address = none → interner.cacheHits object = false →
      interner.compatible object.string)
    (hinit : interner.initContextString address object = some (next, p)) :
    Interned interner next object.string.content p := by
  rw [initContextString] at hinit
  cases htag : interner.typeTag address with
  | some canonical =>
    rw [htag] at hinit
    cases hinit
    exact interned_of_tag hcan hobject htag
  | none =>
    rw [htag] at hinit
    dsimp only at hinit
    cases hdata : object.string.bufferAccessData with
    | bufferAs16Bit buffer =>
      rw [hdata] at hinit
      refine initString_spec hcan hobject (fun _ => hcompatible htag ?_) hinit
      rw [cacheHits, hdata]
    | bufferAs8Bit buffer =>
      rw [hdata] at hinit
      dsimp only at hinit
      by_cases hlength : buffer.length ≤ AtomicStringLookupCache.maxKeyLength
      · rw [if_pos hlength] at hinit
        obtain ⟨hall, hhit⟩ := AtomicStringLookupCache.All.lookup hcan.cached buffer
        have hcontent : object.string.content = buffer.map UInt8.toUInt16 := by
          rw [EString.content, hdata]
          rfl
        have hcan' := canonical_of_cache hcan hall
        split at hinit
        · rename_i string hstring
          cases hinit
          obtain ⟨hstored, hsame⟩ := hhit _ hstring
          exact ⟨hcan', fun _ h => h, fun _ _ h => h, hstored, hsame.trans hcontent.symm⟩
        · rename_i hmiss
          obtain ⟨⟨middle, string⟩, hstring, hnext⟩ := Option.map_eq_some_iff.mp hinit
          cases hnext
          have hprobe : interner.compatible object.string := by
            refine hcompatible htag ?_
            rw [cacheHits, hdata]
            dsimp only
            rw [hmiss]
            simp
          have hinterned := initString_spec hcan' hobject (fun _ => hprobe) hstring
          refine ⟨canonical_of_cache hinterned.canonical ?_, hinterned.stored_mono,
            hinterned.heap_mono, hinterned.stored, hinterned.content_eq⟩
          exact hinterned.canonical.cached.insertProbation
            ⟨hinterned.stored, hinterned.content_eq.trans hcontent⟩
      · rw [if_neg hlength] at hinit
        refine initString_spec hcan hobject (fun _ => hcompatible htag ?_) hinit
        rw [cacheHits, hdata]
        simp [hlength]

def probe (interner : Interner) : Construction → Option EString
  | .newString _ | .initStaticString _ => none
  | .fromChars src | .fromExternalMemory src | .fromLChars src => some (.latin1 src)
  | .fromChar16s src => some (.utf16 src)
  | .fromParserStringView source start length => some (.view source start length)
  | .fromStringView address | .fromMapString address =>
    match interner.typeTag address with
    | some _ => none
    | none => interner.heap[address]?.map StringObject.string
  | .fromContextString address =>
    match interner.typeTag address with
    | some _ => none
    | none =>
      match interner.heap[address]? with
      | none => none
      | some object => if interner.cacheHits object then none else some object.string

/-- The constructions on which interning is canonical: no string of the map equal
to the probe hashes differently for its width, and a static string is new. -/
def admits (interner : Interner) (construction : Construction) : Prop :=
  (∀ string, interner.probe construction = some string → interner.compatible string) ∧
    ∀ src, construction = .initStaticString src →
      ∀ e, interner.map.Stored e → e.string.content ≠ src.map UInt8.toUInt16

def AnswerStored (interner : Interner) (answer : Option StringPointer) : Prop :=
  ∀ p, answer = some p → interner.map.Stored p

theorem Interned.answer (hinterned : Interned before after content p) :
    after.Canonical ∧ AnswerStored after (some p) ∧
      ∀ earlier, AnswerStored before earlier → AnswerStored after earlier :=
  ⟨hinterned.canonical, fun _ h => Option.some.inj h ▸ hinterned.stored,
    fun _ hearlier q hq => hinterned.stored_mono q (hearlier q hq)⟩

theorem step_canonical {construction : Construction} {answer : Option StringPointer}
    (hcan : interner.Canonical) (hadmits : interner.admits construction)
    (hstep : interner.step construction = some (next, answer)) :
    next.Canonical ∧ AnswerStored next answer ∧
      ∀ earlier, AnswerStored interner earlier → AnswerStored next earlier := by
  obtain ⟨hprobe, hstatic⟩ := hadmits
  cases construction with
  | newString object =>
    cases hstep
    have hmade := made_allocate hcan object
    exact ⟨hmade.canonical, fun _ h => (by cases h), fun _ h => h⟩
  | fromChars src =>
    obtain ⟨⟨after, p⟩, hinit, hnext⟩ := Option.map_eq_some_iff.mp hstep
    cases hnext
    exact (initWith_spec hcan (hprobe _ rfl) (made_fromLatin1 hcan src) hinit).answer
  | fromExternalMemory src =>
    obtain ⟨⟨after, p⟩, hinit, hnext⟩ := Option.map_eq_some_iff.mp hstep
    cases hnext
    exact (initWith_spec hcan (hprobe _ rfl)
      (made_allocate hcan ⟨.latin1 src, false⟩) hinit).answer
  | fromLChars src =>
    obtain ⟨⟨after, p⟩, hinit, hnext⟩ := Option.map_eq_some_iff.mp hstep
    cases hnext
    exact (initWith_spec hcan (hprobe _ rfl)
      (made_allocate hcan ⟨.latin1 src, false⟩) hinit).answer
  | fromChar16s src =>
    obtain ⟨⟨after, p⟩, hinit, hnext⟩ := Option.map_eq_some_iff.mp hstep
    cases hnext
    exact (initChar16s_spec hcan (hprobe _ rfl) hinit).answer
  | fromParserStringView source start length =>
    obtain ⟨⟨after, p⟩, hinit, hnext⟩ := Option.map_eq_some_iff.mp hstep
    cases hnext
    exact (initWith_spec hcan (hprobe _ rfl)
      (made_copyOf hcan (EString.view source start length).bufferAccessData) hinit).answer
  | fromStringView address =>
    rw [step] at hstep
    split at hstep
    · cases hstep
    · rename_i object hobject
      obtain ⟨⟨after, p⟩, hinit, hnext⟩ := Option.map_eq_some_iff.mp hstep
      cases hnext
      refine (initStringView_spec hcan hobject (fun htag => hprobe _ ?_) hinit).answer
      rw [probe, htag, hobject]
      rfl
  | fromMapString address =>
    rw [step] at hstep
    split at hstep
    · cases hstep
    · rename_i object hobject
      obtain ⟨⟨after, p⟩, hinit, hnext⟩ := Option.map_eq_some_iff.mp hstep
      cases hnext
      refine (initString_spec hcan hobject (fun htag => hprobe _ ?_) hinit).answer
      rw [probe, htag, hobject]
      rfl
  | fromContextString address =>
    rw [step] at hstep
    split at hstep
    · cases hstep
    · rename_i object hobject
      obtain ⟨⟨after, p⟩, hinit, hnext⟩ := Option.map_eq_some_iff.mp hstep
      cases hnext
      refine (initContextString_spec hcan hobject (fun htag hmiss => hprobe _ ?_) hinit).answer
      rw [probe, htag, hobject]
      dsimp only
      rw [hmiss]
      rfl
  | initStaticString src =>
    obtain ⟨⟨after, p⟩, hinit, hnext⟩ := Option.map_eq_some_iff.mp hstep
    cases hnext
    rw [initStaticString] at hinit
    dsimp only at hinit
    split at hinit
    · cases hinit
    · rename_i inserted hinsert
      cases hinit
      have hmade := made_allocate hcan ⟨.latin1 src, false⟩
      exact (hmade.insert (hstatic src rfl) hinsert).setTag_self.answer

end Steps

theorem stored_initial :
    initial.map.Valid StringPointer.hash ∧ ∀ w, initial.map.Stored w ↔ w = emptyString := by
  have hempty := RobinTable.valid_empty StringPointer.hash
  obtain ⟨map, hmap⟩ := Option.isSome_iff_exists.mp
    (@RobinTable.Valid.insert_isSome _ _ _ hempty (StringPointer.equals emptyString.string)
      emptyString (Nat.zero_le _))
  have hinitial : initial.map = map := by
    rw [initial, hmap]
    rfl
  obtain ⟨hvalid, hresult⟩ := hempty.insert_spec hmap
  rw [hinitial]
  refine ⟨hvalid, fun w => ?_⟩
  rcases hresult with ⟨hfound, -⟩ | ⟨-, hstored⟩
  · cases hfound
  · rw [hstored w]
    refine or_iff_right ?_
    rintro ⟨i, hi, -⟩
    exact absurd hi (Nat.not_lt_zero i)

theorem canonical_initial : initial.Canonical := by
  obtain ⟨hvalid, hstored⟩ := stored_initial
  refine ⟨hvalid, (hstored _).mpr rfl, ?_, ?_, ?_, ?_, fun _ _ _ h => by cases h⟩
  · intro e he
    rw [(hstored e).mp he]
    exact ⟨_, rfl, rfl⟩
  · intro e e' he he' _
    rw [(hstored e).mp he, (hstored e').mp he']
  · intro address canonical htag
    simp only [initial] at htag
    split at htag
    · rename_i haddress
      cases htag
      refine ⟨(hstored _).mpr rfl, fun object hobject => ?_⟩
      subst haddress
      cases hobject
      rfl
    · cases htag
  · intro address haddress
    have hne : address ≠ 0 := Nat.ne_of_gt haddress
    exact if_neg hne

/-- After every run of admitted constructions, two atomic strings have the same
content exactly when they hold the same pointer. -/
theorem interning_is_canonical (constructions : List Construction)
    (hguarded : Guarded step admits constructions initial) {last : Interner}
    {answers : List (Option StringPointer)}
    (hrun : run step constructions initial = some (last, answers)) :
    ∀ p q, some p ∈ answers → some q ∈ answers →
      (p.string.content = q.string.content ↔ p.address = q.address) := by
  obtain ⟨hcan, hanswers, -⟩ :=
    Guarded.run_invariant step_canonical constructions hguarded canonical_initial hrun
  intro p q hp hq
  have hstoredp := hanswers _ hp p rfl
  have hstoredq := hanswers _ hq q rfl
  constructor
  · intro hcontent
    rw [hcan.distinct p q hstoredp hstoredq hcontent]
  · intro haddress
    obtain ⟨object, hobject, hstring⟩ := hcan.allocated p hstoredp
    obtain ⟨object', hobject', hstring'⟩ := hcan.allocated q hstoredq
    rw [haddress, hobject'] at hobject
    rw [← hstring, ← hstring', Option.some.inj hobject]

theorem compatible_of_low {probe : EString}
    (h : probe.hashedUnits.all (fun unit => !EString.isHighLatin1 unit) = true)
    (interner : Interner) : interner.compatible probe := by
  intro e _ hcontent
  have hunits : e.string.hashedUnits = probe.hashedUnits := by
    rw [EString.hashedUnits, hcontent, EString.hashedUnits]
  rw [EString.hashCompatible, hunits, h, Bool.or_true]

/-- The name `"a"` from an 8-bit and from a 16-bit source. -/
theorem interning_is_canonical_ascii :
    ∃ last answers, run step [.fromLChars [0x61], .fromChar16s [0x61]] initial =
        some (last, answers) ∧
      ∀ p q, some p ∈ answers → some q ∈ answers →
        (p.string.content = q.string.content ↔ p.address = q.address) := by
  have hreturns : (run step [.fromLChars [0x61], .fromChar16s [0x61]] initial).isSome = true := by
    decide +kernel
  obtain ⟨⟨last, answers⟩, hrun⟩ := Option.isSome_iff_exists.mp hreturns
  refine ⟨last, answers, hrun, interning_is_canonical _ ?_ hrun⟩
  refine ⟨⟨fun string h => ?_, fun _ h => by cases h⟩, fun next out _ =>
    ⟨⟨fun string h => ?_, fun _ h => by cases h⟩, fun _ _ _ => trivial⟩⟩
  · cases h
    exact compatible_of_low (by decide) _
  · cases h
    exact compatible_of_low (by decide) _

/-- Fill the map until it has 512 buckets, then intern `0xE9` twice from a 16-bit
source. -/
def twiceFromChar16s : List Construction :=
  (List.range 127).map (fun unit => .fromLChars [UInt8.ofNat unit]) ++
    [.fromChar16s [0xE9], .fromChar16s [0xE9]]

theorem run_twiceFromChar16s :
    (run step twiceFromChar16s initial).map (fun result => result.2.drop 127) =
      some [some ⟨128, .latin1 [0xE9]⟩, some ⟨129, .latin1 [0xE9]⟩] := by
  decide +kernel

/-- The second construction of the same name gets another pointer. -/
theorem interning_not_always_canonical : ¬ ∀ (constructions : List Construction) (last : Interner)
      (answers : List (Option StringPointer)),
      run step constructions initial = some (last, answers) →
      ∀ p q, some p ∈ answers → some q ∈ answers →
        (p.string.content = q.string.content ↔ p.address = q.address) := by
  intro hall
  obtain ⟨⟨last, answers⟩, hrun, hdrop⟩ := Option.map_eq_some_iff.mp run_twiceFromChar16s
  have hmem : ∀ answer ∈ answers.drop 127, answer ∈ answers := fun _ h => mem_of_mem_drop h
  rw [show answers.drop 127 = _ from hdrop] at hmem
  have heq := (hall _ last answers hrun ⟨128, .latin1 [0xE9]⟩ ⟨129, .latin1 [0xE9]⟩
    (hmem _ (by decide)) (hmem _ (by decide))).mp rfl
  exact absurd heq (by decide)

end Interner

end Escargot.Runtime
