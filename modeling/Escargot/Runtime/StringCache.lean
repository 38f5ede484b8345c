/-
# String caches

Four caches stand in front of string creation: short Latin-1 buffers for
`String::fromLatin1`, the same keys for interning, and the texts of int32 and of
double numbers. Each has two ways a set and is filled right after a miss. The
compiled patterns of regular expressions sit behind a clock. What the functions
return never depends on what these caches hold.
-/

import Escargot.Foundation.CacheReplacement
import Escargot.Runtime.AtomicString
import Escargot.Runtime.Value

namespace Escargot.Runtime

open List Escargot.Foundation

abbrev SLRUSetCache := TwoWayCache (List UInt8) StringPointer

namespace SLRUSetCache

/-- The set of a key, `computeHash(src, len) & (sets - 1)`. -/
def set (src : List UInt8) : Nat :=
  (AtomicStringLookupCache.computeHash src).toNat % AtomicStringLookupCache.sets

end SLRUSetCache

variable (cache : AtomicStringLookupCache) (src : List UInt8)

theorem AtomicStringLookupCache.lookup_eq :
    cache.lookup src = TwoWayCache.lookup SLRUSetCache.set cache src := by
  have hbase : baseIdx src = SLRUSetCache.set src * 2 := rfl
  rw [AtomicStringLookupCache.lookup, TwoWayCache.lookup, TwoWayCache.way, TwoWayCache.way,
    TwoWayCache.swap, hbase]
  cases hfirst : cache (SLRUSetCache.set src * 2) with
  | none =>
    cases hsecond : cache (SLRUSetCache.set src * 2 + 1) with
    | none => rfl
    | some second =>
      obtain ⟨key', string'⟩ := second
      by_cases hkey' : key' = src
      · simp [hkey']
      · simp [hkey']
  | some first =>
    obtain ⟨key, string⟩ := first
    by_cases hkey : key = src
    · simp [hkey]
    · cases hsecond : cache (SLRUSetCache.set src * 2 + 1) with
      | none => simp [hkey]
      | some second =>
        obtain ⟨key', string'⟩ := second
        by_cases hkey' : key' = src
        · simp [hkey, hkey']
        · simp [hkey, hkey']

theorem AtomicStringLookupCache.insertProbation_eq (string : StringPointer) :
    cache.insertProbation src string =
      TwoWayCache.insertProbation SLRUSetCache.set cache src string := rfl

def computeInt32StringCacheHash (v : Int32) : UInt32 :=
  let x := v.toUInt32
  let x := (x ^^^ (x >>> 16)) * 0x7feb352d
  let x := (x ^^^ (x >>> 15)) * 0x846ca68b
  x ^^^ (x >>> 16)

def computeDoubleStringCacheHash (v : Double) : UInt64 :=
  let v := (v ^^^ (v >>> 33)) * 0xff51afd7ed558ccd
  let v := (v ^^^ (v >>> 33)) * 0xc4ceb9fe1a85ec53
  v ^^^ (v >>> 33)

def int32StringCacheSets : Nat := 128

def doubleStringCacheSets : Nat := 128

def int32StringCacheSet (v : Int32) : Nat :=
  (computeInt32StringCacheHash v).toNat % int32StringCacheSets

def doubleStringCacheSet (v : Double) : Nat :=
  (computeDoubleStringCacheHash v).toNat % doubleStringCacheSets

/-- The loop of the fast `itoa`, which writes digits in front of the buffer. -/
def itoaLoop : Nat → Nat → List UInt8 → List UInt8
  | 0, _, buffer => buffer
  | fuel + 1, absVal, buffer =>
    if 0 < absVal then
      itoaLoop fuel (absVal / 10) (UInt8.ofNat (0x30 + absVal % 10) :: buffer)
    else buffer

/-- The fast `itoa`. The buffer has room for ten digits and a sign. -/
def itoa (v : Int32) : List UInt8 :=
  if v = 0 then [0x30]
  else
    let digits := itoaLoop 10 v.toInt.natAbs []
    if v.toInt < 0 then 0x2D :: digits else digits

/-- Ten rounds end the loop on every absolute value of an int32. -/
theorem itoaLoop_of_lt : ∀ {fuel absVal : Nat}, absVal < 10 ^ fuel → ∀ more buffer,
    itoaLoop (fuel + more) absVal buffer = itoaLoop fuel absVal buffer
  | 0, absVal, hlt, more, buffer => by
      have hzero : absVal = 0 := Nat.lt_one_iff.mp hlt
      subst hzero
      cases more <;> rfl
  | fuel + 1, absVal, hlt, more, buffer => by
      have hdiv : absVal / 10 < 10 ^ fuel := by
        rw [Nat.div_lt_iff_lt_mul (by decide), ← Nat.pow_succ]
        exact hlt
      rw [Nat.succ_add, itoaLoop, itoaLoop, itoaLoop_of_lt hdiv more]

/-- `ESCARGOT_STRINGS_NUMBERS_MAX`. -/
def stringsNumbersMax : Nat := 128

/-- The source text `#num` of a static number. -/
def staticNumber (num : Nat) : List UInt8 := (Nat.toDigits 10 num).map fun c => UInt8.ofNat c.toNat

theorem itoa_eq_staticNumber {v : Int32} (hnonneg : 0 ≤ v.toInt)
    (hlt : v.toInt.toNat < stringsNumbersMax) : itoa v = staticNumber v.toInt.toNat := by
  have htable : ∀ num : Fin stringsNumbersMax,
      itoa (Int32.ofNat num) = staticNumber num := by decide +kernel
  have hv : v = Int32.ofNat v.toInt.toNat := by
    rw [← Int32.toInt_inj, Int32.toInt_ofNat_of_lt]
    · omega
    · exact Nat.lt_trans hlt (by decide)
  have hentry := htable ⟨v.toInt.toNat, hlt⟩
  rw [← hv] at hentry
  exact hentry

/-- The loop of `String::fromLatin1` that looks for a byte other than a digit. -/
def isNumeric : Bool := src.all fun c => 0x30 ≤ c && c ≤ 0x39

/-- The value of a text of digits. -/
def numericValue : Nat := src.foldl (fun val c => val * 10 + (c.toNat - 0x30)) 0

/-- The static number a buffer denotes, `isSmallNumeric` with `val`. -/
def smallNumeric? : Option Nat :=
  if isNumeric src && src.length < 4 && !(1 < src.length && src.head? == some 0x30) &&
      numericValue src < stringsNumbersMax then
    some (numericValue src)
  else none

def digitByte (digit : Fin 10) : UInt8 := UInt8.ofNat (0x30 + digit)

theorem exists_digit {c : UInt8} (hlow : 0x30 ≤ c) (hhigh : c ≤ 0x39) :
    ∃ digit : Fin 10, c = digitByte digit := by
  have htable : ∀ n : Fin 256, 0x30 ≤ UInt8.ofFin n → UInt8.ofFin n ≤ 0x39 →
      ∃ digit : Fin 10, UInt8.ofFin n = digitByte digit := by decide +kernel
  exact EString.forall_uint8 (p := fun c => 0x30 ≤ c → c ≤ 0x39 →
    ∃ digit : Fin 10, c = digitByte digit) htable c hlow hhigh

theorem digitByte_value : ∀ digit : Fin 10, (digitByte digit).toNat - 0x30 = digit := by decide

theorem digitByte_ne_zero : ∀ {digit : Fin 10}, digitByte digit ≠ 0x30 → digit ≠ 0 := by decide

/-- The text of a number below the maximum has its one, two or three digits. -/
theorem staticNumber_digits : (∀ a : Fin 10, staticNumber a = [digitByte a]) ∧
      (∀ a b : Fin 10, a ≠ 0 → staticNumber (a * 10 + b) = [digitByte a, digitByte b]) ∧
      ∀ a b c : Fin 10, a ≠ 0 → (a * 10 + b) * 10 + c < stringsNumbersMax →
        staticNumber ((a * 10 + b) * 10 + c) = [digitByte a, digitByte b, digitByte c] := by
  decide +kernel

theorem staticNumber_of_smallNumeric {src : List UInt8} {num : Nat} (hsrc : src ≠ [])
    (hsmall : smallNumeric? src = some num) : num < stringsNumbersMax ∧ staticNumber num = src := by
  obtain ⟨hone, htwo, hthree⟩ := staticNumber_digits
  rw [smallNumeric?] at hsmall
  split at hsmall
  · rename_i hcond
    cases hsmall
    simp only [Bool.and_eq_true, decide_eq_true_eq] at hcond
    obtain ⟨⟨⟨hnumeric, hlength⟩, hlead⟩, hlt⟩ := hcond
    refine ⟨hlt, ?_⟩
    have hdigit : ∀ c ∈ src, ∃ digit : Fin 10, c = digitByte digit := by
      intro c hc
      have hrange := List.all_eq_true.mp hnumeric c hc
      simp only [Bool.and_eq_true, decide_eq_true_eq] at hrange
      exact exists_digit hrange.1 hrange.2
    match src, hsrc, hlength with
    | [c], _, _ =>
      obtain ⟨a, rfl⟩ := hdigit c (by simp)
      simp only [numericValue, List.foldl, digitByte_value, Nat.zero_mul, Nat.zero_add]
      exact hone a
    | [c, d], _, _ =>
      obtain ⟨a, rfl⟩ := hdigit c (by simp)
      obtain ⟨b, rfl⟩ := hdigit d (by simp)
      have ha : a ≠ 0 := digitByte_ne_zero (by simpa using hlead)
      simp only [numericValue, List.foldl, digitByte_value, Nat.zero_mul, Nat.zero_add]
      exact htwo a b ha
    | [c, d, e], _, _ =>
      obtain ⟨a, rfl⟩ := hdigit c (by simp)
      obtain ⟨b, rfl⟩ := hdigit d (by simp)
      obtain ⟨x, rfl⟩ := hdigit e (by simp)
      have ha : a ≠ 0 := digitByte_ne_zero (by simpa using hlead)
      simp only [numericValue, List.foldl, digitByte_value, Nat.zero_mul, Nat.zero_add] at hlt ⊢
      exact hthree a b x ha hlt
  · cases hsmall

def isAllASCIIAlphanumeric : Bool :=
  src.all fun c => (0x30 ≤ c && c ≤ 0x39) || (0x41 ≤ c && c ≤ 0x5A) || (0x61 ≤ c && c ≤ 0x7A)

/-- The parts of `VMInstance` that string creation reads and writes. The interner
holds `m_atomicStringLookupCache`. -/
structure VMInstance where
  interner : Interner
  numbers : List StringPointer
  smallStringCache : SLRUSetCache
  int32StringCache : TwoWayCache Int32 StringPointer
  doubleStringCache : TwoWayCache Double StringPointer

inductive StringCall
  | construct (construction : Construction)
  | fromLatin1 (src : List UInt8)
  | fromInt32 (v : Int32)
  | fromDouble (v : Double)

namespace VMInstance

/-- `StaticStrings::initStaticStrings`, the part that interns the static numbers. -/
def initStaticNumbers : Nat → Interner × List StringPointer
  | 0 => (.initial, [])
  | num + 1 =>
    let (interner, numbers) := initStaticNumbers num
    match interner.initStaticString (staticNumber num) with
    | some (next, string) => (next, numbers ++ [string])
    | none => (interner, numbers)

def ofStaticStrings (interner : Interner) (numbers : List StringPointer) : VMInstance where
  interner := interner
  numbers := numbers
  smallStringCache := .empty
  int32StringCache := .empty
  doubleStringCache := .empty

/-- A new VM. -/
def initial : VMInstance :=
  ofStaticStrings (initStaticNumbers stringsNumbersMax).1 (initStaticNumbers stringsNumbersMax).2

variable (vm : VMInstance)

/-- `staticStrings().numbers[v].string()`. -/
def number (v : Nat) : StringPointer := vm.numbers.getD v Interner.emptyString

/-- `String::fromLatin1(src, len)`, which knows no cache. -/
def newLatin1 (src : List UInt8) : VMInstance × StringPointer :=
  ({ vm with interner := (vm.interner.fromLatin1 src).1 }, (vm.interner.fromLatin1 src).2)

/-- The string `String::fromLatin1` settles on after a miss: a static number, an
interned name or a new string. -/
def makeShortString (src : List UInt8) : VMInstance × StringPointer :=
  match smallNumeric? src with
  | some val => (vm, vm.number val)
  | none =>
    if !isNumeric src && isAllASCIIAlphanumeric src then
      match vm.interner.find (.latin1 src) with
      | some a => (vm, a)
      | none => vm.newLatin1 src
    else vm.newLatin1 src

def fromLatin1 (src : List UInt8) : VMInstance × StringPointer :=
  if src = [] then (vm, Interner.emptyString)
  else if src.length ≤ AtomicStringLookupCache.maxKeyLength then
    let (cache, hitObj) := vm.smallStringCache.lookup SLRUSetCache.set src
    let vm := { vm with smallStringCache := cache }
    match hitObj with
    | some string => (vm, string)
    | none =>
      let (vm, resultString) := vm.makeShortString src
      ({ vm with smallStringCache :=
          vm.smallStringCache.insertMRU SLRUSetCache.set src resultString }, resultString)
  else vm.newLatin1 src

def fromInt32 (v : Int32) : VMInstance × StringPointer :=
  if 0 ≤ v.toInt ∧ v.toInt.toNat < stringsNumbersMax then (vm, vm.number v.toInt.toNat)
  else
    let (cache, hitObj) := vm.int32StringCache.lookup int32StringCacheSet v
    let vm := { vm with int32StringCache := cache }
    match hitObj with
    | some string => (vm, string)
    | none =>
      let (vm, resultString) := vm.newLatin1 (itoa v)
      ({ vm with int32StringCache :=
          vm.int32StringCache.insertMRU int32StringCacheSet v resultString }, resultString)

variable (dtoa : Double → List UInt8)

/-- `String::fromDouble(v, state)`, for the conversion `dtoa` of the double
conversion library. -/
def fromDouble (vm : VMInstance) (v : Double) : VMInstance × StringPointer :=
  if Double.eq (.ofInt32 v.toInt32Unchecked) v then vm.fromInt32 v.toInt32Unchecked
  else
    let (cache, hitObj) := vm.doubleStringCache.lookup doubleStringCacheSet v
    let vm := { vm with doubleStringCache := cache }
    match hitObj with
    | some string => (vm, string)
    | none =>
      let (vm, resultString) := vm.newLatin1 (dtoa v)
      ({ vm with doubleStringCache :=
          vm.doubleStringCache.insertMRU doubleStringCacheSet v resultString }, resultString)

/-- One call. The answer is the string it returns; `none` when a construction does
not return. -/
def step (vm : VMInstance) : StringCall → Option (VMInstance × Option StringPointer)
  | .construct construction =>
    (vm.interner.step construction).map fun (next, answer) => ({ vm with interner := next }, answer)
  | .fromLatin1 src => some ((vm.fromLatin1 src).1, some (vm.fromLatin1 src).2)
  | .fromInt32 v => some ((vm.fromInt32 v).1, some (vm.fromInt32 v).2)
  | .fromDouble v => some ((vm.fromDouble dtoa v).1, some (vm.fromDouble dtoa v).2)

end VMInstance

namespace Interner

/-- Tags and cached strings have the content they stand for. Unlike `Canonical` this
needs no agreement of hashes. -/
structure Faithful (interner : Interner) : Prop where
  valid : interner.map.Valid StringPointer.hash
  empty_allocated : interner.Allocated emptyString
  tags : ∀ address canonical object, interner.typeTag address = some canonical →
    interner.heap[address]? = some object → object.string.content = canonical.string.content
  tags_allocated : ∀ address, interner.heap.length ≤ address → interner.typeTag address = none
  cached : interner.cache.All fun src string => string.string.content = src.map UInt8.toUInt16

/-- A construction from `content` keeps the strings of the heap and answers with a
string of that content. -/
structure Yields (before after : Interner) (content : List UInt16) (p : StringPointer) :
    Prop where
  faithful : after.Faithful
  heap_mono : ∀ (address : Nat) object, before.heap[address]? = some object →
    after.heap[address]? = some object
  content_eq : p.string.content = content

/-- The string is moreover on the heap. -/
structure Builds (before after : Interner) (content : List UInt16) (p : StringPointer) : Prop
    extends Yields before after content p where
  allocated : after.Allocated p

section Faithful

variable {interner : Interner} {address : Nat}

theorem getElem?_allocate {old : StringObject} (object : StringObject)
    (h : interner.heap[address]? = some old) :
    (interner.allocate object).1.heap[address]? = some old := by
  show (interner.heap ++ [object])[address]? = some old
  rw [getElem?_append_left (List.getElem?_eq_some_iff.mp h).1]
  exact h

section

variable (hfaithful : interner.Faithful)
include hfaithful

theorem builds_allocate (object : StringObject) :
    Builds interner (interner.allocate object).1 object.string.content
      (interner.allocate object).2 := by
  refine ⟨⟨⟨hfaithful.valid, ?_, ?_, ?_, hfaithful.cached⟩,
    fun _ _ h => getElem?_allocate object h, rfl⟩, object, ?_, rfl⟩
  · obtain ⟨old, hold, hstring⟩ := hfaithful.empty_allocated
    exact ⟨old, getElem?_allocate object hold, hstring⟩
  · intro address canonical found htag hfound
    have hlt : address < interner.heap.length := by
      by_contra hge
      have hnone := hfaithful.tags_allocated address (Nat.le_of_not_lt hge)
      rw [show interner.typeTag address = some canonical from htag] at hnone
      cases hnone
    refine hfaithful.tags address canonical found htag ?_
    rwa [allocate, getElem?_append_left hlt] at hfound
  · intro address haddress
    apply hfaithful.tags_allocated
    rw [allocate, length_append] at haddress
    omega
  · rw [allocate, getElem?_concat_length]

theorem builds_fromLatin1 (src : List UInt8) :
    Builds interner (interner.fromLatin1 src).1 (src.map UInt8.toUInt16)
      (interner.fromLatin1 src).2 := by
  rw [fromLatin1]
  split
  · rename_i hnil
    subst hnil
    exact ⟨⟨hfaithful, fun _ _ h => h, rfl⟩, hfaithful.empty_allocated⟩
  · exact builds_allocate hfaithful ⟨.latin1 src, false⟩

theorem builds_copyOf (data : StringBufferAccessData) :
    Builds interner (interner.copyOf data).1 data.units (interner.copyOf data).2 := by
  cases data with
  | bufferAs8Bit buffer => exact builds_fromLatin1 hfaithful buffer
  | bufferAs16Bit buffer => exact builds_allocate hfaithful ⟨.utf16 buffer, false⟩

variable {object : StringObject}

theorem Builds.of_self (hobject : interner.heap[address]? = some object) :
    Builds interner interner object.string.content ⟨address, object.string⟩ :=
  ⟨⟨hfaithful, fun _ _ h => h, rfl⟩, object, hobject, rfl⟩

theorem Faithful.setTag {canonical : StringPointer}
    (hobject : interner.heap[address]? = some object)
    (hcontent : object.string.content = canonical.string.content) :
    (interner.setTag address canonical).Faithful := by
  refine ⟨hfaithful.valid, hfaithful.empty_allocated, ?_, ?_, hfaithful.cached⟩
  · intro other tag found htag hfound
    by_cases hother : other = address
    · subst hother
      rw [typeTag_setTag_self] at htag
      cases htag
      rw [← hcontent, Option.some.inj (hobject.symm.trans hfound)]
    · rw [typeTag_setTag_of_ne _ hother] at htag
      exact hfaithful.tags other tag found htag hfound
  · intro other hother
    have hne : other ≠ address := by
      rintro rfl
      exact absurd (List.getElem?_eq_some_iff.mp hobject).1 (Nat.not_lt.mpr hother)
    rw [typeTag_setTag_of_ne _ hne]
    exact hfaithful.tags_allocated other hother

end

variable {before after : Interner} {content : List UInt16} {p : StringPointer}

theorem Yields.setTag (hyields : Yields before after content p)
    (hobject : before.heap[address]? = some object) (hcontent : object.string.content = content) :
    Yields before (after.setTag address p) content p :=
  ⟨hyields.faithful.setTag (hyields.heap_mono _ _ hobject)
      (hcontent.trans hyields.content_eq.symm), hyields.heap_mono, hyields.content_eq⟩

theorem Builds.setTag_self (hbuilds : Builds before after content p) :
    Builds before (after.setTag p.address p) content p := by
  obtain ⟨object, hobject, hstring⟩ := hbuilds.allocated
  exact ⟨⟨hbuilds.faithful.setTag hobject (by rw [hstring]), hbuilds.heap_mono,
    hbuilds.content_eq⟩, object, hobject, hstring⟩

variable {next : Interner}

theorem Builds.insert (hbuilds : Builds before after content p)
    (hinsert : after.insert p = some next) :
    Builds before next content p := by
  rw [Interner.insert, Option.map_eq_some_iff] at hinsert
  obtain ⟨map, hmap, rfl⟩ := hinsert
  obtain ⟨hvalid, -⟩ := hbuilds.faithful.valid.insert_spec hmap
  exact ⟨⟨⟨hvalid, hbuilds.faithful.empty_allocated, hbuilds.faithful.tags,
    hbuilds.faithful.tags_allocated, hbuilds.faithful.cached⟩, hbuilds.heap_mono,
    hbuilds.content_eq⟩, hbuilds.allocated⟩

section

variable (hfaithful : interner.Faithful)
include hfaithful

theorem yields_of_find {probe : EString} {found : StringPointer}
    (hfind : interner.find probe = some found) : Yields interner interner probe.content found := by
  obtain ⟨hhit, -⟩ := hfaithful.valid.find_sound hfind
  exact ⟨hfaithful, fun _ _ h => h, (EString.equals_iff _ _).mp hhit⟩

theorem yields_of_tag (hobject : interner.heap[address]? = some object)
    {canonical : StringPointer} (htag : interner.typeTag address = some canonical) :
    Yields interner interner object.string.content canonical :=
  ⟨hfaithful, fun _ _ h => h, (hfaithful.tags address canonical object htag hobject).symm⟩

theorem initWith_yields {probe : EString} {make : Interner → Interner × StringPointer}
    (hmake : Builds interner (make interner).1 probe.content (make interner).2) {tagsNew : Bool}
    (hinit : interner.initWith probe make tagsNew = some (next, p)) :
    Yields interner next probe.content p := by
  rw [initWith] at hinit
  split at hinit
  · rename_i found hfind
    cases hinit
    exact yields_of_find hfaithful hfind
  · dsimp only at hinit
    split at hinit
    · cases hinit
    · rename_i inserted hinsert
      cases hinit
      have hbuilds := hmake.insert hinsert
      split
      · exact hbuilds.setTag_self.toYields
      · exact hbuilds.toYields

theorem initChar16s_yields {src : List UInt16} (hinit : interner.initChar16s src = some (next, p)) :
    Yields interner next src p := by
  refine initWith_yields hfaithful ?_ hinit
  split
  · rename_i hall
    have hbuilds := builds_fromLatin1 hfaithful (src.map UInt16.toUInt8)
    rwa [map_toUInt8_of_isAllLatin1 hall] at hbuilds
  · exact builds_allocate hfaithful ⟨.utf16 src, false⟩

theorem initStringView_yields (hobject : interner.heap[address]? = some object)
    (hinit : interner.initStringView address object = some (next, p)) :
    Yields interner next object.string.content p := by
  rw [initStringView] at hinit
  cases htag : interner.typeTag address with
  | some canonical =>
    rw [htag] at hinit
    cases hinit
    exact yields_of_tag hfaithful hobject htag
  | none =>
    rw [htag] at hinit
    obtain ⟨⟨middle, string⟩, hwith, hnext⟩ := Option.map_eq_some_iff.mp hinit
    cases hnext
    have hyields := initWith_yields hfaithful
      (builds_copyOf hfaithful object.string.bufferAccessData) hwith
    exact hyields.setTag hobject rfl

theorem initString_yields (hobject : interner.heap[address]? = some object)
    (hinit : interner.initString address object = some (next, p)) :
    Yields interner next object.string.content p := by
  rw [initString] at hinit
  cases htag : interner.typeTag address with
  | some canonical =>
    rw [htag] at hinit
    cases hinit
    exact yields_of_tag hfaithful hobject htag
  | none =>
    rw [htag] at hinit
    dsimp only at hinit
    split at hinit
    · rename_i found hfind
      cases hinit
      exact (yields_of_find hfaithful hfind).setTag hobject rfl
    · have hbuilds : Builds interner
          (if object.isCopied then interner.copyOf object.string.bufferAccessData
            else (interner, ⟨address, object.string⟩)).1 object.string.content
          (if object.isCopied then interner.copyOf object.string.bufferAccessData
            else (interner, ⟨address, object.string⟩)).2 := by
        split
        · exact builds_copyOf hfaithful object.string.bufferAccessData
        · exact Builds.of_self hfaithful hobject
      split at hinit
      · cases hinit
      · rename_i inserted hinsert
        cases hinit
        exact (hbuilds.insert hinsert).setTag_self.toYields

theorem Faithful.withCache {cache : AtomicStringLookupCache}
    (hcache : cache.All fun src string => string.string.content = src.map UInt8.toUInt16) :
    Faithful { interner with cache := cache } :=
  ⟨hfaithful.valid, hfaithful.empty_allocated, hfaithful.tags, hfaithful.tags_allocated, hcache⟩

/-- A hit of the lookup cache has the content of the key, and after a miss the cache
receives the string that the map gave. -/
theorem initContextString_yields (hobject : interner.heap[address]? = some object)
    (hinit : interner.initContextString address object = some (next, p)) :
    Yields interner next object.string.content p := by
  rw [initContextString] at hinit
  cases htag : interner.typeTag address with
  | some canonical =>
    rw [htag] at hinit
    cases hinit
    exact yields_of_tag hfaithful hobject htag
  | none =>
    rw [htag] at hinit
    cases hdata : object.string.bufferAccessData with
    | bufferAs16Bit buffer =>
      rw [hdata] at hinit
      exact initString_yields hfaithful hobject hinit
    | bufferAs8Bit buffer =>
      rw [hdata] at hinit
      dsimp only at hinit
      have hcontent : object.string.content = buffer.map UInt8.toUInt16 := by
        rw [EString.content, hdata]
        rfl
      obtain ⟨hall, hhit⟩ := AtomicStringLookupCache.All.lookup hfaithful.cached buffer
      have hfaithful' := hfaithful.withCache hall
      split at hinit
      · split at hinit
        · rename_i string hstring
          cases hinit
          exact ⟨hfaithful', fun _ _ h => h, (hhit _ hstring).trans hcontent.symm⟩
        · obtain ⟨⟨middle, string⟩, hstring, hnext⟩ := Option.map_eq_some_iff.mp hinit
          cases hnext
          have hyields := initString_yields hfaithful' hobject hstring
          refine ⟨hyields.faithful.withCache ?_, hyields.heap_mono, hyields.content_eq⟩
          exact hyields.faithful.cached.insertProbation (hyields.content_eq.trans hcontent)
      · exact initString_yields hfaithful hobject hinit

theorem initStaticString_builds {src : List UInt8}
    (hinit : interner.initStaticString src = some (next, p)) :
    Builds interner next (src.map UInt8.toUInt16) p := by
  rw [initStaticString] at hinit
  dsimp only at hinit
  split at hinit
  · cases hinit
  · rename_i inserted hinsert
    cases hinit
    exact ((builds_allocate hfaithful ⟨.latin1 src, false⟩).insert hinsert).setTag_self

end

/-- The code units a construction is made from. -/
def sourceContent (interner : Interner) : Construction → Option (List UInt16)
  | .newString _ => none
  | .fromChars src | .fromExternalMemory src | .fromLChars src | .initStaticString src =>
    some (src.map UInt8.toUInt16)
  | .fromChar16s src => some src
  | .fromParserStringView source start length => some (EString.view source start length).content
  | .fromStringView address | .fromMapString address | .fromContextString address =>
    interner.heap[address]?.map fun object => object.string.content

theorem step_faithful {construction : Construction} {answer : Option StringPointer}
    (hfaithful : interner.Faithful) (hstep : interner.step construction = some (next, answer)) :
    next.Faithful ∧
      answer.map (fun p => p.string.content) = interner.sourceContent construction := by
  have hyields : ∀ {init : Option (Interner × StringPointer)} {content : List UInt16},
      (∀ {after p}, init = some (after, p) → Yields interner after content p) →
      init.map (fun r => (r.1, some r.2)) = some (next, answer) →
      next.Faithful ∧ answer.map (fun p => p.string.content) = some content := by
    intro init content hinit hmap
    obtain ⟨⟨after, p⟩, hafter, hnext⟩ := Option.map_eq_some_iff.mp hmap
    cases hnext
    exact ⟨(hinit hafter).faithful, congrArg some (hinit hafter).content_eq⟩
  cases construction with
  | newString object =>
    cases hstep
    exact ⟨(builds_allocate hfaithful object).faithful, rfl⟩
  | fromChars src =>
    exact hyields (initWith_yields hfaithful (builds_fromLatin1 hfaithful src)) hstep
  | fromExternalMemory src =>
    exact hyields (initWith_yields hfaithful
      (builds_allocate hfaithful ⟨.latin1 src, false⟩)) hstep
  | fromLChars src =>
    exact hyields (initWith_yields hfaithful
      (builds_allocate hfaithful ⟨.latin1 src, false⟩)) hstep
  | fromChar16s src => exact hyields (initChar16s_yields hfaithful) hstep
  | fromParserStringView source start length =>
    exact hyields (initWith_yields hfaithful
      (builds_copyOf hfaithful (EString.view source start length).bufferAccessData)) hstep
  | fromStringView address =>
    rw [step] at hstep
    split at hstep
    · cases hstep
    · rename_i object hobject
      rw [sourceContent, hobject]
      exact hyields (initStringView_yields hfaithful hobject) hstep
  | fromMapString address =>
    rw [step] at hstep
    split at hstep
    · cases hstep
    · rename_i object hobject
      rw [sourceContent, hobject]
      exact hyields (initString_yields hfaithful hobject) hstep
  | fromContextString address =>
    rw [step] at hstep
    split at hstep
    · cases hstep
    · rename_i object hobject
      rw [sourceContent, hobject]
      exact hyields (initContextString_yields hfaithful hobject) hstep
  | initStaticString src =>
    exact hyields (fun h => (initStaticString_builds hfaithful h).toYields) hstep

end Faithful

section Cache

variable {interner next : Interner} {p : StringPointer}

theorem cache_fromLatin1 (src : List UInt8) :
    (interner.fromLatin1 src).1.cache = interner.cache := by
  rw [fromLatin1]
  split <;> rfl

theorem cache_copyOf (data : StringBufferAccessData) :
    (interner.copyOf data).1.cache = interner.cache := by
  cases data with
  | bufferAs8Bit buffer => exact cache_fromLatin1 buffer
  | bufferAs16Bit buffer => rfl

theorem cache_insert (hinsert : interner.insert p = some next) : next.cache = interner.cache := by
  rw [insert, Option.map_eq_some_iff] at hinsert
  obtain ⟨map, -, rfl⟩ := hinsert
  rfl

theorem cache_initWith {probe : EString} {make : Interner → Interner × StringPointer}
    (hmake : (make interner).1.cache = interner.cache) {tagsNew : Bool}
    (hinit : interner.initWith probe make tagsNew = some (next, p)) :
    next.cache = interner.cache := by
  rw [initWith] at hinit
  split at hinit
  · cases hinit
    rfl
  · dsimp only at hinit
    split at hinit
    · cases hinit
    · rename_i inserted hinsert
      cases hinit
      rw [← hmake, ← cache_insert hinsert]
      split <;> rfl

variable {object : StringObject}

theorem cache_initStringView {address : Nat}
    (hinit : interner.initStringView address object = some (next, p)) :
    next.cache = interner.cache := by
  rw [initStringView] at hinit
  split at hinit
  · cases hinit
    rfl
  · obtain ⟨⟨middle, string⟩, hwith, hnext⟩ := Option.map_eq_some_iff.mp hinit
    cases hnext
    show middle.cache = interner.cache
    exact cache_initWith (cache_copyOf _) hwith

theorem cache_initString {address : Nat}
    (hinit : interner.initString address object = some (next, p)) :
    next.cache = interner.cache := by
  rw [initString] at hinit
  split at hinit
  · cases hinit
    rfl
  · split at hinit
    · cases hinit
      rfl
    · have hmade : (if object.isCopied then interner.copyOf object.string.bufferAccessData
          else (interner, ⟨address, object.string⟩)).1.cache = interner.cache := by
        split
        · exact cache_copyOf _
        · rfl
      dsimp only at hinit
      split at hinit
      · cases hinit
      · rename_i inserted hinsert
        cases hinit
        exact (cache_insert hinsert).trans hmade

theorem cache_initStaticString {src : List UInt8}
    (hinit : interner.initStaticString src = some (next, p)) : next.cache = interner.cache := by
  rw [initStaticString] at hinit
  dsimp only at hinit
  split at hinit
  · cases hinit
  · rename_i inserted hinsert
    cases hinit
    show inserted.cache = (interner.allocate ⟨.latin1 src, false⟩).1.cache
    exact cache_insert hinsert

/-- The only user of the cache puts a string there right after its key missed. -/
theorem inUse_initContextString (hcache : TwoWayCache.InUse SLRUSetCache.set interner.cache)
    {address : Nat} (hinit : interner.initContextString address object = some (next, p)) :
    TwoWayCache.InUse SLRUSetCache.set next.cache := by
  rw [initContextString] at hinit
  split at hinit
  · cases hinit
    exact hcache
  · split at hinit
    · rename_i buffer hbuffer
      split at hinit
      · dsimp only at hinit
        split at hinit
        · cases hinit
          rw [AtomicStringLookupCache.lookup_eq]
          exact hcache.lookup buffer
        · rename_i hmiss
          obtain ⟨⟨middle, string⟩, hstring, hnext⟩ := Option.map_eq_some_iff.mp hinit
          cases hnext
          rw [AtomicStringLookupCache.lookup_eq] at hmiss hstring
          have hmiddle := cache_initString hstring
          rw [TwoWayCache.lookup_of_miss hmiss] at hmiddle
          rw [AtomicStringLookupCache.insertProbation_eq, show middle.cache = _ from hmiddle]
          exact hcache.insertProbation hmiss string
      · rw [cache_initString hinit]
        exact hcache
    · rw [cache_initString hinit]
      exact hcache

theorem step_inUse (hcache : TwoWayCache.InUse SLRUSetCache.set interner.cache)
    {construction : Construction} {answer : Option StringPointer}
    (hstep : interner.step construction = some (next, answer)) :
    TwoWayCache.InUse SLRUSetCache.set next.cache := by
  have hinUse : ∀ {init : Option (Interner × StringPointer)},
      (∀ {after p}, init = some (after, p) → TwoWayCache.InUse SLRUSetCache.set after.cache) →
      init.map (fun r => (r.1, some r.2)) = some (next, answer) →
      TwoWayCache.InUse SLRUSetCache.set next.cache := by
    intro init hinit hmap
    obtain ⟨⟨after, p⟩, hafter, hnext⟩ := Option.map_eq_some_iff.mp hmap
    cases hnext
    exact hinit hafter
  have hkept : ∀ {after : Interner}, after.cache = interner.cache →
      TwoWayCache.InUse SLRUSetCache.set after.cache := by
    intro after hafter
    rw [hafter]
    exact hcache
  cases construction with
  | newString object =>
    cases hstep
    exact hcache
  | fromChars src => exact hinUse (fun h => hkept (cache_initWith (cache_fromLatin1 src) h)) hstep
  | fromExternalMemory src => exact hinUse (fun h => hkept (cache_initWith rfl h)) hstep
  | fromLChars src => exact hinUse (fun h => hkept (cache_initWith rfl h)) hstep
  | fromChar16s src =>
    have hmake : (if isAllLatin1 src then interner.fromLatin1 (src.map UInt16.toUInt8)
        else interner.allocate ⟨.utf16 src, false⟩).1.cache = interner.cache := by
      split
      · exact cache_fromLatin1 _
      · rfl
    exact hinUse (fun h => hkept (cache_initWith hmake h)) hstep
  | fromParserStringView source start length =>
    exact hinUse (fun h => hkept (cache_initWith (cache_copyOf _) h)) hstep
  | fromStringView address =>
    rw [step] at hstep
    split at hstep
    · cases hstep
    · exact hinUse (fun h => hkept (cache_initStringView h)) hstep
  | fromMapString address =>
    rw [step] at hstep
    split at hstep
    · cases hstep
    · exact hinUse (fun h => hkept (cache_initString h)) hstep
  | fromContextString address =>
    rw [step] at hstep
    split at hstep
    · cases hstep
    · exact hinUse (inUse_initContextString hcache) hstep
  | initStaticString src => exact hinUse (fun h => hkept (cache_initStaticString h)) hstep

end Cache

theorem faithful_initial : initial.Faithful := by
  have hcan := canonical_initial
  exact ⟨hcan.valid, hcan.allocated _ hcan.empty_stored,
    fun address canonical object htag hobject => (hcan.tags address canonical htag).2 object hobject,
    hcan.tags_allocated, fun i src string h => (hcan.cached i src string h).2⟩

end Interner

namespace VMInstance

variable (dtoa : Double → List UInt8)

/-- Every cached string has the content of its key. -/
structure Transparent (vm : VMInstance) : Prop where
  interner : vm.interner.Faithful
  numbers : ∀ v < stringsNumbersMax,
    (vm.number v).string.content = (staticNumber v).map UInt8.toUInt16
  smallStringCache : vm.smallStringCache.All fun src string =>
    string.string.content = src.map UInt8.toUInt16
  int32StringCache : vm.int32StringCache.All fun v string =>
    string.string.content = (itoa v).map UInt8.toUInt16
  doubleStringCache : vm.doubleStringCache.All fun v string =>
    string.string.content = (dtoa v).map UInt8.toUInt16

def Returns (result : VMInstance × StringPointer) (bytes : List UInt8) : Prop :=
  result.1.Transparent dtoa ∧ result.2.string.content = bytes.map UInt8.toUInt16

section Transparent

variable {dtoa} {vm : VMInstance}

theorem newLatin1_returns (hvm : vm.Transparent dtoa) (src : List UInt8) :
    Returns dtoa (vm.newLatin1 src) src := by
  have hbuilds := Interner.builds_fromLatin1 hvm.interner src
  exact ⟨⟨hbuilds.faithful, hvm.numbers, hvm.smallStringCache, hvm.int32StringCache,
    hvm.doubleStringCache⟩, hbuilds.content_eq⟩

theorem makeShortString_returns (hvm : vm.Transparent dtoa) {src : List UInt8} (hsrc : src ≠ []) :
    Returns dtoa (vm.makeShortString src) src := by
  rw [makeShortString]
  split
  · rename_i val hsmall
    obtain ⟨hlt, htext⟩ := staticNumber_of_smallNumeric hsrc hsmall
    refine ⟨hvm, ?_⟩
    rw [hvm.numbers val hlt, htext]
  · split
    · split
      · rename_i a hfind
        exact ⟨hvm, (Interner.yields_of_find hvm.interner hfind).content_eq⟩
      · exact newLatin1_returns hvm src
    · exact newLatin1_returns hvm src

theorem fromLatin1_returns (hvm : vm.Transparent dtoa) (src : List UInt8) :
    Returns dtoa (vm.fromLatin1 src) src := by
  rw [fromLatin1]
  split
  · rename_i hnil
    subst hnil
    exact ⟨hvm, rfl⟩
  · rename_i hsrc
    split
    · obtain ⟨hcache, hhit⟩ := hvm.smallStringCache.lookup SLRUSetCache.set src
      have hlooked : Transparent dtoa { vm with
          smallStringCache := (vm.smallStringCache.lookup SLRUSetCache.set src).1 } :=
        ⟨hvm.interner, hvm.numbers, hcache, hvm.int32StringCache, hvm.doubleStringCache⟩
      dsimp only
      split
      · rename_i string hstring
        exact ⟨hlooked, hhit string hstring⟩
      · obtain ⟨hmade, hcontent⟩ := makeShortString_returns hlooked hsrc
        exact ⟨⟨hmade.interner, hmade.numbers, hmade.smallStringCache.insert hcontent .mru,
          hmade.int32StringCache, hmade.doubleStringCache⟩, hcontent⟩
    · exact newLatin1_returns hvm src

theorem fromInt32_returns (hvm : vm.Transparent dtoa) (v : Int32) :
    Returns dtoa (vm.fromInt32 v) (itoa v) := by
  rw [fromInt32]
  split
  · rename_i hsmall
    refine ⟨hvm, ?_⟩
    rw [hvm.numbers _ hsmall.2, itoa_eq_staticNumber hsmall.1 hsmall.2]
  · obtain ⟨hcache, hhit⟩ := hvm.int32StringCache.lookup int32StringCacheSet v
    have hlooked : Transparent dtoa { vm with
        int32StringCache := (vm.int32StringCache.lookup int32StringCacheSet v).1 } :=
      ⟨hvm.interner, hvm.numbers, hvm.smallStringCache, hcache, hvm.doubleStringCache⟩
    dsimp only
    split
    · rename_i string hstring
      exact ⟨hlooked, hhit string hstring⟩
    · obtain ⟨hmade, hcontent⟩ := newLatin1_returns hlooked (itoa v)
      exact ⟨⟨hmade.interner, hmade.numbers, hmade.smallStringCache,
        hmade.int32StringCache.insert hcontent .mru, hmade.doubleStringCache⟩, hcontent⟩

/-- The text of a double: integers in the range of int32 take the fast path. -/
def doubleText (dtoa : Double → List UInt8) (v : Double) : List UInt8 :=
  if Double.eq (.ofInt32 v.toInt32Unchecked) v then itoa v.toInt32Unchecked else dtoa v

theorem fromDouble_returns (hvm : vm.Transparent dtoa) (v : Double) :
    Returns dtoa (vm.fromDouble dtoa v) (doubleText dtoa v) := by
  rw [fromDouble, doubleText]
  split
  · exact fromInt32_returns hvm _
  · obtain ⟨hcache, hhit⟩ := hvm.doubleStringCache.lookup doubleStringCacheSet v
    have hlooked : Transparent dtoa { vm with
        doubleStringCache := (vm.doubleStringCache.lookup doubleStringCacheSet v).1 } :=
      ⟨hvm.interner, hvm.numbers, hvm.smallStringCache, hvm.int32StringCache, hcache⟩
    dsimp only
    split
    · rename_i string hstring
      exact ⟨hlooked, hhit string hstring⟩
    · obtain ⟨hmade, hcontent⟩ := newLatin1_returns hlooked (dtoa v)
      exact ⟨⟨hmade.interner, hmade.numbers, hmade.smallStringCache, hmade.int32StringCache,
        hmade.doubleStringCache.insert hcontent .mru⟩, hcontent⟩

end Transparent

/-- The content a call returns when nothing is cached. -/
def uncachedContent (vm : VMInstance) : StringCall → Option (List UInt16)
  | .construct construction => vm.interner.sourceContent construction
  | .fromLatin1 src => some (src.map UInt8.toUInt16)
  | .fromInt32 v => some ((itoa v).map UInt8.toUInt16)
  | .fromDouble v => some ((doubleText dtoa v).map UInt8.toUInt16)

theorem step_transparent {vm next : VMInstance} {call : StringCall}
    {answer : Option StringPointer} (hvm : vm.Transparent dtoa)
    (hstep : vm.step dtoa call = some (next, answer)) :
    next.Transparent dtoa ∧
      answer.map (fun p => p.string.content) = vm.uncachedContent dtoa call := by
  cases call with
  | construct construction =>
    obtain ⟨⟨after, p⟩, hinterner, hnext⟩ := Option.map_eq_some_iff.mp hstep
    cases hnext
    obtain ⟨hfaithful, hcontent⟩ := Interner.step_faithful hvm.interner hinterner
    exact ⟨⟨hfaithful, hvm.numbers, hvm.smallStringCache, hvm.int32StringCache,
      hvm.doubleStringCache⟩, hcontent⟩
  | fromLatin1 src =>
    cases hstep
    obtain ⟨hnext, hcontent⟩ := fromLatin1_returns hvm src
    exact ⟨hnext, congrArg some hcontent⟩
  | fromInt32 v =>
    cases hstep
    obtain ⟨hnext, hcontent⟩ := fromInt32_returns hvm v
    exact ⟨hnext, congrArg some hcontent⟩
  | fromDouble v =>
    cases hstep
    obtain ⟨hnext, hcontent⟩ := fromDouble_returns hvm v
    exact ⟨hnext, congrArg some hcontent⟩

variable {interner : Interner}

theorem initStaticString_size (hfaithful : interner.Faithful)
    (hsize : interner.map.size ≤ RobinTable.distanceLimit) (src : List UInt8) :
    ∃ next p, interner.initStaticString src = some (next, p) ∧
      next.map.size ≤ interner.map.size + 1 := by
  have hbuilds := Interner.builds_allocate hfaithful ⟨.latin1 src, false⟩
  obtain ⟨map, hmap⟩ := Option.isSome_iff_exists.mp
    (@RobinTable.Valid.insert_isSome _ _ _ hbuilds.faithful.valid
      (StringPointer.equals (.latin1 src)) (interner.allocate ⟨.latin1 src, false⟩).2 hsize)
  have hinsert : (interner.allocate ⟨.latin1 src, false⟩).1.insert
      (interner.allocate ⟨.latin1 src, false⟩).2 =
      some { (interner.allocate ⟨.latin1 src, false⟩).1 with map := map } := by
    exact congrArg (Option.map _) hmap
  have hsmall : map.size ≤ interner.map.size + 1 := hbuilds.faithful.valid.insert_size_le hmap
  refine ⟨Interner.setTag { (interner.allocate ⟨.latin1 src, false⟩).1 with map := map }
      (interner.allocate ⟨.latin1 src, false⟩).2.address (interner.allocate ⟨.latin1 src, false⟩).2,
    (interner.allocate ⟨.latin1 src, false⟩).2, ?_, hsmall⟩
  rw [Interner.initStaticString]
  dsimp only
  rw [hinsert]

theorem initStaticNumbers_spec : ∀ {num : Nat}, num ≤ RobinTable.distanceLimit →
    (initStaticNumbers num).1.Faithful ∧ (initStaticNumbers num).1.map.size ≤ num + 1 ∧
      (initStaticNumbers num).2.length = num ∧
      ∀ v < num, ((initStaticNumbers num).2.getD v Interner.emptyString).string.content =
        (staticNumber v).map UInt8.toUInt16
  | 0, _ => by
      refine ⟨Interner.faithful_initial, ?_, rfl, fun v hv => absurd hv (Nat.not_lt_zero v)⟩
      decide +kernel
  | num + 1, hnum => by
      obtain ⟨hfaithful, hsize, hlength, hcontent⟩ :=
        @initStaticNumbers_spec num (Nat.le_of_succ_le hnum)
      obtain ⟨next, p, hinit, hnext⟩ :=
        initStaticString_size hfaithful (hsize.trans hnum) (staticNumber num)
      have hbuilds := Interner.initStaticString_builds hfaithful hinit
      have heq : initStaticNumbers (num + 1) = (next, (initStaticNumbers num).2 ++ [p]) := by
        rw [initStaticNumbers]
        dsimp only
        rw [hinit]
      rw [heq]
      refine ⟨hbuilds.faithful, by dsimp only; omega, ?_, fun v hv => ?_⟩
      · rw [length_append, hlength]
        rfl
      · rcases Nat.lt_succ_iff_lt_or_eq.mp hv with hlt | rfl
        · rw [getD_append _ _ _ _ (by rwa [hlength])]
          exact hcontent v hlt
        · rw [getD_append_right _ _ _ _ (by rw [hlength]), hlength, Nat.sub_self]
          exact hbuilds.content_eq

theorem transparent_ofStaticStrings {numbers : List StringPointer} (hfaithful : interner.Faithful)
    (hcontent : ∀ v < stringsNumbersMax, (numbers.getD v Interner.emptyString).string.content =
      (staticNumber v).map UInt8.toUInt16) :
    (ofStaticStrings interner numbers).Transparent dtoa :=
  ⟨hfaithful, hcontent, TwoWayCache.all_empty, TwoWayCache.all_empty, TwoWayCache.all_empty⟩

theorem transparent_initial : initial.Transparent dtoa := by
  obtain ⟨hfaithful, -, -, hcontent⟩ := @initStaticNumbers_spec stringsNumbersMax (by decide)
  exact transparent_ofStaticStrings dtoa hfaithful hcontent

/-- Every cache is filled only after a miss. -/
structure InUse (vm : VMInstance) : Prop where
  atomicStringLookupCache : TwoWayCache.InUse SLRUSetCache.set vm.interner.cache
  smallStringCache : TwoWayCache.InUse SLRUSetCache.set vm.smallStringCache
  int32StringCache : TwoWayCache.InUse int32StringCacheSet vm.int32StringCache
  doubleStringCache : TwoWayCache.InUse doubleStringCacheSet vm.doubleStringCache

section InUse

variable {dtoa} {vm : VMInstance}

theorem InUse.newLatin1 (hvm : vm.InUse) (src : List UInt8) : (vm.newLatin1 src).1.InUse := by
  refine ⟨?_, hvm.smallStringCache, hvm.int32StringCache, hvm.doubleStringCache⟩
  show TwoWayCache.InUse SLRUSetCache.set (vm.interner.fromLatin1 src).1.cache
  rw [Interner.cache_fromLatin1]
  exact hvm.atomicStringLookupCache

theorem InUse.makeShortString (hvm : vm.InUse) (src : List UInt8) :
    (vm.makeShortString src).1.InUse := by
  rw [VMInstance.makeShortString]
  split
  · exact hvm
  · split
    · split
      · exact hvm
      · exact hvm.newLatin1 src
    · exact hvm.newLatin1 src

theorem InUse.fromLatin1 (hvm : vm.InUse) (src : List UInt8) : (vm.fromLatin1 src).1.InUse := by
  rw [VMInstance.fromLatin1]
  split
  · exact hvm
  · split
    · have hlooked : InUse { vm with
          smallStringCache := (vm.smallStringCache.lookup SLRUSetCache.set src).1 } :=
        ⟨hvm.atomicStringLookupCache, hvm.smallStringCache.lookup src, hvm.int32StringCache,
          hvm.doubleStringCache⟩
      dsimp only
      split
      · exact hlooked
      · have hmade := hlooked.makeShortString src
        exact ⟨hmade.atomicStringLookupCache, hmade.smallStringCache.insertMRU src _,
          hmade.int32StringCache, hmade.doubleStringCache⟩
    · exact hvm.newLatin1 src

theorem InUse.fromInt32 (hvm : vm.InUse) (v : Int32) : (vm.fromInt32 v).1.InUse := by
  rw [VMInstance.fromInt32]
  split
  · exact hvm
  · have hlooked : InUse { vm with
        int32StringCache := (vm.int32StringCache.lookup int32StringCacheSet v).1 } :=
      ⟨hvm.atomicStringLookupCache, hvm.smallStringCache, hvm.int32StringCache.lookup v,
        hvm.doubleStringCache⟩
    dsimp only
    split
    · exact hlooked
    · have hmade := hlooked.newLatin1 (itoa v)
      exact ⟨hmade.atomicStringLookupCache, hmade.smallStringCache,
        hmade.int32StringCache.insertMRU v _, hmade.doubleStringCache⟩

theorem InUse.fromDouble (hvm : vm.InUse) (v : Double) : (vm.fromDouble dtoa v).1.InUse := by
  rw [VMInstance.fromDouble]
  split
  · exact hvm.fromInt32 _
  · have hlooked : InUse { vm with
        doubleStringCache := (vm.doubleStringCache.lookup doubleStringCacheSet v).1 } :=
      ⟨hvm.atomicStringLookupCache, hvm.smallStringCache, hvm.int32StringCache,
        hvm.doubleStringCache.lookup v⟩
    dsimp only
    split
    · exact hlooked
    · have hmade := hlooked.newLatin1 (dtoa v)
      exact ⟨hmade.atomicStringLookupCache, hmade.smallStringCache, hmade.int32StringCache,
        hmade.doubleStringCache.insertMRU v _⟩

theorem InUse.step (hvm : vm.InUse) {call : StringCall} {next : VMInstance}
    {answer : Option StringPointer} (hstep : vm.step dtoa call = some (next, answer)) :
    next.InUse := by
  cases call with
  | construct construction =>
    obtain ⟨⟨after, p⟩, hinterner, hnext⟩ := Option.map_eq_some_iff.mp hstep
    cases hnext
    exact ⟨Interner.step_inUse hvm.atomicStringLookupCache hinterner, hvm.smallStringCache,
      hvm.int32StringCache, hvm.doubleStringCache⟩
  | fromLatin1 src =>
    cases hstep
    exact hvm.fromLatin1 src
  | fromInt32 v =>
    cases hstep
    exact hvm.fromInt32 v
  | fromDouble v =>
    cases hstep
    exact hvm.fromDouble v

end InUse

theorem cache_initStaticNumbers : ∀ num : Nat, (initStaticNumbers num).1.cache = TwoWayCache.empty
  | 0 => rfl
  | num + 1 => by
      rw [initStaticNumbers]
      dsimp only
      split
      · rename_i next p hinit
        exact (Interner.cache_initStaticString hinit).trans (cache_initStaticNumbers num)
      · exact cache_initStaticNumbers num

theorem inUse_ofStaticStrings (numbers : List StringPointer)
    (hcache : interner.cache = TwoWayCache.empty) : (ofStaticStrings interner numbers).InUse := by
  refine ⟨?_, ReachedBy.refl _ _ _, ReachedBy.refl _ _ _, ReachedBy.refl _ _ _⟩
  show TwoWayCache.InUse SLRUSetCache.set interner.cache
  rw [hcache]
  exact ReachedBy.refl _ _ _

theorem inUse_initial : initial.InUse := by
  exact inUse_ofStaticStrings _ (cache_initStaticNumbers stringsNumbersMax)

end VMInstance

structure RegExpCacheKey where
  body : List UInt16
  ignoreCase : Bool
  multiline : Bool
  dotAll : Bool
  unicode : Bool
  unicodeSets : Bool
  sticky : Bool
  deriving DecidableEq

structure RegExpCacheEntry (Pattern : Type) where
  pattern : Pattern
  used : Bool

structure RegExpCacheMap (Pattern : Type) where
  entries : List (RegExpCacheEntry Pattern)
  data : List (RegExpCacheKey × Nat)
  mruCache : ClockCache RegExpCacheKey Nat 16

/-- Requests for a pattern, and what a garbage collection does to the map. -/
inductive RegExpCall
  | getCacheEntryAndCompileIfNeeded (key : RegExpCacheKey) (reaches : Nat → Bool)
  | clear
  | pruneUnused

namespace RegExpCacheMap

variable {Pattern : Type} (compile : RegExpCacheKey → Pattern)

def initial : RegExpCacheMap Pattern := ⟨[], [], .create (by decide)⟩

variable (map : RegExpCacheMap Pattern) (key : RegExpCacheKey) (reaches : Nat → Bool)

/-- The write of `m_used` through the pointer to an entry. -/
def setUsed (entry : Nat) : RegExpCacheMap Pattern :=
  { map with entries := map.entries.modify entry fun e => { e with used := true } }

/-- The entry of the hash map, or a compilation that is entered there. Equal bodies of
different widths may hash differently, so the bucket that is searched need not hold the
entry: `reaches` says for which entries it does. -/
def findOrCompile : RegExpCacheMap Pattern × Nat :=
  match map.data.find? fun item => item.1 = key && reaches item.2 with
  | some (_, entry) => (map.setUsed entry, entry)
  | none =>
    ({ map with entries := map.entries ++ [⟨compile key, true⟩],
                data := map.data ++ [(key, map.entries.length)] }, map.entries.length)

def getCacheEntryAndCompileIfNeeded : Option (RegExpCacheMap Pattern × Nat) :=
  let (mruCache, hit) := map.mruCache.lookup key
  let map := { map with mruCache := mruCache }
  match hit with
  | some entry => some (map.setUsed entry, entry)
  | none =>
    let (map, entry) := map.findOrCompile compile key reaches
    (map.mruCache.insert 17 key entry).map fun mruCache =>
      ({ map with mruCache := mruCache }, entry)

/-- `RegExpCacheMap::pruneUnused`, which leaves the clock alone. -/
def pruneUnused : RegExpCacheMap Pattern :=
  { map with
    entries := map.entries.mapIdx fun entry e =>
      if map.data.any fun item => item.2 = entry then { e with used := false } else e
    data := map.data.filter fun item =>
      (map.entries[item.2]?.map RegExpCacheEntry.used).getD false }

def step : RegExpCall → Option (RegExpCacheMap Pattern × Option Pattern)
  | .getCacheEntryAndCompileIfNeeded key reaches =>
    (map.getCacheEntryAndCompileIfNeeded compile key reaches).map fun (next, entry) =>
      (next, next.entries[entry]?.map RegExpCacheEntry.pattern)
  | .clear => some ({ map with data := [], mruCache := map.mruCache.clear }, none)
  | .pruneUnused => some (map.pruneUnused, none)

def uncachedPattern : RegExpCall → Option Pattern
  | .getCacheEntryAndCompileIfNeeded key _ => some (compile key)
  | _ => none

/-- The entry holds the pattern of the key. -/
def Compiled (entry : Nat) : Prop :=
  map.entries[entry]?.map RegExpCacheEntry.pattern = some (compile key)

/-- Every entry the map or the clock knows holds the pattern of its key. -/
structure Transparent (map : RegExpCacheMap Pattern) : Prop where
  data : ∀ item ∈ map.data, map.Compiled compile item.1 item.2
  mruCache : map.mruCache.All (map.Compiled compile)

section Transparent

variable {compile} {map : RegExpCacheMap Pattern}

theorem compiled_setUsed {key : RegExpCacheKey} {entry : Nat} (other : Nat)
    (h : map.Compiled compile key entry) : (map.setUsed other).Compiled compile key entry := by
  rw [Compiled] at h ⊢
  obtain ⟨e, he, hpattern⟩ := Option.map_eq_some_iff.mp h
  rw [setUsed]
  rw [getElem?_modify, he]
  refine congrArg some ?_
  split
  · exact hpattern
  · exact hpattern

theorem Transparent.setUsed (hmap : map.Transparent compile) (entry : Nat) :
    (map.setUsed entry).Transparent compile :=
  ⟨fun item hitem => compiled_setUsed entry (hmap.data item hitem),
    fun i key other h => compiled_setUsed entry (hmap.mruCache i key other h)⟩

theorem findOrCompile_spec (hmap : map.Transparent compile) (key : RegExpCacheKey)
    (reaches : Nat → Bool) :
    (map.findOrCompile compile key reaches).1.Transparent compile ∧
      (map.findOrCompile compile key reaches).1.Compiled compile key
        (map.findOrCompile compile key reaches).2 := by
  rw [findOrCompile]
  split
  · rename_i found entry hfind
    have hkey : found = key := by
      have := find?_some hfind
      simp only [Bool.and_eq_true, decide_eq_true_eq] at this
      exact this.1
    subst hkey
    exact ⟨hmap.setUsed entry,
      compiled_setUsed entry (hmap.data _ (mem_of_find?_eq_some hfind))⟩
  · have hold : ∀ {other entry}, map.Compiled compile other entry → Compiled compile { map with
          entries := map.entries ++ [⟨compile key, true⟩],
          data := map.data ++ [(key, map.entries.length)] } other entry := by
      intro other entry h
      obtain ⟨e, he, hpattern⟩ := Option.map_eq_some_iff.mp h
      rw [Compiled]
      rw [getElem?_append_left (List.getElem?_eq_some_iff.mp he).1, he]
      exact congrArg some hpattern
    have hnew : Compiled compile { map with
        entries := map.entries ++ [⟨compile key, true⟩],
        data := map.data ++ [(key, map.entries.length)] } key map.entries.length := by
      rw [Compiled]
      dsimp only
      rw [getElem?_concat_length]
      rfl
    refine ⟨⟨fun item hitem => ?_, fun i other entry h => hold (hmap.mruCache i other entry h)⟩,
      hnew⟩
    rcases List.mem_append.mp hitem with hin | hin
    · exact hold (hmap.data item hin)
    · rw [List.mem_singleton.mp hin]
      exact hnew

theorem getCacheEntryAndCompileIfNeeded_spec (hmap : map.Transparent compile)
    (key : RegExpCacheKey) (reaches : Nat → Bool) :
    ∃ next entry, map.getCacheEntryAndCompileIfNeeded compile key reaches = some (next, entry) ∧
      next.Transparent compile ∧ next.Compiled compile key entry := by
  obtain ⟨hcache, hhit⟩ := hmap.mruCache.lookup key
  have hlooked : Transparent compile { map with mruCache := (map.mruCache.lookup key).1 } :=
    ⟨hmap.data, hcache⟩
  rw [getCacheEntryAndCompileIfNeeded]
  dsimp only
  cases hanswer : (map.mruCache.lookup key).2 with
  | some entry =>
    exact ⟨_, _, rfl, hlooked.setUsed entry, compiled_setUsed entry (hhit entry hanswer)⟩
  | none =>
    obtain ⟨hfound, hcompiled⟩ := findOrCompile_spec hlooked key reaches
    obtain ⟨after, hinsert, hafter⟩ := hfound.mruCache.insert key _ hcompiled
    rw [hinsert 17 (by decide)]
    exact ⟨_, _, rfl, ⟨hfound.data, hafter⟩, hcompiled⟩

theorem compiled_pruneUnused {key : RegExpCacheKey} {entry : Nat}
    (h : map.Compiled compile key entry) : map.pruneUnused.Compiled compile key entry := by
  obtain ⟨e, he, hpattern⟩ := Option.map_eq_some_iff.mp h
  rw [Compiled, pruneUnused]
  rw [getElem?_mapIdx, he]
  refine congrArg some ?_
  split
  · exact hpattern
  · exact hpattern

theorem step_transparent (hmap : map.Transparent compile) (call : RegExpCall) :
    ∃ next, map.step compile call = some (next, uncachedPattern compile call) ∧
      next.Transparent compile := by
  cases call with
  | getCacheEntryAndCompileIfNeeded key reaches =>
    obtain ⟨next, entry, hget, hnext, hcompiled⟩ :=
      getCacheEntryAndCompileIfNeeded_spec hmap key reaches
    refine ⟨next, ?_, hnext⟩
    rw [step, hget, uncachedPattern, ← hcompiled]
    rfl
  | clear => refine ⟨_, rfl, ⟨fun _ h => (not_mem_nil h).elim, ClockCache.all_create _⟩⟩
  | pruneUnused =>
    refine ⟨_, rfl, ⟨fun item hitem => ?_, fun i key entry h => ?_⟩⟩
    · exact compiled_pruneUnused (hmap.data item (mem_of_mem_filter hitem))
    · exact compiled_pruneUnused (hmap.mruCache i key entry h)

end Transparent

theorem transparent_initial : (initial : RegExpCacheMap Pattern).Transparent compile :=
  ⟨fun _ h => (not_mem_nil h).elim, ClockCache.all_create _⟩

end RegExpCacheMap

/-- For every sequence of calls: each cache of strings is only used so that a hit is the
value inserted last for exactly its key, what a call returns does not depend on the caches,
and the same holds of the compiled patterns behind the clock, whose sweep always ends. -/
theorem string_caches_transparent (dtoa : Double → List UInt8) {Pattern : Type}
    (compile : RegExpCacheKey → Pattern) :
    TwoWayCache.AnswersLastInserted StringPointer SLRUSetCache.set ∧
      TwoWayCache.AnswersLastInserted StringPointer int32StringCacheSet ∧
      TwoWayCache.AnswersLastInserted StringPointer doubleStringCacheSet ∧
      (∀ calls vm answers, run (VMInstance.step dtoa) calls .initial = some (vm, answers) →
        vm.InUse ∧ ∀ call next answer, vm.step dtoa call = some (next, answer) →
          answer.map (fun p => p.string.content) = vm.uncachedContent dtoa call) ∧
      (∀ (κ ν : Type) [DecidableEq κ] (ways : Nat), ClockCache.AnswersLastInserted κ ν ways ∧
        ∀ (cache : ClockCache κ ν ways) (key : κ) (value : ν),
          ∃ after, ∀ fuel, ways < fuel → cache.insert fuel key value = some after) ∧
      ∀ calls map answers, run (RegExpCacheMap.step compile) calls .initial = some (map, answers) →
        ∀ call, ∃ next, map.step compile call =
          some (next, RegExpCacheMap.uncachedPattern compile call) := by
  refine ⟨TwoWayCache.answersLastInserted _, TwoWayCache.answersLastInserted _,
    TwoWayCache.answersLastInserted _, fun calls vm answers hrun => ⟨?_, ?_⟩, ?_, ?_⟩
  · exact run_invariant (fun hvm hstep => hvm.step hstep) calls VMInstance.inUse_initial hrun
  · have hvm : vm.Transparent dtoa :=
      run_invariant (fun hvm hstep => (VMInstance.step_transparent dtoa hvm hstep).1) calls
        (VMInstance.transparent_initial dtoa) hrun
    exact fun call next answer hstep => (VMInstance.step_transparent dtoa hvm hstep).2
  · intro κ ν _ ways
    refine ⟨ClockCache.answersLastInserted, fun cache key value => ?_⟩
    obtain ⟨after, hinsert, -⟩ := cache.insert_spec key value
    exact ⟨after, hinsert⟩
  · intro calls map answers hrun call
    have hmap : map.Transparent compile := by
      refine run_invariant (fun {map call next out} hmap hstep => ?_) calls
        (RegExpCacheMap.transparent_initial compile) hrun
      obtain ⟨next', hstep', hnext⟩ := RegExpCacheMap.step_transparent hmap call
      cases hstep.symm.trans hstep'
      exact hnext
    obtain ⟨next, hstep, -⟩ := RegExpCacheMap.step_transparent hmap call
    exact ⟨next, hstep⟩

/-- The numbers whose strings one set of the cache holds. -/
def VMInstance.int32Keys (vm : VMInstance) (set : Nat) : List (Option Int32) :=
  [2 * set, 2 * set + 1].map fun way => (vm.int32StringCache way).map Prod.fst

/-- Three numbers of one set of the cache: `1000` is found again, and `1147` has to make room
for `1565`. -/
def evictingCalls : List StringCall :=
  [.fromInt32 1000, .fromInt32 1147, .fromInt32 1000, .fromInt32 1565, .fromInt32 1000]

/-- The same on the cache by itself, with new entries on probation. -/
def evictingOps (string : Nat → StringPointer) : List (CacheOp Int32 StringPointer Admission) :=
  [.insert .probation 1000 (string 1), .lookup 1000, .insert .mru 1147 (string 2), .lookup 1000,
    .insert .probation 1565 (string 3), .lookup 1147, .lookup 1565,
    .insert .probation 1147 (string 4), .lookup 1147]

/-- The pattern of one code unit, looked up in a hash map that never finds an entry. -/
def requestPattern (unit : UInt16) : RegExpCall :=
  .getCacheEntryAndCompileIfNeeded ⟨[unit], false, false, false, false, false, false⟩
    fun _ => false

/-- Seventeen patterns for the sixteen slots, the second again and then the first one. -/
def evictingRequests : List RegExpCall :=
  (List.range 17).map (fun unit => requestPattern (UInt16.ofNat unit)) ++
    [requestPattern 1, requestPattern 0]

/-- Runs with hits and evictions; nineteen requests compile eighteen patterns. -/
theorem string_caches_transparent_evicted :
    (∃ last answers, run (TwoWayCache.step int32StringCacheSet) (evictingOps (⟨·, .latin1 []⟩))
        .empty = some (last, answers) ∧
      answers.map (fun hit => hit.map StringPointer.address) =
        [none, some 1, none, some 1, none, none, some 3, none, some 4] ∧
      List.Forall₂ Hit.Recent answers (referenceRun History.step (evictingOps (⟨·, .latin1 []⟩))
        fun _ => ([] : List StringPointer)).2) ∧
    (∃ vm answers, run (VMInstance.step fun _ => []) evictingCalls .initial = some (vm, answers) ∧
      vm.int32Keys (int32StringCacheSet 1147) = [some 1000, some 1565] ∧ vm.InUse ∧
      ∀ next answer, vm.step (fun _ => []) (.fromInt32 1147) = some (next, answer) →
        answer.map (fun p => p.string.content) = some [0x31, 0x31, 0x34, 0x37]) ∧
    ∃ map answers, run (RegExpCacheMap.step RegExpCacheKey.body) evictingRequests .initial =
        some (map, answers) ∧ map.entries.length = 18 ∧
      ∃ next, map.step RegExpCacheKey.body (requestPattern 3) = some (next, some [3]) := by
  obtain ⟨-, hint32, -, hcalls, -, hrequests⟩ :=
    string_caches_transparent (fun _ => []) RegExpCacheKey.body
  have hhits : (run (TwoWayCache.step int32StringCacheSet) (evictingOps (⟨·, .latin1 []⟩))
      .empty).map (fun result => result.2.map fun hit => hit.map StringPointer.address) =
      some [none, some 1, none, some 1, none, none, some 3, none, some 4] := by decide +kernel
  have hkeys : ((run (VMInstance.step fun _ => []) evictingCalls .initial).map fun result =>
      result.1.int32Keys (int32StringCacheSet 1147)) = some [some 1000, some 1565] := by
    decide +kernel
  have hentries : ((run (RegExpCacheMap.step RegExpCacheKey.body) evictingRequests .initial).map
      fun result => result.1.entries.length) = some 18 := by decide +kernel
  obtain ⟨⟨vm, answers⟩, hrun, hheld⟩ := Option.map_eq_some_iff.mp hkeys
  obtain ⟨⟨map, patterns⟩, hrequested, hlength⟩ := Option.map_eq_some_iff.mp hentries
  refine ⟨?_, ?_, ?_⟩
  · obtain ⟨last, answers, hops, -, hrecent⟩ := hint32 (evictingOps (⟨·, .latin1 []⟩))
    rw [hops] at hhits
    exact ⟨last, answers, hops, Option.some.inj hhits, hrecent (by decide +kernel)⟩
  · obtain ⟨hvm, hnext⟩ := hcalls evictingCalls vm answers hrun
    exact ⟨vm, answers, hrun, hheld, hvm, fun next answer hstep => hnext _ next answer hstep⟩
  · obtain ⟨next, hstep⟩ := hrequests evictingRequests map patterns hrequested (requestPattern 3)
    exact ⟨map, patterns, hrequested, hlength, next, hstep⟩

end Escargot.Runtime
