/-
# Own property keys

`Object::ownPropertyKeys` goes once through the enumeration of an object and
sorts its keys into three buckets: array indices, other strings and symbols. The
enumeration gives the elements that the object keeps in a storage of its own,
the `length` of an array, and then the properties of its structure in order.
-/

import Escargot.Foundation.OrderedSet
import Escargot.Runtime.ObjectStructureRefinement

namespace Escargot.Runtime

open List Option Escargot.Foundation

def invalidIndex32Value : Nat := 2 ^ 32 - 1

/-- The loop of `convertToIndexNumber`; a number above the limit is refused. -/
def convertDigits (maxLimit : Nat) : List UInt16 → Nat → Option Nat
  | [], number => some number
  | c :: rest, number =>
    if c < 0x30 ∨ 0x39 < c then none
    else
      let cnum := c.toNat - 0x30
      if (maxLimit - cnum) / 10 < number then none
      else convertDigits maxLimit rest (number * 10 + cnum)

/-- `String::tryToUseAsIndexProperty`, where `none` stands for the invalid index. -/
def tryToUseAsIndexProperty (units : List UInt16) : Option Nat :=
  if units.isEmpty then none
  else if 1 < units.length ∧ units.head? = some 0x30 then none
  else (convertDigits invalidIndex32Value units 0).filter fun number => number ≠ invalidIndex32Value

/-- The decimal digits of a number, as `Value::toString` gives them. -/
def decimal (n : Nat) : List UInt16 :=
  if n = 0 then [0x30] else ((Nat.digits 10 n).map fun digit => UInt16.ofNat (0x30 + digit)).reverse

section Decimal

theorem convertDigits_spec {maxLimit : Nat} (hlimit : 9 ≤ maxLimit) (units : List UInt16) :
    ∀ {number n : Nat}, number ≤ maxLimit → convertDigits maxLimit units number = some n →
      (∀ c ∈ units, 0x30 ≤ c.toNat ∧ c.toNat ≤ 0x39) ∧ n ≤ maxLimit ∧
      n = number * 10 ^ units.length +
        Nat.ofDigits 10 (units.map fun c => c.toNat - 0x30).reverse := by
  induction units with
  | nil =>
    intro number n hnumber h
    cases h
    exact ⟨nofun, hnumber, by simp⟩
  | cons c rest ih =>
    intro number n hnumber h
    rw [convertDigits] at h
    split at h
    · cases h
    · rename_i hdigit
      have hc : 0x30 ≤ c.toNat ∧ c.toNat ≤ 0x39 := by
        simp only [UInt16.lt_iff_toNat_lt, not_or, not_lt] at hdigit
        exact hdigit
      simp only at h
      split at h
      · cases h
      · obtain ⟨hrest, hle, hn⟩ := ih (by omega) h
        refine ⟨List.forall_mem_cons.2 ⟨hc, hrest⟩, hle, ?_⟩
        rw [hn, map_cons, reverse_cons, Nat.ofDigits_append, length_reverse,
          length_map, length_cons, Nat.ofDigits_singleton, Nat.pow_succ]
        ring

theorem decimal_of_tryToUseAsIndexProperty {units : List UInt16} {n : Nat}
    (h : tryToUseAsIndexProperty units = some n) :
    decimal n = units ∧ n < invalidIndex32Value := by
  rw [tryToUseAsIndexProperty] at h
  split at h
  · cases h
  · rename_i hnonempty
    split at h
    · cases h
    · rename_i hcanonical
      obtain ⟨hconvert, hvalid⟩ := Option.filter_eq_some_iff.1 h
      obtain ⟨hdigits, hle, hn⟩ := convertDigits_spec (by decide) units (Nat.zero_le _) hconvert
      rw [Nat.zero_mul, Nat.zero_add] at hn
      have hback : (units.map fun c => c.toNat - 0x30).map
          (fun digit => UInt16.ofNat (0x30 + digit)) = units := by
        rw [List.map_map]
        refine (map_congr_left fun c hc => ?_).trans (List.map_id units)
        have hc := hdigits c hc
        rw [Function.comp_apply, Nat.add_sub_cancel' hc.1]
        exact UInt16.ofNat_toNat
      have hlt : n < invalidIndex32Value := Nat.lt_of_le_of_ne hle (of_decide_eq_true hvalid)
      refine ⟨?_, hlt⟩
      cases units with
      | nil => exact absurd rfl hnonempty
      | cons c rest =>
        have hc := hdigits c mem_cons_self
        by_cases hzero : c.toNat = 0x30
        · -- A first digit zero is the only one.
          have hfirst : c = 0x30 := UInt16.toNat_inj.1 hzero
          have hrest : rest = [] := by
            by_contra hrest
            have hpos := List.length_pos_iff.2 hrest
            exact hcanonical ⟨by rw [length_cons]; omega, by rw [hfirst]; rfl⟩
          subst hrest hfirst
          rw [hn]
          rfl
        · have hlist : Nat.digits 10 n = ((c :: rest).map fun c => c.toNat - 0x30).reverse := by
            rw [hn]
            refine Nat.digits_ofDigits 10 (by decide) _ (fun digit hdigit => ?_) fun hne => ?_
            · obtain ⟨other, hother, rfl⟩ := List.mem_map.1 (List.mem_reverse.1 hdigit)
              have := hdigits other hother
              omega
            · rw [getLast_reverse]
              simp only [map_cons, head_cons]
              omega
          have hne : n ≠ 0 := by
            rintro rfl
            have := congrArg List.length hlist
            simp at this
          rw [decimal, if_neg hne, hlist, map_reverse, reverse_reverse, hback]

end Decimal

namespace PropertyKey

def index? : PropertyKey → Option Nat
  | .string units => tryToUseAsIndexProperty units
  | .symbol _ => none

def isSymbol : PropertyKey → Bool
  | .string _ => false
  | .symbol _ => true

/-- A string that is not an array index. -/
def isOtherString (key : PropertyKey) : Bool := !key.isSymbol && key.index?.isNone

/-- `Value(index).toString`. -/
def ofIndex (n : Nat) : PropertyKey := .string (decimal n)

theorem eq_ofIndex {key : PropertyKey} {n : Nat} (h : key.index? = some n) :
    key = ofIndex n ∧ n < invalidIndex32Value := by
  cases key with
  | string units =>
    obtain ⟨hunits, hlt⟩ := decimal_of_tryToUseAsIndexProperty h
    exact ⟨congrArg PropertyKey.string hunits.symm, hlt⟩
  | symbol address => cases h

end PropertyKey

/-- The three buckets; the first is a multiset, which is sorted. -/
structure KeyBuckets where
  indexes : List Nat
  strings : List PropertyKey
  symbols : List PropertyKey

/-- The callback of the enumeration. -/
def KeyBuckets.collect (properties : KeyBuckets) (key : PropertyKey) : KeyBuckets :=
  match key.index? with
  | some index => { properties with indexes := properties.indexes.orderedInsert (· ≤ ·) index }
  | none =>
    if key.isSymbol then { properties with symbols := properties.symbols ++ [key] }
    else { properties with strings := properties.strings ++ [key] }

/-- `objectOwnPropertyKeys` of what the enumeration gives. -/
def ownPropertyKeys (enumerated : List PropertyKey) : List PropertyKey :=
  let properties := enumerated.foldl KeyBuckets.collect ⟨[], [], []⟩
  properties.indexes.map PropertyKey.ofIndex ++ properties.strings ++ properties.symbols

/-- The order of the keys that are given for the own keys in insertion order: the array indices
ascending, the other strings, and the symbols. -/
structure InOrder (keys result : List PropertyKey) : Prop where
  exactlyOnce : result.Nodup ∧ ∀ key, key ∈ result ↔ key ∈ keys
  ordered : ∃ indexes : List Nat, indexes.Pairwise (· < ·) ∧
    (∀ n, n ∈ indexes ↔ ∃ key ∈ keys, key.index? = some n) ∧
    result = indexes.map PropertyKey.ofIndex ++ keys.filter PropertyKey.isOtherString ++
      keys.filter PropertyKey.isSymbol

section Buckets

theorem collect_spec (enumerated : List PropertyKey) : ∀ (properties : KeyBuckets),
    properties.indexes.Pairwise (· ≤ ·) →
      (enumerated.foldl KeyBuckets.collect properties).indexes.Pairwise (· ≤ ·) ∧
      (enumerated.foldl KeyBuckets.collect properties).indexes.Perm
        (properties.indexes ++ enumerated.filterMap PropertyKey.index?) ∧
      (enumerated.foldl KeyBuckets.collect properties).strings =
        properties.strings ++ enumerated.filter PropertyKey.isOtherString ∧
      (enumerated.foldl KeyBuckets.collect properties).symbols =
        properties.symbols ++ enumerated.filter PropertyKey.isSymbol := by
  induction enumerated with
  | nil =>
    intro properties hsorted
    simp only [foldl_nil, filterMap_nil, filter_nil, append_nil]
    exact ⟨hsorted, List.Perm.refl _, trivial, trivial⟩
  | cons key enumerated ih =>
    intro properties hsorted
    rw [foldl_cons]
    cases hindex : key.index? with
    | some index =>
      have hsymbol : key.isSymbol = false := by
        cases key with
        | string units => rfl
        | symbol address => cases hindex
      have hcollect : properties.collect key =
          { properties with indexes := properties.indexes.orderedInsert (· ≤ ·) index } := by
        rw [KeyBuckets.collect, hindex]
      obtain ⟨hsorted', hperm, hstrings, hsymbols⟩ := ih (properties.collect key)
        (by rw [hcollect]; exact hsorted.orderedInsert index _)
      refine ⟨hsorted', hperm.trans ?_, ?_, ?_⟩
      · rw [hcollect, filterMap_cons_some hindex]
        exact ((perm_orderedInsert (· ≤ ·) index _).append_right _).trans
          List.perm_middle.symm
      · rw [hstrings, hcollect, filter_cons_of_neg (by simp [PropertyKey.isOtherString, hindex])]
      · rw [hsymbols, hcollect, filter_cons_of_neg (by simp [hsymbol])]
    | none =>
      cases hsymbol : key.isSymbol with
      | true =>
        have hcollect : properties.collect key =
            { properties with symbols := properties.symbols ++ [key] } := by
          rw [KeyBuckets.collect, hindex, hsymbol]
          rfl
        obtain ⟨hsorted', hperm, hstrings, hsymbols⟩ := ih (properties.collect key)
          (by rw [hcollect]; exact hsorted)
        refine ⟨hsorted', hperm.trans ?_, ?_, ?_⟩
        · rw [hcollect, filterMap_cons_none hindex]
        · rw [hstrings, hcollect, filter_cons_of_neg (by simp [PropertyKey.isOtherString, hsymbol])]
        · rw [hsymbols, hcollect, filter_cons_of_pos hsymbol, append_assoc]
          rfl
      | false =>
        have hcollect : properties.collect key =
            { properties with strings := properties.strings ++ [key] } := by
          rw [KeyBuckets.collect, hindex, hsymbol]
          rfl
        obtain ⟨hsorted', hperm, hstrings, hsymbols⟩ := ih (properties.collect key)
          (by rw [hcollect]; exact hsorted)
        refine ⟨hsorted', hperm.trans ?_, ?_, ?_⟩
        · rw [hcollect, filterMap_cons_none hindex]
        · rw [hstrings, hcollect, append_assoc, filter_cons_of_pos
            (by rw [PropertyKey.isOtherString, hsymbol, hindex]; rfl)]
          rfl
        · rw [hsymbols, hcollect, filter_cons_of_neg (by simp [hsymbol])]

theorem nodup_filterMap_index {keys : List PropertyKey} (h : keys.Nodup) :
    (keys.filterMap PropertyKey.index?).Nodup := by
  refine List.Nodup.filterMap (fun first second n hfirst hsecond => ?_) h
  rw [(PropertyKey.eq_ofIndex hfirst).1, (PropertyKey.eq_ofIndex hsecond).1]

variable (keys : List PropertyKey)

theorem map_filterMap_index : (keys.filterMap PropertyKey.index?).map PropertyKey.ofIndex =
      keys.filter (·.index?.isSome) := by
  induction keys with
  | nil => rfl
  | cons key keys ih =>
    cases hindex : key.index? with
    | none => rw [filterMap_cons_none hindex, filter_cons_of_neg (by simp [hindex]), ih]
    | some n =>
      rw [filterMap_cons_some hindex, filter_cons_of_pos (by simp [hindex]),
        map_cons, ih, ← (PropertyKey.eq_ofIndex hindex).1]

theorem split_perm : (keys.filter (·.index?.isSome) ++ (keys.filter PropertyKey.isOtherString ++
      keys.filter PropertyKey.isSymbol)).Perm keys := by
  have hrest : (keys.filter PropertyKey.isOtherString ++ keys.filter PropertyKey.isSymbol).Perm
      (keys.filter fun key => !key.index?.isSome) := by
    refine List.Perm.trans (List.Perm.of_eq ?_)
      (filter_append_perm (fun key => !key.isSymbol)
        (keys.filter fun key => !key.index?.isSome))
    rw [List.filter_filter, List.filter_filter]
    refine congrArg₂ (· ++ ·) (filter_congr fun key _ => ?_)
      (filter_congr fun key _ => ?_)
    · rw [PropertyKey.isOtherString]
      cases key.index? <;> rfl
    · cases key with
      | string units => rfl
      | symbol address => rfl
  exact (hrest.append_left _).trans (filter_append_perm _ keys)

theorem ownPropertyKeys_perm (enumerated : List PropertyKey) :
    (ownPropertyKeys enumerated).Perm enumerated := by
  obtain ⟨-, hindexes, hstrings, hsymbols⟩ := collect_spec enumerated ⟨[], [], []⟩ .nil
  rw [nil_append] at hindexes hstrings hsymbols
  refine List.Perm.trans ?_ (split_perm enumerated)
  simp only [ownPropertyKeys]
  rw [hstrings, hsymbols, append_assoc, ← map_filterMap_index]
  exact (hindexes.map _).append_right _

theorem ownPropertyKeys_inOrder {enumerated keys : List PropertyKey} (hnodup : keys.Nodup)
    (hperm : enumerated.Perm keys)
    (hfilter : enumerated.filter (·.index?.isNone) = keys.filter (·.index?.isNone)) :
    InOrder keys (ownPropertyKeys enumerated) := by
  obtain ⟨hsorted, hindexes, hstrings, hsymbols⟩ := collect_spec enumerated ⟨[], [], []⟩ .nil
  rw [nil_append] at hindexes hstrings hsymbols
  have hrestrict : ∀ p : PropertyKey → Bool, (∀ key, p key = true → key.index?.isNone = true) →
      enumerated.filter p = keys.filter p := by
    intro p hp
    have hsplit : ∀ list : List PropertyKey,
        list.filter p = (list.filter (·.index?.isNone)).filter p := fun list => by
      rw [List.filter_filter]
      refine filter_congr fun key _ => ?_
      cases hkey : p key with
      | false => rfl
      | true => rw [hp key hkey]; rfl
    rw [hsplit enumerated, hfilter, ← hsplit keys]
  have hotherStrings : enumerated.filter PropertyKey.isOtherString =
      keys.filter PropertyKey.isOtherString := hrestrict _ fun key hkey => by
    simp only [PropertyKey.isOtherString, Bool.and_eq_true] at hkey
    exact hkey.2
  have hotherSymbols : enumerated.filter PropertyKey.isSymbol = keys.filter PropertyKey.isSymbol :=
    hrestrict _ fun key hkey => by
      cases key with
      | string units => cases hkey
      | symbol address => rfl
  have hresult : ownPropertyKeys enumerated =
      (enumerated.foldl KeyBuckets.collect ⟨[], [], []⟩).indexes.map PropertyKey.ofIndex ++
        keys.filter PropertyKey.isOtherString ++ keys.filter PropertyKey.isSymbol := by
    simp only [ownPropertyKeys]
    rw [hstrings, hsymbols, hotherStrings, hotherSymbols]
  have hpermKeys := hindexes.trans (hperm.filterMap PropertyKey.index?)
  have hall : (ownPropertyKeys enumerated).Perm keys := (ownPropertyKeys_perm enumerated).trans hperm
  refine ⟨⟨hall.nodup_iff.2 hnodup, fun key => hall.mem_iff⟩, _, ?_, fun n => ?_, hresult⟩
  · have hdistinct := hpermKeys.nodup_iff.2 (nodup_filterMap_index hnodup)
    exact (hsorted.and hdistinct).imp fun h => lt_of_le_of_ne h.1 h.2
  · rw [hpermKeys.mem_iff, mem_filterMap]

end Buckets

/-- An object among others that share structures with it. `elements` are the keys that the object
keeps in a storage of its own: the elements of an array in fast mode, of a string, of a typed array
or of arguments. -/
structure TrackedObject where
  structures : StructureState
  object : Nat
  elements : List PropertyKey
  isArrayObject : Bool

/-- What happens to the object or, under `elsewhere`, to others. The callers of the structure say
whether the object is extensible, and whether a property is configurable. -/
inductive ObjectOperation
  | elsewhere (op : StructureOperation)
  | directDefineOwnProperty (name : ObjectStructurePropertyName)
      (desc : ObjectStructurePropertyDescriptor)
  | defineOwnProperty (name : ObjectStructurePropertyName)
      (desc : ObjectStructurePropertyDescriptor) (isExtensible : Bool)
  | deleteOwnProperty (name : ObjectStructurePropertyName) (isConfigurable : Bool)
  | convertToNonTransitionStructure
  | markReferencedByInlineCache
  | storeElement (key : PropertyKey)
  | removeElement (key : PropertyKey)
  | moveElement (name : ObjectStructurePropertyName) (desc : ObjectStructurePropertyDescriptor)

namespace TrackedObject

variable (limits : StructureLimits) (memory : Nat → EString)

def lengthKey : PropertyKey := .string [108, 101, 110, 103, 116, 104]

variable (t : TrackedObject) (name : ObjectStructurePropertyName)

/-- The keys that the enumeration gives before the properties of the structure. -/
def ownStorage : List PropertyKey := t.elements ++ if t.isArrayObject then [lengthKey] else []

def pairs : List (PropertyKey × ObjectStructurePropertyDescriptor) :=
  ((t.structures.observe memory)[t.object]?).getD []

/-- The enumeration, symbols included. -/
def enumeration : List PropertyKey := t.ownStorage ++ (t.pairs memory).map Prod.fst

def call (t : TrackedObject) (method : StructureMethod) :
    Option (TrackedObject × Option (Option Nat)) :=
  (StructureState.step limits memory t.structures (.call t.object method)).map
    fun (structures, out) => ({ t with structures := structures }, out.1)

/-- `Object::defineOwnPropertyMethod`, as far as it goes for the keys. -/
def define
    (desc : ObjectStructurePropertyDescriptor) (isExtensible : Bool) : Option TrackedObject :=
  (t.call limits memory (.findProperty name)).bind fun (t, answer) =>
    match answer.join with
    | none =>
      if isExtensible then (t.call limits memory (.addProperty name desc)).map Prod.fst
      else some t
    | some idx =>
      if (t.pairs memory)[idx]?.map Prod.snd = some desc then some t
      else (t.call limits memory (.replacePropertyDescriptor idx desc)).map Prod.fst

/-- `Object::deleteOwnProperty`. -/
def delete (isConfigurable : Bool) : Option TrackedObject :=
  (t.call limits memory (.findProperty name)).bind fun (t, answer) =>
    match answer.join with
    | none => some t
    | some idx =>
      if isConfigurable then (t.call limits memory (.removeProperty idx)).map Prod.fst
      else some t

def next : ObjectOperation → Option TrackedObject
  | .elsewhere op =>
    (StructureState.step limits memory t.structures op).map
      fun (structures, _) => { t with structures := structures }
  | .directDefineOwnProperty name desc =>
    (t.call limits memory (.addProperty name desc)).map Prod.fst
  | .defineOwnProperty name desc isExtensible => t.define limits memory name desc isExtensible
  | .deleteOwnProperty name isConfigurable => t.delete limits memory name isConfigurable
  | .convertToNonTransitionStructure =>
    (t.call limits memory .convertToNonTransitionStructure).map Prod.fst
  | .markReferencedByInlineCache => (t.call limits memory .markReferencedByInlineCache).map Prod.fst
  | .storeElement key => some { t with elements := t.elements ++ [key] }
  | .removeElement key => some { t with elements := t.elements.erase key }
  | .moveElement name desc =>
    ({ t with elements := t.elements.erase (name.key memory) } : TrackedObject).define limits
      memory name desc true

def step (op : ObjectOperation) : Option (TrackedObject × Unit) :=
  (t.next limits memory op).map (·, ())

def keyStep (keys : List PropertyKey) : ObjectOperation → List PropertyKey
  | .directDefineOwnProperty name _ => keys ++ [name.key memory]
  | .defineOwnProperty name _ isExtensible =>
    if isExtensible then insertNew keys (name.key memory) else keys
  | .deleteOwnProperty name isConfigurable =>
    if isConfigurable then keys.erase (name.key memory) else keys
  | .storeElement key => keys ++ [key]
  | .removeElement key => keys.erase key
  | _ => keys

def isCalledBy : StructureOperation → Bool
  | .newObject _ => false
  | .call object _ => object == t.object

/-- The callers' side: a direct definition is of a new key, a name is passed to the structure only
if its key is not in the own storage, and the storage holds indices that the structure does not
have. -/
def Proper (t : TrackedObject) : ObjectOperation → Prop
  | .elsewhere op =>
    t.isCalledBy op = false ∧ t.structures.Proper memory op ∧ t.structures.Findable memory op
  | .directDefineOwnProperty name _ => name.key memory ∉ t.enumeration memory
  | .defineOwnProperty name _ _ | .deleteOwnProperty name _ => name.key memory ∉ t.ownStorage
  | .storeElement key => key.index?.isSome ∧ key ∉ t.enumeration memory
  | .removeElement key => key ∈ t.elements
  | .moveElement name _ => name.key memory ∈ t.elements
  | _ => True

/-- The searches of an operation meet the property with the key. -/
def Findable (t : TrackedObject) : ObjectOperation → Prop
  | .defineOwnProperty name _ _ | .deleteOwnProperty name _ | .moveElement name _ =>
    t.structures.Findable memory (.call t.object (.findProperty name))
  | _ => True

end TrackedObject

/-- How an object comes to be. -/
inductive ObjectConstruction
  | empty (preferTransition isArrayObject : Bool)
  | bulk (names : List ObjectStructurePropertyName) (desc : ObjectStructurePropertyDescriptor)

namespace ObjectConstruction

variable (limits : StructureLimits) (memory : Nat → EString)

/-- The structure of a new object. `Object::Object(state, propertyCount, callback, ...)` keeps the
names as they come, with no search for an earlier one, and sets the flag for names that are not
interned at an interned one. -/
def newStructure : ObjectConstruction → ObjectStructure
  | .empty preferTransition _ =>
    if preferTransition then .withTransition 0 else .withoutTransition (.make [] .none)
  | .bulk names desc =>
    let properties := names.map fun name => (⟨name, desc⟩ : ObjectStructureItem)
    let hasIndexPropertyName := names.any fun name => name.isIndexString memory
    let hasSymbolPropertyName := names.any fun name => name.isSymbol
    if limits.accessCacheBuildMinSize < names.length then
      .withMap ⟨properties, none, hasIndexPropertyName, hasSymbolPropertyName, false⟩
    else
      .withoutTransition (.make properties
        ⟨hasIndexPropertyName, hasSymbolPropertyName,
          names.any fun name => !name.isSymbol && name.hasAtomicString⟩)

def isArrayObject : ObjectConstruction → Bool
  | .empty _ isArrayObject => isArrayObject
  | .bulk _ _ => false

/-- The own keys of the new object: a name that is given again is the same property. -/
def keys : ObjectConstruction → List PropertyKey
  | .empty _ isArrayObject => if isArrayObject then [TrackedObject.lengthKey] else []
  | .bulk names _ => (names.map (·.key memory)).foldl insertNew []

/-- No name is given twice, and the flag for names that are not interned is right where it is
used. -/
def Proper : ObjectConstruction → Prop
  | .empty _ _ => True
  | .bulk names _ => (names.map (·.key memory)).Nodup ∧
      (limits.accessCacheBuildMinSize < names.length ∨ names = [] ∨
        ∃ name ∈ names, name.hasAtomicString = true)

end ObjectConstruction

namespace TrackedObject

variable (limits : StructureLimits) (memory : Nat → EString)

def create (structures : StructureState) (construction : ObjectConstruction) : TrackedObject where
  structures :=
    { structures with objects := structures.objects ++ [construction.newStructure limits memory] }
  object := structures.objects.length
  elements := []
  isArrayObject := construction.isArrayObject

/-- The enumeration has the own keys, and has those that are no indices in insertion order. -/
structure Holds (t : TrackedObject) (keys : List PropertyKey) : Prop where
  nodup : keys.Nodup
  perm : (t.enumeration memory).Perm keys
  order : (t.enumeration memory).filter (·.index?.isNone) = keys.filter (·.index?.isNone)
  elements : ∀ key ∈ t.elements, key.index?.isSome

structure Alive (t : TrackedObject) : Prop where
  ok : t.structures.Ok limits memory
  live : t.object < t.structures.objects.length

section Invariant

variable {limits memory} {t t' : TrackedObject} {keys : List PropertyKey}

theorem call_spec {method : StructureMethod} {answer : Option (Option Nat)}
    (halive : t.Alive limits memory)
    (hproper : t.structures.Proper memory (.call t.object method))
    (hfindable : t.structures.Findable memory (.call t.object method))
    (hcall : t.call limits memory method = some (t', answer)) :
    t'.Alive limits memory ∧ t'.pairs memory = plainCall memory (t.pairs memory) method ∧
      answer = plainAnswer memory (t.pairs memory) method ∧ t'.ownStorage = t.ownStorage ∧
      t'.elements = t.elements := by
  obtain ⟨⟨structures, out⟩, hstep, hresult⟩ := Option.map_eq_some_iff.1 hcall
  cases hresult
  obtain ⟨hout, hok, hobserve⟩ := step_simulates ⟨halive.ok, rfl⟩ hproper hfindable hstep
  have hlength : t.object < (t.structures.observe memory).length := by
    rw [StructureState.observe, length_map]
    exact halive.live
  have hlist : (t.structures.observe memory)[t.object]? = some (t.pairs memory) := by
    rw [pairs, getElem?_eq_getElem hlength]
    rfl
  simp only [plainStep, hlist] at hout hobserve
  refine ⟨⟨hok, ?_⟩, ?_, ?_, rfl, rfl⟩
  · have hsame := congrArg List.length hobserve
    rw [StructureState.observe, length_map, length_set] at hsame
    rw [hsame]
    exact hlength
  · simp only [pairs, hobserve]
    rw [getElem?_set_self hlength]
    rfl
  · rw [hout]

variable {name : ObjectStructurePropertyName} {desc : ObjectStructurePropertyDescriptor}

theorem fresh_of_notMem (hfresh : name.key memory ∉ (t.pairs memory).map Prod.fst) :
    t.structures.Proper memory (.call t.object (.addProperty name desc)) := by
  intro s hs item hitem hkey
  refine hfresh (List.mem_map.2 ⟨(item.propertyName.key memory, item.descriptor), ?_, hkey⟩)
  have hobserve : (t.structures.observe memory)[t.object]? =
      some (StructureState.denote memory (StructureState.properties t.structures.shared s)) := by
    rw [StructureState.observe, getElem?_map, hs]
    rfl
  rw [pairs, hobserve]
  exact List.mem_map.2 ⟨item, hitem, rfl⟩

theorem position_of_lt {i : Nat} (hi : i < (t.pairs memory).length) :
    t.structures.Proper memory (.call t.object (.removeProperty i)) ∧
      ∀ desc, t.structures.Proper memory (.call t.object (.replacePropertyDescriptor i desc)) := by
  have hbound : ∀ s ∈ t.structures.objects[t.object]?,
      i < (StructureState.properties t.structures.shared s).length := by
    intro s hs
    have hobserve : (t.structures.observe memory)[t.object]? =
        some (StructureState.denote memory (StructureState.properties t.structures.shared s)) := by
      rw [StructureState.observe, getElem?_map, hs]
      rfl
    rw [pairs, hobserve, getD_some, StructureState.denote, length_map] at hi
    exact hi
  exact ⟨hbound, fun _ => hbound⟩

variable (list : List (PropertyKey × ObjectStructurePropertyDescriptor))

theorem findIdx?_cases (key : PropertyKey) :
    (list.findIdx? (fun pair => pair.1 == key) = none ∧ key ∉ list.map Prod.fst) ∨
      ∃ i, list.findIdx? (fun pair => pair.1 == key) = some i ∧ i < list.length ∧
        (list.eraseIdx i).map Prod.fst = (list.map Prod.fst).erase key ∧
        key ∈ list.map Prod.fst := by
  induction list with
  | nil => exact .inl ⟨rfl, not_mem_nil⟩
  | cons pair list ih =>
    rw [findIdx?_cons]
    by_cases hkey : pair.1 = key
    · refine .inr ⟨0, by simp [hkey], Nat.succ_pos _, ?_, by simp [hkey]⟩
      rw [eraseIdx_cons_zero, map_cons, hkey, erase_cons_head]
    · have hne : (pair.1 == key) = false := beq_eq_false_iff_ne.2 hkey
      rw [hne]
      rcases ih with ⟨hnone, hnotMem⟩ | ⟨i, hsome, hi, herase, hmem⟩
      · refine .inl ⟨by simp [hnone], ?_⟩
        rw [map_cons, mem_cons, not_or]
        exact ⟨Ne.symm hkey, hnotMem⟩
      · refine .inr ⟨i + 1, by simp [hsome], Nat.succ_lt_succ hi, ?_, mem_cons_of_mem _ hmem⟩
        rw [eraseIdx_cons_succ, map_cons, map_cons, herase,
          erase_cons_tail (by rw [hne]; exact Bool.false_ne_true)]

theorem map_fst_modify (i : Nat) (desc : ObjectStructurePropertyDescriptor) :
    (list.modify i fun pair => (pair.1, desc)).map Prod.fst = list.map Prod.fst := by
  induction list generalizing i with
  | nil => cases i <;> rfl
  | cons pair list ih =>
    cases i with
    | zero => rfl
    | succ i => rw [modify_succ_cons, map_cons, map_cons, ih]

theorem enumeration_of_pairs (hstorage : t'.ownStorage = t.ownStorage)
    (hpairs : (t'.pairs memory).map Prod.fst = (t.pairs memory).map Prod.fst) :
    t'.enumeration memory = t.enumeration memory := by
  rw [enumeration, enumeration, hstorage, hpairs]

theorem define_spec {isExtensible : Bool}
    (halive : t.Alive limits memory) (hstorage : name.key memory ∉ t.ownStorage)
    (hfindable : t.structures.Findable memory (.call t.object (.findProperty name)))
    (hdefine : t.define limits memory name desc isExtensible = some t') :
    t'.Alive limits memory ∧ t'.elements = t.elements ∧ t'.enumeration memory =
        if isExtensible then insertNew (t.enumeration memory) (name.key memory)
        else t.enumeration memory := by
  obtain ⟨⟨searched, answer⟩, hsearch, hrest⟩ := Option.bind_eq_some_iff.1 hdefine
  have hproper : t.structures.Proper memory (.call t.object (.findProperty name)) :=
    fun _ _ => trivial
  obtain ⟨hsearched, hpairs, hanswer, hown, helements⟩ := call_spec halive hproper hfindable hsearch
  have hpairs : searched.pairs memory = t.pairs memory := hpairs
  have hanswer : answer = some ((t.pairs memory).findIdx? fun pair => pair.1 == name.key memory) :=
    hanswer
  have hmem : name.key memory ∈ t.enumeration memory ↔
      name.key memory ∈ (t.pairs memory).map Prod.fst := by
    rw [enumeration, mem_append]
    exact or_iff_right hstorage
  have hsame : searched.enumeration memory = t.enumeration memory :=
    enumeration_of_pairs hown (congrArg (List.map Prod.fst) hpairs)
  rcases findIdx?_cases (t.pairs memory) (name.key memory) with
    ⟨hnone, hnotMem⟩ | ⟨i, hsome, hi, -, hthere⟩
  · rw [hanswer, hnone] at hrest
    simp only [join_some] at hrest
    split at hrest
    · rename_i hextensible
      obtain ⟨⟨added, out⟩, hadd, hadded⟩ := Option.map_eq_some_iff.1 hrest
      cases hadded
      obtain ⟨halive', hpairs', -, hown', helements'⟩ := call_spec hsearched
        (fresh_of_notMem (by rw [hpairs]; exact hnotMem)) (fun _ _ => trivial) hadd
      refine ⟨halive', helements'.trans helements, ?_⟩
      rw [if_pos hextensible, insertNew, if_neg (by rw [hmem]; exact hnotMem), enumeration, hown',
        hown, hpairs', hpairs, plainCall, map_append, ← append_assoc]
      rfl
    · rename_i hextensible
      cases hrest
      exact ⟨hsearched, helements, by rw [if_neg hextensible, hsame]⟩
  · have hkeep : (if isExtensible then insertNew (t.enumeration memory) (name.key memory)
        else t.enumeration memory) = t.enumeration memory := by
      rw [insertNew, if_pos (hmem.2 hthere), ite_self]
    rw [hkeep]
    rw [hanswer, hsome] at hrest
    simp only [join_some] at hrest
    split at hrest
    · cases hrest
      exact ⟨hsearched, helements, hsame⟩
    · obtain ⟨⟨replaced, out⟩, hreplace, hreplaced⟩ := Option.map_eq_some_iff.1 hrest
      cases hreplaced
      obtain ⟨halive', hpairs', -, hown', helements'⟩ := call_spec hsearched
        ((position_of_lt (by rw [hpairs]; exact hi)).2 desc) (fun _ _ => trivial) hreplace
      refine ⟨halive', helements'.trans helements, (enumeration_of_pairs hown' ?_).trans hsame⟩
      rw [hpairs']
      exact map_fst_modify _ i desc

theorem delete_spec {isConfigurable : Bool} (halive : t.Alive limits memory)
    (hstorage : name.key memory ∉ t.ownStorage)
    (hfindable : t.structures.Findable memory (.call t.object (.findProperty name)))
    (hdelete : t.delete limits memory name isConfigurable = some t') :
    t'.Alive limits memory ∧ t'.elements = t.elements ∧ t'.enumeration memory =
        if isConfigurable then (t.enumeration memory).erase (name.key memory)
        else t.enumeration memory := by
  obtain ⟨⟨searched, answer⟩, hsearch, hrest⟩ := Option.bind_eq_some_iff.1 hdelete
  have hproper : t.structures.Proper memory (.call t.object (.findProperty name)) :=
    fun _ _ => trivial
  obtain ⟨hsearched, hpairs, hanswer, hown, helements⟩ := call_spec halive hproper hfindable hsearch
  have hpairs : searched.pairs memory = t.pairs memory := hpairs
  have hanswer : answer = some ((t.pairs memory).findIdx? fun pair => pair.1 == name.key memory) :=
    hanswer
  have hsame : searched.enumeration memory = t.enumeration memory :=
    enumeration_of_pairs hown (congrArg (List.map Prod.fst) hpairs)
  have herase : (t.enumeration memory).erase (name.key memory) =
      t.ownStorage ++ ((t.pairs memory).map Prod.fst).erase (name.key memory) :=
    erase_append_right _ hstorage
  rcases findIdx?_cases (t.pairs memory) (name.key memory) with
    ⟨hnone, hnotMem⟩ | ⟨i, hsome, hi, hlist, hthere⟩
  · rw [hanswer, hnone] at hrest
    cases hrest
    refine ⟨hsearched, helements, ?_⟩
    rw [herase, erase_of_not_mem hnotMem, hsame]
    exact (ite_self _).symm
  · rw [hanswer, hsome] at hrest
    simp only [join_some] at hrest
    split at hrest
    · rename_i hconfigurable
      obtain ⟨⟨removed, out⟩, hremove, hremoved⟩ := Option.map_eq_some_iff.1 hrest
      cases hremoved
      obtain ⟨halive', hpairs', -, hown', helements'⟩ := call_spec hsearched
        (position_of_lt (by rw [hpairs]; exact hi)).1 (fun _ _ => trivial) hremove
      refine ⟨halive', helements'.trans helements, ?_⟩
      rw [if_pos hconfigurable, herase, enumeration, hown', hown, hpairs', hpairs, plainCall, hlist]
    · rename_i hconfigurable
      cases hrest
      exact ⟨hsearched, helements, by rw [if_neg hconfigurable, hsame]⟩

theorem Holds.same (h : t.Holds memory keys) (helements : ∀ key ∈ t'.elements, key.index?.isSome)
    (hsame : t'.enumeration memory = t.enumeration memory) : t'.Holds memory keys :=
  ⟨h.nodup, hsame ▸ h.perm, hsame ▸ h.order, helements⟩

variable {key : PropertyKey}

theorem Holds.push (h : t.Holds memory keys) (helements : ∀ key ∈ t'.elements, key.index?.isSome)
    (hfresh : key ∉ t.enumeration memory)
    (hpush : t'.enumeration memory = t.enumeration memory ++ [key]) :
    t'.Holds memory (keys ++ [key]) where
  nodup := by
    rw [nodup_append]
    refine ⟨h.nodup, pairwise_singleton _ _, ?_⟩
    rintro other hother _ hkey rfl
    have hkey : other = key := by simpa using hkey
    exact hfresh (h.perm.mem_iff.2 (hkey ▸ hother))
  perm := hpush ▸ h.perm.append_right [key]
  order := by rw [hpush, filter_append, filter_append, h.order]
  elements := helements

theorem Holds.erase (h : t.Holds memory keys) (helements : ∀ key ∈ t'.elements, key.index?.isSome)
    (herase : t'.enumeration memory = (t.enumeration memory).erase key) :
    t'.Holds memory (keys.erase key) where
  nodup := h.nodup.erase key
  perm := herase ▸ h.perm.erase key
  order := by
    have hnodup := h.perm.nodup_iff.2 h.nodup
    rw [herase, hnodup.erase_eq_filter, h.nodup.erase_eq_filter, filter_comm, h.order, filter_comm]
  elements := helements

variable {op : StructureOperation} {out : StructureState.Observation} {structures : StructureState}

theorem elsewhere_spec (halive : t.Alive limits memory) (hother : t.isCalledBy op = false)
    (hproper : t.structures.Proper memory op) (hfindable : t.structures.Findable memory op)
    (hstep : StructureState.step limits memory t.structures op = some (structures, out)) :
    ({ t with structures := structures } : TrackedObject).Alive limits memory ∧
      ({ t with structures := structures } : TrackedObject).pairs memory = t.pairs memory := by
  obtain ⟨-, hok, hobserve⟩ := step_simulates ⟨halive.ok, rfl⟩ hproper hfindable hstep
  have hlength : t.object < (t.structures.observe memory).length := by
    rw [StructureState.observe, length_map]
    exact halive.live
  have hlive : t.object < (structures.observe memory).length ∧
      (structures.observe memory)[t.object]? = (t.structures.observe memory)[t.object]? := by
    rw [hobserve]
    cases op with
    | newObject preferTransition =>
      rw [plainStep, length_append]
      exact ⟨by omega, getElem?_append_left hlength⟩
    | call object method =>
      have hne : object ≠ t.object := beq_eq_false_iff_ne.1 hother
      rw [plainStep]
      split
      · exact ⟨hlength, rfl⟩
      · rw [length_set]
        exact ⟨hlength, getElem?_set_ne hne⟩
  refine ⟨⟨hok, ?_⟩, ?_⟩
  · have hlength' := hlive.1
    rw [StructureState.observe, length_map] at hlength'
    exact hlength'
  · rw [pairs, pairs, hlive.2]

theorem Holds.move (h : t.Holds memory keys) (hkey : key ∈ t.elements)
    (helements : t'.elements = t.elements.erase key)
    (hmove : t'.enumeration memory =
      ({ t with elements := t.elements.erase key } : TrackedObject).enumeration memory ++ [key]) :
    t'.Holds memory keys := by
  have hwithout : ({ t with elements := t.elements.erase key } : TrackedObject).enumeration memory =
      (t.enumeration memory).erase key := by
    rw [enumeration, enumeration, ownStorage, ownStorage, append_assoc, append_assoc,
      erase_append_left _ hkey]
    rfl
  have hmem : key ∈ t.enumeration memory := mem_append_left _ (mem_append_left _ hkey)
  have hindex := h.elements key hkey
  refine ⟨h.nodup, ?_, ?_, fun other hother => ?_⟩
  · rw [hmove, hwithout]
    exact (List.perm_append_comm.trans (perm_cons_erase hmem).symm).trans h.perm
  · have hnodup := h.perm.nodup_iff.2 h.nodup
    rw [hmove, hwithout, filter_append, hnodup.erase_eq_filter, filter_comm, h.order]
    have hlast : [key].filter (·.index?.isNone) = [] := by
      obtain ⟨n, hn⟩ := Option.isSome_iff_exists.1 hindex
      simp [hn]
    rw [hlast, append_nil, filter_eq_self]
    intro other hother
    have hnone := (List.mem_filter.1 hother).2
    refine bne_iff_ne.2 fun heq => ?_
    subst heq
    rw [isNone_iff_eq_none] at hnone
    rw [hnone] at hindex
    cases hindex
  · rw [helements] at hother
    exact h.elements other (mem_of_mem_erase hother)

theorem erase_elements (hkey : key ∈ t.elements) :
    ({ t with elements := t.elements.erase key } : TrackedObject).enumeration memory =
      (t.enumeration memory).erase key := by
  rw [enumeration, enumeration, ownStorage, ownStorage, append_assoc, append_assoc,
    erase_append_left _ hkey]
  rfl

theorem Holds.store (h : t.Holds memory keys) (hindex : key.index?.isSome)
    (hfresh : key ∉ t.enumeration memory) :
    ({ t with elements := t.elements ++ [key] } : TrackedObject).Holds memory (keys ++ [key]) where
  nodup := by
    rw [nodup_append]
    refine ⟨h.nodup, pairwise_singleton _ _, ?_⟩
    rintro other hother _ hkey rfl
    have hkey : other = key := by simpa using hkey
    exact hfresh (h.perm.mem_iff.2 (hkey ▸ hother))
  perm := by
    refine List.Perm.trans ?_ (h.perm.append_right [key])
    rw [enumeration, enumeration, ownStorage, ownStorage]
    simp only [append_assoc]
    refine List.Perm.append_left t.elements ?_
    rw [← append_assoc _ _ [key]]
    exact perm_append_comm
  order := by
    have hlast : [key].filter (·.index?.isNone) = [] := by
      obtain ⟨n, hn⟩ := Option.isSome_iff_exists.1 hindex
      simp [hn]
    have horder := h.order
    rw [enumeration, ownStorage] at horder ⊢
    simp only [filter_append, hlast, append_nil] at horder ⊢
    exact horder
  elements other hother := by
    rcases List.mem_append.1 hother with hold | hnew
    · exact h.elements other hold
    · rw [List.mem_singleton.1 hnew]
      exact hindex

theorem step_holds {op : ObjectOperation} (halive : t.Alive limits memory)
    (h : t.Holds memory keys) (hproper : t.Proper memory op)
    (hfindable : t.Findable memory op) (hnext : t.next limits memory op = some t') :
    t'.Alive limits memory ∧ t'.Holds memory (keyStep memory keys op) := by
  cases op with
  | elsewhere op =>
    obtain ⟨⟨structures, out⟩, hstep, hresult⟩ := Option.map_eq_some_iff.1 hnext
    cases hresult
    obtain ⟨halive', hpairs⟩ := elsewhere_spec halive hproper.1 hproper.2.1 hproper.2.2 hstep
    exact ⟨halive', h.same h.elements (enumeration_of_pairs rfl (congrArg _ hpairs))⟩
  | directDefineOwnProperty name desc =>
    obtain ⟨⟨added, out⟩, hadd, hadded⟩ := Option.map_eq_some_iff.1 hnext
    cases hadded
    have hfresh : name.key memory ∉ (t.pairs memory).map Prod.fst :=
      fun hmem => hproper (mem_append_right _ hmem)
    obtain ⟨halive', hpairs, -, hown, helements⟩ :=
      call_spec halive (fresh_of_notMem hfresh) (fun _ _ => trivial) hadd
    refine ⟨halive', h.push (helements ▸ h.elements) hproper ?_⟩
    rw [enumeration, hown, hpairs, plainCall, map_append, ← append_assoc]
    rfl
  | defineOwnProperty name desc isExtensible =>
    obtain ⟨halive', helements, henumeration⟩ := define_spec halive hproper hfindable hnext
    refine ⟨halive', ?_⟩
    rw [keyStep]
    split
    · rename_i hextensible
      rw [if_pos hextensible] at henumeration
      by_cases hmem : name.key memory ∈ t.enumeration memory
      · rw [insertNew, if_pos hmem] at henumeration
        rw [insertNew, if_pos (h.perm.mem_iff.1 hmem)]
        exact h.same (helements ▸ h.elements) henumeration
      · rw [insertNew, if_neg hmem] at henumeration
        rw [insertNew, if_neg fun hkey => hmem (h.perm.mem_iff.2 hkey)]
        exact h.push (helements ▸ h.elements) hmem henumeration
    · rename_i hextensible
      rw [if_neg hextensible] at henumeration
      exact h.same (helements ▸ h.elements) henumeration
  | deleteOwnProperty name isConfigurable =>
    obtain ⟨halive', helements, henumeration⟩ := delete_spec halive hproper hfindable hnext
    refine ⟨halive', ?_⟩
    rw [keyStep]
    split
    · rename_i hconfigurable
      rw [if_pos hconfigurable] at henumeration
      exact h.erase (helements ▸ h.elements) henumeration
    · rename_i hconfigurable
      rw [if_neg hconfigurable] at henumeration
      exact h.same (helements ▸ h.elements) henumeration
  | convertToNonTransitionStructure =>
    obtain ⟨⟨converted, out⟩, hconvert, hconverted⟩ := Option.map_eq_some_iff.1 hnext
    cases hconverted
    have hcall : t.structures.Proper memory (.call t.object .convertToNonTransitionStructure) :=
      fun _ _ => trivial
    obtain ⟨halive', hpairs, -, hown, helements⟩ :=
      call_spec halive hcall (fun _ _ => trivial) hconvert
    exact ⟨halive', h.same (helements ▸ h.elements)
      (enumeration_of_pairs hown (congrArg _ hpairs))⟩
  | markReferencedByInlineCache =>
    obtain ⟨⟨marked, out⟩, hmark, hmarked⟩ := Option.map_eq_some_iff.1 hnext
    cases hmarked
    have hcall : t.structures.Proper memory (.call t.object .markReferencedByInlineCache) :=
      fun _ _ => trivial
    obtain ⟨halive', hpairs, -, hown, helements⟩ :=
      call_spec halive hcall (fun _ _ => trivial) hmark
    exact ⟨halive', h.same (helements ▸ h.elements)
      (enumeration_of_pairs hown (congrArg _ hpairs))⟩
  | storeElement key =>
    cases hnext
    exact ⟨⟨halive.ok, halive.live⟩, h.store hproper.1 hproper.2⟩
  | removeElement key =>
    cases hnext
    refine ⟨⟨halive.ok, halive.live⟩, h.erase (fun other hother =>
      h.elements other (mem_of_mem_erase hother)) (erase_elements hproper)⟩
  | moveElement name desc =>
    have hnodup := h.perm.nodup_iff.2 h.nodup
    have hfresh : name.key memory ∉ ({ t with elements := t.elements.erase (name.key memory) } :
        TrackedObject).enumeration memory := by
      rw [erase_elements hproper, hnodup.mem_erase_iff]
      exact fun hmem => hmem.1 rfl
    have hwithout : ({ t with elements := t.elements.erase (name.key memory) } :
        TrackedObject).Alive limits memory := ⟨halive.ok, halive.live⟩
    obtain ⟨halive', helements, henumeration⟩ := define_spec hwithout
      (fun hmem => hfresh (mem_append_left _ hmem)) hfindable hnext
    rw [if_pos rfl, insertNew, if_neg hfresh] at henumeration
    exact ⟨halive', h.move hproper helements henumeration⟩

variable {construction : ObjectConstruction}

theorem map_fst_denote (memory : Nat → EString) (names : List ObjectStructurePropertyName)
    (desc : ObjectStructurePropertyDescriptor) : (StructureState.denote memory
      (names.map fun name => ⟨name, desc⟩)).map Prod.fst = names.map (·.key memory) := by
  rw [StructureState.denote, List.map_map, List.map_map]
  rfl

theorem structure_spec (hok : structures.Ok limits memory)
    (hproper : construction.Proper limits memory) :
    StructureOk limits memory structures.shared (construction.newStructure limits memory) ∧
      (if construction.isArrayObject then [lengthKey] else []) ++
        (StructureState.denote memory (StructureState.properties structures.shared
          (construction.newStructure limits memory))).map Prod.fst = construction.keys memory := by
  cases construction with
  | empty preferTransition isArrayObject =>
    obtain ⟨hstructure, hempty⟩ := hok.newObject preferTransition
    refine ⟨hstructure, ?_⟩
    rw [ObjectConstruction.newStructure, hempty]
    exact append_nil _
  | bulk names desc =>
    obtain ⟨hnodup, hflag⟩ := hproper
    have hkeys : (names.map (·.key memory)).foldl insertNew [] = names.map (·.key memory) :=
      foldl_insertNew_of_nodup _ hnodup
    have hdistinct : DistinctPropertyKeys memory
        (names.map fun name => (⟨name, desc⟩ : ObjectStructureItem)) := by
      rw [DistinctPropertyKeys, List.map_map]
      exact hnodup
    have hdenote := map_fst_denote memory names desc
    simp only [ObjectConstruction.newStructure, ObjectConstruction.keys, hkeys]
    split
    · exact ⟨⟨hdistinct, by rintro _ ⟨⟩⟩, hdenote⟩
    · rename_i hsize
      refine ⟨ObjectStructureWithoutTransition.ok_make ⟨fun hnone => ?_, fun hnone => ?_⟩ hdistinct
        (by rw [length_map]; omega), hdenote⟩
      · rcases hflag with hlarge | rfl | ⟨name, hname, hatomic⟩
        · exact absurd hlarge hsize
        · exact fun _ hmem => absurd hmem not_mem_nil
        · have hsymbol : name.isSymbol = false := by cases name <;> first | rfl | cases hatomic
          rw [List.any_eq_false] at hnone
          exact absurd (by rw [hsymbol, hatomic]; rfl) (hnone name hname)
      · rw [List.any_eq_false] at hnone
        exact forall_mem_map.2 fun name hname => Bool.eq_false_iff.2 (hnone name hname)

theorem create_holds (hok : structures.Ok limits memory)
    (hproper : construction.Proper limits memory) :
    (create limits memory structures construction).Alive limits memory ∧
      (create limits memory structures construction).Holds memory (construction.keys memory) := by
  obtain ⟨hstructure, hkeys⟩ := structure_spec hok hproper
  have henumeration : (create limits memory structures construction).enumeration memory =
      construction.keys memory := by
    rw [← hkeys, enumeration, pairs]
    cases hlength : construction.isArrayObject <;>
      simp [create, ownStorage, StructureState.observe, hlength]
  refine ⟨⟨⟨hok.allShared, hok.root, fun s hs => ?_⟩, ?_⟩, ?_, henumeration ▸ .refl _,
    by rw [henumeration], fun _ hmem => absurd hmem not_mem_nil⟩
  · rcases List.mem_append.1 hs with hold | hnew
    · exact hok.objects s hold
    · rw [List.mem_singleton.1 hnew]
      exact hstructure
  · simp [create]
  · cases construction with
    | empty preferTransition isArrayObject =>
      cases isArrayObject
      · exact .nil
      · exact pairwise_singleton _ _
    | bulk names desc => exact nodup_foldl_insertNew .nil

end Invariant

/-- A bulk construction is in order exactly when it gets no name twice. -/
theorem bulk_inOrder_iff (structures : StructureState) (names : List ObjectStructurePropertyName)
    (desc : ObjectStructurePropertyDescriptor) :
    InOrder ((ObjectConstruction.bulk names desc).keys memory) (ownPropertyKeys
        ((create limits memory structures (.bulk names desc)).enumeration memory)) ↔
      (names.map (·.key memory)).Nodup := by
  have henumeration : (create limits memory structures (.bulk names desc)).enumeration memory =
      names.map (·.key memory) := by
    have hpairs : (create limits memory structures (.bulk names desc)).pairs memory =
        StructureState.denote memory (StructureState.properties structures.shared
          ((ObjectConstruction.bulk names desc).newStructure limits memory)) := by
      simp [pairs, create, StructureState.observe]
    rw [enumeration, hpairs, ObjectConstruction.newStructure]
    split <;> exact map_fst_denote memory names desc
  rw [henumeration]
  constructor
  · exact fun h => (ownPropertyKeys_perm _).nodup_iff.1 h.exactlyOnce.1
  · intro hnodup
    rw [ObjectConstruction.keys, foldl_insertNew_of_nodup _ hnodup]
    exact ownPropertyKeys_inOrder hnodup (.refl _) rfl

/-- An object of 38 members, where the first and the last have one name. -/
example (memory : Nat → EString) (structures : StructureState) :
    let names := (List.range 38).map fun n => ObjectStructurePropertyName.atomic (n % 37)
    ¬ InOrder ((ObjectConstruction.bulk names ⟨1⟩).keys memory) (ownPropertyKeys
      ((create .standard memory structures (.bulk names ⟨1⟩)).enumeration memory)) :=
  (bulk_inOrder_iff _ _ _ _ _).not.2 fun h => absurd (h.of_map _) (by decide)

instance (t : TrackedObject) : ∀ op, Decidable (t.Proper memory op)
  | .elsewhere op => inferInstanceAs (Decidable (t.isCalledBy op = false ∧
      t.structures.Proper memory op ∧ t.structures.Findable memory op))
  | .directDefineOwnProperty name _ =>
    inferInstanceAs (Decidable (name.key memory ∉ t.enumeration memory))
  | .defineOwnProperty name _ _ | .deleteOwnProperty name _ =>
    inferInstanceAs (Decidable (name.key memory ∉ t.ownStorage))
  | .storeElement key =>
    inferInstanceAs (Decidable (key.index?.isSome ∧ key ∉ t.enumeration memory))
  | .removeElement key => inferInstanceAs (Decidable (key ∈ t.elements))
  | .moveElement name _ => inferInstanceAs (Decidable (name.key memory ∈ t.elements))
  | .convertToNonTransitionStructure | .markReferencedByInlineCache => isTrue trivial

instance (t : TrackedObject) : ∀ op, Decidable (t.Findable memory op)
  | .defineOwnProperty name _ _ | .deleteOwnProperty name _ | .moveElement name _ =>
    inferInstanceAs
      (Decidable (t.structures.Findable memory (.call t.object (.findProperty name))))
  | .elsewhere _ | .directDefineOwnProperty _ _ | .storeElement _ | .removeElement _
  | .convertToNonTransitionStructure | .markReferencedByInlineCache => isTrue trivial

/-- An array that leaves fast mode, with a key removed and defined again. -/
def arrayHistory : List ObjectOperation :=
  [.storeElement (.string [0x31]), .elsewhere (.newObject true),
    .defineOwnProperty (.symbol 3) ⟨1⟩ true, .defineOwnProperty (.atomic 0x61) ⟨1⟩ true,
    .defineOwnProperty (.atomic 0x62) ⟨1⟩ true, .deleteOwnProperty (.atomic 0x61) true,
    .convertToNonTransitionStructure, .moveElement (.atomic 0x31) ⟨1⟩,
    .defineOwnProperty (.atomic 0x30) ⟨1⟩ true, .defineOwnProperty (.atomic 0x61) ⟨1⟩ true]

/-- An object of four members that are defined and deleted afterwards. -/
def membersHistory : List ObjectOperation :=
  [.defineOwnProperty (.atomic 0x61) ⟨2⟩ true, .deleteOwnProperty (.atomic 0x62) true,
    .defineOwnProperty (.symbol 3) ⟨1⟩ true, .defineOwnProperty (.atomic 0x62) ⟨1⟩ true]

def members : ObjectConstruction :=
  .bulk [.atomic 0x62, .atomic 0x61, .atomic 0x31, .atomic 0x63] ⟨1⟩

end TrackedObject

namespace WideObject

open TrackedObject

/-- The object with its first properties. -/
def tracked (n : Nat) : TrackedObject := ⟨state n, 0, [], false⟩

def addDirectly (n : Nat) : ObjectOperation := .directDefineOwnProperty (.atomic n) desc

theorem enumeration_tracked (n : Nat) :
    (tracked n).enumeration texts = (items n).map fun item => item.propertyName.key texts := by
  have hpairs : (tracked n).pairs texts = StructureState.denote texts
        (StructureState.properties StructureState.initial.shared (wide n)) := rfl
  rw [enumeration, hpairs, properties_wide, StructureState.denote, List.map_map]
  rfl

variable {limits : StructureLimits} {memory : Nat → EString}

theorem call_single {shared shared' : List ObjectStructureWithTransition} {s s' : ObjectStructure}
    {method : StructureMethod} {answer : Option (Option Nat)}
    (h : StructureState.callStructure limits memory shared s method = some (shared', s', answer)) :
    (⟨⟨shared, [s]⟩, 0, [], false⟩ : TrackedObject).call limits memory method =
      some (⟨⟨shared', [s']⟩, 0, [], false⟩, answer) := by
  have hstep : StructureState.step limits memory ⟨shared, [s]⟩ (.call 0 method) = _ :=
    step_call rfl h
  rw [call, hstep]
  rfl

theorem properties_addProperty {self grown : ObjectStructureWithMap}
    {name : ObjectStructurePropertyName} {desc : ObjectStructurePropertyDescriptor}
    (h : self.addProperty memory name desc = some grown) :
    grown.properties = self.properties ++ [⟨name, desc⟩] := by
  unfold ObjectStructureWithMap.addProperty at h
  split at h
  · obtain ⟨map, -, rfl⟩ := Option.map_eq_some_iff.1 h
    rfl
  · cases h
    rfl

theorem step_addDirectly (i : Nat) (hi : i < 513) :
    TrackedObject.step .standard texts (tracked i) (addDirectly i) =
      some (tracked (i + 1), ()) := by
  obtain ⟨out, hout⟩ := step_add i hi
  have hcall : (tracked i).call .standard texts (.addProperty (.atomic i) desc) =
      some (tracked (i + 1), out.1) := by
    exact congrArg _ hout
  rw [TrackedObject.step, addDirectly, TrackedObject.next, hcall]
  rfl

theorem proper_addDirectly (i : Nat) (hi : i < 513) : (tracked i).Proper texts (addDirectly i) := by
  rw [addDirectly, TrackedObject.Proper, enumeration_tracked]
  intro hmem
  obtain ⟨item, hitem, hkey⟩ := List.mem_map.1 hmem
  obtain ⟨j, hj, rfl⟩ := List.mem_map.1 hitem
  exact key_ne (List.mem_range.1 hj) hi hkey

theorem run_addDirectly {n : Nat} (hn : n ≤ 513) (rest : List ObjectOperation) :
    ∃ outs, run (TrackedObject.step .standard texts) ((List.range n).map addDirectly ++ rest)
        (tracked 0) =
      (run (TrackedObject.step .standard texts) rest (tracked n)).map
        fun result => (result.1, outs ++ result.2) :=
  run_chain rest n tracked addDirectly fun i hi =>
    ⟨(), step_addDirectly i (Nat.lt_of_lt_of_le hi hn)⟩

theorem guarded_addDirectly {n : Nat} (hn : n ≤ 513) {rest : List ObjectOperation}
    (hrest : Guarded (TrackedObject.step .standard texts) (TrackedObject.Proper texts) rest
      (tracked n)) :
    Guarded (TrackedObject.step .standard texts) (TrackedObject.Proper texts)
      ((List.range n).map addDirectly ++ rest) (tracked 0) :=
  Guarded.chain n tracked addDirectly
    (fun i hi => ⟨(), step_addDirectly i (Nat.lt_of_lt_of_le hi hn)⟩)
    (fun i hi => proper_addDirectly i (Nat.lt_of_lt_of_le hi hn)) hrest

/-- The computed text is defined, although it is there. -/
def defineAgain : ObjectOperation := .defineOwnProperty (.plain 4096) desc true

theorem step_defineAgain : ∃ last, TrackedObject.step .standard texts (tracked 513) defineAgain =
    some (last, ()) ∧ last.enumeration texts =
      (items 513).map (fun item => item.propertyName.key texts) ++
        [(ObjectStructurePropertyName.plain 4096).key texts] := by
  have hload : (table 513).size < (table 513).loadThreshold := by
    change 513 < 2048 / 2
    omega
  have hcount : 0 < (table 513).bucketCount := by decide
  obtain ⟨map, hmap⟩ : ∃ map, (table 513).insert (PropertyNameMapWithCache.hash texts)
      (fun entry => entry.1.equals texts (.plain 4096)) (.plain 4096, (items 513).length) =
        some map := ⟨_, RobinTable.insert_of_free hcount bucket_free rfl hload⟩
  have hentry : (⟨table 513, .plain 4096, none⟩ : PropertyNameMapWithCache).insert texts
      (.plain 4096) (items 513).length = some ⟨map, .plain 4096, some (items 513).length⟩ := by
    rw [PropertyNameMapWithCache.insert, hmap]
    rfl
  have hadds : (searched.addProperty texts (.plain 4096) desc).isSome = true := by
    simp only [searched, ObjectStructureWithMap.addProperty, hentry]
    rfl
  obtain ⟨grown, hgrown⟩ := Option.isSome_iff_exists.1 hadds
  have hproperties : grown.properties = items 513 ++ [⟨.plain 4096, desc⟩] := by
    have hitems : searched.properties = items 513 := by rw [searched]
    rw [properties_addProperty hgrown, hitems]
  have hsearch : (tracked 513).call .standard texts (.findProperty (.plain 4096)) =
      some (⟨⟨StructureState.initial.shared, [.withMap searched]⟩, 0, [], false⟩, some none) := by
    have htracked : tracked 513 = ⟨⟨StructureState.initial.shared, [wide 513]⟩, 0, [], false⟩ := by
      rw [tracked, state]
    exact call_single call_search
  have hcallAdd : StructureState.callStructure .standard texts StructureState.initial.shared
      (.withMap searched) (.addProperty (.plain 4096) desc) =
        some (StructureState.initial.shared, .withMap grown, none) := by
    unfold StructureState.callStructure
    simp only [hgrown]
    rfl
  have hadd : (⟨⟨StructureState.initial.shared, [.withMap searched]⟩, 0, [], false⟩ :
      TrackedObject).call .standard texts (.addProperty (.plain 4096) desc) =
        some (⟨⟨StructureState.initial.shared, [.withMap grown]⟩, 0, [], false⟩, none) :=
    call_single hcallAdd
  refine ⟨⟨⟨StructureState.initial.shared, [.withMap grown]⟩, 0, [], false⟩, ?_, ?_⟩
  · rw [TrackedObject.step, defineAgain, TrackedObject.next, define, hsearch, bind_some]
    simp only [join_some, if_true]
    rw [hadd]
    rfl
  · have hpairs : (⟨⟨StructureState.initial.shared, [.withMap grown]⟩, 0, [], false⟩ :
        TrackedObject).pairs texts = StructureState.denote texts grown.properties := rfl
    have hlast : ([⟨.plain 4096, desc⟩] : List ObjectStructureItem).map
        (fun item => item.propertyName.key texts) =
          [(ObjectStructurePropertyName.plain 4096).key texts] := rfl
    rw [enumeration, hpairs, hproperties, StructureState.denote, List.map_map, ← hlast,
      ← map_append]
    exact nil_append _

end WideObject

end Escargot.Runtime
