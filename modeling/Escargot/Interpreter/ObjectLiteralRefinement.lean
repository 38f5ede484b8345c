/-
# Object literals are built entry by entry

Every entry of a literal comes down to elementary steps, each of which sets the
prototype or defines one property. The data that the code collects stands for the
object that the language has made after the same steps, and a structure that is
kept fits every later evaluation of the literal. This needs that names with the
same key compare equal and, where a filter is used, hash alike, and that
`__proto__` is written in a form that the code recognizes.
-/

import Escargot.Interpreter.ObjectLiteral
import Escargot.Runtime.ObjectStructureSearch

namespace Escargot.Interpreter

open List Escargot.Foundation Escargot.Runtime StructureState

section Steps

variable {α : Type} (context : LiteralContext α)

/-- What one `CreateObjectPrepare` has to do. -/
inductive LiteralStep (α : Type)
  | setPrototype (value : α)
  | define (stage : PrepareStage) (name : ObjectStructurePropertyName) (value : α)

def LiteralEntry.steps : LiteralEntry α → List (LiteralStep α)
  | .property node name value =>
    if node.isProtoSetter context name then [.setPrototype value]
    else [.define node.kind.stage name value]
  | .spread pairs => pairs.map fun pair => .define .fillKeyValue pair.1 pair.2

def CreateObjectData.perform (data : CreateObjectData α) : LiteralStep α → CreateObjectData α
  | .setPrototype value => data.setPrototype context value
  | .define stage name value => data.define context stage name value

def PrepareStage.descriptor (value : α) : PrepareStage → ObjectPropertyDescriptor α
  | .fillKeyValue => .allPresent value
  | .defineGetterSetter isGetter =>
    .accessor (if isGetter then some value else none) (if isGetter then none else some value)
      (some true) (some true)

def PlainObject.performStep [PropertyValue α] (o : PlainObject α) : LiteralStep α → PlainObject α
  | .setPrototype value => o.setPrototype context value
  | .define stage name value => o.define (name.key context.memory) (stage.descriptor value)

def LiteralStep.name? : LiteralStep α → Option ObjectStructurePropertyName
  | .setPrototype _ => none
  | .define _ name _ => some name

def LiteralStep.pair? : LiteralStep α → Option (ObjectStructurePropertyName × α)
  | .setPrototype _ => none
  | .define _ name value => some (name, value)

def LiteralStep.IsPlain : LiteralStep α → Prop
  | .setPrototype _ => True
  | .define stage _ _ => stage = .fillKeyValue

variable (entries : List (LiteralEntry α))

/-- All elementary steps of an evaluation. -/
def stepsOf : List (LiteralStep α) :=
  entries.flatMap (LiteralEntry.steps context)

/-- The names that an evaluation defines. -/
def namesOf : List ObjectStructurePropertyName :=
  (stepsOf context entries).filterMap LiteralStep.name?

/-- The evaluated name is one that the key of the element can give. Identifiers are
interned, so that there is one `__proto__`. -/
def LiteralEntry.Fits : LiteralEntry α → Prop
  | .property node name _ =>
    match node.key with
    | .identifier string =>
      name = .atomic string ∧
        ((context.memory string).content = protoUnits → string = context.proto)
    | .literal text => name.key context.memory = text
    | .computed => True
  | .spread _ => True

/-- `__proto__` is an identifier where it sets the prototype, and no fixed identifier
where it does not. -/
def LiteralEntry.HasPlainProto : LiteralEntry α → Prop
  | .property node name _ =>
    node.kind = .init → name.key context.memory = .string protoUnits → match node.key with
      | .identifier _ => node.isColonForm = true
      | .literal _ => node.isColonForm = false
      | .computed => True
  | .spread _ => True

/-- Names with the same key compare equal and, for a filter, hash alike. -/
def Consistent (filter : FilterKind) (names : List ObjectStructurePropertyName) : Prop :=
  ∀ a ∈ names, ∀ b ∈ names, a.key context.memory = b.key context.memory →
    a.equals context.memory b = true ∧
      (filter ≠ .none → a.hashValue context.memory = b.hashValue context.memory)

variable {context}

theorem isProtoSetter_iff {node : PropertyNode} {name : ObjectStructurePropertyName} {value : α}
    (hfits : LiteralEntry.Fits context (.property node name value))
    (hproto : LiteralEntry.HasPlainProto context (.property node name value)) :
    ((ObjectElement.hasKeyName (.property node) = true ∧ name = .atomic context.proto ∧
      node.kind.stage = .fillKeyValue) ↔ node.isProtoSetter context name = true) := by
  have hstage : node.kind.stage = .fillKeyValue ↔ node.kind = .init := by
    cases node.kind <;> simp [PropertyNodeKind.stage]
  rw [hstage]
  obtain ⟨key, kind, isColonForm, hasFunction⟩ := node
  cases key with
  | identifier string =>
    obtain ⟨rfl, hunique⟩ := hfits
    have htext : ((ObjectStructurePropertyName.atomic string).key context.memory =
        .string protoUnits) ↔ string = context.proto := by
      constructor
      · intro h
        exact hunique (PropertyKey.string.inj h)
      · rintro rfl
        exact congrArg PropertyKey.string context.proto_text
    have hform : kind = .init → string = context.proto → isColonForm = true :=
      fun hinit hstring => hproto hinit (htext.mpr hstring)
    simp only [ObjectElement.hasKeyName, PropertyNode.isProtoSetter, Bool.and_eq_true,
      beq_iff_eq, bne_iff_ne, htext, ObjectStructurePropertyName.atomic.injEq]
    constructor
    · rintro ⟨-, hstring, hinit⟩
      exact ⟨⟨⟨hinit, hform hinit hstring⟩, by simp⟩, hstring⟩
    · rintro ⟨⟨⟨hinit, -⟩, -⟩, hstring⟩
      exact ⟨trivial, hstring, hinit⟩
  | literal text =>
    have hform : kind = .init → name.key context.memory = .string protoUnits →
        isColonForm = false := hproto
    simp only [ObjectElement.hasKeyName, PropertyNode.isProtoSetter, Bool.and_eq_true,
      beq_iff_eq, bne_iff_ne, Bool.false_eq_true, false_and, false_iff, not_and]
    rintro ⟨⟨hinit, hcolon⟩, -⟩ htext
    rw [hform hinit htext] at hcolon
    cases hcolon
  | computed => simp [ObjectElement.hasKeyName, PropertyNode.isProtoSetter]

theorem prepareEntry_eq {entry : LiteralEntry α} (hfits : entry.Fits context)
    (hproto : entry.HasPlainProto context) (data : CreateObjectData α) :
    data.prepareEntry context entry =
      (entry.steps context).foldl (fun data step => data.perform context step) data := by
  cases entry with
  | property node name value =>
    have hiff := isProtoSetter_iff hfits hproto
    unfold CreateObjectData.prepareEntry CreateObjectData.prepare LiteralEntry.steps
    dsimp only
    by_cases hset : node.isProtoSetter context name = true
    · rw [if_pos (hiff.mpr hset), if_pos hset]
      rfl
    · rw [if_neg (fun h => hset (hiff.mp h)), if_neg hset]
      rfl
  | spread pairs =>
    unfold CreateObjectData.prepareEntry LiteralEntry.steps
    rw [foldl_map]
    rfl

theorem perform_eq [PropertyValue α] (entry : LiteralEntry α) (o : PlainObject α) :
    o.perform context entry =
      (entry.steps context).foldl (fun o step => o.performStep context step) o := by
  cases entry with
  | property node name value =>
    unfold PlainObject.perform LiteralEntry.steps
    dsimp only
    by_cases hset : node.isProtoSetter context name = true
    · rw [if_pos hset, if_pos hset]
      rfl
    · rw [if_neg hset, if_neg hset]
      cases hkind : node.kind <;> rfl
  | spread pairs =>
    unfold PlainObject.perform LiteralEntry.steps
    rw [foldl_map]
    rfl

theorem foldl_prepareEntry {entries : List (LiteralEntry α)}
    (hfits : ∀ entry ∈ entries, entry.Fits context)
    (hproto : ∀ entry ∈ entries, entry.HasPlainProto context) (data : CreateObjectData α) :
    entries.foldl (fun data entry => data.prepareEntry context entry) data =
      (stepsOf context entries).foldl (fun data step => data.perform context step) data := by
  induction entries generalizing data with
  | nil => rfl
  | cons entry entries ih =>
    rw [stepsOf, flatMap_cons, foldl_append, foldl_cons,
      prepareEntry_eq (hfits entry mem_cons_self) (hproto entry mem_cons_self)]
    exact ih (fun e he => hfits e (mem_cons_of_mem _ he))
      (fun e he => hproto e (mem_cons_of_mem _ he)) _

theorem referenceObject_eq [PropertyValue α] (entries : List (LiteralEntry α)) :
    referenceObject context entries =
      (stepsOf context entries).foldl (fun o step => o.performStep context step)
        ⟨[], context.objectPrototype⟩ := by
  have hgeneral : ∀ (entries : List (LiteralEntry α)) (o : PlainObject α),
      entries.foldl (fun o entry => o.perform context entry) o =
        (stepsOf context entries).foldl (fun o step => o.performStep context step) o := by
    intro entries
    induction entries with
    | nil => exact fun _ => rfl
    | cons entry entries ih =>
      intro o
      rw [stepsOf, flatMap_cons, foldl_append, foldl_cons, perform_eq]
      exact ih _
  exact hgeneral entries _

end Steps

section Collected

variable {α : Type} [PropertyValue α] {context : LiteralContext α}

namespace DescriptorBits

@[simp]
theorem dataDescriptor_spec : isDataProperty dataDescriptor = true ∧
    isWritable dataDescriptor = true ∧ isEnumerable dataDescriptor = true ∧
      isConfigurable dataDescriptor = true := by
  decide

variable (hasJSGetter hasJSSetter : Bool)

@[simp]
theorem accessorDescriptor_spec :
    isDataProperty (accessorDescriptor hasJSGetter hasJSSetter) = false ∧
      isEnumerable (accessorDescriptor hasJSGetter hasJSSetter) = true ∧
      isConfigurable (accessorDescriptor hasJSGetter hasJSSetter) = true := by
  cases hasJSGetter <;> cases hasJSSetter <;> decide

end DescriptorBits

def dataItem (name : ObjectStructurePropertyName) : ObjectStructureItem :=
  ⟨name, DescriptorBits.dataDescriptor⟩

namespace PropertyFilter

def kind : PropertyFilter → FilterKind
  | none => .none
  | small _ => .small
  | big _ => .big

theorem kind_add (filter : PropertyFilter) (hash : Nat) : (filter.add hash).kind = filter.kind := by
  unfold add
  split
  · rfl
  · cases filter <;> rfl

variable {filter : PropertyFilter}

theorem mayContain_of_kind_none (h : filter.kind = .none) (hash : Nat) :
    filter.mayContain hash = true := by
  cases filter with
  | none => rfl
  | small filter => cases h
  | big filter => cases h

theorem mayContain_add {hash other : Nat} (h : filter.mayContain other = true ∨ other = hash) :
    (filter.add hash).mayContain other = true := by
  unfold add
  split
  · rcases h with h | rfl
    · exact h
    · assumption
  · cases filter with
    | none => rfl
    | small filter =>
      rcases h with h | rfl
      · simp only [mayContain, BloomFilter.mayContain, BloomFilter.add, Bool.and_eq_true,
          Bool.or_eq_true] at h ⊢
        exact ⟨.inl (.inl h.1), .inl (.inl h.2)⟩
      · simp [mayContain, BloomFilter.mayContain, BloomFilter.add]
    | big filter =>
      rcases h with h | rfl
      · simp only [mayContain, BloomFilter.mayContain, BloomFilter.add, Bool.and_eq_true,
          Bool.or_eq_true] at h ⊢
        exact ⟨.inl (.inl h.1), .inl (.inl h.2)⟩
      · simp [mayContain, BloomFilter.mayContain, BloomFilter.add]

end PropertyFilter

inductive Denotes (context : LiteralContext α) :
    ObjectStructureItem × Slot α → PropertyKey × Property α → Prop
  | data (name : ObjectStructurePropertyName) (v : α) :
      Denotes context (dataItem name, .value v) (name.key context.memory, .plain v)
  | accessor (name : ObjectStructurePropertyName) (hasJSGetter hasJSSetter : Bool)
      (getter setter : Option α) :
      Denotes context
        (⟨name, DescriptorBits.accessorDescriptor hasJSGetter hasJSSetter⟩,
          .getterSetter getter setter)
        (name.key context.memory, .accessor getter setter true true)

variable {property : PropertyKey × Property α} {pair : ObjectStructureItem × Slot α}

omit [PropertyValue α] in
theorem Denotes.key_eq (h : Denotes context pair property) :
    pair.1.propertyName.key context.memory = property.1 := by
  cases h <;> rfl

theorem Denotes.readProperty_eq (h : Denotes context pair property) :
    readProperty pair.1 pair.2 = property.2 := by
  cases h with
  | data name v => simp [readProperty, dataItem, Property.plain]
  | accessor name hasJSGetter hasJSSetter getter setter => simp [readProperty]

variable {pairs : List (ObjectStructureItem × Slot α)}
  {properties : List (PropertyKey × Property α)}

theorem readProperties_of_denotes (h : List.Forall₂ (Denotes context) pairs properties) :
    readProperties context (pairs.map Prod.fst) (pairs.map Prod.snd) = properties := by
  induction h with
  | nil => rfl
  | cons hhead htail ih =>
    rw [map_cons, map_cons, readProperties, ih, hhead.key_eq, hhead.readProperty_eq]

theorem forall₂_set_modify {β γ : Type} {R : β → γ → Prop} {xs : List β} {ys : List γ}
    (h : List.Forall₂ R xs ys) {i : Nat} {x' : β} {f : γ → γ}
    (hnew : ∀ x y, xs[i]? = some x → R x y → R x' (f y)) :
    List.Forall₂ R (xs.set i x') (ys.modify i f) := by
  induction h generalizing i with
  | nil =>
    rw [modify_nil]
    exact .nil
  | cons hhead htail ih =>
    cases i with
    | zero => exact .cons (hnew _ _ rfl hhead) htail
    | succ i => exact .cons hhead (ih hnew)

omit [PropertyValue α] in
theorem findIdx?_denotes (h : List.Forall₂ (Denotes context) pairs properties) (k : PropertyKey) :
    properties.findIdx? (fun property => property.1 == k) =
      lookup context.memory (pairs.map Prod.fst) k := by
  rw [lookup_eq, findIdx?_map]
  induction h with
  | nil => rfl
  | cons hhead htail ih =>
    rw [findIdx?_cons, findIdx?_cons, ih]
    simp only [Function.comp_apply, hhead.key_eq]

/-- The data collected by some steps stands for the object that the language has made
by them. As long as it may be kept, its properties are the names in order. -/
structure Tracks (context : LiteralContext α) (filter : FilterKind) (data : CreateObjectData α)
    (o : PlainObject α) (done : List (LiteralStep α)) : Prop where
  notComputed : data.wasStructureComputed = false
  denotes : ∃ pairs, data.properties = pairs.map Prod.fst ∧ data.values = pairs.map Prod.snd ∧
    List.Forall₂ (Denotes context) pairs o.properties
  distinct : DistinctPropertyKeys context.memory data.properties
  seen : ∀ item ∈ data.properties, item.propertyName ∈ done.filterMap LiteralStep.name?
  kind : data.filter.kind = filter
  filtered : ∀ item ∈ data.properties,
    data.filter.mayContain (item.propertyName.hashValue context.memory) = true
  prototype : data.prototype = o.prototype
  kept : data.canStoreStructureOnCode = true →
    data.properties = (done.filterMap LiteralStep.name?).map dataItem ∧ ∀ step ∈ done, step.IsPlain

variable {filter : FilterKind} {data : CreateObjectData α} {o : PlainObject α}
  {done : List (LiteralStep α)} {name : ObjectStructurePropertyName}

omit [PropertyValue α] in
theorem Tracks.target_eq (tracks : Tracks context filter data o done)
    (hconsistent : Consistent context filter (done.filterMap LiteralStep.name? ++ [name])) :
    data.target context name = lookup context.memory data.properties (name.key context.memory) := by
  have hsame : ∀ item ∈ data.properties,
      item.propertyName.key context.memory = name.key context.memory →
      item.propertyName.equals context.memory name = true ∧
        (filter ≠ .none → item.propertyName.hashValue context.memory =
          name.hashValue context.memory) := by
    intro item hitem hkey
    exact hconsistent _ (mem_append_left _ (tracks.seen item hitem)) _
      (mem_append_right _ (List.mem_singleton.mpr rfl)) hkey
  have hcomparable : Comparable context.memory data.properties name :=
    fun item hitem hkey => (hsame item hitem hkey).1
  have hsearch : data.properties.findIdx? (fun item =>
      item.propertyName.equals context.memory name) =
      lookup context.memory data.properties (name.key context.memory) := by
    rw [lookup_eq]
    exact findIdx?_congr fun item hitem => hcomparable.equals_eq hitem
  unfold CreateObjectData.target
  split
  · exact hsearch
  · rename_i hmiss
    rw [eq_comm, lookup_eq_none_iff]
    intro item hitem hkey
    apply hmiss
    by_cases hnone : filter = .none
    · exact PropertyFilter.mayContain_of_kind_none (tracks.kind.trans hnone) _
    · rw [← (hsame item hitem hkey).2 hnone]
      exact tracks.filtered item hitem

theorem toProperty_descriptor (stage : PrepareStage) (name : ObjectStructurePropertyName)
    (value : α) (data : CreateObjectData α) :
    Denotes context (⟨name, (data.newProperty stage none value).1⟩,
        (data.newProperty stage none value).2)
      (name.key context.memory, (stage.descriptor value).toProperty) := by
  cases stage with
  | fillKeyValue => exact .data name value
  | defineGetterSetter isGetter =>
    cases isGetter with
    | true => exact .accessor name true false (some value) none
    | false => exact .accessor name false true none (some value)

/-- An accessor keeps its other half, and a property of another kind is replaced. -/
theorem apply_descriptor {stage : PrepareStage} {value : α} {i : Nat} {item : ObjectStructureItem}
    {slot : Slot α} (hitem : data.properties[i]? = some item)
    (hslot : data.values[i]? = some slot) (hdenotes : Denotes context (item, slot) property)
    (hkey : item.propertyName.key context.memory = name.key context.memory) :
    Denotes context (⟨name, (data.newProperty stage (some i) value).1⟩,
        (data.newProperty stage (some i) value).2)
      (property.1, (stage.descriptor value).apply property.2) := by
  rw [← hdenotes.key_eq, hkey]
  cases stage with
  | fillKeyValue =>
    cases hdenotes with
    | data other old => exact .data name value
    | accessor other hasJSGetter hasJSSetter getter setter => exact .data name value
  | defineGetterSetter isGetter =>
    have hpair : data.newProperty (.defineGetterSetter isGetter) (some i) value =
        (DescriptorBits.accessorDescriptor (data.accessorFlags isGetter (some i)).1
          (data.accessorFlags isGetter (some i)).2,
        if isGetter then .getterSetter (some value) (data.getterSetter (some i)).2
        else .getterSetter (data.getterSetter (some i)).1 (some value)) := rfl
    rw [hpair]
    cases hdenotes with
    | data other old =>
      have hnew : data.getterSetter (some i) = (none, none) := by
        simp only [CreateObjectData.getterSetter, hitem, hslot]
      rw [hnew]
      cases isGetter with
      | true => exact .accessor name _ _ (some value) none
      | false => exact .accessor name _ _ none (some value)
    | accessor other hasJSGetter hasJSSetter getter setter =>
      have hold : data.getterSetter (some i) = (getter, setter) := by
        simp [CreateObjectData.getterSetter, hitem, hslot]
      rw [hold]
      cases isGetter with
      | true => exact .accessor name _ _ (some value) setter
      | false => exact .accessor name _ _ getter (some value)

omit [PropertyValue α] in
theorem filterMap_name?_concat (done : List (LiteralStep α)) (stage : PrepareStage)
    (name : ObjectStructurePropertyName) (value : α) :
    (done ++ [LiteralStep.define stage name value]).filterMap LiteralStep.name? =
      done.filterMap LiteralStep.name? ++ [name] := by
  rw [filterMap_append]
  rfl

theorem Tracks.define (tracks : Tracks context filter data o done) {stage : PrepareStage}
    {value : α}
    (hconsistent : Consistent context filter (done.filterMap LiteralStep.name? ++ [name])) :
    Tracks context filter (data.define context stage name value)
      (o.define (name.key context.memory) (stage.descriptor value))
      (done ++ [.define stage name value]) := by
  obtain ⟨pairs, hproperties, hvalues, hdenotes⟩ := tracks.denotes
  have htarget := tracks.target_eq hconsistent
  have hfind := findIdx?_denotes hdenotes (name.key context.memory)
  rw [← hproperties] at hfind
  have hfilter : ∀ hash, data.filter.mayContain hash = true ∨ hash = name.hashValue context.memory →
      (data.filter.add (name.hashValue context.memory)).mayContain hash = true :=
    fun _ h => PropertyFilter.mayContain_add h
  have hkind := (data.filter.kind_add (name.hashValue context.memory)).trans tracks.kind
  unfold CreateObjectData.define PlainObject.define
  rw [if_neg (by rw [tracks.notComputed]; decide), hfind, htarget]
  cases hlookup : lookup context.memory data.properties (name.key context.memory) with
  | none =>
    have hfresh := lookup_eq_none_iff.mp hlookup
    refine ⟨tracks.notComputed, ⟨pairs ++ [_], ?_, ?_, rel_append hdenotes
      (.cons (toProperty_descriptor stage name value data) .nil)⟩, ?_, ?_, hkind, ?_,
      tracks.prototype, ?_⟩
    · rw [map_append, hproperties]
      rfl
    · rw [map_append, hvalues]
      rfl
    · exact tracks.distinct.add hfresh _
    · intro item hitem
      rw [filterMap_name?_concat]
      rcases List.mem_append.mp hitem with hold | hnew
      · exact mem_append_left _ (tracks.seen item hold)
      · rw [List.mem_singleton.mp hnew]
        exact mem_append_right _ (List.mem_singleton.mpr rfl)
    · intro item hitem
      rcases List.mem_append.mp hitem with hold | hnew
      · exact hfilter _ (.inl (tracks.filtered item hold))
      · rw [List.mem_singleton.mp hnew]
        exact hfilter _ (.inr rfl)
    · intro hkept
      rw [Bool.and_eq_true, decide_eq_true_eq] at hkept
      obtain ⟨hnames, hplain⟩ := tracks.kept hkept.1
      refine ⟨?_, ?_⟩
      · rw [filterMap_name?_concat, map_append, hnames, hkept.2]
        rfl
      · intro step hstep
        rcases List.mem_append.mp hstep with hold | hnew
        · exact hplain step hold
        · rw [List.mem_singleton.mp hnew]
          exact hkept.2
  | some i =>
    obtain ⟨item, hitem, hkey⟩ := exists_of_lookup_eq_some hlookup
    obtain ⟨⟨_, slot⟩, hpair, rfl⟩ : ∃ pair, pairs[i]? = some pair ∧ pair.1 = item := by
      rw [hproperties, getElem?_map] at hitem
      exact Option.map_eq_some_iff.mp hitem
    have hslot : data.values[i]? = some slot := by
      rw [hvalues, getElem?_map, hpair]
      rfl
    have hreplaced := @forall₂_set_modify _ _ (Denotes context) _ _ hdenotes i
      (⟨name, (data.newProperty stage (some i) value).1⟩, (data.newProperty stage (some i) value).2)
      (fun property => (property.1, (stage.descriptor value).apply property.2)) (by
        intro pair property hget hold
        cases hpair.symm.trans hget
        exact apply_descriptor hitem hslot hold hkey)
    refine ⟨tracks.notComputed, ⟨_, ?_, ?_, hreplaced⟩, tracks.distinct.set hitem hkey.symm, ?_,
      hkind, ?_, tracks.prototype, fun h => nomatch h⟩
    · rw [map_set, hproperties]
    · rw [map_set, hvalues]
    · intro item hmem
      rw [filterMap_name?_concat]
      rcases mem_or_eq_of_mem_set hmem with hold | rfl
      · exact mem_append_left _ (tracks.seen item hold)
      · exact mem_append_right _ (List.mem_singleton.mpr rfl)
    · intro item hmem
      rcases mem_or_eq_of_mem_set hmem with hold | rfl
      · exact hfilter _ (.inl (tracks.filtered item hold))
      · exact hfilter _ (.inr rfl)

omit [PropertyValue α] in
theorem Tracks.setPrototype (tracks : Tracks context filter data o done) (value : α) :
    Tracks context filter (data.setPrototype context value) (o.setPrototype context value)
      (done ++ [.setPrototype value]) := by
  have hnames : (done ++ [LiteralStep.setPrototype value]).filterMap LiteralStep.name? =
      done.filterMap LiteralStep.name? := by
    rw [filterMap_append]
    exact append_nil _
  have hkept : (∀ step ∈ done, step.IsPlain) →
      ∀ step ∈ done ++ [LiteralStep.setPrototype value], step.IsPlain := by
    intro h step hstep
    rcases List.mem_append.mp hstep with hold | hnew
    · exact h step hold
    · rw [List.mem_singleton.mp hnew]
      trivial
  unfold CreateObjectData.setPrototype PlainObject.setPrototype
  split
  · exact ⟨tracks.notComputed, tracks.denotes, tracks.distinct, by rw [hnames]; exact tracks.seen,
      tracks.kind, tracks.filtered, rfl, by
        rw [hnames]
        exact fun h => ⟨(tracks.kept h).1, hkept (tracks.kept h).2⟩⟩
  · exact ⟨tracks.notComputed, tracks.denotes, tracks.distinct, by rw [hnames]; exact tracks.seen,
      tracks.kind, tracks.filtered, tracks.prototype, by
        rw [hnames]
        exact fun h => ⟨(tracks.kept h).1, hkept (tracks.kept h).2⟩⟩

theorem Tracks.foldl {filter : FilterKind} {steps done : List (LiteralStep α)}
    {data : CreateObjectData α} {o : PlainObject α} (tracks : Tracks context filter data o done)
    (hconsistent : Consistent context filter ((done ++ steps).filterMap LiteralStep.name?)) :
    Tracks context filter (steps.foldl (fun data step => data.perform context step) data)
      (steps.foldl (fun o step => o.performStep context step) o) (done ++ steps) := by
  induction steps generalizing done data o with
  | nil =>
    rw [append_nil]
    exact tracks
  | cons step steps ih =>
    rw [append_cons] at hconsistent ⊢
    refine ih ?_ hconsistent
    cases step with
    | setPrototype value => exact tracks.setPrototype value
    | define stage name value =>
      apply tracks.define
      intro a ha b hb
      rw [← filterMap_name?_concat done stage name value] at ha hb
      rw [filterMap_append] at hconsistent
      exact hconsistent a (mem_append_left _ ha) b (mem_append_left _ hb)

omit [PropertyValue α] in
theorem tracks_initData (filter : FilterKind) (allPrecomputed : Bool) :
    Tracks context filter (initData context none filter allPrecomputed)
      ⟨[], context.objectPrototype⟩ [] where
  notComputed := rfl
  denotes := ⟨[], rfl, rfl, .nil⟩
  distinct := nodup_nil
  seen := fun _ h => nomatch h
  kind := by cases filter <;> rfl
  filtered := fun _ h => nomatch h
  prototype := rfl
  kept := fun _ => ⟨rfl, fun _ h => nomatch h⟩

end Collected

section Kept

variable {α : Type} {context : LiteralContext α}

/-- The names that a literal defines by its text alone. -/
def staticNames (context : LiteralContext α) (elements : List ObjectElement) :
    List ObjectStructurePropertyName :=
  elements.flatMap fun element =>
    match element with
    | .property node =>
      match node.key with
      | .identifier string =>
        if node.isProtoSetter context (.atomic string) then [] else [.atomic string]
      | _ => []
    | .spreadElement => []

/-- All entries are key and value with a fixed key. -/
def IsStatic (elements : List ObjectElement) : Prop :=
  ∀ element ∈ elements, ∃ node string, element = .property node ∧
    node.key = .identifier string ∧ node.kind = .init

structure KeptFor (context : LiteralContext α) (elements : List ObjectElement)
    (kept : List ObjectStructureItem) : Prop where
  static : IsStatic elements
  denotes : denote context.memory kept =
    denote context.memory ((staticNames context elements).map dataItem)
  distinct : DistinctPropertyKeys context.memory ((staticNames context elements).map dataItem)

variable {entries : List (LiteralEntry α)}

/-- Where all keys are fixed the names of an evaluation are those of the text. -/
theorem namesOf_eq (hfits : ∀ entry ∈ entries, entry.Fits context)
    (hkeys : ∀ element ∈ entries.map (·.element), element.hasKeyName = true) :
    namesOf context entries = staticNames context (entries.map (·.element)) := by
  induction entries with
  | nil => rfl
  | cons entry entries ih =>
    have hrest := ih (fun e he => hfits e (mem_cons_of_mem _ he))
      (fun e he => hkeys e (mem_cons_of_mem _ he))
    have hhead : (entry.steps context).filterMap LiteralStep.name? =
        staticNames context [entry.element] := by
      have hentry := hfits entry mem_cons_self
      have hkey := hkeys entry.element mem_cons_self
      cases entry with
      | spread pairs => cases hkey
      | property node name value =>
        obtain ⟨key, kind, isColonForm, hasFunction⟩ := node
        cases key with
        | literal text => cases hkey
        | computed => cases hkey
        | identifier string =>
          obtain ⟨rfl, -⟩ := hentry
          simp only [LiteralEntry.steps, staticNames, LiteralEntry.element,
            flatMap_cons, flatMap_nil, append_nil]
          split
          · rfl
          · rfl
    rw [namesOf, stepsOf, flatMap_cons, filterMap_append, hhead]
    rw [namesOf, stepsOf] at hrest
    rw [hrest]
    simp only [staticNames, map_cons, flatMap_cons, flatMap_nil, append_nil]

theorem IsStatic.hasKeyName {elements : List ObjectElement} (hstatic : IsStatic elements) :
    ∀ element ∈ elements, element.hasKeyName = true := by
  intro element helement
  obtain ⟨node, string, rfl, hkey, -⟩ := hstatic element helement
  simp only [ObjectElement.hasKeyName, hkey]

theorem IsStatic.isPlain (hstatic : IsStatic (entries.map (·.element))) :
    ∀ step ∈ stepsOf context entries, step.IsPlain := by
  intro step hstep
  obtain ⟨entry, hentry, hmem⟩ := List.mem_flatMap.mp hstep
  obtain ⟨node, string, helement, -, hkind⟩ := hstatic entry.element (List.mem_map_of_mem hentry)
  cases entry with
  | spread pairs => cases helement
  | property other name value =>
    cases helement
    unfold LiteralEntry.steps at hmem
    dsimp only at hmem
    split at hmem
    · rw [List.mem_singleton.mp hmem]
      trivial
    · rw [List.mem_singleton.mp hmem, hkind]
      rfl

theorem isStatic_of_isPlain (hkeys : ∀ element ∈ entries.map (·.element), element.hasKeyName = true)
    (hplain : ∀ step ∈ stepsOf context entries, step.IsPlain) :
    IsStatic (entries.map (·.element)) := by
  intro element helement
  have hkey := hkeys element helement
  obtain ⟨entry, hentry, rfl⟩ := List.mem_map.mp helement
  cases entry with
  | spread pairs => cases hkey
  | property node name value =>
    have hsteps : ∀ step ∈ LiteralEntry.steps context (.property node name value),
        step.IsPlain := fun step hstep => hplain step (List.mem_flatMap.mpr ⟨_, hentry, hstep⟩)
    have hkind : node.kind = .init := by
      unfold LiteralEntry.steps at hsteps
      dsimp only at hsteps
      split at hsteps
      · rename_i hset
        simp only [PropertyNode.isProtoSetter, Bool.and_eq_true, beq_iff_eq] at hset
        exact hset.1.1.1
      · have hstage : node.kind.stage = .fillKeyValue := hsteps _ (List.mem_singleton.mpr rfl)
        cases hnode : node.kind with
        | init => rfl
        | get => rw [hnode] at hstage; cases hstage
        | set => rw [hnode] at hstage; cases hstage
    obtain ⟨key, kind, isColonForm, hasFunction⟩ := node
    cases key with
    | identifier string => exact ⟨_, string, rfl, rfl, hkind⟩
    | literal text => cases hkey
    | computed => cases hkey

variable {x y : List ObjectStructureItem}

theorem denote_eq_of_hasSame (h : hasSamePropertiesTo context x y = true) :
    denote context.memory x = denote context.memory y := by
  rw [hasSamePropertiesTo, Bool.and_eq_true, beq_iff_eq] at h
  obtain ⟨hlength, hall⟩ := h
  induction x generalizing y with
  | nil => rw [List.length_eq_zero_iff.mp hlength.symm]
  | cons a x ih =>
    cases y with
    | nil => cases hlength
    | cons b y =>
      rw [zip_cons_cons, all_cons, Bool.and_eq_true, Bool.and_eq_true, beq_iff_eq] at hall
      have hrest := ih (Nat.succ.inj hlength) hall.2
      simp only [denote, map_cons] at hrest ⊢
      rw [hrest, ObjectStructurePropertyName.key_eq_of_equals hall.1.1, hall.1.2]

variable [PropertyValue α]

theorem readProperties_congr
    (h : denote context.memory x = denote context.memory y) (values : List (Slot α)) :
    readProperties context x values = readProperties context y values := by
  induction x generalizing y values with
  | nil =>
    have hy : y = [] := by
      rw [denote, denote, map_nil, eq_comm, map_eq_nil_iff] at h
      exact h
    rw [hy]
  | cons a x ih =>
    cases y with
    | nil => cases h
    | cons b y =>
      simp only [denote, map_cons, List.cons.injEq, Prod.mk.injEq] at h
      obtain ⟨⟨hkey, hdesc⟩, hrest⟩ := h
      cases values with
      | nil => rw [readProperties, readProperties, hkey, ih hrest]
      | cons slot values =>
        have hread : readProperty a slot = readProperty b slot := by simp only [readProperty, hdesc]
        rw [readProperties, readProperties, hkey, hread, ih hrest]

def plainPair (context : LiteralContext α) (pair : ObjectStructurePropertyName × α) :
    PropertyKey × Property α :=
  (pair.1.key context.memory, .plain pair.2)

variable {kept : List ObjectStructureItem}

theorem readProperties_kept {pairs : List (ObjectStructurePropertyName × α)}
    (h : denote context.memory kept = denote context.memory ((pairs.map Prod.fst).map dataItem)) :
    readProperties context kept (pairs.map fun pair => .value pair.2) =
      pairs.map (plainPair context) := by
  rw [readProperties_congr h]
  clear h
  induction pairs with
  | nil => rfl
  | cons pair pairs ih =>
    have hread : readProperty (dataItem pair.1) (.value pair.2) = .plain pair.2 :=
      (Denotes.data pair.1 pair.2 : Denotes context (dataItem pair.1, _) _).readProperty_eq
    simp only [map_cons] at ih ⊢
    rw [readProperties, hread, ih]
    rfl

omit [PropertyValue α] in
theorem filterMap_fst_pair? (steps : List (LiteralStep α)) :
    (steps.filterMap LiteralStep.pair?).map Prod.fst = steps.filterMap LiteralStep.name? := by
  rw [map_filterMap]
  congr 1
  funext step
  cases step <;> rfl

theorem performStep_plain {steps : List (LiteralStep α)} {o : PlainObject α}
    {pairs : List (ObjectStructurePropertyName × α)}
    (hplain : ∀ step ∈ steps, step.IsPlain) (ho : o.properties = pairs.map (plainPair context))
    (hdistinct : DistinctPropertyKeys context.memory
      (((pairs ++ steps.filterMap LiteralStep.pair?).map Prod.fst).map dataItem)) :
    (steps.foldl (fun o step => o.performStep context step) o).properties =
      (pairs ++ steps.filterMap LiteralStep.pair?).map (plainPair context) := by
  induction steps generalizing o pairs with
  | nil =>
    rw [filterMap_nil, append_nil]
    exact ho
  | cons step steps ih =>
    have hrest : ∀ step ∈ steps, step.IsPlain :=
      fun step hstep => hplain step (mem_cons_of_mem _ hstep)
    cases step with
    | setPrototype value =>
      have hsame : (o.setPrototype context value).properties = o.properties := by
        unfold PlainObject.setPrototype
        split <;> rfl
      exact ih hrest (hsame.trans ho) hdistinct
    | define stage name value =>
      have hstage : stage = .fillKeyValue := hplain _ mem_cons_self
      subst hstage
      have hcons : (LiteralStep.define .fillKeyValue name value :: steps).filterMap
          LiteralStep.pair? = (name, value) :: steps.filterMap LiteralStep.pair? := rfl
      rw [hcons, append_cons] at hdistinct ⊢
      have hfresh : o.properties.findIdx? (fun pair => pair.1 == name.key context.memory) =
          none := by
        rw [map_append, map_append, map_append, map_append] at hdistinct
        have hnew := hdistinct.of_concat.2
        rw [findIdx?_eq_none_iff, ho]
        intro pair hpair
        obtain ⟨other, hother, rfl⟩ := List.mem_map.mp hpair
        exact beq_false_of_ne
          (hnew (dataItem other.1) (List.mem_map_of_mem (List.mem_map_of_mem hother)))
      refine ih hrest ?_ hdistinct
      show (o.define (name.key context.memory) (.allPresent value)).properties = _
      unfold PlainObject.define
      rw [hfresh, map_append, ho]
      rfl

theorem prototype_define (o : PlainObject α) (k : PropertyKey)
    (desc : ObjectPropertyDescriptor α) : (o.define k desc).prototype = o.prototype := by
  unfold PlainObject.define
  split <;> rfl

theorem perform_computed {steps : List (LiteralStep α)} {data : CreateObjectData α}
    {o : PlainObject α} (hcomputed : data.wasStructureComputed = true)
    (hprototype : data.prototype = o.prototype) :
    (steps.foldl (fun data step => data.perform context step) data).values =
        data.values ++ (steps.filterMap LiteralStep.pair?).map (fun pair => .value pair.2) ∧
      (steps.foldl (fun data step => data.perform context step) data).prototype =
        (steps.foldl (fun o step => o.performStep context step) o).prototype := by
  induction steps generalizing data o with
  | nil => exact ⟨(append_nil _).symm, hprototype⟩
  | cons step steps ih =>
    cases step with
    | setPrototype value =>
      have hsame : (data.setPrototype context value).wasStructureComputed = true ∧
          (data.setPrototype context value).values = data.values ∧
          (data.setPrototype context value).prototype =
            (o.setPrototype context value).prototype := by
        unfold CreateObjectData.setPrototype PlainObject.setPrototype
        split
        · exact ⟨hcomputed, rfl, rfl⟩
        · exact ⟨hcomputed, rfl, hprototype⟩
      obtain ⟨hvalues, hproto⟩ := ih hsame.1 hsame.2.2
      exact ⟨hvalues.trans (by rw [hsame.2.1]; rfl), hproto⟩
    | define stage name value =>
      have hdefine : data.define context stage name value =
          { data with values := data.values ++ [.value value] } := if_pos hcomputed
      have hsame : (data.define context stage name value).wasStructureComputed = true ∧
          (data.define context stage name value).values = data.values ++ [.value value] ∧
          (data.define context stage name value).prototype =
            (o.define (name.key context.memory) (stage.descriptor value)).prototype := by
        rw [hdefine, prototype_define]
        exact ⟨hcomputed, rfl, hprototype⟩
      obtain ⟨hvalues, hproto⟩ := ih hsame.1 hsame.2.2
      refine ⟨hvalues.trans ?_, hproto⟩
      rw [hsame.2.1, append_assoc]
      rfl

theorem observe_kept (hfits : ∀ entry ∈ entries, entry.Fits context)
    (hkept : KeptFor context (entries.map (·.element)) kept) :
    readProperties context kept
        (((stepsOf context entries).filterMap LiteralStep.pair?).map fun pair => .value pair.2) =
      (referenceObject context entries).properties := by
  have hnames := namesOf_eq hfits hkept.static.hasKeyName
  rw [namesOf, ← filterMap_fst_pair?] at hnames
  have hdenotes := hkept.denotes
  have hdistinct := hkept.distinct
  rw [← hnames] at hdenotes hdistinct
  rw [readProperties_kept hdenotes, referenceObject_eq]
  have hempty : (⟨[], context.objectPrototype⟩ : PlainObject α).properties =
      ([] : List (ObjectStructurePropertyName × α)).map (plainPair context) := rfl
  exact (performStep_plain hkept.static.isPlain hempty hdistinct).symm

end Kept

section Evaluation

variable {α : Type} {context : LiteralContext α}
  {entries : List (LiteralEntry α)} {keys : List Nat}

theorem fastPathKeys_spec {acc : List Nat} (hfits : ∀ entry ∈ entries, entry.Fits context)
    (h : fastPathKeys context.proto (entries.map (·.element)) acc = some keys) :
    IsStatic (entries.map (·.element)) ∧
      (stepsOf context entries).filterMap (fun step => step.pair?.map Prod.snd) =
        entries.filterMap LiteralEntry.value? ∧
      (∀ step ∈ stepsOf context entries, step.name? ≠ none) ∧
      keys.map ObjectStructurePropertyName.atomic = acc.map ObjectStructurePropertyName.atomic ++
          staticNames context (entries.map (·.element)) ∧
      (acc.Nodup → keys.Nodup) := by
  induction entries generalizing acc with
  | nil =>
    cases h
    refine ⟨?_, rfl, ?_, (append_nil _).symm, id⟩
    · intro element helement
      cases helement
    · intro step hstep
      cases hstep
  | cons entry entries ih =>
    have hentry := hfits entry mem_cons_self
    cases entry with
    | spread pairs => cases h
    | property node name value =>
      obtain ⟨key, kind, isColonForm, hasFunction⟩ := node
      cases kind with
      | get => cases h
      | set => cases h
      | init =>
        cases key with
        | literal text => cases h
        | computed => cases h
        | identifier string =>
          obtain ⟨rfl, hunique⟩ := hentry
          simp only [map_cons, LiteralEntry.element, fastPathKeys] at h
          split at h
          · cases h
          · rename_i hplain
            simp only [not_or] at hplain
            obtain ⟨hstatic, hvalues, hnames, hkeys, hnodup⟩ :=
              ih (fun e he => hfits e (mem_cons_of_mem _ he)) h
            have hset : PropertyNode.isProtoSetter context
                ⟨.identifier string, .init, isColonForm, hasFunction⟩ (.atomic string) =
                false := by
              apply Bool.eq_false_iff.mpr
              intro hset
              simp only [PropertyNode.isProtoSetter, Bool.and_eq_true, beq_iff_eq] at hset
              exact hplain.1 (hunique (PropertyKey.string.inj hset.2))
            have hsteps : LiteralEntry.steps context (.property
                ⟨.identifier string, .init, isColonForm, hasFunction⟩ (.atomic string)
                value) = [.define .fillKeyValue (.atomic string) value] :=
              if_neg (Bool.eq_false_iff.mp hset)
            refine ⟨?_, ?_, ?_, ?_, ?_⟩
            · intro element helement
              rcases List.mem_cons.mp helement with rfl | hrest
              · exact ⟨_, string, rfl, rfl, rfl⟩
              · exact hstatic element hrest
            · rw [stepsOf, flatMap_cons, hsteps, filterMap_append]
              exact congrArg (value :: ·) hvalues
            · intro step hstep
              rw [stepsOf, flatMap_cons, hsteps] at hstep
              rcases List.mem_cons.mp hstep with rfl | hrest
              · exact Option.some_ne_none _
              · exact hnames step hrest
            · have hstaticNames : staticNames context (ObjectElement.property
                  ⟨.identifier string, .init, isColonForm, hasFunction⟩ ::
                    entries.map (·.element)) =
                  .atomic string :: staticNames context (entries.map (·.element)) := by
                simp only [staticNames, flatMap_cons, hset]
                rfl
              rw [hkeys, map_append, append_assoc]
              exact congrArg (acc.map _ ++ ·) hstaticNames.symm
            · intro hacc
              apply hnodup
              rw [nodup_append]
              refine ⟨hacc, nodup_singleton _, ?_⟩
              rintro a ha b hb rfl
              rw [List.mem_singleton.mp hb] at ha
              exact hplain.2.1 ha

variable (context) (entries)

def FitsElements (elements : List ObjectElement) (entries : List (LiteralEntry α)) : Prop :=
  entries.map (·.element) = elements ∧ ∀ entry ∈ entries, entry.Fits context

/-- The condition on the entries of a literal: `__proto__` is written in a form that
the code recognizes, and names with the same key compare equal and, where the
literal has a filter, hash alike. -/
def WellNamed : Prop :=
  (∀ entry ∈ entries, entry.HasPlainProto context) ∧
    Consistent context (filterKind (entries.map (·.element))) (namesOf context entries)

variable {context} {entries}

theorem distinct_fastPath {filter : FilterKind} (hnodup : keys.Nodup)
    (hconsistent : Consistent context filter (keys.map ObjectStructurePropertyName.atomic)) :
    DistinctPropertyKeys context.memory
      ((keys.map ObjectStructurePropertyName.atomic).map dataItem) := by
  rw [DistinctPropertyKeys, List.map_map, List.map_map]
  apply List.Nodup.map_on _ hnodup
  intro a ha b hb hkey
  have hequals := (hconsistent _ (List.mem_map_of_mem ha) _ (List.mem_map_of_mem hb) hkey).1
  exact beq_iff_eq.mp hequals

theorem canStore_of_perform {steps : List (LiteralStep α)} {data : CreateObjectData α}
    (h : (steps.foldl (fun data step => data.perform context step) data).canStoreStructureOnCode =
      true) : data.canStoreStructureOnCode = true := by
  induction steps generalizing data with
  | nil => exact h
  | cons step steps ih =>
    have hstep := ih h
    cases step with
    | setPrototype value =>
      dsimp only [CreateObjectData.perform, CreateObjectData.setPrototype] at hstep
      split at hstep
      · exact hstep
      · exact hstep
    | define stage name value =>
      dsimp only [CreateObjectData.perform, CreateObjectData.define] at hstep
      split at hstep
      · exact hstep
      · split at hstep
        · cases hstep
        · exact (Bool.and_eq_true_iff.mp hstep).1

variable [PropertyValue α]

/-- The kept structures fit their literals. -/
def LiteralState.Ok (context : LiteralContext α) (program : Nat → List ObjectElement)
    (state : LiteralState) : Prop :=
  ∀ site kept, state.cached site = some kept → KeptFor context (program site) kept

variable {program : Nat → List ObjectElement} {state : LiteralState} {site : Nat}

omit [PropertyValue α] in
theorem LiteralState.Ok.update (ok : state.Ok context program) {kept : List ObjectStructureItem}
    (hkept : KeptFor context (program site) kept) (rooted : List (List ObjectStructureItem)) :
    (⟨Function.update state.cached site (some kept), rooted⟩ : LiteralState).Ok context
      program := by
  intro other found hfound
  change Function.update state.cached site (some kept) other = some found at hfound
  by_cases hsite : other = site
  · subst hsite
    rw [Function.update_self] at hfound
    cases hfound
    exact hkept
  · rw [Function.update_of_ne hsite] at hfound
    exact ok other found hfound

omit [PropertyValue α] in
theorem denote_findRooted {properties found : List ObjectStructureItem}
    (h : state.findRootedObjectStructure context properties = some found) :
    denote context.memory found = denote context.memory properties := by
  have hfound := find?_some h
  rw [Bool.and_eq_true] at hfound
  exact denote_eq_of_hasSame hfound.2

theorem observe_fastPath {kept : List ObjectStructureItem}
    (hfits : ∀ entry ∈ entries, entry.Fits context)
    (hkept : KeptFor context (entries.map (·.element)) kept)
    (hkeys : fastPathKeys context.proto (entries.map (·.element)) [] = some keys) :
    LiteralObject.observe context
        ⟨kept, (entries.filterMap LiteralEntry.value?).map .value, context.objectPrototype⟩ =
      ((referenceObject context entries).properties,
        (referenceObject context entries).prototype) := by
  obtain ⟨-, hvalues, hnames, -, -⟩ := fastPathKeys_spec hfits hkeys
  have hprototype : (referenceObject context entries).prototype = context.objectPrototype := by
    rw [referenceObject_eq]
    have hgeneral : ∀ (steps : List (LiteralStep α)) (o : PlainObject α),
        (∀ step ∈ steps, step.name? ≠ none) →
        (steps.foldl (fun o step => o.performStep context step) o).prototype = o.prototype := by
      intro steps
      induction steps with
      | nil => exact fun _ _ => rfl
      | cons step steps ih =>
        intro o hsteps
        rw [foldl_cons, ih _ fun step hstep => hsteps step (mem_cons_of_mem _ hstep)]
        cases step with
        | setPrototype value => exact absurd rfl (hsteps _ mem_cons_self)
        | define stage name value => exact prototype_define o _ _
    exact hgeneral _ _ hnames
  rw [LiteralObject.observe, hprototype, ← observe_kept hfits hkept, ← hvalues,
    map_filterMap, map_filterMap]
  congr 2
  apply filterMap_congr
  intro step _
  cases step <;> rfl

theorem createOnlyKeyValueObjectOperation_spec (ok : state.Ok context program)
    (hfits : FitsElements context (program site) entries) (hnamed : WellNamed context entries)
    (hkeys : fastPathKeys context.proto (entries.map (·.element)) [] = some keys) :
    let result := createOnlyKeyValueObjectOperation context state site keys
      (entries.filterMap LiteralEntry.value?)
    result.1.Ok context program ∧ result.2.observe context =
      ((referenceObject context entries).properties,
        (referenceObject context entries).prototype) := by
  intro result
  obtain ⟨helements, hentries⟩ := hfits
  obtain ⟨hstatic, -, -, hatomic, hnodup⟩ := fastPathKeys_spec hentries hkeys
  rw [map_nil, nil_append] at hatomic
  have hdistinct : DistinctPropertyKeys context.memory
      ((staticNames context (entries.map (·.element))).map dataItem) := by
    have hconsistent := hnamed.2
    rw [namesOf_eq hentries hstatic.hasKeyName, ← hatomic] at hconsistent
    rw [← hatomic]
    exact distinct_fastPath (hnodup nodup_nil) hconsistent
  have hitems : (keys.map fun key => (⟨.atomic key, DescriptorBits.dataDescriptor⟩ :
      ObjectStructureItem)) = (staticNames context (entries.map (·.element))).map dataItem := by
    rw [← hatomic, List.map_map]
    rfl
  have hkept : ∀ kept, denote context.memory kept = denote context.memory
      ((staticNames context (entries.map (·.element))).map dataItem) →
      KeptFor context (entries.map (·.element)) kept :=
    fun kept hdenote => ⟨hstatic, hdenote, hdistinct⟩
  have hobserve : ∀ kept, KeptFor context (entries.map (·.element)) kept → _ :=
    fun kept h => observe_fastPath hentries h hkeys
  unfold result createOnlyKeyValueObjectOperation
  dsimp only
  rw [hitems]
  split
  · rename_i kept hcached
    exact ⟨ok, hobserve kept (helements ▸ ok site kept hcached)⟩
  · split
    · rename_i found hfound
      have hfor := hkept found (denote_findRooted hfound)
      exact ⟨ok.update (helements ▸ hfor) _, hobserve found hfor⟩
    · have hfor := hkept _ rfl
      exact ⟨ok.update (helements ▸ hfor) _, hobserve _ hfor⟩

theorem createObjectOperation_spec (ok : state.Ok context program)
    {cached : Option (List ObjectStructureItem)}
    (hcached : ∀ kept ∈ cached, KeptFor context (program site) kept)
    (hfits : FitsElements context (program site) entries) (hnamed : WellNamed context entries) :
    let elements := entries.map (·.element)
    let result := createObjectOperation context state site cached
      (elements.all ObjectElement.hasKeyName)
      (entries.foldl (fun data entry => data.prepareEntry context entry)
        (initData context cached (filterKind elements) (elements.all ObjectElement.hasKeyName)))
    result.1.Ok context program ∧ result.2.observe context =
      ((referenceObject context entries).properties,
        (referenceObject context entries).prototype) := by
  intro elements result
  obtain ⟨helements, hentries⟩ := hfits
  unfold result
  rw [foldl_prepareEntry hentries hnamed.1]
  cases cached with
  | some kept =>
    obtain ⟨hvalues, hprototype⟩ := @perform_computed _ context _ (stepsOf context entries)
      (initData context (some kept) (filterKind elements)
        (elements.all ObjectElement.hasKeyName)) ⟨[], context.objectPrototype⟩ rfl rfl
    refine ⟨ok, ?_⟩
    rw [createObjectOperation, LiteralObject.observe]
    rw [hvalues, hprototype, ← referenceObject_eq]
    exact congrArg (·, _) (observe_kept hentries (helements ▸ hcached kept rfl))
  | none =>
    have tracks := @Tracks.foldl _ _ context _ (stepsOf context entries) _ _ _
      (tracks_initData (filterKind elements) (elements.all ObjectElement.hasKeyName)) hnamed.2
    rw [nil_append, ← referenceObject_eq] at tracks
    generalize hdata : (stepsOf context entries).foldl
      (fun data step => data.perform context step)
      (initData context none (filterKind elements) (elements.all ObjectElement.hasKeyName)) =
      data at tracks
    obtain ⟨pairs, hproperties, hvalues, hdenotes⟩ := tracks.denotes
    have hread : readProperties context data.properties data.values =
        (referenceObject context entries).properties := by
      rw [hproperties, hvalues]
      exact readProperties_of_denotes hdenotes
    have hobserve : ∀ properties : List ObjectStructureItem,
        denote context.memory properties = denote context.memory data.properties →
        LiteralObject.observe context ⟨properties, data.values, data.prototype⟩ =
          ((referenceObject context entries).properties,
            (referenceObject context entries).prototype) := by
      intro properties hsame
      rw [LiteralObject.observe, tracks.prototype]
      exact congrArg (·, _) ((readProperties_congr hsame _).trans hread)
    unfold createObjectOperation
    dsimp only
    split
    · rename_i found hfound
      split at hfound
      · exact ⟨ok, hobserve found (denote_findRooted hfound)⟩
      · cases hfound
    · split
      · rename_i hstore
        have hprecomputed : elements.all ObjectElement.hasKeyName = true := by
          rw [← hdata] at hstore
          exact canStore_of_perform hstore
        rw [List.all_eq_true] at hprecomputed
        obtain ⟨hnames, hplain⟩ := tracks.kept hstore
        rw [← namesOf, namesOf_eq hentries hprecomputed] at hnames
        refine ⟨ok.update ?_ _, hobserve _ rfl⟩
        rw [← helements]
        refine ⟨isStatic_of_isPlain hprecomputed hplain, by rw [hnames], ?_⟩
        rw [← hnames]
        exact tracks.distinct
      · exact ⟨ok, hobserve _ rfl⟩

theorem evaluateLiteral_spec (ok : state.Ok context program)
    {cached : Option (List ObjectStructureItem)}
    (hcached : ∀ kept ∈ cached, KeptFor context (program site) kept)
    (hfits : FitsElements context (program site) entries) (hnamed : WellNamed context entries) :
    (evaluateLiteral context state site cached entries).1.Ok context program ∧
      (evaluateLiteral context state site cached entries).2.observe context =
        ((referenceObject context entries).properties,
          (referenceObject context entries).prototype) := by
  have hgeneral := createObjectOperation_spec ok hcached hfits hnamed
  unfold evaluateLiteral generateExpressionByteCode
  split
  · rename_i keys hcode
    split at hcode
    · split at hcode
      · rename_i hkeys
        cases hcode
        exact createOnlyKeyValueObjectOperation_spec ok hfits hnamed hkeys
      · cases hcode
    · cases hcode
  · rename_i filter allPrecomputed hcode
    split at hcode
    · split at hcode
      · cases hcode
      · cases hcode
        exact hgeneral
    · cases hcode
      exact hgeneral

/-- The machine is in order, and as many evaluations have started. -/
structure LiteralMachine.Ok (context : LiteralContext α) (program : Nat → List ObjectElement)
    (machine : LiteralMachine) (started : Nat) : Prop where
  state : machine.state.Ok context program
  pending : ∀ evaluation ∈ machine.pending, ∀ kept ∈ evaluation.2,
    KeptFor context (program evaluation.1) kept
  started : machine.pending.length = started

def LiteralMachine.Fits (context : LiteralContext α) (program : Nat → List ObjectElement)
    (machine : LiteralMachine) : LiteralOperation α → Prop
  | .start _ => True
  | .finish evaluation entries =>
    ∀ pending ∈ machine.pending[evaluation]?, FitsElements context (program pending.1) entries

def LiteralOperation.WellNamed (context : LiteralContext α) : LiteralOperation α → Prop
  | .start _ => True
  | .finish _ entries => Interpreter.WellNamed context entries

theorem literalStep_simulates {machine : LiteralMachine} {started : Nat} {op : LiteralOperation α}
    (ok : machine.Ok context program started)
    (hguard : machine.Fits context program op ∧ op.WellNamed context) :
    ∃ next out, machine.step context op = some (next, out) ∧
      out = (referenceStep context started op).2 ∧
      next.Ok context program (referenceStep context started op).1 := by
  cases op with
  | start site =>
    refine ⟨_, _, rfl, rfl, ok.state, ?_, ?_⟩
    · intro evaluation hmem kept hkept
      rcases List.mem_append.mp hmem with hold | hnew
      · exact ok.pending evaluation hold kept hkept
      · rw [List.mem_singleton.mp hnew] at hkept ⊢
        exact ok.state site kept hkept
    · exact (List.length_append.trans (congrArg (· + 1) ok.started))
  | finish evaluation entries =>
    unfold LiteralMachine.step
    dsimp only
    cases hpending : machine.pending[evaluation]? with
    | none =>
      have hlate : ¬evaluation < started := by
        rw [← ok.started]
        exact Nat.not_lt.mpr (List.getElem?_eq_none_iff.mp hpending)
      exact ⟨_, _, rfl, (if_neg hlate).symm, ok⟩
    | some pending =>
      have hearly : evaluation < started := by
        rw [← ok.started]
        exact (List.getElem?_eq_some_iff.mp hpending).1
      obtain ⟨hstate, hobserve⟩ := evaluateLiteral_spec ok.state
        (ok.pending pending (mem_of_getElem? hpending)) (hguard.1 pending hpending)
        hguard.2
      refine ⟨_, _, rfl, ?_, hstate, ok.pending, ok.started⟩
      exact (congrArg some hobserve).trans (if_pos hearly).symm

/-- Literals make the objects of the language: along every run of evaluations, nested
and interleaved in any way, each object has the properties, in order, and the
prototype that performing the entries one by one gives. -/
theorem literals_build_entry_by_entry (context : LiteralContext α)
    (program : Nat → List ObjectElement) (ops : List (LiteralOperation α))
    (hguarded : Guarded (LiteralMachine.step context)
      (fun machine op => machine.Fits context program op ∧ op.WellNamed context) ops .initial) :
    ∃ last, run (LiteralMachine.step context) ops .initial =
      some (last, (referenceRun (referenceStep context) ops 0).2) := by
  have hinitial : LiteralMachine.initial.Ok context program 0 := by
    refine ⟨?_, ?_, rfl⟩
    · intro site kept h
      cases h
    · intro evaluation h
      cases h
  have hsimulation : GuardedSimulation (LiteralMachine.step context) (referenceStep context)
      (fun machine op => machine.Fits context program op ∧ op.WellNamed context)
      (fun machine started => machine.Ok context program started) (· = ·) :=
    ⟨literalStep_simulates⟩
  obtain ⟨last, outs, hrun, houts, -⟩ := hsimulation.run_related ops hinitial hguarded
  rw [forall₂_eq_eq_eq] at houts
  rw [houts] at hrun
  exact ⟨last, hrun⟩

end Evaluation

section Examples

/-- The condition on a literal can be checked. -/
instance LiteralEntry.decidableFits {α : Type} (context : LiteralContext α) :
    ∀ entry : LiteralEntry α, Decidable (entry.Fits context)
  | .property ⟨.identifier _, _, _, _⟩ _ _ => inferInstanceAs (Decidable (_ ∧ _))
  | .property ⟨.literal _, _, _, _⟩ _ _ => inferInstanceAs (Decidable (_ = _))
  | .property ⟨.computed, _, _, _⟩ _ _ => isTrue trivial
  | .spread _ => isTrue trivial

instance LiteralEntry.decidableHasPlainProto {α : Type} (context : LiteralContext α) :
    ∀ entry : LiteralEntry α, Decidable (entry.HasPlainProto context)
  | .property ⟨.identifier _, _, _, _⟩ _ _ => inferInstanceAs (Decidable (_ → _ → _ = _))
  | .property ⟨.literal _, _, _, _⟩ _ _ => inferInstanceAs (Decidable (_ → _ → _ = _))
  | .property ⟨.computed, _, _, _⟩ _ _ => isTrue fun _ _ => trivial
  | .spread _ => isTrue trivial

instance {α : Type} (context : LiteralContext α) (elements : List ObjectElement)
    (entries : List (LiteralEntry α)) : Decidable (FitsElements context elements entries) :=
  inferInstanceAs (Decidable (_ ∧ _))

instance {α : Type} (context : LiteralContext α) (filter : FilterKind)
    (names : List ObjectStructurePropertyName) : Decidable (Consistent context filter names) :=
  inferInstanceAs (Decidable (∀ a ∈ names, ∀ b ∈ names, _ → _ ∧ (_ → _)))

instance {α : Type} (context : LiteralContext α) (entries : List (LiteralEntry α)) :
    Decidable (WellNamed context entries) :=
  inferInstanceAs (Decidable (_ ∧ _))

instance {α : Type} (context : LiteralContext α) (program : Nat → List ObjectElement)
    (machine : LiteralMachine) :
    ∀ op : LiteralOperation α, Decidable (machine.Fits context program op)
  | .start _ => isTrue trivial
  | .finish evaluation _ =>
    inferInstanceAs (Decidable (∀ pending ∈ machine.pending[evaluation]?, _))

instance {α : Type} (context : LiteralContext α) :
    ∀ op : LiteralOperation α, Decidable (op.WellNamed context)
  | .start _ => isTrue trivial
  | .finish _ entries => inferInstanceAs (Decidable (Interpreter.WellNamed context entries))

/-- Numbers as values; those from 100 on are objects. -/
instance : PropertyValue Nat := ⟨0, fun a b => a == b⟩

/-- Strings by address: `__proto__`, a text of seventeen digits that was interned and
one that was computed, and one letter each. -/
def letters (p : Nat) : EString :=
  if p = 0 then .utf16 protoUnits
  else if p = 1 ∨ p = 4096 then .latin1 (List.replicate 17 0x39)
  else .utf16 [UInt16.ofNat p]

def letterContext : LiteralContext Nat := ⟨letters, 0, rfl, fun v => decide (100 ≤ v), 777⟩

/-- `name: value`. -/
def colonEntry (string value : Nat) : LiteralEntry Nat :=
  .property ⟨.identifier string, .init, true, false⟩ (.atomic string) value

/-- `[name]: value`. -/
def computedEntry (name : ObjectStructurePropertyName) (value : Nat) : LiteralEntry Nat :=
  .property ⟨.computed, .init, true, false⟩ name value

/-- Getter and setter entries with a fixed key. -/
def accessorEntry (kind : PropertyNodeKind) (string value : Nat) : LiteralEntry Nat :=
  .property ⟨.identifier string, kind, false, false⟩ (.atomic string) value

/-- Three literals: one for the fast path, one with a prototype whose structure is
kept, and one with accessors, a repeated name and a filter. -/
def letterProgram : Nat → List ObjectElement
  | 0 => [colonEntry 5 0, colonEntry 6 0].map (·.element)
  | 1 => [colonEntry 5 0, colonEntry 0 0, colonEntry 6 0].map (·.element)
  | _ => [colonEntry 5 0, accessorEntry .get 6 0, accessorEntry .set 6 0, colonEntry 5 0,
      computedEntry (.symbol 9) 0, accessorEntry .get 6 0].map (·.element)

def letterRun : List (LiteralOperation Nat) :=
  [.start 1, .start 0, .finish 1 [colonEntry 5 10, colonEntry 6 11], .start 1,
    .finish 2 [colonEntry 5 20, colonEntry 0 100, colonEntry 6 21],
    .finish 0 [colonEntry 5 30, colonEntry 0 5, colonEntry 6 31], .start 1,
    .finish 3 [colonEntry 5 40, colonEntry 0 101, colonEntry 6 41], .start 2,
    .finish 4 [colonEntry 5 1, accessorEntry .get 6 2, accessorEntry .set 6 3, colonEntry 5 4,
      computedEntry (.symbol 9) 5, accessorEntry .get 6 6]]

theorem literals_build_letterRun :
    ∃ last, run (LiteralMachine.step letterContext) letterRun .initial =
      some (last, (referenceRun (referenceStep letterContext) letterRun 0).2) :=
  literals_build_entry_by_entry letterContext letterProgram letterRun (by decide +kernel)

/-- The evaluation of one literal gives what its entries say. -/
def BuildsOnce (entries : List (LiteralEntry Nat)) : Prop :=
  let ops : List (LiteralOperation Nat) := [.start 0, .finish 0 entries]
  Guarded (LiteralMachine.step letterContext)
      (fun machine op => machine.Fits letterContext (fun _ => entries.map (·.element)) op) ops
      .initial →
    ∃ last, run (LiteralMachine.step letterContext) ops .initial =
      some (last, (referenceRun (referenceStep letterContext) ops 0).2)

theorem not_buildsOnce {entries : List (LiteralEntry Nat)}
    (hfits : FitsElements letterContext (entries.map (·.element)) entries)
    (hwrong : (evaluateLiteral letterContext LiteralMachine.initial.state 0 none
        entries).2.observe letterContext ≠
      ((referenceObject letterContext entries).properties,
        (referenceObject letterContext entries).prototype)) :
    ¬ BuildsOnce entries := by
  intro hbuilds
  obtain ⟨last, hrun⟩ := hbuilds (by
    refine ⟨trivial, fun next out hnext => ?_⟩
    cases hnext
    refine ⟨fun pending hpending => ?_, fun _ _ _ => trivial⟩
    cases hpending
    exact hfits)
  have houts := (Prod.mk.inj (Option.some.inj hrun)).2
  exact hwrong (Option.some.inj (List.cons.inj (List.cons.inj houts).2).1)

/-- Three literals that come out wrong: a string as the key of the prototype, the short
form of `__proto__`, and, among six entries, the same text interned and computed. -/
theorem literals_not_always_built :
    ¬ BuildsOnce [.property ⟨.literal (.string protoUnits), .init, true, false⟩ (.atomic 0) 100] ∧
    ¬ BuildsOnce [.property ⟨.identifier 0, .init, false, false⟩ (.atomic 0) 100] ∧
    ¬ BuildsOnce [colonEntry 5 0, colonEntry 6 0, colonEntry 7 0, colonEntry 8 0,
      computedEntry (.atomic 1) 1, computedEntry (.plain 4096) 2] :=
  ⟨not_buildsOnce (by decide +kernel) (by decide +kernel),
    not_buildsOnce (by decide +kernel) (by decide +kernel),
    not_buildsOnce (by decide +kernel) (by decide +kernel)⟩

end Examples

end Escargot.Interpreter
