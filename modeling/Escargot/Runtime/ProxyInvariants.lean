/-
# The essential invariants of proxies

Where a target can be asked for its properties without running user code, what a
proxy answers is consistent with the target as it was when it was asked. The
internal methods of the specification are so for any handler, hence the code is
wherever it does the same.
-/

import Escargot.Runtime.ProxyObjectRefinement

namespace Escargot.Runtime

open List Foundation Proxy

namespace ProxyObject

variable {W κ α : Type}

/-- A target that answers out of the heap and leaves it as it is. -/
structure ReadableTarget (p : ProxyObject W κ) where
  lookup : W → κ → Option GetResult
  extensible : W → Bool
  keys : W → List κ
  prototype : W → PrototypeValue
  getOwnProperty_eq : ∀ key heap,
    p.engine.target.getOwnProperty key heap = .ok (lookup heap key) heap
  isExtensible_eq : ∀ heap, p.engine.target.isExtensible heap = .ok (extensible heap) heap
  ownPropertyKeys_eq : ∀ heap, p.engine.target.ownPropertyKeys heap = .ok (keys heap) heap
  getPrototype_eq : ∀ heap, p.engine.target.getPrototype heap = .ok (prototype heap) heap

/-- What the essential invariants promise of an answer. -/
def Consistent {p : ProxyObject W κ} (r : p.ReadableTarget) (heap : W) :
    ProxyOp κ → ProxyAnswer κ → Prop
  | .getOwnProperty key, .property none => ∀ current, r.lookup heap key = some current →
      current.isConfigurable = true ∧ r.extensible heap = true
  | .getOwnProperty key, .property (some fields) =>
    (r.lookup heap key = none → r.extensible heap = true) ∧ (fields.configurable = false →
        ∃ current, r.lookup heap key = some current ∧ current.isConfigurable = false) ∧
      ∀ u e, r.lookup heap key = some (.data u false e false) →
        fields = .data u.observed false e false
  | .defineOwnProperty key desc, .boolean true =>
    (r.lookup heap key = none → r.extensible heap = true) ∧
      (desc.desc.fields.configurable = some false →
        ∃ current, r.lookup heap key = some current ∧ current.isConfigurable = false) ∧
      ∀ current, r.lookup heap key = some current → desc.desc.fields.isValid current.fields = true
  | .deleteOwnProperty key, .boolean true => ∀ current, r.lookup heap key = some current →
      current.isConfigurable = true
  | .hasProperty key, .boolean false => ∀ current, r.lookup heap key = some current →
      current.isConfigurable = true ∧ r.extensible heap = true
  | .get key _, .value v => ∀ u e, r.lookup heap key = some (.data u false e false) →
      v.observed = u.observed
  | .set key v _, .boolean true => ∀ u e, r.lookup heap key = some (.data u false e false) →
      v.observed = u.observed
  | .ownPropertyKeys, .keys keys =>
    (∀ key ∈ r.keys heap, ∀ current, r.lookup heap key = some current →
      current.isConfigurable = false → key ∈ keys) ∧
      (r.extensible heap = false → ∀ key, key ∈ keys ↔ key ∈ r.keys heap)
  | .isExtensible, .boolean b => b = r.extensible heap
  | .preventExtensions, .boolean true => r.extensible heap = false
  | .getPrototype, .value v => r.extensible heap = false → v = (r.prototype heap).1
  | .setPrototype value, .boolean true => r.extensible heap = false → value.1 = (r.prototype heap).1
  | _, _ => True

/-- The heap in which the target is asked: the last one, or the one from which the trap's
descriptor is read. -/
def IsAsked (p : ProxyObject W κ) (heap last : W) : Prop :=
  heap = last ∨ ∃ obj desc, p.engine.toObjectPropertyDescriptor obj heap = .ok desc last

section Specification

variable {p : ProxyObject W κ} (r : p.ReadableTarget)

theorem leaves_withTrap {message name : String} {target : Machine W α}
    {present : Value → Value → Machine W α} {world : World W} {post : α → World W → Prop}
    (hpresent : ∀ handler trap called, Leaves (present handler trap) called post) :
    p.AtTrap name world fun _ _ _ =>
      Leaves (p.withTrap message name target present) world post := by
  intro handler hhandler trap called hmethod found hfound
  subst hfound
  unfold withTrap
  rw [hhandler]
  rw [leaves_bind_iff, leaves_of_ok hmethod]
  exact hpresent handler found called

variable {β : Type} {name : String} {f : α → β} {x : Machine W α}

theorem leaves_map_iff (f : α → β) (x : Machine W α) (world : World W) (post : β → World W → Prop) :
    Leaves (f <$> x) world post ↔ Leaves x world fun a next => post (f a) next := by
  rw [map_eq_pure_bind, leaves_bind_iff]
  exact leaves_congr fun a next => leaves_pure_iff _

theorem leaves_bind {f : α → Machine W β} {world : World W}
    {post : β → World W → Prop} (h : ∀ a next, Leaves (f a) next post) :
    Leaves (x >>= f) world post :=
  (leaves_bind_iff x f).mpr (leaves_of_forall h)

theorem AtTrap.leaves_map {world : World W} {post : β → World W → Prop}
    (h : p.AtTrap name world fun _ _ _ => Leaves x world fun a next => post (f a) next) :
    p.AtTrap name world fun _ _ _ => Leaves (f <$> x) world post :=
  fun handler hhandler trap called hmethod found hfound =>
    (leaves_map_iff f x world post).mpr (h handler hhandler trap called hmethod found hfound)

theorem leaves_read_bind {x : EStateM Thrown W α} {a : α} {world : World W}
    (hread : x world.1 = .ok a world.1) {f : α → Machine W β} {post : β → World W → Prop} :
    Leaves (onHeap x >>= f) world post ↔ Leaves (f a) world post := by
  have hok : onHeap x world = .ok a world := by
    unfold onHeap
    rw [hread]
  rw [leaves_bind_iff, leaves_of_ok hok]

theorem leaves_refusal {refused : Bool} {x : Machine W α} {world : World W}
    {post : α → World W → Prop} (h : refused = false → Leaves x world post) :
    Leaves (if refused then throwTypeError else x) world post := by
  cases refused with
  | true => exact leaves_throw _
  | false => exact h rfl

variable (key : κ)

theorem leaves_specCheckAbsent (answer : α) (world : World W) :
    Leaves (p.specCheckAbsent (r.lookup world.1 key) answer) world fun result last =>
      result = answer ∧ last = world ∧ ∀ current, r.lookup world.1 key = some current →
        current.isConfigurable = true ∧ r.extensible world.1 = true := by
  cases hlookup : r.lookup world.1 key with
  | none => exact (leaves_pure_iff _).mpr ⟨rfl, rfl, nofun⟩
  | some current =>
    refine leaves_refusal fun hconfigurable => ?_
    rw [leaves_read_bind (r.isExtensible_eq world.1)]
    refine leaves_refusal fun hextensible => (leaves_pure_iff _).mpr ⟨rfl, rfl, ?_⟩
    intro other hother
    cases hother
    exact ⟨by simpa using hconfigurable, by simpa using hextensible⟩

/-- What the specification's method promises after its trap. -/
def SpecKeeps (op : ProxyOp κ) (answer : ProxyAnswer κ) (last : World W) : Prop :=
  ∃ heap, p.IsAsked heap last.1 ∧ Consistent r heap op answer

theorem specKeeps_now {op : ProxyOp κ} {answer : ProxyAnswer κ} {last : World W}
    (hconsistent : Consistent r last.1 op answer) : SpecKeeps r op answer last :=
  ⟨last.1, .inl rfl, hconsistent⟩

theorem specDefineOwnProperty_keeps (desc : CallerDescriptor) (world : World W) :
    p.AtTrap "defineProperty" world fun _ _ _ =>
      Leaves (p.specDefineOwnProperty key desc) world fun b last =>
        SpecKeeps r (.defineOwnProperty key desc) (.boolean b) last := by
  refine leaves_withTrap fun handler trap called => ?_
  refine leaves_bind fun trapResult returned => ?_
  split
  · exact (leaves_pure_iff _).mpr (specKeeps_now r trivial)
  · rw [leaves_read_bind (r.getOwnProperty_eq key returned.1),
      leaves_read_bind (r.isExtensible_eq returned.1)]
    refine leaves_refusal fun hrefused => (leaves_pure_iff _).mpr (specKeeps_now r ?_)
    rw [specDefinitionIsRefused.eq_def] at hrefused
    cases hlookup : r.lookup returned.1 key with
    | none =>
      rw [hlookup, Option.map_none] at hrefused
      simp only [Bool.or_eq_false_iff, Bool.not_eq_eq_eq_not, Bool.not_false,
        beq_eq_false_iff_ne] at hrefused
      refine ⟨fun _ => hrefused.1, fun hset => absurd hset hrefused.2, fun current hcurrent => ?_⟩
      rw [hlookup] at hcurrent
      cases hcurrent
    | some current =>
      rw [hlookup, Option.map_some] at hrefused
      simp only [Bool.or_eq_false_iff, specIsCompatible_some] at hrefused
      obtain ⟨⟨hvalid, hset⟩, -⟩ := hrefused
      refine ⟨fun hnone => ?_, fun hfalse => ⟨current, hlookup, ?_⟩, fun other hother => ?_⟩
      · rw [hlookup] at hnone
        cases hnone
      · rw [hfalse, BEq.rfl, Bool.true_and, GetResult.configurable_fields] at hset
        exact hset
      · rw [hlookup] at hother
        cases hother
        simpa using hvalid

theorem specDeleteOwnProperty_keeps (world : World W) : p.AtTrap "deleteProperty" world fun _ _ _ =>
      Leaves (p.specDeleteOwnProperty key) world fun b last =>
        SpecKeeps r (.deleteOwnProperty key) (.boolean b) last := by
  refine leaves_withTrap fun handler trap called => ?_
  refine leaves_bind fun trapResult returned => ?_
  split
  · exact (leaves_pure_iff _).mpr (specKeeps_now r trivial)
  · rw [leaves_read_bind (r.getOwnProperty_eq key returned.1)]
    refine (leaves_specCheckAbsent r key true returned).mono ?_
    rintro b last ⟨rfl, rfl, habsent⟩
    exact specKeeps_now r fun current hcurrent => (habsent current hcurrent).1

theorem specHasProperty_keeps (world : World W) : p.AtTrap "has" world fun _ _ _ =>
      Leaves (p.specHasProperty key) world fun b last =>
        SpecKeeps r (.hasProperty key) (.boolean b) last := by
  refine leaves_withTrap fun handler trap called => ?_
  refine leaves_bind fun trapResult returned => ?_
  split
  · rw [leaves_read_bind (r.getOwnProperty_eq key returned.1)]
    refine (leaves_specCheckAbsent r key false returned).mono ?_
    rintro b last ⟨rfl, rfl, habsent⟩
    exact specKeeps_now r habsent
  · exact (leaves_pure_iff _).mpr (specKeeps_now r trivial)

variable (world : World W)

theorem specPreventExtensions_keeps : p.AtTrap "preventExtensions" world fun _ _ _ =>
      Leaves p.specPreventExtensions world fun b last =>
        SpecKeeps r (.preventExtensions : ProxyOp κ) (.boolean b) last := by
  refine leaves_withTrap fun handler trap called => ?_
  refine leaves_bind fun trapResult returned => ?_
  split
  · rw [leaves_read_bind (r.isExtensible_eq returned.1)]
    exact leaves_refusal fun hextensible => (leaves_pure_iff _).mpr (specKeeps_now r hextensible)
  · exact (leaves_pure_iff _).mpr (specKeeps_now r trivial)

theorem specIsExtensible_keeps : p.AtTrap "isExtensible" world fun _ _ _ =>
      Leaves p.specIsExtensible world fun b last =>
        SpecKeeps r (.isExtensible : ProxyOp κ) (.boolean b) last := by
  refine leaves_withTrap fun handler trap called => ?_
  refine leaves_bind fun trapResult returned => ?_
  rw [leaves_read_bind (r.isExtensible_eq returned.1)]
  refine leaves_refusal fun hsame => (leaves_pure_iff _).mpr (specKeeps_now r ?_)
  exact of_not_not fun hne => absurd hsame (by rw [bne_iff_ne.mpr hne]; exact nofun)

theorem specSetPrototype_keeps (value : PrototypeValue) (world : World W) :
    p.AtTrap "setPrototypeOf" world fun _ _ _ =>
      Leaves (p.specSetPrototype value) world fun b last =>
        SpecKeeps r (.setPrototype value : ProxyOp κ) (.boolean b) last := by
  refine leaves_withTrap fun handler trap called => ?_
  refine leaves_bind fun trapResult returned => ?_
  split
  · exact (leaves_pure_iff _).mpr (specKeeps_now r trivial)
  · rw [leaves_read_bind (r.isExtensible_eq returned.1)]
    split
    · rename_i hextensible
      refine (leaves_pure_iff _).mpr (specKeeps_now r fun hnot => ?_)
      rw [hextensible] at hnot
      cases hnot
    · rw [leaves_read_bind (r.getPrototype_eq returned.1)]
      refine leaves_refusal fun hsame => (leaves_pure_iff _).mpr (specKeeps_now r fun _ => ?_)
      simpa [specSameValue_eq] using hsame

theorem specGetPrototype_keeps : p.AtTrap "getPrototypeOf" world fun _ _ _ =>
      Leaves p.specGetPrototype world fun v last =>
        SpecKeeps r (.getPrototype : ProxyOp κ) (.value v) last := by
  refine leaves_withTrap fun handler trap called => ?_
  refine leaves_bind fun handlerProto returned => ?_
  split
  · exact leaves_throw _
  · rename_i hproto
    rw [leaves_read_bind (r.isExtensible_eq returned.1)]
    split
    · rename_i hextensible
      refine (leaves_pure_iff _).mpr (specKeeps_now r fun hnot => ?_)
      rw [hextensible] at hnot
      cases hnot
    · rw [leaves_read_bind (r.getPrototype_eq returned.1)]
      refine leaves_refusal fun hsame => (leaves_pure_iff _).mpr (specKeeps_now r fun _ => ?_)
      have hvalue : handlerProto.isObject = true ∨ handlerProto = .null := by
        simpa [or_iff_not_imp_left] using hproto
      simpa [specSameValue_eq ⟨handlerProto, hvalue⟩] using hsame

theorem specGet_keeps (receiver : Value) (world : World W) : p.AtTrap "get" world fun _ _ _ =>
      Leaves (p.specGet key receiver) world fun v last =>
        SpecKeeps r (.get key receiver) (.value v) last := by
  refine leaves_withTrap fun handler trap called => ?_
  refine leaves_bind fun trapResult returned => ?_
  rw [leaves_read_bind (r.getOwnProperty_eq key returned.1)]
  refine leaves_refusal fun hrefused => (leaves_pure_iff _).mpr (specKeeps_now r ?_)
  intro u e hlookup
  rw [hlookup] at hrefused
  simpa [specGetIsRefused, GetResult.fields] using hrefused

theorem specSet_keeps (v receiver : Value) (world : World W) : p.AtTrap "set" world fun _ _ _ =>
      Leaves (p.specSet key v receiver) world fun b last =>
        SpecKeeps r (.set key v receiver) (.boolean b) last := by
  refine leaves_withTrap fun handler trap called => ?_
  refine leaves_bind fun trapResult returned => ?_
  split
  · exact (leaves_pure_iff _).mpr (specKeeps_now r trivial)
  · rw [leaves_read_bind (r.getOwnProperty_eq key returned.1)]
    refine leaves_refusal fun hrefused => (leaves_pure_iff _).mpr (specKeeps_now r ?_)
    intro u e hlookup
    rw [hlookup] at hrefused
    simpa [specSetIsRefused, GetResult.fields] using hrefused

theorem create_of_isValid {desc : DescriptorFields ObservedValue AccessorFunction}
    {v : ObservedValue} {e : Bool}
    (hvalid : (specComplete desc).isValid (.data v false e false) = true) :
    (specComplete desc).create Value.undefined.observed .undefined = .data v false e false := by
  unfold specComplete at hvalid ⊢
  by_cases haccessor : desc.isAccessor = true
  · rw [if_pos haccessor] at hvalid
    simp [DescriptorFields.isValid, DescriptorFields.isGeneric, DescriptorFields.isAccessor,
      DescriptorFields.isData, PropertyFields.configurable] at hvalid
  · rw [if_neg haccessor] at hvalid ⊢
    simp [DescriptorFields.isValid, DescriptorFields.isGeneric, DescriptorFields.isAccessor,
      DescriptorFields.isData, DescriptorFields.agrees, PropertyFields.configurable,
      PropertyFields.enumerable] at hvalid
    simp [DescriptorFields.create, DescriptorFields.isAccessor, hvalid]

theorem configurable_specComplete (desc : DescriptorFields ObservedValue AccessorFunction) :
    (specComplete desc).configurable =
      some ((specComplete desc).create Value.undefined.observed .undefined).configurable := by
  unfold specComplete
  by_cases haccessor : desc.isAccessor = true
  · rw [if_pos haccessor]
    rfl
  · rw [if_neg haccessor]
    rfl

theorem consistent_of_specReport (heap : W) {desc : CallerDescriptor}
    (haccepted : specReportIsRefused (specComplete desc.desc.fields)
      ((r.lookup heap key).map GetResult.fields) (r.extensible heap) = false) :
    Consistent r heap (.getOwnProperty key)
      (.property (some ((specComplete desc.desc.fields).create Value.undefined.observed
        .undefined))) := by
  rw [specReportIsRefused.eq_def, Bool.or_eq_false_iff, Bool.not_eq_false'] at haccepted
  obtain ⟨hcompatible, hreported⟩ := haccepted
  rw [configurable_specComplete] at hreported
  refine ⟨fun hnone => ?_, fun hfalse => ?_, fun u e hlookup => ?_⟩
  · rw [hnone] at hcompatible
    cases hextensible : r.extensible heap with
    | true => rfl
    | false =>
      rw [hextensible] at hcompatible
      cases hcompatible
  · rw [hfalse, BEq.rfl, Bool.true_and] at hreported
    cases hlookup : r.lookup heap key with
    | none =>
      rw [hlookup] at hreported
      cases hreported
    | some current =>
      rw [hlookup] at hreported
      refine ⟨current, rfl, ?_⟩
      cases current with
      | data v w e c => exact (Bool.or_eq_false_iff.mp hreported).1
      | accessor getterSetter e c => exact hreported
  · rw [hlookup, Option.map_some, specIsCompatible_some] at hcompatible
    exact create_of_isValid hcompatible

theorem specGetOwnProperty_keeps (world : World W) :
    p.AtTrap "getOwnPropertyDescriptor" world fun _ _ _ =>
      Leaves (p.specGetOwnProperty key) world fun fields last =>
        SpecKeeps r (.getOwnProperty key) (.property fields) last := by
  refine leaves_withTrap fun handler trap called => ?_
  refine leaves_bind fun trapResultObj returned => ?_
  split
  · exact leaves_throw _
  · rw [leaves_read_bind (r.getOwnProperty_eq key returned.1)]
    split
    · refine (leaves_specCheckAbsent r key none returned).mono ?_
      rintro fields last ⟨rfl, rfl, habsent⟩
      exact specKeeps_now r habsent
    · rw [leaves_read_bind (r.isExtensible_eq returned.1), leaves_bind_iff]
      intro resultDesc next hread
      refine leaves_refusal fun haccepted => (leaves_pure_iff _).mpr ?_
      refine ⟨returned.1, .inr ⟨trapResultObj, resultDesc, ?_⟩,
        consistent_of_specReport r key returned.1 haccepted⟩
      unfold onHeap at hread
      cases hresult : p.engine.toObjectPropertyDescriptor trapResultObj returned.1 with
      | ok desc heap =>
        rw [hresult] at hread
        cases hread
        rfl
      | error e heap =>
        rw [hresult] at hread
        cases hread

theorem leaves_classifyKeys (keys : List κ) (world : World W) :
    Leaves (p.classifyKeys keys) world fun classified last => last = world ∧
      (∀ key, key ∈ keys ↔ key ∈ classified.1 ∨ key ∈ classified.2) ∧
      ∀ key ∈ keys, ∀ current, r.lookup world.1 key = some current →
        current.isConfigurable = false → key ∈ classified.2 := by
  induction keys with
  | nil => exact (leaves_pure_iff _).mpr ⟨rfl, by simp, nofun⟩
  | cons first rest ih =>
    rw [classifyKeys, leaves_read_bind (r.getOwnProperty_eq first world.1), leaves_bind_iff]
    refine ih.mono ?_
    rintro classified last ⟨rfl, hkeys, hfixed⟩
    by_cases hfirst : (r.lookup last.1 first).any (!GetResult.isConfigurable ·) = true
    · rw [if_pos hfirst]
      refine (leaves_pure_iff _).mpr ⟨rfl, fun key => ?_, fun key hmem current hlookup hc => ?_⟩
      · rw [mem_cons, mem_cons, hkeys]
        tauto
      · rcases List.mem_cons.mp hmem with rfl | hmem
        · exact mem_cons_self
        · exact mem_cons_of_mem _ (hfixed key hmem current hlookup hc)
    · rw [if_neg hfirst]
      refine (leaves_pure_iff _).mpr ⟨rfl, fun key => ?_, fun key hmem current hlookup hc => ?_⟩
      · rw [mem_cons, mem_cons, hkeys]
        tauto
      · rcases List.mem_cons.mp hmem with rfl | hmem
        · exact absurd (by simp [hlookup, hc]) hfirst
        · exact hfixed key hmem current hlookup hc

variable [DecidableEq κ]

theorem specEraseKeys_some :
    ∀ (keys unchecked : List κ) {rest : List κ}, specEraseKeys keys unchecked = some rest →
      keys ⊆ unchecked ∧ rest ⊆ unchecked ∧ ∀ key ∈ unchecked, key ∈ keys ∨ key ∈ rest
  | [], unchecked, rest, h => by
      cases h
      exact ⟨nil_subset _, List.Subset.refl _, fun _ hmem => .inr hmem⟩
  | first :: keys, unchecked, rest, h => by
      rw [specEraseKeys] at h
      split at h
      · rename_i hfirst
        obtain ⟨hkeys, hrest, hall⟩ := specEraseKeys_some keys (unchecked.erase first) h
        have herase : unchecked.erase first ⊆ unchecked := erase_subset
        refine ⟨List.cons_subset.mpr ⟨hfirst, List.Subset.trans hkeys herase⟩,
          List.Subset.trans hrest herase, fun key hmem => ?_⟩
        by_cases hself : key = first
        · exact .inl (hself ▸ mem_cons_self)
        · exact (hall key ((mem_erase_of_ne hself).mpr hmem)).imp_left
            (mem_cons_of_mem _)
      · cases h

theorem specOwnPropertyKeys_keeps : p.AtTrap "ownKeys" world fun _ _ _ =>
      Leaves p.specOwnPropertyKeys world fun keys last =>
        SpecKeeps r .ownPropertyKeys (.keys keys) last := by
  refine leaves_withTrap fun handler trap called => ?_
  refine leaves_bind fun trapResultArray returned => ?_
  refine leaves_bind fun trapResult listed => ?_
  split
  · exact leaves_throw _
  · rw [leaves_read_bind (r.isExtensible_eq listed.1),
      leaves_read_bind (r.ownPropertyKeys_eq listed.1), leaves_bind_iff]
    refine (leaves_classifyKeys r (r.keys listed.1) listed).mono ?_
    rintro ⟨configurableKeys, nonconfigurableKeys⟩ last ⟨rfl, hkeys, hfixed⟩
    refine leaves_refusal fun haccepted => (leaves_pure_iff _).mpr (specKeeps_now r ?_)
    unfold specKeysAreRefused at haccepted
    split at haccepted
    · rename_i hopen
      obtain ⟨hextensible, hempty⟩ := Bool.and_eq_true_iff.mp hopen
      refine ⟨fun key hmem current hlookup hc => ?_, fun hnot => ?_⟩
      · rw [List.isEmpty_iff.mp hempty] at hfixed
        exact absurd (hfixed key hmem current hlookup hc) not_mem_nil
      · rw [hextensible] at hnot
        cases hnot
    · split at haccepted
      · cases haccepted
      · rename_i unchecked hfirst
        obtain ⟨hsubset, hrest, hall⟩ := specEraseKeys_some _ _ hfirst
        refine ⟨fun key hmem current hlookup hc => hsubset (hfixed key hmem current hlookup hc),
          fun hnot key => ?_⟩
        rw [hnot] at haccepted
        simp only [Bool.false_eq_true, if_false] at haccepted
        split at haccepted
        · cases haccepted
        · rename_i left hsecond
          obtain ⟨hsubset', -, hall'⟩ := specEraseKeys_some _ _ hsecond
          have hempty : left = [] := by simpa using haccepted
          rw [hkeys]
          constructor
          · intro hmem
            rcases hall key hmem with hin | hin
            · exact .inr hin
            · refine (hall' key hin).elim .inl fun hleft => ?_
              rw [hempty] at hleft
              cases hleft
          · rintro (hin | hin)
            · exact hrest (hsubset' hin)
            · exact hsubset hin

theorem specRun_keeps (op : ProxyOp κ) (world : World W) : p.AtTrap op.trapName world fun _ _ _ =>
      Leaves (p.specRun op) world fun answer last => SpecKeeps r op answer last := by
  cases op with
  | getOwnProperty key => exact (specGetOwnProperty_keeps r key world).leaves_map
  | defineOwnProperty key desc => exact (specDefineOwnProperty_keeps r key desc world).leaves_map
  | deleteOwnProperty key => exact (specDeleteOwnProperty_keeps r key world).leaves_map
  | hasProperty key => exact (specHasProperty_keeps r key world).leaves_map
  | get key receiver => exact (specGet_keeps r key receiver world).leaves_map
  | set key v receiver => exact (specSet_keeps r key v receiver world).leaves_map
  | ownPropertyKeys => exact (specOwnPropertyKeys_keeps r world).leaves_map
  | isExtensible => exact (specIsExtensible_keeps r world).leaves_map
  | preventExtensions => exact (specPreventExtensions_keeps r world).leaves_map
  | getPrototype => exact (specGetPrototype_keeps r world).leaves_map
  | setPrototype value => exact (specSetPrototype_keeps r value world).leaves_map

end Specification

variable [DecidableEq κ]
  (p : ProxyObject W κ) (r : p.ReadableTarget) (op : ProxyOp κ) (world : World W)

theorem meetsSpecification_iff : p.MeetsSpecification op world ↔ p.Condition op world := by
  unfold MeetsSpecification
  cases op with
  | getOwnProperty key =>
    have hmap : p.run (.getOwnProperty key) =
        ProxyAnswer.property <$> (Option.map GetResult.fields <$> p.getOwnProperty key) := by
      rw [← LawfulFunctor.comp_map]
      rfl
    rw [hmap, specRun, agreesAt_map_iff fun _ _ h => by injection h]
    exact agreesAt_getOwnProperty_iff p key world
  | defineOwnProperty key desc =>
    rw [run, specRun, agreesAt_map_iff fun _ _ h => by injection h]
    exact iff_of_true (agreesAt_defineOwnProperty p key desc world) trivial
  | deleteOwnProperty key =>
    rw [run, specRun, agreesAt_map_iff fun _ _ h => by injection h]
    exact agreesAt_deleteOwnProperty_iff p key world
  | hasProperty key =>
    rw [run, specRun, agreesAt_map_iff fun _ _ h => by injection h]
    exact iff_of_true (agreesAt_hasProperty p key world) trivial
  | get key receiver =>
    rw [run, specRun, agreesAt_map_iff fun _ _ h => by injection h]
    exact agreesAt_get_iff p key receiver world
  | set key v receiver =>
    rw [run, specRun, agreesAt_map_iff fun _ _ h => by injection h]
    exact agreesAt_set_iff p key v receiver world
  | ownPropertyKeys =>
    rw [run, specRun, agreesAt_map_iff fun _ _ h => by injection h]
    exact iff_of_true (agreesAt_ownPropertyKeys p world) trivial
  | isExtensible =>
    rw [run, specRun, agreesAt_map_iff fun _ _ h => by injection h]
    exact iff_of_true (agreesAt_isExtensible p world) trivial
  | preventExtensions =>
    rw [run, specRun, agreesAt_map_iff fun _ _ h => by injection h]
    exact iff_of_true (agreesAt_preventExtensions p world) trivial
  | getPrototype =>
    rw [run, specRun, agreesAt_map_iff fun _ _ h => by injection h]
    exact iff_of_true (agreesAt_getPrototype p world) trivial
  | setPrototype value =>
    rw [run, specRun, agreesAt_map_iff fun _ _ h => by injection h]
    exact iff_of_true (agreesAt_setPrototype p value world) trivial

/-- What the handler's trap leads to is consistent with the target. -/
def KeepsInvariants : Prop :=
  p.AtTrap op.trapName world fun _ _ _ =>
    Leaves (p.run op) world fun answer last =>
      ∃ heap, p.IsAsked heap last.1 ∧ Consistent r heap op answer

/-- A proxy does what the specification prescribes, and so keeps the essential invariants, if and
only if its checks are not deceived by a value that is undefined, by an equal value in another
word, by another receiver or by the order of the reads. -/
theorem proxy_meets_specification_iff :
    (p.MeetsSpecification op world ∧ ∀ r : p.ReadableTarget, p.KeepsInvariants r op world) ↔
      p.Condition op world := by
  constructor
  · exact fun h => (meetsSpecification_iff p op world).mp h.1
  · intro hcondition
    have hmeets := (meetsSpecification_iff p op world).mpr hcondition
    refine ⟨hmeets, fun r handler hhandler trap called hmethod found hfound answer last hrun => ?_⟩
    exact specRun_keeps r op world handler hhandler trap called hmethod found hfound answer last
      (hmeets.ok hrun)

/-- A proxy whose target has one property, and whose traps all give the same answer. -/
def sampleProxy (current : GetResult) (answer : Value) : ProxyObject Unit Unit where
  self := .object 0
  target := .object 1
  handler := some (.object 2)
  engine :=
    { target :=
        { getOwnProperty := fun _ => pure (some current)
          defineOwnProperty := fun _ _ => pure true
          deleteOwnProperty := fun _ => pure false
          hasProperty := fun _ => pure true
          get := fun _ _ => pure (some current)
          set := fun _ _ _ => pure false
          ownPropertyKeys := pure [()]
          isExtensible := pure true
          preventExtensions := pure true
          getPrototype := pure ⟨.null, .inr rfl⟩
          setPrototype := fun _ => pure true }
      getV := fun _ _ => pure (.object 3)
      isCallable := fun _ => true
      call := fun _ => pure answer
      toPropertyKeyValue := fun _ => .int32 0
      fromObjectPropertyDescriptor := fun _ => pure (.object 4)
      toObjectPropertyDescriptor := fun _ => pure ⟨.data none none none none, trivial⟩
      createListFromArrayLike := fun _ => pure [()] }

def sampleText : EString := .latin1 []

/-- A property that is not configurable and undefined is deleted, a string is refused that is the
same in another object, and another receiver is not passed on. -/
theorem proxy_breaks_invariants :
    (sampleProxy (.data .undefined false false false) (.boolean true)).run (.deleteOwnProperty ())
        ((), []) = .ok (.boolean true)
          ((), [⟨.object 3, .object 2, [.object 1, .int32 0]⟩]) ∧
      ¬ (sampleProxy (.data .undefined false false false) (.boolean true)).MeetsSpecification
        (.deleteOwnProperty ()) ((), []) ∧
      ¬ (sampleProxy (.data (.string 5 sampleText) false false false)
        (.string 6 sampleText)).MeetsSpecification (.get () (.object 0)) ((), []) ∧
      ¬ (sampleProxy (.data .null true false true) .null).MeetsSpecification
        (.get () (.object 7)) ((), []) := by
  refine ⟨rfl, nofun, ?_, ?_⟩
  · intro hmeets
    have hcondition := (meetsSpecification_iff _ _ _).mp hmeets
    have hword := (hcondition _ rfl _ _ rfl _ rfl).2 _ _ rfl _ _ rfl _ _ rfl rfl
    cases hword
  · intro hmeets
    have hcondition := (meetsSpecification_iff _ _ _).mp hmeets
    have hreceiver := (hcondition _ rfl _ _ rfl _ rfl).1
    cases hreceiver

end ProxyObject

end Escargot.Runtime
