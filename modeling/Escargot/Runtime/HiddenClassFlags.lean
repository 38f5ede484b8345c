/-
# Summary flags of hidden classes

A flag that is down lets a search skip the properties of a kind, so it may only
be down when there is none. The flags are computed afresh, inherited or extended
in every method of the three classes of structures and in two constructors;
along every run they cover the properties. The flag for names that are not
interned exists for the classes that scan their properties, and the constructor
that takes all properties at once gets it wrong for names without any interned
one among them.
-/

import Escargot.Runtime.HiddenClass

namespace Escargot.Runtime

open List Escargot.Foundation

variable {limits : StructureLimits} {memory : Nat → EString} {native : Nat → Nat}

structure SummaryFlags.Covers (memory : Nat → EString) (native : Nat → Nat) (flags : SummaryFlags)
    (properties : List ObjectStructureItem) : Prop where
  index : ∀ item ∈ properties, item.propertyName.isIndexString memory = true →
    flags.hasIndexPropertyName = true
  symbol : ∀ item ∈ properties, item.propertyName.isSymbol = true →
    flags.hasSymbolPropertyName = true
  enumerable : ∀ item ∈ properties, item.descriptor.isEnumerable native = true →
    flags.hasEnumerableProperty = true

/-- The flag for names that are not interned is up when there is one. -/
def SummaryFlags.CoversNonAtomic (flags : SummaryFlags) (properties : List ObjectStructureItem) :
    Prop :=
  ∀ item ∈ properties, item.propertyName.hasAtomicString = false →
    flags.hasNonAtomicPropertyName = true

namespace SummaryFlags

theorem covers_ofProperties (properties : List ObjectStructureItem) :
    (ofProperties memory native properties).Covers memory native properties where
  index item hitem h := List.any_eq_true.mpr ⟨item, hitem, h⟩
  symbol item hitem h := List.any_eq_true.mpr ⟨item, hitem, h⟩
  enumerable item hitem h := List.any_eq_true.mpr ⟨item, hitem, h⟩

theorem coversNonAtomic_ofProperties (properties : List ObjectStructureItem) :
    (ofProperties memory native properties).CoversNonAtomic properties := by
  intro item hitem h
  exact List.any_eq_true.mpr ⟨item, hitem, by rw [h]; rfl⟩

variable {flags : SummaryFlags} {properties : List ObjectStructureItem}

theorem Covers.add (h : flags.Covers memory native properties) (item : ObjectStructureItem) :
    (flags.add memory native item).Covers memory native (properties ++ [item]) := by
  constructor
  · intro other hother hindex
    rcases List.mem_append.mp hother with hold | hnew
    · exact Bool.or_eq_true_iff.mpr (.inl (h.index other hold hindex))
    · rw [List.mem_singleton.mp hnew] at hindex
      exact Bool.or_eq_true_iff.mpr (.inr hindex)
  · intro other hother hsymbol
    rcases List.mem_append.mp hother with hold | hnew
    · exact Bool.or_eq_true_iff.mpr (.inl (h.symbol other hold hsymbol))
    · rw [List.mem_singleton.mp hnew] at hsymbol
      exact Bool.or_eq_true_iff.mpr (.inr hsymbol)
  · intro other hother henumerable
    rcases List.mem_append.mp hother with hold | hnew
    · exact Bool.or_eq_true_iff.mpr (.inl (h.enumerable other hold henumerable))
    · rw [List.mem_singleton.mp hnew] at henumerable
      exact Bool.or_eq_true_iff.mpr (.inr henumerable)

theorem CoversNonAtomic.add (h : flags.CoversNonAtomic properties) (item : ObjectStructureItem) :
    (flags.add memory native item).CoversNonAtomic (properties ++ [item]) := by
  intro other hother hatomic
  rcases List.mem_append.mp hother with hold | hnew
  · exact Bool.or_eq_true_iff.mpr (.inl (h other hold hatomic))
  · rw [List.mem_singleton.mp hnew] at hatomic
    exact Bool.or_eq_true_iff.mpr (.inr (by rw [hatomic]; rfl))

theorem mem_modify {idx : Nat} {newDesc : ObjectStructurePropertyDescriptor}
    {item : ObjectStructureItem}
    (h : item ∈ properties.modify idx fun item => { item with descriptor := newDesc }) :
    ∃ old ∈ properties, old.propertyName = item.propertyName ∧
      (item.descriptor = old.descriptor ∨ item.descriptor = newDesc) := by
  obtain ⟨i, hi⟩ := List.mem_iff_getElem?.mp h
  rw [getElem?_modify] at hi
  obtain ⟨old, hold, hitem⟩ := Option.map_eq_some_iff.mp hi
  refine ⟨old, mem_of_getElem? hold, ?_⟩
  split at hitem
  · subst hitem
    exact ⟨rfl, .inr rfl⟩
  · subst hitem
    exact ⟨rfl, .inl rfl⟩

theorem Covers.replace (h : flags.Covers memory native properties) (idx : Nat)
    (newDesc : ObjectStructurePropertyDescriptor) :
    (flags.replace native newDesc).Covers memory native
      (properties.modify idx fun item => { item with descriptor := newDesc }) := by
  constructor
  · intro item hitem hindex
    obtain ⟨old, hold, hname, -⟩ := mem_modify hitem
    exact h.index old hold (by rw [hname]; exact hindex)
  · intro item hitem hsymbol
    obtain ⟨old, hold, hname, -⟩ := mem_modify hitem
    exact h.symbol old hold (by rw [hname]; exact hsymbol)
  · intro item hitem henumerable
    obtain ⟨old, hold, -, hdesc | hdesc⟩ := mem_modify hitem
    · rw [hdesc] at henumerable
      exact Bool.or_eq_true_iff.mpr (.inl (h.enumerable old hold henumerable))
    · rw [hdesc] at henumerable
      exact Bool.or_eq_true_iff.mpr (.inr henumerable)

theorem CoversNonAtomic.replace (h : flags.CoversNonAtomic properties) (idx : Nat)
    (newDesc : ObjectStructurePropertyDescriptor) :
    (flags.replace native newDesc).CoversNonAtomic
      (properties.modify idx fun item => { item with descriptor := newDesc }) := by
  intro item hitem hatomic
  obtain ⟨old, hold, hname, -⟩ := mem_modify hitem
  exact h old hold (by rw [hname]; exact hatomic)

end SummaryFlags

namespace HiddenClass

def FlagsCover (memory : Nat → EString) (native : Nat → Nat) (self : HiddenClass) : Prop :=
  ∀ properties, self.properties = some properties → self.flags.Covers memory native properties

/-- In a class that scans its properties the fourth flag covers them too. -/
def NonAtomicCovers (self : HiddenClass) : Prop :=
  self.kind ≠ .withMap → ∀ properties, self.properties = some properties →
    self.flags.CoversNonAtomic properties

variable {self : HiddenClass} {properties : List ObjectStructureItem} {flags : SummaryFlags}

/-- A structure made from a list and flags has its flags right when these are. -/
theorem flagsCover_of (hlist : self.properties = some properties)
    (hflags : self.flags = flags ∨ self.flags = flags.forMap)
    (h : flags.Covers memory native properties) : self.FlagsCover memory native := by
  intro list hself
  cases hlist.symm.trans hself
  rcases hflags with hflags | hflags
  · rw [hflags]
    exact h
  · rw [hflags]
    exact ⟨h.index, h.symbol, h.enumerable⟩

theorem flagsCover_handOver (h : self.FlagsCover memory native) :
    self.handOver.FlagsCover memory native := by
  unfold handOver
  split
  · exact h
  · intro properties hproperties
    cases hproperties

theorem nonAtomicCovers_handOver (h : self.NonAtomicCovers) : self.handOver.NonAtomicCovers := by
  unfold handOver
  split
  · exact h
  · intro _ properties hproperties
    cases hproperties

theorem nonAtomicCovers_withMap (properties : List ObjectStructureItem) (flags : SummaryFlags) :
    (withMap properties flags).NonAtomicCovers :=
  fun h => absurd rfl h

theorem nonAtomicCovers_withoutTransition (h : flags.CoversNonAtomic properties) :
    (withoutTransition properties flags).NonAtomicCovers := by
  rintro - _ ⟨⟩
  exact h

theorem flagsCover_ofSize (h : flags.Covers memory native properties) :
    (ofSize limits properties flags).FlagsCover memory native := by
  unfold ofSize
  split
  · exact flagsCover_of rfl (.inr rfl) h
  · exact flagsCover_of rfl (.inl rfl) h

theorem nonAtomicCovers_ofSize (h : flags.CoversNonAtomic properties) :
    (ofSize limits properties flags).NonAtomicCovers := by
  unfold ofSize
  split
  · exact nonAtomicCovers_withMap properties flags
  · exact nonAtomicCovers_withoutTransition h

theorem create_cover (properties : List ObjectStructureItem) (preferTransition : Bool) :
    (create limits memory native properties preferTransition).FlagsCover memory native ∧
      (create limits memory native properties preferTransition).NonAtomicCovers := by
  have hcovers := @SummaryFlags.covers_ofProperties memory native properties
  have hall : ({ SummaryFlags.ofProperties memory native properties with
      hasEnumerableProperty := true } : SummaryFlags).Covers memory native properties :=
    ⟨hcovers.index, hcovers.symbol, fun _ _ _ => rfl⟩
  have hatomic : ({ SummaryFlags.ofProperties memory native properties with
      hasEnumerableProperty := true } : SummaryFlags).CoversNonAtomic properties :=
    @SummaryFlags.coversNonAtomic_ofProperties memory native properties
  unfold create
  split
  · exact ⟨flagsCover_of rfl (.inr rfl) hall, nonAtomicCovers_withMap _ _⟩
  · split
    · refine ⟨flagsCover_of rfl (.inl rfl) hall, ?_⟩
      rintro - _ ⟨⟩
      exact hatomic
    · exact ⟨flagsCover_of rfl (.inl rfl) hall, nonAtomicCovers_withoutTransition hatomic⟩

variable (names : List ObjectStructurePropertyName) (isWritable isEnumerable isConfigurable : Bool)

theorem isEnumerable_createDataDescriptor :
    (ObjectStructurePropertyDescriptor.createDataDescriptor isWritable isEnumerable
      isConfigurable).isEnumerable native = isEnumerable := by
  cases isWritable <;> cases isEnumerable <;> cases isConfigurable <;>
    simp [ObjectStructurePropertyDescriptor.isEnumerable,
      ObjectStructurePropertyDescriptor.presentAttributes,
      ObjectStructurePropertyDescriptor.createDataDescriptor, Nat.testBit]

theorem bulk_cover :
    (bulk limits memory names isWritable isEnumerable isConfigurable).FlagsCover memory native := by
  have hcovers : ({
        hasIndexPropertyName := names.any fun name => name.isIndexString memory
        hasSymbolPropertyName := names.any fun name => name.isSymbol
        hasNonAtomicPropertyName := names.any fun name => !name.isSymbol && name.hasAtomicString
        hasEnumerableProperty := isEnumerable } : SummaryFlags).Covers memory native
      (names.map fun name => (⟨name, .createDataDescriptor isWritable isEnumerable
        isConfigurable⟩ : ObjectStructureItem)) := by
    constructor
    · intro item hitem h
      obtain ⟨name, hname, rfl⟩ := List.mem_map.mp hitem
      exact List.any_eq_true.mpr ⟨name, hname, h⟩
    · intro item hitem h
      obtain ⟨name, hname, rfl⟩ := List.mem_map.mp hitem
      exact List.any_eq_true.mpr ⟨name, hname, h⟩
    · intro item hitem h
      obtain ⟨name, hname, rfl⟩ := List.mem_map.mp hitem
      rw [isEnumerable_createDataDescriptor] at h
      exact h
  unfold bulk
  split
  · exact flagsCover_of rfl (.inr rfl) hcovers
  · exact flagsCover_of rfl (.inl rfl) hcovers

end HiddenClass

/-- The names of a construction at once leave the fourth flag right: there is an interned
one among them or none that is not, or the structure keeps a map. -/
def bulkKeepsFlag (limits : StructureLimits) : HiddenClassOperation → Bool
  | .newBulkObject names _ _ _ =>
    limits.accessCacheBuildMinSize < names.length ||
      names.any (fun name => name.hasAtomicString) || names.isEmpty
  | _ => true

theorem HiddenClass.bulk_coversNonAtomic {names : List ObjectStructurePropertyName}
    {isWritable isEnumerable isConfigurable : Bool}
    (h : bulkKeepsFlag limits (.newBulkObject names isWritable isEnumerable isConfigurable) =
      true) :
    (HiddenClass.bulk limits memory names isWritable isEnumerable
      isConfigurable).NonAtomicCovers := by
  unfold HiddenClass.bulk
  split
  · exact nonAtomicCovers_withMap _ _
  · rename_i hsize
    apply nonAtomicCovers_withoutTransition
    intro item hitem hatomic
    obtain ⟨name, hname, rfl⟩ := List.mem_map.mp hitem
    simp only [bulkKeepsFlag, hsize, decide_false, Bool.false_or, Bool.or_eq_true] at h
    rcases h with h | h
    · obtain ⟨other, hother, hinterned⟩ := List.any_eq_true.mp h
      apply List.any_eq_true.mpr
      refine ⟨other, hother, ?_⟩
      cases other with
      | atomic string => rfl
      | plain string => cases hinterned
      | symbol address => cases hinterned
    · rw [List.isEmpty_iff.mp h] at hname
      cases hname

namespace HiddenClasses

structure FlagsOk (memory : Nat → EString) (native : Nat → Nat) (nonAtomic : Prop)
    (classes : HiddenClasses) : Prop where
  cover : ∀ self ∈ classes, self.FlagsCover memory native
  nonAtomic : nonAtomic → ∀ self ∈ classes, self.NonAtomicCovers

variable {nonAtomic : Prop} {classes : HiddenClasses}

theorem FlagsOk.append (h : classes.FlagsOk memory native nonAtomic) {made : HiddenClass}
    (hcover : made.FlagsCover memory native) (hatomic : nonAtomic → made.NonAtomicCovers) :
    HiddenClasses.FlagsOk memory native nonAtomic (classes ++ [made]) := by
  constructor
  · intro self hself
    rcases List.mem_append.mp hself with hold | hnew
    · exact h.cover self hold
    · rw [List.mem_singleton.mp hnew]
      exact hcover
  · intro hn self hself
    rcases List.mem_append.mp hself with hold | hnew
    · exact h.nonAtomic hn self hold
    · rw [List.mem_singleton.mp hnew]
      exact hatomic hn

theorem FlagsOk.set (h : classes.FlagsOk memory native nonAtomic) {number : Nat}
    {self : HiddenClass} (hcover : self.FlagsCover memory native)
    (hatomic : nonAtomic → self.NonAtomicCovers) :
    HiddenClasses.FlagsOk memory native nonAtomic (classes.set number self) := by
  constructor
  · intro other hother
    rcases mem_or_eq_of_mem_set hother with hold | rfl
    · exact h.cover other hold
    · exact hcover
  · intro hn other hother
    rcases mem_or_eq_of_mem_set hother with hold | rfl
    · exact h.nonAtomic hn other hold
    · exact hatomic hn

theorem FlagsOk.push (h : classes.FlagsOk memory native nonAtomic) {number : Nat}
    {self made : HiddenClass} (hself : self.FlagsCover memory native)
    (hself' : nonAtomic → self.NonAtomicCovers) (hmade : made.FlagsCover memory native)
    (hmade' : nonAtomic → made.NonAtomicCovers) :
    HiddenClasses.FlagsOk memory native nonAtomic (classes.push number self made).1 :=
  (h.set hself hself').append hmade hmade'

section Methods

variable {self : HiddenClass} {properties : List ObjectStructureItem}

section

variable (h : classes.FlagsOk memory native nonAtomic)
include h

theorem FlagsOk.addProperty (hself : self ∈ classes)
    (hproperties : self.properties = some properties) {number next : Nat}
    {item : ObjectStructureItem} {after : HiddenClasses}
    (hcall : classes.addProperty limits memory native number self properties item =
      some (after, next)) : after.FlagsOk memory native nonAtomic := by
  have hcover := h.cover self hself
  have hadd := (hcover properties hproperties).add item
  have hadd' : nonAtomic → self.kind ≠ .withMap →
      (self.flags.add memory native item).CoversNonAtomic (properties ++ [item]) :=
    fun hn hkind => (h.nonAtomic hn self hself hkind properties hproperties).add item
  have hhand := HiddenClass.flagsCover_handOver hcover
  have hhand' : nonAtomic → self.handOver.NonAtomicCovers := fun hn =>
    HiddenClass.nonAtomicCovers_handOver (h.nonAtomic hn self hself)
  simp only [HiddenClasses.addProperty] at hcall
  split at hcall
  · rename_i transitions hkind
    have hscans : self.kind ≠ .withMap := by rw [hkind]; exact nofun
    split at hcall
    · cases hcall
      exact h
    · split at hcall
      · cases hcall
        exact h.push hcover (fun hn => h.nonAtomic hn self hself)
          (HiddenClass.flagsCover_of rfl (.inl rfl) hadd)
          fun hn => HiddenClass.nonAtomicCovers_withoutTransition (hadd' hn hscans)
      · obtain ⟨added, -, hresult⟩ := Option.map_eq_some_iff.mp hcall
        cases hresult
        refine h.push hcover (fun hn _ => h.nonAtomic hn self hself hscans)
          (HiddenClass.flagsCover_of rfl (.inl rfl) hadd) ?_
        rintro hn - _ ⟨⟩
        exact hadd' hn hscans
  · rename_i hkind
    have hscans : self.kind ≠ .withMap := by rw [hkind]; exact nofun
    cases hcall
    exact h.push hhand hhand' (HiddenClass.flagsCover_ofSize hadd)
      fun hn => HiddenClass.nonAtomicCovers_ofSize (hadd' hn hscans)
  · cases hcall
    exact h.push hhand hhand' (HiddenClass.flagsCover_of rfl (.inr rfl) hadd)
      fun _ => HiddenClass.nonAtomicCovers_withMap _ _

theorem FlagsOk.removeProperty (hself : self ∈ classes) (number pIndex : Nat) :
    (classes.removeProperty limits memory native number self properties pIndex).1.FlagsOk
      memory native nonAtomic := by
  have hcover := h.cover self hself
  have hatomic : nonAtomic → self.NonAtomicCovers := fun hn => h.nonAtomic hn self hself
  have hall := @SummaryFlags.covers_ofProperties memory native (properties.eraseIdx pIndex)
  have hall' := @SummaryFlags.coversNonAtomic_ofProperties memory native
    (properties.eraseIdx pIndex)
  have hhand := HiddenClass.flagsCover_handOver hcover
  have hhand' : nonAtomic → self.handOver.NonAtomicCovers := fun hn =>
    HiddenClass.nonAtomicCovers_handOver (hatomic hn)
  unfold HiddenClasses.removeProperty
  split
  · exact h.push hcover hatomic (HiddenClass.flagsCover_of rfl (.inl rfl) hall)
      fun _ => HiddenClass.nonAtomicCovers_withoutTransition hall'
  · exact h.push hhand hhand' (HiddenClass.flagsCover_of rfl (.inl rfl) hall)
      fun _ => HiddenClass.nonAtomicCovers_withoutTransition hall'
  · exact h.push hhand hhand' (HiddenClass.flagsCover_ofSize hall)
      fun _ => HiddenClass.nonAtomicCovers_ofSize hall'

theorem FlagsOk.replacePropertyDescriptor (hself : self ∈ classes)
    (hproperties : self.properties = some properties) (number idx : Nat)
    (newDesc : ObjectStructurePropertyDescriptor) :
    (classes.replacePropertyDescriptor native number self properties idx newDesc).1.FlagsOk
      memory native nonAtomic := by
  have hcover := h.cover self hself
  have hatomic : nonAtomic → self.NonAtomicCovers := fun hn => h.nonAtomic hn self hself
  have hreplace := (hcover properties hproperties).replace idx newDesc
  have hreplace' : nonAtomic → self.kind ≠ .withMap → _ := fun hn hkind =>
    @SummaryFlags.CoversNonAtomic.replace native _ _ (hatomic hn hkind properties hproperties)
      idx newDesc
  have hhand := HiddenClass.flagsCover_handOver hcover
  have hhand' : nonAtomic → self.handOver.NonAtomicCovers := fun hn =>
    HiddenClass.nonAtomicCovers_handOver (hatomic hn)
  unfold HiddenClasses.replacePropertyDescriptor
  split
  · rename_i transitions hkind
    have hscans : self.kind ≠ .withMap := by rw [hkind]; exact nofun
    exact h.push hcover hatomic (HiddenClass.flagsCover_of rfl (.inl rfl) hreplace)
      fun hn => HiddenClass.nonAtomicCovers_withoutTransition (hreplace' hn hscans)
  · rename_i hkind
    have hscans : self.kind ≠ .withMap := by rw [hkind]; exact nofun
    exact h.push hhand hhand' (HiddenClass.flagsCover_of rfl (.inl rfl) hreplace)
      fun hn => HiddenClass.nonAtomicCovers_withoutTransition (hreplace' hn hscans)
  · exact h.push hhand hhand' (HiddenClass.flagsCover_of rfl (.inr rfl) hreplace)
      fun _ => HiddenClass.nonAtomicCovers_withMap _ _

theorem FlagsOk.convertToNonTransitionStructure (hself : self ∈ classes)
    (hproperties : self.properties = some properties) (number : Nat) :
    (classes.convertToNonTransitionStructure number self properties).1.FlagsOk
      memory native nonAtomic := by
  unfold HiddenClasses.convertToNonTransitionStructure
  split
  · rename_i transitions hkind
    have hscans : self.kind ≠ .withMap := by rw [hkind]; exact nofun
    have hcover := h.cover self hself
    exact h.push hcover (fun hn => h.nonAtomic hn self hself)
      (HiddenClass.flagsCover_of rfl (.inl rfl) (hcover properties hproperties))
      fun hn => HiddenClass.nonAtomicCovers_withoutTransition
        (h.nonAtomic hn self hself hscans properties hproperties)
  · exact h

end

end Methods

theorem FlagsOk.call (h : classes.FlagsOk memory native nonAtomic) {number next : Nat}
    {method : HiddenClassMethod} {after : HiddenClasses}
    (hcall : classes.call limits memory native number method = some (after, next)) :
    after.FlagsOk memory native nonAtomic := by
  unfold HiddenClasses.call at hcall
  split at hcall
  · cases hcall
  · rename_i self hself
    have hmem := mem_of_getElem? hself
    split at hcall
    · cases hcall
    · rename_i properties hproperties
      have hanswer : ∀ {result : HiddenClasses × Nat},
          result.1.FlagsOk memory native nonAtomic → some result = some (after, next) →
          after.FlagsOk memory native nonAtomic := by
        rintro result hresult ⟨⟩
        exact hresult
      cases method with
      | addProperty item => exact h.addProperty hmem hproperties hcall
      | removeProperty pIndex => exact hanswer (h.removeProperty hmem number pIndex) hcall
      | replacePropertyDescriptor idx newDesc =>
        exact hanswer (h.replacePropertyDescriptor hmem hproperties number idx newDesc) hcall
      | convertToNonTransitionStructure =>
        exact hanswer (h.convertToNonTransitionStructure hmem hproperties number) hcall
      | markReferencedByInlineCache =>
        refine hanswer ?_ hcall
        exact h.set (h.cover self hmem) fun hn => h.nonAtomic hn self hmem

end HiddenClasses

namespace HiddenClassState

variable {nonAtomic : Prop}

theorem flagsOk_step {state next : HiddenClassState} {op : HiddenClassOperation}
    (hatomic : nonAtomic → bulkKeepsFlag limits op = true)
    (h : state.classes.FlagsOk memory native nonAtomic) {out : Unit}
    (hstep : state.step limits memory native op = some (next, out)) :
    next.classes.FlagsOk memory native nonAtomic := by
  cases op with
  | createRoot properties preferTransition =>
    cases hstep
    have hcreate := @HiddenClass.create_cover limits memory native properties preferTransition
    exact h.append hcreate.1 fun _ => hcreate.2
  | newObject number =>
    simp only [step] at hstep
    split at hstep
    · cases hstep
    · split at hstep
      · cases hstep
        exact h
      · cases hstep
  | newObjectWith properties preferTransition =>
    cases hstep
    have hcreate := @HiddenClass.create_cover limits memory native properties preferTransition
    exact h.append hcreate.1 fun _ => hcreate.2
  | newBulkObject names isWritable isEnumerable isConfigurable =>
    cases hstep
    exact h.append (HiddenClass.bulk_cover names isWritable isEnumerable isConfigurable)
      fun hn => HiddenClass.bulk_coversNonAtomic (hatomic hn)
  | call object method =>
    simp only [step] at hstep
    split at hstep
    · cases hstep
    · obtain ⟨⟨classes, number⟩, hcall, hresult⟩ := Option.map_eq_some_iff.mp hstep
      cases hresult
      exact h.call hcall

theorem flagsOk_run {ops : List HiddenClassOperation} {state last : HiddenClassState}
    {outs : List Unit} (hatomic : nonAtomic → ∀ op ∈ ops, bulkKeepsFlag limits op = true)
    (h : state.classes.FlagsOk memory native nonAtomic)
    (hrun : run (fun state op => state.step limits memory native op) ops state =
      some (last, outs)) :
    last.classes.FlagsOk memory native nonAtomic := by
  induction ops generalizing state outs with
  | nil =>
    cases hrun
    exact h
  | cons op ops ih =>
    rw [run] at hrun
    split at hrun
    · cases hrun
    · rename_i next out hnext
      split at hrun
      · cases hrun
      · rename_i final rest hrest
        cases hrun
        refine ih (fun hn other hother => hatomic hn other (mem_cons_of_mem op hother)) ?_
          hrest
        exact flagsOk_step (fun hn => hatomic hn op mem_cons_self) h hnext

/-- Along every run the flags cover the properties of every structure: names that are
indices or symbols and enumerable properties always, and names that are not interned
in the classes that scan their properties, as long as no construction at once is given
only such names. -/
theorem flags_cover_properties (limits : StructureLimits) (memory : Nat → EString)
    (native : Nat → Nat) (ops : List HiddenClassOperation) (last : HiddenClassState)
    (outs : List Unit)
    (hrun : run (fun state op => state.step limits memory native op) ops initial =
      some (last, outs)) :
    ∀ self ∈ last.classes, ∀ properties, self.properties = some properties → ∀ item ∈ properties,
        (item.propertyName.isIndexString memory = true → self.flags.hasIndexPropertyName = true) ∧
        (item.propertyName.isSymbol = true → self.flags.hasSymbolPropertyName = true) ∧
        (item.descriptor.isEnumerable native = true → self.flags.hasEnumerableProperty = true) ∧
        ((∀ op ∈ ops, bulkKeepsFlag limits op = true) → self.kind ≠ .withMap →
          item.propertyName.hasAtomicString = false →
          self.flags.hasNonAtomicPropertyName = true) := by
  have hinitial : ∀ nonAtomic : Prop, initial.classes.FlagsOk memory native nonAtomic := by
    intro nonAtomic
    constructor
    · intro self hself
      rw [List.mem_singleton.mp hself]
      rintro _ ⟨⟩
      exact ⟨nofun, nofun, nofun⟩
    · intro _ self hself
      rw [List.mem_singleton.mp hself]
      rintro - _ ⟨⟩
      exact nofun
  have hok : last.classes.FlagsOk memory native (∀ op ∈ ops, bulkKeepsFlag limits op = true) :=
    flagsOk_run id (hinitial _) hrun
  intro self hself properties hproperties item hitem
  have hcovers := hok.cover self hself properties hproperties
  refine ⟨hcovers.index item hitem, hcovers.symbol item hitem, hcovers.enumerable item hitem, ?_⟩
  intro hbulk hkind
  exact hok.nonAtomic hbulk self hself hkind properties hproperties item hitem

/-- An object with a symbol for a name, and one made at once from an interned name and
a symbol. -/
def symbolObjects : List HiddenClassOperation :=
  [.newObject 0, .call 0 (.addProperty ⟨.symbol 5, .createDataDescriptor true true true⟩),
    .newBulkObject [.atomic 0, .symbol 1] true false true]

theorem flags_cover_properties_symbolObjects :
    ∃ last outs, run (fun state op => state.step .standard (fun _ => .latin1 [0x61])
        (fun _ => 0) op) symbolObjects initial = some (last, outs) ∧
      ∀ self ∈ last.classes, ∀ properties, self.properties = some properties →
        ∀ item ∈ properties, item.propertyName.isSymbol = true →
          self.flags.hasSymbolPropertyName = true ∧
            (self.kind ≠ .withMap → self.flags.hasNonAtomicPropertyName = true) := by
  refine ⟨_, _, rfl, ?_⟩
  intro self hself properties hproperties item hitem hsymbol
  have hcover := flags_cover_properties .standard (fun _ => .latin1 [0x61]) (fun _ => 0)
    symbolObjects _ _ rfl self hself properties hproperties item hitem
  refine ⟨hcover.2.1 hsymbol, fun hkind => hcover.2.2.2 (by decide) hkind ?_⟩
  cases hname : item.propertyName with
  | atomic string =>
    rw [hname] at hsymbol
    cases hsymbol
  | plain string => rfl
  | symbol address => rfl

/-- A structure with a map has symbols for names, and its flag for names that are not
interned is down. -/
theorem flags_do_not_always_cover :
    ¬ ∀ (limits : StructureLimits) (memory : Nat → EString) (native : Nat → Nat)
      (ops : List HiddenClassOperation) (last : HiddenClassState) (outs : List Unit),
      run (fun state op => state.step limits memory native op) ops initial = some (last, outs) →
      ∀ self ∈ last.classes, ∀ properties, self.properties = some properties → ∀ item ∈ properties,
          (item.propertyName.isIndexString memory = true → self.flags.hasIndexPropertyName = true) ∧
          (item.propertyName.isSymbol = true → self.flags.hasSymbolPropertyName = true) ∧
          (item.descriptor.isEnumerable native = true → self.flags.hasEnumerableProperty = true) ∧
          (item.propertyName.hasAtomicString = false →
            self.flags.hasNonAtomicPropertyName = true) := by
  intro hall
  have hsymbols := hall .standard (fun _ => .latin1 []) (fun _ => 0)
    [.createRoot ((List.range 37).map fun i => ⟨.symbol i, ⟨1⟩⟩) true] _ _ rfl _
    (List.mem_append.mpr (.inr (List.mem_singleton.mpr rfl))) _ rfl ⟨.symbol 0, ⟨1⟩⟩ (by decide)
  exact absurd (hsymbols.2.2.2 rfl) (by decide)

end HiddenClassState

end Escargot.Runtime
