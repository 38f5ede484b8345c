/-
# Sharing of hidden classes

Which structures may be shared is decided by a flag and the class of the
structure, and what may not be shared is taken apart when it changes. A call on
the structure of one object leaves the list of every other object and of every
inline cache as it is. Objects that add the same properties from the same root
meet in the same structure as long as the transitions find a name again, which
takes names that hash alike when they are equal.
-/

import Escargot.Runtime.HiddenClass
import Escargot.Runtime.ObjectStructureRefinement
import Escargot.Runtime.PropertyNameHash

namespace Escargot.Runtime

open List Escargot.Foundation HiddenClassState

variable {limits : StructureLimits} {memory : Nat → EString} {native : Nat → Nat}

/-- All that a call on the structure `self` at a number can do: nothing, mark it, follow
a transition, add one, make a structure from a copy of the list, or hand the list over. -/
inductive HiddenClasses.Effect (limits : StructureLimits) (memory : Nat → EString)
    (native : Nat → Nat) (classes : HiddenClasses) (number : Nat) (self : HiddenClass)
    (method : HiddenClassMethod) : HiddenClasses → Nat → Prop
  | stay (hmethod : method = .convertToNonTransitionStructure) :
      Effect limits memory native classes number self method classes number
  | mark (hmethod : method = .markReferencedByInlineCache) :
      Effect limits memory native classes number self method
        (classes.set number { self with isReferencedByInlineCache := true }) number
  | found {item : ObjectStructureItem} {transitions : TransitionTable} {next : Nat}
      (hmethod : method = .addProperty item) (hkind : self.kind = .withTransition transitions)
      (hfind : transitions.find memory item = some next) :
      Effect limits memory native classes number self method classes next
  | linked {item : ObjectStructureItem} {properties : List ObjectStructureItem}
      {transitions added : TransitionTable} (hmethod : method = .addProperty item)
      (hproperties : self.properties = some properties)
      (hkind : self.kind = .withTransition transitions)
      (hfind : transitions.find memory item = none)
      (hindex : (self.flags.add memory native item).hasIndexPropertyName = false)
      (hadd : transitions.add limits memory (item, classes.length) = some added) :
      Effect limits memory native classes number self method
        (classes.set number { self with kind := .withTransition added } ++
          [.withTransition (properties ++ [item]) (self.flags.add memory native item)])
        classes.length
  | copied {made : HiddenClass} (hmade : made.properties.isSome = true)
      (hown : isShareable made = false) (hmode : self.inTransitionMode = true)
      (hlimit : ∀ item properties, method = .addProperty item → self.properties = some properties →
        limits.transitionModeMaxSize < properties.length + 1 ∨
          (self.flags.add memory native item).hasIndexPropertyName = true)
      (hmethod : method ≠ .markReferencedByInlineCache) :
      Effect limits memory native classes number self method
        (classes.set number self ++ [made]) classes.length
  | handedOver {made : HiddenClass} (hmade : made.properties.isSome = true)
      (hown : isShareable made = false) (hmode : self.inTransitionMode = false)
      (hmethod : method ≠ .markReferencedByInlineCache) :
      Effect limits memory native classes number self method
        (classes.set number self.handOver ++ [made]) classes.length

namespace HiddenClasses

theorem inTransitionMode_of_kind {self : HiddenClass} {transitions : TransitionTable}
    (h : self.kind = .withTransition transitions) : self.inTransitionMode = true := by
  rw [HiddenClass.inTransitionMode, h]

theorem isSome_ofSize (properties : List ObjectStructureItem) (flags : SummaryFlags) :
    (HiddenClass.ofSize limits properties flags).properties.isSome = true ∧
      isShareable (HiddenClass.ofSize limits properties flags) = false := by
  unfold HiddenClass.ofSize
  split
  · exact ⟨rfl, rfl⟩
  · exact ⟨rfl, rfl⟩

theorem effect_addProperty {classes after : HiddenClasses} {number next : Nat}
    {self : HiddenClass} {properties : List ObjectStructureItem} {item : ObjectStructureItem}
    (hproperties : self.properties = some properties)
    (hcall : classes.addProperty limits memory native number self properties item =
      some (after, next)) :
    Effect limits memory native classes number self (.addProperty item) after next := by
  simp only [HiddenClasses.addProperty] at hcall
  split at hcall
  · rename_i transitions hkind
    split at hcall
    · rename_i found hfind
      cases hcall
      exact .found rfl hkind hfind
    · rename_i hfind
      split at hcall
      · rename_i hlimit
        cases hcall
        refine .copied rfl rfl (inTransitionMode_of_kind hkind) ?_ nofun
        rintro _ _ ⟨⟩ hlist
        cases hproperties.symm.trans hlist
        rw [length_append] at hlimit
        exact hlimit
      · rename_i hlimit
        obtain ⟨added, hadd, hresult⟩ := Option.map_eq_some_iff.mp hcall
        cases hresult
        exact .linked rfl hproperties hkind hfind
          (Bool.eq_false_iff.mpr fun hindex => hlimit (.inr hindex)) hadd
  · rename_i hkind
    cases hcall
    exact .handedOver (isSome_ofSize _ _).1 (isSome_ofSize _ _).2
      (by rw [HiddenClass.inTransitionMode, hkind]) nofun
  · rename_i hkind
    cases hcall
    exact .handedOver rfl rfl (by rw [HiddenClass.inTransitionMode, hkind]) nofun

theorem call_effect {classes after : HiddenClasses} {number next : Nat} {method : HiddenClassMethod}
    (hcall : classes.call limits memory native number method = some (after, next)) :
    ∃ self, classes[number]? = some self ∧ self.properties.isSome = true ∧
      Effect limits memory native classes number self method after next := by
  unfold HiddenClasses.call at hcall
  split at hcall
  · cases hcall
  · rename_i self hself
    split at hcall
    · cases hcall
    · rename_i properties hproperties
      refine ⟨self, hself, by rw [hproperties]; rfl, ?_⟩
      have hpush : ∀ {made first : HiddenClass} {result : HiddenClasses × Nat},
          result = classes.push number first made → some result = some (after, next) →
          after = classes.set number first ++ [made] ∧ next = classes.length := by
        rintro made first _ rfl ⟨⟩
        exact ⟨rfl, rfl⟩
      cases method with
      | addProperty item => exact effect_addProperty hproperties hcall
      | removeProperty pIndex =>
        cases hkind : self.kind with
        | withTransition transitions =>
          obtain ⟨rfl, rfl⟩ := hpush (by rw [HiddenClasses.removeProperty, hkind]) hcall
          exact .copied rfl rfl (inTransitionMode_of_kind hkind) nofun nofun
        | withoutTransition =>
          obtain ⟨rfl, rfl⟩ := hpush (by rw [HiddenClasses.removeProperty, hkind]) hcall
          exact .handedOver rfl rfl (by rw [HiddenClass.inTransitionMode, hkind]) nofun
        | withMap =>
          obtain ⟨rfl, rfl⟩ := hpush (by rw [HiddenClasses.removeProperty, hkind]) hcall
          exact .handedOver (isSome_ofSize _ _).1 (isSome_ofSize _ _).2
            (by rw [HiddenClass.inTransitionMode, hkind]) nofun
      | replacePropertyDescriptor idx newDesc =>
        cases hkind : self.kind with
        | withTransition transitions =>
          obtain ⟨rfl, rfl⟩ := hpush (by rw [HiddenClasses.replacePropertyDescriptor, hkind]) hcall
          exact .copied rfl rfl (inTransitionMode_of_kind hkind) nofun nofun
        | withoutTransition =>
          obtain ⟨rfl, rfl⟩ := hpush (by rw [HiddenClasses.replacePropertyDescriptor, hkind]) hcall
          exact .handedOver rfl rfl (by rw [HiddenClass.inTransitionMode, hkind]) nofun
        | withMap =>
          obtain ⟨rfl, rfl⟩ := hpush (by rw [HiddenClasses.replacePropertyDescriptor, hkind]) hcall
          exact .handedOver rfl rfl (by rw [HiddenClass.inTransitionMode, hkind]) nofun
      | convertToNonTransitionStructure =>
        simp only [HiddenClasses.convertToNonTransitionStructure] at hcall
        split at hcall
        · rename_i transitions hkind
          obtain ⟨rfl, rfl⟩ := hpush rfl hcall
          exact .copied rfl rfl (inTransitionMode_of_kind hkind) nofun nofun
        · cases hcall
          exact .stay rfl
      | markReferencedByInlineCache =>
        cases hcall
        exact .mark rfl

/-- What a structure keeps when another one takes its number: all but the reference of
an inline cache, further transitions, and a list that nobody else may look at. -/
structure Kept (limits : StructureLimits) (memory : Nat → EString) (native : Nat → Nat)
    (classes after : HiddenClasses) (method : HiddenClassMethod) (c c' : HiddenClass) : Prop where
  flags : c'.flags = c.flags
  referenced : c.isReferencedByInlineCache = true → c'.isReferencedByInlineCache = true
  transitions : ∀ t, c.kind = .withTransition t → c'.kind = .withTransition t ∨
    ∃ item t' properties, c'.kind = .withTransition t' ∧ method = .addProperty item ∧
      t.find memory item = none ∧ t.add limits memory (item, classes.length) = some t' ∧
      c.properties = some properties ∧
      (c.flags.add memory native item).hasIndexPropertyName = false ∧
      after[classes.length]? =
        some (.withTransition (properties ++ [item]) (c.flags.add memory native item))
  others : c.inTransitionMode = false → c'.inTransitionMode = false
  list : isShareable c = true → c'.properties = c.properties

variable {classes after : HiddenClasses} {number next : Nat} {self : HiddenClass}
  {method : HiddenClassMethod}

theorem Kept.refl (c : HiddenClass) : Kept limits memory native classes after method c c :=
  ⟨rfl, id, fun _ h => .inl h, id, fun _ => rfl⟩

variable {c : HiddenClass}

theorem Kept.mode {c' : HiddenClass} (h : Kept limits memory native classes after method c c') :
    c'.inTransitionMode = c.inTransitionMode := by
  cases hmode : c.inTransitionMode with
  | false => exact h.others hmode
  | true =>
    cases hkind : c.kind with
    | withTransition t =>
      rcases h.transitions t hkind with h | ⟨_, _, _, h, -⟩
      · exact inTransitionMode_of_kind h
      · exact inTransitionMode_of_kind h
    | withoutTransition =>
      rw [HiddenClass.inTransitionMode, hkind] at hmode
      cases hmode
    | withMap =>
      rw [HiddenClass.inTransitionMode, hkind] at hmode
      cases hmode

theorem Kept.isShareable {c' : HiddenClass}
    (h : Kept limits memory native classes after method c c')
    (hc : HiddenClassState.isShareable c = true) : HiddenClassState.isShareable c' = true := by
  rw [HiddenClassState.isShareable, h.mode]
  rcases Bool.or_eq_true_iff.mp hc with hmode | hreferenced
  · exact Bool.or_eq_true_iff.mpr (.inl hmode)
  · exact Bool.or_eq_true_iff.mpr (.inr (h.referenced hreferenced))

theorem kept_handOver (hmode : self.inTransitionMode = false) :
    Kept limits memory native classes after method self self.handOver := by
  unfold HiddenClass.handOver
  split
  · exact Kept.refl self
  · rename_i hreferenced
    refine ⟨rfl, id, fun _ h => .inl h, id, fun hshareable => ?_⟩
    rw [HiddenClassState.isShareable, hmode, Bool.false_or] at hshareable
    exact absurd hshareable hreferenced

variable (first : HiddenClass) (rest : HiddenClasses)

/-- A number that was in use designates the old structure, or what it became. -/
theorem getElem?_set_append {k : Nat}
    (hself : classes[number]? = some self) (hk : classes[k]? = some c) :
    (classes.set number first ++ rest)[k]? = some first ∧ k = number ∧ c = self ∨
      (classes.set number first ++ rest)[k]? = some c ∧ k ≠ number := by
  have hlt := (List.getElem?_eq_some_iff.mp hk).1
  rw [getElem?_append_left (by rw [length_set]; exact hlt)]
  by_cases heq : k = number
  · subst heq
    rw [hself] at hk
    exact .inl ⟨getElem?_set_self hlt, rfl, (Option.some.inj hk).symm⟩
  · rw [getElem?_set_ne (Ne.symm heq)]
    exact .inr ⟨hk, heq⟩

theorem getElem?_called_append (hself : classes[number]? = some self) :
    (classes.set number first ++ rest)[number]? = some first := by
  rcases getElem?_set_append first rest hself hself with ⟨hget, -⟩ | ⟨-, hne⟩
  · exact hget
  · exact absurd rfl hne

theorem getElem?_length_append (first made : HiddenClass) :
    (classes.set number first ++ [made])[classes.length]? = some made := by
  rw [getElem?_append_right (by rw [length_set]), length_set, Nat.sub_self]
  rfl

section

variable (heffect : Effect limits memory native classes number self method after next)
include heffect

/-- Every number that was in use still designates a structure that kept what it has to,
and the same one unless it is the number of the call. -/
theorem Effect.kept (hself : classes[number]? = some self) {k : Nat} (hk : classes[k]? = some c) :
    ∃ c', after[k]? = some c' ∧ Kept limits memory native classes after method c c' ∧
      (k ≠ number → c' = c) := by
  have hreplaced : ∀ (first : HiddenClass) (rest all : HiddenClasses),
      Kept limits memory native classes all method self first →
      ∃ c', (classes.set number first ++ rest)[k]? = some c' ∧
        Kept limits memory native classes all method c c' ∧ (k ≠ number → c' = c) := by
    intro first rest all hfirst
    rcases getElem?_set_append first rest hself hk with ⟨hget, hnumber, rfl⟩ | ⟨hget, -⟩
    · exact ⟨first, hget, hfirst, fun hne => absurd hnumber hne⟩
    · exact ⟨c, hget, Kept.refl c, fun _ => rfl⟩
  cases heffect with
  | stay => exact ⟨c, hk, Kept.refl c, fun _ => rfl⟩
  | mark =>
    have hmark := hreplaced { self with isReferencedByInlineCache := true } []
      (classes.set number { self with isReferencedByInlineCache := true })
      ⟨rfl, fun _ => rfl, fun _ h => .inl h, id, fun _ => rfl⟩
    rwa [append_nil] at hmark
  | found => exact ⟨c, hk, Kept.refl c, fun _ => rfl⟩
  | linked hmethod hproperties hkind hfind hindex hadd =>
    apply hreplaced
    refine ⟨rfl, id, fun t ht => ?_, fun hmode => ?_, fun _ => rfl⟩
    · cases hkind.symm.trans ht
      exact .inr ⟨_, _, _, rfl, hmethod, hfind, hadd, hproperties, hindex,
        getElem?_length_append _ _⟩
    · rw [inTransitionMode_of_kind hkind] at hmode
      cases hmode
  | copied => exact hreplaced _ _ _ (Kept.refl self)
  | handedOver hmade hown hmode => exact hreplaced _ _ _ (kept_handOver hmode)

/-- Whoever may share a structure, or looks at another one, sees the same list. -/
theorem Effect.observe_eq (hself : classes[number]? = some self) {k : Nat}
    (hk : classes[k]? = some c) (h : k ≠ number ∨ HiddenClassState.isShareable c = true) :
    after.observe k = classes.observe k := by
  obtain ⟨c', hget, hkept, hsame⟩ := heffect.kept hself hk
  rw [HiddenClasses.observe, HiddenClasses.observe, hget, hk]
  rcases h with hne | hshareable
  · rw [hsame hne]
  · exact hkept.list hshareable

/-- A number that was free designates the new structure, if any, and that is the answer. -/
theorem Effect.made {k : Nat} {c : HiddenClass} (hk : after[k]? = some c)
    (hfree : classes[k]? = none) :
    k = classes.length ∧ next = classes.length ∧ c.properties.isSome = true ∧
      (HiddenClassState.isShareable c = false ∨ c.kind = .withTransition (.vector [])) := by
  have hle := List.getElem?_eq_none_iff.mp hfree
  have hnew : ∀ {first made : HiddenClass},
      (classes.set number first ++ [made])[k]? = some c → k = classes.length ∧ c = made := by
    intro first made h
    rcases getElem?_concat_iff.mp h with hold | ⟨hindex, hmade⟩
    · rw [getElem?_eq_none (by rw [length_set]; exact hle)] at hold
      cases hold
    · exact ⟨by rw [hindex, length_set], hmade⟩
  cases heffect with
  | stay =>
    rw [hfree] at hk
    cases hk
  | mark =>
    rw [getElem?_eq_none (by rw [length_set]; exact hle)] at hk
    cases hk
  | found =>
    rw [hfree] at hk
    cases hk
  | linked =>
    obtain ⟨hindex, rfl⟩ := hnew hk
    exact ⟨hindex, rfl, rfl, .inr rfl⟩
  | copied hmade hown =>
    obtain ⟨hindex, rfl⟩ := hnew hk
    exact ⟨hindex, rfl, hmade, .inl hown⟩
  | handedOver hmade hown =>
    obtain ⟨hindex, rfl⟩ := hnew hk
    exact ⟨hindex, rfl, hmade, .inl hown⟩

end

/-- Transitions lead to structures with transitions. -/
def TablesOk (memory : Nat → EString) (classes : HiddenClasses) : Prop :=
  ∀ (k : Nat) c t, classes[k]? = some c → c.kind = .withTransition t →
    t.Ok memory ∧ ∀ e, t.Holds e → ∃ c', classes[e.2]? = some c' ∧ c'.inTransitionMode = true

theorem Effect.tablesOk
    (heffect : Effect limits memory native classes number self method after next)
    (hself : classes[number]? = some self) (htables : classes.TablesOk memory) :
    after.TablesOk memory := by
  have hmode : ∀ {m : Nat}, (∃ c', classes[m]? = some c' ∧ c'.inTransitionMode = true) →
      ∃ c', after[m]? = some c' ∧ c'.inTransitionMode = true := by
    rintro m ⟨c, hget, hc⟩
    obtain ⟨c', hget', hkept, -⟩ := heffect.kept hself hget
    exact ⟨c', hget', by rw [hkept.mode, hc]⟩
  intro k c' t' hk hkind'
  cases hold : classes[k]? with
  | none =>
    obtain ⟨-, -, -, hshare | hkind⟩ := heffect.made hk hold
    · rw [HiddenClassState.isShareable, inTransitionMode_of_kind hkind'] at hshare
      cases hshare
    · cases hkind.symm.trans hkind'
      exact ⟨trivial, nofun⟩
  | some c =>
    obtain ⟨c'', hget, hkept, hsame⟩ := heffect.kept hself hold
    cases hk.symm.trans hget
    cases hkind : c.kind with
    | withTransition t =>
      obtain ⟨hok, hleads⟩ := htables k c t hold hkind
      rcases hkept.transitions t hkind with
        hstays | ⟨item, grown, properties, hgrown, -, -, hadd, -, -, hlength⟩
      · cases hstays.symm.trans hkind'
        exact ⟨hok, fun e he => hmode (hleads e he)⟩
      · cases hgrown.symm.trans hkind'
        obtain ⟨hok', hholds⟩ := TransitionTable.add_spec hok hadd
        refine ⟨hok', fun e he => ?_⟩
        rcases hholds e he with hin | rfl
        · exact hmode (hleads e hin)
        · exact ⟨_, hlength, rfl⟩
    | withoutTransition =>
      have hmode' := hkept.others (by rw [HiddenClass.inTransitionMode, hkind])
      rw [inTransitionMode_of_kind hkind'] at hmode'
      cases hmode'
    | withMap =>
      have hmode' := hkept.others (by rw [HiddenClass.inTransitionMode, hkind])
      rw [inTransitionMode_of_kind hkind'] at hmode'
      cases hmode'

/-- The answer of a call designates a structure that still has its list. A structure
that was there before is the one called or has transitions. -/
theorem Effect.answer (heffect : Effect limits memory native classes number self method after next)
    (hself : classes[number]? = some self) (hlive : self.properties.isSome = true)
    (htables : classes.TablesOk memory) :
    next = number ∧ (∃ c, after[next]? = some c ∧ c.properties.isSome = true) ∨
      classes[next]? = none ∧ (∃ c, after[next]? = some c ∧ c.properties.isSome = true) ∨
      (∃ c, classes[next]? = some c ∧ after[next]? = some c ∧ c.inTransitionMode = true) := by
  have hlt := (List.getElem?_eq_some_iff.mp hself).1
  cases heffect with
  | stay => exact .inl ⟨rfl, self, hself, hlive⟩
  | mark => exact .inl ⟨rfl, _, getElem?_set_self hlt, hlive⟩
  | found hmethod hkind hfind =>
    obtain ⟨hok, hleads⟩ := htables number self _ hself hkind
    obtain ⟨other, hholds, -, -⟩ := TransitionTable.find_sound hok hfind
    obtain ⟨c, hget, hmode⟩ := hleads _ hholds
    exact .inr (.inr ⟨c, hget, hget, hmode⟩)
  | linked =>
    exact .inr (.inl ⟨getElem?_eq_none (Nat.le_refl _), _, getElem?_length_append _ _, rfl⟩)
  | copied hmade =>
    exact .inr (.inl ⟨getElem?_eq_none (Nat.le_refl _), _, getElem?_length_append _ _, hmade⟩)
  | handedOver hmade =>
    exact .inr (.inl ⟨getElem?_eq_none (Nat.le_refl _), _, getElem?_length_append _ _, hmade⟩)

end HiddenClasses

namespace HiddenClassState

/-- Only structures that may be shared are pointed to by several objects, and whatever
an object points to or may point to still has its list. -/
structure Apart (memory : Nat → EString) (state : HiddenClassState) : Prop where
  live : ∀ (i : Nat) n, state.objects[i]? = some n →
    ∃ c, state.classes[n]? = some c ∧ c.properties.isSome = true
  shareable : ∀ (k : Nat) c, state.classes[k]? = some c → isShareable c = true →
    c.properties.isSome = true
  apart : ∀ (i j : Nat) n c, i ≠ j → state.objects[i]? = some n → state.objects[j]? = some n →
    state.classes[n]? = some c → isShareable c = true
  tables : state.classes.TablesOk memory

/-- What an operation must leave as it is: the lists of all other objects and of the
structures that inline caches refer to. -/
def FrameHolds (limits : StructureLimits) (memory : Nat → EString) (native : Nat → Nat)
    (state : HiddenClassState) (op : HiddenClassOperation) : Prop :=
  ∀ next out, state.step limits memory native op = some (next, out) →
    (∀ object < state.objects.length, (∀ method, op ≠ .call object method) →
      next.observe object = state.observe object) ∧
    ∀ (number : Nat) c, state.classes[number]? = some c → c.isReferencedByInlineCache = true →
      next.classes.observe number = state.classes.observe number

theorem apart_initial : initial.Apart memory where
  live i n h := by cases h
  shareable k c hk _ := by
    cases k with
    | zero =>
      cases hk
      rfl
    | succ k => cases hk
  apart i j n c _ h := by cases h
  tables := by
    intro k c t hk hkind
    cases k with
    | zero =>
      cases hk
      cases hkind
      exact ⟨trivial, nofun⟩
    | succ k => cases hk

variable {state next : HiddenClassState}

theorem Apart.append (h : state.Apart memory) {made : HiddenClass}
    (hmade : made.properties.isSome = true)
    (htable : ∀ t, made.kind = .withTransition t → t = .vector []) {own : List Nat}
    (hown : own = [] ∨ own = [state.classes.length]) :
    (⟨state.classes ++ [made], state.objects ++ own⟩ : HiddenClassState).Apart memory := by
  have hclass : ∀ {k : Nat} {c : HiddenClass}, state.classes[k]? = some c →
      (state.classes ++ [made])[k]? = some c := by
    intro k c hk
    exact getElem?_concat_iff.mpr (.inl hk)
  have hobject : ∀ {i n : Nat}, (state.objects ++ own)[i]? = some n →
      state.objects[i]? = some n ∨ i = state.objects.length ∧ n = state.classes.length := by
    intro i n hi
    rcases hown with rfl | rfl
    · rw [append_nil] at hi
      exact .inl hi
    · exact getElem?_concat_iff.mp hi
  have hlast : (state.classes ++ [made])[state.classes.length]? = some made :=
    getElem?_concat_iff.mpr (.inr ⟨rfl, rfl⟩)
  have hnew : ∀ {i : Nat}, state.objects[i]? ≠ some state.classes.length := by
    intro i hi
    obtain ⟨c, hc, -⟩ := h.live i _ hi
    rw [getElem?_eq_none (Nat.le_refl _)] at hc
    cases hc
  constructor
  · intro i n hi
    rcases hobject hi with hold | ⟨-, rfl⟩
    · obtain ⟨c, hc, hlive⟩ := h.live i n hold
      exact ⟨c, hclass hc, hlive⟩
    · exact ⟨made, hlast, hmade⟩
  · intro k c hk hshare
    rcases getElem?_concat_iff.mp hk with hold | ⟨-, rfl⟩
    · exact h.shareable k c hold hshare
    · exact hmade
  · intro i j n c hij hi hj hc
    rcases hobject hi with hold | ⟨rfl, rfl⟩
    · rcases hobject hj with hold' | ⟨rfl, rfl⟩
      · rcases getElem?_concat_iff.mp hc with hc | ⟨rfl, rfl⟩
        · exact h.apart i j n c hij hold hold' hc
        · exact absurd hold hnew
      · exact absurd hold hnew
    · rcases hobject hj with hold' | ⟨rfl, -⟩
      · exact absurd hold' hnew
      · exact absurd rfl hij
  · intro k c t hk hkind
    rcases getElem?_concat_iff.mp hk with hold | ⟨-, rfl⟩
    · obtain ⟨hok, hleads⟩ := h.tables k c t hold hkind
      refine ⟨hok, fun e he => ?_⟩
      obtain ⟨c', hc', hmode⟩ := hleads e he
      exact ⟨c', hclass hc', hmode⟩
    · rw [htable t hkind]
      exact ⟨trivial, nofun⟩

theorem create_fresh (properties : List ObjectStructureItem) (preferTransition : Bool) :
    (HiddenClass.create limits memory native properties preferTransition).properties.isSome = true ∧
      ∀ t, (HiddenClass.create limits memory native properties preferTransition).kind =
        .withTransition t → t = .vector [] := by
  unfold HiddenClass.create
  split
  · exact ⟨rfl, nofun⟩
  · split
    · refine ⟨rfl, ?_⟩
      rintro _ ⟨⟩
      rfl
    · exact ⟨rfl, nofun⟩

theorem bulk_fresh (names : List ObjectStructurePropertyName)
    (isWritable isEnumerable isConfigurable : Bool) :
    (HiddenClass.bulk limits memory names isWritable isEnumerable
        isConfigurable).properties.isSome = true ∧
      ∀ t, (HiddenClass.bulk limits memory names isWritable isEnumerable isConfigurable).kind =
        .withTransition t → t = .vector [] := by
  unfold HiddenClass.bulk
  split
  · exact ⟨rfl, nofun⟩
  · exact ⟨rfl, nofun⟩

theorem Apart.call (h : state.Apart memory) {object number answer : Nat}
    {method : HiddenClassMethod} {after : HiddenClasses} {self : HiddenClass}
    (hobject : state.objects[object]? = some number)
    (hself : state.classes[number]? = some self) (hlive : self.properties.isSome = true)
    (heffect : HiddenClasses.Effect limits memory native state.classes number self method after
      answer) :
    (⟨after, state.objects.set object answer⟩ : HiddenClassState).Apart memory := by
  have hlt := (List.getElem?_eq_some_iff.mp hobject).1
  have hobjects : ∀ {i n : Nat}, (state.objects.set object answer)[i]? = some n →
      i = object ∧ n = answer ∨ i ≠ object ∧ state.objects[i]? = some n := by
    intro i n hi
    by_cases heq : i = object
    · subst heq
      rw [getElem?_set_self hlt] at hi
      exact .inl ⟨rfl, (Option.some.inj hi).symm⟩
    · rw [getElem?_set_ne (Ne.symm heq)] at hi
      exact .inr ⟨heq, hi⟩
  have hanswer := heffect.answer hself hlive h.tables
  -- a structure of another object that is not called, or that may be shared, keeps its list
  have hothers : ∀ {i n : Nat}, i ≠ object → state.objects[i]? = some n →
      ∃ c, after[n]? = some c ∧ c.properties.isSome = true := by
    intro i n hne hi
    obtain ⟨c, hc, hlist⟩ := h.live i n hi
    obtain ⟨c', hc', hkept, hsame⟩ := heffect.kept hself hc
    refine ⟨c', hc', ?_⟩
    by_cases hn : n = number
    · subst hn
      rw [hkept.list (h.apart i object n c hne hi hobject hc)]
      exact hlist
    · rw [hsame hn]
      exact hlist
  constructor
  · intro i n hi
    rcases hobjects hi with ⟨-, rfl⟩ | ⟨hne, hold⟩
    · rcases hanswer with ⟨-, hc⟩ | ⟨-, hc⟩ | ⟨c, hc, hc', hmode⟩
      · exact hc
      · exact hc
      · refine ⟨c, hc', h.shareable _ c hc ?_⟩
        exact Bool.or_eq_true_iff.mpr (.inl hmode)
    · exact hothers hne hold
  · intro k c hk hshare
    cases hold : state.classes[k]? with
    | none => exact (heffect.made hk hold).2.2.1
    | some c₀ =>
      obtain ⟨c', hc', hkept, hsame⟩ := heffect.kept hself hold
      cases hk.symm.trans hc'
      by_cases hn : k = number
      · subst hn
        cases hself.symm.trans hold
        -- the called structure has its list, which a marked one does not hand over
        cases heffect with
        | stay =>
          cases hk.symm.trans hself
          exact hlive
        | mark =>
          cases hk.symm.trans (getElem?_set_self (List.getElem?_eq_some_iff.mp hself).1)
          exact hlive
        | found =>
          cases hk.symm.trans hself
          exact hlive
        | linked hmethod hproperties hkind =>
          rw [hkept.list (by rw [isShareable, HiddenClasses.inTransitionMode_of_kind hkind]; rfl)]
          exact hlive
        | copied hmade hown hmode =>
          rw [hkept.list (by rw [isShareable, hmode]; rfl)]
          exact hlive
        | handedOver hmade hown hmode =>
          cases hk.symm.trans (HiddenClasses.getElem?_called_append self.handOver [_] hself)
          unfold HiddenClass.handOver at hshare ⊢
          split
          · exact hlive
          · rename_i hreferenced
            rw [if_neg hreferenced, isShareable] at hshare
            rw [show HiddenClass.inTransitionMode { self with properties := none } = false
              from hmode, Bool.false_or] at hshare
            exact absurd hshare hreferenced
      · rw [hsame hn] at hshare ⊢
        exact h.shareable k c₀ hold hshare
  · intro i j n c hij hi hj hc
    have hmeets : ∀ {i : Nat}, i ≠ object → state.objects[i]? = some answer →
        ∀ c, after[answer]? = some c → isShareable c = true := by
      intro i hne hi c hc
      rcases hanswer with ⟨rfl, -⟩ | ⟨hnone, -⟩ | ⟨c₀, hc₀, hc₀', hmode⟩
      · obtain ⟨c', hc', hkept, -⟩ := heffect.kept hself hself
        cases hc.symm.trans hc'
        exact hkept.isShareable (h.apart i object answer self hne hi hobject hself)
      · obtain ⟨c₀, hc₀, -⟩ := h.live i answer hi
        rw [hnone] at hc₀
        cases hc₀
      · cases hc.symm.trans hc₀'
        exact Bool.or_eq_true_iff.mpr (.inl hmode)
    rcases hobjects hi with ⟨rfl, rfl⟩ | ⟨hne, hold⟩
    · rcases hobjects hj with ⟨rfl, -⟩ | ⟨hne', hold'⟩
      · exact absurd rfl hij
      · exact hmeets hne' hold' c hc
    · rcases hobjects hj with ⟨rfl, rfl⟩ | ⟨hne', hold'⟩
      · exact hmeets hne hold c hc
      · obtain ⟨c₀, hc₀, -⟩ := h.live i n hold
        obtain ⟨c', hc', hkept, -⟩ := heffect.kept hself hc₀
        cases hc.symm.trans hc'
        exact hkept.isShareable (h.apart i j n c₀ hij hold hold' hc₀)
  · exact heffect.tablesOk hself h.tables

/-- Where an object started and what was added to it since, as long as nothing else
happened to its structure. -/
abbrev Additions := Option (Nat × List ObjectStructureItem)

def track (history : List Additions) : HiddenClassOperation → List Additions
  | .createRoot _ _ => history
  | .newObject number => history ++ [some (number, [])]
  | .newObjectWith _ _ | .newBulkObject _ _ _ _ => history ++ [none]
  | .call object (.addProperty item) =>
    history.modify object (Option.map fun (number, items) => (number, items ++ [item]))
  | .call _ .markReferencedByInlineCache => history
  | .call object _ => history.modify object fun _ => none

theorem step_cases {op : HiddenClassOperation} {out : Unit}
    (hstep : state.step limits memory native op = some (next, out)) :
    (∃ made own, made.properties.isSome = true ∧
        (∀ t, made.kind = .withTransition t → t = .vector []) ∧
        (own = [] ∨ own = [state.classes.length]) ∧
        (∀ history, track history op = history ++ own.map fun _ => none) ∧
        next = ⟨state.classes ++ [made], state.objects ++ own⟩) ∨
      (∃ number c, op = .newObject number ∧ state.classes[number]? = some c ∧
        isShareable c = true ∧ next = ⟨state.classes, state.objects ++ [number]⟩) ∨
      (∃ object number method self after answer, op = .call object method ∧
        state.objects[object]? = some number ∧ state.classes[number]? = some self ∧
        self.properties.isSome = true ∧
        HiddenClasses.Effect limits memory native state.classes number self method after answer ∧
        next = ⟨after, state.objects.set object answer⟩) := by
  cases op with
  | createRoot properties preferTransition =>
    cases hstep
    have hfresh := @create_fresh limits memory native properties preferTransition
    exact .inl ⟨{ HiddenClass.create limits memory native properties preferTransition with
      isReferencedByInlineCache := true }, [], hfresh.1, hfresh.2, .inl rfl,
      fun history => (append_nil history).symm, by rw [append_nil]⟩
  | newObject number =>
    simp only [step] at hstep
    split at hstep
    · cases hstep
    · rename_i self hself
      split at hstep
      · rename_i hshare
        cases hstep
        exact .inr (.inl ⟨number, self, rfl, hself, hshare, rfl⟩)
      · cases hstep
  | newObjectWith properties preferTransition =>
    cases hstep
    have hfresh := @create_fresh limits memory native properties preferTransition
    exact .inl ⟨_, _, hfresh.1, hfresh.2, .inr rfl, fun _ => rfl, rfl⟩
  | newBulkObject names isWritable isEnumerable isConfigurable =>
    cases hstep
    have hfresh := @bulk_fresh limits memory names isWritable isEnumerable isConfigurable
    exact .inl ⟨_, _, hfresh.1, hfresh.2, .inr rfl, fun _ => rfl, rfl⟩
  | call object method =>
    simp only [step] at hstep
    split at hstep
    · cases hstep
    · rename_i number hobject
      obtain ⟨⟨after, answer⟩, hcall, hresult⟩ := Option.map_eq_some_iff.mp hstep
      obtain ⟨self, hself, hlive, heffect⟩ := HiddenClasses.call_effect hcall
      cases hresult
      exact .inr (.inr ⟨object, number, method, self, after, answer, rfl, hobject, hself, hlive,
        heffect, rfl⟩)

theorem apart_step (h : state.Apart memory) {op : HiddenClassOperation} {out : Unit}
    (hstep : state.step limits memory native op = some (next, out)) : next.Apart memory := by
  rcases step_cases hstep with
    ⟨made, own, hmade, htable, hown, -, rfl⟩ | ⟨number, c, -, hc, hshare, rfl⟩ |
      ⟨object, number, method, self, after, answer, -, hobject, hself, hlive, heffect, rfl⟩
  · exact h.append hmade htable hown
  · constructor
    · intro i n hi
      rcases getElem?_concat_iff.mp hi with hold | ⟨-, rfl⟩
      · exact h.live i n hold
      · exact ⟨c, hc, h.shareable _ c hc hshare⟩
    · exact h.shareable
    · intro i j n c' hij hi hj hc'
      rcases getElem?_concat_iff.mp hi with hold | ⟨rfl, rfl⟩
      · rcases getElem?_concat_iff.mp hj with hold' | ⟨-, rfl⟩
        · exact h.apart i j n c' hij hold hold' hc'
        · cases hc.symm.trans hc'
          exact hshare
      · cases hc.symm.trans hc'
        exact hshare
    · exact h.tables
  · exact h.call hobject hself hlive heffect

theorem frame_step (h : state.Apart memory) (op : HiddenClassOperation) :
    state.FrameHolds limits memory native op := by
  intro next out hstep
  rcases step_cases hstep with
    ⟨made, own, hmade, htable, hown, -, rfl⟩ | ⟨number, c, -, hc, hshare, rfl⟩ |
      ⟨object, number, method, self, after, answer, rfl, hobject, hself, hlive, heffect, rfl⟩
  · have hclasses : ∀ {k : Nat} {c : HiddenClass}, state.classes[k]? = some c →
        HiddenClasses.observe (state.classes ++ [made]) k = state.classes.observe k := by
      intro k c hk
      rw [HiddenClasses.observe, HiddenClasses.observe, hk, getElem?_concat_iff.mpr (.inl hk)]
    constructor
    · intro object hobject _
      obtain ⟨c, hc, -⟩ := h.live object _ (getElem?_eq_getElem hobject)
      rw [observe, observe, getElem?_append_left hobject, getElem?_eq_getElem hobject]
      exact hclasses hc
    · intro k c hk _
      exact hclasses hk
  · constructor
    · intro object hobject _
      rw [observe, observe, getElem?_append_left hobject]
    · intro k c' hk _
      rfl
  · constructor
    · intro other hother hne
      have hother' : other ≠ object := fun heq => hne method (by rw [heq])
      have hget := getElem?_eq_getElem hother
      obtain ⟨c, hc, -⟩ := h.live other _ hget
      rw [observe, observe, getElem?_set_ne (Ne.symm hother'), hget]
      apply heffect.observe_eq hself hc
      by_cases hn : state.objects[other] = number
      · rw [hn] at hget hc
        exact .inr (h.apart other object number c hother' hget hobject hc)
      · exact .inl hn
    · intro k c hk hreferenced
      exact heffect.observe_eq hself hk (.inr (Bool.or_eq_true_iff.mpr (.inr hreferenced)))

end HiddenClassState

namespace TransitionTable

open ObjectStructurePropertyName

variable {names : List ObjectStructurePropertyName}
  {item : ObjectStructureItem} {entry : ObjectStructureItem × Nat}

theorem sameItem_iff : sameItem memory item entry = true ↔ entry.1.descriptor = item.descriptor ∧
      entry.1.propertyName.equals memory item.propertyName = true := by
  rw [sameItem, Bool.and_eq_true, beq_iff_eq]

structure Exact (memory : Nat → EString) (names : List ObjectStructurePropertyName)
    (table : TransitionTable) : Prop where
  ok : table.Ok memory
  named : ∀ entry, table.Holds entry → entry.1.propertyName ∈ names
  distinct : ∀ entry entry', table.Holds entry → table.Holds entry' →
    sameItem memory entry.1 entry' = true → entry = entry'

section

variable (hnames : Agreeing memory names)
include hnames

theorem sameItem_trans {entry' : ObjectStructureItem × Nat} (hname : entry.1.propertyName ∈ names)
    (hitem : item.propertyName ∈ names) (h : sameItem memory item entry = true)
    (h' : sameItem memory item entry' = true) :
    sameItem memory entry.1 entry' = true := by
  obtain ⟨hdesc, hequals⟩ := sameItem_iff.mp h
  obtain ⟨hdesc', hequals'⟩ := sameItem_iff.mp h'
  have hform := hnames _ hname _ hitem hequals
  refine sameItem_iff.mpr ⟨hdesc'.trans hdesc.symm, ?_⟩
  rw [equals_congr hform hequals]
  exact hequals'

variable {table : TransitionTable}

theorem Exact.find_iff (h : table.Exact memory names) (hitem : item.propertyName ∈ names)
    {n : Nat} :
    table.find memory item = some n ↔
      ∃ entry, table.Holds entry ∧ sameItem memory item entry = true ∧ entry.2 = n := by
  have hunique : ∀ {entry entry' : ObjectStructureItem × Nat}, table.Holds entry →
      table.Holds entry' → sameItem memory item entry = true →
      sameItem memory item entry' = true → entry = entry' := by
    intro entry entry' hheld hheld' hsame hsame'
    exact h.distinct entry entry' hheld hheld'
      (sameItem_trans hnames (h.named entry hheld) hitem hsame hsame')
  cases table with
  | vector items =>
    constructor
    · intro hfind
      obtain ⟨entry, hentry, rfl⟩ := Option.map_eq_some_iff.mp hfind
      exact ⟨entry, mem_of_find?_eq_some hentry, find?_some hentry, rfl⟩
    · rintro ⟨entry, hheld, hsame, rfl⟩
      have hsome : (items.find? (sameItem memory item)).isSome = true :=
        List.find?_isSome.mpr ⟨entry, hheld, hsame⟩
      obtain ⟨other, hother⟩ := Option.isSome_iff_exists.mp hsome
      rw [find, hother, Option.map_some,
        hunique (mem_of_find?_eq_some hother) hheld (find?_some hother) hsame]
  | map table =>
    have hvalid : table.Valid (hash memory) := h.ok
    constructor
    · intro hfind
      obtain ⟨entry, hentry, rfl⟩ := Option.map_eq_some_iff.mp hfind
      obtain ⟨hhit, hstored⟩ := hvalid.find_sound hentry
      exact ⟨entry, hstored, hhit, rfl⟩
    · rintro ⟨entry, hheld, hsame, rfl⟩
      obtain ⟨hdesc, hequals⟩ := sameItem_iff.mp hsame
      have hhash : hash memory entry = hash memory (item, 0) := by
        rw [hash, hash, hdesc, hashValue_eq_of_equals
          (hnames _ (h.named entry hheld) _ hitem hequals) hequals]
      have hsome := hvalid.find_complete hheld hsame hhash
      obtain ⟨other, hother⟩ := Option.isSome_iff_exists.mp hsome
      obtain ⟨hhit, hstored⟩ := hvalid.find_sound hother
      rw [find, hother, Option.map_some, hunique hstored hheld hhit hsame]

theorem Exact.fresh (h : table.Exact memory names) (hitem : item.propertyName ∈ names)
    (hnone : table.find memory item = none) :
    ∀ other, table.Holds other → sameItem memory item other = false := by
  intro other hother
  apply Bool.eq_false_iff.mpr
  intro hsame
  have hfind := (h.find_iff hnames hitem).mpr ⟨other, hother, hsame, rfl⟩
  rw [hnone] at hfind
  cases hfind

/-- A transition for an item that is not found yet may be added. -/
theorem Exact.concat {next : TransitionTable} (h : table.Exact memory names)
    (hentry : entry.1.propertyName ∈ names) (hnone : table.find memory entry.1 = none)
    (hok : next.Ok memory)
    (hholds : ∀ other, next.Holds other ↔ table.Holds other ∨ other = entry) :
    next.Exact memory names := by
  have hfresh := h.fresh hnames hentry hnone
  refine ⟨hok, fun other hother => ?_, fun first second hfirst hsecond hsame => ?_⟩
  · rcases (hholds other).mp hother with hold | rfl
    · exact h.named other hold
    · exact hentry
  · rcases (hholds first).mp hfirst with hold | rfl
    · rcases (hholds second).mp hsecond with hold' | rfl
      · exact h.distinct first second hold hold' hsame
      · obtain ⟨hdesc, hequals⟩ := sameItem_iff.mp hsame
        have hform := hnames _ hentry _ (h.named first hold) hequals
        have hback : sameItem memory second.1 first = true := by
          refine sameItem_iff.mpr ⟨hdesc.symm, ?_⟩
          rw [equals_congr hform hequals]
          exact equals_self _
        rw [hfresh first hold] at hback
        cases hback
    · rcases (hholds second).mp hsecond with hold' | rfl
      · rw [hfresh second hold'] at hsame
        cases hsame
      · rfl

theorem Exact.insertAll {entries : List (ObjectStructureItem × Nat)} :
    ∀ {table next : RobinTable (ObjectStructureItem × Nat)},
      (map table).Exact memory names → (∀ entry ∈ entries, entry.1.propertyName ∈ names) →
      entries.Pairwise (fun entry entry' => sameItem memory entry'.1 entry = false) →
      (∀ entry ∈ entries, (map table).find memory entry.1 = none) →
      TransitionTable.insertAll memory entries table = some next →
      (map next).Exact memory names ∧
        ∀ entry, next.Stored entry ↔ table.Stored entry ∨ entry ∈ entries := by
  induction entries with
  | nil =>
    intro table next hexact _ _ _ hinsert
    cases hinsert
    exact ⟨hexact, fun entry => by simp⟩
  | cons first entries ih =>
    intro table next hexact hmem hpairs hnone hinsert
    rw [TransitionTable.insertAll] at hinsert
    split at hinsert
    · cases hinsert
    · rename_i grown hgrown
      have hvalid : table.Valid (hash memory) := hexact.ok
      have hfirst := hmem first mem_cons_self
      obtain ⟨hvalid', hcases⟩ := hvalid.insert_spec hgrown
      have hmiss : table.find (hash memory first) (sameItem memory first.1) = none :=
        Option.map_eq_none_iff.mp (hnone first mem_cons_self)
      have hstored : ∀ w, grown.Stored w ↔ table.Stored w ∨ w = first := by
        rcases hcases with ⟨hsome, -⟩ | ⟨-, hstored⟩
        · rw [hmiss] at hsome
          cases hsome
        · exact hstored
      have hgrownExact : (map grown).Exact memory names :=
        hexact.concat hnames hfirst (hnone first mem_cons_self) hvalid' hstored
      have hmisses : ∀ entry ∈ entries, (map grown).find memory entry.1 = none := by
        intro entry hentry
        apply Option.eq_none_iff_forall_ne_some.mpr
        intro n hfind
        have hentry' := hmem entry (mem_cons_of_mem first hentry)
        obtain ⟨other, hother, hsame, -⟩ := (hgrownExact.find_iff hnames hentry').mp hfind
        rcases (hstored other).mp hother with hold | rfl
        · have hfound := (hexact.find_iff hnames hentry').mpr ⟨other, hold, hsame, rfl⟩
          rw [hnone entry (mem_cons_of_mem first hentry)] at hfound
          cases hfound
        · rw [(List.pairwise_cons.mp hpairs).1 entry hentry] at hsame
          cases hsame
      obtain ⟨hnext, hall⟩ := ih hgrownExact
        (fun entry hentry => hmem entry (mem_cons_of_mem first hentry))
        (List.pairwise_cons.mp hpairs).2 hmisses hinsert
      refine ⟨hnext, fun entry => ?_⟩
      rw [hall, hstored, mem_cons, or_assoc]

end

theorem exact_empty : (map .empty).Exact memory names where
  ok := RobinTable.valid_empty _
  named entry h := by
    obtain ⟨i, hi, -⟩ := h
    exact absurd hi (Nat.not_lt_zero i)
  distinct entry entry' h := by
    obtain ⟨i, hi, -⟩ := h
    exact absurd hi (Nat.not_lt_zero i)

/-- A table with one more transition holds it and what it held before. The vector must
not repeat a transition, which its construction by additions gives. -/
theorem Exact.add (hnames : Agreeing memory names) {next : TransitionTable}
    (h : table.Exact memory names) (hentry : entry.1.propertyName ∈ names)
    (hnone : table.find memory entry.1 = none)
    (hnodup : ∀ items, table = vector items → items.Nodup)
    (hadd : table.add limits memory entry = some next) :
    next.Exact memory names ∧ (∀ other, next.Holds other ↔ table.Holds other ∨ other = entry) ∧
      ∀ items, next = vector items → items.Nodup := by
  have hfresh := h.fresh hnames hentry hnone
  cases table with
  | vector items =>
    have hitems := hnodup items rfl
    have hnotMem : entry ∉ items := by
      intro hmem
      have hsame := hfresh entry hmem
      rw [sameItem, beq_self_eq_true, equals_self] at hsame
      cases hsame
    simp only [TransitionTable.add] at hadd
    split at hadd
    · obtain ⟨built, hbuilt, rfl⟩ := Option.map_eq_some_iff.mp hadd
      have hpairs : (items ++ [entry]).Pairwise
          (fun first second => sameItem memory second.1 first = false) := by
        rw [pairwise_append]
        refine ⟨?_, pairwise_singleton _ _, fun first hfirst second hsecond => ?_⟩
        · apply List.Pairwise.imp_of_mem _ hitems
          intro first second hfirst hsecond hne
          apply Bool.eq_false_iff.mpr
          intro hsame
          exact hne (h.distinct second first hsecond hfirst hsame).symm
        · rw [List.mem_singleton.mp hsecond]
          exact hfresh first hfirst
      have hmem : ∀ other ∈ items ++ [entry], other.1.propertyName ∈ names := by
        intro other hother
        rcases List.mem_append.mp hother with hold | hnew
        · exact h.named other hold
        · rw [List.mem_singleton.mp hnew]
          exact hentry
      obtain ⟨hexact, hstored⟩ := Exact.insertAll hnames exact_empty hmem hpairs
        (fun _ _ => rfl) hbuilt
      refine ⟨hexact, fun other => ?_, fun _ hvector => by cases hvector⟩
      show built.Stored other ↔ other ∈ items ∨ other = entry
      rw [hstored, mem_append, mem_singleton]
      constructor
      · rintro (⟨i, hi, -⟩ | hother)
        · exact absurd hi (Nat.not_lt_zero i)
        · exact hother
      · exact .inr
    · cases hadd
      have hholds : ∀ other, (vector (items ++ [entry])).Holds other ↔
          (vector items).Holds other ∨ other = entry := by
        intro other
        show other ∈ items ++ [entry] ↔ other ∈ items ∨ other = entry
        rw [mem_append, mem_singleton]
      refine ⟨h.concat hnames hentry hnone trivial hholds, hholds, ?_⟩
      rintro _ ⟨⟩
      exact List.nodup_append.mpr ⟨hitems, nodup_singleton _, fun a ha b hb hab =>
        hnotMem (by rw [← List.mem_singleton.mp hb, ← hab]; exact ha)⟩
  | map table =>
    obtain ⟨grown, hgrown, rfl⟩ := Option.map_eq_some_iff.mp hadd
    have hvalid : table.Valid (hash memory) := h.ok
    obtain ⟨hvalid', hcases⟩ := hvalid.insert_spec hgrown
    have hmiss : table.find (hash memory entry) (sameItem memory entry.1) = none :=
      Option.map_eq_none_iff.mp hnone
    have hholds : ∀ other, (map grown).Holds other ↔ (map table).Holds other ∨ other = entry := by
      rcases hcases with ⟨hsome, -⟩ | ⟨-, hstored⟩
      · rw [hmiss] at hsome
        cases hsome
      · exact hstored
    exact ⟨h.concat hnames hentry hnone hvalid' hholds, hholds, fun _ hvector => by cases hvector⟩

end TransitionTable

namespace HiddenClasses

open ObjectStructurePropertyName

def follow (memory : Nat → EString) (classes : HiddenClasses) :
    Nat → List ObjectStructureItem → Option Nat
  | number, [] => some number
  | number, item :: items =>
    match classes[number]? with
    | none => none
    | some c =>
      match c.kind with
      | .withTransition t =>
        match t.find memory item with
        | none => none
        | some n => follow memory classes n items
      | _ => none

/-- Every transition leads to a structure with transitions and one more property. -/
def LinksOk (memory : Nat → EString) (names : List ObjectStructurePropertyName)
    (classes : HiddenClasses) : Prop :=
  ∀ (k : Nat) c t, classes[k]? = some c → c.kind = .withTransition t →
    t.Exact memory names ∧ (∀ items, t = .vector items → items.Nodup) ∧
      ∀ e, t.Holds e → ∃ c' properties, classes[e.2]? = some c' ∧ c'.inTransitionMode = true ∧
        c.properties = some properties ∧ c'.properties = some (properties ++ [e.1]) ∧
        c'.flags.hasIndexPropertyName = false

variable {names : List ObjectStructurePropertyName} {classes after : HiddenClasses}
  {number answer : Nat} {self : HiddenClass} {method : HiddenClassMethod}

variable {c : HiddenClass}

theorem isShareable_of_kind {t : TransitionTable} (h : c.kind = .withTransition t) :
    isShareable c = true := by
  rw [isShareable, inTransitionMode_of_kind h]
  rfl

theorem isShareable_of_mode (h : c.inTransitionMode = true) : isShareable c = true := by
  rw [isShareable, h]
  rfl

theorem Effect.linksOk (hnames : Agreeing memory names)
    (hmethod : ∀ item, method = .addProperty item → item.propertyName ∈ names)
    (heffect : Effect limits memory native classes number self method after answer)
    (hself : classes[number]? = some self) (hlinks : classes.LinksOk memory names) :
    after.LinksOk memory names := by
  intro k c' t' hk hkind'
  cases hold : classes[k]? with
  | none =>
    obtain ⟨-, -, -, hshare | hkind⟩ := heffect.made hk hold
    · rw [isShareable_of_kind hkind'] at hshare
      cases hshare
    · cases hkind.symm.trans hkind'
      refine ⟨⟨trivial, nofun, nofun⟩, ?_, nofun⟩
      rintro _ ⟨⟩
      exact nodup_nil
  | some c =>
    obtain ⟨c'', hget, hkept, -⟩ := heffect.kept hself hold
    cases hk.symm.trans hget
    have hmode : c.inTransitionMode = true := by
      rw [← hkept.mode]
      exact inTransitionMode_of_kind hkind'
    have hlist := hkept.list (isShareable_of_mode hmode)
    cases hkind : c.kind with
    | withoutTransition =>
      rw [HiddenClass.inTransitionMode, hkind] at hmode
      cases hmode
    | withMap =>
      rw [HiddenClass.inTransitionMode, hkind] at hmode
      cases hmode
    | withTransition t =>
      obtain ⟨hexact, hnodup, hleads⟩ := hlinks k c t hold hkind
      have hleads' : ∀ e, t.Holds e → ∃ d properties, after[e.2]? = some d ∧
          d.inTransitionMode = true ∧ c'.properties = some properties ∧
          d.properties = some (properties ++ [e.1]) ∧
          d.flags.hasIndexPropertyName = false := by
        intro e he
        obtain ⟨d, properties, hd, hdmode, hproperties, hdlist, hindex⟩ := hleads e he
        obtain ⟨d', hd', hdkept, -⟩ := heffect.kept hself hd
        refine ⟨d', properties, hd', by rw [hdkept.mode, hdmode], by rw [hlist, hproperties],
          ?_, by rw [hdkept.flags, hindex]⟩
        rw [hdkept.list (isShareable_of_mode hdmode), hdlist]
      rcases hkept.transitions t hkind with hstays |
        ⟨item, grown, properties, hgrown, hitem, hnone, hadd, hproperties, hindex, hlength⟩
      · cases hstays.symm.trans hkind'
        exact ⟨hexact, hnodup, hleads'⟩
      · cases hgrown.symm.trans hkind'
        obtain ⟨hexact', hholds, hnodup'⟩ :=
          TransitionTable.Exact.add hnames hexact (hmethod item hitem) hnone hnodup hadd
        refine ⟨hexact', hnodup', fun e he => ?_⟩
        rcases (hholds e).mp he with hin | rfl
        · exact hleads' e hin
        · exact ⟨_, properties, hlength, rfl, by rw [hlist, hproperties], rfl, hindex⟩

variable {items : List ObjectStructureItem}

theorem Effect.follow (hnames : Agreeing memory names)
    (hmethod : ∀ item, method = .addProperty item → item.propertyName ∈ names)
    (heffect : Effect limits memory native classes number self method after answer)
    (hself : classes[number]? = some self) (hlinks : classes.LinksOk memory names)
    (hitems : ∀ item ∈ items, item.propertyName ∈ names) :
    ∀ {start n : Nat}, classes.follow memory start items = some n →
      after.follow memory start items = some n := by
  induction items with
  | nil => exact fun h => h
  | cons item items ih =>
    intro start n hfollow
    simp only [HiddenClasses.follow] at hfollow
    split at hfollow
    · cases hfollow
    · rename_i c hc
      split at hfollow
      · rename_i t hkind
        split at hfollow
        · cases hfollow
        · rename_i m hfind
          obtain ⟨hexact, hnodup, -⟩ := hlinks start c t hc hkind
          have hitem := hitems item mem_cons_self
          obtain ⟨entry, hheld, hsame, hm⟩ := (hexact.find_iff hnames hitem).mp hfind
          obtain ⟨c', hc', hkept, -⟩ := heffect.kept hself hc
          have hstays : ∃ t', c'.kind = .withTransition t' ∧ t'.find memory item = some m := by
            rcases hkept.transitions t hkind with hsame | ⟨other, t', -, hkind', hother, hnone, hadd, -⟩
            · exact ⟨t, hsame, hfind⟩
            · obtain ⟨hexact', hholds, -⟩ :=
                TransitionTable.Exact.add hnames hexact (hmethod other hother) hnone hnodup hadd
              exact ⟨t', hkind', (hexact'.find_iff hnames hitem).mpr
                ⟨entry, (hholds entry).mpr (.inl hheld), hsame, hm⟩⟩
          obtain ⟨t', hkind', hfind'⟩ := hstays
          simp only [HiddenClasses.follow, hc', hkind', hfind']
          exact ih (fun other hother => hitems other (mem_cons_of_mem item hother)) hfollow
      · cases hfollow

theorem follow_concat {start : Nat} {item : ObjectStructureItem} {n : Nat}
    (hfollow : classes.follow memory start items = some n) :
    classes.follow memory start (items ++ [item]) = classes.follow memory n [item] := by
  induction items generalizing start with
  | nil =>
    cases hfollow
    rfl
  | cons first items ih =>
    simp only [HiddenClasses.follow] at hfollow
    split at hfollow
    · cases hfollow
    · rename_i c hc
      split at hfollow
      · rename_i t hkind
        split at hfollow
        · cases hfollow
        · rename_i m hfind
          rw [cons_append, HiddenClasses.follow, hc]
          simp only [hkind, hfind]
          exact ih hfollow
      · cases hfollow

/-- A structure with transitions that has no index among its names, and its size. -/
def Extends (classes : HiddenClasses) (number size : Nat) : Prop :=
  ∃ c properties, classes[number]? = some c ∧ c.inTransitionMode = true ∧
    c.properties = some properties ∧ properties.length = size ∧
    c.flags.hasIndexPropertyName = false

theorem extends_follow (hnames : Agreeing memory names) (hlinks : classes.LinksOk memory names)
    (hitems : ∀ item ∈ items, item.propertyName ∈ names) :
    ∀ {start n size : Nat}, classes.Extends start size →
      classes.follow memory start items = some n → classes.Extends n (size + items.length) := by
  induction items with
  | nil =>
    intro start n size hstart hfollow
    cases hfollow
    exact hstart
  | cons item items ih =>
    intro start n size hstart hfollow
    obtain ⟨c₀, list, hc₀, -, hlist, rfl, -⟩ := hstart
    simp only [HiddenClasses.follow, hc₀] at hfollow
    split at hfollow
    · rename_i t hkind
      split at hfollow
      · cases hfollow
      · rename_i m hfind
        obtain ⟨hexact, -, hleads⟩ := hlinks start c₀ t hc₀ hkind
        obtain ⟨entry, hheld, -, rfl⟩ :=
          (hexact.find_iff hnames (hitems item mem_cons_self)).mp hfind
        obtain ⟨c', properties, hc', hmode', hproperties, hlist', hindex'⟩ := hleads entry hheld
        cases hlist.symm.trans hproperties
        have hnext : classes.Extends entry.2 (list.length + 1) :=
          ⟨c', _, hc', hmode', hlist', by rw [length_append]; rfl, hindex'⟩
        have hrest := ih (fun other hother => hitems other (mem_cons_of_mem item hother))
          hnext hfollow
        rw [length_cons, Nat.add_comm items.length 1, ← Nat.add_assoc]
        exact hrest
    · cases hfollow

theorem follow_congr (hnames : Agreeing memory names) (hlinks : classes.LinksOk memory names)
    {items' : List ObjectStructureItem}
    (hsame : List.Forall₂ (fun item item' => item.descriptor = item'.descriptor ∧
      item.propertyName.equals memory item'.propertyName = true) items items')
    (hitems : ∀ item ∈ items, item.propertyName ∈ names)
    (hitems' : ∀ item ∈ items', item.propertyName ∈ names) (start : Nat) :
    classes.follow memory start items = classes.follow memory start items' := by
  induction hsame generalizing start with
  | nil => rfl
  | cons hitem hrest ih =>
    rename_i item item' rest rest'
    have hname := hitems item mem_cons_self
    have hname' := hitems' item' mem_cons_self
    have hform := hnames _ hname _ hname' hitem.2
    have hfind : ∀ {c : HiddenClass} {t : TransitionTable}, classes[start]? = some c →
        c.kind = .withTransition t → t.find memory item = t.find memory item' := by
      intro c t hc hkind
      have hexact := (hlinks start c t hc hkind).1
      have hentries : ∀ entry : ObjectStructureItem × Nat,
          TransitionTable.sameItem memory item entry =
            TransitionTable.sameItem memory item' entry := by
        intro entry
        rw [TransitionTable.sameItem, TransitionTable.sameItem, hitem.1, equals_congr hform hitem.2]
      ext n
      rw [hexact.find_iff hnames hname, hexact.find_iff hnames hname']
      simp only [hentries]
    simp only [HiddenClasses.follow]
    split
    · rfl
    · rename_i c hc
      split
      · rename_i t hkind
        rw [hfind hc hkind]
        split
        · rfl
        · exact ih (fun other hother => hitems other (mem_cons_of_mem item hother))
            (fun other hother => hitems' other (mem_cons_of_mem item' hother)) _
      · rfl

theorem follow_append {made : HiddenClass} :
    ∀ {start n : Nat}, classes.follow memory start items = some n →
      HiddenClasses.follow memory (classes ++ [made]) start items = some n := by
  induction items with
  | nil => exact fun h => h
  | cons item items ih =>
    intro start n hfollow
    simp only [HiddenClasses.follow] at hfollow ⊢
    split at hfollow
    · cases hfollow
    · rename_i c hc
      rw [getElem?_concat_iff.mpr (.inl hc)]
      split at hfollow
      · rename_i t hkind
        split at hfollow
        · cases hfollow
        · rename_i m hfind
          simp only [hkind, hfind]
          exact ih hfollow
      · cases hfollow

theorem LinksOk.append (hlinks : classes.LinksOk memory names) {made : HiddenClass}
    (htable : ∀ t, made.kind = .withTransition t → t = .vector []) :
    HiddenClasses.LinksOk memory names (classes ++ [made]) := by
  intro k c t hk hkind
  rcases getElem?_concat_iff.mp hk with hold | ⟨-, rfl⟩
  · obtain ⟨hexact, hnodup, hleads⟩ := hlinks k c t hold hkind
    refine ⟨hexact, hnodup, fun e he => ?_⟩
    obtain ⟨c', properties, hc', hrest⟩ := hleads e he
    exact ⟨c', properties, getElem?_concat_iff.mpr (.inl hc'), hrest⟩
  · rw [htable t hkind]
    refine ⟨⟨trivial, nofun, nofun⟩, ?_, nofun⟩
    rintro _ ⟨⟩
    exact nodup_nil

/-- Additions to a structure that stay below the limits of transitions: it has
transitions and no index, gets no index, and does not get too long. -/
def BelowLimits (limits : StructureLimits) (memory : Nat → EString) (classes : HiddenClasses)
    (root : Nat) (items : List ObjectStructureItem) : Prop :=
  (∃ size, classes.Extends root size ∧ size + items.length ≤ limits.transitionModeMaxSize) ∧
    ∀ item ∈ items, item.propertyName.isIndexString memory = false

variable {size : Nat}

/-- The structure where additions start was there before them and is what it was. -/
theorem Effect.extends_back
    (heffect : Effect limits memory native classes number self method after answer)
    (hself : classes[number]? = some self) {root : Nat} (hroot : classes[root]? = some c)
    (h : after.Extends root size) :
    classes.Extends root size := by
  obtain ⟨c', properties, hc', hmode, hlist, hsize, hindex⟩ := h
  obtain ⟨c'', hc'', hkept, -⟩ := heffect.kept hself hroot
  cases hc'.symm.trans hc''
  rw [hkept.mode] at hmode
  refine ⟨c, properties, hroot, hmode, ?_, hsize, by rw [← hkept.flags, hindex]⟩
  rw [← hkept.list (isShareable_of_mode hmode), hlist]

theorem Extends.append_back {made : HiddenClass} {root : Nat} (hroot : classes[root]? = some c)
    (h : HiddenClasses.Extends (classes ++ [made]) root size) : classes.Extends root size := by
  obtain ⟨c', properties, hc', hrest⟩ := h
  cases hc'.symm.trans (getElem?_concat_iff.mpr (.inl hroot))
  exact ⟨c, properties, hroot, hrest⟩

theorem Effect.follow_addProperty (hnames : Agreeing memory names) {item : ObjectStructureItem}
    (hitem : item.propertyName ∈ names)
    (heffect : Effect limits memory native classes number self (.addProperty item) after answer)
    (hself : classes[number]? = some self) (hlinks : classes.LinksOk memory names)
    (hnumber : classes.Extends number size) (hsize : size + 1 ≤ limits.transitionModeMaxSize)
    (hindex : item.propertyName.isIndexString memory = false) :
    after.follow memory number [item] = some answer := by
  obtain ⟨c, properties, hc, hmode, hlist, rfl, hflag⟩ := hnumber
  cases hself.symm.trans hc
  cases heffect with
  | stay hmethod => cases hmethod
  | mark hmethod => cases hmethod
  | found hmethod hkind hfind =>
    cases hmethod
    simp only [HiddenClasses.follow, hself, hkind, hfind]
  | linked hmethod hproperties hkind hfind hindex' hadd =>
    cases hmethod
    obtain ⟨hexact, hnodup, -⟩ := hlinks number self _ hself hkind
    obtain ⟨hexact', hholds, -⟩ := TransitionTable.Exact.add hnames hexact hitem hfind hnodup hadd
    have hfound := (hexact'.find_iff hnames hitem).mpr
      ⟨_, (hholds _).mpr (.inr rfl), TransitionTable.sameItem_iff.mpr ⟨rfl, equals_self _⟩, rfl⟩
    simp only [HiddenClasses.follow, getElem?_called_append _ _ hself, hfound]
  | copied hmade hown hmode' hlimit =>
    exfalso
    rcases hlimit item properties rfl hlist with hlong | hflag'
    · exact absurd hlong (Nat.not_lt.mpr hsize)
    · rw [SummaryFlags.add, hflag, hindex] at hflag'
      cases hflag'
  | handedOver hmade hown hmode' =>
    rw [hmode] at hmode'
    cases hmode'

end HiddenClasses

namespace HiddenClassState

open ObjectStructurePropertyName HiddenClasses

variable {names : List ObjectStructurePropertyName} {history : List Additions}
  {state next : HiddenClassState}

structure Tracked (limits : StructureLimits) (memory : Nat → EString)
    (names : List ObjectStructurePropertyName) (history : List Additions)
    (state : HiddenClassState) : Prop where
  length : history.length = state.objects.length
  links : state.classes.LinksOk memory names
  known : ∀ (i : Nat) root items, history[i]? = some (some (root, items)) →
    (∃ c, state.classes[root]? = some c) ∧ ∀ item ∈ items, item.propertyName ∈ names
  path : ∀ (i : Nat) root items, history[i]? = some (some (root, items)) →
    state.classes.BelowLimits limits memory root items →
    state.classes.follow memory root items = state.objects[i]?

theorem tracked_initial : initial.Tracked limits memory names [] where
  length := rfl
  links := by
    intro k c t hk hkind
    cases k with
    | zero =>
      cases hk
      cases hkind
      refine ⟨⟨trivial, nofun, nofun⟩, ?_, nofun⟩
      rintro _ ⟨⟩
      exact nodup_nil
    | succ k => cases hk
  known i root items h := by cases h
  path i root items h := by cases h

variable {self : HiddenClass} {method : HiddenClassMethod} {after : HiddenClasses}

/-- A path to the structure of an object that survives all that happens to structures
survives one call. -/
theorem Tracked.kept (hnames : Agreeing memory names)
    (htracked : state.Tracked limits memory names history) {number answer : Nat}
    (hmethod : ∀ item, method = .addProperty item → item.propertyName ∈ names)
    (heffect : Effect limits memory native state.classes number self method after answer)
    (hself : state.classes[number]? = some self) {i root : Nat} {items : List ObjectStructureItem}
    (hi : history[i]? = some (some (root, items)))
    (hbelow : after.BelowLimits limits memory root items) :
    state.classes.BelowLimits limits memory root items ∧
      after.follow memory root items = state.objects[i]? := by
  obtain ⟨⟨size, hextends, hsize⟩, hindex⟩ := hbelow
  obtain ⟨⟨c, hroot⟩, hitems⟩ := htracked.known i root items hi
  have hbelow' : state.classes.BelowLimits limits memory root items :=
    ⟨⟨size, heffect.extends_back hself hroot hextends, hsize⟩, hindex⟩
  refine ⟨hbelow', ?_⟩
  have hlt : i < state.objects.length := by
    rw [← htracked.length]
    exact (List.getElem?_eq_some_iff.mp hi).1
  have hpath := htracked.path i root items hi hbelow'
  rw [getElem?_eq_getElem hlt] at hpath ⊢
  exact heffect.follow hnames hmethod hself htracked.links hitems hpath

theorem track_call {object : Nat} {i root : Nat} {items : List ObjectStructureItem}
    (h : (track history (.call object method))[i]? = some (some (root, items))) :
    (i ≠ object ∨ method = .markReferencedByInlineCache) ∧ history[i]? = some (some (root, items)) ∨
      i = object ∧ ∃ item before, method = .addProperty item ∧ items = before ++ [item] ∧
        history[i]? = some (some (root, before)) := by
  have hmodify : ∀ {f : Additions → Additions},
      (history.modify object f)[i]? = some (some (root, items)) →
      i ≠ object ∧ history[i]? = some (some (root, items)) ∨
        i = object ∧ ∃ entry, history[i]? = some entry ∧ f entry = some (root, items) := by
    intro f hf
    rw [getElem?_modify] at hf
    obtain ⟨entry, hentry, hvalue⟩ := Option.map_eq_some_iff.mp hf
    by_cases heq : object = i
    · rw [if_pos heq] at hvalue
      exact .inr ⟨heq.symm, entry, hentry, hvalue⟩
    · rw [if_neg heq] at hvalue
      exact .inl ⟨Ne.symm heq, by rw [hentry, ← hvalue]⟩
  have hforgotten : (history.modify object fun _ => none)[i]? = some (some (root, items)) →
      (i ≠ object ∨ method = .markReferencedByInlineCache) ∧
        history[i]? = some (some (root, items)) := by
    intro hf
    rcases hmodify hf with ⟨hne, hi⟩ | ⟨-, _, -, hvalue⟩
    · exact ⟨.inl hne, hi⟩
    · cases hvalue
  cases method with
  | addProperty item =>
    rcases hmodify h with ⟨hne, hi⟩ | ⟨hobject, entry, hentry, hvalue⟩
    · exact .inl ⟨.inl hne, hi⟩
    · obtain ⟨⟨root', before⟩, rfl, hresult⟩ := Option.map_eq_some_iff.mp hvalue
      cases hresult
      exact .inr ⟨hobject, item, before, rfl, rfl, hentry⟩
  | removeProperty pIndex => exact .inl (hforgotten h)
  | replacePropertyDescriptor idx newDesc => exact .inl (hforgotten h)
  | convertToNonTransitionStructure => exact .inl (hforgotten h)
  | markReferencedByInlineCache => exact .inl ⟨.inr rfl, h⟩

theorem length_track_call (object : Nat) (method : HiddenClassMethod) :
    (track history (.call object method)).length = history.length := by
  cases method with
  | markReferencedByInlineCache => rfl
  | addProperty item => exact length_modify _ _ _
  | removeProperty pIndex => exact length_modify _ _ _
  | replacePropertyDescriptor idx newDesc => exact length_modify _ _ _
  | convertToNonTransitionStructure => exact length_modify _ _ _

theorem answer_mark {number answer : Nat} {classes : HiddenClasses}
    (heffect : Effect limits memory native classes number self .markReferencedByInlineCache after
      answer) : answer = number := by
  cases heffect with
  | stay => rfl
  | mark => rfl
  | found hmethod => cases hmethod
  | linked hmethod => cases hmethod
  | copied hmade hown hmode hlimit hmethod => exact absurd rfl hmethod
  | handedOver hmade hown hmode hmethod => exact absurd rfl hmethod

theorem tracked_call (hnames : Agreeing memory names)
    (htracked : state.Tracked limits memory names history) {object number answer : Nat}
    (hmethod : ∀ item, method = .addProperty item → item.propertyName ∈ names)
    (hobject : state.objects[object]? = some number) (hself : state.classes[number]? = some self)
    (heffect : Effect limits memory native state.classes number self method after answer) :
    (⟨after, state.objects.set object answer⟩ : HiddenClassState).Tracked limits memory names
      (track history (.call object method)) := by
  have hlt := (List.getElem?_eq_some_iff.mp hobject).1
  constructor
  · show (track history (.call object method)).length = (state.objects.set object answer).length
    rw [length_track_call, htracked.length, length_set]
  · exact heffect.linksOk hnames hmethod hself htracked.links
  · intro i root items hi
    have hbefore : ∀ {before : List ObjectStructureItem},
        history[i]? = some (some (root, before)) → (∃ c, after[root]? = some c) ∧
          ∀ item ∈ before, item.propertyName ∈ names := by
      intro before hentry
      obtain ⟨⟨c, hroot⟩, hitems⟩ := htracked.known i root before hentry
      obtain ⟨c', hroot', -⟩ := heffect.kept hself hroot
      exact ⟨⟨c', hroot'⟩, hitems⟩
    rcases track_call hi with ⟨-, hold⟩ | ⟨-, item, before, hadd, rfl, hold⟩
    · exact hbefore hold
    · refine ⟨(hbefore hold).1, fun other hother => ?_⟩
      rcases List.mem_append.mp hother with hother | hother
      · exact (hbefore hold).2 other hother
      · rw [List.mem_singleton.mp hother]
        exact hmethod item hadd
  · intro i root items hi hbelow
    rcases track_call hi with ⟨hsame, hold⟩ | ⟨rfl, item, before, rfl, rfl, hold⟩
    · rw [(htracked.kept hnames hmethod heffect hself hold hbelow).2]
      by_cases heq : i = object
      · subst heq
        rcases hsame with hne | rfl
        · exact absurd rfl hne
        · rw [getElem?_set_self hlt, answer_mark heffect, hobject]
      · rw [getElem?_set_ne (Ne.symm heq)]
    · -- the called object was at the end of its path and takes one more transition
      obtain ⟨⟨size, hextends, hsize⟩, hindex⟩ := hbelow
      rw [length_append, length_singleton, ← Nat.add_assoc] at hsize
      have hbelow' : after.BelowLimits limits memory root before :=
        ⟨⟨size, hextends, Nat.le_of_succ_le hsize⟩,
          fun other hother => hindex other (mem_append_left _ hother)⟩
      obtain ⟨hbelowOld, hpath⟩ := htracked.kept hnames hmethod heffect hself hold hbelow'
      obtain ⟨⟨c, hroot⟩, hitems⟩ := htracked.known i root before hold
      have hpathOld := htracked.path i root before hold hbelowOld
      rw [hobject] at hpath hpathOld
      have hnumber := extends_follow hnames htracked.links hitems
        (heffect.extends_back hself hroot hextends) hpathOld
      rw [getElem?_set_self hlt, follow_concat hpath]
      exact heffect.follow_addProperty hnames (hmethod item rfl) hself htracked.links hnumber hsize
        (hindex item (mem_append_right _ (List.mem_singleton.mpr rfl)))

theorem tracked_step (hnames : Agreeing memory names) {op : HiddenClassOperation} {out : Unit}
    (hop : ∀ object item, op = .call object (.addProperty item) → item.propertyName ∈ names)
    (htracked : state.Tracked limits memory names history)
    (hstep : state.step limits memory native op = some (next, out)) :
    next.Tracked limits memory names (track history op) := by
  rcases step_cases hstep with
    ⟨made, own, hmade, htable, hown, htrack, rfl⟩ | ⟨number, c, rfl, hc, hshare, rfl⟩ |
      ⟨object, number, method, self, after, answer, rfl, hobject, hself, hlive, heffect, rfl⟩
  · rw [htrack]
    have hold : ∀ {i root : Nat} {items : List ObjectStructureItem},
        (history ++ own.map fun _ => none)[i]? = some (some (root, items)) →
        history[i]? = some (some (root, items)) := by
      intro i root items hi
      by_cases hlt : i < history.length
      · rwa [getElem?_append_left hlt] at hi
      · rw [getElem?_append_right (Nat.le_of_not_lt hlt), getElem?_map] at hi
        obtain ⟨_, -, hnone⟩ := Option.map_eq_some_iff.mp hi
        cases hnone
    constructor
    · show (history ++ own.map fun _ => none).length = (state.objects ++ own).length
      rw [length_append, length_append, length_map, htracked.length]
    · exact htracked.links.append htable
    · intro i root items hi
      obtain ⟨⟨c, hroot⟩, hitems⟩ := htracked.known i root items (hold hi)
      exact ⟨⟨c, getElem?_concat_iff.mpr (.inl hroot)⟩, hitems⟩
    · intro i root items hi hbelow
      obtain ⟨⟨size, hextends, hsize⟩, hindex⟩ := hbelow
      obtain ⟨⟨c, hroot⟩, hitems⟩ := htracked.known i root items (hold hi)
      have hpath := htracked.path i root items (hold hi)
        ⟨⟨size, hextends.append_back hroot, hsize⟩, hindex⟩
      have hlt : i < state.objects.length := by
        rw [← htracked.length]
        exact (List.getElem?_eq_some_iff.mp (hold hi)).1
      rw [getElem?_append_left hlt]
      rw [getElem?_eq_getElem hlt] at hpath ⊢
      exact follow_append hpath
  · constructor
    · show (history ++ [some (number, [])]).length = (state.objects ++ [number]).length
      rw [length_append, length_append, htracked.length]
      rfl
    · exact htracked.links
    · intro i root items hi
      rcases getElem?_concat_iff.mp hi with hold | ⟨-, hentry⟩
      · exact htracked.known i root items hold
      · cases hentry
        exact ⟨⟨c, hc⟩, nofun⟩
    · intro i root items hi hbelow
      rcases getElem?_concat_iff.mp hi with hold | ⟨rfl, hentry⟩
      · rw [getElem?_append_left (by
          rw [← htracked.length]
          exact (List.getElem?_eq_some_iff.mp hold).1)]
        exact htracked.path i root items hold hbelow
      · cases hentry
        exact (getElem?_concat_iff.mpr (.inr ⟨htracked.length, rfl⟩)).symm
  · exact tracked_call hnames htracked (fun item hitem => hop object item (by rw [hitem])) hobject
      hself heffect

def namesAdded (ops : List HiddenClassOperation) : List ObjectStructurePropertyName :=
  ops.filterMap fun
    | .call _ (.addProperty item) => some item.propertyName
    | _ => none

/-- Whatever the operations are, each one leaves the lists of all other objects and of
marked structures as they are, and no object loses its own. If the names that are added
are of one form whenever they are equal, then objects that added the same items to the
same root below the limits have the same structure. -/
theorem structures_shared_safely (limits : StructureLimits) (memory : Nat → EString)
    (native : Nat → Nat) (ops : List HiddenClassOperation) :
    Guarded (fun state op => state.step limits memory native op)
        (FrameHolds limits memory native) ops initial ∧
      ∀ last outs, run (fun state op => state.step limits memory native op) ops initial =
          some (last, outs) →
        (∀ object < last.objects.length, (last.observe object).isSome = true) ∧
        (Agreeing memory (namesAdded ops) →
          ∀ (i j root : Nat) (items items' : List ObjectStructureItem),
            (ops.foldl track [])[i]? = some (some (root, items)) →
            (ops.foldl track [])[j]? = some (some (root, items')) →
            List.Forall₂ (fun item item' => item.descriptor = item'.descriptor ∧
              item.propertyName.equals memory item'.propertyName = true) items items' →
            last.classes.BelowLimits limits memory root items →
            last.classes.BelowLimits limits memory root items' →
            last.objects[i]? = last.objects[j]?) := by
  have hkeep : ∀ {state op next out}, Apart memory state →
      state.step limits memory native op = some (next, out) → next.Apart memory :=
    fun hapart hstep => apart_step hapart hstep
  refine ⟨Guarded.of_invariant hkeep (fun hapart => frame_step hapart _) ops apart_initial,
    fun last outs hrun => ⟨?_, ?_⟩⟩
  · intro object hobject
    have hapart : last.Apart memory := run_invariant hkeep ops apart_initial hrun
    have hget := getElem?_eq_getElem hobject
    obtain ⟨c, hc, hlist⟩ := hapart.live object _ hget
    simp only [observe, HiddenClasses.observe, hget, hc]
    exact hlist
  · intro hnames i j root items items' hi hj hsame hbelow hbelow'
    have hadded : ∀ op ∈ ops, ∀ object item, op = .call object (.addProperty item) →
        item.propertyName ∈ namesAdded ops := by
      rintro _ hop object item rfl
      exact List.mem_filterMap.mpr ⟨_, hop, rfl⟩
    have hstep : ∀ {history state op next out},
        (∀ object item, op = .call object (.addProperty item) →
          item.propertyName ∈ namesAdded ops) →
        Tracked limits memory (namesAdded ops) history state →
        state.step limits memory native op = some (next, out) →
        next.Tracked limits memory (namesAdded ops) (track history op) :=
      fun hop htracked hstep => tracked_step hnames hop htracked hstep
    have htracked := run_tracks hstep ops hadded tracked_initial hrun
    calc
      last.objects[i]? = last.classes.follow memory root items :=
        (htracked.path i root items hi hbelow).symm
      _ = last.classes.follow memory root items' :=
        follow_congr hnames htracked.links hsame (htracked.known i root items hi).2
          (htracked.known j root items' hj).2 root
      _ = last.objects[j]? := htracked.path j root items' hj hbelow'

/-- Two objects get the same two properties, and a third one loses one of them. -/
def twoProperties : List HiddenClassOperation :=
  [.newObject 0, .newObject 0, .call 0 (.addProperty ⟨.atomic 1, ⟨15⟩⟩),
    .call 1 (.addProperty ⟨.atomic 1, ⟨15⟩⟩), .call 1 (.addProperty ⟨.symbol 2, ⟨15⟩⟩),
    .newObject 1, .call 2 (.removeProperty 0), .call 0 (.addProperty ⟨.symbol 2, ⟨15⟩⟩)]

theorem structures_shared_safely_twoProperties :
    ∃ last outs, run (fun state op => state.step .standard (fun _ => .latin1 [0x61]) (fun _ => 0) op)
        twoProperties initial = some (last, outs) ∧
      last.objects[0]? = last.objects[1]? ∧
      Guarded (fun state op => state.step .standard (fun _ => .latin1 [0x61]) (fun _ => 0) op)
        (FrameHolds .standard (fun _ => .latin1 [0x61]) (fun _ => 0)) twoProperties initial := by
  have hall := structures_shared_safely .standard (fun _ => .latin1 [0x61]) (fun _ => 0)
    twoProperties
  refine ⟨_, _, rfl, ?_, hall.1⟩
  apply (hall.2 _ _ rfl).2 (by unfold Agreeing; decide) 0 1 0 _ _ rfl rfl
    (.cons ⟨rfl, rfl⟩ (.cons ⟨rfl, rfl⟩ .nil))
  · exact ⟨⟨0, ⟨_, _, rfl, rfl, rfl, rfl, rfl⟩, by decide⟩, by decide⟩
  · exact ⟨⟨0, ⟨_, _, rfl, rfl, rfl, rfl, rfl⟩, by decide⟩, by decide⟩

/-- A dot and sixteen digits at two addresses, and other names elsewhere. -/
def dottedDigits (address : Nat) : EString :=
  if address < 2 then .latin1 (0x2E :: List.replicate 16 0x31) else .latin1 [0x61, UInt8.ofNat address]

/-- Two objects add the digits as a computed name, the first one while the transitions
of the root are searched one by one, the second one when they are in a map. -/
def crowdedRoot : List HiddenClassOperation :=
  [.newObject 0, .call 0 (.addProperty ⟨.atomic 0, ⟨15⟩⟩),
    .newObject 0, .call 1 (.addProperty ⟨.plain 1, ⟨15⟩⟩)] ++
  (List.range 32).flatMap (fun i =>
    [.newObject 0, .call (i + 2) (.addProperty ⟨.atomic (i + 2), ⟨15⟩⟩)]) ++
  [.newObject 0, .call 34 (.addProperty ⟨.plain 1, ⟨15⟩⟩)]

/-- The same addition to the same root ends in two structures. -/
theorem same_additions_part :
    ¬ ∀ (limits : StructureLimits) (memory : Nat → EString) (native : Nat → Nat)
      (ops : List HiddenClassOperation) (last : HiddenClassState) (outs : List Unit),
      run (fun state op => state.step limits memory native op) ops initial = some (last, outs) →
      ∀ (i j root : Nat) (items : List ObjectStructureItem),
        (ops.foldl track [])[i]? = some (some (root, items)) →
        (ops.foldl track [])[j]? = some (some (root, items)) →
        last.classes.BelowLimits limits memory root items →
        last.objects[i]? = last.objects[j]? := by
  intro hall
  have hrun : ((run (fun state op => state.step .standard dottedDigits (fun _ => 0) op)
      crowdedRoot initial).map fun result : HiddenClassState × List Unit =>
        ((result.1.objects[1]?, result.1.objects[34]?), (result.1.classes[0]?).map fun c =>
          (c.inTransitionMode, c.flags.hasIndexPropertyName, c.properties.map List.length))) =
      some ((some 1, some 34), some (true, false, some 0)) := by
    decide +kernel
  obtain ⟨⟨last, outs⟩, hresult, hends⟩ := Option.map_eq_some_iff.mp hrun
  have hobjects := congrArg Prod.fst hends
  obtain ⟨c, hc, hroot⟩ := Option.map_eq_some_iff.mp (congrArg Prod.snd hends)
  obtain ⟨properties, hproperties, hlength⟩ :=
    Option.map_eq_some_iff.mp (congrArg (fun root => root.2.2) hroot)
  have hbelow : last.classes.BelowLimits .standard dottedDigits 0 [⟨.plain 1, ⟨15⟩⟩] :=
    ⟨⟨0, ⟨c, properties, hc, congrArg Prod.fst hroot, hproperties, hlength,
      congrArg (fun root => root.2.1) hroot⟩, by decide⟩, by decide +kernel⟩
  have hsame := hall .standard dottedDigits (fun _ => 0) crowdedRoot last outs hresult 1 34 0
    [⟨.plain 1, ⟨15⟩⟩] rfl rfl hbelow
  have h1 : last.objects[1]? = some 1 := congrArg Prod.fst hobjects
  have h34 : last.objects[34]? = some 34 := congrArg Prod.snd hobjects
  rw [h1, h34] at hsame
  exact absurd hsame (by decide)

end HiddenClassState

end Escargot.Runtime
