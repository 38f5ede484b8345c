/-
# Object structures stand for lists

Every call keeps the shared structures of all objects in order: each transition
leads to a structure with one more property. Whole runs then agree with runs on
plain lists of pairs. The last part shows a run that does not, because a property
is looked up by a name that compares equal but hashes differently.
-/

import Escargot.Runtime.ObjectStructureSearch

namespace Escargot.Runtime

open List Option Escargot.Foundation

section Shared

open StructureState

variable {limits : StructureLimits} {memory : Nat → EString}

namespace TransitionTable

def Holds (table : TransitionTable) (entry : ObjectStructureItem × Nat) : Prop :=
  match table with
  | vector items => entry ∈ items
  | map table => table.Stored entry

def Ok (memory : Nat → EString) : TransitionTable → Prop
  | vector _ => True
  | map table => table.Valid (hash memory)

theorem find_sound {table : TransitionTable} (hok : table.Ok memory) {item : ObjectStructureItem}
    {next : Nat} (hfind : table.find memory item = some next) :
    ∃ other, table.Holds (other, next) ∧ other.descriptor = item.descriptor ∧
      other.propertyName.key memory = item.propertyName.key memory := by
  have hsame : ∀ entry : ObjectStructureItem × Nat, sameItem memory item entry = true →
      entry.1.descriptor = item.descriptor ∧
        entry.1.propertyName.key memory = item.propertyName.key memory := by
    intro entry h
    simp only [sameItem, Bool.and_eq_true, beq_iff_eq] at h
    exact ⟨h.1, ObjectStructurePropertyName.key_eq_of_equals h.2⟩
  cases table with
  | vector items =>
    obtain ⟨entry, hentry, rfl⟩ := Option.map_eq_some_iff.mp hfind
    exact ⟨entry.1, mem_of_find?_eq_some hentry, hsame entry (find?_some hentry)⟩
  | map table =>
    obtain ⟨entry, hentry, rfl⟩ := Option.map_eq_some_iff.mp hfind
    obtain ⟨hhit, hstored⟩ := RobinTable.Valid.find_sound hok hentry
    exact ⟨entry.1, hstored, hsame entry hhit⟩

theorem insertAll_spec {entries : List (ObjectStructureItem × Nat)}
    {table next : RobinTable (ObjectStructureItem × Nat)} (hvalid : table.Valid (hash memory))
    (hinsert : insertAll memory entries table = some next) :
    next.Valid (hash memory) ∧ ∀ entry, next.Stored entry → table.Stored entry ∨ entry ∈ entries := by
  induction entries generalizing table with
  | nil =>
    cases hinsert
    exact ⟨hvalid, fun _ h => .inl h⟩
  | cons first entries ih =>
    rw [insertAll] at hinsert
    split at hinsert
    · cases hinsert
    · rename_i grown hgrown
      obtain ⟨hvalid', hcases⟩ := hvalid.insert_spec hgrown
      obtain ⟨hnext, hstored⟩ := ih hvalid' hinsert
      refine ⟨hnext, fun entry hentry => ?_⟩
      rcases hstored entry hentry with hold | hmem
      · rcases hcases with ⟨-, rfl⟩ | ⟨-, hnew⟩
        · exact .inl hold
        · rcases (hnew entry).mp hold with h | rfl
          · exact .inl h
          · exact .inr mem_cons_self
      · exact .inr (mem_cons_of_mem first hmem)

theorem add_spec {table next : TransitionTable} (hok : table.Ok memory)
    {entry : ObjectStructureItem × Nat} (hadd : table.add limits memory entry = some next) :
    next.Ok memory ∧ ∀ other, next.Holds other → table.Holds other ∨ other = entry := by
  cases table with
  | vector items =>
    simp only [add] at hadd
    split at hadd
    · obtain ⟨map, hmap, rfl⟩ := Option.map_eq_some_iff.mp hadd
      obtain ⟨hvalid, hstored⟩ := insertAll_spec (RobinTable.valid_empty _) hmap
      refine ⟨hvalid, fun other hother => ?_⟩
      rcases hstored other hother with ⟨i, hi, -⟩ | hmem
      · exact absurd hi (Nat.not_lt_zero i)
      · rcases List.mem_append.mp hmem with h | h
        · exact .inl h
        · exact .inr (List.mem_singleton.mp h)
    · cases hadd
      refine ⟨trivial, fun other hother => ?_⟩
      rcases List.mem_append.mp hother with h | h
      · exact .inl h
      · exact .inr (List.mem_singleton.mp h)
  | map table =>
    obtain ⟨grown, hgrown, rfl⟩ := Option.map_eq_some_iff.mp hadd
    obtain ⟨hvalid, hcases⟩ := RobinTable.Valid.insert_spec hok hgrown
    refine ⟨hvalid, fun other hother => ?_⟩
    rcases hcases with ⟨-, rfl⟩ | ⟨-, hnew⟩
    · exact .inl hother
    · exact (hnew other).mp hother

end TransitionTable

structure SharedOk (limits : StructureLimits) (memory : Nat → EString)
    (shared : List ObjectStructureWithTransition) (node : ObjectStructureWithTransition) :
    Prop where
  flags : FlagsOk node.flags node.properties
  distinct : DistinctPropertyKeys memory node.properties
  length_le : node.properties.length ≤ limits.transitionModeMaxSize
  transitions : node.transitions.Ok memory
  leads : ∀ item next, node.transitions.Holds (item, next) → ∃ child, shared[next]? = some child ∧
      denote memory child.properties =
        denote memory node.properties ++ [(item.propertyName.key memory, item.descriptor)]

def Extends (shared shared' : List ObjectStructureWithTransition) : Prop :=
  ∀ (number : Nat) (node : ObjectStructureWithTransition), shared[number]? = some node →
    ∃ node' : ObjectStructureWithTransition,
      shared'[number]? = some node' ∧ node'.properties = node.properties

theorem Extends.refl (shared : List ObjectStructureWithTransition) : Extends shared shared :=
  fun _ node h => ⟨node, h, rfl⟩

variable {shared shared' : List ObjectStructureWithTransition}

theorem SharedOk.extends {node : ObjectStructureWithTransition}
    (ok : SharedOk limits memory shared node) (hextends : Extends shared shared') :
    SharedOk limits memory shared' node :=
  { ok with
    leads := fun item next hholds => by
      obtain ⟨child, hchild, hdenote⟩ := ok.leads item next hholds
      obtain ⟨child', hchild', hsame⟩ := hextends next child hchild
      exact ⟨child', hchild', by rw [hsame, hdenote]⟩ }

def StructureOk (limits : StructureLimits) (memory : Nat → EString)
    (shared : List ObjectStructureWithTransition) : ObjectStructure → Prop
  | .withTransition number => ∃ node, shared[number]? = some node
  | .withoutTransition self => self.Ok limits memory
  | .withMap self => self.Ok memory

theorem StructureOk.extends {s : ObjectStructure} (ok : StructureOk limits memory shared s)
    (hextends : Extends shared shared') :
    StructureOk limits memory shared' s ∧ properties shared' s = properties shared s := by
  cases s with
  | withTransition number =>
    obtain ⟨node, hnode⟩ := ok
    obtain ⟨node', hnode', hsame⟩ := hextends number node hnode
    refine ⟨⟨node', hnode'⟩, ?_⟩
    simp only [properties, hnode, hnode', map_some, getD_some, hsame]
  | withoutTransition self => exact ⟨ok, rfl⟩
  | withMap self => exact ⟨ok, rfl⟩

variable (memory) (shared) (limits)

/-- The caller of a method keeps its side: a name that is added is new, and an index
is valid. -/
def Proper (s : ObjectStructure) : StructureMethod → Prop
  | .addProperty name _ => FreshKey memory (properties shared s) (name.key memory)
  | .removeProperty i => i < (properties shared s).length
  | .replacePropertyDescriptor i _ => i < (properties shared s).length
  | _ => True

/-- A search is answered by a cache, or meets the property with the key: the names
compare equal and, where a map is used, have the same hash. -/
def Findable (s : ObjectStructure) : StructureMethod → Prop
  | .findProperty name =>
    match s with
    | .withTransition _ => Comparable memory (properties shared s) name
    | .withoutTransition self => self.Answers memory name
    | .withMap self => self.Answers memory name
  | _ => True

/-- All shared structures are in order. -/
def AllShared : Prop :=
  ∀ (number : Nat) (node : ObjectStructureWithTransition), shared[number]? = some node →
    SharedOk limits memory shared node

variable {memory} {shared} {limits}

/-- What a call has to do: the shared structures stay, the object's structure
stands for the list that the call makes, and the answer is the one on the list. -/
structure CallSpec (limits : StructureLimits) (memory : Nat → EString)
    (shared : List ObjectStructureWithTransition) (s : ObjectStructure) (method : StructureMethod)
    (shared' : List ObjectStructureWithTransition) (s' : ObjectStructure)
    (answer : Option (Option Nat)) : Prop where
  keeps : Extends shared shared'
  allShared : AllShared limits memory shared'
  ok : StructureOk limits memory shared' s'
  denotes : denote memory (properties shared' s') =
    plainCall memory (denote memory (properties shared s)) method
  answer_eq : answer = plainAnswer memory (denote memory (properties shared s)) method

variable {s' : ObjectStructure} {method : StructureMethod} {answer : Option (Option Nat)}

theorem CallSpec.of_owned {s : ObjectStructure} (hall : AllShared limits memory shared)
    (hok : StructureOk limits memory shared s')
    (hdenotes : denote memory (properties shared s') =
      plainCall memory (denote memory (properties shared s)) method)
    (hanswer : answer = plainAnswer memory (denote memory (properties shared s)) method) :
    CallSpec limits memory shared s method shared s' answer :=
  ⟨Extends.refl shared, hall, hok, hdenotes, hanswer⟩

theorem denote_append (memory : Nat → EString) (list : List ObjectStructureItem)
    (name : ObjectStructurePropertyName)
    (desc : ObjectStructurePropertyDescriptor) :
    denote memory (list ++ [⟨name, desc⟩]) = denote memory list ++ [(name.key memory, desc)] := by
  simp [denote]

theorem denote_eraseIdx (memory : Nat → EString) (list : List ObjectStructureItem) (i : Nat) :
    denote memory (list.eraseIdx i) = (denote memory list).eraseIdx i := by
  induction list generalizing i with
  | nil => rfl
  | cons item list ih =>
    cases i with
    | zero => rfl
    | succ i => exact congrArg (_ :: ·) (ih i)

theorem callWithoutTransition_spec {self : ObjectStructureWithoutTransition}
    (hall : AllShared limits memory shared) (ok : self.Ok limits memory)
    (hproper : Proper memory shared (.withoutTransition self) method)
    (hfindable : Findable memory shared (.withoutTransition self) method)
    (hcall : callStructure limits memory shared (.withoutTransition self) method =
      some (shared', s', answer)) :
    CallSpec limits memory shared (.withoutTransition self) method shared' s' answer := by
  cases method with
  | addProperty name desc =>
    have hdistinct := ok.distinct.add hproper desc
    have hflags := ok.flags.add memory name desc
    have hdenote := denote_append memory self.properties name desc
    cases hcall
    unfold ObjectStructureWithoutTransition.addProperty
    dsimp only
    split
    · exact .of_owned hall ⟨hdistinct, by rintro _ ⟨⟩⟩ hdenote rfl
    · rename_i hsize
      exact .of_owned hall (ObjectStructureWithoutTransition.ok_make hflags hdistinct (by omega))
        hdenote rfl
  | removeProperty pIndex =>
    cases hcall
    refine .of_owned hall ?_ (denote_eraseIdx memory self.properties pIndex) rfl
    apply ObjectStructureWithoutTransition.ok_make (flagsOk_ofProperties memory _)
      (ok.distinct.eraseIdx pIndex)
    exact Nat.le_trans (length_eraseIdx_le _ _) ok.length_le
  | replacePropertyDescriptor idx newDesc =>
    cases hcall
    refine .of_owned hall ?_ (denote_modify self.properties idx newDesc) rfl
    apply ObjectStructureWithoutTransition.ok_make (flagsOk_modify ok.flags idx newDesc)
      (distinctPropertyKeys_modify ok.distinct idx newDesc)
    rw [length_modify]
    exact ok.length_le
  | convertToNonTransitionStructure =>
    cases hcall
    exact .of_owned hall ok rfl rfl
  | findProperty name =>
    obtain ⟨hanswer, hok, hsame⟩ := ok.findProperty hfindable
    cases hcall
    refine .of_owned hall hok ?_ ?_
    · exact congrArg (denote memory) hsame
    · exact congrArg some hanswer
  | markReferencedByInlineCache =>
    cases hcall
    exact .of_owned hall ok rfl rfl

theorem callWithMap_spec {self : ObjectStructureWithMap} (hall : AllShared limits memory shared)
    (ok : self.Ok memory) (hproper : Proper memory shared (.withMap self) method)
    (hfindable : Findable memory shared (.withMap self) method)
    (hcall : callStructure limits memory shared (.withMap self) method =
      some (shared', s', answer)) :
    CallSpec limits memory shared (.withMap self) method shared' s' answer := by
  cases method with
  | addProperty name desc =>
    obtain ⟨next, hnext, hresult⟩ := Option.map_eq_some_iff.mp hcall
    obtain ⟨hok, hsame⟩ := ok.addProperty hproper hnext
    cases hresult
    refine .of_owned hall hok ?_ rfl
    exact (congrArg (denote memory) hsame).trans (denote_append memory self.properties name desc)
  | removeProperty pIndex =>
    have hdistinct := ok.distinct.eraseIdx pIndex
    have hdenote := denote_eraseIdx memory self.properties pIndex
    cases hcall
    unfold ObjectStructureWithMap.removeProperty
    dsimp only
    split
    · exact .of_owned hall ⟨hdistinct, by rintro _ ⟨⟩⟩ hdenote rfl
    · rename_i hsize
      exact .of_owned hall
        (ObjectStructureWithoutTransition.ok_make (flagsOk_ofProperties memory _) hdistinct
          (by omega)) hdenote rfl
  | replacePropertyDescriptor idx newDesc =>
    cases hcall
    exact .of_owned hall (ok.replacePropertyDescriptor idx newDesc)
      (denote_modify self.properties idx newDesc) rfl
  | convertToNonTransitionStructure =>
    cases hcall
    exact .of_owned hall ok rfl rfl
  | findProperty name =>
    obtain ⟨⟨next, found⟩, hfind, hresult⟩ := Option.map_eq_some_iff.mp hcall
    obtain ⟨hanswer, hok, hsame⟩ := ok.findProperty hfindable hfind
    cases hresult
    refine .of_owned hall hok ?_ ?_
    · exact congrArg (denote memory) hsame
    · exact congrArg some hanswer
  | markReferencedByInlineCache =>
    cases hcall
    exact .of_owned hall ⟨ok.distinct, ok.map⟩ rfl rfl

theorem extends_set_append {shared : List ObjectStructureWithTransition} {number : Nat}
    {self self' : ObjectStructureWithTransition} (hself : shared[number]? = some self)
    (hsame : self'.properties = self.properties) (made : List ObjectStructureWithTransition) :
    Extends shared (shared.set number self' ++ made) := by
  intro i node hnode
  have hi := (List.getElem?_eq_some_iff.mp hnode).1
  have hnumber := (List.getElem?_eq_some_iff.mp hself).1
  rw [getElem?_append_left (by rw [length_set]; exact hi)]
  by_cases heq : number = i
  · subst heq
    cases hself.symm.trans hnode
    exact ⟨self', getElem?_set_self hnumber, hsame⟩
  · exact ⟨node, by rw [getElem?_set_ne heq]; exact hnode, rfl⟩

theorem getElem?_set_concat (shared : List ObjectStructureWithTransition) (number : Nat)
    (self' made : ObjectStructureWithTransition) :
    (shared.set number self' ++ [made])[shared.length]? = some made := by
  rw [getElem?_append_right (by rw [length_set]), length_set, Nat.sub_self]
  rfl

/-- A structure that remembers a new transition, and the structure that it leads to,
join the others. -/
theorem AllShared.link {number : Nat} {self : ObjectStructureWithTransition}
    (hall : AllShared limits memory shared) (hself : shared[number]? = some self)
    {name : ObjectStructurePropertyName} {desc : ObjectStructurePropertyDescriptor}
    (hfresh : FreshKey memory self.properties (name.key memory))
    (hlength : self.properties.length + 1 ≤ limits.transitionModeMaxSize)
    {transitions : TransitionTable}
    (hadd : self.transitions.add limits memory (⟨name, desc⟩, shared.length) = some transitions) :
    let made : ObjectStructureWithTransition :=
      ⟨self.properties ++ [⟨name, desc⟩], self.flags.add memory name, .vector []⟩
    AllShared limits memory
      (shared.set number { self with transitions := transitions } ++ [made]) := by
  intro made
  have ok := hall number self hself
  obtain ⟨htable, hholds⟩ := TransitionTable.add_spec ok.transitions hadd
  have hextends := @extends_set_append shared number self
    { self with transitions := transitions } hself rfl [made]
  have hmade := getElem?_set_concat shared number { self with transitions := transitions } made
  intro i node hnode
  by_cases hold : i < shared.length
  · rw [getElem?_append_left (by rw [length_set]; exact hold)] at hnode
    by_cases heq : number = i
    · subst heq
      rw [getElem?_set_self hold] at hnode
      cases hnode
      refine ⟨ok.flags, ok.distinct, ok.length_le, htable, fun item next hitem => ?_⟩
      rcases hholds (item, next) hitem with hbefore | hentry
      · exact (ok.extends hextends).leads item next hbefore
      · cases hentry
        exact ⟨made, hmade, denote_append memory self.properties name desc⟩
    · rw [getElem?_set_ne heq] at hnode
      exact (hall i node hnode).extends hextends
  · have hi : i = shared.length := by
      have := (List.getElem?_eq_some_iff.mp hnode).1
      rw [length_append, length_set, length_singleton] at this
      omega
    subst hi
    cases hmade.symm.trans hnode
    refine ⟨ok.flags.add memory name desc, ok.distinct.add hfresh desc, ?_, trivial, ?_⟩
    · rw [length_append, length_singleton]
      exact hlength
    · intro item next hitem
      cases hitem

theorem callWithTransition_spec {number : Nat} (hall : AllShared limits memory shared)
    (hproper : Proper memory shared (.withTransition number) method)
    (hfindable : Findable memory shared (.withTransition number) method)
    (hcall : callStructure limits memory shared (.withTransition number) method =
      some (shared', s', answer)) :
    CallSpec limits memory shared (.withTransition number) method shared' s' answer := by
  unfold callStructure at hcall
  dsimp only at hcall
  split at hcall
  · cases hcall
  rename_i self hself
  have ok := hall number self hself
  have hproperties : properties shared (.withTransition number) = self.properties := by
    simp only [properties, hself, map_some, getD_some]
  have hlimit := limits.transition_lt
  have hlength := ok.length_le
  cases method with
  | addProperty name desc =>
    have hfresh : FreshKey memory self.properties (name.key memory) := hproperties ▸ hproper
    dsimp only at hcall
    split at hcall
    · rename_i next hfind
      cases hcall
      obtain ⟨item, hholds, hdesc, hkey⟩ := TransitionTable.find_sound ok.transitions hfind
      obtain ⟨child, hchild, hdenote⟩ := ok.leads item next hholds
      refine .of_owned hall ⟨child, hchild⟩ ?_ rfl
      have hchildren : properties shared (.withTransition next) = child.properties := by
        simp only [properties, hchild, map_some, getD_some]
      rw [hchildren, hproperties, hdenote, hkey, hdesc]
      rfl
    · obtain ⟨⟨self', made, next⟩, hadd, hresult⟩ := Option.map_eq_some_iff.mp hcall
      cases hresult
      unfold ObjectStructureWithTransition.addProperty at hadd
      dsimp only at hadd
      split at hadd
      · cases hadd
        have hset : shared.set number self ++ Option.none.toList = shared := by
          rw [toList_none, append_nil]
          apply ext_getElem?
          intro i
          by_cases heq : number = i
          · subst heq
            rw [getElem?_set_self (List.getElem?_eq_some_iff.mp hself).1, hself]
          · rw [getElem?_set_ne heq]
        rw [hset]
        refine .of_owned hall ?_ ?_ rfl
        · apply ObjectStructureWithoutTransition.ok_make (ok.flags.add memory name desc)
            (ok.distinct.add hfresh desc)
          rw [length_append, length_singleton]
          omega
        · rw [hproperties]
          exact denote_append memory self.properties name desc
      · rename_i hshort
        obtain ⟨transitions, htransitions, hresult⟩ := Option.map_eq_some_iff.mp hadd
        cases hresult
        rw [not_or, length_append, length_singleton] at hshort
        have hlink := hall.link hself hfresh (by omega) htransitions
        have hmade := getElem?_set_concat shared number
          { self with transitions := transitions }
          ⟨self.properties ++ [⟨name, desc⟩], self.flags.add memory name, .vector []⟩
        refine ⟨extends_set_append hself (by rfl) _, hlink, ⟨_, hmade⟩, ?_, rfl⟩
        rw [hproperties]
        dsimp only [properties]
        rw [toList_some, getElem?_set_concat]
        exact denote_append memory self.properties name desc
  | removeProperty pIndex =>
    cases hcall
    refine .of_owned hall ?_ ?_ rfl
    · apply ObjectStructureWithoutTransition.ok_make (flagsOk_ofProperties memory _)
        (ok.distinct.eraseIdx pIndex)
      have := length_eraseIdx_le self.properties pIndex
      omega
    · rw [hproperties]
      exact denote_eraseIdx memory self.properties pIndex
  | replacePropertyDescriptor idx newDesc =>
    cases hcall
    refine .of_owned hall ?_ ?_ rfl
    · apply ObjectStructureWithoutTransition.ok_make (flagsOk_modify ok.flags idx newDesc)
        (distinctPropertyKeys_modify ok.distinct idx newDesc)
      rw [length_modify]
      omega
    · rw [hproperties]
      exact denote_modify self.properties idx newDesc
  | convertToNonTransitionStructure =>
    cases hcall
    refine .of_owned hall ?_ ?_ rfl
    · exact ObjectStructureWithoutTransition.ok_make ok.flags ok.distinct (by omega)
    · rw [hproperties]
      rfl
  | findProperty name =>
    cases hcall
    refine .of_owned hall ⟨self, hself⟩ rfl ?_
    have hcomparable : Comparable memory self.properties name := hproperties ▸ hfindable
    rw [hproperties]
    exact congrArg some (searchProperties_eq ok.flags hcomparable)
  | markReferencedByInlineCache =>
    cases hcall
    exact .of_owned hall ⟨self, hself⟩ rfl rfl

end Shared

section Runs

open StructureState

variable {limits : StructureLimits} {memory : Nat → EString} {s : ObjectStructure}

theorem callStructure_spec {shared shared' : List ObjectStructureWithTransition}
    {s' : ObjectStructure} {method : StructureMethod} {answer : Option (Option Nat)}
    (hall : AllShared limits memory shared) (ok : StructureOk limits memory shared s)
    (hproper : Proper memory shared s method) (hfindable : Findable memory shared s method)
    (hcall : callStructure limits memory shared s method = some (shared', s', answer)) :
    CallSpec limits memory shared s method shared' s' answer := by
  cases s with
  | withTransition number => exact callWithTransition_spec hall hproper hfindable hcall
  | withoutTransition self => exact callWithoutTransition_spec hall ok hproper hfindable hcall
  | withMap self => exact callWithMap_spec hall ok hproper hfindable hcall

/-- Every structure is in order, and new objects find the empty shared one. -/
structure StructureState.Ok (limits : StructureLimits) (memory : Nat → EString)
    (state : StructureState) : Prop where
  allShared : AllShared limits memory state.shared
  root : ∃ node, state.shared[0]? = some node ∧ node.properties = []
  objects : ∀ s ∈ state.objects, StructureOk limits memory state.shared s

theorem ok_initial : initial.Ok limits memory where
  allShared := by
    intro number node hnode
    obtain rfl : number = 0 := by
      have := (List.getElem?_eq_some_iff.mp hnode).1
      exact Nat.lt_one_iff.mp this
    cases hnode
    refine ⟨⟨?_, ?_⟩, nodup_nil, Nat.zero_le _, trivial, ?_⟩
    · intro _ _ h
      cases h
    · intro _ _ h
      cases h
    · intro _ _ h
      cases h
  root := ⟨_, rfl, rfl⟩
  objects := fun _ h => nomatch h

def StructureState.Proper (memory : Nat → EString) (state : StructureState) :
    StructureOperation → Prop
  | .newObject _ => True
  | .call object method => ∀ s ∈ state.objects[object]?, Runtime.Proper memory state.shared s method

def StructureState.Findable (memory : Nat → EString) (state : StructureState) :
    StructureOperation → Prop
  | .newObject _ => True
  | .call object method =>
    ∀ s ∈ state.objects[object]?, Runtime.Findable memory state.shared s method

theorem StructureState.Ok.newObject {state : StructureState} (ok : state.Ok limits memory)
    (preferTransition : Bool) :
    let s : ObjectStructure :=
      if preferTransition then .withTransition 0 else .withoutTransition (.make [] .none)
    StructureOk limits memory state.shared s ∧ properties state.shared s = [] := by
  obtain ⟨node, hnode, hempty⟩ := ok.root
  cases preferTransition with
  | true =>
    refine ⟨⟨node, hnode⟩, ?_⟩
    simp [properties, hnode, hempty]
  | false =>
    refine ⟨ObjectStructureWithoutTransition.ok_make ⟨?_, ?_⟩ nodup_nil (Nat.zero_le _), rfl⟩
    · exact fun _ _ h => nomatch h
    · exact fun _ _ h => nomatch h

def StructureState.StandsFor (limits : StructureLimits) (memory : Nat → EString)
    (state : StructureState)
    (lists : List (List (PropertyKey × ObjectStructurePropertyDescriptor))) : Prop :=
  state.Ok limits memory ∧ state.observe memory = lists

theorem step_simulates {state next : StructureState}
    {lists : List (List (PropertyKey × ObjectStructurePropertyDescriptor))}
    {op : StructureOperation} {out : Observation}
    (hrelated : state.StandsFor limits memory lists)
    (hproper : state.Proper memory op) (hfindable : state.Findable memory op)
    (hstep : step limits memory state op = some (next, out)) :
    out = (plainStep memory lists op).2 ∧
      next.StandsFor limits memory (plainStep memory lists op).1 := by
  obtain ⟨ok, rfl⟩ := hrelated
  cases op with
  | newObject preferTransition =>
    obtain ⟨hok, hempty⟩ := ok.newObject preferTransition
    cases hstep
    have hobserve : ∀ s : ObjectStructure, properties state.shared s = [] →
        StructureState.observe memory ⟨state.shared, state.objects ++ [s]⟩ =
          state.observe memory ++ [[]] := by
      intro s hs
      simp [observe, hs, denote]
    refine ⟨?_, ⟨ok.allShared, ok.root, ?_⟩, hobserve _ hempty⟩
    · exact congrArg (Prod.mk none) (hobserve _ hempty)
    · intro s hs
      rcases List.mem_append.mp hs with hold | hnew
      · exact ok.objects s hold
      · rw [List.mem_singleton.mp hnew]
        exact hok
  | call object method =>
    have hlists : (state.observe memory)[object]? =
        (state.objects[object]?).map fun s => denote memory (properties state.shared s) := by
      rw [observe, getElem?_map]
    unfold step at hstep
    dsimp only at hstep
    split at hstep
    · rename_i hnone
      cases hstep
      rw [hnone] at hlists
      rw [map_none] at hlists
      simp only [plainStep, hlists, true_and]
      exact ⟨ok, rfl⟩
    · rename_i s hs
      rw [hs] at hlists
      obtain ⟨⟨shared', s', answer⟩, hcall, hresult⟩ := Option.map_eq_some_iff.mp hstep
      cases hresult
      have spec := callStructure_spec ok.allShared (ok.objects s (mem_of_getElem? hs))
        (hproper s hs) (hfindable s hs) hcall
      have hobserve : StructureState.observe memory ⟨shared', state.objects.set object s'⟩ =
          (state.observe memory).set object
            (plainCall memory (denote memory (properties state.shared s)) method) := by
        rw [observe, observe, map_set, spec.denotes]
        congr 1
        apply map_congr_left
        intro other hother
        rw [((ok.objects other hother).extends spec.keeps).2]
      simp only [plainStep, hlists, map_some]
      refine ⟨?_, ⟨spec.allShared, ?_, ?_⟩, hobserve⟩
      · exact Prod.ext spec.answer_eq hobserve
      · obtain ⟨node, hnode, hempty⟩ := ok.root
        obtain ⟨node', hnode', hsame⟩ := spec.keeps 0 node hnode
        exact ⟨node', hnode', hsame.trans hempty⟩
      · intro other hother
        rcases mem_or_eq_of_mem_set hother with hold | rfl
        · exact ((ok.objects other hold).extends spec.keeps).1
        · exact spec.ok

def TransitionTable.size : TransitionTable → Nat
  | vector items => items.length
  | map table => table.size

def hashMapSize (shared : List ObjectStructureWithTransition) : ObjectStructure → Nat
  | .withTransition number => ((shared[number]?).map (·.transitions.size)).getD 0
  | .withoutTransition _ => 0
  | .withMap self => self.properties.length

def StructureState.Moderate (state : StructureState) : StructureOperation → Prop
  | .newObject _ => True
  | .call object _ => ∀ s ∈ state.objects[object]?,
      hashMapSize state.shared s ≤ RobinTable.distanceLimit

theorem TransitionTable.insertAll_isSome {entries : List (ObjectStructureItem × Nat)}
    {table : RobinTable (ObjectStructureItem × Nat)} (hvalid : table.Valid (hash memory))
    (hsmall : table.size + entries.length ≤ RobinTable.distanceLimit + 1) :
    (insertAll memory entries table).isSome = true := by
  induction entries generalizing table with
  | nil => rfl
  | cons first entries ih =>
    rw [length_cons] at hsmall
    obtain ⟨grown, hgrown⟩ := Option.isSome_iff_exists.mp
      (hvalid.insert_isSome (by omega) : (table.insert (hash memory)
        (sameItem memory first.1) first).isSome = true)
    have hsize := hvalid.insert_size_le hgrown
    rw [insertAll, hgrown]
    exact ih (hvalid.insert_spec hgrown).1 (by omega)

theorem TransitionTable.add_isSome {table : TransitionTable} (hok : table.Ok memory)
    {entry : ObjectStructureItem × Nat} (hsmall : table.size ≤ RobinTable.distanceLimit) :
    (table.add limits memory entry).isSome = true := by
  cases table with
  | vector items =>
    simp only [add]
    split
    · rw [isSome_map]
      apply insertAll_isSome (RobinTable.valid_empty _)
      rw [length_append, length_singleton]
      exact Nat.le_trans (Nat.le_of_eq (Nat.zero_add _)) (Nat.add_le_add_right hsmall 1)
    · rfl
  | map table =>
    simp only [add, isSome_map]
    exact RobinTable.Valid.insert_isSome hok hsmall

theorem PropertyNameMapWithCache.Ok.insert_isSome {self : PropertyNameMapWithCache}
    {properties : List ObjectStructureItem} (ok : self.Ok memory properties)
    (hsmall : properties.length ≤ RobinTable.distanceLimit) (name : ObjectStructurePropertyName)
    (index : Nat) : (self.insert memory name index).isSome = true := by
  rw [PropertyNameMapWithCache.insert, isSome_map]
  exact ok.valid.insert_isSome (Nat.le_trans ok.size_le hsmall)

theorem PropertyNameMapWithCache.insertAll_isSome {items properties : List ObjectStructureItem}
    (hdistinct : DistinctPropertyKeys memory (properties ++ items))
    {self : PropertyNameMapWithCache} (ok : self.Ok memory properties)
    (hsmall : (properties ++ items).length ≤ RobinTable.distanceLimit) :
    (insertAll memory items properties.length self).isSome = true := by
  induction items generalizing properties self with
  | nil => rfl
  | cons item items ih =>
    rw [append_cons] at hdistinct hsmall
    have hlength : properties.length ≤ RobinTable.distanceLimit := by
      simp only [length_append] at hsmall
      omega
    obtain ⟨map, hmap⟩ := Option.isSome_iff_exists.mp
      (ok.insert_isSome hlength item.propertyName properties.length)
    obtain ⟨hinit, hfresh⟩ := hdistinct.of_concat
    rw [insertAll, hmap]
    have hrest := ih hdistinct (ok.insert hinit hfresh item.descriptor hmap) hsmall
    rw [length_append, length_singleton] at hrest
    exact hrest

theorem callStructure_isSome {shared : List ObjectStructureWithTransition}
    (hall : AllShared limits memory shared) (ok : StructureOk limits memory shared s)
    (hsmall : hashMapSize shared s ≤ RobinTable.distanceLimit) (method : StructureMethod) :
    (callStructure limits memory shared s method).isSome = true := by
  cases s with
  | withTransition number =>
    obtain ⟨self, hself⟩ := ok
    simp only [hashMapSize, hself, map_some, getD_some] at hsmall
    have hadd := fun entry =>
      @TransitionTable.add_isSome limits memory _ (hall number self hself).transitions entry
        hsmall
    unfold callStructure
    dsimp only
    rw [hself]
    cases method with
    | addProperty name desc =>
      dsimp only
      split
      · rfl
      · rw [isSome_map, ObjectStructureWithTransition.addProperty]
        split
        · rfl
        · rw [isSome_map]
          exact hadd _
    | _ => rfl
  | withoutTransition self => cases method <;> rfl
  | withMap self =>
    cases method with
    | addProperty name desc =>
      unfold callStructure ObjectStructureWithMap.addProperty
      rw [isSome_map]
      split
      · rename_i map _ hmap
        rw [isSome_map]
        exact (ok.map map hmap).insert_isSome hsmall _ _
      · rfl
    | findProperty name =>
      unfold callStructure ObjectStructureWithMap.findProperty
      dsimp only
      rw [isSome_map, isSome_map]
      split
      · rfl
      · exact PropertyNameMapWithCache.insertAll_isSome ok.distinct
          (PropertyNameMapWithCache.ok_reserved _) hsmall
    | _ => rfl

theorem step_call {state : StructureState} {object : Nat} {s' : ObjectStructure}
    {method : StructureMethod} {shared' : List ObjectStructureWithTransition}
    {answer : Option (Option Nat)} (hs : state.objects[object]? = some s)
    (hcall : callStructure limits memory state.shared s method = some (shared', s', answer)) :
    step limits memory state (.call object method) =
      some (⟨shared', state.objects.set object s'⟩, answer,
        StructureState.observe memory ⟨shared', state.objects.set object s'⟩) := by
  unfold step
  dsimp only
  rw [hs]
  dsimp only
  rw [hcall]
  rfl

theorem step_isSome {state : StructureState} {op : StructureOperation}
    (ok : state.Ok limits memory) (hmoderate : state.Moderate op) :
    (step limits memory state op).isSome = true := by
  cases op with
  | newObject preferTransition => rfl
  | call object method =>
    unfold step
    dsimp only
    split
    · rfl
    · rename_i s hs
      rw [isSome_map]
      exact callStructure_isSome ok.allShared (ok.objects s (mem_of_getElem? hs))
        (hmoderate s hs) method

theorem run_standsFor {ops : List StructureOperation} {last : StructureState}
    {outs : List Observation}
    (hproper : Guarded (step limits memory)
      (fun state op => state.Proper memory op ∧ state.Findable memory op) ops initial)
    (hrun : run (step limits memory) ops initial = some (last, outs)) :
    outs = (referenceRun (plainStep memory) ops []).2 ∧
      last.StandsFor limits memory (referenceRun (plainStep memory) ops []).1 := by
  have hinitial : initial.StandsFor limits memory [] := ⟨ok_initial, rfl⟩
  refine Guarded.run_simulates (fun hrelated hguard hstep => ?_) ops hproper hinitial hrun
  exact step_simulates hrelated hguard.1 hguard.2 hstep

/-- Structures stand for plain lists: along every run whose callers keep their side,
whichever kinds of structures the limits select, the answers of searches and the
properties of all objects are those of the lists, and the run returns as long as
its hash maps are of moderate size. -/
theorem structures_denote_lists (limits : StructureLimits) (memory : Nat → EString)
    (ops : List StructureOperation)
    (hproper : Guarded (step limits memory)
      (fun state op => state.Proper memory op ∧ state.Findable memory op) ops initial) :
    (∀ last outs, run (step limits memory) ops initial = some (last, outs) →
      outs = (referenceRun (plainStep memory) ops []).2) ∧
    (Guarded (step limits memory) StructureState.Moderate ops initial →
      (run (step limits memory) ops initial).isSome = true) := by
  constructor
  · intro last outs hrun
    exact (run_standsFor hproper hrun).1
  · intro hmoderate
    refine Guarded.run_isSome (fun ok hguard hstep => ?_) step_isSome ops hproper hmoderate
      ok_initial
    exact (step_simulates ⟨ok, rfl⟩ hguard.1 hguard.2 hstep).2.1

/-! The callers' side can be checked along a run. -/

instance (memory : Nat → EString) (properties : List ObjectStructureItem) (k : PropertyKey) :
    Decidable (FreshKey memory properties k) :=
  inferInstanceAs (Decidable (∀ item ∈ properties, item.propertyName.key memory ≠ k))

instance (memory : Nat → EString) (properties : List ObjectStructureItem)
    (s : ObjectStructurePropertyName) : Decidable (Comparable memory properties s) :=
  inferInstanceAs (Decidable (∀ item ∈ properties, item.propertyName.key memory = s.key memory →
    item.propertyName.equals memory s = true))

instance (memory : Nat → EString) (properties : List ObjectStructureItem)
    (s : ObjectStructurePropertyName) :
    Decidable (PropertyNameMapWithCache.Reachable memory properties s) :=
  inferInstanceAs (Decidable (∀ item ∈ properties, item.propertyName.key memory = s.key memory →
    item.propertyName.equals memory s = true ∧
      item.propertyName.hashValue memory = s.hashValue memory))

instance (memory : Nat → EString) (self : ObjectStructureWithoutTransition)
    (s : ObjectStructurePropertyName) : Decidable (self.Answers memory s) :=
  inferInstanceAs (Decidable (_ ∨ _))

instance (memory : Nat → EString) (self : ObjectStructureWithMap)
    (s : ObjectStructurePropertyName) : Decidable (self.Answers memory s) :=
  inferInstanceAs (Decidable
    ((∃ map ∈ self.propertyNameMap, s.equals memory map.lastName = true) ∨ _))

instance (memory : Nat → EString) (shared : List ObjectStructureWithTransition)
    (s : ObjectStructure) : ∀ method, Decidable (Proper memory shared s method)
  | .addProperty _ _ => inferInstanceAs (Decidable (FreshKey ..))
  | .removeProperty _ | .replacePropertyDescriptor _ _ => inferInstanceAs (Decidable (_ < _))
  | .convertToNonTransitionStructure | .findProperty _ | .markReferencedByInlineCache =>
    isTrue trivial

instance (memory : Nat → EString) (shared : List ObjectStructureWithTransition) :
    ∀ s method, Decidable (Findable memory shared s method)
  | .withTransition _, .findProperty _ => inferInstanceAs (Decidable (Comparable ..))
  | .withoutTransition self, .findProperty name =>
    inferInstanceAs (Decidable (self.Answers memory name))
  | .withMap self, .findProperty name => inferInstanceAs (Decidable (self.Answers memory name))
  | _, .addProperty _ _ | _, .removeProperty _ | _, .replacePropertyDescriptor _ _
  | _, .convertToNonTransitionStructure | _, .markReferencedByInlineCache => isTrue trivial

instance (memory : Nat → EString) (state : StructureState) :
    ∀ op, Decidable (state.Proper memory op)
  | .newObject _ => isTrue trivial
  | .call object _ => inferInstanceAs (Decidable (∀ s ∈ state.objects[object]?, _))

instance (memory : Nat → EString) (state : StructureState) :
    ∀ op, Decidable (state.Findable memory op)
  | .newObject _ => isTrue trivial
  | .call object _ => inferInstanceAs (Decidable (∀ s ∈ state.objects[object]?, _))

instance (state : StructureState) : ∀ op, Decidable (state.Moderate op)
  | .newObject _ => isTrue trivial
  | .call object _ => inferInstanceAs (Decidable (∀ s ∈ state.objects[object]?, _))

/-- Two objects on their way from a shared structure to one with a map. -/
def threeKinds : List StructureOperation :=
  [.newObject true, .newObject true,
    .call 0 (.addProperty (.atomic 1) ⟨0⟩), .call 1 (.addProperty (.atomic 1) ⟨0⟩),
    .call 1 (.findProperty (.plain 9)),
    .call 0 (.addProperty (.plain 2) ⟨1⟩), .call 0 (.addProperty (.symbol 3) ⟨0⟩),
    .call 0 (.findProperty (.atomic 1)), .call 0 (.replacePropertyDescriptor 1 ⟨7⟩),
    .call 0 (.addProperty (.atomic 4) ⟨0⟩), .call 0 (.findProperty (.plain 2)),
    .call 0 (.addProperty (.plain 5) ⟨0⟩), .call 0 (.findProperty (.plain 5)),
    .call 0 .markReferencedByInlineCache, .call 0 (.removeProperty 1),
    .call 0 (.findProperty (.plain 2)), .call 0 (.removeProperty 0)]

/-- A build with such limits that few properties meet all of them. -/
def StructureLimits.tiny : StructureLimits := ⟨3, 1, 1, by decide, by decide⟩

theorem structures_denote_lists_threeKinds :
    (run (step .tiny fun p => .utf16 [UInt16.ofNat p]) threeKinds initial).isSome = true ∧
      ∀ last outs,
        run (step .tiny fun p => .utf16 [UInt16.ofNat p]) threeKinds initial = some (last, outs) →
        outs = (referenceRun (plainStep fun p => .utf16 [UInt16.ofNat p]) threeKinds []).2 :=
  ⟨(structures_denote_lists .tiny _ threeKinds (by decide +kernel)).2 (by decide +kernel),
    (structures_denote_lists .tiny _ threeKinds (by decide +kernel)).1⟩

end Runs

namespace WideObject

open StructureState

/-- Interned strings with a text each. The one at `0` is more than sixteen characters
long and starts with a digit, and the computed text at `4096` is the same. -/
def texts (p : Nat) : EString :=
  if p = 0 ∨ p = 4096 then .latin1 (List.replicate 17 0x39) else .utf16 [UInt16.ofNat p]

def desc : ObjectStructurePropertyDescriptor := ⟨0⟩

variable (n : Nat)

def items : List ObjectStructureItem := (List.range n).map fun i => ⟨.atomic i, desc⟩

def flags : Nat → StructureFlags
  | 0 => .none
  | n + 1 => (flags n).add texts (.atomic n)

def wide : ObjectStructure :=
  if 512 < n then
    .withMap ⟨items n, none, (flags n).hasIndexPropertyName, (flags n).hasSymbolPropertyName, false⟩
  else .withoutTransition (.make (items n) (flags n))

def state : StructureState := ⟨initial.shared, [wide n]⟩

def add : StructureOperation := .call 0 (.addProperty (.atomic n) desc)

theorem items_succ : items (n + 1) = items n ++ [⟨.atomic n, desc⟩] := by
  rw [items, range_succ, map_append]
  rfl

theorem length_items : (items n).length = n := by rw [items, length_map, length_range]

theorem properties_wide (shared : List ObjectStructureWithTransition) (n : Nat) :
    properties shared (wide n) = items n := by
  unfold wide
  split
  · rfl
  · rfl

theorem step_add (i : Nat) (hi : i < 513) :
    ∃ out, step .standard texts (state i) (add i) = some (state (i + 1), out) := by
  have hwide : wide i = .withoutTransition (.make (items i) (flags i)) := if_neg (by omega)
  have hcall : callStructure .standard texts initial.shared (wide i)
      (.addProperty (.atomic i) desc) = some (initial.shared, wide (i + 1), none) := by
    rw [hwide]
    dsimp only [callStructure]
    unfold ObjectStructureWithoutTransition.addProperty
    have hmake : (ObjectStructureWithoutTransition.make (items i) (flags i)).properties =
        items i := rfl
    dsimp only
    rw [hmake, ← items_succ, length_items]
    rfl
  exact ⟨_, step_call rfl hcall⟩

theorem key_ne {i j : Nat} (hj : j < i) (hi : i < 513) :
    (ObjectStructurePropertyName.atomic j).key texts ≠
      (ObjectStructurePropertyName.atomic i).key texts := by
  have hcontent : texts i = .utf16 [UInt16.ofNat i] := if_neg (by omega)
  simp only [ObjectStructurePropertyName.key, hcontent]
  intro h
  by_cases hzero : j = 0
  · subst hzero
    have hlength : (texts 0).content.length = 1 := congrArg List.length (PropertyKey.string.inj h)
    exact absurd hlength (by decide)
  · have hother : texts j = .utf16 [UInt16.ofNat j] := if_neg (by omega)
    rw [hother] at h
    have hunits : UInt16.ofNat j = UInt16.ofNat i := by
      have := PropertyKey.string.inj h
      exact (List.cons.inj this).1
    have := congrArg UInt16.toNat hunits
    rw [UInt16.toNat_ofNat', UInt16.toNat_ofNat'] at this
    omega

theorem proper_add (i : Nat) (hi : i < 513) : (state i).Proper texts (add i) := by
  intro s hs
  cases hs
  intro item hitem
  rw [properties_wide] at hitem
  obtain ⟨j, hj, rfl⟩ := List.mem_map.mp hitem
  exact key_ne (List.mem_range.mp hj) hi

/-- The map after some insertions: every name is in the bucket of its address. -/
def table : RobinTable (ObjectStructurePropertyName × Nat) :=
  ⟨2048, fun b => if b < n then some ((.atomic b, b), 0) else none, n, false⟩

theorem insert_table {i : Nat} (hi : i < 513) (hit : ObjectStructurePropertyName × Nat → Bool) :
    (table i).insert (PropertyNameMapWithCache.hash texts) hit (.atomic i, i) =
      some (table (i + 1)) := by
  have hbucket : (table i).bucketForHash (PropertyNameMapWithCache.hash texts (.atomic i, i)) =
      i := by
    have hand : i &&& 2 ^ 11 - 1 = i % 2 ^ 11 := Nat.and_two_pow_sub_one_eq_mod i 11
    have hmod : i % 2 ^ 11 = i := Nat.mod_eq_of_lt (by omega)
    exact hand.trans hmod
  have hfree : (table i).buckets i = none := if_neg (Nat.lt_irrefl i)
  have hload : (table i).size < (table i).loadThreshold := by
    change i < 2048 / 2
    omega
  rw [RobinTable.insert_of_free (by decide : 0 < 2048) (by rw [hbucket]; exact hfree) rfl hload,
    hbucket]
  congr 2
  funext b
  by_cases hb : b = i
  · subst hb
    rw [Function.update_self, if_pos (Nat.lt_succ_self b)]
  · rw [Function.update_of_ne hb]
    show (if b < i then _ else _) = _
    by_cases hlt : b < i
    · rw [if_pos hlt, if_pos (by omega)]
    · rw [if_neg hlt, if_neg (by omega)]

theorem insertAll_table :
    ∀ (k i : Nat) (name : ObjectStructurePropertyName) (index : Option Nat), 0 < k → i + k ≤ 513 →
      PropertyNameMapWithCache.insertAll texts
        ((List.range' i k).map fun i => ⟨.atomic i, desc⟩) i ⟨table i, name, index⟩ =
      some ⟨table (i + k), .atomic (i + k - 1), some (i + k - 1)⟩
  | 0, _, _, _, hk, _ => absurd hk (Nat.lt_irrefl 0)
  | k + 1, i, name, index, _, hle => by
      have hinsert : PropertyNameMapWithCache.insert texts ⟨table i, name, index⟩ (.atomic i) i =
          some ⟨table (i + 1), .atomic i, some i⟩ := by
        rw [PropertyNameMapWithCache.insert, insert_table (by omega)]
        rfl
      rw [range'_succ, map_cons, PropertyNameMapWithCache.insertAll, hinsert]
      dsimp only
      by_cases hk : k = 0
      · subst hk
        rfl
      · rw [insertAll_table k (i + 1) _ _ (by omega) (by omega), Nat.add_right_comm i 1 k]
        rfl

theorem createPropertyNameMap_items :
    createPropertyNameMap texts (items 513) = some ⟨table 513, .atomic 512, some 512⟩ := by
  have hreserved : RobinTable.reserved (items 513).length = table 0 := by
    rw [length_items]
    rfl
  rw [createPropertyNameMap, hreserved, items, range_eq_range']
  exact insertAll_table 513 0 _ _ (by omega) (by omega)

/-- The name whose text is computed. -/
def search : StructureOperation := .call 0 (.findProperty (.plain 4096))

theorem bucket_free : (table 513).buckets ((table 513).bucketForHash
    ((ObjectStructurePropertyName.plain 4096).hashValue texts)) = none := by
  decide +kernel

def searched : ObjectStructureWithMap :=
  ⟨items 513, some ⟨table 513, .plain 4096, none⟩, (flags 513).hasIndexPropertyName,
    (flags 513).hasSymbolPropertyName, false⟩

theorem call_search :
    callStructure .standard texts initial.shared (wide 513) (.findProperty (.plain 4096)) =
      some (initial.shared, .withMap searched, some none) := by
  have hfind : (⟨table 513, .atomic 512, some 512⟩ : PropertyNameMapWithCache).find texts
      (.plain 4096) = (⟨table 513, .plain 4096, none⟩, none) := by
    have hmiss : (ObjectStructurePropertyName.plain 4096).equals texts (.atomic 512) = false := by
      decide +kernel
    rfl
  have hwide : wide 513 = .withMap ⟨items 513, none, (flags 513).hasIndexPropertyName,
      (flags 513).hasSymbolPropertyName, false⟩ := if_pos (by omega)
  rw [hwide]
  unfold callStructure ObjectStructureWithMap.findProperty
  dsimp only
  rw [createPropertyNameMap_items, map_some, hfind]
  rfl

theorem step_search :
    ∃ last, step .standard texts (state 513) search = some (last, some none, last.observe texts) :=
  ⟨_, step_call rfl call_search⟩

/-- A new object that shares no structure gets properties. -/
def additions : List StructureOperation :=
  .newObject true :: .call 0 .convertToNonTransitionStructure :: (List.range n).map add

/-- The additions run as they should, whatever comes after them. -/
theorem run_additions {n : Nat} (hn : n ≤ 513) (rest : List StructureOperation) :
    ∃ outs, run (step .standard texts) (additions n ++ rest) initial =
      (run (step .standard texts) rest (state n)).map
        fun result => (result.1, outs ++ result.2) := by
  obtain ⟨outs, hadds⟩ := run_chain rest n state add
    fun i hi => step_add i (Nat.lt_of_lt_of_le hi hn)
  refine ⟨(none, [[]]) :: (none, [[]]) :: outs, ?_⟩
  have hops : additions n ++ rest = .newObject true ::
      .call 0 .convertToNonTransitionStructure :: ((List.range n).map add ++ rest) := rfl
  rw [hops, run_cons_of_step rfl, run_cons_of_step rfl]
  change (((run (step .standard texts) ((List.range n).map add ++ rest) (state 0)).map _).map
    _) = _
  rw [hadds, Option.map_map, Option.map_map]
  rfl

theorem guarded_additions {guard : StructureState → StructureOperation → Prop}
    {n : Nat} (hn : n ≤ 513) {rest : List StructureOperation} (hnew : guard initial (.newObject true))
    (hconvert : guard ⟨initial.shared, [.withTransition 0]⟩
      (.call 0 .convertToNonTransitionStructure))
    (hadd : ∀ i < 513, guard (state i) (add i))
    (hrest : Guarded (step .standard texts) guard rest (state n)) :
    Guarded (step .standard texts) guard (additions n ++ rest) initial := by
  have hchain := Guarded.chain n state add
    (fun i hi => step_add i (Nat.lt_of_lt_of_le hi hn))
    (fun i hi => hadd i (Nat.lt_of_lt_of_le hi hn)) hrest
  refine ⟨hnew, fun next out hnext => ?_⟩
  cases hnext
  refine ⟨hconvert, fun next out hnext => ?_⟩
  cases hnext
  exact hchain

theorem reference_additions {n : Nat} (hn : n ≤ 513) :
    (referenceRun (plainStep texts) (additions n) []).1 = [denote texts (items n)] := by
  obtain ⟨outs, hrun⟩ := run_additions hn []
  rw [append_nil, run_nil, map_some] at hrun
  have hguarded : Guarded (step .standard texts)
      (fun state op => state.Proper texts op ∧ state.Findable texts op) (additions n)
      initial := by
    rw [← append_nil (additions n)]
    refine guarded_additions hn ⟨trivial, trivial⟩ ⟨?_, ?_⟩ (fun i hi => ⟨proper_add i hi, ?_⟩) trivial
    · exact fun _ _ => trivial
    · exact fun _ _ => trivial
    · exact fun _ _ => trivial
  rw [← (run_standsFor hguarded hrun).2.2, ← properties_wide initial.shared]
  rfl

end WideObject

open StructureState WideObject in
/-- A property that exists is not found: the structure keeps a map, and the hash of
an interned name is its address while that of a computed one follows its text. -/
theorem wide_object_loses_property : ¬ ∀ ops : List StructureOperation,
      Guarded (step .standard texts) (StructureState.Proper texts) ops initial →
      ∀ last outs, run (step .standard texts) ops initial = some (last, outs) →
        outs = (referenceRun (plainStep texts) ops []).2 := by
  intro hclaim
  obtain ⟨last, hsearch⟩ := step_search
  obtain ⟨outs, hrun⟩ := run_additions (Nat.le_refl 513) [search]
  rw [run_cons_of_step hsearch, run_nil, map_some, map_some] at hrun
  have hguarded : Guarded (step .standard texts) (StructureState.Proper texts)
      (additions 513 ++ [search]) initial := by
    refine guarded_additions (Nat.le_refl 513) trivial (fun _ _ => trivial) proper_add ⟨?_, ?_⟩
    · exact fun _ _ => trivial
    · exact fun _ _ _ => trivial
  have houts := hclaim _ hguarded _ _ hrun
  rw [referenceRun_concat, reference_additions (Nat.le_refl 513)] at houts
  have hanswer := (append_inj' houts (by simp only [length_singleton])).2
  have hfound : lookup texts (items 513) ((ObjectStructurePropertyName.plain 4096).key texts) =
      none := by
    have := congrArg Prod.fst (List.cons.inj hanswer).1
    exact (Option.some.inj this).symm
  have hfirst : (⟨.atomic 0, desc⟩ : ObjectStructureItem) ∈ items 513 :=
    List.mem_map.mpr ⟨0, List.mem_range.mpr (by omega), rfl⟩
  exact lookup_eq_none_iff.mp hfound _ hfirst (by decide)

end Escargot.Runtime
