/-
# Cursors over a storage with tombstones

A cursor holds a position of an append-only storage whose deleted entries stay
as dead ones. What it is for is said without positions: a visitor has a list of
the entries it has still to visit, a new entry joins the list of every visitor
that has not finished, and an entry that is removed leaves it.
-/

import Escargot.Foundation.Run
import Escargot.Foundation.Tombstones

namespace Escargot.Foundation

open List Option
open Function (comp_apply)

variable {ε : Type*}

/-- A position in a storage, until the cursor was detached at the end. -/
structure Cursor where
  attached : Bool
  index : Nat

namespace Cursor

/-- The loop over the entries from a position on, up to the first that is live. -/
def seek (live : ε → Bool) : List ε → Nat → Option ε × Nat
  | [], index => (none, index)
  | entry :: rest, index =>
    if live entry then (some entry, index + 1) else seek live rest (index + 1)

/-- The next live entry, or none and the cursor is detached. -/
def advance (live : ε → Bool) (storage : List ε) (cursor : Cursor) : Cursor × Option ε :=
  if cursor.attached then
    match seek live (storage.drop cursor.index) cursor.index with
    | (some entry, index) => (⟨true, index⟩, some entry)
    | (none, index) => (⟨false, index⟩, none)
  else (cursor, none)

end Cursor

inductive StorageChange (ε : Type*)
  | keep
  | append (entry : ε)
  | assign (number : Nat) (f : ε → ε)
  | bury (number : Nat)
  | buryAll

namespace StorageChange

def apply (dead : ε) : StorageChange ε → List ε → List ε
  | keep, storage => storage
  | append entry, storage => storage ++ [entry]
  | assign number f, storage => storage.modify number f
  | bury number, storage => storage.modify number fun _ => dead
  | buryAll, storage => storage.map fun _ => dead

def Proper (live : ε → Bool) : StorageChange ε → Prop
  | append entry => live entry = true
  | assign _ f => ∀ entry, live (f entry) = live entry
  | _ => True

end StorageChange

/-- The live entries in the order of their numbers, the next number, and for each
visitor what it has still to visit, or `none` when it has finished. -/
structure Visits (ε : Type*) where
  entries : List (ε × Nat)
  fresh : Nat
  pending : List (Option (List Nat))

namespace Visits

/-- A change of the entries. Whoever has not finished will visit a new entry, and
nobody visits a removed one. -/
def change (visits : Visits ε) : StorageChange ε → Visits ε
  | .keep => visits
  | .append entry =>
    ⟨visits.entries ++ [(entry, visits.fresh)], visits.fresh + 1,
      visits.pending.map (Option.map (· ++ [visits.fresh]))⟩
  | .assign number f =>
    { visits with
      entries := visits.entries.map fun e => if e.2 = number then (f e.1, e.2) else e }
  | .bury number =>
    { visits with
      entries := visits.entries.filter fun e => e.2 ≠ number
      pending := visits.pending.map (Option.map (List.filter fun n => n ≠ number)) }
  | .buryAll =>
    { visits with
      entries := []
      pending := visits.pending.map (Option.map fun _ => []) }

def enter (visits : Visits ε) : Visits ε :=
  { visits with pending := visits.pending ++ [some (visits.entries.map Prod.snd)] }

/-- The next visit of a visitor: the first entry of its list, or it has finished. -/
def visit (visits : Visits ε) (visitor : Nat) : Option (Visits ε × Option (ε × Nat)) :=
  match visits.pending[visitor]? with
  | none => none
  | some none => some (visits, none)
  | some (some []) => some ({ visits with pending := visits.pending.set visitor none }, none)
  | some (some (number :: rest)) =>
    match visits.entries.find? fun e => e.2 = number with
    | none => none
    | some entry =>
      some ({ visits with pending := visits.pending.set visitor (some rest) }, some entry)

end Visits

section Abstraction

variable (live : ε → Bool)

/-- The live entries from a position on, with their positions. -/
def liveFrom (storage : List ε) (index : Nat) : List (ε × Nat) :=
  storage.zipIdx.filter fun e => live e.1 && decide (index ≤ e.2)

def Visits.of (storage : List ε) (cursors : List Cursor) : Visits ε where
  entries := liveFrom live storage 0
  fresh := storage.length
  pending := cursors.map fun cursor =>
    if cursor.attached then some ((liveFrom live storage cursor.index).map Prod.snd) else none

variable {live} {storage : List ε}

theorem liveFrom_sorted (storage : List ε) (index : Nat) :
    (liveFrom live storage index).Pairwise fun a b => a.2 < b.2 := by
  apply List.Pairwise.filter
  have hnumbers : (storage.zipIdx.map Prod.snd).Pairwise (· < ·) := by
    rw [zipIdx_map_snd]
    exact pairwise_lt_range'
  exact List.pairwise_map.mp hnumbers

variable {index : Nat}

theorem mem_liveFrom {storage : List ε} {e : ε × Nat} :
    e ∈ liveFrom live storage index ↔ storage[e.2]? = some e.1 ∧ live e.1 = true ∧ index ≤ e.2 := by
  rw [liveFrom, mem_filter, mem_zipIdx_iff_getElem?, Bool.and_eq_true, decide_eq_true_eq]

theorem liveFrom_filter (storage : List ε) {later : Nat} (h : index ≤ later) :
    liveFrom live storage later =
      (liveFrom live storage index).filter fun e => decide (later ≤ e.2) := by
  rw [liveFrom, liveFrom, List.filter_filter]
  apply filter_congr
  intro e _
  by_cases hlater : later ≤ e.2
  · simp [hlater, Nat.le_trans h hlater]
  · simp [hlater]

/-- From a position on, the entries are those of the rest of the storage. -/
theorem liveFrom_eq_drop (storage : List ε) (index : Nat) :
    liveFrom live storage index = ((storage.drop index).zipIdx index).filter fun e => live e.1 := by
  by_cases hle : index ≤ storage.length
  · have hsplit : storage.zipIdx =
        (storage.take index).zipIdx ++ (storage.drop index).zipIdx index := by
      conv_lhs => rw [← take_append_drop index storage]
      rw [zipIdx_append, length_take, Nat.min_eq_left hle, Nat.zero_add]
    rw [liveFrom, hsplit, filter_append]
    have hbefore : (storage.take index).zipIdx.filter
        (fun e => live e.1 && decide (index ≤ e.2)) = [] := by
      rw [filter_eq_nil_iff]
      intro e he
      have hlt := snd_lt_of_mem_zipIdx he
      rw [length_take, Nat.min_eq_left hle] at hlt
      simp only [Bool.and_eq_true, decide_eq_true_eq, not_and, Nat.not_le]
      intro _
      omega
    rw [hbefore, nil_append]
    apply filter_congr
    intro e he
    rw [decide_eq_true (le_snd_of_mem_zipIdx he), Bool.and_true]
  · rw [drop_eq_nil_of_le (Nat.le_of_not_le hle), zipIdx_nil, filter_nil,
      liveFrom, filter_eq_nil_iff]
    intro e he
    have hlt := snd_lt_of_mem_zipIdx he
    simp only [Bool.and_eq_true, decide_eq_true_eq, not_and, Nat.not_le]
    intro _
    omega

theorem Cursor.seek_eq (rest : List ε) (index : Nat) :
    Cursor.seek live rest index = match (rest.zipIdx index).filter fun e => live e.1 with
      | [] => (none, index + rest.length)
      | e :: _ => (some e.1, e.2 + 1) := by
  induction rest generalizing index with
  | nil => rfl
  | cons entry rest ih =>
    rw [Cursor.seek, zipIdx_cons, filter_cons]
    by_cases hlive : live entry = true
    · rw [if_pos hlive, if_pos hlive]
    · rw [if_neg hlive, if_neg hlive, ih]
      split
      · rw [length_cons, Nat.add_assoc, Nat.add_comm 1]
      · rfl

theorem zipIdx_modify (storage : List ε) (number : Nat) (f : ε → ε) (k : Nat) :
    (storage.modify number f).zipIdx k =
      (storage.zipIdx k).map fun e => if e.2 = k + number then (f e.1, e.2) else e := by
  induction storage generalizing number k with
  | nil => cases number <;> rfl
  | cons entry storage ih =>
    cases number with
    | zero =>
      rw [modify_zero_cons, zipIdx_cons, zipIdx_cons, map_cons,
        if_pos (Nat.add_zero k).symm, map_congr_left, List.map_id]
      intro e he
      have hle := le_snd_of_mem_zipIdx he
      rw [if_neg (by omega)]
      rfl
    | succ number =>
      rw [modify_succ_cons, zipIdx_cons, zipIdx_cons, map_cons, ih, if_neg (by omega)]
      congr 1
      apply map_congr_left
      intro e _
      rw [Nat.add_assoc, Nat.add_comm 1 number]

theorem liveFrom_append {entry : ε} (hlive : live entry = true) (hindex : index ≤ storage.length) :
    liveFrom live (storage ++ [entry]) index =
      liveFrom live storage index ++ [(entry, storage.length)] := by
  rw [liveFrom, zipIdx_append, filter_append, Nat.zero_add]
  congr 1
  rw [zipIdx_cons, zipIdx_nil, filter_cons_of_pos]
  · rfl
  · rw [hlive, decide_eq_true hindex]
    rfl

theorem liveFrom_assign {f : ε → ε} (hf : ∀ entry, live (f entry) = live entry) (number : Nat)
    (index : Nat) :
    liveFrom live (storage.modify number f) index = (liveFrom live storage index).map fun e =>
        if e.2 = number then (f e.1, e.2) else e := by
  rw [liveFrom, zipIdx_modify, List.filter_map]
  simp only [Nat.zero_add]
  congr 1
  apply filter_congr
  intro e _
  rw [comp_apply]
  split
  · rw [hf]
  · rfl

variable {dead : ε}

theorem liveFrom_bury (hdead : live dead = false) (number : Nat) (index : Nat) :
    liveFrom live (storage.modify number fun _ => dead) index =
      (liveFrom live storage index).filter fun e => e.2 ≠ number := by
  rw [liveFrom, zipIdx_modify, List.filter_map, liveFrom, List.filter_filter]
  simp only [Nat.zero_add]
  have hfilter : storage.zipIdx.filter
      ((fun e => live e.1 && decide (index ≤ e.2)) ∘
        fun e => if e.2 = number then (dead, e.2) else e) =
      storage.zipIdx.filter fun e =>
        decide (e.2 ≠ number) && (live e.1 && decide (index ≤ e.2)) := by
    apply filter_congr
    intro e _
    by_cases heq : e.2 = number
    · simp [heq, hdead]
    · simp [heq]
  rw [hfilter, map_congr_left, List.map_id]
  intro e he
  have hne := (List.mem_filter.mp he).2
  rw [Bool.and_eq_true, decide_eq_true_eq] at hne
  rw [if_neg hne.1]
  rfl

theorem liveFrom_buryAll (hdead : live dead = false) (index : Nat) :
    liveFrom live (storage.map fun _ => dead) index = [] := by
  rw [liveFrom, filter_eq_nil_iff]
  intro e he
  obtain ⟨entry, -, hentry⟩ := List.mem_map.mp (fst_mem_of_mem_zipIdx he)
  rw [← hentry, hdead, Bool.false_and]
  exact Bool.false_ne_true

def Within (storage : List ε) (cursors : List Cursor) : Prop :=
  ∀ cursor ∈ cursors, cursor.index ≤ storage.length

theorem StorageChange.length_le (dead : ε) (change : StorageChange ε) (storage : List ε) :
    storage.length ≤ (change.apply dead storage).length := by
  cases change with
  | keep => exact Nat.le_refl _
  | append entry =>
    rw [StorageChange.apply, length_append]
    exact Nat.le_add_right _ _
  | assign number f => exact Nat.le_of_eq (length_modify f storage number).symm
  | bury number => exact Nat.le_of_eq (length_modify _ storage number).symm
  | buryAll => exact Nat.le_of_eq (length_map _).symm

theorem Visits.of_change (hdead : live dead = false) {change : StorageChange ε}
    (hproper : change.Proper live) {cursors : List Cursor} (hwithin : Within storage cursors) :
    Visits.of live (change.apply dead storage) cursors =
      (Visits.of live storage cursors).change change := by
  have hpending : ∀ {after : List ε} {g : List Nat → List Nat},
      (∀ index ≤ storage.length, (liveFrom live after index).map Prod.snd =
        g ((liveFrom live storage index).map Prod.snd)) →
      (cursors.map fun cursor =>
          if cursor.attached then some ((liveFrom live after cursor.index).map Prod.snd)
          else none) =
        (cursors.map fun cursor =>
          if cursor.attached then some ((liveFrom live storage cursor.index).map Prod.snd)
          else none).map (Option.map g) := by
    intro after g hg
    rw [List.map_map]
    apply map_congr_left
    intro cursor hcursor
    rw [comp_apply]
    split
    · rw [hg cursor.index (hwithin cursor hcursor), map_some]
    · rfl
  cases change with
  | keep => rfl
  | append entry =>
    simp only [StorageChange.apply, Visits.of, Visits.change, Visits.mk.injEq]
    refine ⟨liveFrom_append hproper (Nat.zero_le _), length_append, hpending ?_⟩
    intro index hindex
    rw [liveFrom_append hproper hindex, map_append]
    rfl
  | assign number f =>
    simp only [StorageChange.apply, Visits.of, Visits.change, Visits.mk.injEq]
    refine ⟨liveFrom_assign hproper number 0, length_modify f storage number, ?_⟩
    rw [hpending (g := id)]
    · simp only [Option.map_id, id_eq, List.map_id_fun]
    · intro index _
      rw [liveFrom_assign hproper, List.map_map, id_eq]
      apply map_congr_left
      intro e _
      rw [comp_apply]
      split
      · rfl
      · rfl
  | bury number =>
    simp only [StorageChange.apply, Visits.of, Visits.change, Visits.mk.injEq]
    refine ⟨liveFrom_bury hdead number 0, length_modify _ storage number, hpending ?_⟩
    intro index _
    rw [liveFrom_bury hdead, List.filter_map]
    rfl
  | buryAll =>
    simp only [StorageChange.apply, Visits.of, Visits.change, Visits.mk.injEq]
    refine ⟨liveFrom_buryAll hdead 0, length_map _, hpending ?_⟩
    intro index _
    rw [liveFrom_buryAll hdead]
    rfl

theorem Visits.of_enter (storage : List ε) (cursors : List Cursor) :
    Visits.of live storage (cursors ++ [⟨true, 0⟩]) = (Visits.of live storage cursors).enter := by
  simp only [Visits.of, Visits.enter, map_append, map_cons, map_nil, if_true]

variable {cursors : List Cursor}

theorem Visits.of_set (visitor : Nat) (cursor : Cursor) :
    Visits.of live storage (cursors.set visitor cursor) = { Visits.of live storage cursors with
        pending := (Visits.of live storage cursors).pending.set visitor
          (if cursor.attached then some ((liveFrom live storage cursor.index).map Prod.snd)
          else none) } := by
  simp only [Visits.of, map_set]

theorem find?_liveFrom {e : ε × Nat} (he : e ∈ liveFrom live storage index) :
    (liveFrom live storage index).find? (fun d => d.2 = e.2) = some e := by
  cases hfind : (liveFrom live storage index).find? fun d => d.2 = e.2 with
  | none => exact absurd (decide_eq_true rfl) (List.find?_eq_none.mp hfind e he)
  | some d =>
    have hnumber : d.2 = e.2 := by simpa using find?_some hfind
    have hd := (mem_liveFrom.mp (mem_of_find?_eq_some hfind)).1
    rw [hnumber, (mem_liveFrom.mp he).1] at hd
    rw [show d = e from Prod.ext (Option.some.inj hd).symm hnumber]

theorem Visits.of_advance {visitor : Nat} {cursor : Cursor}
    (hcursor : cursors[visitor]? = some cursor) (hwithin : cursor.index ≤ storage.length) :
    ∃ entry, (Visits.of live storage cursors).visit visitor = some (Visits.of live storage
          (cursors.set visitor (cursor.advance live storage).1), entry) ∧
      entry.map Prod.fst = (cursor.advance live storage).2 ∧
      (cursor.advance live storage).1.index ≤ storage.length := by
  have hget : (Visits.of live storage cursors).pending[visitor]? =
      some (if cursor.attached then some ((liveFrom live storage cursor.index).map Prod.snd)
        else none) := by
    simp only [Visits.of, getElem?_map, hcursor, map_some]
  have hlt := (List.getElem?_eq_some_iff.mp hcursor).1
  rw [Visits.visit, hget, Visits.of_set, Cursor.advance]
  by_cases hattached : cursor.attached = true
  · rw [if_pos hattached, if_pos hattached, Cursor.seek_eq, ← liveFrom_eq_drop]
    cases hleft : liveFrom live storage cursor.index with
    | nil =>
      refine ⟨none, rfl, rfl, ?_⟩
      dsimp only
      rw [length_drop]
      omega
    | cons e rest =>
      have hmem : e ∈ liveFrom live storage cursor.index := by
        rw [hleft]
        exact mem_cons_self
      obtain ⟨hentry, hlive, hle⟩ := mem_liveFrom.mp hmem
      have hfind : (Visits.of live storage cursors).entries.find? (fun d => d.2 = e.2) =
          some e := find?_liveFrom (mem_liveFrom.mpr ⟨hentry, hlive, Nat.zero_le _⟩)
      have hrest : liveFrom live storage (e.2 + 1) = rest := by
        have hsorted := @liveFrom_sorted ε live storage cursor.index
        rw [hleft] at hsorted
        rw [liveFrom_filter storage (Nat.le_succ_of_le hle), hleft, filter_cons_of_neg,
          filter_eq_self]
        · intro d hd
          exact decide_eq_true ((List.pairwise_cons.mp hsorted).1 d hd)
        · simp
      simp only [map_cons, hfind, hrest, if_true]
      exact ⟨some e, rfl, rfl, (List.getElem?_eq_some_iff.mp hentry).1⟩
  · rw [if_neg hattached, if_neg hattached]
    refine ⟨none, ?_, rfl, hwithin⟩
    obtain ⟨hpos, hvalue⟩ := List.getElem?_eq_some_iff.mp hget
    rw [← hvalue, set_getElem_self]

end Abstraction

inductive IterationOperation (Op Kind : Type*)
  | operate (op : Op)
  | create (kind : Kind)
  | advance (iterator : Nat)

inductive IterationAnswer (Out Result : Type*)
  | answer (out : Out)
  | created
  | visited (result : Result)
  | done

structure Iterated (C Kind : Type*) where
  collection : C
  iterators : List (Kind × Cursor)

variable {C Op Out Kind Result : Type*}

section System

variable (operate : C → Op → Option (C × Out)) (storage : C → List ε) (live : ε → Bool)
  (result : Kind → ε → Result)

/-- An iterator reads what its kind asks for from the next live entry. -/
def advanceIterator (storage : List ε) (iterator : Kind × Cursor) :
    (Kind × Cursor) × Option Result :=
  ((iterator.1, (iterator.2.advance live storage).1),
    (iterator.2.advance live storage).2.map (result iterator.1))

def Iterated.step (advance : C → Kind × Cursor → (Kind × Cursor) × Option Result)
    (state : Iterated C Kind) :
    IterationOperation Op Kind → Option (Iterated C Kind × IterationAnswer Out Result)
  | .operate op =>
    (operate state.collection op).map fun (collection, out) =>
      ({ state with collection := collection }, .answer out)
  | .create kind =>
    some ({ state with iterators := state.iterators ++ [(kind, ⟨true, 0⟩)] }, .created)
  | .advance i =>
    match state.iterators[i]? with
    | none => none
    | some iterator =>
      match advance state.collection iterator with
      | (iterator, some value) =>
        some ({ state with iterators := state.iterators.set i iterator }, .visited value)
      | (iterator, none) => some ({ state with iterators := state.iterators.set i iterator }, .done)

end System

/-- What the operations of a collection mean for its entries, once a lookup has said
which entry has the key of the operation. -/
structure Description (ε Op Out : Type*) where
  hit : Op → ε → Bool
  change : Op → Option Nat → StorageChange ε
  answer : Op → Option ε → List ε → Out

namespace Visits

variable (description : Description ε Op Out) (strict : Bool) (result : Kind → ε → Result)
  (entries : List (ε × Nat))

/-- A lookup may name an entry that has the key. It may name none, but a strict one
only if there is none. -/
def allows (op : Op) : Option Nat → Bool
  | some number => entries.any fun e => e.2 == number && description.hit op e.1
  | none => !strict || entries.all fun e => !description.hit op e.1

/-- The entry that a lookup names. -/
def named (found : Option Nat) : Option ε :=
  found.bind fun number => (entries.find? fun e => e.2 = number).map Prod.fst

/-- One step in terms of entries, given what the lookup of the operation found. The
number of a visited entry is told as well. -/
def step (state : Visits ε × List Kind) : IterationOperation Op Kind × Option Nat →
      Option ((Visits ε × List Kind) × (IterationAnswer Out Result × Option Nat))
  | (.operate op, found) =>
    if allows description strict state.1.entries op found then
      some ((state.1.change (description.change op found), state.2),
        (.answer (description.answer op (named state.1.entries found)
          (state.1.entries.map Prod.fst)), none))
    else none
  | (.create kind, _) => some ((state.1.enter, state.2 ++ [kind]), (.created, none))
  | (.advance i, _) =>
    match state.2[i]?, state.1.visit i with
    | some kind, some (next, some e) =>
      some ((next, state.2), (.visited (result kind e.1), some e.2))
    | some _, some (next, none) => some ((next, state.2), (.done, none))
    | _, _ => none

end Visits

section Refinement

variable {operate : C → Op → Option (C × Out)} {storage : C → List ε} {live : ε → Bool} {dead : ε}
  {result : Kind → ε → Result} {description : Description ε Op Out} {strict : Bool}

variable (storage) (live) (dead) (description) (strict)

/-- What a collection with iterators stands for. -/
def Iterated.visits (state : Iterated C Kind) : Visits ε × List Kind :=
  (Visits.of live (storage state.collection) (state.iterators.map Prod.snd),
    state.iterators.map Prod.fst)

/-- One operation of the collection does what its description says about the entry that
some lookup found. -/
def Follows (c : C) (op : Op) (next : C) (out : Out) : Prop :=
  ∃ found, Visits.allows description strict (liveFrom live (storage c) 0) op found = true ∧
    (description.change op found).Proper live ∧
    storage next = (description.change op found).apply dead (storage c) ∧
    out = description.answer op (Visits.named (liveFrom live (storage c) 0) found)
      ((liveFrom live (storage c) 0).map Prod.fst)

variable {storage} {live} {dead} {description} {strict}

theorem Iterated.step_visits (hdead : live dead = false) {state next : Iterated C Kind}
    {op : IterationOperation Op Kind} {out : IterationAnswer Out Result}
    (hfollows : ∀ op' after out', op = .operate op' →
      operate state.collection op' = some (after, out') →
      Follows storage live dead description strict state.collection op' after out')
    (hwithin : Within (storage state.collection) (state.iterators.map Prod.snd))
    (hstep : state.step operate (fun collection => advanceIterator live result (storage collection))
      op = some (next, out)) :
    Within (storage next.collection) (next.iterators.map Prod.snd) ∧
      ∃ found number, Visits.step description strict result (state.visits storage live) (op, found) =
        some (next.visits storage live, (out, number)) := by
  cases op with
  | operate op =>
    obtain ⟨⟨after, out'⟩, hcollection, hresult⟩ := Option.map_eq_some_iff.mp hstep
    cases hresult
    obtain ⟨found, hallows, hproper, hstorage, rfl⟩ := hfollows op after out' rfl hcollection
    constructor
    · intro cursor hcursor
      refine Nat.le_trans (hwithin cursor hcursor) ?_
      rw [hstorage]
      exact StorageChange.length_le dead _ _
    · refine ⟨found, none, ?_⟩
      simp only [Visits.step, Iterated.visits]
      rw [hstorage, Visits.of_change hdead hproper hwithin]
      exact if_pos hallows
  | create kind =>
    cases hstep
    constructor
    · intro cursor hcursor
      rw [map_append] at hcursor
      rcases List.mem_append.mp hcursor with hold | hnew
      · exact hwithin cursor hold
      · rw [List.mem_singleton.mp hnew]
        exact Nat.zero_le _
    · refine ⟨none, none, ?_⟩
      simp only [Visits.step, Iterated.visits, map_append]
      rw [← Visits.of_enter]
      rfl
  | advance i =>
    simp only [Iterated.step] at hstep
    split at hstep
    · cases hstep
    · rename_i iterator hiterator
      have hcursor : (state.iterators.map Prod.snd)[i]? = some iterator.2 := by
        rw [getElem?_map, hiterator, map_some]
      have hkind : (state.iterators.map Prod.fst)[i]? = some iterator.1 := by
        rw [getElem?_map, hiterator, map_some]
      obtain ⟨entry, hvisit, hentry, hindex⟩ :=
        @Visits.of_advance ε live _ _ _ _ hcursor
          (hwithin _ (mem_of_getElem? hcursor))
      have hnext : next = Iterated.mk state.collection (state.iterators.set i
            (iterator.1, (iterator.2.advance live (storage state.collection)).1)) ∧
          out = (iterator.2.advance live (storage state.collection)).2.elim .done
            fun e => .visited (result iterator.1 e) := by
        rw [advanceIterator] at hstep
        cases hread : (iterator.2.advance live (storage state.collection)).2 with
        | none =>
          rw [hread] at hstep
          cases hstep
          exact ⟨rfl, rfl⟩
        | some e =>
          rw [hread] at hstep
          cases hstep
          exact ⟨rfl, rfl⟩
      obtain ⟨rfl, rfl⟩ := hnext
      constructor
      · intro cursor hmem
        rw [map_set] at hmem
        rcases mem_or_eq_of_mem_set hmem with hold | rfl
        · exact hwithin cursor hold
        · exact hindex
      · have hkinds : (state.iterators.set i
            (iterator.1, (iterator.2.advance live (storage state.collection)).1)).map Prod.fst =
            state.iterators.map Prod.fst := by
          obtain ⟨hlt, hvalue⟩ := List.getElem?_eq_some_iff.mp hkind
          rw [map_set, ← hvalue, set_getElem_self]
        simp only [Visits.step, Iterated.visits, hkind, hvisit, ← hentry, hkinds, map_set]
        cases entry with
        | none => exact ⟨none, none, rfl⟩
        | some e => exact ⟨none, some e.2, rfl⟩

theorem Iterated.run_visits (hdead : live dead = false) {Inv : C → Prop} {guard : C → Op → Prop}
    (hfollows : ∀ {c op next out}, (strict = true → Inv c ∧ guard c op) →
      operate c op = some (next, out) →
      Follows storage live dead description strict c op next out ∧ (strict = true → Inv next)) :
    ∀ (ops : List (IterationOperation Op Kind)) {state last : Iterated C Kind}
      {outs : List (IterationAnswer Out Result)},
      Within (storage state.collection) (state.iterators.map Prod.snd) →
      (strict = true → Inv state.collection ∧ Guarded
          (Iterated.step operate fun collection => advanceIterator live result (storage collection))
          (fun state op => ∀ op', op = .operate op' → guard state.collection op') ops state) →
      run (Iterated.step operate fun collection =>
        advanceIterator live result (storage collection)) ops state = some (last, outs) →
      ∃ founds refLast refOuts, founds.length = ops.length ∧
        run (Visits.step description strict result) (ops.zip founds) (state.visits storage live) =
          some (refLast, refOuts) ∧ refOuts.map Prod.fst = outs
  | [], state, last, outs, _, _, hrun => by
      cases hrun
      exact ⟨[], _, [], rfl, rfl, rfl⟩
  | op :: ops, state, last, outs, hwithin, hguarded, hrun => by
      rw [run] at hrun
      split at hrun
      · cases hrun
      · rename_i next out hstep
        split at hrun
        · cases hrun
        · rename_i final rest hrest
          cases hrun
          have hcollection : ∀ op' after out', op = .operate op' →
              operate state.collection op' = some (after, out') →
              Follows storage live dead description strict state.collection op' after out' ∧
                (strict = true → Inv after) :=
            fun op' after out' hop => hfollows fun hstrict =>
              ⟨(hguarded hstrict).1, (hguarded hstrict).2.head op' hop⟩
          obtain ⟨hwithin', found, number, hvisits⟩ := Iterated.step_visits hdead
            (fun op' after out' hop hoperate => (hcollection op' after out' hop hoperate).1)
            hwithin hstep
          have hguarded' : strict = true → Inv next.collection ∧
              Guarded (Iterated.step operate fun collection =>
                  advanceIterator live result (storage collection))
                (fun state op => ∀ op', op = .operate op' → guard state.collection op') ops next := by
            intro hstrict
            refine ⟨?_, (hguarded hstrict).2.tail hstep⟩
            cases op with
            | operate op =>
              obtain ⟨⟨after, out'⟩, hoperate, hresult⟩ := Option.map_eq_some_iff.mp hstep
              cases hresult
              exact (hcollection op after out' rfl hoperate).2 hstrict
            | create kind =>
              cases hstep
              exact (hguarded hstrict).1
            | advance i =>
              simp only [Iterated.step] at hstep
              split at hstep
              · cases hstep
              · split at hstep
                · cases hstep
                  exact (hguarded hstrict).1
                · cases hstep
                  exact (hguarded hstrict).1
          obtain ⟨founds, refLast, refOuts, hlength, hrefRun, hrefOuts⟩ :=
            Iterated.run_visits hdead hfollows ops hwithin' hguarded' hrest
          refine ⟨found :: founds, refLast, (out, number) :: refOuts, ?_, ?_, ?_⟩
          · rw [length_cons, length_cons, hlength]
          · rw [zip_cons_cons, run_cons_of_step hvisits, hrefRun]
            rfl
          · rw [map_cons, hrefOuts]

end Refinement

/-- What a visitor may answer after an earlier answer: a later entry, or that it has
finished, and nothing else once it has. -/
def Later : Option Nat → Option Nat → Prop
  | some earlier, some number => earlier < number
  | none, some _ => False
  | _, none => True

theorem Later.trans {a b c : Option Nat} (hab : Later a b) (hbc : Later b c) : Later a c := by
  match a, b, c with
  | none, none, none => trivial
  | some _, _, none => trivial
  | none, some _, _ => exact hab.elim
  | _, none, some _ => exact hbc.elim
  | some _, some _, some _ => exact Nat.lt_trans hab hbc

def visitsBy (iterator : Nat) (ops : List (IterationOperation Op Kind))
    (outs : List (IterationAnswer Out Result × Option Nat)) : List (Option Nat) :=
  (ops.zip outs).filterMap fun
    | (.advance i, (_, number)) => if i = iterator then some number else none
    | _ => none

namespace Visits

/-- Numbers are given out in order. -/
structure Ordered (visits : Visits ε) : Prop where
  entries_sorted : (visits.entries.map Prod.snd).Pairwise (· < ·)
  entries_lt : ∀ number ∈ visits.entries.map Prod.snd, number < visits.fresh
  pending_sorted : ∀ (visitor : Nat) numbers, visits.pending[visitor]? = some (some numbers) →
    numbers.Pairwise (· < ·) ∧ ∀ number ∈ numbers, number < visits.fresh

/-- Whatever a visitor has still to visit comes later. -/
def Beyond (visits : Visits ε) (visitor : Nat) : Option Nat → Prop
  | none => visits.pending[visitor]? = some none
  | some earlier => earlier < visits.fresh ∧
      ∀ numbers, visits.pending[visitor]? = some (some numbers) →
        ∀ number ∈ numbers, earlier < number

variable {visits next : Visits ε} {visitor : Nat}

theorem change_numbers (visits : Visits ε) (change : StorageChange ε) : ∃ g : List Nat → List Nat,
      (visits.change change).entries.map Prod.snd = g (visits.entries.map Prod.snd) ∧
      (visits.change change).pending = visits.pending.map (Option.map g) ∧
      visits.fresh ≤ (visits.change change).fresh ∧
      ∀ numbers : List Nat, numbers.Pairwise (· < ·) → (∀ number ∈ numbers, number < visits.fresh) →
        (g numbers).Pairwise (· < ·) ∧ ∀ number ∈ g numbers,
          number ∈ numbers ∨ number = visits.fresh ∧ number < (visits.change change).fresh := by
  have hid : visits.pending = visits.pending.map (Option.map id) := by
    rw [Option.map_id, List.map_id_fun, id_eq]
  cases change with
  | keep =>
    exact ⟨id, rfl, hid, Nat.le_refl _, fun numbers hsorted _ => ⟨hsorted, fun _ h => .inl h⟩⟩
  | append entry =>
    refine ⟨(· ++ [visits.fresh]), map_append, rfl, Nat.le_succ _,
      fun numbers hsorted hlt => ⟨?_, fun number hnumber => ?_⟩⟩
    · rw [pairwise_append]
      refine ⟨hsorted, pairwise_singleton _ _, fun number hnumber last hlast => ?_⟩
      rw [List.mem_singleton.mp hlast]
      exact hlt number hnumber
    · rcases List.mem_append.mp hnumber with hold | hnew
      · exact .inl hold
      · rw [List.mem_singleton.mp hnew]
        exact .inr ⟨rfl, Nat.lt_succ_self _⟩
  | assign number f =>
    refine ⟨id, ?_, hid, Nat.le_refl _, fun numbers hsorted _ => ⟨hsorted, fun _ h => .inl h⟩⟩
    show (visits.entries.map _).map Prod.snd = _
    rw [List.map_map, id_eq]
    apply map_congr_left
    intro e _
    rw [comp_apply]
    split
    · rfl
    · rfl
  | bury number =>
    refine ⟨List.filter fun n => n ≠ number, ?_, rfl, Nat.le_refl _,
      fun numbers hsorted _ => ⟨hsorted.filter _, fun n hn => .inl (List.mem_filter.mp hn).1⟩⟩
    rw [List.filter_map]
    rfl
  | buryAll =>
    exact ⟨fun _ => [], rfl, rfl, Nat.le_refl _,
      fun _ _ _ => ⟨List.Pairwise.nil, fun _ hn => absurd hn not_mem_nil⟩⟩

theorem Ordered.change (h : visits.Ordered) (change : StorageChange ε) :
    (visits.change change).Ordered := by
  obtain ⟨g, hentries, hpending, hle, hg⟩ := visits.change_numbers change
  have hlt : ∀ {numbers : List Nat}, (∀ number ∈ numbers, number < visits.fresh) →
      ∀ {number}, (number ∈ numbers ∨ number = visits.fresh ∧
        number < (visits.change change).fresh) → number < (visits.change change).fresh := by
    intro numbers hnumbers number hnumber
    rcases hnumber with hold | ⟨-, hnew⟩
    · exact Nat.lt_of_lt_of_le (hnumbers number hold) hle
    · exact hnew
  constructor
  · rw [hentries]
    exact (hg _ h.entries_sorted h.entries_lt).1
  · rw [hentries]
    intro number hnumber
    exact hlt h.entries_lt ((hg _ h.entries_sorted h.entries_lt).2 number hnumber)
  · intro visitor numbers hnumbers
    rw [hpending, getElem?_map] at hnumbers
    obtain ⟨list, hlist, hmapped⟩ := Option.map_eq_some_iff.mp hnumbers
    obtain ⟨before, rfl, rfl⟩ := Option.map_eq_some_iff.mp hmapped
    obtain ⟨hsorted, hbefore⟩ := h.pending_sorted visitor before hlist
    refine ⟨(hg before hsorted hbefore).1, fun number hnumber => ?_⟩
    exact hlt hbefore ((hg before hsorted hbefore).2 number hnumber)

variable {earlier : Option Nat}

theorem Beyond.change (hordered : visits.Ordered) (h : visits.Beyond visitor earlier)
    (change : StorageChange ε) :
    (visits.change change).Beyond visitor earlier := by
  obtain ⟨g, -, hpending, hle, hg⟩ := visits.change_numbers change
  cases earlier with
  | none =>
    have hnone : visits.pending[visitor]? = some none := h
    show (visits.change change).pending[visitor]? = some none
    rw [hpending, getElem?_map, hnone]
    rfl
  | some earlier =>
    obtain ⟨hfresh, hlater⟩ := h
    refine ⟨Nat.lt_of_lt_of_le hfresh hle, fun numbers hnumbers number hnumber => ?_⟩
    rw [hpending, getElem?_map] at hnumbers
    obtain ⟨list, hlist, hmapped⟩ := Option.map_eq_some_iff.mp hnumbers
    obtain ⟨before, rfl, rfl⟩ := Option.map_eq_some_iff.mp hmapped
    obtain ⟨hsorted, hbefore⟩ := hordered.pending_sorted visitor before hlist
    rcases (hg before hsorted hbefore).2 number hnumber with hold | ⟨rfl, -⟩
    · exact hlater before hlist number hold
    · exact hfresh

theorem Ordered.enter (h : visits.Ordered) : visits.enter.Ordered := by
  refine ⟨h.entries_sorted, h.entries_lt, fun visitor numbers hnumbers => ?_⟩
  rcases getElem?_concat_iff.mp hnumbers with hold | ⟨-, hnew⟩
  · exact h.pending_sorted visitor numbers hold
  · cases hnew
    exact ⟨h.entries_sorted, h.entries_lt⟩

theorem Beyond.enter (h : visits.Beyond visitor earlier)
    (hknown : visitor < visits.pending.length) : visits.enter.Beyond visitor earlier := by
  have hsame : visits.enter.pending[visitor]? = visits.pending[visitor]? :=
    getElem?_append_left hknown
  cases earlier with
  | none => exact hsame.trans h
  | some earlier => exact ⟨h.1, fun numbers hnumbers => h.2 numbers (hsame.symm.trans hnumbers)⟩

theorem Beyond.set {other : Nat} (h : visits.Beyond other earlier) (hne : other ≠ visitor)
    (list : Option (List Nat)) :
    Beyond { visits with pending := visits.pending.set visitor list } other earlier := by
  have hsame : (visits.pending.set visitor list)[other]? = visits.pending[other]? :=
    getElem?_set_ne (Ne.symm hne)
  cases earlier with
  | none => exact hsame.trans h
  | some earlier => exact ⟨h.1, fun numbers hnumbers => h.2 numbers (hsame.symm.trans hnumbers)⟩

theorem Ordered.visit (h : visits.Ordered) {entry : Option (ε × Nat)}
    (hvisit : visits.visit visitor = some (next, entry)) :
    next.Ordered ∧ next.pending.length = visits.pending.length ∧
      next.Beyond visitor (entry.map Prod.snd) ∧
      (∀ earlier, visits.Beyond visitor earlier → Later earlier (entry.map Prod.snd)) ∧
      ∀ other earlier, other ≠ visitor → visits.Beyond other earlier →
        next.Beyond other earlier := by
  have hfinished : ∀ earlier : Option Nat, Later earlier none := by
    intro earlier
    cases earlier with
    | none => trivial
    | some earlier => trivial
  rw [Visits.visit] at hvisit
  split at hvisit
  · cases hvisit
  · rename_i hpending
    cases hvisit
    exact ⟨h, rfl, hpending, fun earlier _ => hfinished earlier, fun _ _ _ hother => hother⟩
  · rename_i hpending
    cases hvisit
    have hlt := (List.getElem?_eq_some_iff.mp hpending).1
    refine ⟨⟨h.entries_sorted, h.entries_lt, fun other numbers hnumbers => ?_⟩, length_set,
      getElem?_set_self hlt, fun earlier _ => hfinished earlier,
      fun other earlier hne hother => hother.set hne none⟩
    rcases getElem?_set_cases hnumbers with ⟨-, hnone⟩ | ⟨-, hold⟩
    · cases hnone
    · exact h.pending_sorted other numbers hold
  · rename_i number rest hpending
    split at hvisit
    · cases hvisit
    · rename_i e hfind
      cases hvisit
      have hlt := (List.getElem?_eq_some_iff.mp hpending).1
      have hnumber : e.2 = number := by simpa using find?_some hfind
      obtain ⟨hsorted, hless⟩ := h.pending_sorted visitor _ hpending
      refine ⟨⟨h.entries_sorted, h.entries_lt, fun other numbers hnumbers => ?_⟩, length_set,
        ⟨?_, fun numbers hnumbers => ?_⟩, fun earlier hearlier => ?_,
        fun other earlier hne hother => hother.set hne _⟩
      · rcases getElem?_set_cases hnumbers with ⟨-, hrest⟩ | ⟨-, hold⟩
        · cases hrest
          exact ⟨(List.pairwise_cons.mp hsorted).2, fun n hn => hless n (mem_cons_of_mem _ hn)⟩
        · exact h.pending_sorted other numbers hold
      · rw [hnumber]
        exact hless number mem_cons_self
      · rw [getElem?_set_self hlt] at hnumbers
        cases hnumbers
        rw [hnumber]
        exact (List.pairwise_cons.mp hsorted).1
      · rw [map_some, hnumber]
        cases earlier with
        | none => cases hpending.symm.trans hearlier
        | some earlier => exact hearlier.2 _ hpending number mem_cons_self

variable {description : Description ε Op Out} {strict : Bool} {result : Kind → ε → Result}

theorem Ordered.step (visitor : Nat) {state next : Visits ε × List Kind} (h : state.1.Ordered)
    {op : IterationOperation Op Kind} {found : Option Nat}
    {out : IterationAnswer Out Result} {number : Option Nat}
    (hstep : Visits.step description strict result state (op, found) = some (next, (out, number))) :
    next.1.Ordered ∧ state.1.pending.length ≤ next.1.pending.length ∧
      (op = .advance visitor → visitor < state.1.pending.length ∧ next.1.Beyond visitor number ∧
        ∀ earlier, state.1.Beyond visitor earlier → Later earlier number) ∧
      ∀ earlier, visitor < state.1.pending.length → op ≠ .advance visitor →
        state.1.Beyond visitor earlier → next.1.Beyond visitor earlier := by
  cases op with
  | operate op =>
    simp only [Visits.step] at hstep
    split at hstep
    · cases hstep
      obtain ⟨g, -, hpending, -⟩ := state.1.change_numbers (description.change op found)
      refine ⟨h.change _, ?_, nofun, fun earlier _ _ hbeyond => hbeyond.change h _⟩
      have hlength : (state.1.change (description.change op found)).pending.length =
          state.1.pending.length := by rw [hpending, length_map]
      exact Nat.le_of_eq hlength.symm
    · cases hstep
  | create kind =>
    cases hstep
    refine ⟨h.enter, ?_, nofun, fun earlier hknown _ hbeyond => hbeyond.enter hknown⟩
    show state.1.pending.length ≤ (state.1.pending ++ [_]).length
    rw [length_append]
    exact Nat.le_add_right _ _
  | advance i =>
    have hvisit : ∃ entry, state.1.visit i = some (next.1, entry) ∧
        number = entry.map Prod.snd := by
      simp only [Visits.step] at hstep
      split at hstep
      · rename_i hvisit
        cases hstep
        exact ⟨_, hvisit, rfl⟩
      · rename_i hvisit
        cases hstep
        exact ⟨_, hvisit, rfl⟩
      · cases hstep
    obtain ⟨entry, hvisit, rfl⟩ := hvisit
    obtain ⟨hordered, hlength, hbeyond, hlater, hothers⟩ := h.visit hvisit
    refine ⟨hordered, Nat.le_of_eq hlength.symm, ?_, ?_⟩
    · rintro ⟨⟩
      refine ⟨?_, hbeyond, hlater⟩
      by_contra hlt
      rw [Visits.visit, getElem?_eq_none (Nat.le_of_not_lt hlt)] at hvisit
      cases hvisit
    · intro earlier _ hne
      exact hothers visitor earlier fun heq => hne (by rw [heq])

theorem Ordered.run : ∀ (ops : List (IterationOperation Op Kind)) (founds : List (Option Nat))
    {state last : Visits ε × List Kind} {outs : List (IterationAnswer Out Result × Option Nat)},
    founds.length = ops.length → state.1.Ordered →
    run (Visits.step description strict result) (ops.zip founds) state = some (last, outs) →
    (visitsBy visitor ops outs).Pairwise Later ∧
      ∀ earlier, visitor < state.1.pending.length → state.1.Beyond visitor earlier →
        ∀ number ∈ visitsBy visitor ops outs, Later earlier number
  | [], founds, state, last, outs, _, _, hrun => by
      cases hrun
      exact ⟨List.Pairwise.nil, fun _ _ _ _ h => absurd h not_mem_nil⟩
  | op :: ops, [], state, last, outs, hlength, _, _ => by cases hlength
  | op :: ops, found :: founds, state, last, outs, hlength, h, hrun => by
      rw [zip_cons_cons, Foundation.run] at hrun
      split at hrun
      · cases hrun
      · rename_i next out hstep
        split at hrun
        · cases hrun
        · rename_i final rest hrest
          cases hrun
          obtain ⟨out, number⟩ := out
          obtain ⟨hordered, hgrows, hvisits, hothers⟩ := Ordered.step visitor h hstep
          obtain ⟨hpairs, hlater⟩ := Ordered.run ops founds (Nat.succ.inj hlength) hordered hrest
          by_cases hop : op = .advance visitor
          · subst hop
            obtain ⟨hknown, hbeyond, hnow⟩ := hvisits rfl
            have hcons : visitsBy visitor (.advance visitor :: ops) ((out, number) :: rest) =
                number :: visitsBy visitor ops rest := by
              rw [visitsBy, zip_cons_cons, filterMap_cons]
              simp only [if_true]
              rfl
            rw [hcons]
            have hafter := hlater number (Nat.lt_of_lt_of_le hknown hgrows) hbeyond
            refine ⟨List.pairwise_cons.mpr ⟨hafter, hpairs⟩, ?_⟩
            intro earlier _ hearlier later hmem
            rcases List.mem_cons.mp hmem with rfl | hmem
            · exact hnow earlier hearlier
            · exact (hnow earlier hearlier).trans (hafter later hmem)
          · have hcons : visitsBy visitor (op :: ops) ((out, number) :: rest) =
                visitsBy visitor ops rest := by
              rw [visitsBy, zip_cons_cons, filterMap_cons]
              cases op with
              | operate op => rfl
              | create kind => rfl
              | advance i =>
                dsimp only
                rw [if_neg fun heq => hop (by rw [heq])]
                rfl
            rw [hcons]
            refine ⟨hpairs, fun earlier hknown hearlier => ?_⟩
            exact hlater earlier (Nat.lt_of_lt_of_le hknown hgrows)
              (hothers earlier hknown hop hearlier)

end Visits

end Escargot.Foundation
