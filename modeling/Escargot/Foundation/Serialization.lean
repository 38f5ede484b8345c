/-
# Serialization into a growing buffer

A writer reserves space in a buffer and then puts items into it, either plain
bytes or the position of a key in a table that grows as keys are met. A put
that finds no room is an error of the writer, so a reservation that is too
small is visible here. A reader consumes the bytes in order and looks keys up
in the finished table. `Inverts` relates what was put to the reader that takes
it back, one combinator at a time.
-/

import Mathlib

namespace Escargot.Foundation

open List Option

universe u v

variable {B : Type u} {K : Type v} {α β : Type}

/-- The `k` bytes of a number, lowest first. -/
def littleEndian : Nat → Nat → List UInt8
  | 0, _ => []
  | k + 1, n => UInt8.ofNat n :: littleEndian k (n / 256)

def ofLittleEndian : List UInt8 → Nat
  | [] => 0
  | b :: bs => b.toNat + 256 * ofLittleEndian bs

theorem length_littleEndian (k n : Nat) : (littleEndian k n).length = k := by
  induction k generalizing n with
  | zero => rfl
  | succ k ih => rw [littleEndian, length_cons, ih]

theorem ofLittleEndian_littleEndian (k n : Nat) :
    ofLittleEndian (littleEndian k n) = n % 256 ^ k := by
  induction k generalizing n with
  | zero => simp [littleEndian, ofLittleEndian, Nat.mod_one]
  | succ k ih =>
    have hpow : 256 ^ (k + 1) = 256 * 256 ^ k := Nat.pow_succ'
    rw [littleEndian, ofLittleEndian, ih, UInt8.toNat_ofNat', hpow, Nat.mod_mul]

inductive Put (B : Type u) (K : Type v)
  | bytes (bytes : List B)
  | key (k : K)

/-- A reservation and the items that are put under it. -/
structure Reservation (B : Type u) (K : Type v) where
  size : Nat
  puts : List (Put B K)

/-- How positions are written, and how the buffer grows. -/
structure BufferFormat (B : Type u) where
  position : Nat → List B
  positionSize : Nat
  /-- Positions below the limit can be told apart. -/
  limit : Nat
  length_position : ∀ i, (position i).length = positionSize
  grow : Nat → Nat
  le_grow : ∀ n, n ≤ grow n

/-- The buffer, never filled beyond its capacity, with the table of keys met so far. -/
structure Sink (B : Type u) (K : Type v) where
  written : List B
  capacity : Nat
  table : List K
  bounded : written.length ≤ capacity

section Write

variable [DecidableEq K] (format : BufferFormat B) (table : List K)

/-- The position of a key in the table, where it is added if it is new. -/
def internKey (k : K) : Nat × List K :=
  if k ∈ table then (table.idxOf k, table) else (table.length, table ++ [k])

def Put.emit : Put B K → List B × List K
  | .bytes bs => (bs, table)
  | .key k => (format.position (internKey table k).1, (internKey table k).2)

def Put.size : Put B K → Nat
  | .bytes bs => bs.length
  | .key _ => format.positionSize

def totalSize (items : List (Put B K)) : Nat := (items.map (Put.size format)).sum

def emitAll : List (Put B K) → List K → List B × List K
  | [], table => ([], table)
  | item :: items, table =>
    let rest := emitAll items (item.emit format table).2
    ((item.emit format table).1 ++ rest.1, rest.2)

variable {format} in
@[simp]
theorem Put.length_emit (item : Put B K) :
    (item.emit format table).1.length = item.size format := by
  cases item with
  | bytes bs => rfl
  | key k => exact format.length_position _

/-- Make room for `n` more bytes. -/
def Sink.ensureSize (s : Sink B K) (n : Nat) : Sink B K :=
  if s.written.length + n ≤ s.capacity then s
  else
    { s with
      capacity := format.grow (s.capacity + n)
      bounded := by
        have hle := format.le_grow (s.capacity + n)
        have hbounded := s.bounded
        omega }

def Sink.put (s : Sink B K) (item : Put B K) : Option (Sink B K) :=
  if hroom : s.written.length + item.size format ≤ s.capacity then
    some { s with
      written := s.written ++ (item.emit format s.table).1
      table := (item.emit format s.table).2
      bounded := by rwa [length_append, Put.length_emit] }
  else none

def Sink.putAll : List (Put B K) → Sink B K → Option (Sink B K)
  | [], s => some s
  | item :: items, s => (s.put format item).bind (Sink.putAll items)

/-- Run a program of reservations. -/
def Sink.writeAll : List (Reservation B K) → Sink B K → Option (Sink B K)
  | [], s => some s
  | r :: rs, s => ((s.ensureSize format r.size).putAll format r.puts).bind (Sink.writeAll rs)

variable (program : List (Reservation B K))

/-- What a program demands: for each reservation its size and the size of its items. -/
def demands : List (Nat × Nat) :=
  program.map fun r => (r.size, totalSize format r.puts)

/-- The items of a program. -/
def putsOf : List (Put B K) := program.flatMap (·.puts)

end Write

def Fits (grow : Nat → Nat) (index capacity : Nat) : List (Nat × Nat) → Prop
  | [] => True
  | (reserved, written) :: rest =>
    let room := if index + reserved ≤ capacity then capacity else grow (capacity + reserved)
    index + written ≤ room ∧ Fits grow (index + written) room rest

instance Fits.decidable (grow : Nat → Nat) :
    ∀ (index capacity : Nat) (rest : List (Nat × Nat)), Decidable (Fits grow index capacity rest)
  | _, _, [] => isTrue trivial
  | index, capacity, (reserved, written) :: rest =>
    let room := if index + reserved ≤ capacity then capacity else grow (capacity + reserved)
    haveI := Fits.decidable grow (index + written) room rest
    decidable_of_iff (index + written ≤ room ∧ Fits grow (index + written) room rest) Iff.rfl

section Write

variable [DecidableEq K] {format : BufferFormat B}

theorem emitAll_append (p q : List (Put B K)) (table : List K) : emitAll format (p ++ q) table =
      ((emitAll format p table).1 ++ (emitAll format q (emitAll format p table).2).1,
        (emitAll format q (emitAll format p table).2).2) := by
  induction p generalizing table with
  | nil => rfl
  | cons item items ih => simp only [cons_append, emitAll, ih, append_assoc]

variable (items : List (Put B K)) (table : List K)

theorem length_emitAll : (emitAll format items table).1.length = totalSize format items := by
  induction items generalizing table with
  | nil => rfl
  | cons item items ih =>
    simp only [emitAll, length_append, Put.length_emit, ih, totalSize, map_cons, sum_cons]

structure Sink.Extended (format : BufferFormat B) (s : Sink B K) (items : List (Put B K))
    (s' : Sink B K) : Prop where
  written : s'.written = s.written ++ (emitAll format items s.table).1
  table : s'.table = (emitAll format items s.table).2

theorem Sink.putAll_isSome_iff (s : Sink B K) : (s.putAll format items).isSome = true ↔
      s.written.length + totalSize format items ≤ s.capacity := by
  induction items generalizing s with
  | nil => simpa [putAll, totalSize] using s.bounded
  | cons item items ih =>
    rw [putAll, totalSize, map_cons, sum_cons]
    by_cases hroom : s.written.length + item.size format ≤ s.capacity
    · rw [put, dif_pos hroom, bind_some, ih, length_append, Put.length_emit]
      rw [totalSize, Nat.add_assoc]
    · rw [put, dif_neg hroom]
      simp only [bind_none, isSome_none, Bool.false_eq_true, false_iff]
      omega

theorem Sink.putAll_extends {items : List (Put B K)} {s s' : Sink B K}
    (h : s.putAll format items = some s') :
    s.Extended format items s' ∧ s'.capacity = s.capacity := by
  induction items generalizing s with
  | nil =>
    cases h
    exact ⟨⟨(append_nil _).symm, rfl⟩, rfl⟩
  | cons item items ih =>
    rw [putAll, put] at h
    split at h
    case isTrue hroom =>
      obtain ⟨⟨hwritten, htable⟩, hcapacity⟩ := ih h
      refine ⟨⟨?_, htable⟩, hcapacity⟩
      rw [hwritten, append_assoc]
      rfl
    case isFalse => cases h

theorem Sink.writeAll_extends {program : List (Reservation B K)} {s s' : Sink B K}
    (h : s.writeAll format program = some s') : s.Extended format (putsOf program) s' := by
  induction program generalizing s with
  | nil =>
    cases h
    exact ⟨(append_nil _).symm, rfl⟩
  | cons r rs ih =>
    rw [writeAll, bind_eq_some_iff] at h
    obtain ⟨middle, hput, hrest⟩ := h
    have hensure : (s.ensureSize format r.size).written = s.written ∧
        (s.ensureSize format r.size).table = s.table := by
      unfold ensureSize
      split <;> exact ⟨rfl, rfl⟩
    obtain ⟨hwritten, htable⟩ := (putAll_extends hput).1
    obtain ⟨hwritten', htable'⟩ := ih hrest
    rw [hensure.1, hensure.2] at hwritten
    rw [hensure.2] at htable
    have hputs : putsOf (r :: rs) = r.puts ++ putsOf rs := flatMap_cons
    rw [hputs]
    constructor
    · rw [hwritten', hwritten, htable, emitAll_append]
      exact append_assoc ..
    · rw [htable', htable, emitAll_append]

theorem Sink.writeAll_isSome_iff (program : List (Reservation B K)) (s : Sink B K) :
    (s.writeAll format program).isSome = true ↔
      Fits format.grow s.written.length s.capacity (demands format program) := by
  induction program generalizing s with
  | nil => simp [writeAll, demands, Fits]
  | cons r rs ih =>
    have hensure : (s.ensureSize format r.size).written = s.written ∧
        (s.ensureSize format r.size).capacity =
          if s.written.length + r.size ≤ s.capacity then s.capacity
          else format.grow (s.capacity + r.size) := by
      unfold ensureSize
      split <;> exact ⟨rfl, rfl⟩
    have hiff : ((s.ensureSize format r.size).putAll format r.puts).isSome = true ↔ _ :=
      putAll_isSome_iff r.puts _
    rw [hensure.1, hensure.2] at hiff
    rw [writeAll, demands, map_cons, Fits, ← hiff]
    cases hput : (s.ensureSize format r.size).putAll format r.puts with
    | none => simp
    | some middle =>
      obtain ⟨⟨hwritten, -⟩, hcapacity⟩ := putAll_extends hput
      rw [bind_some, ih, hwritten, hcapacity, length_append, length_emitAll, hensure.1, hensure.2]
      simp [demands]

theorem Fits.of_le {grow : Nat → Nat} (hgrow : ∀ n, n ≤ grow n) {demand : List (Nat × Nat)}
    (h : ∀ d ∈ demand, d.2 ≤ d.1) {index capacity : Nat} (hindex : index ≤ capacity) :
    Fits grow index capacity demand := by
  induction demand generalizing index capacity with
  | nil => trivial
  | cons d rest ih =>
    obtain ⟨reserved, written⟩ := d
    have hle : written ≤ reserved := h _ mem_cons_self
    have hrest := fun d hd => h d (mem_cons_of_mem _ hd)
    have hroom := hgrow (capacity + reserved)
    constructor
    · split <;> omega
    · apply ih hrest
      split <;> omega

theorem internKey_spec (k : K) :
    table <+: (internKey table k).2 ∧ (internKey table k).2[(internKey table k).1]? = some k := by
  unfold internKey
  split
  case isTrue hmem => exact ⟨prefix_rfl, getElem?_idxOf hmem⟩
  case isFalse => exact ⟨prefix_append .., getElem?_concat_length⟩

theorem Put.prefix_emit (item : Put B K) : table <+: (item.emit format table).2 := by
  cases item with
  | bytes bs => exact prefix_rfl
  | key k => exact (internKey_spec table k).1

theorem prefix_emitAll : table <+: (emitAll format items table).2 := by
  induction items generalizing table with
  | nil => exact prefix_rfl
  | cons item items ih => exact (item.prefix_emit table).trans (ih _)

theorem emitAll_of_bytes {items : List (Put B K)} (h : ∀ item ∈ items, ∃ bs, item = .bytes bs)
    (table : List K) : (emitAll format items table).2 = table := by
  induction items with
  | nil => rfl
  | cons item items ih =>
    obtain ⟨bs, rfl⟩ := h item mem_cons_self
    exact ih fun other hother => h other (mem_cons_of_mem _ hother)

end Write

/-- A reader sees the finished table and consumes bytes; it may fail. -/
abbrev ByteReader (E B K : Type) (α : Type) := ReaderT (List K) (StateT (List B) (Except E)) α

namespace ByteReader

variable {E B K α β : Type}

theorem bind_apply (r : ByteReader E B K α) (k : α → ByteReader E B K β) (table : List K)
    (input : List B) :
    (r >>= k) table input = (r table input).bind fun result => k result.1 table result.2 := rfl

def times (r : ByteReader E B K α) : Nat → ByteReader E B K (List α)
  | 0 => pure []
  | n + 1 => do
      let first ← r
      let rest ← times r n
      return first :: rest

end ByteReader

/-- The reader takes back what the items stand for, whatever the table becomes later. -/
def Inverts {E B K : Type} [DecidableEq K] (format : BufferFormat B) (items : List (Put B K))
    (r : ByteReader E B K α) (a : α) : Prop :=
  ∀ table final, (emitAll format items table).2 <+: final → final.length ≤ format.limit →
    ∀ rest, r final ((emitAll format items table).1 ++ rest) = .ok (a, rest)

namespace Inverts

variable {E B K : Type} [DecidableEq K] {format : BufferFormat B}

theorem nil (a : α) : Inverts format [] (pure a : ByteReader E B K α) a := fun _ _ _ _ _ => rfl

theorem append {p q : List (Put B K)} {r : ByteReader E B K α} {k : α → ByteReader E B K β} {a : α}
    {b : β} (hp : Inverts format p r a) (hq : Inverts format q (k a) b) :
    Inverts format (p ++ q) (r >>= k) b := by
  intro table final hfinal hlimit rest
  rw [emitAll_append] at hfinal ⊢
  have hmiddle := (prefix_emitAll q (emitAll format p table).2).trans hfinal
  rw [ByteReader.bind_apply, append_assoc, hp table final hmiddle hlimit]
  exact hq _ final hfinal hlimit rest

theorem cons {item : Put B K} {q : List (Put B K)} {r : ByteReader E B K α}
    {k : α → ByteReader E B K β} {a : α} {b : β} (hp : Inverts format [item] r a)
    (hq : Inverts format q (k a) b) : Inverts format (item :: q) (r >>= k) b :=
  append hp hq

variable {r : ByteReader E B K α} {p : List (Put B K)} {k : α → ByteReader E B K β} {a : α}

theorem last {b : β} (hp : Inverts format p r a) (hq : Inverts format [] (k a) b) :
    Inverts format p (r >>= k) b := by
  have happ := append hp hq
  rwa [append_nil] at happ

theorem map (hp : Inverts format p r a) (f : α → β) :
    Inverts format p (r >>= fun x => pure (f x)) (f a) :=
  hp.last (nil (f a))

theorem flatMap {γ : Type} {p : γ → List (Put B K)} {f : γ → α} (xs : List γ)
    (h : ∀ x ∈ xs, Inverts format (p x) r (f x)) :
    Inverts format (xs.flatMap p) (r.times xs.length) (xs.map f) := by
  induction xs with
  | nil => exact nil []
  | cons x xs ih =>
    apply append (h x mem_cons_self)
    exact map (ih fun y hy => h y (mem_cons_of_mem x hy)) (f x :: ·)

theorem bytes {bs : List B} {a : α} (h : ∀ final rest, r final (bs ++ rest) = .ok (a, rest)) :
    Inverts format [.bytes bs] r a := by
  intro table final _ _ rest
  show r final (bs ++ [] ++ rest) = _
  rw [append_nil]
  exact h final rest

theorem key {k : K} {readPosition : ByteReader E B K Nat} {lookup : Nat → ByteReader E B K K}
    (hread : ∀ i < format.limit, ∀ final rest,
      readPosition final (format.position i ++ rest) = .ok (i, rest))
    (hlookup : ∀ {i : Nat} {final : List K} {k : K} (rest : List B), final[i]? = some k →
      lookup i final rest = .ok (k, rest)) :
    Inverts format [.key k] (readPosition >>= lookup) k := by
  intro table final hfinal hlimit rest
  obtain ⟨tail, rfl⟩ := hfinal
  have hget : ((internKey table k).2 ++ tail)[(internKey table k).1]? = some k := by
    have hspec := (internKey_spec table k).2
    obtain ⟨hlt, -⟩ := List.getElem?_eq_some_iff.mp hspec
    rw [getElem?_append_left hlt, hspec]
  obtain ⟨hlt, -⟩ := List.getElem?_eq_some_iff.mp hget
  show (readPosition >>= lookup) ((internKey table k).2 ++ tail)
    (format.position (internKey table k).1 ++ [] ++ rest) = _
  rw [append_nil, ByteReader.bind_apply, hread _ (hlt.trans_le hlimit)]
  exact hlookup rest hget

end Inverts

end Escargot.Foundation
