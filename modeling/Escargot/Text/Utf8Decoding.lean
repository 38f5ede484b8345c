/-
# Reading UTF-8

The decoder reads the bytes through a pointer and is told how many remain. Each
turn of its loop is recorded with the positions that it reads, the code units
that it emits and the number of bytes that it goes forward.
-/

import Escargot.Text.Utf8Conversion
import Escargot.Text.Utf16Encoding

namespace Escargot.Runtime

open List

/-- What `readUTF8Sequence` reads, and the code point and its length if it is valid. -/
structure SequenceRead where
  reads : List Nat
  result : Option (Nat × Nat)

variable (buf : Nat → UInt8) (len source : Nat)

def readUTF8SequenceAt (i remainingLength : Nat) : SequenceRead :=
  if buf i &&& 0x80 = 0 then ⟨[i], some (sumUTF8 [buf i], 1)⟩
  else if remainingLength < 2 then ⟨[i], none⟩
  else if buf i &&& 0xE0 = 0xC0 ∧ buf (i + 1) &&& 0xC0 = 0x80 then
    ⟨[i, i + 1], some (sumUTF8 [buf i, buf (i + 1)], 2)⟩
  else if remainingLength < 3 then ⟨[i, i + 1], none⟩
  else if buf i &&& 0xF0 = 0xE0 ∧ buf (i + 1) &&& 0xC0 = 0x80 ∧ buf (i + 2) &&& 0xC0 = 0x80 then
    ⟨[i, i + 1, i + 2], some (sumUTF8 [buf i, buf (i + 1), buf (i + 2)], 3)⟩
  else if remainingLength < 4 then ⟨[i, i + 1, i + 2], none⟩
  else if buf i &&& 0xF8 = 0xF0 ∧ buf (i + 1) &&& 0xC0 = 0x80 ∧ buf (i + 2) &&& 0xC0 = 0x80 ∧
      buf (i + 3) &&& 0xC0 = 0x80 then
    ⟨[i, i + 1, i + 2, i + 3], some (sumUTF8 [buf i, buf (i + 1), buf (i + 2), buf (i + 3)], 4)⟩
  else ⟨[i, i + 1, i + 2, i + 3], none⟩

/-- A turn of the loop. -/
structure DecodeStep where
  source : Nat
  reads : List Nat
  units : List UInt16
  consumed : Nat
  deriving DecidableEq

/-- The body of the loop of `utf8StringToUTF16StringNonGC`. A sequence that is not accepted is
given back except for its first byte. -/
def decodeStep : DecodeStep :=
  if (buf source).toNat < 0x80 then ⟨source, [source], [.ofNat (buf source).toNat], 1⟩
  else
    match readUTF8SequenceAt buf source (len - source) with
    | ⟨reads, none⟩ => ⟨source, source :: reads, [0xFFFD], 1⟩
    | ⟨reads, some (ch, charlen)⟩ =>
      if ch ≤ 0xffff then
        if ch &&& 0xfffff800 = 0xd800 then
          ⟨source, source :: reads, [0xFFFD], charlen - (charlen - 1)⟩
        else ⟨source, source :: reads, [.ofNat ch], charlen⟩
      else if char32Sub ch 0x10000 ≤ 0xfffff then
        ⟨source, source :: reads,
          [.ofNat ((ch >>> 10) + 0xd7c0), .ofNat ((ch &&& 0x3ff) ||| 0xdc00)], charlen⟩
      else ⟨source, source :: reads, [0xFFFD], charlen - (charlen - 1)⟩

theorem readUTF8SequenceAt_pos {buf : Nat → UInt8} {i remainingLength n k : Nat}
    (h : (readUTF8SequenceAt buf i remainingLength).result = some (n, k)) : 1 ≤ k := by
  have hlength : ∀ {v m : Nat}, some (v, m) = some (n, k) → 1 ≤ m → 1 ≤ k := by
    intro v m heq hm
    have hmk : m = k := congrArg Prod.snd (Option.some.inj heq)
    omega
  unfold readUTF8SequenceAt at h
  split_ifs at h
  · exact hlength h (by decide)
  · exact hlength h (by decide)
  · exact hlength h (by decide)
  · exact hlength h (by decide)

theorem decodeStep_consumed : 1 ≤ (decodeStep buf len source).consumed := by
  rw [decodeStep]
  split
  · exact Nat.le_refl 1
  · split
    · exact Nat.le_refl 1
    · rename_i reads ch charlen hread
      have hpos : 1 ≤ charlen := by
        have hresult : (readUTF8SequenceAt buf source (len - source)).result = some (ch, charlen) := by
          rw [hread]
        exact readUTF8SequenceAt_pos hresult
      split_ifs
      · show 1 ≤ charlen - (charlen - 1)
        omega
      · exact hpos
      · exact hpos
      · show 1 ≤ charlen - (charlen - 1)
        omega

/-- The loop. -/
def utf8DecodeFrom (buf : Nat → UInt8) (len source : Nat) : List DecodeStep :=
  if source < len then
    decodeStep buf len source :: utf8DecodeFrom buf len (source + (decodeStep buf len source).consumed)
  else []
termination_by len - source
decreasing_by
  have := decodeStep_consumed buf len source
  omega

/-- `utf8StringToUTF16StringNonGC`. -/
def utf8BytesToUTF16 (len : Nat) : List UInt16 :=
  (utf8DecodeFrom buf len 0).flatMap DecodeStep.units

variable (k n : Nat)

def byteForm : List UInt8 :=
  match k with
  | 1 => [.ofNat n]
  | 2 => [.ofNat (0xc0 + n / 2 ^ 6), .ofNat (0x80 + n % 2 ^ 6)]
  | 3 => threeBytes n
  | _ => standardFourBytes n

def FitsForm : Prop :=
  k = 1 ∧ n < 2 ^ 7 ∨ k = 2 ∧ n < 2 ^ 11 ∨ k = 3 ∧ n < 2 ^ 16 ∨ k = 4 ∧ n < 2 ^ 21

/-- A shorter form would do. -/
def Overlong : Prop := k = 2 ∧ n < 2 ^ 7 ∨ k = 3 ∧ n < 2 ^ 11 ∨ k = 4 ∧ n < 2 ^ 16

/-- The bytes stand at a position of the buffer. -/
def OccursAt (len i : Nat) (bytes : List UInt8) : Prop :=
  i + bytes.length ≤ len ∧ (List.range bytes.length).map (fun j => buf (i + j)) = bytes

section Forms

variable {buf : Nat → UInt8} {len i k n : Nat}

theorem occursAt_one {a : UInt8} : OccursAt buf len i [a] ↔ i + 1 ≤ len ∧ buf i = a := by
  show _ ∧ [buf (i + 0)] = _ ↔ _
  rw [List.cons.injEq]
  exact and_congr_right fun _ => and_iff_left rfl

theorem occursAt_two {a b : UInt8} :
    OccursAt buf len i [a, b] ↔ i + 2 ≤ len ∧ buf i = a ∧ buf (i + 1) = b := by
  show _ ∧ [buf (i + 0), buf (i + 1)] = _ ↔ _
  rw [List.cons.injEq, List.cons.injEq]
  exact and_congr_right fun _ => and_congr_right fun _ => and_iff_left rfl

theorem occursAt_three {a b c : UInt8} :
    OccursAt buf len i [a, b, c] ↔ i + 3 ≤ len ∧ buf i = a ∧ buf (i + 1) = b ∧ buf (i + 2) = c := by
  show _ ∧ [buf (i + 0), buf (i + 1), buf (i + 2)] = _ ↔ _
  rw [List.cons.injEq, List.cons.injEq, List.cons.injEq]
  exact and_congr_right fun _ => and_congr_right fun _ => and_congr_right fun _ => and_iff_left rfl

theorem occursAt_four {a b c d : UInt8} : OccursAt buf len i [a, b, c, d] ↔
      i + 4 ≤ len ∧ buf i = a ∧ buf (i + 1) = b ∧ buf (i + 2) = c ∧ buf (i + 3) = d := by
  show _ ∧ [buf (i + 0), buf (i + 1), buf (i + 2), buf (i + 3)] = _ ↔ _
  rw [List.cons.injEq, List.cons.injEq, List.cons.injEq, List.cons.injEq]
  exact and_congr_right fun _ => and_congr_right fun _ => and_congr_right fun _ =>
    and_congr_right fun _ => and_iff_left rfl

theorem masks_at (buf : Nat → UInt8) (j : Nat) : (buf j &&& 0x80 = 0 ↔ (buf j).toNat < 0x80) ∧
    (buf j &&& 0xC0 = 0x80 ↔ 0x80 ≤ (buf j).toNat ∧ (buf j).toNat < 0xC0) ∧
    (buf j &&& 0xE0 = 0xC0 ↔ 0xC0 ≤ (buf j).toNat ∧ (buf j).toNat < 0xE0) ∧
    (buf j &&& 0xF0 = 0xE0 ↔ 0xE0 ≤ (buf j).toNat ∧ (buf j).toNat < 0xF0) ∧
    (buf j &&& 0xF8 = 0xF0 ↔ 0xF0 ≤ (buf j).toNat ∧ (buf j).toNat < 0xF8) := by
  have h := byte_masks (buf j).toNat (buf j).toNat_lt
  rwa [UInt8.ofNat_toNat] at h

theorem byte_eq_iff {c : UInt8} {m : Nat} (hm : m < 256) : c = .ofNat m ↔ c.toNat = m := by
  rw [← UInt8.toNat_inj, toNat_byte hm]

theorem occursAt_byteForm (hfits : FitsForm k n) :
    OccursAt buf len i (byteForm k n) ↔ i + k ≤ len ∧ (k = 1 ∧ (buf i).toNat = n ∨
        k = 2 ∧ (buf i).toNat = 0xC0 + n / 2 ^ 6 ∧ (buf (i + 1)).toNat = 0x80 + n % 2 ^ 6 ∨
        k = 3 ∧ (buf i).toNat = 0xE0 + n / 2 ^ 12 ∧
          (buf (i + 1)).toNat = 0x80 + n / 2 ^ 6 % 2 ^ 6 ∧ (buf (i + 2)).toNat = 0x80 + n % 2 ^ 6 ∨
        k = 4 ∧ (buf i).toNat = 0xF0 + n / 2 ^ 18 ∧
          (buf (i + 1)).toNat = 0x80 + n / 2 ^ 12 % 2 ^ 6 ∧
          (buf (i + 2)).toNat = 0x80 + n / 2 ^ 6 % 2 ^ 6 ∧
          (buf (i + 3)).toNat = 0x80 + n % 2 ^ 6) := by
  obtain ⟨rfl, hn⟩ | ⟨rfl, hn⟩ | ⟨rfl, hn⟩ | ⟨rfl, hn⟩ := hfits
  · rw [byteForm, occursAt_one, byte_eq_iff (by omega)]
    omega
  · rw [byteForm, occursAt_two, byte_eq_iff (by omega), byte_eq_iff (by omega)]
    omega
  · rw [byteForm, threeBytes, occursAt_three, byte_eq_iff (by omega), byte_eq_iff (by omega),
      byte_eq_iff (by omega)]
    omega
  · rw [byteForm, standardFourBytes, occursAt_four, byte_eq_iff (by omega), byte_eq_iff (by omega),
      byte_eq_iff (by omega), byte_eq_iff (by omega)]
    · omega
    all_goals simp

theorem sumUTF8_one {a : Nat} (ha : a < 256) : sumUTF8 [.ofNat a] = a := by
  have hsum : sumUTF8 [.ofNat a] = char32Sub ((0 * 2 ^ 6 % 2 ^ 32 + a) % 2 ^ 32) 0 := by
    simp only [sumUTF8, foldl_cons, foldl_nil, toNat_byte ha]
    rfl
  rw [hsum, char32Sub]
  omega

theorem mem_reads_lt (hi : i < len) {j : Nat}
    (hj : j ∈ (readUTF8SequenceAt buf i (len - i)).reads) : j < len := by
  unfold readUTF8SequenceAt at hj
  split_ifs at hj <;> simp only [mem_cons, not_mem_nil, or_false] at hj <;> omega

theorem readUTF8SequenceAt_eq_some_iff (hi : i < len) :
    (readUTF8SequenceAt buf i (len - i)).result = some (n, k) ↔
      FitsForm k n ∧ OccursAt buf len i (byteForm k n) := by
  obtain ⟨h0, -, h0two, h0three, h0four⟩ := masks_at buf i
  obtain ⟨-, h1, -⟩ := masks_at buf (i + 1)
  obtain ⟨-, h2, -⟩ := masks_at buf (i + 2)
  obtain ⟨-, h3, -⟩ := masks_at buf (i + 3)
  have hb0 := (buf i).toNat_lt
  have hb1 := (buf (i + 1)).toNat_lt
  have hb2 := (buf (i + 2)).toNat_lt
  have hb3 := (buf (i + 3)).toNat_lt
  have hone : (buf i).toNat < 0x80 → sumUTF8 [buf i] = (buf i).toNat := by
    intro _
    have h := sumUTF8_one hb0
    rwa [UInt8.ofNat_toNat] at h
  have htwo : ∀ {m : Nat}, (buf i).toNat * 2 ^ 6 + (buf (i + 1)).toNat = 0x3080 + m →
      sumUTF8 [buf i, buf (i + 1)] = m := by
    intro m hm
    have h := sumUTF8_two hb0 hb1 hm
    rwa [UInt8.ofNat_toNat, UInt8.ofNat_toNat] at h
  have hthree : ∀ {m : Nat}, (buf i).toNat * 2 ^ 12 + (buf (i + 1)).toNat * 2 ^ 6 +
      (buf (i + 2)).toNat = 0xE2080 + m → sumUTF8 [buf i, buf (i + 1), buf (i + 2)] = m := by
    intro m hm
    have h := sumUTF8_three hb0 hb1 hb2 hm
    rwa [UInt8.ofNat_toNat, UInt8.ofNat_toNat, UInt8.ofNat_toNat] at h
  have hfour : ∀ {m : Nat}, (buf i).toNat * 2 ^ 18 + (buf (i + 1)).toNat * 2 ^ 12 +
      (buf (i + 2)).toNat * 2 ^ 6 + (buf (i + 3)).toNat = 0x3C82080 + m →
      sumUTF8 [buf i, buf (i + 1), buf (i + 2), buf (i + 3)] = m := by
    intro m hm
    have h := sumUTF8_four hb0 hb1 hb2 hb3 hm
    rwa [UInt8.ofNat_toNat, UInt8.ofNat_toNat, UInt8.ofNat_toNat, UInt8.ofNat_toNat] at h
  constructor
  · intro h
    have hfound : ∀ {v m : Nat}, some (v, m) = some (n, k) → v = n ∧ m = k :=
      fun heq => Prod.mk.inj (Option.some.inj heq)
    unfold readUTF8SequenceAt at h
    split_ifs at h with c1 c2 c3 c4 c5 c6 c7
    · rw [h0] at c1
      obtain ⟨rfl, rfl⟩ := hfound h
      rw [hone c1]
      have hfits : FitsForm 1 (buf i).toNat := .inl ⟨rfl, c1⟩
      exact ⟨hfits, (occursAt_byteForm hfits).mpr ⟨hi, .inl ⟨rfl, rfl⟩⟩⟩
    · rw [h0two, h1] at c3
      obtain ⟨rfl, rfl⟩ := hfound h
      rw [htwo (m := ((buf i).toNat - 0xC0) * 2 ^ 6 + ((buf (i + 1)).toNat - 0x80)) (by omega)]
      have hfits : FitsForm 2 (((buf i).toNat - 0xC0) * 2 ^ 6 + ((buf (i + 1)).toNat - 0x80)) :=
        .inr (.inl ⟨rfl, by omega⟩)
      exact ⟨hfits, (occursAt_byteForm hfits).mpr
        ⟨by omega, .inr (.inl ⟨rfl, by omega, by omega⟩)⟩⟩
    · rw [h0three, h1, h2] at c5
      obtain ⟨rfl, rfl⟩ := hfound h
      rw [hthree (m := ((buf i).toNat - 0xE0) * 2 ^ 12 + ((buf (i + 1)).toNat - 0x80) * 2 ^ 6 +
        ((buf (i + 2)).toNat - 0x80)) (by omega)]
      have hfits : FitsForm 3 (((buf i).toNat - 0xE0) * 2 ^ 12 +
          ((buf (i + 1)).toNat - 0x80) * 2 ^ 6 + ((buf (i + 2)).toNat - 0x80)) :=
        .inr (.inr (.inl ⟨rfl, by omega⟩))
      exact ⟨hfits, (occursAt_byteForm hfits).mpr
        ⟨by omega, .inr (.inr (.inl ⟨rfl, by omega, by omega, by omega⟩))⟩⟩
    · rw [h0four, h1, h2, h3] at c7
      obtain ⟨rfl, rfl⟩ := hfound h
      rw [hfour (m := ((buf i).toNat - 0xF0) * 2 ^ 18 + ((buf (i + 1)).toNat - 0x80) * 2 ^ 12 +
        ((buf (i + 2)).toNat - 0x80) * 2 ^ 6 + ((buf (i + 3)).toNat - 0x80)) (by omega)]
      have hfits : FitsForm 4 (((buf i).toNat - 0xF0) * 2 ^ 18 +
          ((buf (i + 1)).toNat - 0x80) * 2 ^ 12 + ((buf (i + 2)).toNat - 0x80) * 2 ^ 6 +
          ((buf (i + 3)).toNat - 0x80)) := .inr (.inr (.inr ⟨rfl, by omega⟩))
      exact ⟨hfits, (occursAt_byteForm hfits).mpr
        ⟨by omega, .inr (.inr (.inr ⟨rfl, by omega, by omega, by omega, by omega⟩))⟩⟩
  · rintro ⟨hfits, hoccurs⟩
    rw [occursAt_byteForm hfits] at hoccurs
    obtain ⟨hend, hbytes⟩ := hoccurs
    have hn : n < 2 ^ 21 := by
      unfold FitsForm at hfits
      omega
    unfold readUTF8SequenceAt
    obtain ⟨rfl, hb⟩ | ⟨rfl, hb⟩ | ⟨rfl, hb⟩ | ⟨rfl, hb⟩ := hbytes
    · have hlow : (buf i).toNat < 0x80 := by
        unfold FitsForm at hfits
        omega
      rw [if_pos (h0.mpr hlow), hone hlow, hb]
    · have hlow : n < 2 ^ 11 := by
        unfold FitsForm at hfits
        omega
      rw [if_neg (by rw [h0]; omega), if_neg (by omega), if_pos ⟨h0two.mpr (by omega),
        h1.mpr (by omega)⟩, htwo (m := n) (by omega)]
    · have hlow : n < 2 ^ 16 := by
        unfold FitsForm at hfits
        omega
      rw [if_neg (by rw [h0]; omega), if_neg (by omega), if_neg (by rw [h0two]; omega),
        if_neg (by omega), if_pos ⟨h0three.mpr (by omega), h1.mpr (by omega), h2.mpr (by omega)⟩,
        hthree (m := n) (by omega)]
    · rw [if_neg (by rw [h0]; omega), if_neg (by omega), if_neg (by rw [h0two]; omega),
        if_neg (by omega), if_neg (by rw [h0three]; omega), if_neg (by omega),
        if_pos ⟨h0four.mpr (by omega), h1.mpr (by omega), h2.mpr (by omega), h3.mpr (by omega)⟩,
        hfour (m := n) (by omega)]

theorem form_unique (hi : i < len) {k' n' : Nat} (hfits : FitsForm k n)
    (hoccurs : OccursAt buf len i (byteForm k n)) (hfits' : FitsForm k' n')
    (hoccurs' : OccursAt buf len i (byteForm k' n')) : n = n' ∧ k = k' := by
  have h := (readUTF8SequenceAt_eq_some_iff hi).mpr ⟨hfits, hoccurs⟩
  have h' := (readUTF8SequenceAt_eq_some_iff hi).mpr ⟨hfits', hoccurs'⟩
  exact Prod.mk.inj (Option.some.inj (h.symm.trans h'))

theorem decodeStep_spec (hi : i < len) :
    (∃ k n, FitsForm k n ∧ OccursAt buf len i (byteForm k n) ∧ IsScalar n ∧
        (decodeStep buf len i).units = utf16Units n ∧ (decodeStep buf len i).consumed = k) ∨
      ((decodeStep buf len i).units = [0xFFFD] ∧ (decodeStep buf len i).consumed = 1 ∧
        ∀ k n, FitsForm k n → OccursAt buf len i (byteForm k n) → ¬ IsScalar n) := by
  have hforms := fun k n => @readUTF8SequenceAt_eq_some_iff buf len i k n hi
  rw [decodeStep]
  by_cases hascii : (buf i).toNat < 0x80
  · have hfits : FitsForm 1 (buf i).toNat := .inl ⟨rfl, hascii⟩
    rw [if_pos hascii]
    refine .inl ⟨1, (buf i).toNat, hfits, (occursAt_byteForm hfits).mpr ⟨hi, .inl ⟨rfl, rfl⟩⟩,
      ⟨by omega, by omega⟩, ?_, rfl⟩
    rw [utf16Units, if_pos (by omega)]
  rw [if_neg hascii]
  cases hread : readUTF8SequenceAt buf i (len - i) with
  | mk reads result =>
  rw [hread] at hforms
  dsimp only at hforms ⊢
  cases result with
  | none =>
    refine .inr ⟨rfl, rfl, fun k n hfits hoccurs => ?_⟩
    cases (hforms k n).mpr ⟨hfits, hoccurs⟩
  | some pair =>
    obtain ⟨ch, charlen⟩ := pair
    obtain ⟨hfits, hoccurs⟩ := (hforms charlen ch).mp rfl
    have hlength : 1 ≤ charlen ∧ ch < 2 ^ 21 := by
      unfold FitsForm at hfits
      omega
    -- a form that is not of a scalar value is the only one at the position
    have hrejected : ¬ IsScalar ch → ∀ k n, FitsForm k n → OccursAt buf len i (byteForm k n) →
        ¬ IsScalar n := by
      intro hnot k n hfits' hoccurs'
      obtain ⟨rfl, rfl⟩ := form_unique hi hfits hoccurs hfits' hoccurs'
      exact hnot
    dsimp only
    by_cases hbmp : ch ≤ 0xffff
    · rw [if_pos hbmp]
      by_cases hsurrogate : ch &&& 0xfffff800 = 0xd800
      · rw [if_pos hsurrogate]
        rw [land_surrogates (by omega)] at hsurrogate
        exact .inr ⟨rfl, Nat.sub_sub_self hlength.1, hrejected fun h => h.2 hsurrogate⟩
      · rw [if_neg hsurrogate]
        rw [land_surrogates (by omega)] at hsurrogate
        refine .inl ⟨charlen, ch, hfits, hoccurs, ⟨by omega, hsurrogate⟩, ?_, rfl⟩
        rw [utf16Units, if_pos hbmp]
    · rw [if_neg hbmp]
      have hsub : char32Sub ch 0x10000 = ch - 0x10000 := by
        rw [char32Sub]
        omega
      rw [hsub]
      by_cases hhigh : ch - 0x10000 ≤ 0xfffff
      · rw [if_pos hhigh]
        refine .inl ⟨charlen, ch, hfits, hoccurs, ⟨by omega, by omega⟩, ?_, rfl⟩
        rw [utf16Units, if_neg hbmp, Nat.or_comm, Nat.shiftRight_eq_div_pow, trail_or]
      · rw [if_neg hhigh]
        refine .inr ⟨rfl, Nat.sub_sub_self hlength.1, hrejected fun h => ?_⟩
        have hlt := h.1
        omega

theorem decodeStep_source : (decodeStep buf len i).source = i := by
  rw [decodeStep]
  split_ifs
  · rfl
  · split
    · rfl
    · split_ifs <;> rfl

theorem decodeStep_reads (hi : i < len) {j : Nat} (hj : j ∈ (decodeStep buf len i).reads) :
    j < len := by
  have hreads := @mem_reads_lt buf len i hi j
  have hall : (decodeStep buf len i).reads = [i] ∨
      (decodeStep buf len i).reads = i :: (readUTF8SequenceAt buf i (len - i)).reads := by
    rw [decodeStep]
    split
    · exact .inl rfl
    · refine .inr ?_
      split
      · rename_i hread
        rw [hread]
      · rename_i hread
        rw [hread]
        split_ifs <;> rfl
  rcases hall with h | h <;> rw [h] at hj
  · exact (List.mem_singleton.mp hj) ▸ hi
  · rcases List.mem_cons.mp hj with rfl | hj
    · exact hi
    · exact hreads hj

/-- The bytes after the first that a turn goes over start no sequence. -/
theorem decodeStep_skips (hi : i < len) {j : Nat} (hlow : i < j)
    (hhigh : j < i + (decodeStep buf len i).consumed) : (buf j).toNat < 0xC0 := by
  rcases decodeStep_spec hi with ⟨k, n, hfits, hoccurs, -, -, hconsumed⟩ | ⟨-, hconsumed, -⟩
  · rw [hconsumed] at hhigh
    rw [occursAt_byteForm hfits] at hoccurs
    obtain ⟨-, ⟨rfl, -⟩ | ⟨rfl, -, h1⟩ | ⟨rfl, -, h1, h2⟩ | ⟨rfl, -, h1, h2, h3⟩⟩ := hoccurs
    · omega
    · obtain rfl : j = i + 1 := by omega
      omega
    · obtain rfl | rfl : j = i + 1 ∨ j = i + 2 := by omega
      · omega
      · omega
    · obtain rfl | rfl | rfl : j = i + 1 ∨ j = i + 2 ∨ j = i + 3 := by omega
      · omega
      · omega
      · omega
  · omega

/-- A turn decodes a well-formed sequence, or replaces one byte where none stands. -/
def DecodeStep.IsProper (step : DecodeStep) (buf : Nat → UInt8) (len : Nat) : Prop :=
  (∃ n, IsScalar n ∧ OccursAt buf len step.source (standardUtf8 n) ∧ step.units = utf16Units n ∧
      step.consumed = (standardUtf8 n).length) ∨
    (step.units = [0xFFFD] ∧ step.consumed = 1 ∧
      ∀ n, IsScalar n → ¬ OccursAt buf len step.source (standardUtf8 n))

/-- An overlong form of a scalar value. -/
def OverlongAt (buf : Nat → UInt8) (len i : Nat) : Prop :=
  ∃ k n, FitsForm k n ∧ Overlong k n ∧ IsScalar n ∧ OccursAt buf len i (byteForm k n)

theorem standardUtf8_eq_byteForm (hn : IsScalar n) :
    ∃ k, FitsForm k n ∧ ¬ Overlong k n ∧ standardUtf8 n = byteForm k n ∧
      (standardUtf8 n).length = k := by
  have hlt := hn.1
  by_cases h1 : n ≤ 0x7f
  · refine ⟨1, .inl ⟨rfl, by omega⟩, by unfold Overlong; omega, ?_⟩
    rw [standardUtf8, if_pos h1]
    exact ⟨rfl, rfl⟩
  by_cases h2 : n ≤ 0x7ff
  · refine ⟨2, .inr (.inl ⟨rfl, by omega⟩), by unfold Overlong; omega, ?_⟩
    rw [standardUtf8, if_neg h1, if_pos h2]
    exact ⟨rfl, rfl⟩
  by_cases h3 : n ≤ 0xffff
  · refine ⟨3, .inr (.inr (.inl ⟨rfl, by omega⟩)), by unfold Overlong; omega, ?_⟩
    rw [standardUtf8, if_neg h1, if_neg h2, if_pos h3]
    exact ⟨rfl, rfl⟩
  · refine ⟨4, .inr (.inr (.inr ⟨rfl, by omega⟩)), by unfold Overlong; omega, ?_⟩
    rw [standardUtf8, if_neg h1, if_neg h2, if_neg h3]
    exact ⟨rfl, rfl⟩

theorem eq_of_not_overlong {k' : Nat} (hfits : FitsForm k n) (hfits' : FitsForm k' n)
    (hshort : ¬ Overlong k n) (hshort' : ¬ Overlong k' n) : k = k' := by
  unfold FitsForm at hfits hfits'
  unfold Overlong at hshort hshort'
  omega

theorem isProper_iff (hi : i < len) :
    (decodeStep buf len i).IsProper buf len ↔ ¬ OverlongAt buf len i := by
  rw [DecodeStep.IsProper, decodeStep_source]
  constructor
  · rintro hproper ⟨k, n, hfits, hover, hscalar, hoccurs⟩
    have htaken : (decodeStep buf len i).consumed = k := by
      rcases decodeStep_spec hi with ⟨k', n', hfits', hoccurs', -, -, hconsumed⟩ | ⟨-, -, hnone⟩
      · rw [hconsumed]
        exact (form_unique hi hfits' hoccurs' hfits hoccurs).2
      · exact absurd hscalar (hnone k n hfits hoccurs)
    rcases hproper with ⟨m, hm, hmoccurs, -, -⟩ | ⟨-, hconsumed, -⟩
    · obtain ⟨k', hfits', hshort, hform, -⟩ := standardUtf8_eq_byteForm hm
      rw [hform] at hmoccurs
      obtain ⟨rfl, rfl⟩ := form_unique hi hfits hoccurs hfits' hmoccurs
      exact hshort hover
    · rw [htaken] at hconsumed
      unfold Overlong at hover
      omega
  · intro hnone
    rcases decodeStep_spec hi with ⟨k, n, hfits, hoccurs, hscalar, hunits, hconsumed⟩ |
      ⟨hunits, hconsumed, hfree⟩
    · have hshort : ¬ Overlong k n := fun hover => hnone ⟨k, n, hfits, hover, hscalar, hoccurs⟩
      obtain ⟨k', hfits', hshort', hform, hlength⟩ := standardUtf8_eq_byteForm hscalar
      obtain rfl := eq_of_not_overlong hfits hfits' hshort hshort'
      exact .inl ⟨n, hscalar, hform ▸ hoccurs, hunits, hconsumed.trans hlength.symm⟩
    · refine .inr ⟨hunits, hconsumed, fun n hscalar hoccurs => ?_⟩
      obtain ⟨k, hfits, -, hform, -⟩ := standardUtf8_eq_byteForm hscalar
      exact hfree k n hfits (hform ▸ hoccurs) hscalar

theorem mem_utf8DecodeFrom {source : Nat} {step : DecodeStep}
    (h : step ∈ utf8DecodeFrom buf len source) : ∃ i < len, step = decodeStep buf len i := by
  fun_induction utf8DecodeFrom buf len source with
  | case1 source hlt ih =>
    rcases List.mem_cons.mp h with rfl | h
    · exact ⟨source, hlt, rfl⟩
    · exact ih h
  | case2 source hlt => cases h

/-- A byte that starts a sequence of several is not passed over. -/
theorem decodeStep_mem_utf8DecodeFrom {source : Nat} (hsource : source ≤ i) (hi : i < len)
    (hfirst : 0xC0 ≤ (buf i).toNat) : decodeStep buf len i ∈ utf8DecodeFrom buf len source := by
  fun_induction utf8DecodeFrom buf len source with
  | case1 source hlt ih =>
    rcases Nat.eq_or_lt_of_le hsource with rfl | hsource
    · exact mem_cons_self
    · refine mem_cons_of_mem _ (ih ?_)
      by_contra hinside
      exact Nat.not_le.mpr (decodeStep_skips hlt hsource (Nat.not_le.mp hinside)) hfirst
  | case2 source hlt => omega

theorem length_utf8DecodeFrom_le (source : Nat) :
    (utf8DecodeFrom buf len source).length ≤ len - source := by
  fun_induction utf8DecodeFrom buf len source with
  | case1 source hlt ih =>
    have hpos := decodeStep_consumed buf len source
    rw [length_cons]
    omega
  | case2 source hlt => exact Nat.zero_le _

theorem decodeStep_units (hi : i < len) :
    ∃ n, IsScalar n ∧ (decodeStep buf len i).units = utf16Units n := by
  rcases decodeStep_spec hi with ⟨k, n, -, -, hscalar, hunits, -⟩ | ⟨hunits, -, -⟩
  · exact ⟨n, hscalar, hunits⟩
  · exact ⟨0xFFFD, ⟨by decide, by decide⟩, hunits⟩

theorem utf16Units_append (hn : IsScalar n) (rest : List UInt16) :
    wellFormed (utf16Units n ++ rest) = wellFormed rest ∧
      codePoints (utf16Units n ++ rest) = n :: codePoints rest := by
  obtain ⟨hlt, hsurrogate⟩ := hn
  by_cases hbmp : n ≤ 0xffff
  · have hunit : (UInt16.ofNat n).toNat = n := toNat_unit (by omega)
    have hlead : isLead (.ofNat n) = false := by
      rw [← Bool.not_eq_true, isLead_iff, hunit]
      omega
    have htrail : isTrail (.ofNat n) = false := by
      rw [← Bool.not_eq_true, isTrail_iff, hunit]
      omega
    rw [utf16Units, if_pos hbmp, singleton_append, wellFormed.eq_def, codePoints.eq_def]
    dsimp only
    rw [hlead, htrail, hunit]
    exact ⟨rfl, rfl⟩
  · have hlow : 0x10000 ≤ n := by omega
    rw [utf16Units_pair hlow]
    simp only [cons_append, nil_append, wellFormed, codePoints, isLead_pair hlow hlt,
      isTrail_pair, supplementary_pair hlow hlt, if_true, Bool.true_and]
    exact ⟨trivial, trivial⟩

theorem wellFormed_utf8DecodeFrom (source : Nat) :
    wellFormed ((utf8DecodeFrom buf len source).flatMap DecodeStep.units) = true ∧
      (codePoints ((utf8DecodeFrom buf len source).flatMap DecodeStep.units)).length =
        (utf8DecodeFrom buf len source).length := by
  fun_induction utf8DecodeFrom buf len source with
  | case1 source hlt ih =>
    obtain ⟨n, hn, hunits⟩ := @decodeStep_units buf len source hlt
    obtain ⟨hformed, hpoints⟩ := utf16Units_append hn
      ((utf8DecodeFrom buf len (source + (decodeStep buf len source).consumed)).flatMap
        DecodeStep.units)
    rw [flatMap_cons, hunits, hformed, hpoints, length_cons, length_cons, ih.2]
    exact ⟨ih.1, rfl⟩
  | case2 source hlt => exact ⟨rfl, rfl⟩

end Forms

section Lists

variable {bytes : List UInt8} {i : Nat}

def bufferOf (bytes : List UInt8) (i : Nat) : UInt8 := bytes.getD i 0

theorem bufferOf_add {rest : List UInt8} (h : bytes.drop i = rest) (j : Nat) :
    bufferOf bytes (i + j) = rest.getD j 0 := by
  rw [← h, bufferOf, getD_eq_getElem?_getD, getD_eq_getElem?_getD, getElem?_drop]

theorem readUTF8Sequence_eq {c : UInt8} {rest : List UInt8} (h : bytes.drop i = c :: rest) :
    readUTF8Sequence c rest =
      (readUTF8SequenceAt (bufferOf bytes) i (bytes.length - i)).result := by
  have hlength : bytes.length - i = rest.length + 1 := by rw [← length_drop, h, length_cons]
  have h0 : bufferOf bytes i = c := bufferOf_add h 0
  have h1 := bufferOf_add h 1
  have h2 := bufferOf_add h 2
  have h3 := bufferOf_add h 3
  rw [readUTF8SequenceAt, hlength, h0, h1, h2, h3]
  unfold readUTF8Sequence
  rcases rest with _ | ⟨c2, _ | ⟨c3, _ | ⟨c4, rest⟩⟩⟩
  all_goals
    simp only [length_cons, length_nil, getD_cons_zero, getD_cons_succ]
    split_ifs <;> first | rfl | omega

theorem utf8BytesToUTF16_eq (bytes : List UInt8) :
    utf8BytesToUTF16 (bufferOf bytes) bytes.length = utf8StringToUTF16String bytes := by
  have hfrom : ∀ source,
      (utf8DecodeFrom (bufferOf bytes) bytes.length source).flatMap DecodeStep.units =
        utf8Loop 0 (bytes.drop source) := by
    intro source
    fun_induction utf8DecodeFrom (bufferOf bytes) bytes.length source with
    | case1 source hlt ih =>
      obtain ⟨c, hc⟩ : ∃ c, c = bufferOf bytes source := ⟨_, rfl⟩
      have hdrop : bytes.drop source = c :: bytes.drop (source + 1) := by
        rw [hc, bufferOf, drop_eq_getElem_cons hlt, getD_eq_getElem _ _ hlt]
      have hafter : ∀ {k : Nat}, 1 ≤ k →
          utf8Loop 0 (bytes.drop (source + k)) = utf8Loop (k - 1) (bytes.drop (source + 1)) := by
        intro k hk
        rw [utf8Loop_skip (k - 1), drop_drop, show source + 1 + (k - 1) = source + k by omega]
      rw [flatMap_cons, ih, hafter (decodeStep_consumed _ _ _), hdrop, utf8Loop,
        readUTF8Sequence_eq hdrop, decodeStep, ← hc]
      split
      · rfl
      · cases hread : readUTF8SequenceAt (bufferOf bytes) source (bytes.length - source) with
        | mk reads result =>
          cases result with
          | none => rfl
          | some pair =>
            obtain ⟨ch, charlen⟩ := pair
            have hpos : 1 ≤ charlen := by
              have hresult : (readUTF8SequenceAt (bufferOf bytes) source
                  (bytes.length - source)).result = some (ch, charlen) := by
                rw [hread]
              exact readUTF8SequenceAt_pos hresult
            have hone : charlen - (charlen - 1) = 1 := Nat.sub_sub_self hpos
            dsimp only
            rw [hone]
            split_ifs <;> rfl
    | case2 source hlt =>
      rw [drop_of_length_le (Nat.not_lt.mp hlt)]
      rfl
  exact hfrom 0

end Lists

/-- The decoder reads no byte at the end or beyond it, goes forward with every code point that it
emits, and emits well-formed UTF-16. It replaces every ill-formed sequence if and only if no
overlong form of a scalar value stands anywhere. -/
theorem utf8_decoding_replaces_iff (buf : Nat → UInt8) (len : Nat) :
    (∀ step ∈ utf8DecodeFrom buf len 0, (∀ j ∈ step.reads, j < len) ∧ 1 ≤ step.consumed ∧
        ∃ n, IsScalar n ∧ step.units = utf16Units n) ∧
      (codePoints (utf8BytesToUTF16 buf len)).length ≤ len ∧
      wellFormed (utf8BytesToUTF16 buf len) = true ∧
      ((∀ step ∈ utf8DecodeFrom buf len 0, step.IsProper buf len) ↔
        ∀ i < len, ¬ OverlongAt buf len i) := by
  refine ⟨fun step hstep => ?_, ?_, (wellFormed_utf8DecodeFrom 0).1, ?_, ?_⟩
  · obtain ⟨i, hi, rfl⟩ := mem_utf8DecodeFrom hstep
    exact ⟨fun j hj => decodeStep_reads hi hj, decodeStep_consumed buf len i, decodeStep_units hi⟩
  · rw [utf8BytesToUTF16, (wellFormed_utf8DecodeFrom 0).2]
    exact length_utf8DecodeFrom_le 0
  · intro hproper i hi hover
    have hfirst : 0xC0 ≤ (buf i).toNat := by
      obtain ⟨k, n, hfits, hlong, -, hoccurs⟩ := hover
      rw [occursAt_byteForm hfits] at hoccurs
      unfold Overlong at hlong
      omega
    have hmem := decodeStep_mem_utf8DecodeFrom (Nat.zero_le i) hi hfirst
    exact (isProper_iff hi).mp (hproper _ hmem) hover
  · intro hnone step hstep
    obtain ⟨i, hi, rfl⟩ := mem_utf8DecodeFrom hstep
    exact (isProper_iff hi).mpr (hnone i hi)

/-- `C0 80` is decoded to `U+0000`. -/
theorem overlong_zero_is_decoded :
    ¬ ∀ (buf : Nat → UInt8) (len : Nat), ∀ step ∈ utf8DecodeFrom buf len 0,
      step.IsProper buf len := by
  intro hall
  have hmem : decodeStep (bufferOf [0xC0, 0x80]) 2 0 ∈ utf8DecodeFrom (bufferOf [0xC0, 0x80]) 2 0 :=
    decodeStep_mem_utf8DecodeFrom (Nat.le_refl 0) (by decide) (by decide)
  refine (isProper_iff (by decide)).mp (hall _ 2 _ hmem)
    ⟨2, 0, .inr (.inl ⟨rfl, by decide⟩), .inl ⟨rfl, by decide⟩, ⟨by decide, by decide⟩, ?_⟩
  exact ⟨Nat.le_refl 2, by decide⟩

end Escargot.Runtime
