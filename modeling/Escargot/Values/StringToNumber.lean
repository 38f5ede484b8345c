/-
# Strings to numbers

`Value::toNumberSlowCase` hands a string to the converter of a library, once as it is and once
without the white space around it, and reads binary and octal literals itself. The converter takes
a sign before a hexadecimal literal, which only a look at the first three characters rules out,
and the digits of a literal with a base are summed up in 64 bits.
-/

import Escargot.Values.HalfPrecision
import Escargot.Values.NumericLiteral

namespace Escargot.Runtime.NumericLiteral

open List Option Foundation Double

/-- A character in the buffer of `char`s. -/
def narrow (c : UInt16) : UInt16 := if 128 ≤ c then 0 else c

/-- `State` of the loop over the characters. -/
inductive ScanState
  | initial
  | readingNumber
  | doneReadingNumber
  | invalid
  deriving DecidableEq

/-- `case ReadingNumber`, into which `case Initial` falls through. -/
def readNumber (buf : List UInt16) (ch : UInt16) : ScanState × List UInt16 :=
  if isSpace ch then (.doneReadingNumber, buf) else (.readingNumber, buf ++ [narrow ch])

/-- One character in the loop. The buffer is what it holds before `ptr`. -/
def scanStep : ScanState × List UInt16 → UInt16 → ScanState × List UInt16
  | (.initial, buf), ch => if isSpace ch then (.initial, buf) else readNumber buf ch
  | (.readingNumber, buf), ch => readNumber buf ch
  | (.doneReadingNumber, buf), ch => (if isSpace ch then .doneReadingNumber else .invalid, buf)
  | (.invalid, buf), _ => (.invalid, buf)

def scanNumber (data : List UInt16) : ScanState × List UInt16 := data.foldl scanStep (.initial, [])

def scanDigit (bits : Nat) (number : UInt64) (ch : UInt16) : Option UInt64 :=
  if isRadixDigit bits ch then some ((number <<< UInt64.ofNat bits) + ch.toUInt64 - 48) else none

/-- The scan of a binary literal and of an octal one. -/
def scanRadix : List UInt16 → Option UInt64
  | zero :: letter :: digits =>
    if zero = 48 ∧ letter ∈ radixLetters 1 ∧ digits ≠ [] then digits.foldlM (scanDigit 1) 0
    else if zero = 48 ∧ letter ∈ radixLetters 3 ∧ digits ≠ [] then
      digits.foldlM (scanDigit 3) 0
    else none
  | _ => none

variable (n : Nat)

def nearestDouble : Double := .ofNat (binary64.round (n * one))

/-- `-0x` and `+0x`. -/
def hexPrefixes : List (List UInt16) := [[45, 48, 120], [43, 48, 120]]

/-- `Value::toNumberSlowCase` on a string. The converter gives the value of a buffer and the number
of characters that it has read. -/
def stringToNumber (converter : List UInt16 → Double × Nat) (data : List UInt16) : Double :=
  if data.length = 0 then 0
  else if 3 ≤ data.length ∧ (data.map narrow).take 3 ∈ hexPrefixes then ValueWord.quietNaN
  else if (converter (data.map narrow)).2 ≠ data.length then
    if (scanNumber data).1 ≠ .invalid then
      if (converter (scanNumber data).2).2 ≠ (scanNumber data).2.length then
        match scanRadix (scanNumber data).2 with
        | some number => nearestDouble number.toNat
        | none => ValueWord.quietNaN
      else (converter (scanNumber data).2).1
    else ValueWord.quietNaN
  else (converter (data.map narrow)).1

/-- What the converter skips around a number. -/
def isBlank (c : UInt16) : Bool := decide (c = 32 ∨ c = 9)

/-- A buffer is this with blanks around it. -/
def BlankPadded (buf t : List UInt16) : Prop :=
  ∃ before after, buf = before ++ t ++ after ∧ (∀ c ∈ before, isBlank c = true) ∧
    ∀ c ∈ after, isBlank c = true

/-- What the converter reads: decimal literals, hexadecimal ones with a sign or without one, and
the symbol for no number. -/
inductive Recognized (t : List UInt16) : Prop
  | decimal (literal : StrDecimalLiteral t)
  | hex (literal : HexIntegerLiteral t)
  | signedHex (literal : SignedHex t)
  | nan (symbol : NaNSymbol t)

/-- `StringToDoubleConverter::StringToDouble` with `ALLOW_HEX` and spaces allowed on both sides: a
buffer is read whole, or it is junk and nothing of it is read. -/
structure ConverterContract (converter : List UInt16 → Double × Nat) : Prop where
  blank : ∀ buf, (∀ c ∈ buf, isBlank c = true) → converter buf = (0, buf.length)
  number : ∀ buf t, BlankPadded buf t → Recognized t → converter buf = ((converter t).1, buf.length)
  isnan : ∀ t, Recognized t → ((converter t).1.isnan = true ↔ NaNSymbol t)
  junk : ∀ buf, (∃ c ∈ buf, isBlank c = false) → (∀ t, BlankPadded buf t → ¬Recognized t) →
    (converter buf).2 = 0

/-- The result accepts a string exactly if the grammar does, as zero, as the number that the
converter gives, or as the double nearest to the value of the digits. -/
structure ReadsNumber (converter : List UInt16 → Double × Nat) (data : List UInt16)
    (result : Double) : Prop where
  accepts : StringNumericLiteral data ↔ result.isnan = false
  empty : Padded data [] → result = 0
  library : ∀ t, Padded data t → StrDecimalLiteral t ∨ HexIntegerLiteral t →
    result = (converter t).1
  radix : ∀ t bits value, Padded data t → RadixLiteral bits t value → result = nearestDouble value

/-- No hexadecimal literal with a sign is anywhere but at the start of the string, and with `x` as
its letter; and the value of a binary or octal literal has 64 bits. -/
structure WithinReach (data : List UInt16) : Prop where
  signedHex : ∀ t, Padded data t → SignedHex t → data.take 3 ∈ hexPrefixes
  radix : ∀ t bits value, Padded data t → RadixLiteral bits t value → value < 2 ^ 64

theorem narrow_of_mem : ∀ c ∈ tokenChars, narrow c = c := forall_mem_of_all (by decide)

theorem ne_zero_of_mem : ∀ c ∈ tokenChars, c ≠ 0 := forall_mem_of_all (by decide)

theorem not_isBlank_of_mem : ∀ c ∈ tokenChars, isBlank c = false := forall_mem_of_all (by decide)

variable {c : UInt16}

theorem isSpace_of_isBlank (h : isBlank c = true) : isSpace c = true := by
  rcases of_decide_eq_true h with rfl | rfl
  · rfl
  · rfl

theorem ne_zero_of_isBlank (h : isBlank c = true) : c ≠ 0 := by
  rintro rfl
  cases h

theorem narrow_eq (h : narrow c ≠ 0) : narrow c = c := by
  rw [narrow] at h ⊢
  split_ifs with hwide
  · rw [if_pos hwide] at h
    exact absurd rfl h
  · rfl

variable {t : List UInt16}

theorem map_narrow_of_chars (h : ∀ c ∈ t, c ∈ tokenChars) : t.map narrow = t :=
  (map_congr_left fun c hc => narrow_of_mem c (h c hc)).trans (List.map_id t)

variable {data buf : List UInt16}

theorem eq_of_map_narrow (h : data.map narrow = buf) (hbuf : ∀ c ∈ buf, c ≠ 0) : data = buf := by
  subst h
  refine ((map_congr_left fun c hc => ?_).trans (List.map_id data)).symm
  exact narrow_eq (hbuf _ (List.mem_map_of_mem hc))

theorem Recognized.chars (h : Recognized t) : ∀ c ∈ t, c ∈ tokenChars := by
  cases h with
  | decimal literal => exact (StrNumericLiteral.decimal literal).chars
  | hex literal => exact literal.chars
  | signedHex literal => exact literal.chars
  | nan symbol => exact symbol.chars

theorem Recognized.ne_nil (h : Recognized t) : t ≠ [] := by
  cases h with
  | decimal literal => exact (StrNumericLiteral.decimal literal).ne_nil
  | hex literal => exact (StrNumericLiteral.hex literal).ne_nil
  | signedHex literal =>
    cases literal
    exact cons_ne_nil _ _
  | nan symbol =>
    cases symbol
    · exact cons_ne_nil _ _
    · exact cons_ne_nil _ _

/-- A string is this with white space around it and none in it. -/
def Trimmed (data t : List UInt16) : Prop := Padded data t ∧ ∀ c ∈ t, isSpace c = false

theorem Trimmed.eq_filter (h : Trimmed data t) : t = data.filter fun c => !isSpace c := by
  obtain ⟨⟨before, after, rfl, hbefore, hafter⟩, ht⟩ := h
  have hnone : ∀ {l : List UInt16}, (∀ c ∈ l, isSpace c = true) →
      (l.filter fun c => !isSpace c) = [] := by
    intro l hl
    rw [filter_eq_nil_iff]
    intro c hc
    rw [hl c hc]
    exact Bool.false_ne_true
  have hall : (t.filter fun c => !isSpace c) = t := by
    rw [filter_eq_self]
    intro c hc
    rw [ht c hc]
    rfl
  rw [filter_append, filter_append, hnone hbefore, hnone hafter, hall, nil_append, append_nil]

theorem Trimmed.unique {t' : List UInt16} (h : Trimmed data t) (h' : Trimmed data t') : t = t' :=
  h.eq_filter.trans h'.eq_filter.symm

theorem Padded.trimmed (h : Padded data t) (ht : ∀ c ∈ t, c ∈ tokenChars) : Trimmed data t :=
  ⟨h, fun c hc => not_isSpace_of_mem c (ht c hc)⟩

theorem BlankPadded.padded (h : BlankPadded buf t) : Padded buf t := by
  obtain ⟨before, after, hbuf, hbefore, hafter⟩ := h
  exact ⟨before, after, hbuf, fun c hc => isSpace_of_isBlank (hbefore c hc),
    fun c hc => isSpace_of_isBlank (hafter c hc)⟩

theorem Padded.of_buffer (h : BlankPadded (data.map narrow) t) (ht : ∀ c ∈ t, c ∈ tokenChars) :
    Padded data t := by
  have hbuffer := h.padded
  obtain ⟨before, after, hbuf, hbefore, hafter⟩ := h
  have hdata : data = data.map narrow := by
    refine eq_of_map_narrow rfl fun c hc => ?_
    rw [hbuf, mem_append, mem_append] at hc
    rcases hc with (hc | hc) | hc
    · exact ne_zero_of_isBlank (hbefore c hc)
    · exact ne_zero_of_mem c (ht c hc)
    · exact ne_zero_of_isBlank (hafter c hc)
  rw [hdata]
  exact hbuffer

theorem BlankPadded.self (t : List UInt16) : BlankPadded t t :=
  ⟨[], [], (append_nil t).symm, forall_mem_nil _, forall_mem_nil _⟩

theorem Padded.self (t : List UInt16) : Padded t t := (BlankPadded.self t).padded

theorem scanStep_initial (h : isSpace c = true) (buf : List UInt16) :
    scanStep (.initial, buf) c = (.initial, buf) := if_pos h

theorem scanStep_space (h : isSpace c = true) (buf : List UInt16) :
    scanStep (.readingNumber, buf) c = (.doneReadingNumber, buf) := if_pos h

theorem scanStep_done (h : isSpace c = true) (buf : List UInt16) :
    scanStep (.doneReadingNumber, buf) c = (.doneReadingNumber, buf) := by
  rw [scanStep, if_pos h]

theorem scanStep_invalid (h : isSpace c = false) (buf : List UInt16) :
    scanStep (.doneReadingNumber, buf) c = (.invalid, buf) := by
  rw [scanStep, h, if_neg Bool.false_ne_true]

theorem scanStep_first (h : isSpace c = false) (buf : List UInt16) :
    scanStep (.initial, buf) c = (.readingNumber, buf ++ [narrow c]) := by
  rw [scanStep, readNumber, h, if_neg Bool.false_ne_true, if_neg Bool.false_ne_true]

theorem scanStep_next (h : isSpace c = false) (buf : List UInt16) :
    scanStep (.readingNumber, buf) c = (.readingNumber, buf ++ [narrow c]) := by
  rw [scanStep, readNumber, h, if_neg Bool.false_ne_true]

/-- What the loop has seen: white space, then a number, then white space again. -/
inductive Scanned (data : List UInt16) : ScanState × List UInt16 → Prop
  | initial (spaces : ∀ c ∈ data, isSpace c = true) : Scanned data (.initial, [])
  | reading {before t : List UInt16} (split : data = before ++ t)
      (spaces : ∀ c ∈ before, isSpace c = true) (number : ∀ c ∈ t, isSpace c = false) :
      Scanned data (.readingNumber, t.map narrow)
  | done {before t after : List UInt16} (split : data = before ++ t ++ after)
      (spaces : ∀ c ∈ before, isSpace c = true) (number : ∀ c ∈ t, isSpace c = false)
      (rest : ∀ c ∈ after, isSpace c = true) : Scanned data (.doneReadingNumber, t.map narrow)
  | invalid (buf : List UInt16) : Scanned data (.invalid, buf)

variable {l : List UInt16} {p : UInt16 → Prop} {state : ScanState × List UInt16}

theorem forall_mem_concat {l : List UInt16} (h : ∀ x ∈ l, p x) (hc : p c) :
    ∀ x ∈ l ++ [c], p x := by
  intro x hx
  rcases List.mem_append.mp hx with hx | hx
  · exact h x hx
  · rw [List.mem_singleton.mp hx]
    exact hc

theorem Scanned.step (h : Scanned data state) (c : UInt16) :
    Scanned (data ++ [c]) (scanStep state c) := by
  cases h with
  | initial hspaces =>
    by_cases hc : isSpace c = true
    · rw [scanStep_initial hc]
      exact .initial (forall_mem_concat hspaces hc)
    · have hnumber := Bool.eq_false_iff.mpr hc
      rw [scanStep_first hnumber]
      exact .reading rfl hspaces fun x hx => (List.mem_singleton.mp hx) ▸ hnumber
  | @reading before t split hspaces hnumber =>
    subst split
    by_cases hc : isSpace c = true
    · rw [scanStep_space hc]
      exact .done rfl hspaces hnumber fun x hx => (List.mem_singleton.mp hx) ▸ hc
    · have hnext := Bool.eq_false_iff.mpr hc
      rw [scanStep_next hnext, show t.map narrow ++ [narrow c] = (t ++ [c]).map narrow by
        rw [map_append, map_singleton]]
      exact .reading (append_assoc before t [c]) hspaces (forall_mem_concat hnumber hnext)
  | @done before t after split hspaces hnumber hrest =>
    subst split
    by_cases hc : isSpace c = true
    · rw [scanStep_done hc]
      exact .done (append_assoc (before ++ t) after [c]) hspaces hnumber
        (forall_mem_concat hrest hc)
    · rw [scanStep_invalid (Bool.eq_false_iff.mpr hc)]
      exact .invalid _
  | invalid buf => exact .invalid buf

theorem scanNumber_scanned (data : List UInt16) : Scanned data (scanNumber data) := by
  induction data using List.reverseRecOn with
  | nil => exact .initial (forall_mem_nil _)
  | append_singleton data c ih =>
    rw [scanNumber, foldl_append, foldl_cons, foldl_nil]
    exact ih.step c

theorem foldl_scanStep_eq (hstep : ∀ c, p c → scanStep state c = state) (hl : ∀ c ∈ l, p c) :
    l.foldl scanStep state = state := by
  induction l with
  | nil => rfl
  | cons c l ih =>
    rw [foldl_cons, hstep c (hl c mem_cons_self)]
    exact ih fun x hx => hl x (mem_cons_of_mem c hx)

theorem foldl_scanStep_number (ht : ∀ c ∈ t, isSpace c = false) (buf : List UInt16) :
    t.foldl scanStep (.readingNumber, buf) = (.readingNumber, buf ++ t.map narrow) := by
  induction t generalizing buf with
  | nil => rw [foldl_nil, map_nil, append_nil]
  | cons c t ih =>
    rw [foldl_cons, scanStep_next (ht c mem_cons_self),
      ih fun x hx => ht x (mem_cons_of_mem c hx), map_cons, append_assoc]
    rfl

/-- The content of a string is what the loop puts into the buffer. -/
theorem Trimmed.scanNumber {data t : List UInt16} (h : Trimmed data t) :
    (scanNumber data).1 ≠ .invalid ∧ (NumericLiteral.scanNumber data).2 = t.map narrow := by
  obtain ⟨⟨before, after, rfl, hbefore, hafter⟩, ht⟩ := h
  have hfirst : before.foldl scanStep (.initial, []) = (.initial, []) :=
    foldl_scanStep_eq (fun c hc => scanStep_initial hc []) hbefore
  rw [NumericLiteral.scanNumber, foldl_append, foldl_append, hfirst]
  cases t with
  | nil =>
    rw [foldl_nil, foldl_scanStep_eq (fun c hc => scanStep_initial hc []) hafter]
    exact ⟨by decide, rfl⟩
  | cons c t =>
    rw [foldl_cons, scanStep_first (ht c mem_cons_self), nil_append,
      foldl_scanStep_number fun x hx => ht x (mem_cons_of_mem c hx)]
    have hreading : ScanState.readingNumber ≠ .invalid := by decide
    have hdone : ScanState.doneReadingNumber ≠ .invalid := by decide
    cases after with
    | nil => exact ⟨hreading, rfl⟩
    | cons space after =>
      rw [foldl_cons, scanStep_space (hafter space mem_cons_self),
        foldl_scanStep_eq (fun c hc => scanStep_done hc _)
          fun x hx => hafter x (mem_cons_of_mem space hx)]
      exact ⟨hdone, rfl⟩

theorem exists_trimmed (h : (scanNumber data).1 ≠ .invalid) : ∃ t, Trimmed data t := by
  have hscanned := scanNumber_scanned data
  generalize scanNumber data = state at h hscanned
  cases hscanned with
  | initial hspaces =>
    exact ⟨[], ⟨data, [], by rw [append_nil, append_nil], hspaces,
      forall_mem_nil _⟩, forall_mem_nil _⟩
  | @reading before t split hspaces hnumber =>
    exact ⟨t, ⟨before, [], split.trans (append_nil _).symm, hspaces,
      forall_mem_nil _⟩, hnumber⟩
  | @done before t after split hspaces hnumber hrest =>
    exact ⟨t, ⟨before, after, split, hspaces, hrest⟩, hnumber⟩
  | invalid buf => exact absurd rfl h

theorem toNat_digit {bits : Nat} (hbits : bits = 1 ∨ bits = 3) {ch : UInt16}
    (h : isRadixDigit bits ch = true) {number : UInt64} {n : Nat}
    (hnumber : number.toNat = n % 2 ^ 64) :
    ((number <<< UInt64.ofNat bits) + ch.toUInt64 - 48).toNat =
      (n * 2 ^ bits + (ch.toNat - 48)) % 2 ^ 64 := by
  have hrange := (of_decide_eq_true h).1
  rw [UInt64.toNat_sub, UInt64.toNat_add, UInt64.toNat_shiftLeft, Nat.shiftLeft_eq,
    UInt16.toNat_toUInt64, hnumber]
  rcases hbits with rfl | rfl
  · simp only [UInt64.reduceOfNat, UInt64.reduceToNat, Nat.reducePow, Nat.reduceMod]
    omega
  · simp only [UInt64.reduceOfNat, UInt64.reduceToNat, Nat.reducePow, Nat.reduceMod]
    omega

theorem foldlM_scanDigit {bits : Nat} (hbits : bits = 1 ∨ bits = 3) {digits : List UInt16}
    {number : UInt64} {n : Nat} (hnumber : number.toNat = n % 2 ^ 64) {m : UInt64} :
    digits.foldlM (scanDigit bits) number = some m ↔ (∀ c ∈ digits, isRadixDigit bits c = true) ∧
        m.toNat = digits.foldl (fun n c => n * 2 ^ bits + (c.toNat - 48)) n % 2 ^ 64 := by
  induction digits generalizing number n with
  | nil =>
    rw [foldlM_nil, foldl_nil, ← hnumber]
    constructor
    · rintro h
      cases h
      exact ⟨forall_mem_nil _, rfl⟩
    · rintro ⟨-, h⟩
      rw [UInt64.toNat_inj.mp h]
      rfl
  | cons c digits ih =>
    rw [foldlM_cons, foldl_cons, forall_mem_cons, scanDigit]
    by_cases hc : isRadixDigit bits c = true
    · rw [if_pos hc]
      exact (ih (toNat_digit hbits hc hnumber)).trans
        ⟨fun h => ⟨⟨hc, h.1⟩, h.2⟩, fun h => ⟨h.1.2, h.2⟩⟩
    · rw [if_neg hc]
      exact ⟨fun h => absurd h (some_ne_none m).symm, fun h => absurd h.1.1 hc⟩

theorem scanRadix_eq_some_iff {m : UInt64} : scanRadix buf = some m ↔
      ∃ bits value, RadixLiteral bits buf value ∧ m.toNat = value % 2 ^ 64 := by
  have hzero : (0 : UInt64).toNat = 0 % 2 ^ 64 := rfl
  constructor
  · intro h
    rw [scanRadix.eq_def] at h
    split at h
    · split_ifs at h with hbinary hoctal
      · obtain ⟨rfl, hletter, hne⟩ := hbinary
        obtain ⟨hdigits, hvalue⟩ := (foldlM_scanDigit (Or.inl rfl) hzero).mp h
        exact ⟨1, _, .intro hletter hne hdigits, hvalue⟩
      · obtain ⟨rfl, hletter, hne⟩ := hoctal
        obtain ⟨hdigits, hvalue⟩ := (foldlM_scanDigit (Or.inr rfl) hzero).mp h
        exact ⟨3, _, .intro hletter hne hdigits, hvalue⟩
    · cases h
  · rintro ⟨bits, value, ⟨hletter, hne, hdigits⟩, hvalue⟩
    rw [scanRadix]
    rcases bits_of_mem_radixLetters hletter with rfl | rfl
    · rw [if_pos ⟨rfl, hletter, hne⟩]
      exact (foldlM_scanDigit (Or.inl rfl) hzero).mpr ⟨hdigits, hvalue⟩
    · rw [if_neg fun h => radixLetters_disjoint _ hletter h.2.1, if_pos ⟨rfl, hletter, hne⟩]
      exact (foldlM_scanDigit (Or.inr rfl) hzero).mpr ⟨hdigits, hvalue⟩

theorem round_le_infinity : binary64.round n ≤ 0x7ff0000000000000 := Nat.min_le_right _ _

theorem toNat_nearestDouble : (nearestDouble n).toNat = binary64.round (n * one) := by
  have hround := round_le_infinity (n * one)
  rw [nearestDouble, UInt64.toNat_ofNat', Nat.mod_eq_of_lt (by omega)]

theorem isnan_nearestDouble : (nearestDouble n).isnan = false := by
  have hround := round_le_infinity (n * one)
  apply isnan_of_magnitude_le
  rw [nearestDouble, magnitude_ofNat (by omega)]
  exact hround

theorem exists_decode_pow {k : Nat} (hk : k < 1024) :
    ∃ fields ≤ binary64.infinity, binary64.decode fields = 2 ^ k * one := by
  have hinfinity : binary64.infinity = 2 ^ 52 + 2046 * 2 ^ binary64.fractionBits := rfl
  have hdecode := @FloatFormat.decode_add binary64 (2 ^ 52) 2046
    (show 2 ^ 52 ≤ 2 ^ 53 by decide) (Or.inl le_rfl)
  have hpow : 2 ^ k * one = 1 * 2 ^ (k + 1074) := by
    rw [one, unitExponent, Nat.pow_add, Nat.one_mul]
  have hlt : 1 * 2 ^ (k + 1074) < binary64.decode binary64.infinity := by
    rw [hinfinity, hdecode, Nat.one_mul, ← Nat.pow_add]
    exact Nat.pow_lt_pow_right (by omega) (by omega)
  obtain ⟨hexact, hbelow⟩ :=
    FloatFormat.decode_round_mul (Nat.one_lt_two_pow (by decide)) (Nat.zero_le _) hlt
  exact ⟨_, hbelow.le, hexact.trans hpow.symm⟩

/-- What has the same nearest number as a larger magnitude has any number in between as its
nearest one. -/
theorem decode_round_between {w x v : Nat} (hwx : w ≤ x) (hxv : x ≤ v)
    (hsame : binary64.round w = binary64.round v) {fields : Nat}
    (hfields : fields ≤ binary64.infinity) (hx : binary64.decode fields = x) :
    binary64.decode (binary64.round v) = x := by
  have hw := (FloatFormat.round_nearest (show 0 < 52 by decide) w hfields).le
  have hv := (FloatFormat.round_nearest (show 0 < 52 by decide) v hfields).le
  rw [hx] at hw hv
  rw [hsame, abs_of_nonneg (by omega : (0 : ℤ) ≤ (x : ℤ) - w)] at hw
  rw [abs_of_nonpos (by omega : (x : ℤ) - v ≤ 0)] at hv
  have hw' := (abs_le.mp hw).2
  have hv' := (abs_le.mp hv).1
  omega

/-- The remainder in 64 bits has another nearest number than the integer. -/
theorem nearestDouble_mod (v : Nat) :
    nearestDouble (v % 2 ^ 64) = nearestDouble v ↔ v < 2 ^ 64 := by
  constructor
  · intro h
    by_contra hlarge
    have hsame : binary64.round (v % 2 ^ 64 * one) = binary64.round (v * one) := by
      rw [← toNat_nearestDouble, ← toNat_nearestDouble, h]
    obtain ⟨fields, hfields, hx⟩ := @exists_decode_pow 64 (by decide)
    obtain ⟨half, hhalf, hy⟩ := @exists_decode_pow 63 (by decide)
    obtain ⟨double, hdouble, hz⟩ := @exists_decode_pow 65 (by decide)
    have hwx : v % 2 ^ 64 * one ≤ 2 ^ 64 * one := Nat.mul_le_mul_right one (by omega)
    have hxv : 2 ^ 64 * one ≤ v * one := Nat.mul_le_mul_right one (by omega)
    have hsum : v % 2 ^ 64 * one + 2 ^ 64 * one ≤ v * one := by
      rw [← Nat.add_mul]
      exact Nat.mul_le_mul_right one (by omega)
    have hv := decode_round_between hwx hxv hsame hfields hx
    have hlow := (FloatFormat.round_nearest (show 0 < 52 by decide) (v % 2 ^ 64 * one) hhalf).le
    have hhigh := (FloatFormat.round_nearest (show 0 < 52 by decide) (v * one) hdouble).le
    rw [hsame, hv, hy] at hlow
    rw [hv, hz] at hhigh
    have hpos := one_pos
    generalize v % 2 ^ 64 * one = w at *
    generalize v * one = v' at *
    generalize one = u at *
    -- The remainder is at least three quarters of `2 ^ 64`, so `2 ^ 65` is nearer to the integer.
    have hw : 3 * 2 ^ 62 * u ≤ w := by
      rcases abs_cases (((2 ^ 64 * u : Nat) : ℤ) - w) with ⟨habs, hsign⟩ | ⟨habs, hsign⟩
      · rcases abs_cases (((2 ^ 63 * u : Nat) : ℤ) - w) with ⟨habs', hsign'⟩ | ⟨habs', hsign'⟩
        · omega
        · omega
      · omega
    rcases abs_cases (((2 ^ 64 * u : Nat) : ℤ) - v') with ⟨habs, hsign⟩ | ⟨habs, hsign⟩
    · omega
    · rcases abs_cases (((2 ^ 65 * u : Nat) : ℤ) - v') with ⟨habs', hsign'⟩ | ⟨habs', hsign'⟩
      · omega
      · omega
  · intro h
    rw [Nat.mod_eq_of_lt h]

theorem hexPrefixes_chars {p : List UInt16} (h : p ∈ hexPrefixes) : ∀ c ∈ p, c ∈ tokenChars := by
  rcases List.mem_cons.mp h with rfl | h
  · exact forall_mem_of_all (by decide)
  · rw [List.mem_singleton.mp h]
    exact forall_mem_of_all (by decide)

/-- The first characters of the buffer are compared, which are those of the string. -/
theorem take_narrow_iff (data : List UInt16) :
    (3 ≤ data.length ∧ (data.map narrow).take 3 ∈ hexPrefixes) ↔ data.take 3 ∈ hexPrefixes := by
  rw [← map_take]
  constructor
  · rintro ⟨-, h⟩
    have hdata := eq_of_map_narrow rfl fun c hc => ne_zero_of_mem c (hexPrefixes_chars h c hc)
    rwa [← hdata] at h
  · intro h
    have hlength : (data.take 3).length = 3 := by
      rcases List.mem_cons.mp h with heq | h
      · rw [heq]
        rfl
      · rw [List.mem_singleton.mp h]
        rfl
    rw [length_take] at hlength
    exact ⟨by omega, by rwa [map_narrow_of_chars (hexPrefixes_chars h)]⟩

theorem Trimmed.begins (h : Trimmed data t) (hmark : data.take 3 ∈ hexPrefixes) :
    ∃ sign ∈ signs, ∃ rest, t = sign :: 48 :: 120 :: rest := by
  rw [h.eq_filter, ← take_append_drop 3 data, filter_append]
  rcases List.mem_cons.mp hmark with heq | hmark
  · rw [heq]
    exact ⟨45, by decide, _, rfl⟩
  · rw [List.mem_singleton.mp hmark]
    exact ⟨43, by decide, _, rfl⟩

theorem RadixLiteral.head_not_sign {bits value : Nat} {sign : UInt16}
    (h : RadixLiteral bits (sign :: t) value) : sign ∉ signs := by
  cases h
  exact zero_not_sign

theorem Trimmed.not_marked (h : Trimmed data t) (ht : StrNumericLiteral t) :
    data.take 3 ∉ hexPrefixes := by
  intro hmark
  obtain ⟨sign, hsign, rest, rfl⟩ := h.begins hmark
  cases ht with
  | decimal literal => exact hexLetters_not_decimal 120 mem_cons_self (literal.chars _ (by simp))
  | hex literal =>
    cases literal
    exact zero_not_sign hsign
  | radix literal => exact literal.head_not_sign hsign

section Conversion

variable {converter : List UInt16 → Double × Nat} {data t : List UInt16}

theorem not_isBlank_narrow {c : UInt16} (h : isSpace c = false) : isBlank (narrow c) = false := by
  by_contra hblank
  have htrue := Bool.eq_true_of_not_eq_false hblank
  rw [narrow_eq (ne_zero_of_isBlank htrue)] at htrue
  exact absurd (isSpace_of_isBlank htrue) (by rw [h]; exact Bool.false_ne_true)

theorem Trimmed.exists_not_blank (h : Trimmed data t) (hne : t ≠ []) :
    ∃ c ∈ data.map narrow, isBlank c = false := by
  obtain ⟨⟨before, after, rfl, -, -⟩, ht⟩ := h
  obtain ⟨c, hc⟩ := exists_mem_of_ne_nil t hne
  refine ⟨narrow c, List.mem_map_of_mem ?_, not_isBlank_narrow (ht c hc)⟩
  exact mem_append_left _ (mem_append_right _ hc)

theorem length_ne_zero_of_not_blank (h : ∃ c ∈ data.map narrow, isBlank c = false) :
    data.length ≠ 0 := by
  obtain ⟨c, hc, -⟩ := h
  rintro hlength
  rw [List.length_eq_zero_iff.mp hlength] at hc
  exact not_mem_nil hc

theorem stringToNumber_marked (hmark : data.take 3 ∈ hexPrefixes) :
    stringToNumber converter data = ValueWord.quietNaN := by
  have hcompared := (take_narrow_iff data).mpr hmark
  rw [stringToNumber, if_neg (by omega), if_pos hcompared]

section

variable (hcontract : ConverterContract converter)
include hcontract

theorem converter_junk (hblank : ∃ c ∈ data.map narrow, isBlank c = false)
    (hnone : ∀ u, Padded data u → ¬Recognized u) : (converter (data.map narrow)).2 = 0 :=
  hcontract.junk _ hblank fun u hu hrecognized =>
    hnone u (.of_buffer hu hrecognized.chars) hrecognized

/-- A form that the converter reads gets its value, whatever white space is around it. -/
theorem stringToNumber_recognized (hpadded : Padded data t) (ht : Recognized t)
    (hmark : data.take 3 ∉ hexPrefixes) :
    stringToNumber converter data = (converter t).1 := by
  have htrimmed := hpadded.trimmed ht.chars
  have hblank := htrimmed.exists_not_blank ht.ne_nil
  have hlength := length_ne_zero_of_not_blank hblank
  rw [stringToNumber, if_neg hlength, if_neg (mt (take_narrow_iff data).mp hmark)]
  by_cases hbuffer : BlankPadded (data.map narrow) t
  · rw [hcontract.number _ t hbuffer ht, if_neg (not_not.mpr (length_map _))]
  · have hjunk := hcontract.junk _ hblank fun u hu hrecognized => by
      have hpadded' := Padded.of_buffer hu hrecognized.chars
      rw [(hpadded'.trimmed hrecognized.chars).unique htrimmed] at hu
      exact hbuffer hu
    obtain ⟨hstate, hbuf⟩ := htrimmed.scanNumber
    rw [hjunk, if_pos hlength.symm, if_pos hstate, hbuf, map_narrow_of_chars ht.chars,
      hcontract.number t t (.self t) ht, if_neg (not_not.mpr rfl)]

/-- Any other content is left to the scan of a literal with a base. -/
theorem stringToNumber_unrecognized (htrimmed : Trimmed data t) (hne : t ≠ [])
    (ht : ¬Recognized t) (hmark : data.take 3 ∉ hexPrefixes) :
    stringToNumber converter data =
      ((scanRadix (t.map narrow)).map fun number => nearestDouble number.toNat).getD
        ValueWord.quietNaN := by
  have hblank := htrimmed.exists_not_blank hne
  have hlength := length_ne_zero_of_not_blank hblank
  have hself : Trimmed t t := ⟨.self t, htrimmed.2⟩
  have hfirst := converter_junk hcontract hblank fun u hu hrecognized =>
    ht ((hu.trimmed hrecognized.chars).unique htrimmed ▸ hrecognized)
  have hsecond := converter_junk hcontract (hself.exists_not_blank hne) fun u hu hrecognized =>
    ht ((hu.trimmed hrecognized.chars).unique hself ▸ hrecognized)
  have hcontent : 0 ≠ (t.map narrow).length := by
    rw [length_map]
    exact Ne.symm (mt List.length_eq_zero_iff.mp hne)
  obtain ⟨hstate, hbuf⟩ := htrimmed.scanNumber
  rw [stringToNumber, if_neg hlength, if_neg (mt (take_narrow_iff data).mp hmark), hfirst,
    if_pos hlength.symm, if_pos hstate, hbuf, hsecond, if_pos hcontent]
  cases scanRadix (t.map narrow) with
  | none => rfl
  | some number => rfl

theorem stringToNumber_spaces (hpadded : Padded data []) : stringToNumber converter data = 0 := by
  have htrimmed : Trimmed data [] := ⟨hpadded, forall_mem_nil _⟩
  have hmark : data.take 3 ∉ hexPrefixes := by
    intro hmark
    obtain ⟨sign, -, rest, hnil⟩ := htrimmed.begins hmark
    cases hnil
  rw [stringToNumber]
  by_cases hlength : data.length = 0
  · rw [if_pos hlength]
  · rw [if_neg hlength, if_neg (mt (take_narrow_iff data).mp hmark)]
    by_cases hblank : ∀ c ∈ data.map narrow, isBlank c = true
    · rw [hcontract.blank _ hblank, if_neg (not_not.mpr (length_map _))]
    · simp only [not_forall, Bool.not_eq_true, exists_prop] at hblank
      have hjunk := converter_junk hcontract hblank fun u hu hrecognized =>
        hrecognized.ne_nil ((hu.trimmed hrecognized.chars).unique htrimmed)
      obtain ⟨hstate, hbuf⟩ := htrimmed.scanNumber
      have hempty := hcontract.blank [] (forall_mem_nil _)
      rw [hjunk, if_pos (Ne.symm hlength), if_pos hstate, hbuf, map_nil, hempty,
        if_neg (not_not.mpr rfl)]

theorem stringToNumber_untrimmed (hnone : ¬∃ t, Trimmed data t)
    (hmark : data.take 3 ∉ hexPrefixes) :
    stringToNumber converter data = ValueWord.quietNaN := by
  have hblank : ∃ c ∈ data.map narrow, isBlank c = false := by
    by_contra hblank
    simp only [not_exists, not_and, Bool.not_eq_false] at hblank
    refine hnone ⟨[], ⟨data, [], by rw [append_nil, append_nil], fun c hc => ?_,
      forall_mem_nil _⟩, forall_mem_nil _⟩
    by_contra hspace
    have hfalse := not_isBlank_narrow (Bool.eq_false_iff.mpr hspace)
    exact Bool.false_ne_true (hfalse.symm.trans (hblank _ (List.mem_map_of_mem hc)))
  have hlength := length_ne_zero_of_not_blank hblank
  have hjunk := converter_junk hcontract hblank fun u hu hrecognized =>
    hnone ⟨u, hu.trimmed hrecognized.chars⟩
  rw [stringToNumber, if_neg hlength, if_neg (mt (take_narrow_iff data).mp hmark), hjunk,
    if_pos hlength.symm, if_neg fun hstate => hnone (exists_trimmed hstate)]

end

theorem Recognized.not_radix (ht : Recognized t) {bits value : Nat} :
    ¬RadixLiteral bits t value := by
  intro hradix
  cases ht with
  | decimal literal => exact hradix.not_decimal literal
  | hex literal => exact hradix.not_hex literal
  | signedHex literal => exact literal.not_literal (.radix hradix)
  | nan symbol => exact symbol.not_literal (.radix hradix)

section

variable (hcontract : ConverterContract converter)
include hcontract

theorem stringToNumber_radix (hpadded : Padded data t) {bits value : Nat}
    (ht : RadixLiteral bits t value) :
    stringToNumber converter data = nearestDouble (value % 2 ^ 64) := by
  have hliteral := StrNumericLiteral.radix ht
  have htrimmed := hpadded.trimmed ht.chars
  have hscan : scanRadix t = some (.ofNat value) :=
    scanRadix_eq_some_iff.mpr ⟨bits, value, ht, UInt64.toNat_ofNat'⟩
  rw [stringToNumber_unrecognized hcontract htrimmed hliteral.ne_nil (fun h => h.not_radix ht)
    (htrimmed.not_marked hliteral), map_narrow_of_chars ht.chars, hscan, map_some,
    getD_some, UInt64.toNat_ofNat']

theorem isnan_library (ht : StrDecimalLiteral t ∨ HexIntegerLiteral t) :
    (converter t).1.isnan = false := by
  have hliteral : StrNumericLiteral t := ht.elim .decimal .hex
  have hrecognized : Recognized t := ht.elim .decimal .hex
  exact Bool.eq_false_iff.mpr fun hnan =>
    ((hcontract.isnan t hrecognized).mp hnan).not_literal hliteral

theorem stringToNumber_library (hpadded : Padded data t)
    (ht : StrDecimalLiteral t ∨ HexIntegerLiteral t) :
    stringToNumber converter data = (converter t).1 := by
  have hliteral : StrNumericLiteral t := ht.elim .decimal .hex
  exact stringToNumber_recognized hcontract hpadded (ht.elim .decimal .hex)
    ((hpadded.trimmed hliteral.chars).not_marked hliteral)

theorem isnan_of_literal (h : StringNumericLiteral data) :
    (stringToNumber converter data).isnan = false := by
  rcases h with hempty | ⟨t, hpadded, ht⟩
  · rw [stringToNumber_spaces hcontract hempty]
    decide
  · cases ht with
    | decimal literal =>
      rw [stringToNumber_library hcontract hpadded (.inl literal)]
      exact isnan_library hcontract (.inl literal)
    | hex literal =>
      rw [stringToNumber_library hcontract hpadded (.inr literal)]
      exact isnan_library hcontract (.inr literal)
    | radix literal =>
      rw [stringToNumber_radix hcontract hpadded literal]
      exact isnan_nearestDouble _

theorem isnan_of_not_literal (hdata : ¬StringNumericLiteral data)
    (hreach : ∀ t, Padded data t → SignedHex t → data.take 3 ∈ hexPrefixes) :
    (stringToNumber converter data).isnan = true := by
  have hnan : ValueWord.quietNaN.isnan = true := by decide
  by_cases hmark : data.take 3 ∈ hexPrefixes
  · rw [stringToNumber_marked hmark]
    exact hnan
  · by_cases hcontent : ∃ t, Trimmed data t
    · obtain ⟨t, htrimmed⟩ := hcontent
      by_cases ht : Recognized t
      · have hpadded := htrimmed.1
        rw [stringToNumber_recognized hcontract hpadded ht hmark, hcontract.isnan t ht]
        cases ht with
        | decimal literal => exact absurd (Or.inr ⟨t, hpadded, .decimal literal⟩) hdata
        | hex literal => exact absurd (Or.inr ⟨t, hpadded, .hex literal⟩) hdata
        | signedHex literal => exact absurd (hreach t hpadded literal) hmark
        | nan symbol => exact symbol
      · have hne : t ≠ [] := by
          rintro rfl
          exact hdata (Or.inl htrimmed.1)
        rw [stringToNumber_unrecognized hcontract htrimmed hne ht hmark]
        cases hscan : scanRadix (t.map narrow) with
        | none => exact hnan
        | some number =>
          obtain ⟨bits, value, hliteral, -⟩ := scanRadix_eq_some_iff.mp hscan
          have hsame := eq_of_map_narrow rfl fun c hc => ne_zero_of_mem c (hliteral.chars c hc)
          rw [← hsame] at hliteral
          exact absurd (Or.inr ⟨t, htrimmed.1, .radix hliteral⟩) hdata
    · rw [stringToNumber_untrimmed hcontract hcontent hmark]
      exact hnan

end

theorem SignedHex.not_stringNumericLiteral (ht : SignedHex t) (hpadded : Padded data t) :
    ¬StringNumericLiteral data := by
  have htrimmed := hpadded.trimmed ht.chars
  rintro (hempty | ⟨u, hu, hliteral⟩)
  · have hnil := htrimmed.unique ⟨hempty, forall_mem_nil _⟩
    exact (Recognized.signedHex ht).ne_nil hnil
  · rw [← htrimmed.unique (hu.trimmed hliteral.chars)] at hliteral
    exact ht.not_literal hliteral

/-- A hexadecimal literal with a sign gets past the look at the first characters otherwise. -/
theorem stringToNumber_signedHex (hcontract : ConverterContract converter)
    (hpadded : Padded data t) (ht : SignedHex t) (hmark : data.take 3 ∉ hexPrefixes) :
    (stringToNumber converter data).isnan = false := by
  rw [stringToNumber_recognized hcontract hpadded (.signedHex ht) hmark]
  exact Bool.eq_false_iff.mpr fun hnan =>
    ((hcontract.isnan t (.signedHex ht)).mp hnan).not_signedHex ht

/-- A string is read as the grammar says exactly if it is within reach. -/
theorem readsNumber_iff (hcontract : ConverterContract converter) (data : List UInt16) :
    ReadsNumber converter data (stringToNumber converter data) ↔ WithinReach data := by
  constructor
  · intro hreads
    constructor
    · intro t hpadded ht
      by_contra hmark
      have haccepted := stringToNumber_signedHex hcontract hpadded ht hmark
      exact ht.not_stringNumericLiteral hpadded (hreads.accepts.mpr haccepted)
    · intro t bits value hpadded ht
      rw [← nearestDouble_mod, ← stringToNumber_radix hcontract hpadded ht]
      exact hreads.radix t bits value hpadded ht
  · intro hreach
    refine ⟨⟨isnan_of_literal hcontract, fun haccepted => ?_⟩, stringToNumber_spaces hcontract,
      fun t hpadded ht => stringToNumber_library hcontract hpadded ht,
      fun t bits value hpadded ht => ?_⟩
    · by_contra hdata
      have hnan := isnan_of_not_literal hcontract hdata hreach.signedHex
      exact Bool.false_ne_true (haccepted.symm.trans hnan)
    · rw [stringToNumber_radix hcontract hpadded ht, nearestDouble_mod]
      exact hreach.radix t bits value hpadded ht

end Conversion

def decimalValue (t : List UInt16) : Nat :=
  (t.filter fun c => decide (c ∈ decimalDigits)).foldl (fun n c => n * 10 + (c.toNat - 48)) 0

open Classical in
/-- A converter that has the right values for decimal integers without a sign. -/
noncomputable def plainConverter (buf : List UInt16) : Double × Nat :=
  if ∀ c ∈ buf, isBlank c = true then (0, buf.length)
  else if ∃ t, BlankPadded buf t ∧ NaNSymbol t then (ValueWord.quietNaN, buf.length)
  else if ∃ t, BlankPadded buf t ∧ Recognized t then (nearestDouble (decimalValue buf), buf.length)
  else (ValueWord.quietNaN, 0)

theorem decimalValue_of_blankPadded (h : BlankPadded buf t) :
    decimalValue buf = decimalValue t := by
  obtain ⟨before, after, rfl, hbefore, hafter⟩ := h
  have hnone : ∀ {l : List UInt16}, (∀ c ∈ l, isBlank c = true) →
      (l.filter fun c => decide (c ∈ decimalDigits)) = [] := by
    intro l hl
    rw [filter_eq_nil_iff]
    intro c hc
    rcases of_decide_eq_true (hl c hc) with rfl | rfl
    · decide
    · decide
  rw [decimalValue, filter_append, filter_append, hnone hbefore, hnone hafter,
    nil_append, append_nil, decimalValue]

theorem BlankPadded.unique {t' : List UInt16} (h : BlankPadded buf t) (ht : Recognized t)
    (h' : BlankPadded buf t') (ht' : Recognized t') : t = t' :=
  (h.padded.trimmed ht.chars).unique (h'.padded.trimmed ht'.chars)

theorem BlankPadded.not_blank (h : BlankPadded buf t) (ht : Recognized t) :
    ¬∀ c ∈ buf, isBlank c = true := by
  obtain ⟨before, after, rfl, -, -⟩ := h
  obtain ⟨c, hc⟩ := exists_mem_of_ne_nil t ht.ne_nil
  intro hblank
  have htrue := hblank c (mem_append_left _ (mem_append_right _ hc))
  exact Bool.false_ne_true ((not_isBlank_of_mem c (ht.chars c hc)).symm.trans htrue)

theorem plainConverter_nan (h : BlankPadded buf t) (ht : NaNSymbol t) :
    plainConverter buf = (ValueWord.quietNaN, buf.length) := by
  rw [plainConverter, if_neg (h.not_blank (.nan ht)), if_pos ⟨t, h, ht⟩]

theorem plainConverter_number (h : BlankPadded buf t) (ht : Recognized t) (hnumber : ¬NaNSymbol t) :
    plainConverter buf = (nearestDouble (decimalValue t), buf.length) := by
  have hsymbol : ¬∃ u, BlankPadded buf u ∧ NaNSymbol u := by
    rintro ⟨u, hu, hnan⟩
    rw [h.unique ht hu (.nan hnan)] at hnumber
    exact hnumber hnan
  rw [plainConverter, if_neg (h.not_blank ht), if_neg hsymbol, if_pos ⟨t, h, ht⟩,
    decimalValue_of_blankPadded h]

theorem plainConverter_contract : ConverterContract plainConverter where
  blank buf hblank := if_pos hblank
  number buf t h ht := by
    by_cases hnan : NaNSymbol t
    · rw [plainConverter_nan h hnan, plainConverter_nan (.self t) hnan]
    · rw [plainConverter_number h ht hnan, plainConverter_number (.self t) ht hnan]
  isnan t ht := by
    by_cases hnan : NaNSymbol t
    · rw [plainConverter_nan (.self t) hnan]
      have hquiet : ValueWord.quietNaN.isnan = true := by decide
      exact iff_of_true hquiet hnan
    · rw [plainConverter_number (.self t) ht hnan]
      exact iff_of_false (by rw [isnan_nearestDouble]; exact Bool.false_ne_true) hnan
  junk buf hsome hnone := by
    have hblank : ¬∀ c ∈ buf, isBlank c = true := by
      obtain ⟨c, hc, hfalse⟩ := hsome
      exact fun hall => Bool.false_ne_true (hfalse.symm.trans (hall c hc))
    have hsymbol : ¬∃ t, BlankPadded buf t ∧ NaNSymbol t := by
      rintro ⟨t, h, ht⟩
      exact hnone t h (.nan ht)
    have hform : ¬∃ t, BlankPadded buf t ∧ Recognized t := by
      rintro ⟨t, h, ht⟩
      exact hnone t h ht
    rw [plainConverter, if_neg hblank, if_neg hsymbol, if_neg hform]

/-- `0b101` after a blank and before a line feed. -/
def paddedBinary : List UInt16 := [32, 48, 98, 49, 48, 49, 10]

theorem eq_of_padded_paddedBinary (h : Padded paddedBinary t) (ht : ∀ c ∈ t, c ∈ tokenChars) :
    t = [48, 98, 49, 48, 49] :=
  (h.trimmed ht).eq_filter

theorem withinReach_paddedBinary : WithinReach paddedBinary where
  signedHex t h ht := by
    have heq := eq_of_padded_paddedBinary h ht.chars
    subst heq
    cases ht with
    | intro mark _ => exact absurd mark zero_not_sign
  radix t bits value h ht := by
    have heq := eq_of_padded_paddedBinary h ht.chars
    subst heq
    have hbinary : RadixLiteral 1 [48, 98, 49, 48, 49] 5 :=
      .intro (by decide) (cons_ne_nil _ _) (forall_mem_of_all (by decide))
    rw [(ht.unique hbinary).2]
    decide

theorem readsNumber_paddedBinary :
    ReadsNumber plainConverter paddedBinary (stringToNumber plainConverter paddedBinary) :=
  (readsNumber_iff plainConverter_contract paddedBinary).mpr withinReach_paddedBinary

/-- `-0X10` is read as a number. -/
theorem signedHex_read_as_number : ¬∀ converter, ConverterContract converter →
      ∀ data, ReadsNumber converter data (stringToNumber converter data) := by
  intro h
  have hreads := h plainConverter plainConverter_contract [45, 48, 88, 49, 48]
  have hdigits : Digits hexDigits [49, 48] := ⟨cons_ne_nil _ _, forall_mem_of_all (by decide)⟩
  have ht : SignedHex [45, 48, 88, 49, 48] := .intro (by decide) (.intro (by decide) hdigits)
  have haccepted := stringToNumber_signedHex plainConverter_contract (.self _) ht (by decide)
  exact ht.not_stringNumericLiteral (.self _) (hreads.accepts.mpr haccepted)

end Escargot.Runtime.NumericLiteral
