/-
# Compressed location data

The source positions of a block's byte code are collected as pairs, sorted by byte code
position and kept as differences: a ULEB128 number for the position, which only grows, and
an SLEB128 number for the source index, which goes up and down. A pair that stands for no
place is written as the greatest ULEB128 number alone.
-/

import Mathlib.Data.List.Sort
import Mathlib.Tactic.IntervalCases

namespace Escargot.Interpreter.LocationData

open List BitVec

/-- Writes a number in groups of seven bits, up to the byte that `isLast` ends with. -/
def encodeGroups (shiftRight : BitVec 32 → BitVec 32) (isLast : BitVec 8 → BitVec 32 → Bool) :
    Nat → BitVec 32 → List (BitVec 8)
  | 0, _ => []
  | rounds + 1, value =>
    let byte := value.setWidth 8 &&& 0x7F
    let value := shiftRight value
    if isLast byte value then [byte]
    else (byte ||| 0x80) :: encodeGroups shiftRight isLast rounds value

def encodeULEB128 : BitVec 32 → List (BitVec 8) :=
  encodeGroups (· >>> 7) (fun _ value => value = 0) 5

variable (byte : BitVec 8) (value : BitVec 32)

/-- What ends the loop of `encodeSLEB128`. -/
def isLastSigned : Bool :=
  value = 0 && byte &&& 0x40 = 0 || value = -1#32 && byte &&& 0x40 ≠ 0

def encodeSLEB128 : BitVec 32 → List (BitVec 8) :=
  encodeGroups (·.sshiftRight 7) isLastSigned 5

/-- The loop of both decoders: the groups, the shift after them, the last byte and what follows
it. A read past the end or a shift by 32 has no value. -/
def decodeGroups (result : BitVec 32) (shift : Nat) :
    List (BitVec 8) → Option (BitVec 32 × Nat × BitVec 8 × List (BitVec 8))
  | [] => none
  | byte :: rest =>
    if 32 ≤ shift then none
    else
      let result := result ||| (byte &&& 0x7F).setWidth 32 <<< shift
      if byte &&& 0x80 = 0 then some (result, shift + 7, byte, rest)
      else decodeGroups result (shift + 7) rest

variable (last : LOCPair) (bytes : List (BitVec 8))

def decodeULEB128 : Option (BitVec 32 × List (BitVec 8)) :=
  (decodeGroups 0 0 bytes).map fun (result, _, _, rest) => (result, rest)

def decodeSLEB128 : Option (BitVec 32 × List (BitVec 8)) :=
  (decodeGroups 0 0 bytes).map fun (result, shift, byte, rest) =>
    (if shift < 32 ∧ byte &&& 0x40 ≠ 0 then result ||| (-1#32) <<< shift else result, rest)

def sizeMax : BitVec 64 := -1

/-- A byte code position and a source index. -/
structure LOCPair where
  first : BitVec 64
  second : BitVec 64

/-- `curBytecode == SIZE_MAX || curSource == SIZE_MAX`. -/
def LOCPair.isSentinel (current : LOCPair) : Bool :=
  current.first = sizeMax || current.second = sizeMax

/-- `ByteCodeBlock::fillLOCData`, of the pairs the generator collects. -/
def fillLOCData (srcLength : Nat) (collected : List LOCPair) : List LOCPair :=
  if srcLength = 0 then [⟨sizeMax, sizeMax⟩] else collected ++ [⟨sizeMax, sizeMax⟩]

def compress (last : LOCPair) : List LOCPair → List (BitVec 8)
  | [] => []
  | current :: rest =>
    if current.isSentinel then encodeULEB128 0xFFFFFFFF ++ compress last rest
    else
      encodeULEB128 ((current.first - last.first).setWidth 32) ++
        (encodeSLEB128 (current.second.setWidth 32 - last.second.setWidth 32) ++
          compress current rest)

/-- What a round of the search reads: nothing of a sentinel, else the next pair. -/
def readPair : Option (Option LOCPair × List (BitVec 8)) :=
  (decodeULEB128 bytes).bind fun (deltaBytecode, bytes) =>
    if deltaBytecode = 0xFFFFFFFF then some (none, bytes)
    else
      (decodeSLEB128 bytes).map fun (deltaSource, bytes) =>
        (some ⟨last.first + deltaBytecode.setWidth 64,
          last.second + deltaSource.signExtend 64⟩, bytes)

/-- The search loop, in a number of rounds at most: `index` and `bestSource` after it. -/
def search (codePosition : BitVec 64) :
    Nat → List (BitVec 8) → LOCPair → BitVec 64 → Option (BitVec 64 × BitVec 64)
  | _, [], _, bestSource => some (sizeMax, bestSource)
  | 0, _ :: _, _, _ => none
  | rounds + 1, byte :: bytes, last, bestSource =>
    (readPair last (byte :: bytes)).bind fun (read, bytes) =>
      match read with
      | none => search codePosition rounds bytes last bestSource
      | some current =>
        if current.first = codePosition then some (current.second, bestSource)
        else if current.first < codePosition then
          search codePosition rounds bytes current current.second
        else some (bestSource, bestSource)

structure ExtendedNodeLOC where
  line : BitVec 64
  column : BitVec 64
  index : BitVec 64

/-- What a block and its function hold for `computeNodeLOCFromByteCode`: the pairs the
generator collects, and the compressed data once there is any. -/
structure ByteCodeBlock where
  srcLength : Nat
  collected : List LOCPair
  functionStart : ExtendedNodeLOC
  locData : Option (List (BitVec 8))

def noLocation : ExtendedNodeLOC := ⟨sizeMax, sizeMax, sizeMax⟩

variable (sort : List LOCPair → List LOCPair) (computeNodeLOC : BitVec 64 → ExtendedNodeLOC)
  (block : ByteCodeBlock)

/-- The data a block compresses on its first use. -/
def ByteCodeBlock.compressed : List (BitVec 8) :=
  compress ⟨0, 0⟩ (sort (fillLOCData block.srcLength block.collected))

/-- `index` after the loop, with `bestSource` in its place where there is none. -/
def foundIndex (choice : BitVec 64 × BitVec 64) : BitVec 64 :=
  if choice.1 = sizeMax ∧ choice.2 ≠ sizeMax then choice.2 else choice.1

/-- The location of a found index, where `computeNodeLOC` counts lines and columns. -/
def locationAt (start : BitVec 64) (bytes : List (BitVec 8)) (index : BitVec 64) :
    ExtendedNodeLOC :=
  if index = sizeMax ∧ bytes ≠ [] then noLocation
  else
    let index := if index = sizeMax then start else index
    { computeNodeLOC (index - start) with index := index }

/-- `ByteCodeBlock::computeNodeLOCFromByteCode`: the location, and the block with its data. -/
def computeNodeLOCFromByteCode (codePosition : BitVec 64) :
    Option (ExtendedNodeLOC × ByteCodeBlock) :=
  if codePosition = sizeMax then some (noLocation, block)
  else
    let bytes := block.locData.getD (block.compressed sort)
    (search codePosition bytes.length bytes ⟨0, 0⟩ sizeMax).map fun choice =>
      (locationAt computeNodeLOC block.functionStart.index bytes (foundIndex choice),
        { block with locData := some bytes })

/-- The seven low bits and the bits above them, at their places, are the number. -/
theorem low_or_high {value high : BitVec 32}
    (hhigh : ∀ i < 25, high.getLsbD i = value.getLsbD (7 + i)) (result : BitVec 32)
    (shift : Nat) :
    result ||| (value.setWidth 8 &&& 0x7F).setWidth 32 <<< shift ||| high <<< (shift + 7) =
      result ||| value <<< shift := by
  have hmask : ∀ j, (0x7F : BitVec 8).getLsbD j = decide (j < 7) := fun j =>
    Nat.testBit_two_pow_sub_one 7 j
  rw [BitVec.or_assoc]
  congr 1
  apply eq_of_getLsbD_eq
  intro i hi
  simp only [getLsbD_or, getLsbD_shiftLeft, getLsbD_setWidth,
    getLsbD_and, hmask]
  by_cases hlow : i < shift
  · simp [hlow, show i < shift + 7 by omega]
  · by_cases hseven : i - shift < 7
    · simp [hi, hlow, hseven, show i - shift < 8 by omega, show i - shift < 32 by omega,
        show i < shift + 7 by omega]
    · rw [hhigh _ (by omega), show 7 + (i - (shift + 7)) = i - shift by omega]
      simp [hi, hlow, hseven, show ¬i < shift + 7 by omega]

/-- The flag of a byte that is not the last, and what the masks leave. -/
theorem byte_bits : ∀ low : BitVec 8, (low &&& 0x7F) &&& 0x80 = 0 ∧
    (low &&& 0x7F) &&& 0x7F = low &&& 0x7F ∧ ((low &&& 0x7F) ||| 0x80) &&& 0x80 ≠ 0 ∧
    ((low &&& 0x7F) ||| 0x80) &&& 0x7F = low &&& 0x7F := by
  decide +kernel

variable (rest : List (BitVec 8))

/-- Where every round leaves a number that fits in one round less, the groups are read back: what
is above the last group, at its place, is all that is missing. -/
theorem decodeGroups_encodeGroups (shiftRight : BitVec 32 → BitVec 32)
    (isLast : BitVec 8 → BitVec 32 → Bool) (fits : Nat → BitVec 32 → Prop)
    (hhigh : ∀ value, ∀ i < 25, (shiftRight value).getLsbD i = value.getLsbD (7 + i))
    (hlast : ∀ value, fits 0 value →
      isLast (value.setWidth 8 &&& 0x7F) (shiftRight value) = true)
    (hnext : ∀ rounds value, fits (rounds + 1) value → fits rounds (shiftRight value)) :
    ∀ (rounds : Nat) (result value : BitVec 32) (shift : Nat), shift + 7 * rounds = 28 →
      fits rounds value → ∃ (read high : BitVec 32) (after : Nat) (byte : BitVec 8),
        decodeGroups result shift (encodeGroups shiftRight isLast (rounds + 1) value ++ rest) =
          some (read, after, byte, rest) ∧ isLast byte high = true ∧
        read ||| high <<< after = result ||| value <<< shift := by
  intro rounds
  induction rounds with
  | zero =>
    intro result value shift hshift hvalue
    obtain ⟨hflag, hlow, -⟩ := byte_bits (value.setWidth 8)
    refine ⟨_, shiftRight value, shift + 7, value.setWidth 8 &&& 0x7F, ?_, hlast value hvalue,
      low_or_high (hhigh value) result shift⟩
    rw [encodeGroups, if_pos (hlast value hvalue), singleton_append, decodeGroups,
      if_neg (by omega), if_pos hflag, hlow]
  | succ rounds ih =>
    intro result value shift hshift hvalue
    obtain ⟨hflag, hlow, hflag', hlow'⟩ := byte_bits (value.setWidth 8)
    rw [encodeGroups]
    by_cases hends : isLast (value.setWidth 8 &&& 0x7F) (shiftRight value) = true
    · refine ⟨_, shiftRight value, shift + 7, value.setWidth 8 &&& 0x7F, ?_, hends,
        low_or_high (hhigh value) result shift⟩
      rw [if_pos hends, singleton_append, decodeGroups, if_neg (by omega), if_pos hflag, hlow]
    · rw [if_neg hends, List.cons_append, decodeGroups, if_neg (by omega), if_neg hflag', hlow',
        ← low_or_high (hhigh value) result shift]
      exact ih _ _ _ (by omega) (hnext rounds value hvalue)

theorem decodeULEB128_encodeULEB128 :
    decodeULEB128 (encodeULEB128 value ++ rest) = some (value, rest) := by
  have hnat : ∀ value : BitVec 32, (value >>> 7).toNat = value.toNat / 2 ^ 7 := fun value => by
    rw [toNat_ushiftRight, Nat.shiftRight_eq_div_pow]
  obtain ⟨read, high, after, byte, hread, hlast, hvalue⟩ := decodeGroups_encodeGroups rest
    (· >>> 7) (fun _ value => value = 0) (fun rounds value => value.toNat < 2 ^ (4 + 7 * rounds))
    (fun value i _ => getLsbD_ushiftRight ..)
    (fun value h => decide_eq_true (eq_of_toNat_eq
      ((hnat value).trans (Nat.div_eq_of_lt (h.trans (by decide))))))
    (fun rounds value h => by
      rw [Nat.mul_succ, ← Nat.add_assoc, pow_add] at h
      rw [hnat]
      omega) 4 0 value 0 rfl value.isLt
  rw [decodeULEB128, encodeULEB128, hread]
  rw [of_decide_eq_true hlast] at hvalue
  simpa using hvalue

theorem decodeSLEB128_encodeSLEB128 :
    decodeSLEB128 (encodeSLEB128 value ++ rest) = some (value, rest) := by
  obtain ⟨read, high, after, byte, hread, hlast, hvalue⟩ := decodeGroups_encodeGroups rest
    (·.sshiftRight 7) isLastSigned
    (fun rounds value => -2 ^ (3 + 7 * rounds) ≤ value.toInt ∧ value.toInt < 2 ^ (3 + 7 * rounds))
    (fun value i hi => by
      simp [getLsbD_sshiftRight, show ¬32 ≤ i by omega, show 7 + i < 32 by omega])
    (fun value h => by
      obtain ⟨number, hnumber⟩ : ∃ number, value.toInt = number := ⟨_, rfl⟩
      rw [hnumber] at h
      rw [← ofInt_toInt (x := value), hnumber]
      obtain ⟨hlow, hhigh⟩ := h
      interval_cases number <;> decide)
    (fun rounds value h => by
      rw [Nat.mul_succ, ← Nat.add_assoc, pow_add] at h
      rw [toInt_sshiftRight, Int.shiftRight_eq_div_pow]
      omega) 4 0 value 0 rfl ⟨le_toInt value, toInt_lt⟩
  rw [decodeSLEB128, encodeSLEB128, hread]
  have hsign : (if after < 32 ∧ byte &&& 0x40 ≠ 0 then read ||| (-1#32) <<< after else read) =
      read ||| high <<< after := by
    simp only [isLastSigned, Bool.or_eq_true, Bool.and_eq_true, decide_eq_true_eq] at hlast
    obtain ⟨rfl, hbit⟩ | ⟨rfl, hbit⟩ := hlast
    · rw [if_neg fun h => h.2 hbit]
      simp
    · by_cases hafter : after < 32
      · rw [if_pos ⟨hafter, hbit⟩]
      · rw [if_neg fun h => hafter h.1, shiftLeft_eq_zero (Nat.le_of_not_lt hafter)]
        simp
  exact congrArg (fun value => some (value, rest)) (hsign.trans (by simpa using hvalue))

/-- A sentinel, or a position and an index below `2 ^ 31`. -/
def LOCPair.Fits (pair : LOCPair) : Prop :=
  pair.isSentinel = false → pair.first.toNat < 2 ^ 31 ∧ pair.second.toNat < 2 ^ 31

def decodePairs : Nat → List (BitVec 8) → LOCPair → Option (List LOCPair)
  | _, [], _ => some []
  | 0, _ :: _, _ => none
  | rounds + 1, byte :: bytes, last =>
    (readPair last (byte :: bytes)).bind fun (read, bytes) =>
      match read with
      | none => decodePairs rounds bytes last
      | some current => (decodePairs rounds bytes current).map (current :: ·)

theorem readPair_sentinel :
    readPair last (encodeULEB128 0xFFFFFFFF ++ rest) = some (none, rest) := by
  rfl

theorem first_of_difference {last current : BitVec 64} (hle : last ≤ current)
    (hcurrent : current.toNat < 2 ^ 31) :
    (current - last).setWidth 32 ≠ 0xFFFFFFFF ∧
      last + ((current - last).setWidth 32).setWidth 64 = current := by
  bv_omega

theorem second_of_difference {last current : BitVec 64} (hlast : last.toNat < 2 ^ 31)
    (hcurrent : current.toNat < 2 ^ 31) :
    last + (current.setWidth 32 - last.setWidth 32).signExtend 64 = current := by
  have hdifference : (current.setWidth 32 - last.setWidth 32).toInt =
      current.toNat - last.toNat := by
    rw [toInt_sub, toInt_setWidth, toInt_setWidth]
    simp only [Int.bmod_def]
    omega
  rw [BitVec.signExtend, hdifference]
  apply eq_of_toNat_eq
  rw [toNat_add, toNat_ofInt]
  omega

theorem readPair_pair {last current : LOCPair} (hle : last.first ≤ current.first)
    (hlast : last.second.toNat < 2 ^ 31) (hfirst : current.first.toNat < 2 ^ 31)
    (hsecond : current.second.toNat < 2 ^ 31) :
    readPair last (encodeULEB128 ((current.first - last.first).setWidth 32) ++
      (encodeSLEB128 (current.second.setWidth 32 - last.second.setWidth 32) ++ rest)) =
        some (some current, rest) := by
  obtain ⟨hdelta, hadd⟩ := first_of_difference hle hfirst
  rw [readPair, decodeULEB128_encodeULEB128, Option.bind_some]
  simp only [if_neg hdelta, decodeSLEB128_encodeSLEB128, Option.map_some, hadd,
    second_of_difference hlast hsecond]

theorem decodePairs_succ {bytes : List (BitVec 8)} (hbytes : bytes ≠ []) (rounds : Nat)
    {last : LOCPair} {read : Option LOCPair} (hread : readPair last bytes = some (read, rest)) :
    decodePairs (rounds + 1) bytes last =
      (decodePairs rounds rest (read.getD last)).map (read.toList ++ ·) := by
  obtain ⟨byte, bytes, rfl⟩ := exists_cons_of_ne_nil hbytes
  rw [decodePairs, hread]
  cases read with
  | none => exact (Option.map_id' ..).symm
  | some current => rfl

theorem length_encodeULEB128 : 0 < (encodeULEB128 value).length := by
  rw [encodeULEB128, encodeGroups]
  split <;> exact Nat.succ_pos _

theorem decodePairs_compress : ∀ (pairs : List LOCPair) (last : LOCPair) (rounds : Nat),
    last.second.toNat < 2 ^ 31 → (∀ pair ∈ pairs, pair.Fits ∧ last.first ≤ pair.first) →
    pairs.Pairwise (·.first ≤ ·.first) → (compress last pairs).length ≤ rounds →
    decodePairs rounds (compress last pairs) last = some (pairs.filter (!·.isSentinel)) := by
  intro pairs
  induction pairs with
  | nil =>
    intro last rounds _ _ _ _
    cases rounds <;> rfl
  | cons current pairs ih =>
    intro last rounds hlast hpairs hsorted hrounds
    obtain ⟨hcurrent, hpairs⟩ := forall_mem_cons.mp hpairs
    obtain ⟨hbefore, hsorted⟩ := pairwise_cons.mp hsorted
    rw [compress] at hrounds ⊢
    by_cases hsentinel : current.isSentinel = true
    · have hpos := length_encodeULEB128 0xFFFFFFFF
      rw [if_pos hsentinel] at hrounds ⊢
      rw [length_append] at hrounds
      obtain ⟨rounds, rfl⟩ := Nat.exists_eq_succ_of_ne_zero (show rounds ≠ 0 by omega)
      rw [decodePairs_succ _ (append_ne_nil_of_left_ne_nil
        (ne_nil_of_length_pos hpos) _) rounds (readPair_sentinel ..), Option.getD_none,
        ih last rounds hlast hpairs hsorted (by omega), filter_cons_of_neg (by simp [hsentinel])]
      rfl
    · have hpos := length_encodeULEB128 ((current.first - last.first).setWidth 32)
      obtain ⟨⟨hfirst, hsecond⟩, hle⟩ :=
        And.imp_left (· (Bool.not_eq_true _ ▸ hsentinel)) hcurrent
      rw [if_neg hsentinel] at hrounds ⊢
      rw [length_append, length_append] at hrounds
      obtain ⟨rounds, rfl⟩ := Nat.exists_eq_succ_of_ne_zero (show rounds ≠ 0 by omega)
      rw [decodePairs_succ _ (append_ne_nil_of_left_ne_nil
        (ne_nil_of_length_pos hpos) _) rounds (readPair_pair _ hle hlast hfirst hsecond),
        Option.getD_some, ih current rounds hsecond
          (fun pair hpair => ⟨(hpairs pair hpair).1, hbefore pair hpair⟩) hsorted (by omega),
        filter_cons_of_pos (by simp [hsentinel])]
      rfl

/-- The choice of the search among the pairs that are left: `index` and `bestSource`. -/
def choose (codePosition : BitVec 64) : BitVec 64 → List LOCPair → BitVec 64 × BitVec 64
  | bestSource, [] => (sizeMax, bestSource)
  | bestSource, current :: pairs =>
    if current.first = codePosition then (current.second, bestSource)
    else if current.first < codePosition then choose codePosition current.second pairs
    else (bestSource, bestSource)

variable (codePosition : BitVec 64)

theorem search_eq : ∀ (rounds : Nat) (bytes : List (BitVec 8))
    (last : LOCPair) (bestSource : BitVec 64) (pairs : List LOCPair),
    decodePairs rounds bytes last = some pairs →
    search codePosition rounds bytes last bestSource =
      some (choose codePosition bestSource pairs) := by
  intro rounds
  induction rounds with
  | zero =>
    intro bytes last bestSource pairs h
    cases bytes with
    | nil =>
      cases h
      rfl
    | cons byte bytes => cases h
  | succ rounds ih =>
    intro bytes last bestSource pairs h
    cases bytes with
    | nil =>
      cases h
      rfl
    | cons byte bytes =>
      obtain ⟨⟨read, rest⟩, hread, h⟩ := Option.bind_eq_some_iff.mp h
      rw [search, hread, Option.bind_some]
      cases read with
      | none => exact ih rest last bestSource pairs h
      | some current =>
        obtain ⟨tail, htail, rfl⟩ := Option.map_eq_some_iff.mp h
        dsimp only
        rw [choose, ih rest current current.second tail htail, ← apply_ite some, ← apply_ite some]

/-- `index` stands for the pair of greatest position not above a code position, and for
`none` where no pair is that low. -/
def Selects (pairs : List LOCPair) (codePosition none index : BitVec 64) : Prop :=
  (∀ pair ∈ pairs, codePosition < pair.first) ∧ index = none ∨
    ∃ pair ∈ pairs, pair.first ≤ codePosition ∧ pair.second = index ∧
      ∀ other ∈ pairs, other.first ≤ codePosition → other.first ≤ pair.first

theorem choose_selects : ∀ (pairs : List LOCPair)
    (bestSource : BitVec 64), (∀ pair ∈ pairs, pair.isSentinel = false) →
    pairs.Pairwise (·.first ≤ ·.first) →
    Selects pairs codePosition bestSource (foundIndex (choose codePosition bestSource pairs)) := by
  intro pairs
  induction pairs with
  | nil =>
    intro bestSource _ _
    refine .inl ⟨fun _ h => absurd h not_mem_nil, ?_⟩
    simp only [foundIndex, choose, true_and, ite_not, ite_eq_right_iff]
    exact Eq.symm
  | cons current pairs ih =>
    intro bestSource hproper hsorted
    obtain ⟨hcurrent, hproper⟩ := forall_mem_cons.mp hproper
    obtain ⟨hbefore, hsorted⟩ := pairwise_cons.mp hsorted
    have hsource : current.second ≠ sizeMax := fun h => by simp [LOCPair.isSentinel, h] at hcurrent
    rw [choose]
    by_cases hhere : current.first = codePosition
    · rw [if_pos hhere, foundIndex, if_neg fun h => hsource h.1]
      exact .inr ⟨current, mem_cons_self, hhere ▸ BitVec.le_refl _, rfl,
        fun other _ h => hhere ▸ h⟩
    · rw [if_neg hhere]
      by_cases hbelow : current.first < codePosition
      · rw [if_pos hbelow]
        obtain ⟨habove, hindex⟩ | ⟨pair, hpair, hle, hindex, hgreatest⟩ :=
          ih current.second hproper hsorted
        · refine .inr ⟨current, mem_cons_self, BitVec.le_of_lt hbelow, hindex.symm, ?_⟩
          refine forall_mem_cons.mpr ⟨fun _ => BitVec.le_refl _, fun other hother hle => ?_⟩
          exact absurd (habove other hother) (BitVec.not_lt.mpr hle)
        · refine .inr ⟨pair, mem_cons_of_mem _ hpair, hle, hindex, ?_⟩
          exact forall_mem_cons.mpr ⟨fun _ => hbefore pair hpair, hgreatest⟩
      · rw [if_neg hbelow, foundIndex, ite_self]
        have habove : codePosition < current.first :=
          BitVec.lt_of_le_ne (BitVec.not_lt.mp hbelow) (Ne.symm hhere)
        refine .inl ⟨forall_mem_cons.mpr ⟨habove, fun other hother => ?_⟩, rfl⟩
        exact Nat.lt_of_lt_of_le habove (hbefore other hother)

/-- What `std::sort` by position does. -/
structure SortsByPosition : Prop where
  perm : ∀ pairs, (sort pairs).Perm pairs
  sorted : ∀ pairs, (sort pairs).Pairwise (·.first ≤ ·.first)

def ByteCodeBlock.places : List LOCPair :=
  (sort (fillLOCData block.srcLength block.collected)).filter (!·.isSentinel)

/-- What the location data of a block is good for: the two number formats and the pairs are
read back, and a position has the place of the greatest pair not above it. -/
structure Locates : Prop where
  unsigned : ∀ (value : BitVec 32) (rest : List (BitVec 8)),
    decodeULEB128 (encodeULEB128 value ++ rest) = some (value, rest)
  signed : ∀ (value : BitVec 32) (rest : List (BitVec 8)),
    decodeSLEB128 (encodeSLEB128 value ++ rest) = some (value, rest)
  decoded : decodePairs (block.compressed sort).length (block.compressed sort) ⟨0, 0⟩ =
    some (block.places sort)
  placed : block.srcLength ≠ 0 →
    (block.places sort).Perm (block.collected.filter (!·.isSentinel))
  nowhere : computeNodeLOCFromByteCode sort computeNodeLOC block sizeMax =
    some (noLocation, block)
  located : ∀ codePosition ≠ sizeMax, ∃ index,
    Selects (block.places sort) codePosition sizeMax index ∧
      computeNodeLOCFromByteCode sort computeNodeLOC block codePosition =
        some (if index = sizeMax then noLocation
          else { computeNodeLOC (index - block.functionStart.index) with index := index },
          { block with locData := some (block.compressed sort) })

variable {sort computeNodeLOC block}

theorem compressed_ne_nil (hsort : SortsByPosition sort) : block.compressed sort ≠ [] := by
  have hlength : 0 < (sort (fillLOCData block.srcLength block.collected)).length := by
    rw [(hsort.perm _).length_eq, fillLOCData]
    split <;> simp
  obtain ⟨pair, pairs, hpairs⟩ := exists_cons_of_length_pos hlength
  rw [ByteCodeBlock.compressed, hpairs, compress]
  have hbytes : ∀ value, encodeULEB128 value ≠ [] := fun value =>
    ne_nil_of_length_pos (length_encodeULEB128 value)
  split <;> exact append_ne_nil_of_left_ne_nil (hbytes _) _

theorem fits_fillLOCData (hcollected : ∀ pair ∈ block.collected, pair.Fits) :
    ∀ pair ∈ fillLOCData block.srcLength block.collected, pair.Fits := by
  have hlast : LOCPair.Fits ⟨sizeMax, sizeMax⟩ := fun h => absurd h (by decide)
  rw [fillLOCData]
  split
  · simpa using hlast
  · simpa [or_imp, forall_and] using ⟨hcollected, hlast⟩

/-- Every list that a block can collect serves every position, on the first use and later. -/
theorem locates (hsort : SortsByPosition sort) (hcollected : ∀ pair ∈ block.collected, pair.Fits)
    (hdata : block.locData.getD (block.compressed sort) = block.compressed sort) :
    Locates sort computeNodeLOC block := by
  have hdecoded : decodePairs (block.compressed sort).length (block.compressed sort) ⟨0, 0⟩ =
      some (block.places sort) := by
    apply decodePairs_compress _ _ _ (by decide) _ (hsort.sorted _) le_rfl
    intro pair hpair
    have hmem := (hsort.perm _).mem_iff.mp hpair
    exact ⟨fits_fillLOCData hcollected pair hmem, Nat.zero_le _⟩
  refine ⟨decodeULEB128_encodeULEB128, decodeSLEB128_encodeSLEB128, hdecoded,
    fun hlength => ?_, if_pos rfl, ?_⟩
  · simpa [ByteCodeBlock.places, fillLOCData, hlength, LOCPair.isSentinel] using
      (hsort.perm (fillLOCData block.srcLength block.collected)).filter (!·.isSentinel)
  intro codePosition hposition
  have hproper : ∀ pair ∈ block.places sort, pair.isSentinel = false := by
    intro pair hpair
    exact Bool.not_eq_true' _ ▸ (mem_filter.mp hpair).2
  have hselects := choose_selects codePosition (block.places sort) sizeMax hproper
    ((hsort.sorted _).filter _)
  refine ⟨_, hselects, ?_⟩
  simp only [computeNodeLOCFromByteCode, if_neg hposition, hdata, search_eq _ _ _ _ _ _ hdecoded,
    Option.map_some, locationAt, compressed_ne_nil hsort, ne_eq, not_false_eq_true, and_true]
  split <;> rfl

def twoPlaces : ByteCodeBlock where
  srcLength := 20
  collected := [⟨9, 4⟩, ⟨3, 700⟩, ⟨5, sizeMax⟩]
  functionStart := ⟨1, 1, 0⟩
  locData := none

theorem sortsByPosition_mergeSort : SortsByPosition (·.mergeSort fun a b => a.first ≤ b.first) where
  perm pairs := mergeSort_perm pairs _
  sorted pairs := by
    have hsorted := @List.pairwise_mergeSort _ (fun a b : LOCPair => a.first ≤ b.first)
      (fun a b c => by simpa using BitVec.le_trans) (fun a b => by simpa using BitVec.le_total _ _)
      pairs
    exact hsorted.imp of_decide_eq_true

theorem twoPlaces_locates : Locates (·.mergeSort fun a b => a.first ≤ b.first)
    (fun index => ⟨1, index, index⟩) twoPlaces :=
  locates sortsByPosition_mergeSort (by unfold LOCPair.Fits; decide) rfl

end Escargot.Interpreter.LocationData
