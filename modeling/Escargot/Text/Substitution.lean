/-
# String.getSubstitution

The replacement template of `replace` is scanned with an index, and `$` sequences
are expanded. A named group is looked up in the groups object, which may be made by
a script: the lookup changes the state and may throw. `GetSubstitution` of
ECMAScript takes the template apart from the front.
-/

import Escargot.Runtime.RopeString
import Escargot.Text.DecimalIndex

namespace Escargot.Runtime

open List

/-- What ends the expansion: the limit of a string, `null` as the groups, or an exception of the
script. -/
inductive SubstitutionError (ε : Type)
  | rangeError
  | typeError
  | thrown (exception : ε)

/-- A string of the engine. -/
abbrev BoundedText := {text : List UInt16 // text.length ≤ stringMaximumLength}

inductive GroupReceiver
  | zero
  | groups
  deriving DecidableEq

/-- The groups object: what `Get` and then `ToString` do with a name, and `none` for undefined. -/
structure Groups (ε σ : Type) where
  get : List UInt16 → GroupReceiver → EStateM (SubstitutionError ε) σ (Option BoundedText)

/-- The value of `groups` of a match. -/
inductive NamedCapture (ε σ : Type)
  | undefined
  | null
  | object (groups : Groups ε σ)

/-- `Value::toObject` of a value that is not undefined. -/
def NamedCapture.toObject {ε σ : Type} :
    NamedCapture ε σ → EStateM (SubstitutionError ε) σ (Option (Groups ε σ))
  | undefined => pure none
  | null => throw .typeError
  | object groups => pure (some groups)

/-- The match that is replaced. Captures that did not take part are empty. -/
structure Match where
  matched : List UInt16
  str : List UInt16
  position : Nat
  position_le : position ≤ str.length
  captures : List (List UInt16)
  captures_size : captures.length < 2 ^ 64

def captureText (capture : Option BoundedText) : List UInt16 :=
  match capture with
  | none => []
  | some text => text.val

section Expansion

variable {ε σ : Type}

def appendText (builder piece : List UInt16) : EStateM (SubstitutionError ε) σ (List UInt16) :=
  if builder.length + piece.length > stringMaximumLength then throw .rangeError
  else pure (builder ++ piece)

/-- A difference that is stored in a `size_t`. -/
def toSizeT (n : Int) : Nat := (n % 2 ^ 64).toNat

/-- The index of the capture after `$` and whether it has two digits. -/
def captureIndex (m : Nat) (replacement : List UInt16) (i : Nat) : Nat × Bool :=
  let temp := replacement.getD (i + 1) 0
  let n := toSizeT ((temp.toNat : Int) - 0x30 - 1)
  let temp1 := replacement.getD (i + 2) 0
  if i + 2 < replacement.length ∧ isDigit temp1 then
    let both := toSizeT ((toSizeT ((n : Int) + 1) * 10 : Int) + (temp1.toNat - 0x30 - 1))
    if both ≥ m then (n, false) else (both, true)
  else (n, false)

def groupEnd (replacement : List UInt16) (namedCaptureEnd : Nat) : Option Nat :=
  if namedCaptureEnd < replacement.length then
    if replacement.getD namedCaptureEnd 0 = 0x3E then some namedCaptureEnd
    else groupEnd replacement (namedCaptureEnd + 1)
  else none
termination_by replacement.length - namedCaptureEnd

def substring (text : List UInt16) (start stop : Nat) : List UInt16 :=
  (text.drop start).take (stop - start)

variable (call : Match) (namedCapture : NamedCapture ε σ) (replacement : List UInt16)

/-- The end of the branch for digits: by how much `i` grows before the increment of the loop, and
the builder. -/
def expandCapture (temp : UInt16) (builder : List UInt16) (index : Nat × Bool) :
    EStateM (SubstitutionError ε) σ (Nat × List UInt16) :=
  if index.1 < call.captures.length then do
    let builder ← appendText builder (call.captures.getD index.1 [])
    return (if index.2 then 2 else 1, builder)
  else do return (1, ← appendText (← appendText builder [0x24]) [temp])

variable (groups : Option (Groups ε σ))

/-- The branches after a `$` that is not the last character: by how much `i` grows before the
increment of the loop, and the builder. -/
def expandDollar (replacement : List UInt16) (i : Nat)
    (builder : List UInt16) : EStateM (SubstitutionError ε) σ (Nat × List UInt16) :=
  let temp := replacement.getD (i + 1) 0
  if temp = 0x24 then do return (1, ← appendText builder [0x24])
  else if temp = 0x26 then do return (1, ← appendText builder call.matched)
  else if temp = 0x60 then do return (1, ← appendText builder (call.str.take call.position))
  else if temp = 0x27 then do
    let tailPos := min (call.position + call.matched.length) call.str.length
    return (1, ← appendText builder (call.str.drop tailPos))
  else if isDigit temp then
    expandCapture call temp builder (captureIndex call.captures.length replacement i)
  else
    match groups with
    | some groups =>
      if temp = 0x3C then
        match groupEnd replacement (i + 1) with
        | some namedCaptureEnd => do
            let capture ← groups.get (substring replacement (i + 2) namedCaptureEnd) .zero
            return (namedCaptureEnd - i, ← appendText builder (captureText capture))
        | none => do return (1, ← appendText (← appendText builder [0x24]) [temp])
      else do return (1, ← appendText (← appendText builder [0x24]) [temp])
    | none => do return (1, ← appendText (← appendText builder [0x24]) [temp])

/-- The loop of `getSubstitution`. -/
def dollarReplace (call : Match) (groups : Option (Groups ε σ)) (replacement : List UInt16) (i : Nat)
    (builder : List UInt16) : EStateM (SubstitutionError ε) σ (List UInt16) :=
  if i < replacement.length then
    if replacement.getD i 0 = 0x24 ∧ i + 1 < replacement.length then do
      let result ← expandDollar call groups replacement i builder
      dollarReplace call groups replacement (i + result.1 + 1) result.2
    else do
      let builder ← appendText builder [replacement.getD i 0]
      dollarReplace call groups replacement (i + 1) builder
  else pure builder
termination_by replacement.length - i

def getSubstitution : EStateM (SubstitutionError ε) σ (List UInt16) := do
  let groups ← namedCapture.toObject
  dollarReplace call groups replacement 0 []

/-- The part of `GetSubstitution` on digits: the length of the reference and its replacement. -/
def specCapture (first : UInt16) (rest : List UInt16) : Nat × List UInt16 :=
  let replaced := fun (digits : List UInt16) (index : Nat) =>
    if 1 ≤ index ∧ index ≤ call.captures.length then call.captures.getD (index - 1) []
    else 0x24 :: digits
  match rest with
  | [] => (2, replaced [first] (digitValue first))
  | second :: _ =>
    let index := 10 * digitValue first + digitValue second
    if isDigit second ∧ index ≤ call.captures.length then (3, replaced [first, second] index)
    else (2, replaced [first] (digitValue first))

/-- The reference at the start of the remaining template: its length and its replacement. -/
def specReference (c : UInt16) (rest : List UInt16) :
    EStateM (SubstitutionError ε) σ (Nat × List UInt16) :=
  if c = 0x24 then
    match rest with
    | [] => pure (1, [0x24])
    | temp :: rest =>
      if temp = 0x24 then pure (2, [0x24])
      else if temp = 0x60 then pure (2, call.str.take call.position)
      else if temp = 0x26 then pure (2, call.matched)
      else if temp = 0x27 then
        pure (2, call.str.drop (min (call.position + call.matched.length) call.str.length))
      else if isDigit temp then pure (specCapture call temp rest)
      else if temp = 0x3C then
        match groups, rest.findIdx? (· = 0x3E) with
        | some groups, some gtPos => do
            let capture ← groups.get (rest.take gtPos) .groups
            return (gtPos + 3, captureText capture)
        | _, _ => pure (2, [0x24, 0x3C])
      else pure (1, [0x24])
  else pure (1, [c])

/-- The loop of `GetSubstitution` over the remaining template. -/
def specSubstitution (call : Match) (groups : Option (Groups ε σ)) :
    List UInt16 → List UInt16 → EStateM (SubstitutionError ε) σ (List UInt16)
  | [], result => pure result
  | c :: rest, result => do
      let reference ← specReference call groups c rest
      let result ← appendText result reference.2
      specSubstitution call groups (rest.drop (reference.1 - 1)) result
termination_by template => template.length
decreasing_by
  rw [length_drop, length_cons]
  omega

def specGetSubstitution : EStateM (SubstitutionError ε) σ (List UInt16) := do
  let groups ← namedCapture.toObject
  specSubstitution call groups replacement []

/-- Two groups objects give the same texts, the first for the receiver of the code. -/
def Groups.ReadsAs (code spec : Groups ε σ) : Prop :=
  ∀ name, 0x3E ∉ name → captureText <$> code.get name .zero = captureText <$> spec.get name .groups

def Groups.asRead (groups : Groups ε σ) : Groups ε σ := ⟨fun name _ => groups.get name .zero⟩

inductive ReadsAs : Option (Groups ε σ) → Option (Groups ε σ) → Prop
  | none : ReadsAs none none
  | some {code spec : Groups ε σ} (h : code.ReadsAs spec) : ReadsAs (some code) (some spec)

section Scanning

variable {call : Match} {groups spec : Option (Groups ε σ)} {replacement rest builder : List UInt16}
  {c temp first : UInt16} {i : Nat}

theorem drop_eq_cons (h : i < replacement.length) :
    replacement.drop i = replacement.getD i 0 :: replacement.drop (i + 1) := by
  rw [drop_eq_getElem_cons h, getD_eq_getElem _ _ h]

theorem appendText_append (builder first second : List UInt16) :
    (appendText builder (first ++ second) : EStateM (SubstitutionError ε) σ _) =
      appendText builder first >>= fun builder => appendText builder second := by
  unfold appendText
  rw [length_append]
  by_cases hfirst : builder.length + first.length > stringMaximumLength
  · rw [if_pos hfirst, if_pos (by omega)]
    rfl
  · rw [if_neg hfirst, pure_bind, length_append, append_assoc, Nat.add_assoc]

theorem appendText_nil (text : BoundedText) :
    (appendText [] text.val : EStateM (SubstitutionError ε) σ _) = pure text.val := by
  rw [appendText, if_neg, nil_append]
  rw [length_nil]
  omega

theorem specSubstitution_literal (h : c ≠ 0x24) : specSubstitution call groups (c :: rest) builder =
      appendText builder [c] >>= specSubstitution call groups rest := by
  rw [specSubstitution, specReference.eq_def, if_neg h, pure_bind]
  rfl

theorem groupEnd_eq (i : Nat) : groupEnd replacement i =
      ((replacement.drop i).findIdx? (fun c => decide (c = 0x3E))).map (i + ·) := by
  fun_induction groupEnd replacement i with
  | case1 i hlt hend =>
    rw [drop_eq_cons hlt, findIdx?_cons, hend]
    rfl
  | case2 i hlt hend ih =>
    rw [ih, drop_eq_cons hlt, findIdx?_cons, decide_eq_false hend,
      if_neg Bool.false_ne_true, Option.map_map]
    congr 1
    funext k
    show i + 1 + k = i + (k + 1)
    omega
  | case3 i hlt =>
    rw [drop_of_length_le (Nat.not_lt.mp hlt)]
    rfl

theorem ne_dollar_of_isDigit (h : isDigit c = true) : c ≠ 0x24 := by
  rintro rfl
  exact absurd h (by decide)

theorem toSizeT_sub_one {n : Nat} (h : n < 2 ^ 64) :
    toSizeT ((n : Int) - 1) = if n = 0 then 2 ^ 64 - 1 else n - 1 := by
  rw [toSizeT]
  split <;> omega

theorem captureIndex_eq {m index : Nat} (hm : m < 2 ^ 64)
    (hfirst : isDigit (replacement.getD (i + 1) 0) = true)
    (hindex : index = 10 * digitValue (replacement.getD (i + 1) 0) +
      digitValue (replacement.getD (i + 2) 0)) :
    captureIndex m replacement i =
      if (i + 2 < replacement.length ∧ isDigit (replacement.getD (i + 2) 0) = true) ∧
          1 ≤ index ∧ index ≤ m
      then (index - 1, true)
      else (toSizeT ((digitValue (replacement.getD (i + 1) 0) : Int) - 1), false) := by
  have hfirst := isDigit_iff.mp hfirst
  have hone : ((replacement.getD (i + 1) 0).toNat : Int) - 0x30 - 1 =
      (digitValue (replacement.getD (i + 1) 0) : Int) - 1 := by
    rw [digitValue]
    omega
  rw [captureIndex]
  rw [hone]
  by_cases htwo : i + 2 < replacement.length ∧ isDigit (replacement.getD (i + 2) 0) = true
  · have hsecond := isDigit_iff.mp htwo.2
    have hboth : toSizeT ((toSizeT ((toSizeT
          ((digitValue (replacement.getD (i + 1) 0) : Int) - 1) : Int) + 1) * 10 : Int) +
          ((replacement.getD (i + 2) 0).toNat - 0x30 - 1)) = toSizeT ((index : Int) - 1) := by
      rw [hindex, toSizeT, toSizeT, toSizeT, toSizeT, digitValue, digitValue]
      omega
    have hlt : index < 2 ^ 64 := by
      rw [hindex, digitValue, digitValue]
      omega
    rw [if_pos htwo, hboth, toSizeT_sub_one hlt]
    by_cases hzero : index = 0
    · have hnot : ¬ ((i + 2 < replacement.length ∧ isDigit (replacement.getD (i + 2) 0) = true) ∧
          1 ≤ index ∧ index ≤ m) := by
        rintro ⟨-, hpos, -⟩
        exact Nat.ne_of_gt hpos hzero
      rw [if_pos hzero, if_pos (Nat.le_sub_one_of_lt hm), if_neg hnot]
    · rw [if_neg hzero]
      by_cases hle : index ≤ m
      · rw [if_neg (show ¬ index - 1 ≥ m by omega), if_pos ⟨htwo, by omega, hle⟩]
      · rw [if_pos (show index - 1 ≥ m by omega), if_neg fun h => hle h.2.2]
  · rw [if_neg htwo, if_neg fun h => htwo h.1]

theorem expandCapture_lt {index : Nat × Bool} (h : index.1 < call.captures.length) :
    (expandCapture call temp builder index >>= fun result =>
        specSubstitution call groups (replacement.drop (i + result.1 + 1)) result.2) =
      appendText builder (call.captures.getD index.1 []) >>=
        specSubstitution call groups (replacement.drop (i + if index.2 then 3 else 2)) := by
  rw [expandCapture, if_pos h]
  simp only [bind_assoc, pure_bind]
  cases index.2 <;> rfl

theorem expandCapture_ge {index : Nat × Bool} (h : ¬ index.1 < call.captures.length) :
    (expandCapture call temp builder index >>= fun result =>
        specSubstitution call groups (replacement.drop (i + result.1 + 1)) result.2) =
      appendText builder [0x24, temp] >>=
        specSubstitution call groups (replacement.drop (i + 2)) := by
  rw [expandCapture, if_neg h, show ([0x24, temp] : List UInt16) = [0x24] ++ [temp] from rfl,
    appendText_append]
  simp only [bind_assoc, pure_bind]

theorem expandCapture_one (htemp : isDigit temp = true) :
    (expandCapture call temp builder (toSizeT ((digitValue temp : Int) - 1), false) >>=
        fun result => specSubstitution call groups (replacement.drop (i + result.1 + 1)) result.2) =
      appendText builder
          (if 1 ≤ digitValue temp ∧ digitValue temp ≤ call.captures.length then
            call.captures.getD (digitValue temp - 1) [] else [0x24, temp]) >>=
        specSubstitution call groups (replacement.drop (i + 2)) := by
  have hrange := isDigit_iff.mp htemp
  have hsize := call.captures_size
  have hlt : digitValue temp < 2 ^ 64 := by
    rw [digitValue]
    omega
  have hindex := toSizeT_sub_one hlt
  by_cases h : 1 ≤ digitValue temp ∧ digitValue temp ≤ call.captures.length
  · rw [if_neg (show ¬ digitValue temp = 0 by omega)] at hindex
    rw [hindex, expandCapture_lt (show digitValue temp - 1 < call.captures.length by omega), if_pos h]
    rfl
  · rw [expandCapture_ge, if_neg h]
    rw [hindex]
    split <;> omega

theorem expandCapture_eq (hfirst : isDigit (replacement.getD (i + 1) 0) = true) :
    (expandCapture call (replacement.getD (i + 1) 0) builder
        (captureIndex call.captures.length replacement i) >>= fun result =>
          specSubstitution call groups (replacement.drop (i + result.1 + 1)) result.2) =
      appendText builder
          (specCapture call (replacement.getD (i + 1) 0) (replacement.drop (i + 2))).2 >>=
        specSubstitution call groups (replacement.drop (i +
          (specCapture call (replacement.getD (i + 1) 0) (replacement.drop (i + 2))).1)) := by
  rw [captureIndex_eq call.captures_size hfirst rfl]
  generalize replacement.getD (i + 1) 0 = first at hfirst ⊢
  by_cases hend : i + 2 < replacement.length
  · have hdrop := drop_eq_cons hend
    generalize replacement.getD (i + 2) 0 = second at hdrop ⊢
    rw [hdrop, specCapture]
    dsimp only
    by_cases htwo : isDigit second = true ∧
        10 * digitValue first + digitValue second ≤ call.captures.length
    · rw [if_pos htwo]
      by_cases hpos : 1 ≤ 10 * digitValue first + digitValue second
      · rw [if_pos ⟨⟨hend, htwo.1⟩, hpos, htwo.2⟩, expandCapture_lt]
        · rw [if_pos (show 1 ≤ 10 * digitValue first + digitValue second ∧
            10 * digitValue first + digitValue second ≤ call.captures.length from ⟨hpos, htwo.2⟩)]
          rfl
        · show 10 * digitValue first + digitValue second - 1 < _
          omega
      · -- the index is zero, and the second digit is copied on its own
        rw [if_neg fun h => hpos h.2.1, expandCapture_one hfirst,
          if_neg (show ¬ (1 ≤ digitValue first ∧ _) by omega), if_neg fun h => hpos h.1, hdrop,
          show ([0x24, first, second] : List UInt16) = [0x24, first] ++ [second] from rfl,
          appendText_append, bind_assoc]
        congr 1
        funext builder
        exact specSubstitution_literal (ne_dollar_of_isDigit htwo.1)
    · rw [if_neg htwo, if_neg fun h => htwo ⟨h.1.2, h.2.2⟩, expandCapture_one hfirst, hdrop]
  · rw [if_neg fun h => hend h.1.1, expandCapture_one hfirst,
      drop_of_length_le (Nat.not_lt.mp hend), specCapture, drop_of_length_le (Nat.not_lt.mp hend)]

/-- A `$` that starts no reference is copied, and then the character after it. -/
theorem copied_eq (htemp : temp ≠ 0x24) :
    ((do return (1, ← appendText (← appendText builder [0x24]) [temp]) :
        EStateM (SubstitutionError ε) σ (Nat × List UInt16)) >>= fun result =>
          specSubstitution call groups ((temp :: rest).drop result.1) result.2) =
      appendText builder [0x24] >>= specSubstitution call groups (temp :: rest) := by
  simp only [bind_assoc, pure_bind]
  congr 1
  funext builder
  exact (specSubstitution_literal htemp).symm

theorem copied_pair :
    ((do return (1, ← appendText (← appendText builder [0x24]) [temp]) :
        EStateM (SubstitutionError ε) σ (Nat × List UInt16)) >>= fun result =>
          specSubstitution call groups ((temp :: rest).drop result.1) result.2) =
      appendText builder [0x24, temp] >>= specSubstitution call groups rest := by
  rw [show ([0x24, temp] : List UInt16) = [0x24] ++ [temp] from rfl, appendText_append]
  simp only [bind_assoc, pure_bind]
  rfl

theorem two_le_specCapture (call : Match) (first : UInt16) (rest : List UInt16) :
    2 ≤ (specCapture call first rest).1 := by
  cases rest with
  | nil => exact Nat.le_refl 2
  | cons second rest =>
    rw [specCapture]
    split
    · exact Nat.le_succ 2
    · exact Nat.le_refl 2

theorem groupName_spec {code spec : Groups ε σ} (h : code.ReadsAs spec) {gtPos : Nat}
    (hgt : rest.findIdx? (fun c => decide (c = 0x3E)) = some gtPos) :
    captureText <$> code.get (rest.take gtPos) .zero =
      captureText <$> spec.get (rest.take gtPos) .groups := by
  refine h _ fun hmem => ?_
  obtain ⟨k, hk, hvalue⟩ := getElem_of_mem hmem
  obtain ⟨_, _, hbefore⟩ := List.findIdx?_eq_some_iff_getElem.mp hgt
  rw [length_take] at hk
  rw [getElem_take] at hvalue
  have hfree := hbefore k (by omega)
  rw [hvalue] at hfree
  exact hfree (by decide)

theorem expandDollar_eq (h : ReadsAs groups spec) (hi : i + 1 < replacement.length)
    (hdollar : replacement.getD i 0 = 0x24) :
    (expandDollar call groups replacement i builder >>= fun result =>
        specSubstitution call spec (replacement.drop (i + result.1 + 1)) result.2) =
      specSubstitution call spec (replacement.drop i) builder := by
  have hrest : replacement.drop (i + 1) = replacement.getD (i + 1) 0 :: replacement.drop (i + 2) :=
    drop_eq_cons hi
  have hdigits := @expandCapture_eq ε σ call spec replacement builder i
  have hshift : ∀ result : Nat × List UInt16,
      replacement.drop (i + result.1 + 1) = (replacement.drop (i + 1)).drop result.1 := by
    intro result
    rw [drop_drop, Nat.add_right_comm]
  have hend := @groupEnd_eq replacement (i + 1)
  have hname : ∀ gtPos, substring replacement (i + 2) (i + 2 + gtPos) =
      (replacement.drop (i + 2)).take gtPos := by
    intro gtPos
    rw [substring, Nat.add_sub_cancel_left]
  rw [drop_eq_cons (show i < replacement.length by omega), hdollar, hrest, specSubstitution,
    expandDollar.eq_def]
  simp only [hshift]
  rw [hrest] at hend ⊢
  generalize replacement.getD (i + 1) 0 = temp at hrest hdigits hend ⊢
  rw [specReference.eq_def, if_pos rfl]
  dsimp only
  by_cases h24 : temp = 0x24
  · rw [if_pos h24, if_pos h24]
    simp only [bind_assoc, pure_bind]
  rw [if_neg h24, if_neg h24]
  by_cases h26 : temp = 0x26
  · rw [if_pos h26, if_neg (by rw [h26]; decide), if_pos h26]
    simp only [bind_assoc, pure_bind]
  rw [if_neg h26]
  by_cases h60 : temp = 0x60
  · rw [if_pos h60, if_pos h60]
    simp only [bind_assoc, pure_bind]
  rw [if_neg h60, if_neg h60, if_neg h26]
  by_cases h27 : temp = 0x27
  · rw [if_pos h27, if_pos h27]
    simp only [bind_assoc, pure_bind]
  rw [if_neg h27, if_neg h27]
  by_cases hdigit : isDigit temp = true
  · have hlength := two_le_specCapture call temp (replacement.drop (i + 2))
    have hlast : replacement.drop (i + (specCapture call temp (replacement.drop (i + 2))).1) =
        (replacement.drop (i + 1)).drop
          ((specCapture call temp (replacement.drop (i + 2))).1 - 1) := by
      rw [drop_drop]
      congr 1
      omega
    have hdigits := hdigits hdigit
    simp only [hshift] at hdigits
    rw [hlast, hrest] at hdigits
    rw [if_pos hdigit, if_pos hdigit, hdigits, pure_bind]
  rw [if_neg hdigit, if_neg hdigit]
  cases h with
  | none =>
    by_cases h3C : temp = 0x3C
    · rw [if_pos h3C]
      refine copied_pair.trans ?_
      rw [h3C]
      rfl
    · rw [if_neg h3C, pure_bind]
      exact copied_eq h24
  | @some code spec h =>
    dsimp only
    by_cases h3C : temp = 0x3C
    · rw [if_pos h3C, if_pos h3C, hend, findIdx?_cons, h3C, if_neg (by decide), Option.map_map]
      cases hgt : (replacement.drop (i + 2)).findIdx? (fun c => decide (c = 0x3E)) with
      | none =>
        refine copied_pair.trans ?_
        rfl
      | some gtPos =>
        have hread := groupName_spec h hgt
        -- both look the name up and then append the text
        have hlookup : ∀ lookup : EStateM (SubstitutionError ε) σ (Option BoundedText),
            (lookup >>= fun capture => appendText builder (captureText capture) >>=
              specSubstitution call (some spec)
                ((0x3C :: replacement.drop (i + 2)).drop (gtPos + 2))) =
            captureText <$> lookup >>= fun text => appendText builder text >>=
              specSubstitution call (some spec)
                ((0x3C :: replacement.drop (i + 2)).drop (gtPos + 2)) := by
          intro lookup
          rw [map_eq_bind_pure_comp]
          simp only [bind_assoc, Function.comp, pure_bind]
        have hstop : i + 1 + (gtPos + 1) = i + 2 + gtPos := by omega
        have hgrow : ((fun k => i + 1 + k) ∘ fun k => k + 1) gtPos - i = gtPos + 2 := by
          show i + 1 + (gtPos + 1) - i = gtPos + 2
          omega
        show (code.get (substring replacement (i + 2) (i + 1 + (gtPos + 1))) .zero >>= _) >>= _ =
          (spec.get ((replacement.drop (i + 2)).take gtPos) .groups >>= _) >>= _
        rw [hstop, hname]
        simp only [bind_assoc, pure_bind, hgrow]
        refine (hlookup _).trans ?_
        rw [hread]
        exact (hlookup _).symm
    · rw [if_neg h3C, if_neg h3C, pure_bind]
      exact copied_eq h24

/-- The code expands a template as `GetSubstitution` does, with the groups that the code reads. -/
theorem dollarReplace_eq (h : ReadsAs groups spec) (i : Nat) :
    dollarReplace call groups replacement i builder =
      specSubstitution call spec (replacement.drop i) builder := by
  fun_induction dollarReplace call groups replacement i builder with
  | case1 i builder hlt hdollar ih =>
    rw [← expandDollar_eq h hdollar.2 hdollar.1]
    congr 1
    funext result
    exact ih result
  | case2 i builder hlt hdollar ih =>
    rw [drop_eq_cons hlt]
    have hcopy : specSubstitution call spec (replacement.getD i 0 :: replacement.drop (i + 1))
        builder = appendText builder [replacement.getD i 0] >>=
          specSubstitution call spec (replacement.drop (i + 1)) := by
      by_cases h24 : replacement.getD i 0 = 0x24
      · rw [drop_of_length_le (Nat.not_lt.mp fun h => hdollar ⟨h24, h⟩), h24,
          specSubstitution, specReference, if_pos rfl, pure_bind]
        rfl
      · exact specSubstitution_literal h24
    rw [hcopy]
    congr 1
    funext builder
    exact ih builder
  | case3 i builder hlt => rw [drop_of_length_le (Nat.not_lt.mp hlt), specSubstitution]

theorem specSubstitution_name {groups : Groups ε σ} {name : List UInt16} (hname : 0x3E ∉ name) :
    specSubstitution call (some groups) (0x24 :: 0x3C :: (name ++ [0x3E])) [] =
      captureText <$> groups.get name .groups := by
  have hgt : (name ++ [0x3E]).findIdx? (fun c => decide (c = 0x3E)) = some name.length := by
    rw [findIdx?_eq_some_iff_getElem]
    refine ⟨by simp, by simp, fun j hj => ?_⟩
    rw [getElem_append_left hj, Bool.not_eq_true, decide_eq_false_iff_not]
    exact fun heq => hname (heq ▸ getElem_mem hj)
  have hreference : specReference call (some groups) 0x24 (0x3C :: (name ++ [0x3E])) = (do
        let capture ← groups.get name .groups
        return (name.length + 3, captureText capture)) := by
    rw [specReference.eq_def, if_pos rfl]
    dsimp only
    rw [if_neg (by decide), if_neg (by decide), if_neg (by decide), if_neg (by decide),
      if_neg (by decide), if_pos rfl, hgt]
    dsimp only
    rw [take_left]
  have hrest : (0x3C :: (name ++ [0x3E])).drop (name.length + 3 - 1) = [] := by
    rw [drop_of_length_le]
    simp
  rw [specSubstitution, hreference, map_eq_pure_bind]
  simp only [bind_assoc, pure_bind, hrest]
  congr 1
  funext capture
  cases capture with
  | none =>
    show (appendText [] ([] : List UInt16) >>= _) = _
    rw [appendText_nil ⟨[], Nat.zero_le _⟩, pure_bind, specSubstitution]
    rfl
  | some text =>
    show (appendText [] text.val >>= _) = _
    rw [appendText_nil text, pure_bind, specSubstitution]
    rfl

end Scanning

def groupTemplate (name : List UInt16) : List UInt16 := 0x24 :: 0x3C :: (name ++ [0x3E])

theorem position_le_nil : 0 ≤ ([] : List UInt16).length := Nat.le_refl 0

theorem captures_size_nil : ([] : List (List UInt16)).length < 2 ^ 64 := Nat.two_pow_pos 64

def Match.empty : Match := ⟨[], [], 0, position_le_nil, [], captures_size_nil⟩

variable (groups : Groups ε σ) {name : List UInt16}

theorem specGetSubstitution_name (hname : 0x3E ∉ name) :
    specGetSubstitution .empty (.object groups) (groupTemplate name) =
      captureText <$> groups.get name .groups := by
  exact specSubstitution_name hname

theorem getSubstitution_name (hname : 0x3E ∉ name) :
    getSubstitution .empty (.object groups) (groupTemplate name) =
      captureText <$> groups.get name .zero := by
  have hread : ReadsAs (some groups) (some groups.asRead) := .some fun _ _ => rfl
  rw [getSubstitution, NamedCapture.toObject, pure_bind, dollarReplace_eq hread, drop_zero]
  exact specSubstitution_name hname

/-- The groups give the same texts to getters called on the number zero and on the object. -/
def NamedCapture.ReadsAlike : NamedCapture ε σ → Prop
  | object groups => groups.ReadsAs groups
  | _ => True

/-- The code expands every template as `GetSubstitution` does if and only if the groups object
does not tell the number zero from itself. -/
theorem getSubstitution_eq_spec_iff (namedCapture : NamedCapture ε σ) :
    (∀ call replacement, getSubstitution call namedCapture replacement =
        specGetSubstitution call namedCapture replacement) ↔ namedCapture.ReadsAlike := by
  constructor
  · intro hall
    cases namedCapture with
    | undefined => trivial
    | null => trivial
    | object groups =>
      intro name hname
      rw [← getSubstitution_name groups hname, ← specGetSubstitution_name groups hname]
      exact hall .empty (groupTemplate name)
  · intro h call replacement
    cases namedCapture with
    | undefined =>
      exact dollarReplace_eq .none 0
    | null => rfl
    | object groups =>
      exact dollarReplace_eq (.some h) 0

/-- A groups object whose only getter tells whether it was called on the object. -/
def receiverGroups : Groups Unit Unit :=
  ⟨fun _ receiver => pure (some ⟨[if receiver = .groups then 0x6F else 0x6E], Nat.le_of_ble_eq_true rfl⟩)⟩

/-- `$<a>` with a getter that looks at its receiver. -/
theorem getter_is_called_on_zero : ¬ ∀ (namedCapture : NamedCapture Unit Unit) call replacement,
      getSubstitution call namedCapture replacement =
        specGetSubstitution call namedCapture replacement := by
  intro hall
  have hname : (0x3E : UInt16) ∉ [0x61] := by decide
  have heq := hall (.object receiverGroups) .empty (groupTemplate [0x61])
  rw [getSubstitution_name receiverGroups hname, specGetSubstitution_name receiverGroups hname] at heq
  have hresult := congrFun heq ()
  cases hresult

end Expansion

end Escargot.Runtime
