/-
# Quoting a string for JSON

`JSON.stringify` looks for a character that has to be escaped first, and appends the string as it is
if there is none. Otherwise it escapes character by character and looks one unit ahead where a pair
of surrogates may begin. What is appended is a string of the JSON grammar, which stands for exactly
one sequence of code units.
-/

import Escargot.Runtime.Utf8

namespace Escargot.Runtime.JsonQuote

open List

/-- `U16_IS_SURROGATE`. -/
def isSurrogate (c : UInt16) : Bool := c.toNat &&& 0xfffff800 == 0xd800

/-- The control characters without an escape of their own, which both scans list one by one. -/
def controls : List UInt16 :=
  [0, 1, 2, 3, 4, 5, 6, 7, 11, 14, 15, 16, 17, 18, 19, 20, 21, 22, 23, 24, 25, 26, 27, 28, 29, 30,
    31]

def allNormalChar (value : List UInt16) : Bool :=
  value.all fun c => !(c ∈ ([34, 92, 8, 12, 10, 13, 9] ++ controls : List UInt16)) && !isSurrogate c

/-- One digit of `codePointTo4digitString`. -/
def digitChar (n : Nat) : UInt16 := if n < 10 then .ofNat (n + 48) else .ofNat (n - 10 + 97)

/-- The loop of `codePointTo4digitString`, over the values of `d`. -/
def digitLoop : List Nat → Nat → List UInt16
  | [], _ => []
  | d :: ds, codepoint =>
    if codepoint ≥ d then digitChar (codepoint / d) :: digitLoop ds (codepoint % d)
    else 48 :: digitLoop ds codepoint

def codePointTo4digitString (codepoint : Nat) : List UInt16 :=
  92 :: 117 :: digitLoop [16 * 16 * 16, 16 * 16, 16, 1] codepoint

def escapeLoop : List UInt16 → List UInt16 → Bool → List UInt16 × Bool
  | [], buffer, allLatin1 => (buffer, allLatin1)
  | c :: rest, buffer, allLatin1 =>
    if c = 34 ∨ c = 92 then escapeLoop rest (buffer ++ [92, c]) allLatin1
    else if c = 8 then escapeLoop rest (buffer ++ [92, 98]) allLatin1
    else if c = 12 then escapeLoop rest (buffer ++ [92, 102]) allLatin1
    else if c = 10 then escapeLoop rest (buffer ++ [92, 110]) allLatin1
    else if c = 13 then escapeLoop rest (buffer ++ [92, 114]) allLatin1
    else if c = 9 then escapeLoop rest (buffer ++ [92, 116]) allLatin1
    else if c ∈ controls then
      escapeLoop rest (buffer ++ codePointTo4digitString c.toNat) allLatin1
    else
      let allLatin1 := if c > 255 then false else allLatin1
      match rest with
      | [] =>
        if isSurrogate c then (buffer ++ codePointTo4digitString c.toNat, allLatin1)
        else (buffer ++ [c], allLatin1)
      | next :: tail =>
        if isLead c && isTrail next then escapeLoop tail (buffer ++ [c, next]) allLatin1
        else if isSurrogate c then
          escapeLoop (next :: tail) (buffer ++ codePointTo4digitString c.toNat) allLatin1
        else escapeLoop (next :: tail) (buffer ++ [c]) allLatin1

/-- The content of `String::fromLatin1`, which takes the low bytes. -/
def fromLatin1 (chars : List UInt16) : List UInt16 := chars.map fun c => c.toUInt8.toUInt16

def escapingPath (value : List UInt16) : List UInt16 :=
  let result := escapeLoop value [34] true
  if result.2 then fromLatin1 (result.1 ++ [34]) else result.1 ++ [34]

def builtinJSONStringifyQuote (value : List UInt16) : List UInt16 :=
  if allNormalChar value then [34] ++ value ++ [34] else escapingPath value

/-- A hexadecimal digit and its value. -/
inductive HexDigit : UInt16 → Nat → Prop
  | decimal {c : UInt16} (low : 48 ≤ c.toNat) (high : c.toNat ≤ 57) : HexDigit c (c.toNat - 48)
  | upper {c : UInt16} (low : 65 ≤ c.toNat) (high : c.toNat ≤ 70) : HexDigit c (c.toNat - 55)
  | lower {c : UInt16} (low : 97 ≤ c.toNat) (high : c.toNat ≤ 102) : HexDigit c (c.toNat - 87)

/-- What a character after the backslash stands for. -/
def escapes : List (UInt16 × UInt16) :=
  [(34, 34), (92, 92), (47, 47), (98, 8), (102, 12), (110, 10), (114, 13), (116, 9)]

inductive JSONChar : List UInt16 → List UInt16 → Prop
  | unescaped {c : UInt16} (low : 32 ≤ c.toNat) (quote : c ≠ 34) (backslash : c ≠ 92)
      (lead : isLead c = false) (trail : isTrail c = false) : JSONChar [c] [c]
  | supplementary {c next : UInt16} (lead : isLead c = true) (trail : isTrail next = true) :
      JSONChar [c, next] [c, next]
  | escape {c unit : UInt16} (letter : (c, unit) ∈ escapes) : JSONChar [92, c] [unit]
  | unicode {c1 c2 c3 c4 : UInt16} {n1 n2 n3 n4 : Nat} (h1 : HexDigit c1 n1) (h2 : HexDigit c2 n2)
      (h3 : HexDigit c3 n3) (h4 : HexDigit c4 n4) :
      JSONChar [92, 117, c1, c2, c3, c4] [.ofNat (4096 * n1 + 256 * n2 + 16 * n3 + n4)]

/-- Characters between the quotation marks. -/
inductive JSONChars : List UInt16 → List UInt16 → Prop
  | nil : JSONChars [] []
  | cons {char units text value : List UInt16} (h : JSONChar char units)
      (hrest : JSONChars text value) : JSONChars (char ++ text) (units ++ value)

/-- A JSON string literal, and the units that it stands for. -/
def JSONString (text value : List UInt16) : Prop :=
  ∃ chars, text = [34] ++ chars ++ [34] ∧ JSONChars chars value

/-- What is promised of the text that is appended for a string. -/
structure Quotes (value : List UInt16) : Prop where
  literal : JSONString (builtinJSONStringifyQuote value) value
  decoded : ∀ other, JSONString (builtinJSONStringifyQuote value) other → other = value
  noControl : ∀ c ∈ builtinJSONStringifyQuote value, 32 ≤ c.toNat
  wellPaired : wellFormed (builtinJSONStringifyQuote value) = true
  samePath : allNormalChar value = true → escapingPath value = builtinJSONStringifyQuote value

variable {c : UInt16}

theorem isSurrogate_iff :
    isSurrogate c = true ↔ isLead c = true ∨ isTrail c = true := by
  rw [isLead_iff, isTrail_iff, isSurrogate, beq_iff_eq, land_surrogates c.toNat_lt]
  omega

theorem isSurrogate_eq_false (h : isSurrogate c = false) :
    isLead c = false ∧ isTrail c = false := by
  have hnone := mt isSurrogate_iff.mpr (Bool.eq_false_iff.mp h)
  rw [not_or, Bool.not_eq_true, Bool.not_eq_true] at hnone
  exact hnone

theorem isSurrogate_of_le (h : c.toNat ≤ 255) : isSurrogate c = false := by
  rw [Bool.eq_false_iff]
  intro hsurrogate
  rcases isSurrogate_iff.mp hsurrogate with hlead | htrail
  · have := isLead_iff.mp hlead
    omega
  · have := isTrail_iff.mp htrail
    omega

theorem le_of_not_control (h : c ∉ controls) (h8 : c ≠ 8) (h9 : c ≠ 9) (h10 : c ≠ 10)
    (h12 : c ≠ 12) (h13 : c ≠ 13) : 32 ≤ c.toNat := by
  have hall : ∀ n < 32, UInt16.ofNat n ∈ ([8, 9, 10, 12, 13] ++ controls : List UInt16) := by decide
  by_contra hlow
  have hmem := hall c.toNat (by omega)
  rw [UInt16.ofNat_toNat] at hmem
  simp only [cons_append, nil_append, mem_cons] at hmem
  rcases hmem with hc | hc | hc | hc | hc | hc
  · exact h8 hc
  · exact h9 hc
  · exact h10 hc
  · exact h12 hc
  · exact h13 hc
  · exact h hc

theorem digitLoop_eq {n : Nat} : digitLoop [16 * 16 * 16, 16 * 16, 16, 1] n =
    [digitChar (n / 4096), digitChar (n / 256 % 16), digitChar (n / 16 % 16),
      digitChar (n % 16)] := by
  have hstep : ∀ d ds m, digitLoop (d :: ds) m = digitChar (m / d) :: digitLoop ds (m % d) := by
    intro d ds m
    rw [digitLoop]
    split_ifs with hle
    · rfl
    · rw [Nat.div_eq_of_lt (Nat.not_le.mp hle), Nat.mod_eq_of_lt (Nat.not_le.mp hle)]
      rfl
  rw [hstep, hstep, hstep, hstep, digitLoop]
  rw [show n % (16 * 16 * 16) / (16 * 16) = n / 256 % 16 by omega,
    show n % (16 * 16 * 16) % (16 * 16) / 16 = n / 16 % 16 by omega,
    show n % (16 * 16 * 16) % (16 * 16) % 16 / 1 = n % 16 by omega]

theorem hexDigit_digitChar : ∀ n < 16, HexDigit (digitChar n) n := by
  intro n hn
  rcases Nat.lt_or_ge n 10 with hlt | hge
  · have hvalue : (digitChar n).toNat = n + 48 := by
      rw [digitChar, if_pos hlt, UInt16.toNat_ofNat', Nat.mod_eq_of_lt (by omega)]
    have hdigit := @HexDigit.decimal (digitChar n) (by omega) (by omega)
    rwa [hvalue, Nat.add_sub_cancel] at hdigit
  · have hvalue : (digitChar n).toNat = n - 10 + 97 := by
      rw [digitChar, if_neg (by omega), UInt16.toNat_ofNat', Nat.mod_eq_of_lt (by omega)]
    have hdigit := @HexDigit.lower (digitChar n) (by omega) (by omega)
    rwa [hvalue, show n - 10 + 97 - 87 = n by omega] at hdigit

theorem jsonChar_codePointTo4digitString (c : UInt16) :
    JSONChar (codePointTo4digitString c.toNat) [c] := by
  have hc := c.toNat_lt
  have hchar := JSONChar.unicode (hexDigit_digitChar (c.toNat / 4096) (by omega))
    (hexDigit_digitChar (c.toNat / 256 % 16) (by omega))
    (hexDigit_digitChar (c.toNat / 16 % 16) (by omega))
    (hexDigit_digitChar (c.toNat % 16) (by omega))
  rw [show 4096 * (c.toNat / 4096) + 256 * (c.toNat / 256 % 16) + 16 * (c.toNat / 16 % 16) +
    c.toNat % 16 = c.toNat by omega, UInt16.ofNat_toNat] at hchar
  rw [codePointTo4digitString, digitLoop_eq]
  exact hchar

theorem HexDigit.unique {n m : Nat} (h : HexDigit c n) (h' : HexDigit c m) :
    n = m := by
  cases h with
  | decimal low high =>
    cases h' with
    | decimal _ _ => rfl
    | upper low' _ => omega
    | lower low' _ => omega
  | upper low high =>
    cases h' with
    | decimal _ high' => omega
    | upper _ _ => rfl
    | lower low' _ => omega
  | lower low high =>
    cases h' with
    | decimal _ high' => omega
    | upper _ high' => omega
    | lower _ _ => rfl

theorem escapes_unique {unit unit' : UInt16} (h : (c, unit) ∈ escapes) (h' : (c, unit') ∈ escapes) :
    unit = unit' := by
  have hall : escapes.all (fun e => escapes.all fun e' =>
      decide (e.1 = e'.1 → e.2 = e'.2)) = true := by
    decide
  have hpair := List.all_eq_true.mp (List.all_eq_true.mp hall _ h) _ h'
  exact of_decide_eq_true hpair rfl

theorem escapes_ne {unit : UInt16} (h : (c, unit) ∈ escapes) : c ≠ 117 := by
  have hall : escapes.all (fun e => decide (e.1 ≠ 117)) = true := by decide
  exact of_decide_eq_true (List.all_eq_true.mp hall _ h)

variable {char units text : List UInt16}

/-- The first character of a text is determined, and what it stands for. -/
theorem JSONChar.unique {char' units' text' : List UInt16} (h : JSONChar char units)
    (h' : JSONChar char' units') (heq : char ++ text = char' ++ text') :
    char = char' ∧ units = units' := by
  have hbackslash : ¬isLead 92 = true := by decide
  cases h with
  | unescaped low quote backslash lead trail =>
    cases h' with
    | unescaped low' quote' backslash' lead' trail' =>
      obtain ⟨rfl, -⟩ := List.cons.inj heq
      exact ⟨rfl, rfl⟩
    | supplementary lead' trail' =>
      obtain ⟨rfl, -⟩ := List.cons.inj heq
      exact absurd lead' (Bool.eq_false_iff.mp lead)
    | escape letter' => exact absurd (List.cons.inj heq).1 backslash
    | unicode h1' h2' h3' h4' => exact absurd (List.cons.inj heq).1 backslash
  | supplementary lead trail =>
    cases h' with
    | unescaped low' quote' backslash' lead' trail' =>
      obtain ⟨rfl, -⟩ := List.cons.inj heq
      exact absurd lead (Bool.eq_false_iff.mp lead')
    | supplementary lead' trail' =>
      obtain ⟨rfl, hrest⟩ := List.cons.inj heq
      obtain ⟨rfl, -⟩ := List.cons.inj hrest
      exact ⟨rfl, rfl⟩
    | escape letter' =>
      obtain ⟨rfl, -⟩ := List.cons.inj heq
      exact absurd lead hbackslash
    | unicode h1' h2' h3' h4' =>
      obtain ⟨rfl, -⟩ := List.cons.inj heq
      exact absurd lead hbackslash
  | escape letter =>
    cases h' with
    | unescaped low' quote' backslash' lead' trail' =>
      exact absurd (List.cons.inj heq).1.symm backslash'
    | supplementary lead' trail' =>
      obtain ⟨rfl, -⟩ := List.cons.inj heq
      exact absurd lead' hbackslash
    | escape letter' =>
      obtain ⟨rfl, -⟩ := List.cons.inj (List.cons.inj heq).2
      exact ⟨rfl, congrArg (fun unit => [unit]) (escapes_unique letter letter')⟩
    | unicode h1' h2' h3' h4' =>
      exact absurd (List.cons.inj (List.cons.inj heq).2).1 (escapes_ne letter)
  | unicode h1 h2 h3 h4 =>
    cases h' with
    | unescaped low' quote' backslash' lead' trail' =>
      exact absurd (List.cons.inj heq).1.symm backslash'
    | supplementary lead' trail' =>
      obtain ⟨rfl, -⟩ := List.cons.inj heq
      exact absurd lead' hbackslash
    | escape letter' =>
      exact absurd (List.cons.inj (List.cons.inj heq).2).1.symm (escapes_ne letter')
    | unicode h1' h2' h3' h4' =>
      obtain ⟨rfl, heq2⟩ := List.cons.inj (List.cons.inj (List.cons.inj heq).2).2
      obtain ⟨rfl, heq3⟩ := List.cons.inj heq2
      obtain ⟨rfl, heq4⟩ := List.cons.inj heq3
      obtain ⟨rfl, -⟩ := List.cons.inj heq4
      rw [h1.unique h1', h2.unique h2', h3.unique h3', h4.unique h4']
      exact ⟨rfl, rfl⟩

theorem JSONChar.ne_nil (h : JSONChar char units) : char ≠ [] := by
  cases h
  all_goals exact cons_ne_nil _ _

variable {value : List UInt16}

theorem JSONChars.unique {value' : List UInt16} (h : JSONChars text value)
    (h' : JSONChars text value') : value = value' := by
  induction h generalizing value' with
  | nil =>
    generalize htext : ([] : List UInt16) = text at h'
    cases h' with
    | nil => rfl
    | cons hchar _ => exact absurd (List.append_eq_nil_iff.mp htext.symm).1 hchar.ne_nil
  | @cons char units text value hchar _ ih =>
    generalize htext : char ++ text = whole at h'
    cases h' with
    | nil => exact absurd (List.append_eq_nil_iff.mp htext).1 hchar.ne_nil
    | cons hchar' hrest' =>
      obtain ⟨rfl, rfl⟩ := hchar.unique hchar' htext
      rw [ih (append_cancel_left htext ▸ hrest')]

theorem JSONString.unique {value' : List UInt16} (h : JSONString text value)
    (h' : JSONString text value') : value = value' := by
  obtain ⟨chars, rfl, hchars⟩ := h
  obtain ⟨chars', heq, hchars'⟩ := h'
  rw [← append_cancel_left (append_cancel_right heq)] at hchars'
  exact hchars.unique hchars'

theorem HexDigit.range {n : Nat} (h : HexDigit c n) :
    32 ≤ c.toNat ∧ c.toNat < 128 := by
  cases h
  all_goals omega

theorem escapes_range {unit : UInt16} (h : (c, unit) ∈ escapes) :
    32 ≤ c.toNat ∧ c.toNat < 128 := by
  have hall : escapes.all (fun e => decide (32 ≤ e.1.toNat ∧ e.1.toNat < 128)) = true := by decide
  exact of_decide_eq_true (List.all_eq_true.mp hall _ h)

theorem JSONChar.noControl (h : JSONChar char units) :
    ∀ c ∈ char, 32 ≤ c.toNat := by
  have hbackslash : 32 ≤ (92 : UInt16).toNat := by decide
  cases h with
  | unescaped low quote backslash lead trail =>
    rw [forall_mem_singleton]
    exact low
  | supplementary lead trail =>
    have hlead := isLead_iff.mp lead
    have htrail := isTrail_iff.mp trail
    rw [forall_mem_cons, forall_mem_singleton]
    exact ⟨by omega, by omega⟩
  | escape letter =>
    rw [forall_mem_cons, forall_mem_singleton]
    exact ⟨hbackslash, (escapes_range letter).1⟩
  | unicode h1 h2 h3 h4 =>
    have hu : 32 ≤ (117 : UInt16).toNat := by decide
    simp only [forall_mem_cons]
    exact ⟨hbackslash, hu, h1.range.1, h2.range.1, h3.range.1, h4.range.1, forall_mem_nil _⟩

theorem JSONChars.noControl (h : JSONChars text value) :
    ∀ c ∈ text, 32 ≤ c.toNat := by
  induction h with
  | nil => exact forall_mem_nil _
  | cons hchar _ ih =>
    rw [forall_mem_append]
    exact ⟨hchar.noControl, ih⟩

theorem wellFormed_cons (h : isSurrogate c = false) (rest : List UInt16) :
    wellFormed (c :: rest) = wellFormed rest := by
  obtain ⟨hlead, htrail⟩ := isSurrogate_eq_false h
  rw [wellFormed.eq_def]
  dsimp only
  rw [hlead, htrail, if_neg Bool.false_ne_true]
  rfl

theorem JSONChar.wellFormed_append (h : JSONChar char units) (rest : List UInt16) :
    wellFormed (char ++ rest) = wellFormed rest := by
  have hascii : ∀ {c : UInt16}, c.toNat < 128 → ∀ rest, wellFormed (c :: rest) = wellFormed rest :=
    fun hc => wellFormed_cons (isSurrogate_of_le (by omega))
  cases h with
  | unescaped low quote backslash lead trail =>
    refine wellFormed_cons (Bool.eq_false_iff.mpr fun hsurrogate => ?_) rest
    rcases isSurrogate_iff.mp hsurrogate with hlead | htrail
    · exact Bool.eq_false_iff.mp lead hlead
    · exact Bool.eq_false_iff.mp trail htrail
  | supplementary lead trail =>
    rw [cons_append, singleton_append, wellFormed, if_pos lead, trail]
    rfl
  | escape letter =>
    rw [cons_append, singleton_append, hascii (by decide), hascii (escapes_range letter).2]
  | unicode h1 h2 h3 h4 =>
    simp only [cons_append, nil_append]
    rw [hascii (by decide), hascii (by decide), hascii h1.range.2, hascii h2.range.2,
      hascii h3.range.2, hascii h4.range.2]

theorem JSONChars.wellFormed_append (h : JSONChars text value) (rest : List UInt16) :
    wellFormed (text ++ rest) = wellFormed rest := by
  induction h with
  | nil => rfl
  | cons hchar _ ih => rw [append_assoc, hchar.wellFormed_append, ih]

theorem JSONString.noControl (h : JSONString text value) :
    ∀ c ∈ text, 32 ≤ c.toNat := by
  have hquote : 32 ≤ (34 : UInt16).toNat := by decide
  obtain ⟨chars, rfl, hchars⟩ := h
  rw [forall_mem_append, forall_mem_append, forall_mem_singleton]
  exact ⟨⟨hquote, hchars.noControl⟩, hquote⟩

theorem JSONString.wellFormed (h : JSONString text value) :
    Runtime.wellFormed text = true := by
  obtain ⟨chars, rfl, hchars⟩ := h
  rw [append_assoc, singleton_append, wellFormed_cons (by decide), hchars.wellFormed_append]
  decide

/-- What the loop has added to the buffer stands for the string; if the flag is set, it was set
before, and the units have 8 bits. -/
def Written (value buffer : List UInt16) (flag : Bool) (result : List UInt16 × Bool) : Prop :=
  ∃ text, result.1 = buffer ++ text ∧ JSONChars text value ∧
    (result.2 = true → flag = true ∧ ∀ c ∈ text, c.toNat ≤ 255)

theorem Written.nil (buffer : List UInt16) (flag : Bool) : Written [] buffer flag (buffer, flag) :=
  ⟨[], (append_nil buffer).symm, .nil, fun hflag => ⟨hflag, forall_mem_nil _⟩⟩

theorem Written.cons {char units value buffer : List UInt16} {flag flag' : Bool}
    {result : List UInt16 × Bool} (h : Written value (buffer ++ char) flag' result)
    (hchar : JSONChar char units)
    (hflag : flag' = true → flag = true ∧ ∀ c ∈ char, c.toNat ≤ 255) :
    Written (units ++ value) buffer flag result := by
  obtain ⟨text, hbuffer, hchars, hrest⟩ := h
  refine ⟨char ++ text, by rw [hbuffer, append_assoc], .cons hchar hchars, fun hset => ?_⟩
  obtain ⟨hset', htext⟩ := hrest hset
  obtain ⟨hset'', hunits⟩ := hflag hset'
  rw [forall_mem_append]
  exact ⟨hset'', hunits, htext⟩

theorem codePointTo4digitString_le (c : UInt16) :
    ∀ x ∈ codePointTo4digitString c.toNat, x.toNat ≤ 255 := by
  have hc := c.toNat_lt
  have hdigit : ∀ {n}, n < 16 → (digitChar n).toNat ≤ 255 :=
    fun hn => (hexDigit_digitChar _ hn).range.2.le.trans (by decide)
  rw [codePointTo4digitString, digitLoop_eq]
  simp only [forall_mem_cons]
  exact ⟨by decide, by decide, hdigit (by omega), hdigit (by omega), hdigit (by omega),
    hdigit (by omega), forall_mem_nil _⟩

theorem narrowed {flag : Bool} (h : (if c > 255 then false else flag) = true) :
    flag = true ∧ c.toNat ≤ 255 := by
  split_ifs at h with hwide
  exact ⟨h, Nat.not_lt.mp hwide⟩

theorem Written.escape {c letter : UInt16} {rest buffer : List UInt16} {flag : Bool}
    {result : List UInt16 × Bool} (h : Written rest (buffer ++ [92, letter]) flag result)
    (hletter : (letter, c) ∈ escapes) : Written (c :: rest) buffer flag result := by
  refine h.cons (.escape hletter) fun hflag => ⟨hflag, ?_⟩
  have hrange := escapes_range hletter
  rw [forall_mem_cons, forall_mem_singleton]
  exact ⟨by decide, by omega⟩

theorem Written.digits {rest buffer : List UInt16} {flag flag' : Bool}
    {result : List UInt16 × Bool}
    (h : Written rest (buffer ++ codePointTo4digitString c.toNat) flag' result)
    (hflag : flag' = true → flag = true) : Written (c :: rest) buffer flag result :=
  h.cons (jsonChar_codePointTo4digitString c)
    fun hset => ⟨hflag hset, codePointTo4digitString_le c⟩

theorem jsonChar_plain (hquote : ¬(c = 34 ∨ c = 92)) (h8 : c ≠ 8) (h12 : c ≠ 12) (h10 : c ≠ 10)
    (h13 : c ≠ 13) (h9 : c ≠ 9) (hcontrol : c ∉ controls) (hsurrogate : ¬isSurrogate c = true) :
    JSONChar [c] [c] := by
  obtain ⟨hlead, htrail⟩ := isSurrogate_eq_false (Bool.not_eq_true _ ▸ hsurrogate)
  exact .unescaped (le_of_not_control hcontrol h8 h9 h10 h12 h13) (fun h => hquote (Or.inl h))
    (fun h => hquote (Or.inr h)) hlead htrail

theorem escapeLoop_written (value buffer : List UInt16) (flag : Bool) :
    Written value buffer flag (escapeLoop value buffer flag) := by
  fun_induction escapeLoop value buffer flag with
  | case1 buffer flag => exact .nil buffer flag
  | case2 c rest buffer flag hquote ih =>
    refine ih.escape ?_
    rcases hquote with rfl | rfl
    · decide
    · decide
  | case3 rest buffer flag _ ih => exact ih.escape (by decide)
  | case4 rest buffer flag _ _ ih => exact ih.escape (by decide)
  | case5 rest buffer flag _ _ _ ih => exact ih.escape (by decide)
  | case6 rest buffer flag _ _ _ _ ih => exact ih.escape (by decide)
  | case7 rest buffer flag _ _ _ _ _ ih => exact ih.escape (by decide)
  | case8 c rest buffer flag _ _ _ _ _ _ _ ih => exact ih.digits id
  | case9 c buffer flag _ _ _ _ _ _ _ flag' _ =>
    exact (Written.nil _ flag').digits fun hset => (narrowed hset).1
  | case10 c buffer flag hquote h8 h12 h10 h13 h9 hcontrol flag' hsurrogate =>
    refine (Written.nil _ flag').cons
      (jsonChar_plain hquote h8 h12 h10 h13 h9 hcontrol hsurrogate) fun hset => ?_
    rw [forall_mem_singleton]
    exact narrowed hset
  | case11 c buffer flag _ _ _ _ _ _ _ flag' next tail hpair ih =>
    obtain ⟨hlead, htrail⟩ := Bool.and_eq_true_iff.mp hpair
    refine ih.cons (.supplementary hlead htrail) fun hset => ?_
    have hnarrow := (narrowed hset).2
    have hwide := isLead_iff.mp hlead
    omega
  | case12 c buffer flag _ _ _ _ _ _ _ flag' next tail _ _ ih =>
    exact ih.digits fun hset => (narrowed hset).1
  | case13 c buffer flag hquote h8 h12 h10 h13 h9 hcontrol flag' next tail _ hsurrogate ih =>
    refine ih.cons (jsonChar_plain hquote h8 h12 h10 h13 h9 hcontrol hsurrogate) fun hset => ?_
    rw [forall_mem_singleton]
    exact narrowed hset

theorem fromLatin1_eq {chars : List UInt16} (h : ∀ c ∈ chars, c.toNat ≤ 255) :
    fromLatin1 chars = chars := by
  refine (map_congr_left fun c hc => ?_).trans (List.map_id chars)
  have hle := h c hc
  apply UInt16.toNat_inj.mp
  rw [UInt8.toNat_toUInt16, UInt16.toNat_toUInt8, Nat.mod_eq_of_lt (by omega)]
  rfl

theorem escapingPath_spec (value : List UInt16) :
    escapingPath value = (escapeLoop value [34] true).1 ++ [34] ∧
      JSONString (escapingPath value) value := by
  obtain ⟨text, hbuffer, hchars, hflag⟩ := escapeLoop_written value [34] true
  have hpath : escapingPath value = (escapeLoop value [34] true).1 ++ [34] := by
    rw [escapingPath]
    split_ifs with hset
    · rw [fromLatin1_eq]
      rw [hbuffer, forall_mem_append, forall_mem_append, forall_mem_singleton]
      exact ⟨⟨by decide, (hflag hset).2⟩, by decide⟩
    · rfl
  refine ⟨hpath, text, ?_, hchars⟩
  rw [hpath, hbuffer]

theorem escapeLoop_normal (h : allNormalChar value = true) :
    ∀ (buffer : List UInt16) (flag : Bool), (escapeLoop value buffer flag).1 = buffer ++ value := by
  induction value with
  | nil =>
    intro buffer flag
    rw [escapeLoop, append_nil]
  | cons c rest ih =>
    intro buffer flag
    rw [allNormalChar, all_cons, Bool.and_eq_true, Bool.and_eq_true] at h
    obtain ⟨⟨hcases, hsurrogate⟩, hrest⟩ := h
    simp only [Bool.not_eq_true', decide_eq_false_iff_not, cons_append, nil_append,
      mem_cons, not_or] at hcases hsurrogate
    obtain ⟨h34, h92, h8, h12, h10, h13, h9, hcontrol⟩ := hcases
    have hlead := (isSurrogate_eq_false hsurrogate).1
    have hih := ih hrest
    cases rest with
    | nil => simp [escapeLoop, h34, h92, h8, h12, h10, h13, h9, hcontrol, hsurrogate]
    | cons next tail =>
      rw [escapeLoop]
      simp only [h34, h92, h8, h12, h10, h13, h9, hcontrol, hsurrogate, hlead, or_self,
        if_false, Bool.false_and, Bool.false_eq_true]
      rw [hih, append_assoc]
      rfl

theorem builtinJSONStringifyQuote_eq (value : List UInt16) :
    builtinJSONStringifyQuote value = escapingPath value := by
  rw [builtinJSONStringifyQuote]
  split_ifs with hnormal
  · rw [(escapingPath_spec value).1, escapeLoop_normal hnormal]
  · rfl

/-- The text decodes to `value` alone. -/
theorem quotes (value : List UInt16) : Quotes value where
  literal := by
    rw [builtinJSONStringifyQuote_eq]
    exact (escapingPath_spec value).2
  decoded other hother := by
    rw [builtinJSONStringifyQuote_eq] at hother
    exact hother.unique (escapingPath_spec value).2
  noControl := by
    rw [builtinJSONStringifyQuote_eq]
    exact (escapingPath_spec value).2.noControl
  wellPaired := by
    rw [builtinJSONStringifyQuote_eq]
    exact (escapingPath_spec value).2.wellFormed
  samePath _ := (builtinJSONStringifyQuote_eq value).symm

end Escargot.Runtime.JsonQuote
