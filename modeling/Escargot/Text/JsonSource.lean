/-
# The source texts of a JSON value

For a reviver the text of every primitive value is collected by a second scan, after the text was
parsed. The scan knows the tree and moves over the text beside it: it skips what it takes for white
space, strings and punctuation. A failed assertion and a read behind the end are `none` here.

The grammar relates a text to its tree, and to the texts of the leaves.
-/

import Escargot.Text.JsonQuote
import Escargot.Values.NumericLiteral

namespace Escargot.Runtime.JsonSource

open List JsonQuote NumericLiteral

/-- A primitive value of a parsed document. The scan looks at none of them. -/
inductive Primitive
  | null
  | bool (value : Bool)
  | number
  | string (units : List UInt16)

mutual

/-- A value of a parsed document. -/
inductive JSONValue
  | primitive (value : Primitive)
  | array (elements : Elements)
  | object (members : Members)

inductive Elements
  | nil
  | cons (first : JSONValue) (rest : Elements)

inductive Members
  | nil
  | cons (name : List UInt16) (value : JSONValue) (rest : Members)

end

/-- Where a value is in the tree: the positions from the root. This is its address. -/
abbrev Address := List Nat

abbrev JSONSourceMap := List (Address × List UInt16)

variable (c : UInt16) (data : List UInt16)

/-- The characters of `skipWhitespace`. -/
def isWhitespace : Bool := c = 32 || c = 9 || c = 10 || c = 13

def skipWhitespace : List UInt16 := data.dropWhile isWhitespace

/-- An assertion that the next character is the given one, and the position behind it. -/
def skipChar : Option (List UInt16) := if data.head? = some c then some data.tail else none

/-- The loop of `skipString`. With fewer than four characters behind `\u` it ends at the end. -/
def skipStringLoop : List UInt16 → Option (List UInt16)
  | [] => none
  | c :: data =>
    if c = 92 then
      match data with
      | [] => none
      | letter :: rest =>
        if letter = 117 then
          match rest with
          | _ :: _ :: _ :: _ :: tail => skipStringLoop tail
          | _ => none
        else skipStringLoop rest
    else if c = 34 then some data
    else skipStringLoop data

def skipString : Option (List UInt16) := (skipChar 34 data).bind skipStringLoop

/-- A character that does not end a number, `true`, `false` or `null`. -/
def inToken : Bool := !isWhitespace c && c ≠ 44 && c ≠ 93 && c ≠ 125

/-- The end of a primitive value. -/
def skipPrimitive : Option (List UInt16) :=
  if data = [] then none
  else if data.head? = some 34 then skipString data
  else some (data.dropWhile inToken)

mutual

def collectValue : JSONValue → Address → List UInt16 → JSONSourceMap →
    Option (List UInt16 × JSONSourceMap)
  | .primitive _, address, data, sources =>
    let start := skipWhitespace data
    (skipPrimitive start).map fun data =>
      (data, sources ++ [(address, start.take (start.length - data.length))])
  | .array elements, address, data, sources =>
    (skipChar 91 (skipWhitespace data)).bind fun data =>
    (collectElements elements address 0 data sources).bind fun result =>
    (skipChar 93 (skipWhitespace result.1)).map fun data => (data, result.2)
  | .object members, address, data, sources =>
    (skipChar 123 (skipWhitespace data)).bind fun data =>
    (collectMembers members address 0 data sources).bind fun result =>
    (skipChar 125 (skipWhitespace result.1)).map fun data => (data, result.2)

/-- The loop over the elements of an array, from an index on. -/
def collectElements : Elements → Address → Nat → List UInt16 → JSONSourceMap →
    Option (List UInt16 × JSONSourceMap)
  | .nil, _, _, data, sources => some (data, sources)
  | .cons first rest, address, i, data, sources =>
    (collectValue first (address ++ [i]) data sources).bind fun result =>
    match rest with
    | .nil => some (skipWhitespace result.1, result.2)
    | .cons second others =>
      (skipChar 44 (skipWhitespace result.1)).bind fun data =>
      collectElements (.cons second others) address (i + 1) data result.2

/-- The loop over the members of an object, from an index on. -/
def collectMembers : Members → Address → Nat → List UInt16 → JSONSourceMap →
    Option (List UInt16 × JSONSourceMap)
  | .nil, _, _, data, sources => some (data, sources)
  | .cons _ value rest, address, i, data, sources =>
    (skipString (skipWhitespace data)).bind fun data =>
    (skipChar 58 (skipWhitespace data)).bind fun data =>
    (collectValue value (address ++ [i]) data sources).bind fun result =>
    match rest with
    | .nil => some (skipWhitespace result.1, result.2)
    | .cons name second others =>
      (skipChar 44 (skipWhitespace result.1)).bind fun data =>
      collectMembers (.cons name second others) address (i + 1) data result.2

end

def collect (value : JSONValue) (text : List UInt16) : Option JSONSourceMap :=
  (collectValue value [] text []).map Prod.snd

/-- The white space of JSON. -/
def whitespace : List UInt16 := [32, 9, 10, 13]

/-- White space, or none. -/
def WS (s : List UInt16) : Prop := ∀ c ∈ s, c ∈ whitespace

inductive StringCharacters : List UInt16 → List UInt16 → Prop
  | nil : StringCharacters [] []
  | unescaped {c : UInt16} {text units : List UInt16} (low : 32 ≤ c.toNat) (quote : c ≠ 34)
      (backslash : c ≠ 92) (rest : StringCharacters text units) :
      StringCharacters (c :: text) (c :: units)
  | escape {c unit : UInt16} {text units : List UInt16} (letter : (c, unit) ∈ escapes)
      (rest : StringCharacters text units) : StringCharacters (92 :: c :: text) (unit :: units)
  | unicode {c1 c2 c3 c4 : UInt16} {n1 n2 n3 n4 : Nat} {text units : List UInt16}
      (h1 : HexDigit c1 n1) (h2 : HexDigit c2 n2) (h3 : HexDigit c3 n3) (h4 : HexDigit c4 n4)
      (rest : StringCharacters text units) :
      StringCharacters (92 :: 117 :: c1 :: c2 :: c3 :: c4 :: text)
        (.ofNat (4096 * n1 + 256 * n2 + 16 * n3 + n4) :: units)

inductive StringText : List UInt16 → List UInt16 → Prop
  | quoted {text units : List UInt16} (characters : StringCharacters text units) :
      StringText (34 :: (text ++ [34])) units

inductive IntegerPart : List UInt16 → Prop
  | zero : IntegerPart [48]
  | digits {c : UInt16} {rest : List UInt16} (first : c ∈ decimalDigits) (nonzero : c ≠ 48)
      (others : ∀ d ∈ rest, d ∈ decimalDigits) : IntegerPart (c :: rest)

inductive FractionPart : List UInt16 → Prop
  | none : FractionPart []
  | digits {text : List UInt16} (number : Digits decimalDigits text) : FractionPart (46 :: text)

inductive NumberText : List UInt16 → Prop
  | unsigned {integer fraction exponent : List UInt16} (whole : IntegerPart integer)
      (rest : FractionPart fraction) (power : Exponent exponent) :
      NumberText (integer ++ (fraction ++ exponent))
  | negative {integer fraction exponent : List UInt16} (whole : IntegerPart integer)
      (rest : FractionPart fraction) (power : Exponent exponent) :
      NumberText (45 :: (integer ++ (fraction ++ exponent)))

inductive Token : Primitive → List UInt16 → Prop
  | nullToken : Token .null [110, 117, 108, 108]
  | trueToken : Token (.bool true) [116, 114, 117, 101]
  | falseToken : Token (.bool false) [102, 97, 108, 115, 101]
  | numberToken {text : List UInt16} (number : NumberText text) : Token .number text
  | stringToken {text units : List UInt16} (string : StringText text units) :
      Token (.string units) text

inductive Form
  | value (v : JSONValue)
  | elements (i : Nat) (es : Elements)
  | members (i : Nat) (ms : Members)

inductive Derives : Form → Address → List UInt16 → JSONSourceMap → Prop
  | primitive {p : Primitive} {address : Address} {text : List UInt16} (token : Token p text) :
      Derives (.value (.primitive p)) address text [(address, text)]
  | emptyArray {address : Address} {space : List UInt16} (hspace : WS space) :
      Derives (.value (.array .nil)) address (91 :: (space ++ [93])) []
  | array {first : JSONValue} {rest : Elements} {address : Address} {text : List UInt16}
      {sources : JSONSourceMap}
      (inner : Derives (.elements 0 (.cons first rest)) address text sources) :
      Derives (.value (.array (.cons first rest))) address (91 :: (text ++ [93])) sources
  | emptyObject {address : Address} {space : List UInt16} (hspace : WS space) :
      Derives (.value (.object .nil)) address (123 :: (space ++ [125])) []
  | object {name : List UInt16} {first : JSONValue} {rest : Members} {address : Address}
      {text : List UInt16} {sources : JSONSourceMap}
      (inner : Derives (.members 0 (.cons name first rest)) address text sources) :
      Derives (.value (.object (.cons name first rest))) address (123 :: (text ++ [125])) sources
  | lastElement {i : Nat} {v : JSONValue} {address : Address} {before text after : List UInt16}
      {sources : JSONSourceMap} (hbefore : WS before)
      (inner : Derives (.value v) (address ++ [i]) text sources) (hafter : WS after) :
      Derives (.elements i (.cons v .nil)) address (before ++ (text ++ after)) sources
  | element {i : Nat} {v next : JSONValue} {rest : Elements} {address : Address}
      {before text after others : List UInt16} {sources sources' : JSONSourceMap}
      (hbefore : WS before) (inner : Derives (.value v) (address ++ [i]) text sources)
      (hafter : WS after)
      (hrest : Derives (.elements (i + 1) (.cons next rest)) address others sources') :
      Derives (.elements i (.cons v (.cons next rest))) address
        (before ++ (text ++ (after ++ 44 :: others))) (sources ++ sources')
  | lastMember {i : Nat} {name : List UInt16} {v : JSONValue} {address : Address}
      {beforeName nameText afterName before text after : List UInt16} {sources : JSONSourceMap}
      (hbeforeName : WS beforeName) (hname : StringText nameText name) (hafterName : WS afterName)
      (hbefore : WS before) (inner : Derives (.value v) (address ++ [i]) text sources)
      (hafter : WS after) :
      Derives (.members i (.cons name v .nil)) address
        (beforeName ++ (nameText ++ (afterName ++ 58 :: (before ++ (text ++ after))))) sources
  | member {i : Nat} {name name' : List UInt16} {v next : JSONValue} {rest : Members}
      {address : Address} {beforeName nameText afterName before text after others : List UInt16}
      {sources sources' : JSONSourceMap} (hbeforeName : WS beforeName)
      (hname : StringText nameText name) (hafterName : WS afterName) (hbefore : WS before)
      (inner : Derives (.value v) (address ++ [i]) text sources) (hafter : WS after)
      (hrest : Derives (.members (i + 1) (.cons name' next rest)) address others sources') :
      Derives (.members i (.cons name v (.cons name' next rest))) address
        (beforeName ++
          (nameText ++ (afterName ++ 58 :: (before ++ (text ++ (after ++ 44 :: others))))))
        (sources ++ sources')

inductive JSONText : JSONValue → List UInt16 → JSONSourceMap → Prop
  | intro {v : JSONValue} {before text after : List UInt16} {sources : JSONSourceMap}
      (hbefore : WS before) (value : Derives (.value v) [] text sources) (hafter : WS after) :
      JSONText v (before ++ (text ++ after)) sources

mutual

def leaves : JSONValue → Address → List (Address × Primitive)
  | .primitive p, address => [(address, p)]
  | .array elements, address => elementLeaves elements address 0
  | .object members, address => memberLeaves members address 0

def elementLeaves : Elements → Address → Nat → List (Address × Primitive)
  | .nil, _, _ => []
  | .cons first rest, address, i =>
    leaves first (address ++ [i]) ++ elementLeaves rest address (i + 1)

def memberLeaves : Members → Address → Nat → List (Address × Primitive)
  | .nil, _, _ => []
  | .cons _ value rest, address, i =>
    leaves value (address ++ [i]) ++ memberLeaves rest address (i + 1)

end

def Form.leaves : Form → Address → List (Address × Primitive)
  | .value v, address => JsonSource.leaves v address
  | .elements i es, address => elementLeaves es address i
  | .members i ms, address => memberLeaves ms address i

/-- The map that is collected has the token of every leaf under its address, and nothing else. -/
structure Collects (v : JSONValue) (text : List UInt16) (sources : JSONSourceMap) : Prop where
  collected : collect v text = some sources
  leaves : List.Forall₂ (fun leaf source => leaf.1 = source.1 ∧ Token leaf.2 source.2)
    (leaves v []) sources
  distinct : (sources.map Prod.fst).Nodup

section Skip

variable {text rest before : List UInt16} {c : UInt16}

theorem isWhitespace_iff : isWhitespace c = true ↔ c ∈ whitespace := by
  simp only [isWhitespace, whitespace, Bool.or_eq_true, decide_eq_true_eq, mem_cons,
    not_mem_nil, or_false, or_assoc]

theorem skipWhitespace_append (hbefore : WS before) (hc : isWhitespace c = false) :
    skipWhitespace (before ++ c :: rest) = c :: rest := by
  rw [skipWhitespace, dropWhile_append_of_pos fun d hd => isWhitespace_iff.mpr (hbefore d hd)]
  exact dropWhile_cons_of_neg (by rw [hc]; decide)

theorem skipChar_cons (c : UInt16) (rest : List UInt16) : skipChar c (c :: rest) = some rest :=
  if_pos rfl

theorem skipChar_append (hbefore : WS before) (hc : isWhitespace c = false) :
    skipChar c (skipWhitespace (before ++ c :: rest)) = some rest := by
  rw [skipWhitespace_append hbefore hc, skipChar_cons]

theorem ne_of_mem_escapes {unit : UInt16} (h : (c, unit) ∈ escapes) : c ≠ 117 := by
  have hall : escapes.all (fun e => decide (e.1 ≠ 117)) = true := by decide
  exact of_decide_eq_true (List.all_eq_true.mp hall _ h)

variable {units : List UInt16}

theorem StringCharacters.skip (h : StringCharacters text units) (rest : List UInt16) :
    skipStringLoop (text ++ 34 :: rest) = some rest := by
  induction h with
  | nil =>
    rw [nil_append, skipStringLoop.eq_def]
    rfl
  | unescaped low quote backslash _ ih =>
    rw [cons_append, skipStringLoop.eq_def]
    simp only [backslash, quote, if_false, ih]
  | escape letter _ ih =>
    rw [cons_append, cons_append, skipStringLoop.eq_def]
    simp only [if_true, ne_of_mem_escapes letter, if_false, ih]
  | unicode _ _ _ _ _ ih =>
    simp only [cons_append]
    rw [skipStringLoop.eq_def]
    simp only [if_true, ih]

theorem StringText.skip (h : StringText text units) (rest : List UInt16) :
    skipString (text ++ rest) = some rest ∧ ∃ tail, text = 34 :: tail := by
  obtain ⟨characters⟩ := h
  refine ⟨?_, _, rfl⟩
  rw [cons_append, append_assoc, skipString, skipChar_cons, Option.bind_some]
  exact characters.skip rest

theorem StringText.skip_append (h : StringText text units) (hbefore : WS before)
    (rest : List UInt16) :
    skipString (skipWhitespace (before ++ (text ++ rest))) = some rest := by
  obtain ⟨hskip, tail, rfl⟩ := h.skip rest
  rw [cons_append, skipWhitespace_append hbefore rfl, ← cons_append, hskip]

/-- What may follow a primitive value. -/
def Delimited (rest : List UInt16) : Prop := ∀ c ∈ rest.head?, inToken c = false

theorem Delimited.dropWhile (h : Delimited rest) : rest.dropWhile inToken = rest := by
  cases rest with
  | nil => rfl
  | cons c tail =>
    refine dropWhile_cons_of_neg ?_
    rw [h c rfl]
    decide

theorem IntegerPart.chars (h : IntegerPart text) : text ≠ [] ∧ ∀ c ∈ text, c ∈ decimalDigits := by
  cases h with
  | zero => exact ⟨cons_ne_nil _ _, forall_mem_of_all (by decide)⟩
  | digits first _ others =>
    refine ⟨cons_ne_nil _ _, ?_⟩
    rw [forall_mem_cons]
    exact ⟨first, others⟩

theorem FractionPart.chars (h : FractionPart text) : ∀ c ∈ text, c ∈ decimalChars := by
  cases h with
  | none => exact forall_mem_nil _
  | digits number =>
    rw [forall_mem_cons]
    exact ⟨by decide, number.mem_of_subset decimalDigits_subset⟩

theorem NumberText.chars (h : NumberText text) : text ≠ [] ∧ ∀ c ∈ text, c ∈ decimalChars := by
  have hunsigned : ∀ {integer fraction exponent : List UInt16}, IntegerPart integer →
      FractionPart fraction → Exponent exponent →
      ∀ c ∈ integer ++ (fraction ++ exponent), c ∈ decimalChars := by
    intro integer fraction exponent whole fractional power
    rw [forall_mem_append, forall_mem_append]
    exact ⟨fun c hc => decimalDigits_subset c (whole.chars.2 c hc), fractional.chars, power.chars⟩
  cases h with
  | unsigned whole fractional power =>
    exact ⟨append_ne_nil_of_left_ne_nil whole.chars.1 _, hunsigned whole fractional power⟩
  | negative whole fractional power =>
    refine ⟨cons_ne_nil _ _, ?_⟩
    rw [forall_mem_cons]
    exact ⟨by decide, hunsigned whole fractional power⟩

theorem skipPrimitive_word (hne : text ≠ []) (hword : ∀ c ∈ text, inToken c = true ∧ c ≠ 34)
    (hrest : Delimited rest) : skipPrimitive (text ++ rest) = some rest ∧
      ∃ c tail, text = c :: tail ∧ isWhitespace c = false := by
  cases text with
  | nil => exact absurd rfl hne
  | cons c tail =>
    obtain ⟨hin, hquote⟩ := hword c mem_cons_self
    refine ⟨?_, c, tail, rfl, ?_⟩
    · rw [skipPrimitive, cons_append, if_neg (cons_ne_nil _ _), head?_cons,
        if_neg fun hhead => hquote (Option.some.inj hhead), ← cons_append,
        dropWhile_append_of_pos fun d hd => (hword d hd).1, hrest.dropWhile]
    · rw [inToken] at hin
      simp only [Bool.and_eq_true, Bool.not_eq_true'] at hin
      exact hin.1.1.1

theorem Token.skip {p : Primitive} (h : Token p text) (hrest : Delimited rest) :
    skipPrimitive (text ++ rest) = some rest ∧
      ∃ c tail, text = c :: tail ∧ isWhitespace c = false := by
  cases h with
  | nullToken => exact skipPrimitive_word (cons_ne_nil _ _) (forall_mem_of_all (by decide)) hrest
  | trueToken => exact skipPrimitive_word (cons_ne_nil _ _) (forall_mem_of_all (by decide)) hrest
  | falseToken => exact skipPrimitive_word (cons_ne_nil _ _) (forall_mem_of_all (by decide)) hrest
  | numberToken number =>
    have hchars : ∀ c ∈ decimalChars, inToken c = true ∧ c ≠ 34 := forall_mem_of_all (by decide)
    exact skipPrimitive_word number.chars.1 (fun c hc => hchars c (number.chars.2 c hc)) hrest
  | stringToken string =>
    obtain ⟨hskip, tail, rfl⟩ := string.skip rest
    refine ⟨?_, 34, tail, rfl, rfl⟩
    rw [skipPrimitive, cons_append, if_neg (cons_ne_nil _ _), head?_cons,
      if_pos rfl, ← cons_append, hskip]

theorem WS.delimited (hbefore : WS before) (hc : inToken c = false) :
    Delimited (before ++ c :: rest) := by
  cases before with
  | nil =>
    rintro d hd
    rw [← Option.some.inj hd]
    exact hc
  | cons d tail =>
    rintro e he
    rw [← Option.some.inj he, inToken, isWhitespace_iff.mpr (hbefore d mem_cons_self)]
    rfl

theorem WS.delimited_end (hbefore : WS before) : Delimited before := by
  intro c hc
  rw [inToken, isWhitespace_iff.mpr (hbefore c (mem_of_mem_head? hc))]
  rfl

end Skip

def Walks : Form → Address → List UInt16 → JSONSourceMap → Prop
  | .value v, address, text, sources => ∀ (before rest : List UInt16) (acc : JSONSourceMap),
      WS before → Delimited rest →
      collectValue v address (before ++ (text ++ rest)) acc = some (rest, acc ++ sources)
  | .elements i es, address, text, sources => ∀ (rest : List UInt16) (acc : JSONSourceMap),
      collectElements es address i (text ++ 93 :: rest) acc = some (93 :: rest, acc ++ sources)
  | .members i ms, address, text, sources => ∀ (rest : List UInt16) (acc : JSONSourceMap),
      collectMembers ms address i (text ++ 125 :: rest) acc = some (125 :: rest, acc ++ sources)

variable {address : Address} {text : List UInt16} {sources : JSONSourceMap}

theorem Derives.walks {form : Form} (h : Derives form address text sources) :
    Walks form address text sources := by
  induction h with
  | primitive token =>
    intro before rest acc hbefore hrest
    obtain ⟨hskip, c, tail, rfl, hc⟩ := token.skip hrest
    rw [collectValue, cons_append, skipWhitespace_append hbefore hc, ← cons_append]
    simp only [hskip, Option.map_some, length_append, Nat.add_sub_cancel_right, take_left]
  | emptyArray hspace =>
    intro before rest acc hbefore _
    rw [collectValue, cons_append, skipChar_append hbefore rfl, Option.bind_some,
      collectElements, Option.bind_some, append_assoc, singleton_append,
      skipChar_append hspace rfl, Option.map_some, append_nil]
  | array _ ih =>
    intro before rest acc hbefore _
    rw [collectValue, cons_append, skipChar_append hbefore rfl, Option.bind_some,
      append_assoc, singleton_append, ih rest acc, Option.bind_some]
    rfl
  | emptyObject hspace =>
    intro before rest acc hbefore _
    rw [collectValue, cons_append, skipChar_append hbefore rfl, Option.bind_some,
      collectMembers, Option.bind_some, append_assoc, singleton_append,
      skipChar_append hspace rfl, Option.map_some, append_nil]
  | object _ ih =>
    intro before rest acc hbefore _
    rw [collectValue, cons_append, skipChar_append hbefore rfl, Option.bind_some,
      append_assoc, singleton_append, ih rest acc, Option.bind_some]
    rfl
  | lastElement hbefore _ hafter ih =>
    intro rest acc
    rw [collectElements.eq_def]
    simp only [append_assoc]
    rw [ih _ _ acc hbefore (hafter.delimited rfl), Option.bind_some]
    simp only [skipWhitespace_append hafter (show isWhitespace 93 = false from rfl)]
  | element hbefore _ hafter _ ih ihrest =>
    intro rest acc
    rw [collectElements.eq_def]
    simp only [append_assoc, cons_append]
    rw [ih _ _ acc hbefore (hafter.delimited rfl), Option.bind_some]
    simp only [skipChar_append hafter (show isWhitespace 44 = false from rfl), Option.bind_some]
    rw [ihrest, append_assoc]
  | lastMember hbeforeName hname hafterName hbefore _ hafter ih =>
    intro rest acc
    rw [collectMembers.eq_def]
    simp only [append_assoc, cons_append]
    rw [hname.skip_append hbeforeName, Option.bind_some, skipChar_append hafterName rfl,
      Option.bind_some, ih _ _ acc hbefore (hafter.delimited rfl), Option.bind_some]
    simp only [skipWhitespace_append hafter (show isWhitespace 125 = false from rfl)]
  | member hbeforeName hname hafterName hbefore _ hafter _ ih ihrest =>
    intro rest acc
    rw [collectMembers.eq_def]
    simp only [append_assoc, cons_append]
    rw [hname.skip_append hbeforeName, Option.bind_some, skipChar_append hafterName rfl,
      Option.bind_some, ih _ _ acc hbefore (hafter.delimited rfl), Option.bind_some]
    simp only [skipChar_append hafter (show isWhitespace 44 = false from rfl), Option.bind_some]
    rw [ihrest, append_assoc]

theorem Derives.leaves {form : Form} (h : Derives form address text sources) :
    List.Forall₂ (fun leaf source => leaf.1 = source.1 ∧ Token leaf.2 source.2)
      (form.leaves address) sources := by
  induction h with
  | primitive token => exact List.Forall₂.cons ⟨rfl, token⟩ List.Forall₂.nil
  | emptyArray _ => exact List.Forall₂.nil
  | array _ ih => exact ih
  | emptyObject _ => exact List.Forall₂.nil
  | object _ ih => exact ih
  | lastElement _ _ _ ih =>
    simp only [Form.leaves, elementLeaves, append_nil]
    exact ih
  | element _ _ _ _ ih ihrest =>
    exact rel_append ih ihrest
  | lastMember _ _ _ _ _ _ ih =>
    simp only [Form.leaves, memberLeaves, append_nil]
    exact ih
  | member _ _ _ _ _ _ _ ih ihrest =>
    exact rel_append ih ihrest

/-- The addresses that a form may use: those below its own, from its index on. -/
def Form.Below : Form → Address → Address → Prop
  | .value _, address, key => address <+: key
  | .elements i _, address, key => ∃ j, i ≤ j ∧ address ++ [j] <+: key
  | .members i _, address, key => ∃ j, i ≤ j ∧ address ++ [j] <+: key

theorem ne_of_below {key key' : Address} {i : Nat} (hkey : address ++ [i] <+: key)
    (hkey' : ∃ j, i + 1 ≤ j ∧ address ++ [j] <+: key') : key ≠ key' := by
  rintro rfl
  obtain ⟨j, hj, hmark⟩ := hkey'
  have hsame := prefix_of_prefix_length_le hkey hmark (by simp)
  have heq := hsame.eq_of_length (by simp)
  have hlast := append_cancel_left heq
  rw [List.cons.injEq] at hlast
  omega

theorem Derives.keys {form : Form} (h : Derives form address text sources) :
    (∀ key ∈ sources.map Prod.fst, form.Below address key) ∧ (sources.map Prod.fst).Nodup := by
  have hchild : ∀ {address key : Address} {i : Nat}, address ++ [i] <+: key →
      ∃ j, i ≤ j ∧ address ++ [j] <+: key := fun hkey => ⟨_, Nat.le_refl _, hkey⟩
  have hlift : ∀ {address key : Address} {i : Nat},
      (∃ j, i ≤ j ∧ address ++ [j] <+: key) → address <+: key := by
    rintro address key i ⟨j, -, hkey⟩
    exact (prefix_append _ _).trans hkey
  have happend : ∀ {address : Address} {i : Nat} {sources sources' : JSONSourceMap},
      ((∀ key ∈ sources.map Prod.fst, address ++ [i] <+: key) ∧ (sources.map Prod.fst).Nodup) →
      ((∀ key ∈ sources'.map Prod.fst, ∃ j, i + 1 ≤ j ∧ address ++ [j] <+: key) ∧
        (sources'.map Prod.fst).Nodup) →
      (∀ key ∈ (sources ++ sources').map Prod.fst, ∃ j, i ≤ j ∧ address ++ [j] <+: key) ∧
        ((sources ++ sources').map Prod.fst).Nodup := by
    rintro address i sources sources' ⟨hbelow, hnodup⟩ ⟨hbelow', hnodup'⟩
    rw [map_append, forall_mem_append]
    refine ⟨⟨fun key hkey => hchild (hbelow key hkey), fun key hkey => ?_⟩, ?_⟩
    · obtain ⟨j, hj, hmark⟩ := hbelow' key hkey
      exact ⟨j, by omega, hmark⟩
    · rw [nodup_append]
      exact ⟨hnodup, hnodup', fun key hkey key' hkey' =>
        ne_of_below (hbelow key hkey) (hbelow' key' hkey')⟩
  induction h with
  | primitive _ =>
    rw [map_singleton, forall_mem_singleton]
    exact ⟨prefix_rfl, nodup_singleton _⟩
  | emptyArray _ => exact ⟨forall_mem_nil _, nodup_nil⟩
  | array _ ih => exact ⟨fun key hkey => hlift (ih.1 key hkey), ih.2⟩
  | emptyObject _ => exact ⟨forall_mem_nil _, nodup_nil⟩
  | object _ ih => exact ⟨fun key hkey => hlift (ih.1 key hkey), ih.2⟩
  | lastElement _ _ _ ih => exact ⟨fun key hkey => hchild (ih.1 key hkey), ih.2⟩
  | element _ _ _ _ ih ihrest => exact happend ih ihrest
  | lastMember _ _ _ _ _ _ ih => exact ⟨fun key hkey => hchild (ih.1 key hkey), ih.2⟩
  | member _ _ _ _ _ _ _ ih ihrest => exact happend ih ihrest

/-- For every text of the grammar the scan collects the token of every leaf. -/
theorem JSONText.collects {v : JSONValue} {text : List UInt16} {sources : JSONSourceMap}
    (h : JSONText v text sources) : Collects v text sources := by
  obtain ⟨hbefore, value, hafter⟩ := h
  refine ⟨?_, value.leaves, value.keys.2⟩
  have hdelimited : Delimited _ := hafter.delimited_end
  rw [collect, value.walks _ _ [] hbefore hdelimited]
  rfl

/-- `[ "\"]", 1 ]`. -/
theorem collects_array :
    Collects (.array (.cons (.primitive (.string [34, 93])) (.cons (.primitive .number) .nil)))
      [91, 32, 34, 92, 34, 93, 34, 44, 32, 49, 32, 93]
      [([0], [34, 92, 34, 93, 34]), ([1], [49])] := by
  have hspace : WS [32] := by
    rw [WS, forall_mem_singleton]
    decide
  have hnone : WS [] := forall_mem_nil _
  have hstring : Token (.string [34, 93]) [34, 92, 34, 93, 34] :=
    .stringToken (.quoted (.escape (by decide)
      (.unescaped (by decide) (by decide) (by decide) .nil)))
  have hnumber : Token .number [49] :=
    .numberToken (.unsigned (.digits (by decide) (by decide) (forall_mem_nil _)) .none .none)
  have hone : Derives (.value (.primitive .number)) ([] ++ [1]) [49] [([1], [49])] :=
    .primitive hnumber
  have hlast := Derives.lastElement hspace hone hspace
  exact JSONText.collects (.intro hnone (.array (.element hspace (.primitive hstring) hnone hlast))
    hnone)

end Escargot.Runtime.JsonSource
