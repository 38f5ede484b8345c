/-
# The string builder

What is appended is kept as pieces: the first in inline storage, the others in a
vector. A piece of an integer is turned into digits when the string is built, and
the digits of a double wait in a buffer of their own. The builder keeps the
length of the content and whether it fits in 8 bits. The set that keeps strings
alive is left out.
-/

import Escargot.Text.DecimalIndex
import Escargot.Text.Utf16Encoding
import Escargot.Runtime.RopeString

namespace Escargot.Runtime

open List

/-- A text of bytes below `0x80`. -/
structure AsciiText where
  bytes : List UInt8
  ascii : ∀ c ∈ bytes, c.toNat < 0x80

/-- The type of a piece with its member of the union. -/
inductive PieceData
  | latin1StringPiece (string : EString)
  | utf16StringStringPiece (string : EString)
  | utf16StringStringButLatin1ContentPiece (string : EString)
  | constChar (raw : AsciiText)
  | char (ch : UInt16)
  | int32Digits (int32Value : Int32)
  | digits (digitsOffset : Nat)

structure StringBuilderPiece where
  data : PieceData
  start : Nat
  length : Nat

structure StringBuilder where
  has8BitContent : Bool
  contentLength : Nat
  piecesInlineStorage : List StringBuilderPiece
  pieces : List StringBuilderPiece
  numberScratch : List UInt8

namespace StringBuilder

/-- A builder that was constructed or cleared. -/
def empty : StringBuilder := ⟨true, 0, [], [], []⟩

def checkStringLengthLimit (builder : StringBuilder) (state : Bool) (extraLength : Nat) :
    Option Unit :=
  if state ∧ builder.contentLength + extraLength > stringMaximumLength then none else some ()

/-- `nextPieceSlot`, with the piece that is written into the slot. -/
def addPiece (inlineStorageSize : Nat) (builder : StringBuilder) (piece : StringBuilderPiece) :
    StringBuilder :=
  if builder.piecesInlineStorage.length < inlineStorageSize then
    { builder with
      contentLength := builder.contentLength + piece.length
      piecesInlineStorage := builder.piecesInlineStorage ++ [piece] }
  else
    { builder with
      contentLength := builder.contentLength + piece.length
      pieces := builder.pieces ++ [piece] }

variable (inlineStorageSize : Nat) (builder : StringBuilder) (state : Bool)

/-- `appendPiece` of a character. -/
def appendCharPiece (ch : UInt16) : Option StringBuilder := do
  builder.checkStringLengthLimit state 1
  return addPiece inlineStorageSize
    { builder with has8BitContent := builder.has8BitContent && !decide (ch.toNat > 255) }
    ⟨.char ch, 0, 1⟩

/-- `appendPiece` of characters in memory. The length is stored in sixteen bits first. -/
def appendConstPiece (str : AsciiText) : Option StringBuilder := do
  builder.checkStringLengthLimit state str.bytes.length
  let length := str.bytes.length % 2 ^ 16
  if length ≠ 0 then return addPiece inlineStorageSize builder ⟨.constChar str, 0, length⟩
  else return builder

def appendInt32Piece (value : Int32) : Option StringBuilder := do
  let len := decimalDigitLengthOf value
  builder.checkStringLengthLimit state len
  return addPiece inlineStorageSize builder ⟨.int32Digits value, 0, len⟩

/-- `appendDigitsPiece` of the digits that `dtoa` gives. -/
def appendDigitsPiece (digits : AsciiText) : Option StringBuilder := do
  builder.checkStringLengthLimit state digits.bytes.length
  return addPiece inlineStorageSize
    { builder with numberScratch := builder.numberScratch ++ digits.bytes }
    ⟨.digits builder.numberScratch.length, 0, digits.bytes.length % 2 ^ 16⟩

variable (str : EString) (s e : Nat)

def stringPieceData : PieceData :=
  if str.bufferAccessData.has8BitContent then .latin1StringPiece str
  else if ((str.content.drop s).take (e - s)).all fun c => decide (c.toNat ≤ 255) then
    .utf16StringStringButLatin1ContentPiece str
  else .utf16StringStringPiece str

/-- Whether a piece leaves the content in 8 bits. -/
def PieceFits : PieceData → Bool
  | .utf16StringStringPiece _ => false
  | _ => true

/-- `appendPiece` of a part of a string. -/
def appendStringPiece : Option StringBuilder :=
  if e - s = 1 then appendCharPiece inlineStorageSize builder state (str.content.getD s 0)
  else if e - s > 0 then do
    builder.checkStringLengthLimit state (e - s)
    return addPiece inlineStorageSize
      { builder with
        has8BitContent := builder.has8BitContent && PieceFits (stringPieceData str s e) }
      ⟨stringPieceData str s e, s, e - s⟩
  else some builder

inductive AppendCall
  | appendChar (ch : UInt16)
  | appendChar32 (ch : Nat)
  | appendConstString (str : AsciiText)
  | appendInt32 (value : Int32)
  | appendNumber (digits : AsciiText)
  | appendString (str : EString)
  | appendSubString (str : EString) (s e : Nat) (le : s ≤ e) (bound : e ≤ str.length)

def append : AppendCall → Option StringBuilder
  | .appendChar ch => appendCharPiece inlineStorageSize builder state ch
  | .appendChar32 ch =>
    (utf32ToUtf16 ch).foldlM (fun builder unit =>
      appendCharPiece inlineStorageSize builder state unit) builder
  | .appendConstString str => appendConstPiece inlineStorageSize builder state str
  | .appendInt32 value => appendInt32Piece inlineStorageSize builder state value
  | .appendNumber digits => appendDigitsPiece inlineStorageSize builder state digits
  | .appendString str => appendStringPiece inlineStorageSize builder state str 0 str.length
  | .appendSubString str s e _ _ => appendStringPiece inlineStorageSize builder state str s e

/-- A sequence of calls, each with a state or without. -/
def appendAll (calls : List (AppendCall × Bool)) : Option StringBuilder :=
  calls.foldlM (fun builder call => append inlineStorageSize builder call.2 call.1) builder

variable (is8Bit : Bool)

/-- A unit that is stored in an `LChar` or in a `char16_t`. -/
def stored (c : UInt16) : UInt16 := if is8Bit then c.toUInt8.toUInt16 else c

/-- A `char` that is copied to an `LChar`, or widened with its sign to a `char16_t`. -/
def storedChar (c : UInt8) : UInt16 :=
  if is8Bit then c.toUInt16 else c.toInt8.toInt16.toUInt16

/-- `processPiece`: the buffer and the current length. -/
def processPiece (numberScratch : List UInt8)
    (written : (Nat → UInt16) × Nat) (piece : StringBuilderPiece) : (Nat → UInt16) × Nat :=
  match piece.data with
  | .char ch => (Function.update written.1 written.2 (stored is8Bit ch), written.2 + 1)
  | .constChar raw =>
    (writeAt written.1 written.2 ((raw.bytes.take piece.length).map (storedChar is8Bit)),
      written.2 + piece.length)
  | .int32Digits value =>
    (writeInt32Digits written.1 written.2 piece.length value, written.2 + piece.length)
  | .digits offset =>
    (writeAt written.1 written.2
      (((numberScratch.drop offset).take piece.length).map (storedChar is8Bit)),
      written.2 + piece.length)
  | .latin1StringPiece str =>
    (writeAt written.1 written.2
      (((str.content.drop piece.start).take piece.length).map (stored is8Bit)),
      written.2 + piece.length)
  | .utf16StringStringPiece str =>
    (writeAt written.1 written.2
      (((str.content.drop piece.start).take piece.length).map (stored is8Bit)),
      written.2 + piece.length)
  | .utf16StringStringButLatin1ContentPiece str =>
    (writeAt written.1 written.2
      (((str.content.drop piece.start).take piece.length).map (stored is8Bit)),
      written.2 + piece.length)

variable (memory : Nat → UInt16)

/-- The buffer that the pieces are written to, in memory that is not initialized. -/
def buildBuffer : Nat → UInt16 :=
  (builder.pieces.foldl (processPiece builder.has8BitContent builder.numberScratch)
    (builder.piecesInlineStorage.foldl (processPiece builder.has8BitContent builder.numberScratch)
      (memory, 0))).1

/-- `finalizeBase`: the string and the builder that is left; `none` if an exception is thrown. -/
def finalize : Option (EString × StringBuilder) :=
  if builder.contentLength = 0 then some (.latin1 [], empty)
  else if state ∧ builder.contentLength > stringMaximumLength then none
  else if builder.has8BitContent then
    some (.latin1 ((List.range builder.contentLength).map fun i =>
      (builder.buildBuffer memory i).toUInt8), empty)
  else some (.utf16 ((List.range builder.contentLength).map (builder.buildBuffer memory)), empty)

end StringBuilder

variable (numberScratch : List UInt8) (piece : StringBuilderPiece)

def StringBuilderPiece.text : List UInt16 :=
  match piece.data with
  | .char ch => [ch]
  | .constChar raw => (raw.bytes.take piece.length).map UInt8.toUInt16
  | .int32Digits value => signedNumeral value.toInt
  | .digits offset => ((numberScratch.drop offset).take piece.length).map UInt8.toUInt16
  | .latin1StringPiece str => (str.content.drop piece.start).take piece.length
  | .utf16StringStringPiece str => (str.content.drop piece.start).take piece.length
  | .utf16StringStringButLatin1ContentPiece str => (str.content.drop piece.start).take piece.length

/-- The length that is kept with a piece is that of its text. -/
def StringBuilderPiece.Valid : Prop := (piece.text numberScratch).length = piece.length

section Pieces

variable {numberScratch more : List UInt8} {piece : StringBuilderPiece} {c : UInt16}

theorem StringBuilderPiece.Valid.text_append (h : piece.Valid numberScratch) (more : List UInt8) :
    piece.text (numberScratch ++ more) = piece.text numberScratch := by
  obtain ⟨data, start, length⟩ := piece
  cases data with
  | digits offset =>
    have hlength : (((numberScratch.drop offset).take length).map UInt8.toUInt16).length =
        length := h
    rw [length_map, length_take, length_drop] at hlength
    show (((numberScratch ++ more).drop offset).take length).map UInt8.toUInt16 = _
    by_cases hle : offset ≤ numberScratch.length
    · rw [drop_append_of_le_length hle, take_append_of_le_length]
      · rfl
      · rw [length_drop]
        omega
    · have hzero : length = 0 := by omega
      subst hzero
      rfl
  | latin1StringPiece str => rfl
  | utf16StringStringPiece str => rfl
  | utf16StringStringButLatin1ContentPiece str => rfl
  | constChar raw => rfl
  | char ch => rfl
  | int32Digits value => rfl

namespace StringBuilder

theorem stored_of_le (h : c.toNat ≤ 255) (is8Bit : Bool) : stored is8Bit c = c := by
  cases is8Bit with
  | false => rfl
  | true =>
    show c.toUInt8.toUInt16 = c
    rw [← UInt16.toNat_inj, UInt8.toNat_toUInt16, UInt16.toNat_toUInt8]
    exact Nat.mod_eq_of_lt (Nat.lt_succ_of_le h)

theorem storedChar_of_ascii (is8Bit : Bool) :
    ∀ c : UInt8, c.toNat < 0x80 → storedChar is8Bit c = stored is8Bit c.toUInt16 := by
  cases is8Bit with
  | false => exact EString.forall_uint8 (by decide +kernel)
  | true => exact EString.forall_uint8 (by decide +kernel)

theorem map_storedChar {bytes : List UInt8} (h : ∀ c ∈ bytes, c.toNat < 0x80) (is8Bit : Bool) :
    bytes.map (storedChar is8Bit) = (bytes.map UInt8.toUInt16).map (stored is8Bit) := by
  rw [List.map_map]
  exact map_congr_left fun c hc => storedChar_of_ascii is8Bit c (h c hc)

theorem map_stored {text : List UInt16} (h : ∀ c ∈ text, c.toNat ≤ 255) (is8Bit : Bool) :
    text.map (stored is8Bit) = text := by
  conv_rhs => rw [← List.map_id text]
  exact map_congr_left fun c hc => stored_of_le (h c hc) is8Bit

theorem toUInt16_le {bytes : List UInt8} : ∀ c ∈ bytes.map UInt8.toUInt16, c.toNat ≤ 255 := by
  intro c hc
  obtain ⟨b, -, rfl⟩ := List.mem_map.mp hc
  exact Nat.le_of_lt_succ b.toNat_lt

theorem signedNumeral_le (v : Int) : ∀ c ∈ signedNumeral v, c.toNat ≤ 255 := by
  have hdigits : ∀ n, ∀ c ∈ numeral n, c.toNat ≤ 255 := by
    intro n c hc
    have hrange := isDigit_iff.mp (isDigit_of_mem_numeral n c hc)
    omega
  intro c hc
  rw [signedNumeral] at hc
  split at hc
  · rcases List.mem_cons.mp hc with rfl | hc
    · decide
    · exact hdigits _ c hc
  · exact hdigits _ c hc

theorem processPiece_eq (hvalid : piece.Valid numberScratch)
    (hascii : ∀ c ∈ numberScratch, c.toNat < 0x80) (is8Bit : Bool)
    (buffer : Nat → UInt16) (currentLength : Nat) :
    processPiece is8Bit numberScratch (buffer, currentLength) piece =
      (writeAt buffer currentLength ((piece.text numberScratch).map (stored is8Bit)),
        currentLength + (piece.text numberScratch).length) := by
  have hlength : (piece.text numberScratch).length = piece.length := hvalid
  rw [hlength]
  obtain ⟨data, start, length⟩ := piece
  cases data with
  | char ch =>
    have hone : 1 = length := hlength
    show (Function.update buffer currentLength (stored is8Bit ch), currentLength + 1) = _
    rw [update_eq_writeAt, hone]
    rfl
  | constChar raw =>
    show (writeAt buffer currentLength ((raw.bytes.take length).map (storedChar is8Bit)),
      currentLength + length) = _
    rw [map_storedChar fun c hc => raw.ascii c (mem_of_mem_take hc)]
    rfl
  | int32Digits value =>
    have hdigits : (signedNumeral value.toInt).length = length := hlength
    have htext : StringBuilderPiece.text numberScratch ⟨.int32Digits value, start, length⟩ =
        signedNumeral value.toInt := rfl
    show (writeInt32Digits buffer currentLength length value, currentLength + length) = _
    rw [htext, map_stored (signedNumeral_le value.toInt), ← writeInt32Digits_eq,
      decimalDigitLengthOf_eq, hdigits]
  | digits offset =>
    show (writeAt buffer currentLength
      (((numberScratch.drop offset).take length).map (storedChar is8Bit)),
      currentLength + length) = _
    rw [map_storedChar fun c hc => hascii c (mem_of_mem_drop (mem_of_mem_take hc))]
    rfl
  | latin1StringPiece str => rfl
  | utf16StringStringPiece str => rfl
  | utf16StringStringButLatin1ContentPiece str => rfl

theorem foldl_processPiece {pieces : List StringBuilderPiece}
    (hvalid : ∀ piece ∈ pieces, piece.Valid numberScratch)
    (hascii : ∀ c ∈ numberScratch, c.toNat < 0x80) (is8Bit : Bool) :
    ∀ (buffer : Nat → UInt16) (currentLength : Nat),
      pieces.foldl (processPiece is8Bit numberScratch) (buffer, currentLength) =
        (writeAt buffer currentLength
            ((pieces.flatMap (StringBuilderPiece.text numberScratch)).map (stored is8Bit)),
          currentLength + (pieces.flatMap (StringBuilderPiece.text numberScratch)).length) := by
  induction pieces with
  | nil =>
    intro buffer currentLength
    rw [flatMap_nil, map_nil, writeAt_nil]
    rfl
  | cons piece pieces ih =>
    intro buffer currentLength
    have hrest := ih fun p hp => hvalid p (mem_cons_of_mem piece hp)
    have hwrite := writeAt_append buffer currentLength
      ((piece.text numberScratch).map (stored is8Bit))
      ((pieces.flatMap (StringBuilderPiece.text numberScratch)).map (stored is8Bit))
    rw [length_map] at hwrite
    rw [foldl_cons, processPiece_eq (hvalid piece mem_cons_self) hascii, hrest, hwrite,
      flatMap_cons, map_append, length_append, Nat.add_assoc]

end StringBuilder

end Pieces

namespace StringBuilder

def AppendCall.text : AppendCall → List UInt16
  | appendChar ch => [ch]
  | appendChar32 ch => utf32ToUtf16 ch
  | appendConstString str => str.bytes.map UInt8.toUInt16
  | appendInt32 value => signedNumeral value.toInt
  | appendNumber digits => digits.bytes.map UInt8.toUInt16
  | appendString str => str.content
  | appendSubString str s e _ _ => (str.content.drop s).take (e - s)

def AppendCall.storedLength : AppendCall → Nat
  | appendConstString str => str.bytes.length % 2 ^ 16
  | appendNumber digits => digits.bytes.length % 2 ^ 16
  | call => call.text.length

/-- The length of characters in memory fits in sixteen bits. -/
def AppendCall.IsShort : AppendCall → Prop
  | appendConstString str => str.bytes.length < 2 ^ 16
  | appendNumber digits => digits.bytes.length < 2 ^ 16
  | _ => True

structure Holds (inlineStorageSize : Nat) (builder : StringBuilder) (content : List UInt16) :
    Prop where
  content_eq : (builder.piecesInlineStorage ++ builder.pieces).flatMap
    (StringBuilderPiece.text builder.numberScratch) = content
  valid : ∀ piece ∈ builder.piecesInlineStorage ++ builder.pieces, piece.Valid builder.numberScratch
  ascii : ∀ c ∈ builder.numberScratch, c.toNat < 0x80
  contentLength_eq : builder.contentLength = content.length
  fits : builder.has8BitContent = true ↔ ∀ c ∈ content, c.toNat ≤ 255
  room : builder.pieces ≠ [] → inlineStorageSize ≤ builder.piecesInlineStorage.length

section Appends

variable {inlineStorageSize : Nat} {builder builder' : StringBuilder} {content : List UInt16}
  {state : Bool}

theorem holds_empty : Holds inlineStorageSize empty [] where
  content_eq := rfl
  valid := fun _ hpiece => absurd hpiece not_mem_nil
  ascii := fun _ hc => absurd hc not_mem_nil
  contentLength_eq := rfl
  fits := iff_of_true rfl fun _ hc => absurd hc not_mem_nil
  room := fun h => absurd rfl h

theorem contentLength_addPiece (builder : StringBuilder) (piece : StringBuilderPiece) :
    (addPiece inlineStorageSize builder piece).contentLength =
      builder.contentLength + piece.length := by
  rw [addPiece]
  split <;> rfl

variable {extraLength : Nat}

theorem checkStringLengthLimit_eq_some
    (h : builder.contentLength + extraLength ≤ stringMaximumLength) :
    builder.checkStringLengthLimit state extraLength = some () :=
  if_neg fun hover => Nat.not_lt.mpr h hover.2

theorem Holds.addPiece (h : Holds inlineStorageSize builder content) (flag : Bool)
    (more : List UInt8) (piece : StringBuilderPiece)
    (hvalid : piece.Valid (builder.numberScratch ++ more)) (hmore : ∀ c ∈ more, c.toNat < 0x80)
    (hflag : flag = true ↔ builder.has8BitContent = true ∧
      ∀ c ∈ piece.text (builder.numberScratch ++ more), c.toNat ≤ 255) :
    Holds inlineStorageSize
      (addPiece inlineStorageSize
        { builder with
          has8BitContent := flag, numberScratch := builder.numberScratch ++ more } piece)
      (content ++ piece.text (builder.numberScratch ++ more)) := by
  have hkept : (builder.piecesInlineStorage ++ builder.pieces).flatMap
      (StringBuilderPiece.text (builder.numberScratch ++ more)) = content := by
    rw [← h.content_eq]
    exact flatMap_congr fun p hp => (h.valid p hp).text_append more
  have hvalid' : ∀ p ∈ builder.piecesInlineStorage ++ builder.pieces,
      p.Valid (builder.numberScratch ++ more) := by
    intro p hp
    rw [StringBuilderPiece.Valid, (h.valid p hp).text_append more]
    exact h.valid p hp
  have hascii : ∀ c ∈ builder.numberScratch ++ more, c.toNat < 0x80 := by
    intro c hc
    rcases List.mem_append.mp hc with hc | hc
    · exact h.ascii c hc
    · exact hmore c hc
  have hlength : builder.contentLength + piece.length =
      (content ++ piece.text (builder.numberScratch ++ more)).length := by
    rw [length_append, h.contentLength_eq, hvalid]
  have hfits : flag = true ↔
      ∀ c ∈ content ++ piece.text (builder.numberScratch ++ more), c.toNat ≤ 255 := by
    rw [hflag, h.fits, forall_mem_append]
  rw [StringBuilder.addPiece]
  split
  · rename_i hroom
    have hempty : builder.pieces = [] := by
      by_contra hne
      exact Nat.not_le.mpr hroom (h.room hne)
    rw [hempty, append_nil] at hkept hvalid'
    refine ⟨?_, ?_, hascii, hlength, hfits, fun hne => absurd hempty hne⟩
    · show ((builder.piecesInlineStorage ++ [piece]) ++ builder.pieces).flatMap _ = _
      rw [hempty, append_nil, flatMap_append, hkept, flatMap_singleton]
    · intro p hp
      have hp : p ∈ (builder.piecesInlineStorage ++ [piece]) ++ builder.pieces := hp
      rw [hempty, append_nil, mem_append, mem_singleton] at hp
      rcases hp with hp | rfl
      · exact hvalid' p hp
      · exact hvalid
  · rename_i hfull
    refine ⟨?_, ?_, hascii, hlength, hfits, fun _ => Nat.not_lt.mp hfull⟩
    · show (builder.piecesInlineStorage ++ (builder.pieces ++ [piece])).flatMap _ = _
      rw [← append_assoc, flatMap_append, hkept, flatMap_singleton]
    · intro p hp
      have hp : p ∈ builder.piecesInlineStorage ++ (builder.pieces ++ [piece]) := hp
      rw [← append_assoc, mem_append, mem_singleton] at hp
      rcases hp with hp | rfl
      · exact hvalid' p hp
      · exact hvalid

theorem Holds.addPlainPiece (h : Holds inlineStorageSize builder content) (flag : Bool)
    (piece : StringBuilderPiece) (hvalid : piece.Valid builder.numberScratch)
    (hflag : flag = true ↔ builder.has8BitContent = true ∧
      ∀ c ∈ piece.text builder.numberScratch, c.toNat ≤ 255) :
    Holds inlineStorageSize
      (StringBuilder.addPiece inlineStorageSize { builder with has8BitContent := flag } piece)
      (content ++ piece.text builder.numberScratch) := by
  have hadded := h.addPiece flag [] piece (by rwa [append_nil])
    (fun c hc => absurd hc not_mem_nil) (by rwa [append_nil])
  rwa [append_nil] at hadded

/-- A call gives a builder with its text at the end, and throws nothing while the content is not
too long. -/
def Appends (inlineStorageSize : Nat) (content text : List UInt16)
    (result : Option StringBuilder) : Prop :=
  (∀ builder', result = some builder' → Holds inlineStorageSize builder' (content ++ text)) ∧
    ((content ++ text).length ≤ stringMaximumLength → result.isSome)

theorem Holds.appends (h : Holds inlineStorageSize builder content) {text : List UInt16}
    (hlength : extraLength = text.length)
    (hnext : Holds inlineStorageSize builder' (content ++ text)) :
    Appends inlineStorageSize content text (do
      builder.checkStringLengthLimit state extraLength
      return builder') := by
  constructor
  · intro result hresult
    obtain ⟨-, -, hresult⟩ := Option.bind_eq_some_iff.mp hresult
    cases hresult
    exact hnext
  · intro hle
    rw [length_append, ← h.contentLength_eq, ← hlength] at hle
    rw [checkStringLengthLimit_eq_some hle]
    rfl

theorem Holds.appendCharPiece (h : Holds inlineStorageSize builder content) (ch : UInt16) :
    Appends inlineStorageSize content [ch]
      (StringBuilder.appendCharPiece inlineStorageSize builder state ch) := by
  refine h.appends rfl (h.addPlainPiece _ ⟨.char ch, 0, 1⟩ rfl ?_)
  have htext : StringBuilderPiece.text builder.numberScratch ⟨.char ch, 0, 1⟩ = [ch] := rfl
  rw [Bool.and_eq_true, Bool.not_eq_true', decide_eq_false_iff_not, Nat.not_lt, htext,
    forall_mem_singleton]

theorem Holds.appendCharPieces (units : List UInt16) :
    ∀ {builder : StringBuilder} {content : List UInt16}, Holds inlineStorageSize builder content →
      Appends inlineStorageSize content units
        (units.foldlM (fun builder unit =>
          StringBuilder.appendCharPiece inlineStorageSize builder state unit) builder) := by
  induction units with
  | nil =>
    intro builder content h
    constructor
    · rintro result ⟨⟩
      rwa [append_nil]
    · exact fun _ => rfl
  | cons unit units ih =>
    intro builder content h
    obtain ⟨hfirst, hsome⟩ := @Holds.appendCharPiece inlineStorageSize builder content state h unit
    rw [foldlM_cons]
    constructor
    · intro result hresult
      obtain ⟨mid, hmid, hresult⟩ := Option.bind_eq_some_iff.mp hresult
      have hheld := (ih (hfirst mid hmid)).1 result hresult
      rwa [append_assoc] at hheld
    · intro hle
      rw [length_append, length_cons] at hle
      obtain ⟨mid, hmid⟩ := Option.isSome_iff_exists.mp (hsome (by
        rw [length_append, length_singleton]
        omega))
      rw [hmid]
      refine (ih (hfirst mid hmid)).2 ?_
      rw [length_append, length_append, length_singleton]
      omega

section

variable (h : Holds inlineStorageSize builder content)
include h

theorem Holds.appendConstPiece (str : AsciiText) (hshort : str.bytes.length < 2 ^ 16) :
    Appends inlineStorageSize content (str.bytes.map UInt8.toUInt16)
      (StringBuilder.appendConstPiece inlineStorageSize builder state str) := by
  have hlength : str.bytes.length % 2 ^ 16 = str.bytes.length := Nat.mod_eq_of_lt hshort
  rw [StringBuilder.appendConstPiece]
  rw [hlength]
  by_cases hzero : str.bytes.length = 0
  · rw [if_neg (not_not.mpr hzero)]
    refine h.appends (length_map _).symm ?_
    rw [eq_nil_of_length_eq_zero hzero, map_nil, append_nil]
    exact h
  · rw [if_pos hzero]
    have htext : StringBuilderPiece.text builder.numberScratch
        ⟨.constChar str, 0, str.bytes.length⟩ = str.bytes.map UInt8.toUInt16 := by
      show (str.bytes.take str.bytes.length).map UInt8.toUInt16 = _
      rw [take_length]
    have hnext := h.addPlainPiece builder.has8BitContent
      ⟨.constChar str, 0, str.bytes.length⟩ (by rw [StringBuilderPiece.Valid, htext, length_map])
      (by
        exact (and_iff_left toUInt16_le).symm)
    rw [htext] at hnext
    exact h.appends (length_map _).symm hnext

theorem Holds.appendInt32Piece (value : Int32) :
    Appends inlineStorageSize content (signedNumeral value.toInt)
      (StringBuilder.appendInt32Piece inlineStorageSize builder state value) :=
  h.appends (decimalDigitLengthOf_eq value)
    (h.addPlainPiece builder.has8BitContent
      ⟨.int32Digits value, 0, decimalDigitLengthOf value⟩
      (decimalDigitLengthOf_eq value).symm (and_iff_left (signedNumeral_le value.toInt)).symm)

theorem Holds.appendDigitsPiece (digits : AsciiText) (hshort : digits.bytes.length < 2 ^ 16) :
    Appends inlineStorageSize content (digits.bytes.map UInt8.toUInt16)
      (StringBuilder.appendDigitsPiece inlineStorageSize builder state digits) := by
  have htext : StringBuilderPiece.text (builder.numberScratch ++ digits.bytes)
      ⟨.digits builder.numberScratch.length, 0, digits.bytes.length % 2 ^ 16⟩ =
        digits.bytes.map UInt8.toUInt16 := by
    rw [Nat.mod_eq_of_lt hshort]
    show (((builder.numberScratch ++ digits.bytes).drop builder.numberScratch.length).take
      digits.bytes.length).map UInt8.toUInt16 = _
    rw [drop_left, take_length]
  have hnext := h.addPiece builder.has8BitContent digits.bytes
    ⟨.digits builder.numberScratch.length, 0, digits.bytes.length % 2 ^ 16⟩ (by
      rw [StringBuilderPiece.Valid, htext, length_map, Nat.mod_eq_of_lt hshort])
    digits.ascii (by
      exact (and_iff_left toUInt16_le).symm)
  rw [htext] at hnext
  exact h.appends (length_map _).symm hnext

theorem Holds.appendStringPiece (str : EString) {first last : Nat}
    (hbound : last ≤ str.content.length) :
    Appends inlineStorageSize content ((str.content.drop first).take (last - first))
      (StringBuilder.appendStringPiece inlineStorageSize builder state str first last) := by
  have hlength : ((str.content.drop first).take (last - first)).length = last - first := by
    rw [length_take, length_drop]
    omega
  rw [StringBuilder.appendStringPiece]
  by_cases hone : last - first = 1
  · have hunit : (str.content.drop first).take (last - first) = [str.content.getD first 0] := by
      have hlt : first < str.content.length := by omega
      rw [hone, drop_eq_getElem_cons hlt, take_succ_cons, take_zero, getD_eq_getElem _ _ hlt]
    rw [if_pos hone, hunit]
    exact h.appendCharPiece _
  rw [if_neg hone]
  by_cases hpos : last - first > 0
  · rw [if_pos hpos]
    have htext : StringBuilderPiece.text builder.numberScratch
        ⟨stringPieceData str first last, first, last - first⟩ =
          (str.content.drop first).take (last - first) := by
      rw [stringPieceData]
      split
      · rfl
      · split <;> rfl
    have hfits : PieceFits (stringPieceData str first last) = true ↔
        ∀ c ∈ (str.content.drop first).take (last - first), c.toNat ≤ 255 := by
      rw [stringPieceData]
      split
      · rename_i h8
        refine iff_of_true rfl fun c hc => ?_
        have hmem : c ∈ str.content := mem_of_mem_drop (mem_of_mem_take hc)
        rw [EString.content] at hmem
        cases hdata : str.bufferAccessData with
        | bufferAs8Bit buffer =>
          rw [hdata] at hmem
          exact toUInt16_le c hmem
        | bufferAs16Bit buffer =>
          rw [hdata] at h8
          cases h8
      · split
        · rename_i hall
          exact iff_of_true rfl fun c hc => of_decide_eq_true (List.all_eq_true.mp hall c hc)
        · rename_i hall
          refine iff_of_false Bool.false_ne_true fun hfits => hall (List.all_eq_true.mpr ?_)
          exact fun c hc => decide_eq_true (hfits c hc)
    have hnext := h.addPlainPiece
      (builder.has8BitContent && PieceFits (stringPieceData str first last))
      ⟨stringPieceData str first last, first, last - first⟩
      (by rw [StringBuilderPiece.Valid, htext, hlength])
      (by rw [htext, Bool.and_eq_true, hfits])
    rw [htext] at hnext
    exact h.appends hlength.symm hnext
  · rw [if_neg hpos]
    have hnil : (str.content.drop first).take (last - first) = [] := by
      apply eq_nil_of_length_eq_zero
      omega
    rw [hnil]
    refine ⟨fun result hresult => ?_, fun _ => rfl⟩
    cases hresult
    rwa [append_nil]

theorem Holds.append (call : AppendCall) (hshort : call.IsShort) :
    Appends inlineStorageSize content call.text
      (StringBuilder.append inlineStorageSize builder state call) := by
  cases call with
  | appendChar ch => exact h.appendCharPiece ch
  | appendChar32 ch => exact Holds.appendCharPieces (utf32ToUtf16 ch) h
  | appendConstString str => exact h.appendConstPiece str hshort
  | appendInt32 value => exact h.appendInt32Piece value
  | appendNumber digits => exact h.appendDigitsPiece digits hshort
  | appendString str =>
    have htext : (str.content.drop 0).take (str.length - 0) = str.content := by
      rw [drop_zero, Nat.sub_zero, ← EString.length_content, take_length]
    have hpiece := @Holds.appendStringPiece _ _ _ state h str 0 str.length
      (Nat.le_of_eq (EString.length_content str).symm)
    rw [htext] at hpiece
    exact hpiece
  | appendSubString str first last le bound =>
    exact h.appendStringPiece str (by rw [EString.length_content]; exact bound)

end

theorem Holds.appendAll (calls : List (AppendCall × Bool)) :
    ∀ {builder : StringBuilder} {content : List UInt16}, Holds inlineStorageSize builder content →
      (∀ call ∈ calls, call.1.IsShort) →
        Appends inlineStorageSize content (calls.flatMap fun call => call.1.text)
          (StringBuilder.appendAll inlineStorageSize builder calls) := by
  induction calls with
  | nil =>
    intro builder content h _
    constructor
    · rintro result ⟨⟩
      rw [flatMap_nil, append_nil]
      exact h
    · exact fun _ => rfl
  | cons call calls ih =>
    intro builder content h hshort
    obtain ⟨hfirst, hsome⟩ := @Holds.append inlineStorageSize builder content call.2 h call.1
      (hshort call mem_cons_self)
    have hlater := fun c hc => hshort c (mem_cons_of_mem call hc)
    rw [StringBuilder.appendAll, foldlM_cons, flatMap_cons]
    constructor
    · intro result hresult
      obtain ⟨mid, hmid, hresult⟩ := Option.bind_eq_some_iff.mp hresult
      have hheld := (ih (hfirst mid hmid) hlater).1 result hresult
      rwa [append_assoc] at hheld
    · intro hle
      rw [length_append, length_append] at hle
      obtain ⟨mid, hmid⟩ := Option.isSome_iff_exists.mp (hsome (by
        rw [length_append]
        omega))
      rw [hmid]
      refine (ih (hfirst mid hmid) hlater).2 ?_
      rw [length_append, length_append]
      omega

theorem contentLength_of_bind {result : StringBuilder}
    (h : (do builder.checkStringLengthLimit state extraLength return builder') = some result) :
    result = builder' := by
  obtain ⟨-, -, hresult⟩ := Option.bind_eq_some_iff.mp h
  exact (Option.some.inj hresult).symm

theorem contentLength_appendCharPieces (units : List UInt16) : ∀ {builder : StringBuilder},
    units.foldlM (fun builder unit =>
      StringBuilder.appendCharPiece inlineStorageSize builder state unit) builder = some builder' →
        builder'.contentLength = builder.contentLength + units.length := by
  induction units with
  | nil =>
    rintro builder ⟨⟩
    rfl
  | cons unit units ih =>
    intro builder h
    obtain ⟨mid, hmid, h⟩ := Option.bind_eq_some_iff.mp h
    rw [ih h, contentLength_of_bind hmid, contentLength_addPiece, length_cons]
    show builder.contentLength + 1 + units.length = _
    omega

theorem contentLength_appendStringPiece (str : EString) {first last : Nat}
    (h : StringBuilder.appendStringPiece inlineStorageSize builder state str first last =
      some builder') : builder'.contentLength = builder.contentLength + (last - first) := by
  rw [StringBuilder.appendStringPiece] at h
  split at h
  · rename_i hone
    rw [contentLength_of_bind h, contentLength_addPiece, hone]
  · split at h
    · rw [contentLength_of_bind h, contentLength_addPiece]
    · rename_i hpos
      cases h
      omega

theorem contentLength_append (call : AppendCall)
    (h : StringBuilder.append inlineStorageSize builder state call = some builder') :
    builder'.contentLength = builder.contentLength + call.storedLength := by
  cases call with
  | appendChar ch =>
    rw [contentLength_of_bind h, contentLength_addPiece]
    rfl
  | appendChar32 ch => exact contentLength_appendCharPieces (utf32ToUtf16 ch) h
  | appendConstString str =>
    rw [StringBuilder.append, appendConstPiece] at h
    obtain ⟨-, -, h⟩ := Option.bind_eq_some_iff.mp h
    dsimp only at h
    split at h
    · cases h
      rw [contentLength_addPiece]
      rfl
    · rename_i hzero
      cases h
      rw [AppendCall.storedLength, not_not.mp hzero, Nat.add_zero]
  | appendInt32 value =>
    rw [contentLength_of_bind h, contentLength_addPiece]
    rw [decimalDigitLengthOf_eq]
    rfl
  | appendNumber digits =>
    rw [contentLength_of_bind h, contentLength_addPiece]
    rfl
  | appendString str =>
    rw [contentLength_appendStringPiece str h, Nat.sub_zero, ← EString.length_content]
    rfl
  | appendSubString str first last le bound =>
    rw [contentLength_appendStringPiece str h]
    show _ = builder.contentLength + ((str.content.drop first).take (last - first)).length
    rw [length_take, length_drop, EString.length_content]
    omega

variable (calls : List (AppendCall × Bool))

theorem contentLength_appendAll : ∀ {builder : StringBuilder},
    StringBuilder.appendAll inlineStorageSize builder calls = some builder' →
      builder'.contentLength =
        builder.contentLength + (calls.map fun call => call.1.storedLength).sum := by
  induction calls with
  | nil =>
    rintro builder ⟨⟩
    rfl
  | cons call calls ih =>
    intro builder h
    obtain ⟨mid, hmid, h⟩ := Option.bind_eq_some_iff.mp h
    rw [ih h, contentLength_append call.1 hmid, map_cons, sum_cons, Nat.add_assoc]

theorem storedLength_le (call : AppendCall) : call.storedLength ≤ call.text.length ∧
    (call.storedLength = call.text.length ↔ call.IsShort) := by
  have hmod : ∀ bytes : List UInt8, bytes.length % 2 ^ 16 ≤ (bytes.map UInt8.toUInt16).length ∧
      (bytes.length % 2 ^ 16 = (bytes.map UInt8.toUInt16).length ↔ bytes.length < 2 ^ 16) := by
    intro bytes
    rw [length_map]
    omega
  cases call with
  | appendConstString str => exact hmod str.bytes
  | appendNumber digits => exact hmod digits.bytes
  | appendChar ch => exact ⟨Nat.le_refl _, iff_of_true rfl trivial⟩
  | appendChar32 ch => exact ⟨Nat.le_refl _, iff_of_true rfl trivial⟩
  | appendInt32 value => exact ⟨Nat.le_refl _, iff_of_true rfl trivial⟩
  | appendString str => exact ⟨Nat.le_refl _, iff_of_true rfl trivial⟩
  | appendSubString str first last le bound => exact ⟨Nat.le_refl _, iff_of_true rfl trivial⟩

theorem sum_storedLength : (calls.map fun call => call.1.storedLength).sum ≤
        (calls.flatMap fun call => call.1.text).length ∧
      ((calls.map fun call => call.1.storedLength).sum =
          (calls.flatMap fun call => call.1.text).length ↔ ∀ call ∈ calls, call.1.IsShort) := by
  induction calls with
  | nil => exact ⟨Nat.le_refl 0, iff_of_true rfl fun _ hcall => absurd hcall not_mem_nil⟩
  | cons call calls ih =>
    obtain ⟨hle, hiff⟩ := storedLength_le call.1
    obtain ⟨hle', hiff'⟩ := ih
    rw [map_cons, sum_cons, flatMap_cons, length_append, forall_mem_cons, ← hiff, ← hiff']
    omega

theorem Holds.finalize (h : Holds inlineStorageSize builder content)
    (hstate : state = true → content.length ≤ stringMaximumLength) (memory : Nat → UInt16) :
    ∃ str, StringBuilder.finalize builder state memory = some (str, empty) ∧
      str.content = content ∧ (str.has8BitContent = true ↔ ∀ c ∈ content, c.toNat ≤ 255) := by
  have hlength := h.contentLength_eq
  rw [StringBuilder.finalize]
  by_cases hzero : builder.contentLength = 0
  · rw [if_pos hzero]
    have hnil : content = [] := by
      apply eq_nil_of_length_eq_zero
      omega
    subst hnil
    exact ⟨_, rfl, rfl, iff_of_true rfl fun _ hc => absurd hc not_mem_nil⟩
  rw [if_neg hzero, if_neg fun hover => by
    have hle := hstate hover.1
    omega]
  have hbuffer : builder.buildBuffer memory =
      writeAt memory 0 (content.map (stored builder.has8BitContent)) := by
    rw [buildBuffer, ← foldl_append, foldl_processPiece h.valid h.ascii, h.content_eq]
  have hread : (List.range builder.contentLength).map (builder.buildBuffer memory) =
      content.map (stored builder.has8BitContent) := by
    rw [hbuffer, hlength]
    apply ext_getElem
    · rw [length_map, length_map, length_range]
    · intro k hk hk'
      rw [getElem_map, getElem_range, writeAt, if_pos (Nat.zero_le k), Nat.sub_zero,
        getElem?_eq_getElem hk']
      rfl
  by_cases h8 : builder.has8BitContent = true
  · rw [if_pos h8]
    have hfits := h.fits.mp h8
    refine ⟨_, rfl, ?_, iff_of_true rfl hfits⟩
    show ((List.range builder.contentLength).map fun i =>
      (builder.buildBuffer memory i).toUInt8).map UInt8.toUInt16 = content
    rw [map_stored hfits] at hread
    have hbytes : ((List.range builder.contentLength).map fun i =>
        (builder.buildBuffer memory i).toUInt8) = content.map UInt16.toUInt8 := by
      rw [← hread, List.map_map]
      rfl
    rw [hbytes, List.map_map]
    exact map_stored hfits true
  · rw [if_neg h8]
    refine ⟨_, rfl, ?_, ?_⟩
    · show (List.range builder.contentLength).map (builder.buildBuffer memory) = content
      rw [hread, Bool.eq_false_of_not_eq_true h8]
      exact List.map_id content
    · exact iff_of_false Bool.false_ne_true fun hfits => h8 (h.fits.mpr hfits)

end Appends

/-- The builder has counted the content and is finalized to it, in 8 bits if and only if every
unit fits, and is empty then. -/
def Concatenates (builder : StringBuilder) (content : List UInt16) : Prop :=
  builder.contentLength = content.length ∧ ∀ (state : Bool) (memory : Nat → UInt16),
      (state = true → content.length ≤ stringMaximumLength) →
        ∃ str, builder.finalize state memory = some (str, empty) ∧ str.content = content ∧
          (str.has8BitContent = true ↔ ∀ c ∈ content, c.toNat ≤ 255)

/-- After any calls the builder concatenates what was appended if and only if no characters in
memory have `65536` units or more; and then no exception is thrown while the content is not too
long. -/
theorem builder_concatenates_iff (inlineStorageSize : Nat) (calls : List (AppendCall × Bool)) :
    (∀ builder, appendAll inlineStorageSize empty calls = some builder →
        (builder.Concatenates (calls.flatMap fun call => call.1.text) ↔
          ∀ call ∈ calls, call.1.IsShort)) ∧
      ((∀ call ∈ calls, call.1.IsShort) →
        (calls.flatMap fun call => call.1.text).length ≤ stringMaximumLength →
          (appendAll inlineStorageSize empty calls).isSome) := by
  refine ⟨fun builder hcalls => ⟨fun hconcat => ?_, fun hshort => ?_⟩, fun hshort hle => ?_⟩
  · have hlength := contentLength_appendAll calls hcalls
    rw [hconcat.1] at hlength
    refine (sum_storedLength calls).2.mp ?_
    rw [hlength]
    exact (Nat.zero_add _).symm
  · have hheld := (Holds.appendAll calls holds_empty hshort).1 builder hcalls
    exact ⟨hheld.contentLength_eq, fun state memory hstate => hheld.finalize hstate memory⟩
  · refine (Holds.appendAll calls (@holds_empty inlineStorageSize) hshort).2 ?_
    rwa [nil_append]

/-- Characters in memory. -/
def repeated (n : Nat) : AsciiText where
  bytes := List.replicate n 0x61
  ascii := fun c hc => by
    rw [eq_of_mem_replicate hc]
    decide

/-- Appended at once, the characters are all kept only if their number has 16 bits. -/
theorem lt_of_concatenates_repeated {n : Nat} (hall : ∀ builder : StringBuilder,
      appendAll 24 empty [(.appendConstString (repeated n), false)] = some builder →
        builder.Concatenates
          ([(AppendCall.appendConstString (repeated n), false)].flatMap fun call => call.1.text)) :
    n < 2 ^ 16 := by
  have hcalls : (appendAll 24 empty [(.appendConstString (repeated n), false)]).isSome := by
    rw [appendAll, foldlM_cons, append, appendConstPiece]
    have hlimit : empty.checkStringLengthLimit false (repeated n).bytes.length = some () :=
      if_neg fun hover => Bool.false_ne_true hover.1
    dsimp only [Option.bind_eq_bind, Option.bind_some]
    split
    · rfl
    · rfl
  obtain ⟨builder, hbuilder⟩ := Option.isSome_iff_exists.mp hcalls
  have hlength := contentLength_appendAll _ hbuilder
  have hzero : empty.contentLength = 0 := rfl
  rw [(hall builder hbuilder).1, hzero, Nat.zero_add] at hlength
  have hshort := (sum_storedLength _).2.mp hlength.symm
  have hlt : (List.replicate n (0x61 : UInt8)).length < 2 ^ 16 := hshort _ mem_cons_self
  rwa [length_replicate] at hlt

/-- Of `65537` characters one is kept. -/
theorem length_is_cut : ¬ ∀ (calls : List (AppendCall × Bool)) (builder : StringBuilder),
      appendAll 24 empty calls = some builder →
        builder.Concatenates (calls.flatMap fun call => call.1.text) := by
  intro hall
  have hlt := lt_of_concatenates_repeated (hall [(.appendConstString (repeated 65537), false)])
  omega

end StringBuilder

end Escargot.Runtime
