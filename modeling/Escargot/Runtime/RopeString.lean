/-
# Ropes

Concatenation makes a `RopeString` that only remembers its two halves, and a long
substring makes a `StringView` of its source. Both point to other strings, which
may be shared. A rope is flattened in place when its buffer is needed: a work
stack copies the leaves from right to left. `charAt` walks the rope instead,
unless the same rope was asked just before. The strings live on a heap here, so
that sharing and the change in place are visible.
-/

import Escargot.Foundation.Tombstones
import Escargot.Runtime.AtomicString

namespace Escargot.Runtime

open List Escargot.Foundation

namespace StringBufferAccessData

variable (data : StringBufferAccessData)

/-- The buffer of a view: the pointer moves by `start` and the length is set. -/
def range (start length : Nat) : StringBufferAccessData :=
  match data with
  | bufferAs8Bit buffer => bufferAs8Bit ((buffer.drop start).take length)
  | bufferAs16Bit buffer => bufferAs16Bit ((buffer.drop start).take length)

theorem units_range (start length : Nat) :
    (data.range start length).units = (data.units.drop start).take length := by
  cases data <;> simp [range, units, map_take, map_drop]

/-- The buffer a worker has written, for `LChar` or for `char16_t`. The worker for
`LChar` narrows what it stores. -/
def ofWritten (has8BitContent : Bool) (written : List UInt16) : StringBufferAccessData :=
  if has8BitContent then bufferAs8Bit (written.map UInt16.toUInt8) else bufferAs16Bit written

theorem units_ofWritten {has8BitContent : Bool} {written : List UInt16}
    (h : has8BitContent = true → Interner.isAllLatin1 written = true) :
    (ofWritten has8BitContent written).units = written := by
  cases has8BitContent with
  | true => exact Interner.map_toUInt8_of_isAllLatin1 (h rfl)
  | false => rfl

/-- What `StringBuilder::finalize` makes of its pieces: 8-bit unless a unit needs more. -/
def ofPieces (units : List UInt16) : StringBufferAccessData :=
  ofWritten (Interner.isAllLatin1 units) units

theorem units_ofPieces (content : List UInt16) : (ofPieces content).units = content :=
  units_ofWritten fun h => h

theorem isAllLatin1_units {data : StringBufferAccessData} (h : data.has8BitContent = true) :
    Interner.isAllLatin1 data.units = true := by
  cases data with
  | bufferAs8Bit buffer =>
    have hbyte : ∀ c : UInt8, c.toUInt16 ≤ 0xFF :=
      EString.forall_uint8 (p := fun c => c.toUInt16 ≤ 0xFF) (by decide +kernel)
    simp [Interner.isAllLatin1, units, hbyte]
  | bufferAs16Bit buffer => cases h

def toEString : StringBufferAccessData → EString
  | bufferAs8Bit buffer => .latin1 buffer
  | bufferAs16Bit buffer => .utf16 buffer

theorem content_toEString : data.toEString.content = data.units := by cases data <;> rfl

end StringBufferAccessData

/-- A string object. A `RopeString` is either still made of its halves or flattened. -/
inductive StringNode
  | flat (data : StringBufferAccessData)
  | rope (left right : Nat) (length : Nat) (has8BitContent : Bool)
  | flattened (data : StringBufferAccessData)
  | view (source : Nat) (start length : Nat) (has8BitContent : Bool)

namespace StringNode

def length : StringNode → Nat
  | flat data | flattened data => data.length
  | rope _ _ length _ | view _ _ length _ => length

def has8BitContent : StringNode → Bool
  | flat data | flattened data => data.has8BitContent
  | rope _ _ _ has8BitContent | view _ _ _ has8BitContent => has8BitContent

end StringNode

/-- The string objects by address. -/
abbrev StringNodes := List StringNode

mutual

/-- `String::bufferAccessData`: a rope is flattened in place, a view offsets the buffer of
its source. `none` when the fuel does not suffice or a pointer is not one. -/
def StringNodes.bufferAccessData : Nat → StringNodes → Nat →
    Option (StringNodes × StringBufferAccessData)
  | 0, _, _ => none
  | fuel + 1, nodes, address =>
    match nodes[address]? with
    | none => none
    | some (.flat data) => some (nodes, data)
    | some (.flattened data) => some (nodes, data)
    | some (.rope left right length has8BitContent) =>
      match StringNodes.flattenLoop fuel nodes [right, left] length [] with
      | none => none
      | some (nodes, written) =>
        let data := StringBufferAccessData.ofWritten has8BitContent written
        some (nodes.set address (.flattened data), data)
    | some (.view source start length _) =>
      match StringNodes.bufferAccessData fuel nodes source with
      | none => none
      | some (nodes, data) => some (nodes, data.range start length)

/-- The loop of `RopeString::flattenRopeStringWorker`. The queue has its back first;
`written` is the result from `pos` on. A write before the buffer and a gap at its start are
faults. -/
def StringNodes.flattenLoop : Nat → StringNodes → List Nat → Nat → List UInt16 →
    Option (StringNodes × List UInt16)
  | 0, _, _, _, _ => none
  | _ + 1, nodes, [], pos, written => if pos = 0 then some (nodes, written) else none
  | fuel + 1, nodes, cur :: queue, pos, written =>
    match nodes[cur]? with
    | none => none
    | some (.rope left right _ _) =>
      StringNodes.flattenLoop fuel nodes (right :: left :: queue) pos written
    | some _ =>
      match StringNodes.bufferAccessData fuel nodes cur with
      | none => none
      | some (nodes, data) =>
        if data.length ≤ pos then
          StringNodes.flattenLoop fuel nodes queue (pos - data.length)
            (data.units ++ written)
        else none

end

def StringNodes.charAtWorker (nodes : StringNodes) : Nat → Nat → Nat → Option (Nat × Nat)
  | 0, _, _ => none
  | fuel + 1, idx, self =>
    match nodes[self]? with
    | some (.rope left right _ _) =>
      match nodes[left]? with
      | none => none
      | some leftNode =>
        if idx < leftNode.length then nodes.charAtWorker fuel idx left
        else nodes.charAtWorker fuel (idx - leftNode.length) right
    | _ => some (self, idx)

/-- The heap and `g_lastUsedString`. The strings a walk ends at are not unflattened ropes,
so the calls of `charAt` never nest and `g_headOfCharAt` is always set. -/
structure RopeState where
  nodes : StringNodes
  lastUsedString : Option Nat

/-- What a program does with strings. Every access to a buffer, as by `hashValue`, by the
conversions and by `characters8`, is `bufferAccessData`. -/
inductive StringOp
  | newString (data : StringBufferAccessData)
  | createRopeString (lstr rstr : Nat)
  | substring (str : Nat) (start finish : Nat)
  | newStringView (str : Nat) (start finish : Nat)
  | newStringViewOfView (str : Nat) (start finish : Nat)
  | length (str : Nat)
  | charAt (str : Nat) (idx : Nat)
  | equals (str src : Nat)
  | bufferAccessData (str : Nat)

/-- What an operation answers; `invalid` for a call outside its preconditions. -/
inductive StringAnswer
  | string (address : Nat)
  | length (length : Nat)
  | unit (unit : Option UInt16)
  | truth (truth : Bool)
  | units (units : List UInt16)
  | rangeError
  | invalid

/-- `LATIN1_LARGE_INLINE_BUFFER_MAX_SIZE`. -/
def latin1LargeInlineBufferMaxSize : Nat := 24

/-- `STRING_BUILDER_INLINE_STORAGE_DEFAULT`. -/
def stringBuilderInlineStorageDefault : Nat := 24

/-- `STRING_MAXIMUM_LENGTH`. -/
def stringMaximumLength : Nat := 1024 * 1024 * 512

/-- The length of a string object is a bit field of 62 bits. -/
def lengthFieldSize : Nat := 2 ^ 62

namespace RopeState

/-- `String::emptyString()` is the first string. -/
def initial : RopeState := ⟨[.flat (.bufferAs8Bit [])], none⟩

/-- Enough steps to flatten a string at this address. -/
def fuelFor (address : Nat) : Nat := 3 ^ (address + 1)

def bufferAccessData (state : RopeState) (address : Nat) :
    Option (RopeState × StringBufferAccessData) :=
  (state.nodes.bufferAccessData (fuelFor address) address).map fun (nodes, data) =>
    ({ state with nodes := nodes }, data)

def allocate (state : RopeState) (node : StringNode) : RopeState × StringAnswer :=
  ({ state with nodes := state.nodes ++ [node] }, .string state.nodes.length)

/-- The short concatenation, copied at once. -/
def concatenate (state : RopeState) (lstr rstr : Nat) : Option (RopeState × StringAnswer) :=
  match state.bufferAccessData lstr with
  | none => none
  | some (state, lData) =>
    match state.bufferAccessData rstr with
    | none => none
    | some (state, rData) =>
      match lData, rData with
      | .bufferAs8Bit left, .bufferAs8Bit right =>
        some (state.allocate (.flat (.bufferAs8Bit (left ++ right))))
      | _, _ => some (state.allocate (.flat (.ofPieces (lData.units ++ rData.units))))

/-- `RopeString::createRopeString` with an execution state, as every caller has one. -/
def createRopeString (state : RopeState) (lstr rstr : Nat) : Option (RopeState × StringAnswer) :=
  match state.nodes[lstr]?, state.nodes[rstr]? with
  | some left, some right =>
    let llen := left.length
    let rlen := right.length
    if llen = 0 then some (state, .string rstr)
    else if rlen = 0 then some (state, .string lstr)
    else if llen + rlen ≤ latin1LargeInlineBufferMaxSize then state.concatenate lstr rstr
    else if stringMaximumLength < llen + rlen then some (state, .rangeError)
    else
      some (state.allocate (.rope lstr rstr ((llen + rlen) % lengthFieldSize)
        (left.has8BitContent && right.has8BitContent)))
  | _, _ => some (state, .invalid)

def substring (state : RopeState) (str start finish : Nat) : Option (RopeState × StringAnswer) :=
  match state.nodes[str]? with
  | none => some (state, .invalid)
  | some node =>
    if finish ≤ start then some (state, .string 0)
    else if node.length < finish then some (state, .invalid)
    else if stringBuilderInlineStorageDefault < finish - start then
      some (state.allocate (.view str start (finish - start) node.has8BitContent))
    else
      match state.bufferAccessData str with
      | none => none
      | some (state, data) =>
        match data.range start (finish - start) with
        | .bufferAs8Bit buffer => some (state.allocate (.flat (.bufferAs8Bit buffer)))
        | .bufferAs16Bit buffer => some (state.allocate (.flat (.ofPieces buffer)))

/-- `StringView(String*, s, e)`. -/
def newStringView (state : RopeState) (str start finish : Nat) : RopeState × StringAnswer :=
  match state.nodes[str]? with
  | none => (state, .invalid)
  | some node =>
    if start ≤ finish ∧ finish ≤ node.length then
      state.allocate (.view str start (finish - start) node.has8BitContent)
    else (state, .invalid)

/-- `StringView(const StringView&, s, e)`: a view of what the view looks at. -/
def newStringViewOfView (state : RopeState) (str start finish : Nat) : RopeState × StringAnswer :=
  match state.nodes[str]? with
  | some (.view source viewStart length _) =>
    match state.nodes[source]? with
    | none => (state, .invalid)
    | some node =>
      if start ≤ finish ∧ finish ≤ length then
        state.allocate
          (.view source (start + viewStart) (finish - start) node.has8BitContent)
      else (state, .invalid)
  | _ => (state, .invalid)

/-- `String::charAt`, on a buffer. -/
def charAtOfBuffer (state : RopeState) (str idx : Nat) : Option (RopeState × StringAnswer) :=
  (state.bufferAccessData str).map fun (state, data) => (state, .unit data.units[idx]?)

/-- `charAt`. A rope that was asked just before is flattened. -/
def charAt (state : RopeState) (str idx : Nat) : Option (RopeState × StringAnswer) :=
  match state.nodes[str]? with
  | none => some (state, .invalid)
  | some node =>
    if node.length ≤ idx then some (state, .invalid)
    else
      match node with
      | .rope _ _ _ _ =>
        let isOftenUsed := state.lastUsedString = some str
        let state := { state with lastUsedString := some str }
        if isOftenUsed then state.charAtOfBuffer str idx
        else
          match state.nodes.charAtWorker (str + 1) idx str with
          | none => none
          | some (leaf, idx) => state.charAtOfBuffer leaf idx
      | _ => state.charAtOfBuffer str idx

/-- `String::equals`: lengths first, then the buffers. -/
def equals (state : RopeState) (str src : Nat) : Option (RopeState × StringAnswer) :=
  match state.nodes[str]?, state.nodes[src]? with
  | some node, some srcNode =>
    if node.length ≠ srcNode.length then some (state, .truth false)
    else
      match state.bufferAccessData str with
      | none => none
      | some (state, myData) =>
        match state.bufferAccessData src with
        | none => none
        | some (state, srcData) => some (state, .truth (myData.toEString.equals srcData.toEString))
  | _, _ => some (state, .invalid)

/-- One operation; `none` when it does not return. -/
def step (state : RopeState) : StringOp → Option (RopeState × StringAnswer)
  | .newString data => some (state.allocate (.flat data))
  | .createRopeString lstr rstr => state.createRopeString lstr rstr
  | .substring str start finish => state.substring str start finish
  | .newStringView str start finish => some (state.newStringView str start finish)
  | .newStringViewOfView str start finish => some (state.newStringViewOfView str start finish)
  | .length str =>
    match state.nodes[str]? with
    | none => some (state, .invalid)
    | some node => some (state, .length node.length)
  | .charAt str idx => state.charAt str idx
  | .equals str src => state.equals str src
  | .bufferAccessData str =>
    if str < state.nodes.length then
      (state.bufferAccessData str).map fun (state, data) => (state, .units data.units)
    else some (state, .invalid)

end RopeState

/-- A string as its code units alone; a view is still recognised as one. -/
structure PlainString where
  content : List UInt16
  isView : Bool

def contentAt (strings : List PlainString) (address : Nat) : List UInt16 :=
  (strings[address]?.map PlainString.content).getD []

def addString (strings : List PlainString) (content : List UInt16) (isView : Bool) :
    List PlainString × StringAnswer :=
  (strings ++ [⟨content, isView⟩], .string strings.length)

def slice (content : List UInt16) (start finish : Nat) : List UInt16 :=
  (content.drop start).take (finish - start)

/-- The operations on plain strings: concatenation is concatenation at once. -/
def plainStringStep (strings : List PlainString) : StringOp → List PlainString × StringAnswer
  | .newString data => addString strings data.units false
  | .createRopeString lstr rstr =>
    match strings[lstr]?, strings[rstr]? with
    | some left, some right =>
      if left.content = [] then (strings, .string rstr)
      else if right.content = [] then (strings, .string lstr)
      else if stringMaximumLength < (left.content ++ right.content).length then
        (strings, .rangeError)
      else addString strings (left.content ++ right.content) false
    | _, _ => (strings, .invalid)
  | .substring str start finish =>
    match strings[str]? with
    | none => (strings, .invalid)
    | some string =>
      if finish ≤ start then (strings, .string 0)
      else if string.content.length < finish then (strings, .invalid)
      else
        addString strings (slice string.content start finish)
          (stringBuilderInlineStorageDefault < finish - start)
  | .newStringView str start finish =>
    match strings[str]? with
    | none => (strings, .invalid)
    | some string =>
      if start ≤ finish ∧ finish ≤ string.content.length then
        addString strings (slice string.content start finish) true
      else (strings, .invalid)
  | .newStringViewOfView str start finish =>
    match strings[str]? with
    | none => (strings, .invalid)
    | some string =>
      if string.isView = true ∧ start ≤ finish ∧ finish ≤ string.content.length then
        addString strings (slice string.content start finish) true
      else (strings, .invalid)
  | .length str =>
    match strings[str]? with
    | none => (strings, .invalid)
    | some string => (strings, .length string.content.length)
  | .charAt str idx =>
    match strings[str]? with
    | none => (strings, .invalid)
    | some string =>
      if string.content.length ≤ idx then (strings, .invalid)
      else (strings, .unit string.content[idx]?)
  | .equals str src =>
    match strings[str]?, strings[src]? with
    | some first, some second => (strings, .truth (first.content = second.content))
    | _, _ => (strings, .invalid)
  | .bufferAccessData str =>
    match strings[str]? with
    | none => (strings, .invalid)
    | some string => (strings, .units string.content)

/-- A node of the heap stands for the content. Halves and sources are older strings, and an
object marked 8-bit holds Latin-1. -/
def StringNode.Holds (strings : List PlainString) (address : Nat) : StringNode → PlainString → Prop
  | .flat data, string => data.units = string.content ∧ string.isView = false
  | .flattened data, string => data.units = string.content ∧ string.isView = false
  | .rope left right length has8BitContent, string =>
    left < address ∧ right < address ∧
      string.content = contentAt strings left ++ contentAt strings right ∧
      length = string.content.length ∧
      (has8BitContent = true → Interner.isAllLatin1 string.content = true) ∧
      string.isView = false
  | .view source start length has8BitContent, string =>
    source < address ∧ start + length ≤ (contentAt strings source).length ∧
      string.content = ((contentAt strings source).drop start).take length ∧
      (has8BitContent = true → Interner.isAllLatin1 string.content = true) ∧
      string.isView = true

structure StringNodes.Denotes (nodes : StringNodes) (strings : List PlainString) : Prop where
  length_eq : nodes.length = strings.length
  holds : ∀ (address : Nat) (node : StringNode) string, nodes[address]? = some node → strings[address]? = some string →
    node.Holds strings address string

section Denotes

variable {nodes : StringNodes} {strings : List PlainString} {address : Nat} {string : PlainString}

theorem contentAt_eq (h : strings[address]? = some string) :
    contentAt strings address = string.content := by
  rw [contentAt, h]
  rfl

variable {node : StringNode}

theorem StringNodes.Denotes.exists_string (hden : nodes.Denotes strings)
    (hnode : nodes[address]? = some node) :
    ∃ string, strings[address]? = some string ∧ node.Holds strings address string := by
  have hlt : address < strings.length := by
    rw [← hden.length_eq]
    exact (List.getElem?_eq_some_iff.mp hnode).1
  exact ⟨strings[address], getElem?_eq_getElem hlt,
    hden.holds address node _ hnode (getElem?_eq_getElem hlt)⟩

theorem StringNode.Holds.length_eq (h : node.Holds strings address string) :
    node.length = string.content.length := by
  cases node with
  | flat data =>
    rw [← h.1, StringBufferAccessData.length_units]
    rfl
  | flattened data =>
    rw [← h.1, StringBufferAccessData.length_units]
    rfl
  | rope left right length has8BitContent => exact h.2.2.2.1
  | view source start length has8BitContent =>
    obtain ⟨-, hbound, hcontent, -, -⟩ := h
    rw [hcontent, length_take, length_drop]
    show length = _
    omega

theorem StringNode.Holds.isAllLatin1 (h : node.Holds strings address string)
    (hbit : node.has8BitContent = true) :
    Interner.isAllLatin1 string.content = true := by
  cases node with
  | flat data =>
    rw [← h.1]
    exact StringBufferAccessData.isAllLatin1_units hbit
  | flattened data =>
    rw [← h.1]
    exact StringBufferAccessData.isAllLatin1_units hbit
  | rope left right length has8BitContent => exact h.2.2.2.2.1 hbit
  | view source start length has8BitContent => exact h.2.2.2.1 hbit

theorem StringNodes.Denotes.set (hden : nodes.Denotes strings)
    (hstring : strings[address]? = some string) (hnode : node.Holds strings address string) :
    StringNodes.Denotes (nodes.set address node) strings := by
  refine ⟨by rw [length_set, hden.length_eq], fun other old plain hold hplain => ?_⟩
  rw [getElem?_set] at hold
  split at hold
  · rename_i heq
    subst heq
    cases hstring.symm.trans hplain
    split at hold
    · cases hold
      exact hnode
    · cases hold
  · exact hden.holds other old plain hold hplain

end Denotes

/-- The units the loop still has to write in front of the result. -/
def queueContent (strings : List PlainString) : List Nat → List UInt16
  | [] => []
  | cur :: queue => queueContent strings queue ++ contentAt strings cur

/-- Steps the loop needs for its queue. -/
def queueFuel : List Nat → Nat
  | [] => 1
  | cur :: queue => RopeState.fuelFor cur + queueFuel queue

theorem three_le_fuelFor (address : Nat) : 3 ≤ RopeState.fuelFor address :=
  Nat.le_self_pow (Nat.succ_ne_zero address) 3

theorem fuelFor_of_lt {older address : Nat} (h : older < address) :
    3 * RopeState.fuelFor older ≤ RopeState.fuelFor address := by
  rw [RopeState.fuelFor, RopeState.fuelFor, ← Nat.pow_succ']
  exact Nat.pow_le_pow_right (by decide) (by omega)

section Flatten

variable {strings : List PlainString}

def Readable (strings : List PlainString) (fuel : Nat) : Prop :=
  ∀ (nodes : StringNodes) (address : Nat), nodes.Denotes strings → address < nodes.length →
    RopeState.fuelFor address ≤ fuel →
    ∃ after data, nodes.bufferAccessData fuel address = some (after, data) ∧
      after.Denotes strings ∧ data.units = contentAt strings address

/-- The loop empties its queue with this fuel. -/
def Flattens (strings : List PlainString) (fuel : Nat) : Prop :=
  ∀ (nodes : StringNodes) (queue : List Nat) (pos : Nat) (written : List UInt16),
    nodes.Denotes strings → (∀ cur ∈ queue, cur < nodes.length) → queueFuel queue ≤ fuel →
    pos = (queueContent strings queue).length →
    ∃ after, nodes.flattenLoop fuel queue pos written =
        some (after, queueContent strings queue ++ written) ∧ after.Denotes strings

theorem readable_succ {fuel : Nat} (hread : Readable strings fuel)
    (hflatten : Flattens strings fuel) : Readable strings (fuel + 1) := by
  intro nodes address hden haddress hfuel
  obtain ⟨node, hnode⟩ : ∃ node, nodes[address]? = some node :=
    ⟨nodes[address], getElem?_eq_getElem haddress⟩
  obtain ⟨string, hstring, hholds⟩ := hden.exists_string hnode
  rw [StringNodes.bufferAccessData, hnode, contentAt_eq hstring]
  cases node with
  | flat data => exact ⟨nodes, data, rfl, hden, hholds.1⟩
  | flattened data => exact ⟨nodes, data, rfl, hden, hholds.1⟩
  | rope left right length has8BitContent =>
    obtain ⟨hleft, hright, hcontent, hlength, hlatin1, hview⟩ := hholds
    have hqueue : queueContent strings [right, left] = string.content := by
      rw [hcontent]
      rfl
    have hsteps : queueFuel [right, left] ≤ fuel := by
      have hl := fuelFor_of_lt hleft
      have hr := fuelFor_of_lt hright
      have hpos := three_le_fuelFor left
      have hpos' := three_le_fuelFor right
      simp only [queueFuel]
      omega
    have holder : ∀ cur ∈ [right, left], cur < nodes.length := by
      intro cur hcur
      simp only [mem_cons, not_mem_nil, or_false] at hcur
      rcases hcur with rfl | rfl <;> omega
    obtain ⟨after, hloop, hafter⟩ :=
      hflatten nodes [right, left] length [] hden holder hsteps (by rw [hqueue, hlength])
    rw [hqueue, append_nil] at hloop
    have hunits : (StringBufferAccessData.ofWritten has8BitContent string.content).units =
        string.content := StringBufferAccessData.units_ofWritten hlatin1
    have hflattened : StringNode.Holds strings address
        (.flattened (.ofWritten has8BitContent string.content)) string := ⟨hunits, hview⟩
    refine ⟨_, _, ?_, hafter.set hstring hflattened, hunits⟩
    dsimp only
    rw [hloop]
  | view source start length has8BitContent =>
    obtain ⟨hsource, hbound, hcontent, -, -⟩ := hholds
    have hsteps : RopeState.fuelFor source ≤ fuel := by
      have hs := fuelFor_of_lt hsource
      have hpos := three_le_fuelFor source
      omega
    obtain ⟨after, data, hdata, hafter, hunits⟩ := hread nodes source hden (hsource.trans haddress) hsteps
    refine ⟨after, data.range start length, ?_, hafter, ?_⟩
    · dsimp only
      rw [hdata]
    · rw [StringBufferAccessData.units_range, hunits, hcontent]

theorem flattens_succ {fuel : Nat} (hread : Readable strings fuel)
    (hflatten : Flattens strings fuel) : Flattens strings (fuel + 1) := by
  intro nodes queue pos written hden hqueue hfuel hpos
  cases queue with
  | nil =>
    subst hpos
    exact ⟨nodes, rfl, hden⟩
  | cons cur queue =>
    have hcur : cur < nodes.length := hqueue cur mem_cons_self
    have hrest : ∀ other ∈ queue, other < nodes.length :=
      fun other hother => hqueue other (mem_cons_of_mem cur hother)
    obtain ⟨node, hnode⟩ : ∃ node, nodes[cur]? = some node := ⟨nodes[cur], getElem?_eq_getElem hcur⟩
    obtain ⟨string, hstring, hholds⟩ := hden.exists_string hnode
    have hfuelFor := three_le_fuelFor cur
    rw [queueFuel] at hfuel
    -- A string that is not a rope is copied as a whole.
    have hcopy : ∃ after, (match nodes.bufferAccessData fuel cur with
        | none => none
        | some (nodes, data) =>
          if data.length ≤ pos then
            StringNodes.flattenLoop fuel nodes queue (pos - data.length)
              (data.units ++ written)
          else none) = some (after, queueContent strings (cur :: queue) ++ written) ∧
        after.Denotes strings := by
      have hone : 1 ≤ queueFuel queue := by
        cases queue with
        | nil => exact Nat.le_refl 1
        | cons next rest =>
          have := three_le_fuelFor next
          rw [queueFuel]
          omega
      obtain ⟨middle, data, hdata, hmiddle, hunits⟩ := hread nodes cur hden hcur (by omega)
      have hlength : data.length = (contentAt strings cur).length := by
        rw [← hunits, StringBufferAccessData.length_units]
      have htotal : pos = (queueContent strings queue).length + data.length := by
        rw [hpos, queueContent, length_append, hlength]
      have hsame : middle.length = nodes.length := by rw [hmiddle.length_eq, hden.length_eq]
      obtain ⟨after, hloop, hafter⟩ := hflatten middle queue (pos - data.length)
        (data.units ++ written) hmiddle (by rwa [hsame]) (by omega) (by omega)
      refine ⟨after, ?_, hafter⟩
      rw [hdata]
      dsimp only
      rw [if_pos (by omega), hloop, hunits, queueContent, append_assoc]
    rw [StringNodes.flattenLoop, hnode]
    cases node with
    | flat data => exact hcopy
    | flattened data => exact hcopy
    | view source start length has8BitContent => exact hcopy
    | rope left right length has8BitContent =>
      obtain ⟨hleft, hright, hcontent, -, -, -⟩ := hholds
      have hsplit : queueContent strings (right :: left :: queue) =
          queueContent strings (cur :: queue) := by
        rw [queueContent, queueContent, queueContent, contentAt_eq hstring, hcontent, append_assoc]
      have hl := fuelFor_of_lt hleft
      have hr := fuelFor_of_lt hright
      have hpos' := three_le_fuelFor left
      have hpos'' := three_le_fuelFor right
      have hsteps : queueFuel (right :: left :: queue) ≤ fuel := by
        simp only [queueFuel]
        omega
      have hpushed : ∀ other ∈ right :: left :: queue, other < nodes.length := by
        intro other hother
        rcases List.mem_cons.mp hother with rfl | hother
        · exact hright.trans hcur
        · rcases List.mem_cons.mp hother with rfl | hother
          · exact hleft.trans hcur
          · exact hrest other hother
      rw [← hsplit] at hpos ⊢
      exact hflatten nodes (right :: left :: queue) pos written hden hpushed hsteps hpos

theorem readable_and_flattens (strings : List PlainString) :
    ∀ fuel, Readable strings fuel ∧ Flattens strings fuel
  | 0 => by
      refine ⟨fun _ address _ _ hfuel => ?_, fun _ queue _ _ _ _ hfuel _ => ?_⟩
      · have := three_le_fuelFor address
        omega
      · cases queue with
        | nil => exact absurd hfuel (by decide)
        | cons cur queue =>
          have := three_le_fuelFor cur
          rw [queueFuel] at hfuel
          omega
  | fuel + 1 =>
    have ih := readable_and_flattens strings fuel
    ⟨readable_succ ih.1 ih.2, flattens_succ ih.1 ih.2⟩

theorem fuel_mono : ∀ fuel : Nat,
    (∀ {nodes : StringNodes} {address : Nat} {result : StringNodes × StringBufferAccessData},
      nodes.bufferAccessData fuel address = some result →
      nodes.bufferAccessData (fuel + 1) address = some result) ∧
    ∀ {nodes : StringNodes} {queue : List Nat} {pos : Nat} {written : List UInt16}
      {result : StringNodes × List UInt16},
      nodes.flattenLoop fuel queue pos written = some result →
      nodes.flattenLoop (fuel + 1) queue pos written = some result
  | 0 => ⟨fun h => (by cases h), fun h => (by cases h)⟩
  | fuel + 1 => by
      obtain ⟨hread, hloop⟩ := fuel_mono fuel
      constructor
      · intro nodes address result h
        rw [StringNodes.bufferAccessData] at h ⊢
        split at h
        · cases h
        · exact h
        · exact h
        · split at h
          · cases h
          · rename_i hflat
            rw [hloop hflat]
            exact h
        · split at h
          · cases h
          · rename_i hdata
            rw [hread hdata]
            exact h
      · intro nodes queue pos written result h
        cases queue with
        | nil => exact h
        | cons cur queue =>
          rw [StringNodes.flattenLoop] at h ⊢
          split at h
          · cases h
          · exact hloop h
          · split at h
            · cases h
            · rename_i hdata
              rw [hread hdata]
              split at h
              · rename_i hfits
                dsimp only
                rw [if_pos hfits]
                exact hloop h
              · cases h

/-- A string of the heap can be read, however deep it is: the result does not depend on the
fuel once there is enough. -/
theorem StringNodes.Denotes.bufferAccessData {nodes : StringNodes} (hden : nodes.Denotes strings)
    {address : Nat} (haddress : address < nodes.length) :
    ∃ after data, (∀ fuel, RopeState.fuelFor address ≤ fuel →
        nodes.bufferAccessData fuel address = some (after, data)) ∧
      after.Denotes strings ∧ data.units = contentAt strings address := by
  obtain ⟨after, data, hdata, hafter, hunits⟩ :=
    (readable_and_flattens strings (RopeState.fuelFor address)).1 nodes address hden haddress
      (Nat.le_refl _)
  refine ⟨after, data, fun fuel hfuel => ?_, hafter, hunits⟩
  obtain ⟨more, rfl⟩ := Nat.exists_eq_add_of_le hfuel
  clear hfuel
  induction more with
  | zero => exact hdata
  | succ more ih => exact (fuel_mono _).1 ih

end Flatten

/-- The walk ends at a string that is not an unflattened rope, at the same unit. -/
theorem charAtWorker_spec {nodes : StringNodes} {strings : List PlainString}
    (hden : nodes.Denotes strings) : ∀ {fuel self idx : Nat}, self < fuel → self < nodes.length →
    idx < (contentAt strings self).length →
    ∃ leaf idx', nodes.charAtWorker fuel idx self = some (leaf, idx') ∧ leaf < nodes.length ∧
      (contentAt strings leaf)[idx']? = (contentAt strings self)[idx]?
  | 0, self, _, hfuel, _, _ => absurd hfuel (Nat.not_lt_zero self)
  | fuel + 1, self, idx, hfuel, hself, hidx => by
      obtain ⟨node, hnode⟩ : ∃ node, nodes[self]? = some node :=
        ⟨nodes[self], getElem?_eq_getElem hself⟩
      obtain ⟨string, hstring, hholds⟩ := hden.exists_string hnode
      rw [StringNodes.charAtWorker, hnode]
      cases node with
      | flat data => exact ⟨self, idx, rfl, hself, rfl⟩
      | flattened data => exact ⟨self, idx, rfl, hself, rfl⟩
      | view source start length has8BitContent => exact ⟨self, idx, rfl, hself, rfl⟩
      | rope left right length has8BitContent =>
        obtain ⟨hleft, hright, hcontent, -, -, -⟩ := hholds
        obtain ⟨leftNode, hleftNode⟩ : ∃ node, nodes[left]? = some node :=
          ⟨nodes[left], getElem?_eq_getElem (hleft.trans hself)⟩
        obtain ⟨leftString, hleftString, hleftHolds⟩ := hden.exists_string hleftNode
        have hlength : leftNode.length = (contentAt strings left).length := by
          rw [hleftHolds.length_eq, contentAt_eq hleftString]
        have hself' : contentAt strings self = contentAt strings left ++ contentAt strings right := by
          rw [contentAt_eq hstring, hcontent]
        rw [hself', length_append] at hidx
        dsimp only
        rw [hleftNode]
        dsimp only
        split
        · rename_i hlt
          rw [hlength] at hlt
          obtain ⟨leaf, idx', hwalk, hleaf, hunit⟩ :=
            charAtWorker_spec hden (Nat.lt_of_lt_of_le hleft (Nat.le_of_lt_succ hfuel))
              (hleft.trans hself) hlt
          exact ⟨leaf, idx', hwalk, hleaf, by rw [hunit, hself', getElem?_append_left hlt]⟩
        · rename_i hge
          rw [hlength] at hge ⊢
          obtain ⟨leaf, idx', hwalk, hleaf, hunit⟩ :=
            charAtWorker_spec hden (Nat.lt_of_lt_of_le hright (Nat.le_of_lt_succ hfuel))
              (hright.trans hself)
              (show idx - (contentAt strings left).length < (contentAt strings right).length by
                omega)
          exact ⟨leaf, idx', hwalk, hleaf, by
            rw [hunit, hself', getElem?_append_right (Nat.le_of_not_lt hge)]⟩

variable {strings : List PlainString}

theorem contentAt_concat {address : Nat} (h : address < strings.length) (string : PlainString) :
    contentAt (strings ++ [string]) address = contentAt strings address := by
  rw [contentAt, contentAt, getElem?_append_left h]

/-- Older strings stand for the same content after an allocation. -/
theorem StringNode.Holds.concat {address : Nat} {node : StringNode} {string : PlainString}
    (h : node.Holds strings address string) (haddress : address ≤ strings.length)
    (new : PlainString) :
    node.Holds (strings ++ [new]) address string := by
  cases node with
  | flat data => exact h
  | flattened data => exact h
  | rope left right length has8BitContent =>
    obtain ⟨hleft, hright, hrest⟩ := h
    refine ⟨hleft, hright, ?_⟩
    rwa [contentAt_concat (by omega), contentAt_concat (by omega)]
  | view source start length has8BitContent =>
    obtain ⟨hsource, hrest⟩ := h
    refine ⟨hsource, ?_⟩
    rwa [contentAt_concat (by omega)]

theorem StringNodes.Denotes.concat {nodes : StringNodes} (hden : nodes.Denotes strings)
    {node : StringNode} {string : PlainString} (hnode : node.Holds strings strings.length string) :
    StringNodes.Denotes (nodes ++ [node]) (strings ++ [string]) := by
  refine ⟨?_, fun address old plain hold hplain => ?_⟩
  · rw [length_append, length_append, hden.length_eq]
    rfl
  · rcases getElem?_concat_iff.mp hold with hold | ⟨rfl, rfl⟩
    · obtain ⟨plain', hplain', hholds⟩ := hden.exists_string hold
      have hlt := (List.getElem?_eq_some_iff.mp hplain').1
      rw [getElem?_append_left hlt, hplain'] at hplain
      cases hplain
      exact hholds.concat (Nat.le_of_lt hlt) string
    · rw [hden.length_eq, getElem?_concat_length] at hplain
      cases hplain
      rw [hden.length_eq]
      exact hnode.concat (Nat.le_refl _) string

namespace RopeState

variable {state : RopeState} {strings : List PlainString}

/-- The operation returns, answers as the plain strings do and leaves a heap of them. -/
def Agrees (result : Option (RopeState × StringAnswer))
    (plain : List PlainString × StringAnswer) : Prop :=
  ∃ next answer, result = some (next, answer) ∧ answer = plain.2 ∧ next.nodes.Denotes plain.1

section

variable (hden : state.nodes.Denotes strings)
include hden

theorem bufferAccessData_spec {str : Nat} (hstr : str < state.nodes.length) :
    ∃ next data, state.bufferAccessData str = some (next, data) ∧
      next.nodes.Denotes strings ∧ data.units = contentAt strings str := by
  obtain ⟨after, data, hdata, hafter, hunits⟩ := hden.bufferAccessData hstr
  refine ⟨⟨after, state.lastUsedString⟩, data, ?_, hafter, hunits⟩
  rw [bufferAccessData, hdata _ (Nat.le_refl _)]
  rfl

theorem agrees_answer (answer : StringAnswer) : Agrees (some (state, answer)) (strings, answer) :=
  ⟨state, answer, rfl, rfl, hden⟩

variable {content : List UInt16}

theorem allocate_agrees {node : StringNode} {isView : Bool}
    (hnode : node.Holds strings strings.length ⟨content, isView⟩) :
    Agrees (some (state.allocate node)) (addString strings content isView) := by
  refine ⟨_, _, rfl, ?_, hden.concat hnode⟩
  show StringAnswer.string state.nodes.length = .string strings.length
  rw [hden.length_eq]

theorem allocate_flat_agrees {data : StringBufferAccessData} (hunits : data.units = content) :
    Agrees (some (state.allocate (.flat data))) (addString strings content false) := by
  have hholds : StringNode.Holds strings strings.length (.flat data) ⟨content, false⟩ :=
    ⟨hunits, rfl⟩
  exact allocate_agrees hden hholds

theorem lookup_cases (str : Nat) : (state.nodes[str]? = none ∧ strings[str]? = none) ∨
      ∃ node string, state.nodes[str]? = some node ∧ strings[str]? = some string ∧
        node.Holds strings str string := by
  cases hnode : state.nodes[str]? with
  | none =>
    refine Or.inl ⟨rfl, ?_⟩
    rw [List.getElem?_eq_none_iff] at hnode ⊢
    rwa [← hden.length_eq]
  | some node =>
    obtain ⟨string, hstring, hholds⟩ := hden.exists_string hnode
    exact Or.inr ⟨node, string, rfl, hstring, hholds⟩

theorem concatenate_agrees {lstr rstr : Nat} (hl : lstr < state.nodes.length)
    (hr : rstr < state.nodes.length) :
    Agrees (state.concatenate lstr rstr)
      (addString strings (contentAt strings lstr ++ contentAt strings rstr) false) := by
  obtain ⟨middle, lData, hlData, hmiddle, hlunits⟩ := bufferAccessData_spec hden hl
  have hr' : rstr < middle.nodes.length := by rwa [hmiddle.length_eq, ← hden.length_eq]
  obtain ⟨next, rData, hrData, hnext, hrunits⟩ := bufferAccessData_spec hmiddle hr'
  rw [concatenate, hlData]
  dsimp only
  rw [hrData, ← hlunits, ← hrunits]
  cases lData with
  | bufferAs16Bit left => exact allocate_flat_agrees hnext (StringBufferAccessData.units_ofPieces _)
  | bufferAs8Bit left =>
    cases rData with
    | bufferAs16Bit right =>
      exact allocate_flat_agrees hnext (StringBufferAccessData.units_ofPieces _)
    | bufferAs8Bit right => exact allocate_flat_agrees hnext (map_append ..)

end

theorem isAllLatin1_append {first second : List UInt16}
    (hfirst : Interner.isAllLatin1 first = true) (hsecond : Interner.isAllLatin1 second = true) :
    Interner.isAllLatin1 (first ++ second) = true := by
  rw [Interner.isAllLatin1] at hfirst hsecond ⊢
  rw [all_append, hfirst, hsecond]
  rfl

theorem createRopeString_agrees (hden : state.nodes.Denotes strings) (lstr rstr : Nat) :
    Agrees (state.createRopeString lstr rstr) (plainStringStep strings (.createRopeString lstr rstr)) := by
  rw [createRopeString, plainStringStep]
  rcases lookup_cases hden lstr with ⟨hl, hl'⟩ | ⟨left, lplain, hl, hl', hlholds⟩
  · rw [hl, hl']
    exact agrees_answer hden _
  · rcases lookup_cases hden rstr with ⟨hr, hr'⟩ | ⟨right, rplain, hr, hr', hrholds⟩
    · rw [hl, hl', hr, hr']
      exact agrees_answer hden _
    · rw [hl, hl', hr, hr']
      have hlt := (List.getElem?_eq_some_iff.mp hl).1
      have hrt := (List.getElem?_eq_some_iff.mp hr).1
      dsimp only
      rw [hlholds.length_eq, hrholds.length_eq, length_append]
      simp only [length_eq_zero_iff]
      by_cases hlnil : lplain.content = []
      · rw [if_pos hlnil, if_pos hlnil]
        exact agrees_answer hden _
      · rw [if_neg hlnil, if_neg hlnil]
        by_cases hrnil : rplain.content = []
        · rw [if_pos hrnil, if_pos hrnil]
          exact agrees_answer hden _
        · rw [if_neg hrnil, if_neg hrnil]
          have hmax : latin1LargeInlineBufferMaxSize < stringMaximumLength := by decide
          split
          · rename_i hshort
            rw [if_neg (by omega), ← contentAt_eq hl', ← contentAt_eq hr']
            exact concatenate_agrees hden hlt hrt
          · split
            · exact agrees_answer hden _
            · rename_i hfits
              refine allocate_agrees hden ⟨?_, ?_, ?_, ?_, ?_, rfl⟩
              · rwa [← hden.length_eq]
              · rwa [← hden.length_eq]
              · rw [contentAt_eq hl', contentAt_eq hr']
              · have hfield : stringMaximumLength < lengthFieldSize := by decide
                rw [length_append]
                exact Nat.mod_eq_of_lt (by omega)
              · intro hbits
                rw [Bool.and_eq_true] at hbits
                exact isAllLatin1_append (hlholds.isAllLatin1 hbits.1) (hrholds.isAllLatin1 hbits.2)

theorem isAllLatin1_slice (h : Interner.isAllLatin1 content = true) (start length : Nat) :
    Interner.isAllLatin1 ((content.drop start).take length) = true := by
  rw [Interner.isAllLatin1, List.all_eq_true] at h ⊢
  exact fun unit hunit => h unit (mem_of_mem_drop (mem_of_mem_take hunit))

theorem view_holds (hden : state.nodes.Denotes strings) {str : Nat} {node : StringNode}
    {string : PlainString} (hnode : state.nodes[str]? = some node)
    (hstring : strings[str]? = some string) (hholds : node.Holds strings str string)
    {start length : Nat} (hbound : start + length ≤ string.content.length) :
    StringNode.Holds strings strings.length (.view str start length node.has8BitContent)
      ⟨(string.content.drop start).take length, true⟩ := by
  refine ⟨?_, ?_, ?_, fun hbit => isAllLatin1_slice (hholds.isAllLatin1 hbit) start length, rfl⟩
  · rw [← hden.length_eq]
    exact (List.getElem?_eq_some_iff.mp hnode).1
  · rwa [contentAt_eq hstring]
  · rw [contentAt_eq hstring]

theorem substring_agrees (hden : state.nodes.Denotes strings) (str start finish : Nat) :
    Agrees (state.substring str start finish) (plainStringStep strings (.substring str start finish)) := by
  rw [substring, plainStringStep]
  rcases lookup_cases hden str with ⟨hstr, hstr'⟩ | ⟨node, string, hstr, hstr', hholds⟩
  · rw [hstr, hstr']
    exact agrees_answer hden _
  · rw [hstr, hstr']
    dsimp only
    rw [hholds.length_eq]
    by_cases hempty : finish ≤ start
    · rw [if_pos hempty, if_pos hempty]
      exact agrees_answer hden _
    · rw [if_neg hempty, if_neg hempty]
      by_cases hout : string.content.length < finish
      · rw [if_pos hout, if_pos hout]
        exact agrees_answer hden _
      · rw [if_neg hout, if_neg hout]
        split
        · rename_i hlong
          rw [decide_eq_true hlong]
          exact allocate_agrees hden (view_holds hden hstr hstr' hholds (by omega))
        · rename_i hshort
          obtain ⟨next, data, hdata, hnext, hunits⟩ :=
            bufferAccessData_spec hden (List.getElem?_eq_some_iff.mp hstr).1
          have hrange : (data.range start (finish - start)).units =
              slice string.content start finish := by
            rw [StringBufferAccessData.units_range, hunits, contentAt_eq hstr']
            rfl
          rw [hdata, decide_eq_false hshort, ← hrange]
          dsimp only
          cases data.range start (finish - start) with
          | bufferAs8Bit buffer => exact allocate_flat_agrees hnext rfl
          | bufferAs16Bit buffer =>
            exact allocate_flat_agrees hnext (StringBufferAccessData.units_ofPieces buffer)

theorem newStringView_agrees (hden : state.nodes.Denotes strings) (str start finish : Nat) :
    Agrees (some (state.newStringView str start finish))
      (plainStringStep strings (.newStringView str start finish)) := by
  rw [newStringView, plainStringStep]
  rcases lookup_cases hden str with ⟨hstr, hstr'⟩ | ⟨node, string, hstr, hstr', hholds⟩
  · rw [hstr, hstr']
    exact agrees_answer hden _
  · rw [hstr, hstr']
    dsimp only
    rw [hholds.length_eq]
    split
    · exact allocate_agrees hden (view_holds hden hstr hstr' hholds (by omega))
    · exact agrees_answer hden _

/-- A view of a view is the view of the same units of the source. -/
theorem slice_slice (content : List UInt16) {start length first finish : Nat}
    (hbound : finish ≤ length) :
    slice ((content.drop start).take length) first finish =
      (content.drop (first + start)).take (finish - first) := by
  rw [slice, drop_take, take_take, drop_drop, Nat.add_comm start first]
  congr 1
  omega

section

variable (hden : state.nodes.Denotes strings)
include hden

theorem newStringViewOfView_agrees (str start finish : Nat) :
    Agrees (some (state.newStringViewOfView str start finish))
      (plainStringStep strings (.newStringViewOfView str start finish)) := by
  rw [newStringViewOfView, plainStringStep]
  rcases lookup_cases hden str with ⟨hstr, hstr'⟩ | ⟨node, string, hstr, hstr', hholds⟩
  · rw [hstr, hstr']
    exact agrees_answer hden _
  · rw [hstr, hstr']
    have hplain : string.isView = false → Agrees (some (state, .invalid))
        (if string.isView = true ∧ start ≤ finish ∧ finish ≤ string.content.length then
          addString strings (slice string.content start finish) true
        else (strings, .invalid)) := by
      intro hview
      rw [if_neg (by rw [hview]; simp)]
      exact agrees_answer hden _
    cases node with
    | flat data => exact hplain hholds.2
    | flattened data => exact hplain hholds.2
    | rope left right length has8BitContent => exact hplain hholds.2.2.2.2.2
    | view source viewStart length has8BitContent =>
      have hlength : length = string.content.length := hholds.length_eq
      obtain ⟨hsource, hbound, hcontent, -, hview⟩ := hholds
      have hlt := (List.getElem?_eq_some_iff.mp hstr).1
      rcases lookup_cases hden source with ⟨hmissing, -⟩ | ⟨under, uplain, hu, hu', huholds⟩
      · rw [List.getElem?_eq_none_iff] at hmissing
        omega
      · dsimp only
        rw [hu]
        rw [hview, ← hlength]
        simp only [true_and]
        split
        · rename_i hrange
          rw [contentAt_eq hu'] at hbound hcontent
          rw [hcontent, slice_slice _ hrange.2]
          exact allocate_agrees hden (view_holds hden hu hu' huholds (by omega))
        · exact agrees_answer hden _

theorem charAtOfBuffer_agrees {str idx : Nat} (hstr : str < state.nodes.length)
    {unit : Option UInt16} (hunit : (contentAt strings str)[idx]? = unit) :
    Agrees (state.charAtOfBuffer str idx) (strings, .unit unit) := by
  obtain ⟨next, data, hdata, hnext, hunits⟩ := bufferAccessData_spec hden hstr
  rw [charAtOfBuffer, hdata]
  refine ⟨next, _, rfl, ?_, hnext⟩
  rw [hunits, hunit]

theorem charAt_agrees (str idx : Nat) :
    Agrees (state.charAt str idx) (plainStringStep strings (.charAt str idx)) := by
  rw [charAt, plainStringStep]
  rcases lookup_cases hden str with ⟨hstr, hstr'⟩ | ⟨node, string, hstr, hstr', hholds⟩
  · rw [hstr, hstr']
    exact agrees_answer hden _
  · rw [hstr, hstr']
    have hlt := (List.getElem?_eq_some_iff.mp hstr).1
    dsimp only
    rw [hholds.length_eq]
    by_cases hout : string.content.length ≤ idx
    · rw [if_pos hout, if_pos hout]
      exact agrees_answer hden _
    · rw [if_neg hout, if_neg hout]
      have hunit : (contentAt strings str)[idx]? = string.content[idx]? := by
        rw [contentAt_eq hstr']
      cases node with
      | flat data => exact charAtOfBuffer_agrees hden hlt hunit
      | flattened data => exact charAtOfBuffer_agrees hden hlt hunit
      | view source start length has8BitContent => exact charAtOfBuffer_agrees hden hlt hunit
      | rope left right length has8BitContent =>
        have hused : StringNodes.Denotes
            (RopeState.nodes { state with lastUsedString := some str }) strings := hden
        dsimp only
        split
        · exact charAtOfBuffer_agrees hused hlt hunit
        · have hidx : idx < (contentAt strings str).length := by
            rw [contentAt_eq hstr']
            exact Nat.lt_of_not_le hout
          obtain ⟨leaf, idx', hwalk, hleaf, hsame⟩ :=
            charAtWorker_spec hden (Nat.lt_succ_self str) hlt hidx
          rw [hwalk]
          exact charAtOfBuffer_agrees hused hleaf (hsame.trans hunit)

theorem equals_agrees (str src : Nat) :
    Agrees (state.equals str src) (plainStringStep strings (.equals str src)) := by
  rw [equals, plainStringStep]
  rcases lookup_cases hden str with ⟨hstr, hstr'⟩ | ⟨node, string, hstr, hstr', hholds⟩
  · rw [hstr, hstr']
    exact agrees_answer hden _
  · rcases lookup_cases hden src with ⟨hsrc, hsrc'⟩ | ⟨other, plain, hsrc, hsrc', hsrcHolds⟩
    · rw [hstr, hstr', hsrc, hsrc']
      exact agrees_answer hden _
    · rw [hstr, hstr', hsrc, hsrc']
      dsimp only
      rw [hholds.length_eq, hsrcHolds.length_eq]
      split
      · rename_i hlength
        have hne : string.content ≠ plain.content := fun h => hlength (by rw [h])
        rw [decide_eq_false hne]
        exact agrees_answer hden _
      · obtain ⟨middle, myData, hmyData, hmiddle, hmy⟩ :=
          bufferAccessData_spec hden (List.getElem?_eq_some_iff.mp hstr).1
        have hsrcLt : src < middle.nodes.length := by
          rw [hmiddle.length_eq, ← hden.length_eq]
          exact (List.getElem?_eq_some_iff.mp hsrc).1
        obtain ⟨next, srcData, hsrcData, hnext, hother⟩ := bufferAccessData_spec hmiddle hsrcLt
        rw [hmyData]
        dsimp only
        rw [hsrcData]
        refine ⟨next, _, rfl, congrArg StringAnswer.truth ?_, hnext⟩
        rw [contentAt_eq hstr'] at hmy
        rw [contentAt_eq hsrc'] at hother
        rw [Bool.eq_iff_iff, EString.equals_iff, StringBufferAccessData.content_toEString,
          StringBufferAccessData.content_toEString, hmy, hother, decide_eq_true_iff]

theorem step_agrees (op : StringOp) : Agrees (state.step op) (plainStringStep strings op) := by
  cases op with
  | newString data => exact allocate_flat_agrees hden rfl
  | createRopeString lstr rstr => exact createRopeString_agrees hden lstr rstr
  | substring str start finish => exact substring_agrees hden str start finish
  | newStringView str start finish => exact newStringView_agrees hden str start finish
  | newStringViewOfView str start finish => exact newStringViewOfView_agrees hden str start finish
  | length str =>
    rw [step, plainStringStep]
    rcases lookup_cases hden str with ⟨hstr, hstr'⟩ | ⟨node, string, hstr, hstr', hholds⟩
    · rw [hstr, hstr']
      exact agrees_answer hden _
    · rw [hstr, hstr']
      dsimp only
      rw [hholds.length_eq]
      exact agrees_answer hden _
  | charAt str idx => exact charAt_agrees hden str idx
  | equals str src => exact equals_agrees hden str src
  | bufferAccessData str =>
    rw [step, plainStringStep]
    rcases lookup_cases hden str with ⟨hstr, hstr'⟩ | ⟨node, string, hstr, hstr', -⟩
    · rw [hstr', if_neg (Nat.not_lt.mpr (List.getElem?_eq_none_iff.mp hstr))]
      exact agrees_answer hden _
    · have hlt := (List.getElem?_eq_some_iff.mp hstr).1
      obtain ⟨next, data, hdata, hnext, hunits⟩ := bufferAccessData_spec hden hlt
      rw [hstr', if_pos hlt, hdata]
      refine ⟨next, _, rfl, ?_, hnext⟩
      rw [hunits, contentAt_eq hstr']

end

/-- The empty string alone. -/
def initialStrings : List PlainString := [⟨[], false⟩]

theorem denotes_initial : initial.nodes.Denotes initialStrings := by
  refine ⟨rfl, fun address node string hnode hstring => ?_⟩
  cases address with
  | zero =>
    cases hnode
    cases hstring
    exact ⟨rfl, rfl⟩
  | succ address => cases hnode

theorem simulates_plain : GuardedSimulation step plainStringStep (fun _ _ => True)
      (fun (state : RopeState) strings => state.nodes.Denotes strings) Eq := by
  refine ⟨fun {state strings op} hden _ => ?_⟩
  obtain ⟨next, answer, hstep, hanswer, hnext⟩ := step_agrees hden op
  exact ⟨next, answer, hstep, hanswer, hnext⟩

/-- However strings are concatenated, cut, viewed, read, compared and flattened, every answer
is that of plain strings; a string of any depth is flattened in finitely many steps, and that
changes the content of no string. -/
theorem ropes_are_transparent (ops : List StringOp) :
    ∃ last, run step ops initial = some (last, (referenceRun plainStringStep ops initialStrings).2) ∧
      ∀ str, str < last.nodes.length → ∃ after data, (∀ fuel, fuelFor str ≤ fuel →
          last.nodes.bufferAccessData fuel str = some (after, data)) ∧
        ∀ other, other < last.nodes.length → ∃ later later' buffer buffer',
          last.nodes.bufferAccessData (fuelFor other) other = some (later, buffer) ∧
          after.bufferAccessData (fuelFor other) other = some (later', buffer') ∧
          buffer'.units = buffer.units := by
  obtain ⟨last, answers, hrun, hanswers, hden⟩ :=
    simulates_plain.run_related ops denotes_initial (Guarded.of_forall (fun _ _ => trivial) ops _)
  rw [forall₂_eq_eq_eq] at hanswers
  subst hanswers
  refine ⟨last, hrun, fun str hstr => ?_⟩
  obtain ⟨after, data, hdata, hafter, -⟩ := hden.bufferAccessData hstr
  refine ⟨after, data, hdata, fun other hother => ?_⟩
  have hother' : other < after.length := by rwa [hafter.length_eq, ← hden.length_eq]
  obtain ⟨later, buffer, hbuffer, -, hunits⟩ := hden.bufferAccessData hother
  obtain ⟨later', buffer', hbuffer', -, hunits'⟩ := hafter.bufferAccessData hother'
  exact ⟨later, later', buffer, buffer', hbuffer _ (Nat.le_refl _), hbuffer' _ (Nat.le_refl _),
    hunits'.trans hunits.symm⟩

end RopeState

end Escargot.Runtime
