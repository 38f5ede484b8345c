/-
# The code cache round trip

What the reader makes of what the writer stored: the same tree of code blocks,
with every field as it was, except for what is missing from both sides. Five
flags are neither stored nor loaded, an empty vector of private names comes back
as a missing one, and the reservation for the identifiers of a block scope is
one byte short for each of them. The round trip succeeds exactly on the trees
that stay clear of all three.
-/

import Escargot.CodeCache.CodeBlock

namespace Escargot.CodeCache

open List Option Foundation

section Items

theorem getBytes_append {bs rest : List UInt8} {k : Nat} (h : bs.length = k) (table : List Name) :
    getBytes k table (bs ++ rest) = .ok (bs, rest) := by
  subst h
  rw [getBytes, if_neg (by simp), take_left, drop_left]

theorem inverts_getBytes {k : Nat} (bs : List UInt8) (h : bs.length = k) :
    Inverts format [.bytes bs] (getBytes k) bs :=
  .bytes fun table _ => getBytes_append h table

theorem inverts_getBool (b : Bool) : Inverts format [putBool b] getBool b := by
  have h := (inverts_getBytes (littleEndian 1 b.toNat) (length_littleEndian 1 _)).map
    fun bytes => ofLittleEndian bytes != 0
  cases b <;> exact h

theorem getUInt16_append (n : UInt16) (table : List Name) (rest : List UInt8) :
    getUInt16 table (littleEndian 2 n.toNat ++ rest) = .ok (n, rest) := by
  have hvalue : UInt16.ofNat (ofLittleEndian (littleEndian 2 n.toNat)) = n := by
    rw [ofLittleEndian_littleEndian, Nat.mod_eq_of_lt (by simpa using n.toNat_lt)]
    simp
  show Except.ok (UInt16.ofNat (ofLittleEndian (littleEndian 2 n.toNat)), rest) = _
  rw [hvalue]

theorem inverts_getUInt16 (n : UInt16) : Inverts format [putUInt16 n] getUInt16 n :=
  .bytes (getUInt16_append n)

theorem times_getUInt16 (units : List UInt16) (table : List Name) (rest : List UInt8) :
    getUInt16.times units.length table
      ((units.flatMap fun unit => littleEndian 2 unit.toNat) ++ rest) = .ok (units, rest) := by
  induction units with
  | nil => rfl
  | cons unit units ih =>
    rw [flatMap_cons, append_assoc, length_cons, ByteReader.times,
      ByteReader.bind_apply, getUInt16_append]
    show (getUInt16.times units.length >>= fun tail => pure (unit :: tail)) table _ = _
    rw [ByteReader.bind_apply, ih]
    rfl

theorem getSize_append {n : Nat} (hn : n < 2 ^ 64) (table : List Name) (rest : List UInt8) :
    getSize table (littleEndian sizeofSize n ++ rest) = .ok (n, rest) := by
  have hvalue : ofLittleEndian (littleEndian sizeofSize n) = n := by
    rw [ofLittleEndian_littleEndian, Nat.mod_eq_of_lt (by simpa [sizeofSize] using hn)]
  show Except.ok (ofLittleEndian (littleEndian sizeofSize n), rest) = _
  rw [hvalue]

theorem inverts_getSize {n : Nat} (hn : n < 2 ^ 64) : Inverts format [putSize n] getSize n :=
  .bytes (getSize_append hn)

theorem inverts_getSizeT (n : UInt64) : Inverts format [putSize n.toNat] getSizeT n := by
  have h := (inverts_getSize n.toNat_lt).map UInt64.ofNat
  rw [UInt64.ofNat_toNat] at h
  exact h

theorem inverts_getName (name : Name) : Inverts format [putName name] getName name := by
  apply Inverts.key
  · exact fun i hi => getSize_append hi
  · intro i final k rest hget
    rw [lookupName, hget]

theorem inverts_getLOC (loc : NodeLOC) : Inverts format (putLOC loc) getLOC loc := by
  apply Inverts.cons (inverts_getSizeT loc.line)
  apply Inverts.cons (inverts_getSizeT loc.column)
  apply Inverts.cons (inverts_getSizeT loc.index)
  exact .nil loc

theorem inverts_getSized {α : Type} {bound : Nat} (hbound : bound ≤ 2 ^ 64) {p : α → List Item}
    {element : Reader α} (vector : SizedVector α bound)
    (h : ∀ x ∈ vector.elements, Inverts format (p x) element x) :
    Inverts format (putSize vector.elements.length :: vector.elements.flatMap p)
      (getSized bound element) vector := by
  apply Inverts.cons (inverts_getSize (vector.bounded.trans_le hbound))
  have helements := Inverts.flatMap (f := id) vector.elements h
  rw [List.map_id] at helements
  apply helements.last
  rw [dif_pos vector.bounded]
  exact .nil vector

theorem inverts_getIdentifierInfo (info : IdentifierInfo) :
    Inverts format (putIdentifierInfo info) getIdentifierInfo info := by
  apply Inverts.cons (inverts_getBool info.needToAllocateOnStack)
  apply Inverts.cons (inverts_getBool info.isMutable)
  apply Inverts.cons (inverts_getBool info.isParameterName)
  apply Inverts.cons (inverts_getBool info.isExplicitlyDeclaredOrParameterName)
  apply Inverts.cons (inverts_getBool info.isVarDeclaration)
  apply Inverts.cons (inverts_getSizeT info.indexForIndexedStorage)
  apply Inverts.cons (inverts_getName info.name)
  exact .nil info

theorem inverts_getBlockIdentifierInfo (info : BlockIdentifierInfo) :
    Inverts format (putBlockIdentifierInfo info) getBlockIdentifierInfo info := by
  apply Inverts.cons (inverts_getBool info.needToAllocateOnStack)
  apply Inverts.cons (inverts_getBool info.isMutable)
  apply Inverts.cons (inverts_getBool info.isUsing)
  apply Inverts.cons (inverts_getSizeT info.indexForIndexedStorage)
  apply Inverts.cons (inverts_getName info.name)
  exact .nil info

theorem putsOf_storeBlockInfo (info : BlockInfo) : putsOf (storeBlockInfo info) =
      [putBool info.canAllocateEnvironmentOnStack, putBool info.shouldAllocateEnvironment,
        putBool info.fromCatchClauseNode, putUInt16 info.parentBlockIndex,
        putUInt16 info.blockIndex] ++
      (putSize info.identifiers.elements.length ::
        info.identifiers.elements.flatMap putBlockIdentifierInfo) := by
  simp [putsOf, storeBlockInfo]

theorem inverts_getBlockInfo (info : BlockInfo) :
    Inverts format (putsOf (storeBlockInfo info)) getBlockInfo info := by
  rw [putsOf_storeBlockInfo]
  apply Inverts.cons (inverts_getBool info.canAllocateEnvironmentOnStack)
  apply Inverts.cons (inverts_getBool info.shouldAllocateEnvironment)
  apply Inverts.cons (inverts_getBool info.fromCatchClauseNode)
  apply Inverts.cons (inverts_getUInt16 info.parentBlockIndex)
  apply Inverts.cons (inverts_getUInt16 info.blockIndex)
  apply Inverts.last (inverts_getSized (Nat.le_refl _) info.identifiers
    fun x _ => inverts_getBlockIdentifierInfo x)
  exact .nil info

theorem insertEntries_of_nodup {map entries : List (Name × UInt64)}
    (h : ((map ++ entries).map Prod.fst).Nodup) : insertEntries map entries = map ++ entries := by
  induction entries generalizing map with
  | nil => exact (append_nil map).symm
  | cons entry entries ih =>
    have hnew : entry.1 ∉ map.map Prod.fst := by
      rw [map_append, map_cons, nodup_append] at h
      exact fun hmem => h.2.2 _ hmem _ mem_cons_self rfl
    have hmove : map ++ entry :: entries = map ++ [entry] ++ entries := by simp
    rw [insertEntries, if_neg hnew, hmove]
    rw [hmove] at h
    exact ih h

theorem VarMap.ofEntries_entries (varMap : VarMap) : VarMap.ofEntries varMap.entries = varMap := by
  obtain ⟨⟨elements, hbounded⟩, hnodup⟩ := varMap
  have hinsert : insertEntries [] elements = elements := by
    have h := @insertEntries_of_nodup [] elements (by simpa using hnodup)
    simpa using h
  simp only [VarMap.ofEntries, hinsert]

end Items

/-- An empty map or vector comes back as a missing one. -/
def RareData.reloaded (rare : RareData) : RareData where
  identifierInfoMap := rare.identifierInfoMap.filter fun varMap => !varMap.entries.elements.isEmpty
  classPrivateNames := rare.classPrivateNames.filter fun names => !names.elements.isEmpty

/-- The code block that is loaded: a flag that is not stored is off. -/
def CodeBlock.reloaded (codeBlock : CodeBlock) : CodeBlock :=
  { codeBlock with
    flags := fun flag => decide (flag ∈ storedFlags) && codeBlock.flags flag
    rareData := codeBlock.rareData.map RareData.reloaded }

/-- The numbers that are read for a linked code block. -/
def LinkedBlock.unlinked (linked : LinkedBlock) : LoadedBlock where
  block := linked.block.reloaded
  parent := linked.parent.getD sizeMax
  children := linked.children

section Blocks

theorem inverts_getMapEntry (entry : Name × UInt64) :
    Inverts format [putName entry.1, putSize entry.2.toNat] getMapEntry entry := by
  apply Inverts.cons (inverts_getName entry.1)
  apply Inverts.cons (inverts_getSizeT entry.2)
  exact .nil entry

/-- An absent vector is stored as a size of zero, which is read as an empty one. -/
theorem inverts_getSized_nil {α : Type} {element : Reader α} :
    Inverts format [putSize 0] (getSized (2 ^ 64) element) ⟨[], by simp⟩ :=
  inverts_getSized (p := fun _ => []) (Nat.le_refl (2 ^ 64)) ⟨[], by simp⟩
    fun _ hx => absurd hx not_mem_nil

theorem inverts_getVarMap (varMap : Option VarMap) : Inverts format (match varMap with
      | some varMap => putSize varMap.entries.elements.length ::
          varMap.entries.elements.flatMap fun entry => [putName entry.1, putSize entry.2.toNat]
      | none => [putSize 0])
      getVarMap (varMap.filter fun varMap => !varMap.entries.elements.isEmpty) := by
  cases varMap with
  | none => exact inverts_getSized_nil.last (.nil none)
  | some varMap =>
    apply Inverts.last (inverts_getSized (Nat.le_refl _) varMap.entries
      fun entry _ => inverts_getMapEntry entry)
    rw [VarMap.ofEntries_entries]
    by_cases hempty : varMap.entries.elements = []
    · simp only [hempty, if_true, filter_some, isEmpty_nil, Bool.not_true,
        Bool.false_eq_true, if_false]
      exact .nil none
    · have hnonempty : varMap.entries.elements.isEmpty = false := by simpa using hempty
      simp only [hempty, if_false, filter_some, hnonempty, Bool.not_false, if_true]
      exact .nil (some varMap)

theorem inverts_getPrivateNames (names : Option (TightVector Name)) : Inverts format
      (match names with
      | some names => putSize names.elements.length :: names.elements.map putName
      | none => [putSize 0])
      getPrivateNames (names.filter fun names => !names.elements.isEmpty) := by
  cases names with
  | none => exact inverts_getSized_nil.last (.nil none)
  | some names =>
    have hread := inverts_getSized (Nat.le_refl _) names fun name _ => inverts_getName name
    rw [← map_eq_flatMap] at hread
    apply hread.last
    by_cases hempty : names.elements = []
    · simp only [hempty, if_true, filter_some, isEmpty_nil, Bool.not_true,
        Bool.false_eq_true, if_false]
      exact .nil none
    · have hnonempty : names.elements.isEmpty = false := by simpa using hempty
      simp only [hempty, if_false, filter_some, hnonempty, Bool.not_false, if_true]
      exact .nil (some names)

theorem inverts_getRareData (rare : RareData) :
    Inverts format (putsOf (storeRareData rare)) getRareData rare.reloaded := by
  have hputs : putsOf (storeRareData rare) = (match rare.identifierInfoMap with
      | some varMap => putSize varMap.entries.elements.length ::
          varMap.entries.elements.flatMap fun entry => [putName entry.1, putSize entry.2.toNat]
      | none => [putSize 0]) ++
      (match rare.classPrivateNames with
      | some names => putSize names.elements.length :: names.elements.map putName
      | none => [putSize 0]) := by
    unfold storeRareData putsOf
    cases rare.identifierInfoMap <;> cases rare.classPrivateNames <;> simp
  rw [hputs]
  apply Inverts.append (inverts_getVarMap rare.identifierInfoMap)
  apply Inverts.last (inverts_getPrivateNames rare.classPrivateNames)
  exact .nil rare.reloaded

variable (flags : List CodeBlockFlag) (value : CodeBlockFlag → Bool)

theorem find_zip_map (flag : CodeBlockFlag) :
    (((flags.zip (flags.map value)).find? fun entry => entry.1 == flag).map Prod.snd).getD false =
      (decide (flag ∈ flags) && value flag) := by
  induction flags with
  | nil => rfl
  | cons first flags ih =>
    by_cases hfirst : first = flag
    · subst hfirst
      simp
    · have hfirst' : ¬ flag = first := fun h => hfirst h.symm
      simpa [find?_cons, beq_false_of_ne hfirst, hfirst'] using ih

theorem setFlags_storedFlags :
    setFlags (storedFlags.map value) = fun flag => decide (flag ∈ storedFlags) && value flag := by
  funext flag
  exact find_zip_map storedFlags value flag

theorem inverts_flags : Inverts format (storedFlags.map fun flag => putBool (value flag))
      (getBool.times loadedFlags.length) (storedFlags.map value) := by
  have h := Inverts.flatMap (p := fun flag => [putBool (value flag)]) (f := value) storedFlags
    fun flag _ => inverts_getBool (value flag)
  exact h

theorem putsOf_storeInterpretedCodeBlock (linked : LinkedBlock) :
    putsOf (storeInterpretedCodeBlock linked) =
      [putBool linked.block.rareData.isSome, putSize linked.block.srcStart.toNat,
        putSize linked.block.srcEnd.toNat, putSize (linked.parent.getD sizeMax),
        putSize linked.children.length] ++
      (linked.children.map putSize ++
      ((putSize linked.block.parameterNames.elements.length ::
        linked.block.parameterNames.elements.map putName) ++
      ((putSize linked.block.identifierInfos.elements.length ::
        linked.block.identifierInfos.elements.flatMap putIdentifierInfo) ++
      ((putSize linked.block.blockInfos.elements.length ::
        linked.block.blockInfos.elements.flatMap fun info => putsOf (storeBlockInfo info)) ++
      (putName linked.block.functionName :: (putLOC linked.block.functionStart ++
      ([putUInt16 linked.block.parameterUsed, putUInt16 linked.block.functionLength,
        putUInt16 linked.block.parameterCount, putUInt16 linked.block.identifierOnStackCount,
        putUInt16 linked.block.identifierOnHeapCount,
        putUInt16 linked.block.lexicalBlockStackAllocatedIdentifierMaximumDepth,
        putUInt16 linked.block.functionBodyBlockIndex,
        putUInt16 linked.block.lexicalBlockIndexFunctionLocatedIn] ++
      ((storedFlags.map fun flag => putBool (linked.block.flags flag)) ++
      putsOf ((linked.block.rareData.map storeRareData).getD []))))))))) := by
  have hflat : ∀ (infos : List BlockInfo),
      List.flatMap (fun r => r.puts) (infos.flatMap storeBlockInfo) =
        infos.flatMap fun info => putsOf (storeBlockInfo info) := by
    intro infos
    rw [flatMap_assoc]
    rfl
  simp only [putsOf, storeInterpretedCodeBlock, flatMap_append, flatMap_cons,
    append_assoc, hflat, cons_append, nil_append]

theorem inverts_rareData (rare : Option RareData) :
    Inverts format (putsOf ((rare.map storeRareData).getD []))
      (getRareDataIf rare.isSome) (rare.map RareData.reloaded) := by
  cases rare with
  | none => exact .nil none
  | some rare => exact (inverts_getRareData rare).map some

theorem inverts_loadInterpretedCodeBlock (linked : LinkedBlock)
    (hparent : linked.parent.getD sizeMax < 2 ^ 64) (hcount : linked.children.length < 2 ^ 64)
    (hchildren : ∀ child ∈ linked.children, child < 2 ^ 64) :
    Inverts format (putsOf (storeInterpretedCodeBlock linked)) loadInterpretedCodeBlock
      linked.unlinked := by
  have hnames := inverts_getSized (Nat.le_refl _) linked.block.parameterNames
    fun name _ => inverts_getName name
  have hlinks := Inverts.flatMap (p := fun child => [putSize child]) (f := id) linked.children
    fun child hchild => inverts_getSize (hchildren child hchild)
  rw [← map_eq_flatMap] at hnames hlinks
  rw [List.map_id] at hlinks
  rw [putsOf_storeInterpretedCodeBlock]
  apply Inverts.cons (inverts_getBool _)
  apply Inverts.cons (inverts_getSizeT _)
  apply Inverts.cons (inverts_getSizeT _)
  apply Inverts.cons (inverts_getSize hparent)
  apply Inverts.cons (inverts_getSize hcount)
  apply Inverts.append hlinks
  apply Inverts.append hnames
  apply Inverts.append (inverts_getSized (Nat.le_refl _) linked.block.identifierInfos
    fun info _ => inverts_getIdentifierInfo info)
  apply Inverts.append (inverts_getSized (by decide) linked.block.blockInfos
    fun info _ => inverts_getBlockInfo info)
  apply Inverts.cons (inverts_getName _)
  apply Inverts.append (inverts_getLOC _)
  apply Inverts.cons (inverts_getUInt16 _)
  apply Inverts.cons (inverts_getUInt16 _)
  apply Inverts.cons (inverts_getUInt16 _)
  apply Inverts.cons (inverts_getUInt16 _)
  apply Inverts.cons (inverts_getUInt16 _)
  apply Inverts.cons (inverts_getUInt16 _)
  apply Inverts.cons (inverts_getUInt16 _)
  apply Inverts.cons (inverts_getUInt16 _)
  apply Inverts.append (inverts_flags _)
  rw [setFlags_storedFlags]
  apply Inverts.last (inverts_rareData _)
  exact .nil _

end Blocks

section StringTable

variable (storage : StringStorage)

theorem inverts_makeName {name : Name} {units : List UInt16} (h : units = name.units) :
    Inverts format [] (makeName units) name := by
  subst h
  rw [makeName, dif_pos name.bounded]
  exact .nil name

theorem toUInt16_toUInt8 {unit : UInt16} (h : unit.toNat < 256) : unit.toUInt8.toUInt16 = unit := by
  rw [← UInt16.toNat_inj, UInt8.toNat_toUInt16, UInt16.toNat_toUInt8]
  exact Nat.mod_eq_of_lt h

/-- A string is read back by a reader that knows its width and allows its length. -/
theorem inverts_getString {limit : Nat} {name : Name} (hlimit : name.units.length ≤ limit) :
    Inverts format (storeString storage name).puts (getString limit (storage.has8BitContent name))
      name := by
  have hlength : name.units.length < 2 ^ 64 := name.bounded.trans_lt (by decide)
  unfold storeString
  cases hwidth : storage.has8BitContent name with
  | true =>
    have hnarrow : (name.units.map fun unit => unit.toUInt8).map (fun byte => byte.toUInt16) =
        name.units := by
      rw [List.map_map]
      have h := map_congr_left (f := (fun byte => UInt8.toUInt16 byte) ∘ UInt16.toUInt8)
        (g := id) fun unit hunit => toUInt16_toUInt8 (storage.narrow name hwidth unit hunit)
      rw [h, List.map_id]
    apply Inverts.cons (inverts_getSize hlength)
    rw [if_neg (Nat.not_lt.mpr hlimit), if_pos rfl]
    apply Inverts.last (inverts_getBytes _ (length_map _))
    exact inverts_makeName hnarrow
  | false =>
    apply Inverts.cons (inverts_getSize hlength)
    rw [if_neg (Nat.not_lt.mpr hlimit), if_neg Bool.false_ne_true]
    apply Inverts.last (Inverts.bytes (times_getUInt16 name.units))
    exact inverts_makeName rfl

variable (table : List Name)

theorem maxLength_spec : (∀ name ∈ table, name.units.length ≤ maxLength table) ∧
      maxLength table ≤ stringMaximumLength := by
  have hfold : ∀ (table : List Name) (start : Nat), start ≤ stringMaximumLength →
      start ≤ table.foldl (fun length name => max length name.units.length) start ∧
      (∀ name ∈ table, name.units.length ≤
        table.foldl (fun length name => max length name.units.length) start) ∧
      table.foldl (fun length name => max length name.units.length) start ≤
        stringMaximumLength := by
    intro table
    induction table with
    | nil => exact fun start h => ⟨Nat.le_refl _, fun _ h => absurd h not_mem_nil, h⟩
    | cons first table ih =>
      intro start hstart
      obtain ⟨hle, hall, hbound⟩ :=
        ih (max start first.units.length) (Nat.max_le.mpr ⟨hstart, first.bounded⟩)
      refine ⟨(Nat.le_max_left _ _).trans hle, fun name hname => ?_, hbound⟩
      rcases List.mem_cons.mp hname with rfl | hmem
      · exact (Nat.le_max_right _ _).trans hle
      · exact hall name hmem
  obtain ⟨-, hall, hbound⟩ := hfold table 0 (Nat.zero_le _)
  exact ⟨hall, hbound⟩

theorem putsOf_storeStringTable : putsOf (storeStringTable storage table) =
      [putBool (has16BitString storage table), putSize (maxLength table), putSize table.length] ++
      if has16BitString storage table then
        table.flatMap fun name =>
          putBool (storage.has8BitContent name) :: (storeString storage name).puts
      else table.flatMap fun name => (storeString storage name).puts := by
  unfold storeStringTable
  cases has16BitString storage table with
  | true =>
    simp only [putsOf, if_true, flatMap_cons, flatMap_assoc, flatMap_nil,
      append_nil, cons_append, nil_append]
  | false => simp only [putsOf, Bool.false_eq_true, if_false, flatMap_cons, flatMap_map]

theorem inverts_loadStringTable {table : List Name} (hsize : table.length < 2 ^ 64) :
    Inverts format (putsOf (storeStringTable storage table)) loadStringTable table := by
  obtain ⟨hall, hbound⟩ := maxLength_spec table
  have hlength : maxLength table < 2 ^ 64 := hbound.trans_lt (by decide)
  rw [putsOf_storeStringTable]
  apply Inverts.cons (inverts_getBool _)
  apply Inverts.cons (inverts_getSize hlength)
  apply Inverts.cons (inverts_getSize hsize)
  rw [if_neg (Nat.not_lt.mpr hbound)]
  cases hwide : has16BitString storage table with
  | true =>
    have h := Inverts.flatMap (f := id) table fun name hname =>
      Inverts.cons (inverts_getBool (storage.has8BitContent name))
        (inverts_getString storage (hall name hname))
    rw [List.map_id] at h
    exact h
  | false =>
    have hnarrow : ∀ name ∈ table, storage.has8BitContent name = true := by
      simpa [has16BitString] using hwide
    have h := Inverts.flatMap (f := id) table fun name hname =>
      hnarrow name hname ▸ inverts_getString storage (hall name hname)
    rw [List.map_id] at h
    exact h

theorem bytes_storeStringTable :
    ∀ item ∈ putsOf (storeStringTable storage table), ∃ bs, item = Put.bytes bs := by
  have hstring : ∀ name, ∀ item ∈ (storeString storage name).puts, ∃ bs, item = Put.bytes bs := by
    intro name item hitem
    unfold storeString at hitem
    split at hitem
    all_goals
      rcases List.mem_cons.mp hitem with rfl | hitem
      · exact ⟨_, rfl⟩
      · obtain rfl := List.mem_singleton.mp hitem
        exact ⟨_, rfl⟩
  intro item hitem
  rw [putsOf_storeStringTable] at hitem
  rcases List.mem_append.mp hitem with hhead | htail
  · simp only [mem_cons, not_mem_nil, or_false] at hhead
    rcases hhead with rfl | rfl | rfl <;> exact ⟨_, rfl⟩
  · split at htail
    · obtain ⟨name, -, hmem⟩ := List.mem_flatMap.mp htail
      rcases List.mem_cons.mp hmem with rfl | hmem
      · exact ⟨_, rfl⟩
      · exact hstring name item hmem
    · obtain ⟨name, -, hmem⟩ := List.mem_flatMap.mp htail
      exact hstring name item hmem

/-- As much is reserved as is put. -/
def Covered (r : Reservation UInt8 Name) : Prop := totalSize format r.puts ≤ r.size

theorem covered_storeStringTable : ∀ r ∈ storeStringTable storage table, Covered r := by
  have hstring : ∀ name, Covered (storeString storage name) := by
    intro name
    rw [Covered, storeString]
    cases storage.has8BitContent name with
    | true => simp [totalSize, Put.size, putSize, putChars8, length_littleEndian]
    | false => simp [totalSize, Put.size, putSize, putChars16, length_littleEndian]
  intro r hr
  rcases List.mem_cons.mp hr with rfl | hr
  · exact Nat.le_refl _
  · split at hr
    · obtain ⟨name, -, hr⟩ := List.mem_flatMap.mp hr
      rcases List.mem_cons.mp hr with rfl | hr
      · exact Nat.le_refl _
      · obtain rfl := List.mem_singleton.mp hr
        exact hstring name
    · obtain ⟨name, -, rfl⟩ := List.mem_map.mp hr
      exact hstring name

theorem fits_storeStringTable :
    Fits format.grow 0 0 (demands format (storeStringTable storage table)) := by
  apply Fits.of_le le_reservedCapacity _ (Nat.le_refl 0)
  intro d hd
  obtain ⟨r, hr, rfl⟩ := List.mem_map.mp hd
  exact covered_storeStringTable storage table r hr

end StringTable

namespace CodeBlockTree

mutual

def blocks : CodeBlockTree → List CodeBlock
  | node block children => block :: blocksForest children

def blocksForest : List CodeBlockTree → List CodeBlock
  | [] => []
  | tree :: forest => tree.blocks ++ blocksForest forest

end

mutual

def map (f : CodeBlock → CodeBlock) : CodeBlockTree → CodeBlockTree
  | node block children => node (f block) (mapForest f children)

def mapForest (f : CodeBlock → CodeBlock) : List CodeBlockTree → List CodeBlockTree
  | [] => []
  | tree :: forest => tree.map f :: mapForest f forest

end

mutual

/-- The linked code blocks from `index` on form this tree: every code block has its
fields, its parent and its children. -/
def Represents (heap : List LinkedBlock) (parent : Option Nat) (index : Nat) : CodeBlockTree → Prop
  | node block children =>
    ∃ links, heap[index]? = some ⟨block, parent, links⟩ ∧ RepresentsForest heap index links children

def RepresentsForest (heap : List LinkedBlock) (parent : Nat) : List Nat → List CodeBlockTree → Prop
  | [], [] => True
  | link :: links, tree :: forest =>
    Represents heap (some parent) link tree ∧ RepresentsForest heap parent links forest
  | _, _ => False

end

mutual

theorem length_flatten (tree : CodeBlockTree) (parent : Option Nat) (index : Nat) :
    (tree.flatten parent index).length = tree.size := by
  cases tree with
  | node block children =>
    rw [flatten, length_cons, length_flattenForest children, size, Nat.add_comm]

theorem length_flattenForest (forest : List CodeBlockTree) (parent index : Nat) :
    (flattenForest parent index forest).length = sizeForest forest := by
  cases forest with
  | nil => rfl
  | cons tree forest =>
    rw [flattenForest, length_append, length_flatten tree, length_flattenForest forest, sizeForest]

end

theorem size_pos (tree : CodeBlockTree) : 0 < tree.size := by
  cases tree with
  | node block children =>
    rw [size]
    omega

theorem positions_bounded {forest : List CodeBlockTree} {start position : Nat}
    (h : position ∈ positions start forest) : position < start + sizeForest forest := by
  induction forest generalizing start with
  | nil => cases h
  | cons tree forest ih =>
    have hpos := tree.size_pos
    rw [sizeForest]
    rcases List.mem_cons.mp h with rfl | hrest
    · omega
    · have hlt := ih hrest
      omega

theorem length_positions_le (forest : List CodeBlockTree) (start : Nat) :
    (positions start forest).length ≤ sizeForest forest := by
  induction forest generalizing start with
  | nil => exact Nat.le_refl 0
  | cons tree forest ih =>
    have hpos := tree.size_pos
    have hrest := ih (start + tree.size)
    rw [positions, length_cons, sizeForest]
    omega

structure LinksBelow (bound : Nat) (linked : LinkedBlock) : Prop where
  parent : ∀ p, linked.parent = some p → p < bound
  children : ∀ child ∈ linked.children, child < bound
  count : linked.children.length ≤ bound

theorem LinksBelow.mono {bound bound' : Nat} (h : bound ≤ bound') {linked : LinkedBlock}
    (hlinks : LinksBelow bound linked) : LinksBelow bound' linked where
  parent := fun p hp => (hlinks.parent p hp).trans_le h
  children := fun child hchild => (hlinks.children child hchild).trans_le h
  count := hlinks.count.trans h

mutual

theorem linksBelow_flatten (tree : CodeBlockTree) {parent : Option Nat} {index bound : Nat}
    (hparent : ∀ p, parent = some p → p < bound) (hbound : index + tree.size ≤ bound) :
    ∀ linked ∈ tree.flatten parent index, LinksBelow bound linked := by
  cases tree with
  | node block children =>
    rw [size] at hbound
    intro linked hlinked
    rcases List.mem_cons.mp hlinked with rfl | hrest
    · refine ⟨hparent, fun child hchild => ?_, ?_⟩
      · have hlt := positions_bounded hchild
        omega
      · have hle := length_positions_le children (index + 1)
        show (positions (index + 1) children).length ≤ bound
        omega
    · exact linksBelow_flattenForest children (by omega) (by omega) linked hrest

theorem linksBelow_flattenForest (forest : List CodeBlockTree) {parent index bound : Nat}
    (hparent : parent < bound) (hbound : index + sizeForest forest ≤ bound) :
    ∀ linked ∈ flattenForest parent index forest, LinksBelow bound linked := by
  cases forest with
  | nil => exact fun _ h => absurd h not_mem_nil
  | cons tree forest =>
    rw [sizeForest] at hbound
    intro linked hlinked
    rcases List.mem_append.mp hlinked with hfirst | hrest
    · refine linksBelow_flatten tree (fun p hp => ?_) (by omega) linked hfirst
      cases hp
      exact hparent
    · exact linksBelow_flattenForest forest hparent (by omega) linked hrest

end

mutual

theorem represents_flatten (tree : CodeBlockTree) {heap post : List LinkedBlock}
    {parent : Option Nat} {index : Nat} (h : heap.drop index = tree.flatten parent index ++ post) :
    Represents heap parent index tree := by
  cases tree with
  | node block children =>
    rw [flatten, cons_append] at h
    have hhead : heap[index]? = some ⟨block, parent, positions (index + 1) children⟩ := by
      have hzero := congrArg (fun l => l[0]?) h
      simpa using hzero
    have htail : heap.drop (index + 1) = flattenForest index (index + 1) children ++ post := by
      have hdrop := congrArg List.tail h
      simpa using hdrop
    exact ⟨_, hhead, represents_flattenForest children htail⟩

theorem represents_flattenForest (forest : List CodeBlockTree) {heap post : List LinkedBlock}
    {parent index : Nat} (h : heap.drop index = flattenForest parent index forest ++ post) :
    RepresentsForest heap parent (positions index forest) forest := by
  cases forest with
  | nil => trivial
  | cons tree forest =>
    rw [flattenForest, append_assoc] at h
    have hdrop := congrArg (List.drop tree.size) h
    rw [drop_drop, drop_left' (length_flatten tree _ _)] at hdrop
    exact ⟨represents_flatten tree h, represents_flattenForest forest hdrop⟩

end

theorem represents_self (tree : CodeBlockTree) : Represents (tree.flatten none 0) none 0 tree :=
  represents_flatten tree (append_nil _).symm

mutual

theorem Represents.unique {heap : List LinkedBlock} {parent : Option Nat} {index : Nat} :
    ∀ {tree tree' : CodeBlockTree}, Represents heap parent index tree →
      Represents heap parent index tree' → tree = tree'
  | node block children, node block' children', h, h' => by
      obtain ⟨links, hget, hforest⟩ := h
      obtain ⟨links', hget', hforest'⟩ := h'
      rw [hget] at hget'
      cases hget'
      rw [RepresentsForest.unique hforest hforest']

theorem RepresentsForest.unique {heap : List LinkedBlock} {parent : Nat} :
    ∀ {links : List Nat} {forest forest' : List CodeBlockTree},
      RepresentsForest heap parent links forest → RepresentsForest heap parent links forest' →
        forest = forest'
  | [], [], [], _, _ => rfl
  | _ :: _, _ :: _, _ :: _, h, h' => by
      rw [Represents.unique h.1 h'.1, RepresentsForest.unique h.2 h'.2]

end

section Map

variable (f : CodeBlock → CodeBlock)

mutual

theorem size_map (tree : CodeBlockTree) : (tree.map f).size = tree.size := by
  cases tree with
  | node block children => rw [map, size, size, sizeForest_mapForest children]

theorem sizeForest_mapForest (forest : List CodeBlockTree) :
    sizeForest (mapForest f forest) = sizeForest forest := by
  cases forest with
  | nil => rfl
  | cons tree forest =>
    rw [mapForest, sizeForest, sizeForest, size_map tree, sizeForest_mapForest forest]

end

theorem positions_mapForest (forest : List CodeBlockTree) (start : Nat) :
    positions start (mapForest f forest) = positions start forest := by
  induction forest generalizing start with
  | nil => rfl
  | cons tree forest ih => rw [mapForest, positions, positions, size_map, ih]

mutual

theorem flatten_map (tree : CodeBlockTree) (parent : Option Nat) (index : Nat) :
    (tree.map f).flatten parent index =
      (tree.flatten parent index).map fun linked => { linked with block := f linked.block } := by
  cases tree with
  | node block children =>
    rw [map, flatten, flatten, map_cons, positions_mapForest, flattenForest_mapForest children]

theorem flattenForest_mapForest (forest : List CodeBlockTree) (parent index : Nat) :
    flattenForest parent index (mapForest f forest) = (flattenForest parent index forest).map
        fun linked => { linked with block := f linked.block } := by
  cases forest with
  | nil => rfl
  | cons tree forest =>
    rw [mapForest, flattenForest, flattenForest, map_append, flatten_map tree, size_map,
      flattenForest_mapForest forest]

end

mutual

theorem map_eq_self_iff (tree : CodeBlockTree) :
    tree.map f = tree ↔ ∀ block ∈ tree.blocks, f block = block := by
  cases tree with
  | node block children =>
    rw [map, node.injEq, mapForest_eq_self_iff children, blocks, forall_mem_cons]

theorem mapForest_eq_self_iff (forest : List CodeBlockTree) :
    mapForest f forest = forest ↔ ∀ block ∈ blocksForest forest, f block = block := by
  cases forest with
  | nil => simp [mapForest, blocksForest]
  | cons tree forest =>
    rw [mapForest, List.cons.injEq, map_eq_self_iff tree, mapForest_eq_self_iff forest,
      blocksForest, forall_mem_append]

end

end Map

end CodeBlockTree

variable (rare : RareData)

/-- The rare data has no map and no vector that is there but empty. -/
def RareData.KeepsAll : Prop :=
  (∀ varMap, rare.identifierInfoMap = some varMap → varMap.entries.elements ≠ []) ∧
    ∀ names, rare.classPrivateNames = some names → names.elements ≠ []

/-- The code block uses none of the five flags that are not stored, and no empty rare data. -/
structure CodeBlock.KeepsAll (codeBlock : CodeBlock) : Prop where
  hasEvalInParameter : codeBlock.flags .hasEvalInParameter = false
  isFunctionBodyOnlyVirtualArrowFunctionExpression :
    codeBlock.flags .isFunctionBodyOnlyVirtualArrowFunctionExpression = false
  isImplicitDerivedClassConstructor : codeBlock.flags .isImplicitDerivedClassConstructor = false
  hasExplicitArgumentsDeclaration : codeBlock.flags .hasExplicitArgumentsDeclaration = false
  hasDynamicSourceCode : codeBlock.flags .hasDynamicSourceCode = false
  rareData : ∀ rare, codeBlock.rareData = some rare → rare.KeepsAll

theorem filter_eq_self_iff {α : Type} (o : Option α) (p : α → Bool) :
    o.filter p = o ↔ ∀ a, o = some a → p a = true := by
  cases o with
  | none => simp
  | some a =>
    by_cases h : p a = true
    · simp [h]
    · simp [h]

theorem RareData.reloaded_eq_iff : rare.reloaded = rare ↔ rare.KeepsAll := by
  obtain ⟨varMap, names⟩ := rare
  simp only [RareData.reloaded, RareData.mk.injEq, filter_eq_self_iff, RareData.KeepsAll]
  simp

theorem flags_eq_iff (codeBlock : CodeBlock) :
    (fun flag => decide (flag ∈ storedFlags) && codeBlock.flags flag) = codeBlock.flags ↔
      ∀ flag ∉ storedFlags, codeBlock.flags flag = false := by
  constructor
  · intro h flag hflag
    rw [← h]
    simp [hflag]
  · intro h
    funext flag
    by_cases hflag : flag ∈ storedFlags
    · simp [hflag]
    · simp [hflag, h flag hflag]

/-- A code block comes back as it was exactly when nothing of it is lost. -/
theorem CodeBlock.reloaded_eq_iff (codeBlock : CodeBlock) :
    codeBlock.reloaded = codeBlock ↔ codeBlock.KeepsAll := by
  have hflags := flags_eq_iff codeBlock
  have hrare : codeBlock.rareData.map RareData.reloaded = codeBlock.rareData ↔
      ∀ rare, codeBlock.rareData = some rare → rare.KeepsAll := by
    cases codeBlock.rareData with
    | none => simp
    | some rare => simp [RareData.reloaded_eq_iff]
  have hsplit : codeBlock.reloaded = codeBlock ↔
      (fun flag => decide (flag ∈ storedFlags) && codeBlock.flags flag) = codeBlock.flags ∧
        codeBlock.rareData.map RareData.reloaded = codeBlock.rareData := by
    constructor
    · intro h
      exact ⟨congrArg CodeBlock.flags h, congrArg CodeBlock.rareData h⟩
    · rintro ⟨h, h'⟩
      rw [CodeBlock.reloaded, h, h']
  rw [hsplit, hflags, hrare]
  constructor
  · rintro ⟨h, h'⟩
    exact ⟨h _ (by decide), h _ (by decide), h _ (by decide), h _ (by decide), h _ (by decide), h'⟩
  · rintro ⟨h1, h2, h3, h4, h5, h'⟩
    refine ⟨fun flag hflag => ?_, h'⟩
    cases flag <;> first | assumption | exact absurd (by decide) hflag

/-- What storing a `BlockInfo` reserves and writes. -/
def BlockInfo.demands (info : BlockInfo) : List (Nat × Nat) :=
  let n := info.identifiers.elements.length
  [(8, 7), (8 + n * 18, 8 + n * 19)]

def RareData.demands : List (Nat × Nat) :=
  let mapSize := (rare.identifierInfoMap.map fun varMap => varMap.entries.elements.length).getD 0
  let nameSize := (rare.classPrivateNames.map fun names => names.elements.length).getD 0
  [((1 + mapSize * 2) * 8, (1 + mapSize * 2) * 8), ((1 + nameSize) * 8, (1 + nameSize) * 8)]

/-- What storing a code block with so many children reserves and writes. -/
def CodeBlock.demands (codeBlock : CodeBlock) (childCount : Nat) : List (Nat × Nat) :=
  let parameterSize := codeBlock.parameterNames.elements.length
  let identifierSize := codeBlock.identifierInfos.elements.length
  [(33, 33), (childCount * 8, childCount * 8), ((parameterSize + 1) * 8, (parameterSize + 1) * 8),
    (8 + identifierSize * 21, 8 + identifierSize * 21), (8, 8)] ++
  codeBlock.blockInfos.elements.flatMap BlockInfo.demands ++
  [(8, 8), (24, 24), (2, 2), (10, 10), (4, 4), (31, 31)] ++
  (codeBlock.rareData.map RareData.demands).getD []

namespace CodeBlockTree

mutual

/-- What storing a tree reserves and writes, in order. -/
def demands : CodeBlockTree → List (Nat × Nat)
  | node block children => block.demands children.length ++ demandsForest children

def demandsForest : List CodeBlockTree → List (Nat × Nat)
  | [] => []
  | tree :: forest => tree.demands ++ demandsForest forest

end

end CodeBlockTree

section Demands

theorem totalSize_cons (item : Item) (items : List Item) :
    totalSize format (item :: items) = item.size format + totalSize format items := rfl

theorem totalSize_nil : totalSize format ([] : List Item) = 0 := rfl

theorem totalSize_flatMap {α : Type} {p : α → List Item} {k : Nat} (xs : List α)
    (h : ∀ x, totalSize format (p x) = k) : totalSize format (xs.flatMap p) = xs.length * k := by
  induction xs with
  | nil => simp [totalSize_nil]
  | cons x xs ih =>
    have happend : ∀ p q : List Item,
        totalSize format (p ++ q) = totalSize format p + totalSize format q := by
      simp [totalSize]
    rw [flatMap_cons, happend, h, ih, length_cons, Nat.succ_mul, Nat.add_comm]

theorem totalSize_map {α : Type} {p : α → Item} {k : Nat} (xs : List α)
    (h : ∀ x, (p x).size format = k) : totalSize format (xs.map p) = xs.length * k := by
  rw [map_eq_flatMap]
  exact totalSize_flatMap xs h

@[simp]
theorem size_putBool (b : Bool) : (putBool b).size format = 1 := rfl

@[simp]
theorem size_putUInt16 (n : UInt16) : (putUInt16 n).size format = 2 := rfl

@[simp]
theorem size_putSize (n : Nat) : (putSize n).size format = 8 := rfl

@[simp]
theorem size_putName (name : Name) : (putName name).size format = 8 := rfl

theorem demands_storeBlockInfo (info : BlockInfo) :
    demands format (storeBlockInfo info) = info.demands := by
  have hput : ∀ x, totalSize format (putBlockIdentifierInfo x) = 19 := fun _ => rfl
  simp only [storeBlockInfo, demands, BlockInfo.demands, map_cons, map_nil, totalSize_cons,
    totalSize_nil, totalSize_flatMap _ hput, sizeofSize, size_putBool, size_putUInt16, size_putSize]

theorem demands_storeRareData (rare : RareData) :
    demands format (storeRareData rare) = rare.demands := by
  have hentry : ∀ x : Name × UInt64,
      totalSize format [putName x.1, putSize x.2.toNat] = 16 := fun _ => rfl
  obtain ⟨varMap, names⟩ := rare
  cases varMap <;> cases names <;>
    simp only [storeRareData, demands, RareData.demands, map_cons, map_nil, totalSize_cons,
      totalSize_nil, totalSize_flatMap _ hentry, totalSize_map _ size_putName, sizeofSize,
      size_putSize, map_none, map_some, getD_none, getD_some] <;>
    grind

theorem demands_storeInterpretedCodeBlock (linked : LinkedBlock) :
    demands format (storeInterpretedCodeBlock linked) =
      linked.block.demands linked.children.length := by
  have hinfo : ∀ x, totalSize format (putIdentifierInfo x) = 21 := fun _ => rfl
  have hflags : totalSize format (storedFlags.map fun flag => putBool (linked.block.flags flag)) =
      31 := totalSize_map storedFlags fun flag => size_putBool (linked.block.flags flag)
  have hblocks : (linked.block.blockInfos.elements.flatMap storeBlockInfo).map
      (fun r => (r.size, totalSize format r.puts)) =
        linked.block.blockInfos.elements.flatMap BlockInfo.demands := by
    rw [map_flatMap]
    exact congrArg (List.flatMap · _) (funext demands_storeBlockInfo)
  have hrare : ((linked.block.rareData.map storeRareData).getD []).map
      (fun r => (r.size, totalSize format r.puts)) =
        (linked.block.rareData.map RareData.demands).getD [] := by
    cases linked.block.rareData with
    | none => rfl
    | some rare => exact demands_storeRareData rare
  simp only [storeInterpretedCodeBlock, demands, CodeBlock.demands, map_append, map_cons,
    map_nil, hblocks, hrare, hflags, totalSize_cons, totalSize_nil, totalSize_map _ size_putName,
    totalSize_map _ size_putSize, totalSize_flatMap _ hinfo, sizeofSize, size_putBool,
    size_putSize, size_putName, size_putUInt16, putLOC]
  grind

end Demands

namespace CodeBlockTree

theorem length_positions (forest : List CodeBlockTree) (start : Nat) :
    (positions start forest).length = forest.length := by
  induction forest generalizing start with
  | nil => rfl
  | cons tree forest ih => rw [positions, length_cons, length_cons, ih]

mutual

theorem demands_flatten (tree : CodeBlockTree) (parent : Option Nat) (index : Nat) :
    (tree.flatten parent index).flatMap
      (fun linked => linked.block.demands linked.children.length) = tree.demands := by
  cases tree with
  | node block children =>
    rw [flatten, flatMap_cons, demandsForest_flattenForest children, length_positions, demands]

theorem demandsForest_flattenForest (forest : List CodeBlockTree) (parent index : Nat) :
    (flattenForest parent index forest).flatMap
      (fun linked => linked.block.demands linked.children.length) = demandsForest forest := by
  cases forest with
  | nil => rfl
  | cons tree forest =>
    rw [flattenForest, flatMap_append, demands_flatten tree,
      demandsForest_flattenForest forest, demandsForest]

end

theorem demands_storeCodeBlockTree (tree : CodeBlockTree) :
    Foundation.demands format (storeCodeBlockTree tree) = tree.demands := by
  rw [← demands_flatten tree none 0, storeCodeBlockTree, Foundation.demands, map_flatMap]
  exact congrArg (List.flatMap · _) (funext demands_storeInterpretedCodeBlock)

end CodeBlockTree

/-- A script as it is stored: the tree of its code blocks and the names that the byte code adds
to the string table afterwards. Code blocks and strings are counted by `size_t`, and the largest
number stands for a missing parent. -/
structure StoredScript where
  tree : CodeBlockTree
  byteCodeNames : List Item
  size_lt : tree.size < sizeMax
  table_lt : (emitAll format (putsOf (storeCodeBlockTree tree) ++ byteCodeNames) []).2.length <
    2 ^ 64

namespace StoredScript

/-- An empty `CacheBuffer` with the string table so far. -/
def emptyBuffer (table : List Name) : Sink UInt8 Name where
  written := []
  capacity := 0
  table := table
  bounded := Nat.le_refl 0

variable (storage : StringStorage) (script : StoredScript)

/-- The string table when the script is stored completely. -/
def finalTable : List Name :=
  (emitAll format (putsOf (storeCodeBlockTree script.tree) ++ script.byteCodeNames) []).2

/-- `storeGlobalCache` and then `loadGlobalCache`, as far as the code blocks go. The result is
missing when a put finds no room or a link is out of range. -/
def storeAndLoad : Option (List LinkedBlock) := do
  let codeBlocks ← (emptyBuffer []).writeAll format (storeCodeBlockTree script.tree)
  let strings ← (emptyBuffer []).writeAll format (storeStringTable storage script.finalTable)
  let (table, _) ← (loadStringTable [] strings.written).toOption
  let loaded ← (loadCodeBlockTree script.tree.size table codeBlocks.written).toOption
  loaded

/-- What is loaded is the tree that was stored. -/
def RoundTrips : Prop :=
  ∃ heap, script.storeAndLoad storage = some heap ∧ script.tree.Represents heap none 0

theorem times_loadInterpretedCodeBlock {blocks : List LinkedBlock}
    (h : ∀ linked ∈ blocks, CodeBlockTree.LinksBelow sizeMax linked) :
    Inverts format (putsOf (blocks.flatMap storeInterpretedCodeBlock))
      (loadInterpretedCodeBlock.times blocks.length) (blocks.map LinkedBlock.unlinked) := by
  have hputs : putsOf (blocks.flatMap storeInterpretedCodeBlock) =
      blocks.flatMap fun linked => putsOf (storeInterpretedCodeBlock linked) :=
    flatMap_assoc
  rw [hputs]
  apply Inverts.flatMap
  intro linked hlinked
  obtain ⟨hparent, hchildren, hcount⟩ := h linked hlinked
  have hmax : sizeMax < 2 ^ 64 := by decide
  apply inverts_loadInterpretedCodeBlock
  · cases hp : linked.parent with
    | none => exact hmax
    | some p => exact (hparent p hp).trans hmax
  · exact hcount.trans_lt hmax
  · exact fun child hchild => (hchildren child hchild).trans hmax

theorem linkBlock_unlinked {count : Nat} (hcount : count < sizeMax) {linked : LinkedBlock}
    (h : CodeBlockTree.LinksBelow count linked) :
    linkBlock count linked.unlinked = some { linked with block := linked.block.reloaded } := by
  have hany : (linked.children.any (count ≤ ·)) = false := by simpa using h.children
  obtain ⟨block, parent, children⟩ := linked
  rw [linkBlock, LinkedBlock.unlinked]
  cases parent with
  | none => simp [hany]
  | some p =>
    have hp : p < count := h.parent p rfl
    have hne : p ≠ sizeMax := by omega
    simp [hany, hp, hne]

theorem mapM_linkBlock {count : Nat} (hcount : count < sizeMax) {blocks : List LinkedBlock}
    (h : ∀ linked ∈ blocks, CodeBlockTree.LinksBelow count linked) :
    (blocks.map LinkedBlock.unlinked).mapM (linkBlock count) =
      some (blocks.map fun linked => { linked with block := linked.block.reloaded }) := by
  induction blocks with
  | nil => rfl
  | cons linked blocks ih =>
    have hfirst := linkBlock_unlinked hcount (h linked mem_cons_self)
    have hrest := ih fun other hother => h other (mem_cons_of_mem _ hother)
    rw [map_cons, mapM_cons, hfirst, hrest]
    rfl

theorem loadCodeBlockTree_eq : loadCodeBlockTree script.tree.size script.finalTable
      (emitAll format (putsOf (storeCodeBlockTree script.tree)) []).1 =
        .ok (some ((script.tree.map CodeBlock.reloaded).flatten none 0)) := by
  have hlinks : ∀ linked ∈ script.tree.flatten none 0,
      CodeBlockTree.LinksBelow script.tree.size linked :=
    CodeBlockTree.linksBelow_flatten script.tree (fun p hp => by cases hp) (by omega)
  have hprefix : (emitAll format (putsOf (storeCodeBlockTree script.tree)) []).2 <+:
      (emitAll format script.byteCodeNames
        (emitAll format (putsOf (storeCodeBlockTree script.tree)) []).2).2 :=
    prefix_emitAll script.byteCodeNames _
  have hread := times_loadInterpretedCodeBlock
    (fun linked hlinked => (hlinks linked hlinked).mono script.size_lt.le) [] script.finalTable
    (by rw [finalTable, emitAll_append]; exact hprefix) script.table_lt.le []
  rw [append_nil, CodeBlockTree.length_flatten] at hread
  rw [CodeBlockTree.flatten_map, ← mapM_linkBlock script.size_lt hlinks]
  rw [loadCodeBlockTree, storeCodeBlockTree, hread]
  rfl

theorem loadStringTable_eq : loadStringTable []
      (emitAll format (putsOf (storeStringTable storage script.finalTable)) []).1 =
        .ok (script.finalTable, []) := by
  have hread := inverts_loadStringTable storage script.table_lt [] []
    (by rw [emitAll_of_bytes (bytes_storeStringTable storage _)]) (Nat.zero_le _) []
  rwa [append_nil] at hread

theorem storeAndLoad_of_fits (hfits : Fits reservedCapacity 0 0 script.tree.demands) :
    script.storeAndLoad storage = some ((script.tree.map CodeBlock.reloaded).flatten none 0) := by
  have hcodeBlocks := (Sink.writeAll_isSome_iff (storeCodeBlockTree script.tree)
    (emptyBuffer [])).mpr
      (by rw [CodeBlockTree.demands_storeCodeBlockTree]; exact hfits)
  have hstrings : ((emptyBuffer []).writeAll format
      (storeStringTable storage script.finalTable)).isSome = true :=
    (Sink.writeAll_isSome_iff _ _).mpr (fits_storeStringTable storage script.finalTable)
  obtain ⟨codeBlocks, hcodeBlocks⟩ := Option.isSome_iff_exists.mp hcodeBlocks
  obtain ⟨strings, hstrings⟩ := Option.isSome_iff_exists.mp hstrings
  have hwritten : codeBlocks.written =
      (emitAll format (putsOf (storeCodeBlockTree script.tree)) []).1 :=
    (Sink.writeAll_extends hcodeBlocks).written
  have hwritten' : strings.written =
      (emitAll format (putsOf (storeStringTable storage script.finalTable)) []).1 :=
    (Sink.writeAll_extends hstrings).written
  simp only [storeAndLoad, hcodeBlocks, hstrings, hwritten, hwritten', loadStringTable_eq,
    bind_eq_bind, bind_some, Except.toOption, loadCodeBlockTree_eq]

theorem storeAndLoad_of_not_fits (hfits : ¬ Fits reservedCapacity 0 0 script.tree.demands) :
    script.storeAndLoad storage = none := by
  have hcodeBlocks : (emptyBuffer []).writeAll format (storeCodeBlockTree script.tree) = none := by
    rw [← not_isSome_iff_eq_none, Sink.writeAll_isSome_iff,
      CodeBlockTree.demands_storeCodeBlockTree]
    exact hfits
  rw [storeAndLoad, hcodeBlocks]
  rfl

/-- A round trip that gives the same tree had room for every put and lost nothing. -/
theorem RoundTrips.keepsAll {storage : StringStorage} {script : StoredScript}
    (h : script.RoundTrips storage) :
    (∀ block ∈ script.tree.blocks, block.KeepsAll) ∧
      Fits reservedCapacity 0 0 script.tree.demands := by
  obtain ⟨heap, hheap, htree⟩ := h
  by_cases hfits : Fits reservedCapacity 0 0 script.tree.demands
  · rw [storeAndLoad_of_fits storage script hfits] at hheap
    cases hheap
    have hrepresents := (script.tree.map CodeBlock.reloaded).represents_self
    have hsame := (CodeBlockTree.map_eq_self_iff _ _).mp (hrepresents.unique htree)
    exact ⟨fun block hblock => block.reloaded_eq_iff.mp (hsame block hblock), hfits⟩
  · rw [storeAndLoad_of_not_fits storage script hfits] at hheap
    cases hheap

/-- The round trip gives the same tree exactly when no code block uses what is not stored and
every put finds the room that was reserved. -/
theorem roundTrips_iff_keepsAll :
    script.RoundTrips storage ↔ (∀ block ∈ script.tree.blocks, block.KeepsAll) ∧
        Fits reservedCapacity 0 0 script.tree.demands := by
  constructor
  · exact RoundTrips.keepsAll
  · rintro ⟨hkeeps, hfits⟩
    have hsame : script.tree.map CodeBlock.reloaded = script.tree :=
      (CodeBlockTree.map_eq_self_iff _ _).mpr
        fun block hblock => block.reloaded_eq_iff.mpr (hkeeps block hblock)
    refine ⟨script.tree.flatten none 0, ?_, ?_⟩
    · rw [storeAndLoad_of_fits storage script hfits, hsame]
    · exact script.tree.represents_self

/-- Strings are kept in 8 bits when they can be. -/
def latin1Storage : StringStorage where
  has8BitContent := fun name => name.units.all fun unit => decide (unit.toNat < 256)
  narrow := by
    intro name h unit hunit
    simpa using List.all_eq_true.mp h unit hunit
  empty := by
    intro name h
    rw [h]
    rfl

def plainBlock (srcStart srcEnd : UInt64) (functionStart : NodeLOC)
    (flags : List CodeBlockFlag) : CodeBlock where
  srcStart := srcStart
  srcEnd := srcEnd
  parameterNames := ⟨[], by decide⟩
  identifierInfos := ⟨[], by decide⟩
  blockInfos := ⟨[⟨true, false, false, 65535, 0, ⟨[], by decide⟩⟩], by decide⟩
  functionName := ⟨[], by decide⟩
  functionStart := functionStart
  parameterUsed := 0
  functionLength := 0
  parameterCount := 0
  identifierOnStackCount := 0
  identifierOnHeapCount := 0
  lexicalBlockStackAllocatedIdentifierMaximumDepth := 0
  functionBodyBlockIndex := 0
  lexicalBlockIndexFunctionLocatedIn := 0
  flags := fun flag => decide (flag ∈ flags)
  rareData := none

/-- The script `(class { static { } })`. The body of a static block is a virtual arrow function. -/
def staticBlockScript : StoredScript where
  tree := .node (plainBlock 0 22 ⟨1, 1, 0⟩ [.canUseIndexedVariableStorage,
      .canAllocateVariablesOnStack, .canAllocateEnvironmentOnStack])
    [.node (plainBlock 16 19 ⟨1, 17, 16⟩ [.canUseIndexedVariableStorage,
        .canAllocateVariablesOnStack, .canAllocateEnvironmentOnStack, .isStrict,
        .isFunctionExpression, .isArrowFunctionExpression,
        .isFunctionBodyOnlyVirtualArrowFunctionExpression, .isClassStaticMethod,
        .allowSuperProperty]) []]
  byteCodeNames := []
  size_lt := by decide
  table_lt := by decide +kernel

/-- The static block comes back as an ordinary arrow function. -/
theorem staticBlock_not_roundTrips : ¬ staticBlockScript.RoundTrips latin1Storage := by
  intro h
  have hkeeps := h.keepsAll.1 _ (mem_cons_of_mem _ mem_cons_self)
  exact absurd hkeeps.isFunctionBodyOnlyVirtualArrowFunctionExpression (by decide)

/-- The script `let a, b, c` writes one byte past a buffer of 128 bytes. -/
example :
    let declared (c : UInt16) : BlockIdentifierInfo :=
      ⟨true, true, false, 0, ⟨[c], by simp [stringMaximumLength]⟩⟩
    let scope : BlockInfo :=
      ⟨true, true, false, 65535, 0, ⟨[declared 97, declared 98, declared 99], by decide⟩⟩
    let block : CodeBlock :=
      { plainBlock 0 11 ⟨1, 1, 0⟩ [] with blockInfos := ⟨[scope], by decide⟩ }
    ¬ Fits reservedCapacity 0 0 (CodeBlockTree.node block []).demands := by decide +kernel

end StoredScript

end Escargot.CodeCache
