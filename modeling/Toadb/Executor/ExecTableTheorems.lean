/-
Toadb.Executor.ExecTableTheorems — does the metadata of a new table fit?

  * `columnInfo_eq` / `columnInfo_none`     — the page buffer has room for 52
    columns, and whatever their types are, none is rejected;
  * `tableFileMainInit_eq` / `_none`        — the head page has room for 52, but
    the copy that is kept of it for 51 only;
  * `tableFileGroupInit_eq`                 — the head page of the group file.

`createTable_iff` puts them together.
-/
import Toadb.Executor.ExecTable

namespace Toadb.ExecTable

/-! ## Blocks -/

section Blocks

variable {block : Block} {offset size value : Nat} {bytes : List UInt8}

theorem readBlock_eq (h : offset + size ≤ pageMaxSize) :
    readBlock block offset size = some (Bytes.read block offset size) := if_pos h

theorem writeBlock_eq (h : offset + bytes.length ≤ pageMaxSize) :
    writeBlock block offset bytes = some (Bytes.write block offset bytes) := if_pos h

theorem writeBlock_none (h : pageMaxSize < offset + bytes.length) :
    writeBlock block offset bytes = none :=
  if_neg (Nat.not_le.mpr h)

theorem readInt_eq (h : offset + 4 ≤ pageMaxSize) :
    readInt block offset = some (Bytes.toNat (Bytes.read block offset 4)) := by
  rw [readInt, readBlock_eq h]
  rfl

theorem writeInt_eq (h : offset + 4 ≤ pageMaxSize) :
    writeInt block offset value = some (Bytes.write block offset (Bytes.ofNat 4 value)) :=
  writeBlock_eq (by rwa [Bytes.length_ofNat])

theorem writeInt_none (h : pageMaxSize < offset + 4) : writeInt block offset value = none :=
  writeBlock_none (by rwa [Bytes.length_ofNat])

theorem metadataSize_eq (colNum : Nat) : metadataSize colNum = 76 + 76 * colNum := rfl

theorem columnOffset_eq (i : Nat) : columnOffset i = 116 + 76 * i := by
  rw [columnOffset, metadataSize_eq, pageDataHeaderSize]
  omega

theorem length_nameText (s : CString) : (nameText s).length ≤ nameMaxLen := by
  rw [nameText, List.length_append, List.length_take, List.length_singleton, nameMaxLen]
  omega

/-- The name is read back, as far as it was written. -/
theorem cString_nameText (s : CString) (rest : List UInt8) :
    (cString (nameText s ++ rest)).val = s.val.take (nameMaxLen - 1) := by
  have hzero : ∀ c ∈ s.val.take (nameMaxLen - 1), decide (c ≠ 0) = true := fun c hc =>
    by
    have hmem : c ∈ s.val := List.mem_of_mem_take hc
    exact decide_eq_true fun h => s.property (h ▸ hmem)
  rw [cString, nameText, List.append_assoc]
  simp only
  rw [List.takeWhile_append_of_pos hzero, List.singleton_append,
    List.takeWhile_cons_of_neg (by simp), List.append_nil]

end Blocks

/-! ## Columns -/

section Columns

variable {colList : List ColumnDef} {i : Nat} {pagebuffer : Block}

/-- The columns are written one behind the other, each with its type. -/
theorem columnInfo_eq (h : i + colList.length ≤ 52) (pagebuffer : Block) :
    ∃ pagebuffer', columnInfo colList i pagebuffer = some (some pagebuffer') ∧
    (∀ offset size : Nat, offset + size ≤ columnOffset i →
      Bytes.read pagebuffer' offset size = Bytes.read pagebuffer offset size) ∧
    ∀ k column, colList[k]? = some column →
      Bytes.read pagebuffer' (columnOffset (i + k) + nameMaxLen : Nat) 4 =
        Bytes.ofNat 4 column.type.toNat := by
  induction colList generalizing i pagebuffer with
  | nil => exact ⟨pagebuffer, rfl, fun _ _ _ => rfl, fun k column hk => by cases hk⟩
  | cons column colList ih =>
    rw [List.length_cons] at h
    have hname := length_nameText column.colName
    have hoffset := columnOffset_eq i
    have hnext := columnOffset_eq (i + 1)
    rw [nameMaxLen] at hname
    let named := Bytes.write pagebuffer (columnOffset i) (nameText column.colName)
    let typed :=
      Bytes.write named (columnOffset i + nameMaxLen : Nat) (Bytes.ofNat 4 column.type.toNat)
    obtain ⟨pagebuffer', hrest, hkept, htypes⟩ := ih (i := i + 1) (by omega)
      (Bytes.write typed (columnOffset i + nameMaxLen + 4 : Nat) (Bytes.ofNat 4 i))
    have hlen := Bytes.length_ofNat
    refine ⟨pagebuffer', ?_, fun offset size hle => ?_, fun k c hk => ?_⟩
    · rw [columnInfo, writeBlock_eq (by rw [pageMaxSize]; omega),
        Option.bind_eq_bind, Option.bind_some,
        writeInt_eq (by rw [pageMaxSize, nameMaxLen]; omega), Option.bind_some,
        if_neg (Int.not_lt.mpr (Int.natCast_nonneg _)),
          writeInt_eq (by rw [pageMaxSize, nameMaxLen]; omega),
        Option.bind_some]
      exact hrest
    · rw [hkept offset size (by omega),
        Bytes.read_write_of_disjoint (by rw [nameMaxLen]; omega),
        Bytes.read_write_of_disjoint (by rw [nameMaxLen]; omega),
          Bytes.read_write_of_disjoint (by omega)]
    · cases k with
      | zero =>
        cases hk
        rw [Nat.add_zero, hkept _ _ (by rw [nameMaxLen]; omega),
          Bytes.read_write_of_disjoint (by omega)]
        have hread := Bytes.read_write named (columnOffset i + nameMaxLen : Nat)
            (Bytes.ofNat 4 column.type.toNat)
        rwa [hlen] at hread
      | succ k =>
        have htype := htypes k c hk
        rwa [Nat.add_assoc, Nat.add_comm 1 k] at htype

/-- A column too many is written behind the page buffer. -/
theorem columnInfo_none (hi : i ≤ 52) (h : 52 < i + colList.length) :
    columnInfo colList i pagebuffer = none := by
  induction colList generalizing i pagebuffer with
  | nil =>
    rw [List.length_nil] at h
    omega
  | cons column colList ih =>
    rw [List.length_cons] at h
    have hoffset := columnOffset_eq i
    rw [columnInfo]
    by_cases hname : columnOffset i + (nameText column.colName).length ≤ pageMaxSize
    · rw [writeBlock_eq hname, Option.bind_eq_bind, Option.bind_some]
      by_cases hlast : i = 52
      · rw [writeInt_none (by rw [hoffset, pageMaxSize, nameMaxLen]; omega)]
        rfl
      · rw [writeInt_eq (by rw [pageMaxSize, nameMaxLen]; omega), Option.bind_some,
          if_neg (Int.not_lt.mpr (Int.natCast_nonneg _)),
            writeInt_eq (by rw [pageMaxSize, nameMaxLen]; omega),
          Option.bind_some]
        exact ih (by omega) (by omega)
    · rw [writeBlock_none (Nat.not_le.mp hname)]
      rfl

end Columns

/-! ## Head pages -/

/-- The metadata of so many columns. -/
structure IsMetadata (tableDef : List UInt8) (colNum : Nat) : Prop where
  length : tableDef.length = metadataSize colNum
  colNum : Bytes.toNat ((tableDef.drop 72).take 4) = colNum

section Pages

variable {tableDef : List UInt8} {n : Nat} {newPage page tableInfo : Block}

/-- The header of the head page, with the end of the metadata. -/
def headPage (tableType dataEndOffset : Nat) : Block :=
  Bytes.write (Bytes.write (Bytes.write (Bytes.write (Bytes.write (Bytes.write (fun _ => 0)
    (0 : Nat) (Bytes.ofNat 4 0x2B3C)) (4 : Nat) (Bytes.ofNat 4 (1 ||| tableType)))
    (8 : Nat) (Bytes.ofNat 4 pageHeadPageNum)) (20 : Nat) (Bytes.ofNat 4 pageHeadPageNum))
    (12 : Nat) (Bytes.ofNat 4 pageDataHeaderSize)) (16 : Nat) (Bytes.ofNat 4 dataEndOffset)

/-- The head page with the metadata. -/
def mainPage (tableDef : List UInt8) : Block :=
  Bytes.write
    (headPage (Bytes.toNat ((tableDef.drop 4).take 4)) (pageDataHeaderSize + tableDef.length))
    pageDataHeaderSize tableDef

/-- The copy that is kept, with the header counted twice. -/
def keptPage (newPage : Block) (tableDef : List UInt8) : Block :=
  Bytes.write newPage (0 : Nat) (Bytes.read (mainPage tableDef) (0 : Nat)
    (pageDataHeaderSize + (pageDataHeaderSize + tableDef.length)))

theorem tableFileMainInit_run (h : IsMetadata tableDef n) (hn : n ≤ 52) :
    tableFileMainInit newPage tableDef =
      (readBlock (mainPage tableDef) 0
        (pageDataHeaderSize + (pageDataHeaderSize + tableDef.length))).bind fun bytes =>
        (writeBlock newPage 0 bytes).bind fun tableInfo => some
        (mainPage tableDef, tableInfo) := by
  have hsize : metadataSize n = tableDef.length := h.length.symm
  have hlen := metadataSize_eq n
  have hmax : pageDataHeaderSize + tableDef.length ≤ pageMaxSize := by
    rw [← hsize, hlen, pageDataHeaderSize, pageMaxSize]
    omega
  have hcol : Bytes.toNat ((tableDef.drop (tableMetaInfoSize - 4)).take 4) = n := h.colNum
  simp only [tableFileMainInit, hcol, hsize, writeInt_eq (show 0 + 4 ≤ pageMaxSize by decide),
    writeInt_eq (show 4 + 4 ≤ pageMaxSize by decide),
      writeInt_eq (show 8 + 4 ≤ pageMaxSize by decide),
    writeInt_eq (show 20 + 4 ≤ pageMaxSize by decide),
      writeInt_eq (show 12 + 4 ≤ pageMaxSize by decide),
    writeInt_eq (show 16 + 4 ≤ pageMaxSize by decide), writeBlock_eq hmax,
      Option.bind_eq_bind, Option.bind_some,
    List.take_length]
  rfl

theorem tableFileMainInit_eq (h : IsMetadata tableDef n) (hn : n ≤ 51) :
    tableFileMainInit newPage tableDef =
      some (mainPage tableDef, keptPage newPage tableDef) := by
  have hlen := h.length
  rw [metadataSize_eq] at hlen
  have hfit : 0 + (pageDataHeaderSize + (pageDataHeaderSize + tableDef.length)) ≤
      pageMaxSize := by
    rw [hlen, pageDataHeaderSize, pageMaxSize]
    omega
  rw [tableFileMainInit_run h (by omega), readBlock_eq hfit, Option.bind_some,
    writeBlock_eq (by rwa [Bytes.length_read]), Option.bind_some]
  rfl

/-- With 52 columns the copy goes beyond the page. -/
theorem tableFileMainInit_none (h : IsMetadata tableDef n) (hn : n = 52) :
    tableFileMainInit newPage tableDef = none := by
  have hlen := h.length
  rw [metadataSize_eq] at hlen
  have hfull : ¬ 0 + (pageDataHeaderSize + (pageDataHeaderSize + tableDef.length)) ≤
      pageMaxSize := by
    rw [hlen, pageDataHeaderSize, pageMaxSize]
    omega
  rw [tableFileMainInit_run h (by omega), readBlock, if_neg hfull]
  rfl

theorem read_mainPage (tableDef : List UInt8) :
    Bytes.read (mainPage tableDef) pageDataHeaderSize tableDef.length = tableDef :=
  Bytes.read_write ..

/-- A field of the header is not changed by the metadata. -/
theorem read_headPage {offset : Nat} (h : offset + 4 ≤ pageDataHeaderSize)
    (tableDef : List UInt8) :
    Bytes.read (mainPage tableDef) offset 4 =
      Bytes.read (headPage (Bytes.toNat ((tableDef.drop 4).take 4))
        (pageDataHeaderSize + tableDef.length)) offset 4 :=
  Bytes.read_write_of_disjoint (.inl (by exact_mod_cast h))

theorem dataOffset_headPage (tableType dataEndOffset : Nat) :
    Bytes.read (headPage tableType dataEndOffset) (12 : Nat) 4 =
      Bytes.ofNat 4 pageDataHeaderSize := by
  rw [headPage, Bytes.read_write_of_disjoint (.inl (by decide))]
  exact Bytes.read_write _ _ (Bytes.ofNat 4 pageDataHeaderSize)

theorem dataEndOffset_headPage (tableType dataEndOffset : Nat) :
    Bytes.read (headPage tableType dataEndOffset) (16 : Nat) 4 =
      Bytes.ofNat 4 dataEndOffset := by
  have hread := Bytes.read_write
      (Bytes.write (Bytes.write (Bytes.write (Bytes.write (Bytes.write (fun _ => 0)
    (0 : Nat) (Bytes.ofNat 4 0x2B3C)) (4 : Nat) (Bytes.ofNat 4 (1 ||| tableType)))
    (8 : Nat) (Bytes.ofNat 4 pageHeadPageNum)) (20 : Nat) (Bytes.ofNat 4 pageHeadPageNum))
    (12 : Nat) (Bytes.ofNat 4 pageDataHeaderSize)) (16 : Nat) (Bytes.ofNat 4 dataEndOffset)
  rwa [Bytes.length_ofNat] at hread

/-- The copy reads as the head page, as far as it goes. -/
theorem read_keptPage {offset size : Nat}
    (h : offset + size ≤ pageDataHeaderSize + (pageDataHeaderSize + tableDef.length)) :
    Bytes.read (keptPage newPage tableDef) offset size =
      Bytes.read (mainPage tableDef) offset size := by
  have hinside : Bytes.read (keptPage newPage tableDef) ((0 : Nat) + offset) size =
      ((Bytes.read (mainPage tableDef) (0 : Nat)
      (pageDataHeaderSize + (pageDataHeaderSize + tableDef.length))).drop offset).take size :=
    Bytes.read_write_inside (by rwa [Bytes.length_read])
  rw [Bytes.drop_read (by omega), Bytes.take_read (by omega)] at hinside
  simpa using hinside

theorem colNum_mainPage (h : IsMetadata tableDef n) :
    Bytes.read (mainPage tableDef) (112 : Nat) 4 = (tableDef.drop 72).take 4 := by
  have hlen := h.length
  rw [metadataSize_eq] at hlen
  exact Bytes.read_write_inside (k := 72) (by omega)

/-- The metadata is read from the head page of the main file as it was written. -/
theorem tableInfoInit_mainPage (h : IsMetadata tableDef n) (hn : n ≤ 52) :
    tableInfoInit (mainPage tableDef) = some tableDef := by
  have hcol : readInt (mainPage tableDef) (pageDataHeaderSize + (tableMetaInfoSize - 4)) =
      some n := by
    rw [readInt_eq (by decide)]
    exact congrArg some ((congrArg Bytes.toNat (colNum_mainPage h)).trans h.colNum)
  have hfit : pageDataHeaderSize + tableDef.length ≤ pageMaxSize := by
    rw [h.length, metadataSize_eq, pageDataHeaderSize, pageMaxSize]
    omega
  rw [tableInfoInit, hcol, Option.bind_eq_bind, Option.bind_some, ← h.length,
    readBlock_eq hfit, read_mainPage]

/-- The head page of the group file: the metadata behind a longer header. -/
def groupPage (tableDef : List UInt8) (n : Nat) : Block :=
  Bytes.write (Bytes.write (Bytes.write (Bytes.write (Bytes.write (mainPage tableDef)
    pageDataHeaderSize (Bytes.ofNat 4 0)) (pageDataHeaderSize + 4 : Nat) (Bytes.ofNat 4 n))
    groupPageHeaderSize tableDef) (12 : Nat) (Bytes.ofNat 4 groupPageHeaderSize))
    (16 : Nat) (Bytes.ofNat 4 (groupPageHeaderSize + tableDef.length))

theorem read_groupPage (tableDef : List UInt8) (n : Nat) :
    Bytes.read (groupPage tableDef n) groupPageHeaderSize tableDef.length = tableDef := by
  have hint (o v : Nat) (ho : o + 4 ≤ groupPageHeaderSize) :
      (o : Int) + (Bytes.ofNat 4 v).length ≤ groupPageHeaderSize := by
    rw [Bytes.length_ofNat]
    exact_mod_cast ho
  rw [groupPage, Bytes.read_write_of_disjoint (.inr (hint 16 _ (by decide))),
    Bytes.read_write_of_disjoint (.inr (hint 12 _ (by decide))), Bytes.read_write]

theorem tableFileGroupInit_eq (h : IsMetadata tableDef n) (hn : n ≤ 51) :
    tableFileGroupInit (keptPage newPage tableDef) (mainPage tableDef) =
      some (groupPage tableDef n) := by
  have hlen := h.length
  rw [metadataSize_eq] at hlen
  have hoffset : readInt (keptPage newPage tableDef) 12 = some pageDataHeaderSize := by
    rw [readInt_eq (by decide), read_keptPage (by rw [pageDataHeaderSize]; omega),
      read_headPage (by decide),
      dataOffset_headPage, Bytes.toNat_ofNat (by decide)]
  have hend : readInt (keptPage newPage tableDef) 16 =
      some (pageDataHeaderSize + tableDef.length) := by
    rw [readInt_eq (by decide), read_keptPage (by rw [pageDataHeaderSize]; omega),
      read_headPage (by decide),
      dataEndOffset_headPage, Bytes.toNat_ofNat (by rw [pageDataHeaderSize]; omega)]
  have hcol : readInt (keptPage newPage tableDef)
      (pageDataHeaderSize + (tableMetaInfoSize - 4)) = some n := by
    rw [readInt_eq (by decide),
      read_keptPage (by rw [pageDataHeaderSize, tableMetaInfoSize, nameMaxLen]; omega)]
    exact congrArg some ((congrArg Bytes.toNat (colNum_mainPage h)).trans h.colNum)
  have hread : readBlock (keptPage newPage tableDef) pageDataHeaderSize tableDef.length =
      some tableDef := by
    rw [readBlock_eq (by rw [pageDataHeaderSize, pageMaxSize]; omega),
      read_keptPage (by omega), read_mainPage]
  have hfit : groupPageHeaderSize + tableDef.length ≤ pageMaxSize := by
    rw [groupPageHeaderSize, pageDataHeaderSize, pageMaxSize]
    omega
  simp only [tableFileGroupInit, hoffset, hend, hcol, hread, Nat.add_sub_cancel_left,
    Option.bind_eq_bind, Option.bind_some,
    writeInt_eq (show pageDataHeaderSize + 4 ≤ pageMaxSize by decide),
    writeInt_eq (show pageDataHeaderSize + 4 + 4 ≤ pageMaxSize by decide), writeBlock_eq hfit,
    writeInt_eq (show 12 + 4 ≤ pageMaxSize by decide),
      writeInt_eq (show 16 + 4 ≤ pageMaxSize by decide)]
  rfl

end Pages

/-! ## The statement -/

/-- The name as it is stored. -/
def storedName (tableName : CString) : CString := cString (nameText tableName)

section Statement

variable {newBuffer newPage : Block} {results : FileResults}
  {objectId : BitVec 32} {stmt : CreateStmt}
  {tblList : List TblInfo}

/-- The buffer with the metadata of a statement. -/
structure IsBuffer (stmt : CreateStmt) (pagebuffer : Block) : Prop where
  name : cString (Bytes.read pagebuffer (48 : Nat) nameMaxLen) = storedName stmt.tableName
  colNum : Bytes.read pagebuffer (112 : Nat) 4 = Bytes.ofNat 4 stmt.colList.length
  types : ∀ (i : Nat) (column : ColumnDef), stmt.colList[i]? = some column →
    Bytes.read pagebuffer (columnOffset i + nameMaxLen : Nat) 4 =
      Bytes.ofNat 4 column.type.toNat

/-- What the call of `CreateTblInfo` makes of the dictionary. -/
def returned (tblList : List TblInfo) : Option TblInfo → Int × List TblInfo
  | none => (-1, tblList)
  | some tblInfo => (0, tblInfo :: tblList)

theorem cString_read_nameText {block : Block} (s : CString) :
    cString (Bytes.read (Bytes.write block (48 : Nat) (nameText s)) (48 : Nat) nameMaxLen) =
      storedName s := by
  have hlen := length_nameText s
  have hsplit :=
    Bytes.read_add (Bytes.write block (48 : Nat) (nameText s)) (48 : Nat) (nameText s).length
      (nameMaxLen - (nameText s).length)
  rw [Nat.add_sub_cancel' hlen, Bytes.read_write] at hsplit
  refine Subtype.ext ?_
  rw [hsplit, cString_nameText, storedName, ← List.append_nil (nameText s), cString_nameText]

/-- Up to 52 columns are put into the buffer. -/
theorem execCreateTable_buffer (h : stmt.colList.length ≤ 52) :
    ∃ pagebuffer, IsBuffer stmt pagebuffer ∧
    execCreateTable newBuffer newPage results objectId stmt tblList =
      (createTblInfo newPage results objectId tblList pagebuffer).map (returned tblList) := by
  have hname := length_nameText stmt.tableName
  rw [nameMaxLen] at hname
  let named := Bytes.write newBuffer (48 : Nat) (nameText stmt.tableName)
  let typed := Bytes.write named (44 : Nat) (Bytes.ofNat 4 tableType)
  obtain ⟨columns, hcolumns, hkept, htypes⟩ :=
    columnInfo_eq (by omega : 0 + stmt.colList.length ≤ 52) typed
  have hlen := Bytes.length_ofNat
  refine ⟨Bytes.write columns (112 : Nat) (Bytes.ofNat 4 stmt.colList.length),
    ⟨?_, ?_, fun i column hi => ?_⟩, ?_⟩
  · rw [Bytes.read_write_of_disjoint (by rw [nameMaxLen]; omega),
      hkept 48 nameMaxLen (by decide),
      Bytes.read_write_of_disjoint (by rw [nameMaxLen, hlen]; omega), cString_read_nameText]
  · have hread := Bytes.read_write columns (112 : Nat) (Bytes.ofNat 4 stmt.colList.length)
    rwa [hlen] at hread
  · have htype := htypes i column hi
    rw [Nat.zero_add] at htype
    rw [Bytes.read_write_of_disjoint
      (.inr (by rw [hlen, columnOffset_eq, nameMaxLen]; omega)), htype]
  · have hfit : pageDataHeaderSize + 8 + (nameText stmt.tableName).length ≤ pageMaxSize := by
      rw [pageDataHeaderSize, pageMaxSize]
      omega
    have hrun : columnInfo stmt.colList 0
        (Bytes.write (Bytes.write newBuffer (pageDataHeaderSize + 8 : Nat)
        (nameText stmt.tableName)) (pageDataHeaderSize + 4 : Nat) (Bytes.ofNat 4 tableType)) =
          some (some columns) := hcolumns
    simp only [execCreateTable, writeBlock_eq hfit,
      writeInt_eq (show pageDataHeaderSize + 4 + 4 ≤ pageMaxSize by decide),
      Option.bind_eq_bind, Option.bind_some, hrun,
      writeInt_eq (show pageDataHeaderSize + (tableMetaInfoSize - 4) + 4 ≤
        pageMaxSize by decide)]
    change Option.bind (createTblInfo newPage results objectId tblList
      (Bytes.write columns (112 : Nat) (Bytes.ofNat 4 stmt.colList.length))) _ = _
    cases createTblInfo newPage results objectId tblList
      (Bytes.write columns (112 : Nat) (Bytes.ofNat 4 stmt.colList.length)) with
    | none => rfl
    | some tblInfo => cases tblInfo <;> rfl

/-- More columns are written behind the buffer. -/
theorem execCreateTable_none (h : 52 < stmt.colList.length) :
    execCreateTable newBuffer newPage results objectId stmt tblList = none := by
  have hname := length_nameText stmt.tableName
  rw [nameMaxLen] at hname
  have hfit : pageDataHeaderSize + 8 + (nameText stmt.tableName).length ≤ pageMaxSize := by
    rw [pageDataHeaderSize, pageMaxSize]
    omega
  simp only [execCreateTable, writeBlock_eq hfit,
    writeInt_eq (show pageDataHeaderSize + 4 + 4 ≤ pageMaxSize by decide),
    Option.bind_eq_bind, Option.bind_some]
  rw [columnInfo_none (Nat.zero_le _) (by omega)]
  rfl

/-- The metadata of a statement in the dictionary. -/
def storedMetadata (objectId : BitVec 32) (n : Nat) (pagebuffer : Block) : List UInt8 :=
  Bytes.ofNat 4 objectId.toNat ++
    (Bytes.read pagebuffer pageDataHeaderSize (metadataSize n)).drop 4

/-- A field of the metadata is that of the buffer. -/
theorem take_storedMetadata {n offset size : Nat} {pagebuffer : Block} (h4 : 4 ≤ offset)
    (h : offset + size ≤ metadataSize n) :
    ((storedMetadata objectId n pagebuffer).drop offset).take size =
      Bytes.read pagebuffer (pageDataHeaderSize + offset : Nat) size := by
  obtain ⟨k, rfl⟩ := Nat.exists_eq_add_of_le h4
  have hlen : (Bytes.ofNat 4 objectId.toNat).length = 4 := Bytes.length_ofNat ..
  rw [storedMetadata, ← List.drop_drop, List.drop_left' hlen, List.drop_drop,
    Bytes.drop_read (by omega),
    Bytes.take_read (by omega)]
  push_cast
  rfl

theorem IsBuffer.isMetadata {pagebuffer : Block} (h : IsBuffer stmt pagebuffer)
    (hn : stmt.colList.length ≤ 52) :
    IsMetadata (storedMetadata objectId stmt.colList.length pagebuffer)
      stmt.colList.length := by
  have hsize := metadataSize_eq stmt.colList.length
  refine ⟨?_, ?_⟩
  · rw [storedMetadata, List.length_append, Bytes.length_ofNat,
      List.length_drop, Bytes.length_read]
    omega
  · rw [take_storedMetadata (by omega) (by omega)]
    exact (congrArg Bytes.toNat h.colNum).trans (Bytes.toNat_ofNat (by omega))

/-- `CreateTblInfo` of a buffer. -/
theorem createTblInfo_eq {pagebuffer : Block} (h : IsBuffer stmt pagebuffer)
    (hn : stmt.colList.length ≤ 52) :
    createTblInfo newPage results objectId tblList pagebuffer =
      if (findTblInfo tblList (storedName stmt.tableName)).isSome then some none
      else if results.createMain && results.createGroup then
        tableFileInit newPage results (storedMetadata objectId stmt.colList.length pagebuffer)
      else some none := by
  have hsize := metadataSize_eq stmt.colList.length
  have hcol : readInt pagebuffer (pageDataHeaderSize + (tableMetaInfoSize - 4)) =
      some stmt.colList.length := by
    rw [readInt_eq (by decide)]
    exact congrArg some ((congrArg Bytes.toNat h.colNum).trans (Bytes.toNat_ofNat (by omega)))
  have hfit : pageDataHeaderSize + metadataSize stmt.colList.length ≤ pageMaxSize := by
    rw [pageDataHeaderSize, pageMaxSize]
    omega
  simp only [createTblInfo,
    readBlock_eq (show pageDataHeaderSize + 8 + nameMaxLen ≤ pageMaxSize by decide),
    Option.bind_eq_bind, Option.bind_some, hcol, readBlock_eq hfit]
  have hname : cString (Bytes.read pagebuffer (pageDataHeaderSize + 8 : Nat) nameMaxLen) =
      storedName stmt.tableName := h.name
  rw [hname]
  rfl

/-- The metadata of up to 51 columns is written to both files. -/
theorem tableFileInit_eq {tableDef : List UInt8} {n : Nat}
    (h : IsMetadata tableDef n) (hn : n ≤ 51) :
    tableFileInit newPage results tableDef =
      some (if results.openMain && results.readMain &&
        (results.writeMain && results.writeGroup) then
        some ⟨tableDef, keptPage newPage tableDef, mainPage tableDef, groupPage tableDef n⟩
          else none) := by
  simp only [tableFileInit, tableFileMainInit_eq h hn, tableFileGroupInit_eq h hn,
    Option.bind_eq_bind, Option.bind_some]
  cases results.openMain <;> cases results.readMain <;> rfl

theorem tableFileInit_none {tableDef : List UInt8} {n : Nat}
    (h : IsMetadata tableDef n) (hn : n = 52) :
    tableFileInit newPage results tableDef = none := by
  rw [tableFileInit, tableFileMainInit_none h hn]
  rfl

/-! ## Types -/

/-- The index of a name in a list of names, or what it was before. -/
theorem foldl_index_range (typename : List UInt8) (names : List (List UInt8))
    (k : Nat) (index : Int) (hindex : -1 ≤ index ∧ index < k) :
    -1 ≤ (names.zipIdx k).foldl
      (fun index (name, i) => if typename = name then (i : Int) else index) index ∧
      (names.zipIdx k).foldl
      (fun index (name, i) => if typename = name then (i : Int) else index) index <
        (k + names.length : Nat) := by
  induction names generalizing k index with
  | nil => exact hindex
  | cons name names ih =>
    rw [List.zipIdx_cons, List.foldl_cons, List.length_cons]
    have hnext : -1 ≤ (if typename = name then (k : Int) else index) ∧
        (if typename = name then (k : Int) else index) < (k + 1 : Nat) := by
      split <;> omega
    have hrest := ih (k + 1) _ hnext
    rwa [Nat.add_assoc, Nat.add_comm 1] at hrest

theorem getColumnType_range (typename : CString) :
    -1 ≤ getColumnType typename ∧ getColumnType typename < 10 :=
  foldl_index_range typename.val columnType 0 (-1) ⟨le_refl _, by decide⟩

/-- `VT_UNKNOWN` is no type, and no type comes behind `VT_MAX`. -/
def KnownType (type : Nat) : Prop := 0 < type ∧ type < columnType.length

theorem knownType_iff (column : ColumnDef) :
    KnownType column.type.toNat ↔ 0 < getColumnType column.colType := by
  obtain ⟨hlo, hhi⟩ := getColumnType_range column.colType
  have hlen : columnType.length = 10 := rfl
  rw [KnownType, ColumnDef.type, BitVec.toNat_ofInt, hlen]
  omega

/-! ## The theorem -/

/-- The type of a column in the metadata. -/
def storedType (tableDef : List UInt8) (i : Nat) : Nat :=
  Bytes.toNat ((tableDef.drop (metadataSize i + nameMaxLen)).take 4)

theorem IsBuffer.storedType {pagebuffer : Block} (h : IsBuffer stmt pagebuffer) {i : Nat}
    {column : ColumnDef} (hi : stmt.colList[i]? = some column) :
    storedType (storedMetadata objectId stmt.colList.length pagebuffer) i =
      column.type.toNat := by
  have hlt := (List.getElem?_eq_some_iff.mp hi).1
  have hoffset := metadataSize_eq i
  have hsize := metadataSize_eq stmt.colList.length
  rw [ExecTable.storedType, take_storedMetadata (by omega) (by rw [nameMaxLen]; omega)]
  exact (congrArg Bytes.toNat (h.types i column hi)).trans
    (Bytes.toNat_ofNat column.type.isLt)

/-- The metadata of a new table is complete in both head pages, each of its columns has a
known type, the members of a group have room in a page, and the table is read back. -/
structure MetadataOk (stmt : CreateStmt) (tblInfo : TblInfo) : Prop where
  size : tblInfo.tableDef.length = metadataSize stmt.colList.length
  main_fits : pageDataHeaderSize + tblInfo.tableDef.length ≤ pageMaxSize
  main : Bytes.read tblInfo.mainHead pageDataHeaderSize tblInfo.tableDef.length =
    tblInfo.tableDef
  group_fits : groupPageHeaderSize + tblInfo.tableDef.length ≤ pageMaxSize
  group : Bytes.read tblInfo.groupHead groupPageHeaderSize tblInfo.tableDef.length =
    tblInfo.tableDef
  members : groupItemSize + stmt.colList.length * memberDataSize + pageDataHeaderSize <
    pageMaxSize
  types : ∀ i < stmt.colList.length, KnownType (storedType tblInfo.tableDef i)
  reload : tableInfoInit tblInfo.mainHead = some tblInfo.tableDef

/-- The statement is rejected and the dictionary is what it was, or the new table is added
with metadata as it should be. -/
def CreateTableOk (newBuffer newPage : Block) (results : FileResults)
    (objectId : BitVec 32) (stmt : CreateStmt) (tblList : List TblInfo) : Prop :=
  ∃ ret tblList', execCreateTable newBuffer newPage results objectId stmt tblList =
    some (ret, tblList') ∧
    (ret = -1 ∧ tblList' = tblList ∨ ∃ tblInfo,
      ret = 0 ∧ tblList' = tblInfo :: tblList ∧ MetadataOk stmt tblInfo)

theorem createTableOk_rejected
    (h : execCreateTable newBuffer newPage results objectId stmt tblList =
      some (-1, tblList)) :
    CreateTableOk newBuffer newPage results objectId stmt tblList :=
  ⟨-1, tblList, h, .inl ⟨rfl, rfl⟩⟩

theorem createTableOk_none
    (h : execCreateTable newBuffer newPage results objectId stmt tblList = none) :
    ¬ CreateTableOk newBuffer newPage results objectId stmt tblList := by
  intro ⟨ret, tblList', hrun, _⟩
  rw [h] at hrun
  cases hrun

theorem createTableOk_created {tblInfo : TblInfo}
    (h : execCreateTable newBuffer newPage results objectId stmt tblList =
      some (0, tblInfo :: tblList)) :
    CreateTableOk newBuffer newPage results objectId stmt tblList ↔
      MetadataOk stmt tblInfo := by
  constructor
  · intro ⟨ret, tblList', hrun, hok⟩
    rw [h] at hrun
    cases hrun
    rcases hok with ⟨hret, _⟩ | ⟨created, _, hlist, hmeta⟩
    · exact absurd hret (by decide)
    · obtain rfl := (List.cons_eq_cons.mp hlist).1
      exact hmeta
  · intro hmeta
    exact ⟨0, _, h, .inr ⟨tblInfo, rfl, rfl, hmeta⟩⟩

/-- The metadata of up to 51 columns is as it should be, when the types are. -/
theorem metadataOk_iff {pagebuffer : Block} (h : IsBuffer stmt pagebuffer)
    (hn : stmt.colList.length ≤ 51) :
    MetadataOk stmt ⟨storedMetadata objectId stmt.colList.length pagebuffer,
        keptPage newPage (storedMetadata objectId stmt.colList.length pagebuffer),
        mainPage (storedMetadata objectId stmt.colList.length pagebuffer),
        groupPage (storedMetadata objectId stmt.colList.length pagebuffer)
          stmt.colList.length⟩ ↔
      ∀ column ∈ stmt.colList, 0 < getColumnType column.colType := by
  have hmetadata : IsMetadata (storedMetadata objectId stmt.colList.length pagebuffer)
      stmt.colList.length :=
    h.isMetadata (by omega)
  have hlen := hmetadata.length
  rw [metadataSize_eq] at hlen
  constructor
  · intro hok column hmem
    obtain ⟨i, hi⟩ := List.getElem?_of_mem hmem
    have htype := hok.types i (List.getElem?_eq_some_iff.mp hi).1
    simp only at htype
    rwa [h.storedType hi, knownType_iff] at htype
  · intro htypes
    refine ⟨hmetadata.length, ?_, read_mainPage _, ?_, read_groupPage _ _, ?_, fun i hi => ?_,
      tableInfoInit_mainPage hmetadata (by omega)⟩
    · simp only
      rw [pageDataHeaderSize, pageMaxSize]
      omega
    · simp only
      rw [groupPageHeaderSize, pageDataHeaderSize, pageMaxSize]
      omega
    · rw [groupItemSize, memberDataSize, pageDataHeaderSize, pageMaxSize]
      omega
    · have hcolumn := List.getElem?_eq_getElem hi
      simp only
      rw [h.storedType hcolumn, knownType_iff]
      exact htypes _ (List.getElem_mem hi)

/-- Up to 51 columns of a new name make a table when the files are created, read and
written. -/
theorem execCreateTable_created {pagebuffer : Block} (hbuffer : IsBuffer stmt pagebuffer)
    (hn : stmt.colList.length ≤ 51)
    (hrun : execCreateTable newBuffer newPage results objectId stmt tblList =
      (createTblInfo newPage results objectId tblList pagebuffer).map (returned tblList))
    (hfound : ¬ (findTblInfo tblList (storedName stmt.tableName)).isSome = true)
    (hcreate : (results.createMain && results.createGroup) = true)
    (hfiles : (results.openMain && results.readMain &&
      (results.writeMain && results.writeGroup)) = true) :
    CreateTableOk newBuffer newPage results objectId stmt tblList ↔
      ∀ column ∈ stmt.colList, 0 < getColumnType column.colType := by
  rw [createTblInfo_eq hbuffer (by omega), if_neg hfound, if_pos hcreate,
    tableFileInit_eq (hbuffer.isMetadata (by omega)) hn,
    if_pos hfiles] at hrun
  rw [createTableOk_created hrun, metadataOk_iff hbuffer hn]

/-- A statement is rejected, or its table is as it should be, if and only if it has up to 52
columns and one of these holds: there is a table of that name; a file is not created; it has
up to 51 columns, and a page is not read or written or each type is known. -/
theorem createTable_iff (newBuffer newPage : Block) (results : FileResults)
    (objectId : BitVec 32) (stmt : CreateStmt) (tblList : List TblInfo) :
    CreateTableOk newBuffer newPage results objectId stmt tblList ↔
      stmt.colList.length ≤ 52 ∧
        ((findTblInfo tblList (storedName stmt.tableName)).isSome = true ∨
          ¬ (results.createMain && results.createGroup) = true ∨
          stmt.colList.length ≤ 51 ∧
            (¬ (results.openMain && results.readMain &&
              (results.writeMain && results.writeGroup)) = true ∨
              ∀ column ∈ stmt.colList, 0 < getColumnType column.colType)) := by
  by_cases hn : stmt.colList.length ≤ 52
  case neg =>
    exact iff_of_false (createTableOk_none (execCreateTable_none (Nat.not_le.mp hn))) fun h =>
      hn h.1
  obtain ⟨pagebuffer, hbuffer, hrun⟩ : ∃ pagebuffer, IsBuffer stmt pagebuffer ∧
      execCreateTable newBuffer newPage results objectId stmt tblList =
        (createTblInfo newPage results objectId tblList pagebuffer).map (returned tblList) :=
          execCreateTable_buffer hn
  have hrun' := hrun
  rw [createTblInfo_eq hbuffer hn] at hrun
  by_cases hfound : (findTblInfo tblList (storedName stmt.tableName)).isSome = true
  · rw [if_pos hfound] at hrun
    exact iff_of_true (createTableOk_rejected hrun) ⟨hn, .inl hfound⟩
  rw [if_neg hfound] at hrun
  by_cases hcreate : (results.createMain && results.createGroup) = true
  case neg =>
    rw [if_neg hcreate] at hrun
    exact iff_of_true (createTableOk_rejected hrun) ⟨hn, .inr (.inl hcreate)⟩
  rw [if_pos hcreate] at hrun
  by_cases h51 : stmt.colList.length ≤ 51
  case neg =>
    rw [tableFileInit_none (hbuffer.isMetadata hn) (by omega)] at hrun
    refine iff_of_false (createTableOk_none hrun) ?_
    rintro ⟨-, h | h | h⟩
    · exact hfound h
    · exact h hcreate
    · exact h51 h.1
  rw [tableFileInit_eq (hbuffer.isMetadata hn) h51] at hrun
  by_cases hfiles :
    (results.openMain && results.readMain && (results.writeMain && results.writeGroup)) = true
  case neg =>
    rw [if_neg hfiles] at hrun
    exact iff_of_true (createTableOk_rejected hrun) ⟨hn, .inr (.inr ⟨h51, .inl hfiles⟩)⟩
  rw [execCreateTable_created hbuffer h51 hrun' hfound hcreate hfiles]
  constructor
  · intro htypes
    exact ⟨hn, .inr (.inr ⟨h51, .inr htypes⟩)⟩
  · rintro ⟨-, h | h | ⟨-, h | h⟩⟩
    · exact absurd h hfound
    · exact absurd hcreate h
    · exact absurd hfiles h
    · exact h

/-- `CREATE TABLE t (a text)`. -/
def textTable : CreateStmt where
  tableName := cString (ascii "t")
  colList := [⟨cString (ascii "a"), cString (ascii "text")⟩]
  colList_ne_nil := List.cons_ne_nil _ _

/-- There is no type `text`, and the table is created. -/
theorem createTable_textTable : getColumnType (cString (ascii "text")) = -1 ∧
    (execCreateTable (fun _ => 0) (fun _ => 0)
      ⟨true, true, true, true, true, true⟩ 1 textTable []).map Prod.fst = some 0 ∧
    ¬ CreateTableOk (fun _ => 0) (fun _ => 0)
      ⟨true, true, true, true, true, true⟩ 1 textTable [] := by
  have hn : textTable.colList.length ≤ 51 := by decide
  have htype : getColumnType (cString (ascii "text")) = -1 := by decide
  obtain ⟨pagebuffer, hbuffer, hrun⟩ : ∃ pagebuffer, IsBuffer textTable pagebuffer ∧
      execCreateTable (fun _ => 0) (fun _ => 0)
        ⟨true, true, true, true, true, true⟩ 1 textTable [] =
        (createTblInfo (fun _ => 0) ⟨true, true, true, true, true, true⟩ 1 [] pagebuffer).map
          (returned []) :=
    execCreateTable_buffer (by omega)
  refine ⟨htype, by decide +kernel, fun hok => ?_⟩
  have htypes := (execCreateTable_created hbuffer hn hrun (by decide) rfl rfl).mp hok _
      (List.mem_singleton_self _)
  rw [htype] at htypes
  exact absurd htypes (by decide)

end Statement

end Toadb.ExecTable
