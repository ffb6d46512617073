/-
Toadb.Executor.ExecProjectTheorems — whose columns a projected row has.

  * `ColumnValue` — what a column is in the row where a scan stands;
  * `RowOfTargets` — what the projection is for: a row of the targets' own values, or no row;
  * `execTableProject_rows_iff` — every row that goes out is such a row exactly when every
    target is found in every row below. Else the row that goes out is the one before it.
-/
import Toadb.Executor.ColumnFetchTheorems
import Toadb.Executor.ExecProject

namespace Toadb

/-! ## Values -/

/-- The value of a column in the row where the scan stands: what the scan has read of it, or
else what is at the row's offset on the page of the column in the row's group. -/
inductive ColumnValue (pos : TableRowPosition) (attrIndex : Nat) : RowColumnData → Prop
  | scanned {index : Nat} {v : RowColumnData} :
      pos.scanPostionInfo.colindexList.idxOf? attrIndex = some index →
      pos.rowData[index]? = some v → ColumnValue pos attrIndex v
  | onPage {o : Int} {pageno : Nat} {page : PageDataHeader} {v : RowColumnData} :
      attrIndex ∉ pos.scanPostionInfo.colindexList →
      pos.scanPostionInfo.searchPageList.head? = some o →
      getPageNoFromGroupInfo pos.node.groups pos.scanPostionInfo.groupPageInfo attrIndex =
        some pageno →
      getPageByIndex pos.node.file pageno = some page →
      getRowDataFromPageByIndexEx page o = some v → ColumnValue pos attrIndex v

variable {pos : TableRowPosition} {attrIndex : Nat} {page : PageDataHeader} {o : Int}

theorem getColRowDataEx_eq_some_iff {v : RowColumnData} :
    getColRowDataEx pos attrIndex = some v ↔ ColumnValue pos attrIndex v := by
  cases hidx : pos.scanPostionInfo.colindexList.idxOf? attrIndex with
  | some index =>
    simp only [getColRowDataEx, hidx]
    constructor
    · exact .scanned hidx
    · intro h
      cases h with
      | scanned hidx' hv =>
        rw [hidx, Option.some.injEq] at hidx'
        rw [hidx', hv]
      | onPage hnot =>
        rw [List.idxOf?_eq_none_iff.mpr hnot] at hidx
        cases hidx
  | none =>
    simp only [getColRowDataEx, hidx, Option.bind_eq_bind,
      Option.bind_eq_some_iff, rowByIndex]
    constructor
    · rintro ⟨o, ho, pageno, hpageno, page, hpage, hv⟩
      exact .onPage (List.idxOf?_eq_none_iff.mp hidx) ho hpageno hpage hv
    · intro h
      cases h with
      | scanned hidx' =>
        rw [hidx] at hidx'
        cases hidx'
      | onPage _ ho hpageno hpage hv => exact ⟨_, ho, _, hpageno, _, hpage, hv⟩

/-! ## Where a column is found -/

/-- There is a valid item. -/
def ItemLive (page : PageDataHeader) (o : Int) : Prop :=
  itemEndCheck page o = false ∧ (page.item o).valid = true

/-- The row of an item has a size that a row can have. -/
def RowSized (page : PageDataHeader) (o : Int) : Prop :=
  Bytes.toNat (Bytes.read page.bytes (page.item o).offset 4) ≤ maxRowDataSize

/-- The item has a row on its page. A redirect item has it on extension pages only. -/
structure RowInItem (page : PageDataHeader) (o : Int) : Prop where
  start : 0 < o
  live : ItemLive page o
  row : if (page.item o).redirect then
      page.pageType = .extData ∧ ItemLive page (itemOffsetOfIndex (getCurItemIndex o)) ∧
        RowSized page (itemOffsetOfIndex (getCurItemIndex o))
    else RowSized page o

theorem readRowData_isSome_iff {mem : Int → UInt8} {offset : Int} :
    (∃ v, readRowData mem offset = some v) ↔
      Bytes.toNat (Bytes.read mem offset 4) ≤ maxRowDataSize := by
  by_cases hsize : Bytes.toNat (Bytes.read mem offset 4) > maxRowDataSize
  · rw [readRowData, if_pos hsize]
    exact iff_of_false (by simp) (Nat.not_le.mpr hsize)
  · rw [readRowData, if_neg hsize]
    exact iff_of_true ⟨_, rfl⟩ (Nat.not_lt.mp hsize)

theorem getRowDataFromExtPageEx_isSome_iff {itemIndex : Nat} :
    (∃ v, getRowDataFromExtPageEx page itemIndex = some v) ↔
      page.pageType = .extData ∧ ItemLive page (itemOffsetOfIndex itemIndex) ∧
        RowSized page (itemOffsetOfIndex itemIndex) := by
  rw [getRowDataFromExtPageEx]
  by_cases htype : page.pageType = .extData
  · rw [if_neg (not_not_intro htype), and_iff_right htype]
    by_cases hlive : ItemLive page (itemOffsetOfIndex itemIndex)
    · obtain ⟨hend, hvalid⟩ := hlive
      simp only [hend, hvalid, Bool.not_false, Bool.and_self, if_true]
      rw [readRowData_isSome_iff, and_iff_right ⟨hend, hvalid⟩]
      exact Iff.rfl
    · have hnot : ¬ (!itemEndCheck page (itemOffsetOfIndex itemIndex) &&
          (page.item (itemOffsetOfIndex itemIndex)).valid) = true := by
        simpa [ItemLive] using hlive
      rw [if_neg hnot]
      exact iff_of_false (by simp) fun hand => hlive hand.1
  · rw [if_pos htype]
    exact iff_of_false (by simp) fun hand => htype hand.1

theorem getRowDataFromPageByIndexEx_isSome_iff :
    (∃ v, getRowDataFromPageByIndexEx page o = some v) ↔ RowInItem page o := by
  by_cases hitem : 0 < o ∧ ItemLive page o
  · obtain ⟨hstart, hlive⟩ := hitem
    have hguard : (decide (o > 0) && !itemEndCheck page o && (page.item o).valid) = true := by
      simp [hlive.1, hlive.2, hstart]
    rw [getRowDataFromPageByIndexEx, if_pos hguard, rowOfItem]
    constructor
    · intro hrow
      refine ⟨hstart, hlive, ?_⟩
      cases hredirect : (page.item o).redirect with
      | true => exact getRowDataFromExtPageEx_isSome_iff.mp (by simpa [hredirect] using hrow)
      | false => exact readRowData_isSome_iff.mp (by simpa [hredirect] using hrow)
    · intro hrow
      have hsome := hrow.row
      cases hredirect : (page.item o).redirect with
      | true => simpa [hredirect, getRowDataFromExtPageEx_isSome_iff] using hsome
      | false => simpa [hredirect, readRowData_isSome_iff, RowSized] using hsome
  · have hguard : ¬ (decide (o > 0) && !itemEndCheck page o && (page.item o).valid) =
        true := by
      simpa [ItemLive, and_assoc] using hitem
    rw [getRowDataFromPageByIndexEx, if_neg hguard]
    exact iff_of_false (by simp) fun hrow => hitem ⟨hrow.start, hrow.live⟩

/-- Whether a column is found: the scan has read it, or the page of the column in the row's
group has a row at the offset of the first column that the scan reads. -/
def ColumnFound (pos : TableRowPosition) (attrIndex : Nat) : Prop :=
  match pos.scanPostionInfo.colindexList.idxOf? attrIndex with
  | some index => index < pos.rowData.length
  | none => ∃ o pageno page, pos.scanPostionInfo.searchPageList.head? = some o ∧
      getPageNoFromGroupInfo pos.node.groups pos.scanPostionInfo.groupPageInfo attrIndex =
        some pageno ∧
      getPageByIndex pos.node.file pageno = some page ∧ RowInItem page o

theorem columnValue_exists_iff : (∃ v, ColumnValue pos attrIndex v) ↔
    ColumnFound pos attrIndex := by
  simp only [← getColRowDataEx_eq_some_iff]
  cases hidx : pos.scanPostionInfo.colindexList.idxOf? attrIndex with
  | some index =>
    simp only [getColRowDataEx, ColumnFound, hidx]
    rw [← Option.isSome_iff_exists, isSome_getElem?]
  | none =>
    simp only [getColRowDataEx, ColumnFound, hidx, Option.bind_eq_bind,
      Option.bind_eq_some_iff,
      rowByIndex, ← getRowDataFromPageByIndexEx_isSome_iff]
    constructor
    · rintro ⟨v, o, ho, pageno, hpageno, page, hpage, hv⟩
      exact ⟨o, pageno, page, ho, hpageno, hpage, v, hv⟩
    · rintro ⟨o, pageno, page, ho, hpageno, hpage, v, hv⟩
      exact ⟨v, o, ho, pageno, hpageno, page, hpage, hv⟩

/-! ## Rows of targets -/

section Target

variable (rangTbl : List RangTblEntry) (scanTblRow : ScanTableRowData)

/-- A column of the result is the value that the target has in the row of its own table. -/
def TargetValue (target : TargetEntry) (column : Option RowColumnData) : Prop :=
  ∃ rte tblRowPosition v, getCellValueByIndex rangTbl target.rindex = some rte ∧
    scanTblRow.getTblRowDataPosition rte.tblInfo rte.rindex = some tblRowPosition ∧
    ColumnValue tblRowPosition.toTableRowPosition target.attrIndex v ∧ column = v.columnCell

/-- The range table has the entry of the target, there is a row of its table, and the column
is found in this row. -/
def TargetFound (target : TargetEntry) : Prop :=
  ∃ rte tblRowPosition, getCellValueByIndex rangTbl target.rindex = some rte ∧
    scanTblRow.getTblRowDataPosition rte.tblInfo rte.rindex = some tblRowPosition ∧
    ColumnFound tblRowPosition.toTableRowPosition target.attrIndex

end Target

variable {rangTbl : List RangTblEntry} {scanTblRow : ScanTableRowData} {target : TargetEntry}

theorem targetColumn_eq_some_iff {column : RowColumnData} :
    targetColumn rangTbl scanTblRow target = some column ↔
      ∃ rte tblRowPosition, getCellValueByIndex rangTbl target.rindex = some rte ∧
        scanTblRow.getTblRowDataPosition rte.tblInfo rte.rindex = some tblRowPosition ∧
        ColumnValue tblRowPosition.toTableRowPosition target.attrIndex column := by
  simp only [targetColumn, Option.bind_eq_bind, Option.bind_eq_some_iff,
    getColRowDataEx_eq_some_iff]
  constructor
  · rintro ⟨rte, hrte, pos, hpos, hv⟩
    exact ⟨rte, pos, hrte, hpos, hv⟩
  · rintro ⟨rte, pos, hrte, hpos, hv⟩
    exact ⟨rte, hrte, pos, hpos, hv⟩

theorem targetColumn_exists_iff :
    (∃ column, targetColumn rangTbl scanTblRow target = some column) ↔
      TargetFound rangTbl scanTblRow target := by
  simp only [targetColumn_eq_some_iff, TargetFound, ← columnValue_exists_iff]
  constructor
  · rintro ⟨v, rte, pos, hrte, hpos, hv⟩
    exact ⟨rte, pos, hrte, hpos, v, hv⟩
  · rintro ⟨rte, pos, hrte, hpos, v, hv⟩
    exact ⟨v, rte, pos, hrte, hpos, hv⟩

theorem TargetValue.found {column : Option RowColumnData}
    (h : TargetValue rangTbl scanTblRow target column) :
    TargetFound rangTbl scanTblRow target := by
  obtain ⟨rte, pos, v, hrte, hpos, hv, -⟩ := h
  exact ⟨rte, pos, hrte, hpos, columnValue_exists_iff.mp ⟨v, hv⟩⟩

/-! ## The loop over the targets -/

theorem targetColumns_length_iff (targetList : List TargetEntry) :
    (targetColumns rangTbl scanTblRow targetList).length = targetList.length ↔
      ∀ target ∈ targetList, TargetFound rangTbl scanTblRow target := by
  induction targetList with
  | nil => exact iff_of_true rfl nofun
  | cons target targetList ih =>
    rw [List.forall_mem_cons, ← targetColumn_exists_iff, targetColumns]
    cases hcolumn : targetColumn rangTbl scanTblRow target with
    | none => exact iff_of_false nofun nofun
    | some column =>
      rw [List.length_cons, List.length_cons, Nat.add_right_cancel_iff, ih,
        and_iff_right ⟨column, rfl⟩]

theorem targetColumns_values {targetList : List TargetEntry}
    (h : ∀ target ∈ targetList, TargetFound rangTbl scanTblRow target) :
    List.Forall₂ (TargetValue rangTbl scanTblRow) targetList
      ((targetColumns rangTbl scanTblRow targetList).map RowColumnData.columnCell) := by
  induction targetList with
  | nil => exact .nil
  | cons target targetList ih =>
    rw [List.forall_mem_cons] at h
    obtain ⟨column, hcolumn⟩ := targetColumn_exists_iff.mpr h.1
    obtain ⟨rte, pos, hrte, hpos, hv⟩ := targetColumn_eq_some_iff.mp hcolumn
    simp only [targetColumns, hcolumn, List.map_cons]
    exact .cons ⟨rte, pos, column, hrte, hpos, hv, rfl⟩ (ih h.2)

/-! ## What goes out -/

/-- The row that goes out has the values of the targets, each from the row of its own table;
or no row goes out. -/
def RowOfTargets (targetList : Option (List TargetEntry))
    (rangTbl : Option (List RangTblEntry))
    (scanTblRowInfo : Option ScanTableRowData) (row : Option TableRowData) : Prop :=
  ∀ rowData, row = some rowData → ∃ targets entries scanTblRow, targetList = some targets ∧
    rangTbl = some entries ∧ scanTblRowInfo = some scanTblRow ∧
    List.Forall₂ (TargetValue entries scanTblRow) targets rowData.columnData

/-- All the targets are found, if there are lists of them, of tables and of rows. -/
def TargetsFound (targetList : Option (List TargetEntry))
    (rangTbl : Option (List RangTblEntry))
    (scanTblRowInfo : Option ScanTableRowData) : Prop :=
  ∀ targets ∈ targetList, ∀ entries ∈ rangTbl, ∀ scanTblRow ∈ scanTblRowInfo,
    ∀ target ∈ targets, TargetFound entries scanTblRow target

variable {pjData : TableRowData} {targetList : Option (List TargetEntry)}
  {rangTbl : Option (List RangTblEntry)} {scanTblRowInfo : Option ScanTableRowData}

/-- Without targets the row of the node stays empty. -/
def TableRowData.EmptyFor (pjData : TableRowData)
    (targetList : Option (List TargetEntry)) : Prop :=
  targetList = some [] → pjData.columnData = []

theorem formCol2RowDataEx_columnData {colRows : List RowColumnData}
    (h : colRows = [] → pjData.columnData = []) :
    (formCol2RowDataEx colRows pjData).columnData = colRows.map RowColumnData.columnCell := by
  by_cases hnil : colRows = []
  · rw [formCol2RowDataEx, if_pos hnil, h hnil, hnil, List.map_nil]
  · rw [formCol2RowDataEx, if_neg hnil]

/-- One call. -/
theorem TableRowData.EmptyFor.fetchTargetColumns (h : pjData.EmptyFor targetList) :
    (RowOfTargets targetList rangTbl scanTblRowInfo
        (pjData.fetchTargetColumns targetList rangTbl scanTblRowInfo).1 ↔
      TargetsFound targetList rangTbl scanTblRowInfo) ∧
    (pjData.fetchTargetColumns targetList rangTbl scanTblRowInfo).2.EmptyFor targetList := by
  rcases targetList with - | targets
  · exact ⟨iff_of_true nofun nofun, nofun⟩
  rcases rangTbl with - | entries
  · exact ⟨iff_of_true nofun nofun, h⟩
  rcases scanTblRowInfo with - | scanTblRow
  · exact ⟨iff_of_true nofun nofun, h⟩
  have hfound : TargetsFound (some targets) (some entries) (some scanTblRow) ↔
      ∀ target ∈ targets, TargetFound entries scanTblRow target := by
    simp [TargetsFound]
  rw [hfound]
  by_cases hall : ∀ target ∈ targets, TargetFound entries scanTblRow target
  · have hlength := (targetColumns_length_iff targets).mpr hall
    have hcolumns :
        (formCol2RowDataEx (targetColumns entries scanTblRow targets) pjData).columnData
        = (targetColumns entries scanTblRow targets).map RowColumnData.columnCell := by
      refine formCol2RowDataEx_columnData fun hnil => h ?_
      rw [hnil, List.length_nil, eq_comm, List.length_eq_zero_iff] at hlength
      rw [hlength]
    simp only [TableRowData.fetchTargetColumns, if_pos hlength]
    constructor
    · refine iff_of_true ?_ hall
      intro rowData hrow
      cases hrow
      exact ⟨targets, entries, scanTblRow, rfl, rfl, rfl,
        hcolumns ▸ targetColumns_values hall⟩
    · intro hnil
      cases hnil
      rw [hcolumns]
      rfl
  · have hlength := (targetColumns_length_iff targets).not.mpr hall
    simp only [TableRowData.fetchTargetColumns, if_neg hlength]
    refine ⟨iff_of_false (fun hrow => hall ?_) hall, h⟩
    obtain ⟨targets', entries', scanTblRow', htargets, hentries, hscan, hvalues⟩ :=
      hrow pjData rfl
    cases htargets
    cases hentries
    cases hscan
    intro target hmem
    obtain ⟨column, hvalue⟩ := forall₂_exists_right hvalues.flip target hmem
    exact TargetValue.found hvalue

/-- Every row that goes out has the values of the targets in the row below it exactly when all
the targets are found in every row below. -/
theorem execTableProject_rows_iff (targetList : Option (List TargetEntry))
    (rangTbl : Option (List RangTblEntry)) (scans : List (Option ScanTableRowData)) :
    List.Forall₂ (RowOfTargets targetList rangTbl) scans
        (initProjectData.execTableProject targetList rangTbl scans) ↔
      ∀ scanTblRowInfo ∈ scans, TargetsFound targetList rangTbl scanTblRowInfo := by
  suffices hrun : ∀ pjData : TableRowData, pjData.EmptyFor targetList →
      (List.Forall₂ (RowOfTargets targetList rangTbl) scans
          (pjData.execTableProject targetList rangTbl scans) ↔
        ∀ scanTblRowInfo ∈ scans, TargetsFound targetList rangTbl scanTblRowInfo) from
    hrun initProjectData fun _ => rfl
  induction scans with
  | nil => exact fun _ _ => iff_of_true .nil nofun
  | cons scanTblRowInfo scans ih =>
    intro pjData h
    obtain ⟨hrow, hnext⟩ : (_ ↔ TargetsFound targetList rangTbl scanTblRowInfo) ∧ _ :=
      h.fetchTargetColumns
    rw [List.forall_mem_cons, TableRowData.execTableProject,
      List.forall₂_cons, hrow, ih _ hnext]

/-! ## A row whose second column was moved -/

/-- Two rows in two columns, on the pages 2 and 3. The first column is the same in both. -/
def twoRowTable : TableFile :=
  ((extensionTbl 3 ⟨0, fun _ => none⟩).set 2
      (writeRowOnePage (writeRowOnePage (initPage 2) (plainRow 5 1)).1 (plainRow 5 1)).1).set
        3
    (writeRowOnePage (writeRowOnePage (initPage 3) (plainRow 6 2)).1 (plainRow 6 4)).1

/-- The update of the second row by transaction 2: its second column does not fit on the page
any more. -/
def growB : ColumnUpdate :=
  ⟨plainRow 6 4, 54, ⟨3, 56, ⟨3988, true, false, 54⟩⟩, plainRow 3990 7⟩

def movedTable : TableFile := (paxExecUpdate 2 growB twoRowTable).2

/-- A snapshot that transaction 3 takes afterwards. -/
def afterwards : SnapShotInfo := ⟨4, 3, 0, []⟩

/-- The scan of the first column, at the row with offset `o`. -/
def scanMoved (o : Int) : TableRowDataPosition where
  rindex := 1
  node := ⟨movedTable, twoColumnGroups, 2, [0]⟩
  scanPostionInfo := ⟨⟨true, 2, 0, 1⟩, [0], false, [2], [o]⟩
  rowData := [plainRow 5 1]
  tblInfo := ⟨[⟨columnA, .varchar, 0⟩, ⟨columnB, .varchar, 1⟩]⟩

/-- Both rows of `SELECT b FROM t WHERE a = …` go out with the column of the first one. -/
theorem execTableProject_stale : ∃ query row,
    transformSelectStmt tableAB selectB = some query ∧
      (scanMoved 40).HandedOut 3 afterwards ∧ (scanMoved 56).HandedOut 3 afterwards ∧
      initProjectData.execTableProject (some query.targetList) (some query.rtable)
          [some [scanMoved 40], some [scanMoved 56]] = [some row, some row] ∧
      row.columnData = [some (plainRow 6 2)] ∧
      ¬ List.Forall₂ (RowOfTargets (some query.targetList) (some query.rtable))
        [some [scanMoved 40], some [scanMoved 56]] [some row, some row] := by
  have hfirst : (initScanPositionInfo 2 [0]).bind
      (seqscanNext movedTable twoColumnGroups 3 afterwards 5)
        = some (some [plainRow 5 1], (scanMoved 40).scanPostionInfo) := by
    decide
  have hsecond : seqscanNext movedTable twoColumnGroups 3 afterwards 5
      (scanMoved 40).scanPostionInfo
      = some (some [plainRow 5 1], (scanMoved 56).scanPostionInfo) := by
    decide
  refine ⟨_, ⟨54, [some (plainRow 6 2)]⟩, rfl, ⟨_, 5, .start rfl, hfirst⟩,
    ⟨_, 5, .next (.start rfl) hfirst, hsecond⟩, by decide, rfl, ?_⟩
  rintro (_ | ⟨-, _ | ⟨hrow, -⟩⟩)
  obtain ⟨targets, entries, scanTblRow, htargets, hentries, hscan, hvalues⟩ := hrow _ rfl
  cases htargets
  cases hentries
  cases hscan
  cases hvalues with
  | cons hvalue _ =>
    have hsome :=
      Option.isSome_iff_exists.mpr (targetColumn_exists_iff.mpr (TargetValue.found hvalue))
    revert hsome
    decide

end Toadb
