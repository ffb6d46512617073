/-
Toadb.Executor.ExecProject — the rows that a projection hands out (`execProject.c`,
`FormCol2RowDataEx` of `buffer.c`).

The node has one row, which every call fills and hands out. It is filled only when all the
targets were found; it is handed out in any case.

A list that may be NULL is an option here. The memory of the node is zero at first,
`initProjectData`.
-/
import Toadb.Executor.ColumnFetch

namespace Toadb

/-! ## Scanned rows -/

/-- `TableRowDataPosition`: the row of one table, with the table. A scan puts one row in
it. -/
structure TableRowDataPosition extends TableRowPosition where
  tblInfo : TableList

/-- `ScanTableRowData`: a row of each table, in table order. -/
abbrev ScanTableRowData := List TableRowDataPosition

/-- `GetTblRowDataPosition`. The source compares the addresses of the tables, and the
positions of a row have different numbers. -/
def ScanTableRowData.getTblRowDataPosition (scanTblRow : ScanTableRowData)
    (tblInfo : Option TableList) (rindex : Nat) : Option TableRowDataPosition := do
  let tblInfo ← tblInfo
  scanTblRow.find? fun pos => pos.tblInfo = tblInfo && pos.rindex = rindex

/-! ## Projection -/

/-- `TableRowData`: as many columns as `num` says. -/
structure TableRowData where
  size : Nat
  columnData : List (Option RowColumnData)
  deriving DecidableEq

/-- `InitProjectData`. -/
def initProjectData : TableRowData := ⟨0, []⟩

/-- A column without bytes goes out as NULL. -/
def RowColumnData.columnCell (column : RowColumnData) : Option RowColumnData :=
  if 0 < column.size then some column else none

/-- `FormCol2RowDataEx`. Behind an array of no columns comes the row itself, and it starts
with zeros: such an array counts as NULL. -/
def formCol2RowDataEx (colRows : List RowColumnData)
    (rowsData : TableRowData) : TableRowData :=
  if colRows = [] then rowsData
  else ⟨(colRows.map RowColumnData.size).sum, colRows.map RowColumnData.columnCell⟩

section

variable (rangTbl : List RangTblEntry) (scanTblRow : ScanTableRowData)

/-- One round of the loop of `FetchTargetColumns`. -/
def targetColumn (target : TargetEntry) : Option RowColumnData := do
  let rte ← getCellValueByIndex rangTbl target.rindex
  let tblRowPosition ← scanTblRow.getTblRowDataPosition rte.tblInfo rte.rindex
  getColRowDataEx tblRowPosition.toTableRowPosition target.attrIndex

/-- The loop: the columns up to the first that is not found. -/
def targetColumns : List TargetEntry → List RowColumnData
  | [] => []
  | target :: targetList =>
    match targetColumn rangTbl scanTblRow target with
    | none => []
    | some column => column :: targetColumns targetList

end

/-- `FetchTargetColumns`, with the row that it hands out and the one that stays in the
node. -/
def TableRowData.fetchTargetColumns (pjData : TableRowData)
    (targetList : Option (List TargetEntry))
    (rangTbl : Option (List RangTblEntry)) (scanTblRowInfo : Option ScanTableRowData) :
    Option TableRowData × TableRowData :=
  match targetList, rangTbl, scanTblRowInfo with
  | some targetList, some rangTbl, some scanTblRow =>
    let rawcol := targetColumns rangTbl scanTblRow targetList
    let rowData :=
      if rawcol.length = targetList.length then formCol2RowDataEx rawcol pjData else pjData
    (some rowData, rowData)
  | _, _, _ => (none, pjData)

/-- What the calls of `ExecTableProject` hand out, one for each row of the scan below. -/
def TableRowData.execTableProject (targetList : Option (List TargetEntry))
    (rangTbl : Option (List RangTblEntry)) :
    TableRowData → List (Option ScanTableRowData) → List (Option TableRowData)
  | _, [] => []
  | pjData, scanTblRowInfo :: scans =>
    let (row, pjData) := pjData.fetchTargetColumns targetList rangTbl scanTblRowInfo
    row :: execTableProject targetList rangTbl pjData scans

end Toadb
