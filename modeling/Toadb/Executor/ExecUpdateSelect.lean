/-
Toadb.Executor.ExecUpdateSelect — UPDATE and DELETE (`execSelect.c`, `execModifyTable.c`).

The node that modifies a table takes row after row from the nodes below, which
are those of a SELECT, and hands each to the node beside it. That one forms what
is written: for each target where its column was found, with the column
(`formOriginRowsPos`) or with a new value (`formNewRowsPos`). Then the columns are
written one after the other, so that the scan finds what the rows before have left
of the table.

This is the plan of one table. An UPDATE of more tables is refused.
-/
import Toadb.Executor.ExecSelect
import Toadb.Storage.Workers

namespace Toadb

/-! ## Where a column was found -/

/-- `GetColRowDataEx` with `attrPosData`: the column, and its item. The item is at the offset
of the first column that the scan reads. -/
def getColRowDataPos (pos : TableRowPosition) (attrIndex : Nat) : Option FetchedColumn := do
  let pageOffset ← pos.scanPostionInfo.searchPageList.head?
  match pos.scanPostionInfo.colindexList.idxOf? attrIndex with
  | some index =>
    let colData ← pos.rowData[index]?
    let pageno ← pos.scanPostionInfo.pageList[index]?
    let page ← pos.node.file.page pageno
    return ⟨⟨page.pageNum, pageOffset, page.item pageOffset⟩, colData⟩
  | none =>
    let pageno ← getPageNoFromGroupInfo pos.node.groups
        pos.scanPostionInfo.groupPageInfo attrIndex
    let colData ← rowByIndex pos.node.file pageno pageOffset
    let page ← pos.node.file.page pageno
    return ⟨⟨pageno, pageOffset, page.item pageOffset⟩, colData⟩

/-! ## What is written -/

section

variable (rtable : List RangTblEntry) (scanRowData : ScanTableRowData)

/-- One round of the loops: where the column of a target was found. -/
def targetPosition (targetEntry : TargetEntry) : Option FetchedColumn := do
  let rte ← getCellValueByIndex rtable targetEntry.rindex
  let tblRowPosition ← scanRowData.getTblRowDataPosition rte.tblInfo rte.rindex
  getColRowDataPos tblRowPosition.toTableRowPosition targetEntry.attrIndex

/-- `FormOriginRowsPos`. -/
def formOriginRowsPos (targetList : List TargetEntry) : Option (List FetchedColumn) :=
  if targetList = [] then none else targetList.mapM (targetPosition rtable scanRowData)

end

/-- What the right side of a SET is made with. The functions return NULL, or nothing where
they have no result. -/
structure SetOps (V : Type) extends ExprOps V where
  transformConstExprValue : ConstValue → Option (Option V)
  transFormExpr2RowColumnData : V → Nat → Option (Option RowColumnData)

/-- `TransformConstExprValue` and `transFormExpr2RowColumnData` for `int`. -/
def intSetOps : SetOps (BitVec 32) where
  toExprOps := intOps
  transformConstExprValue constValue :=
    match constValue.val with
    | .iData i => some (some i)
    | _ => none
  transFormExpr2RowColumnData value attrIndex :=
    some (some (.new attrIndex (Bytes.ofNat 4 value.toNat)))

section

variable {V : Type} (ops : SetOps V) (decode : RowColumnData → V) (rtable : List RangTblEntry)
  (scanRowData : ScanTableRowData)

/-- `ProcessSetValueExpr`: the value, and the cell afterwards. -/
def processSetValueExpr (setValueExpr : QualNode) (cell : V) : Option (Option V × V) :=
  match setValueExpr with
  | .constValue constValue =>
    (ops.transformConstExprValue constValue).map fun value => (value, cell)
  | setValueExpr =>
    some (processQualExprNode ops.toExprOps rtable
      (rowValues ops.toExprOps decode rtable scanRowData) setValueExpr 0 cell)

/-- The loop of `FormNewRowsPos`, and the cell afterwards. It ends where something is not
found; a new column that is NULL is read all the same. -/
def formNewColumns : List (TargetEntry × QualNode) → V →
    Option (Option (List FetchedColumn) × V)
  | [], cell => some (some [], cell)
  | (targetEntry, setValue) :: targetList, cell => do
    if getCellValueByIndex rtable targetEntry.rindex = none then return (none, cell)
    else
      match ← processSetValueExpr ops decode rtable scanRowData setValue cell with
      | (none, cell) => return (none, cell)
      | (some newColExprValue, cell) =>
        match targetPosition rtable scanRowData targetEntry with
        | none => return (none, cell)
        | some oldColData =>
          let newRowColData ← ops.transFormExpr2RowColumnData newColExprValue
              targetEntry.attrIndex
          let newRowColData ← newRowColData
          let (columns, cell) ← formNewColumns targetList cell
          return (columns.map (⟨oldColData.headItem, newRowColData⟩ :: ·), cell)

/-- `FormNewRowsPos`: the items of the targets, with the new columns. A target without a right
side is not counted. -/
def formNewRowsPos (targetList : List TargetEntry) (setValues : List QualNode) (cell : V) :
    Option (Option (List FetchedColumn) × V) :=
  if targetList = [] then some (none, cell)
  else (formNewColumns ops decode rtable scanRowData (targetList.zip setValues) cell).map
    fun (columns, cell) =>
    (columns.filter fun columns => columns.length = targetList.length, cell)

end

/-! ## Rows -/

/-- The loop of `pax_ExecDelete` over the columns of a row. -/
def deleteColumns (curr : Nat) : List FetchedColumn → TableFile → Bool × TableFile
  | [], f => (true, f)
  | col :: cols, f =>
      match paxExecDelete curr col f with
      | (false, f) => (false, f)
      | (true, f) => deleteColumns curr cols f

/-- `pax_ExecDelete` on a row; no column is an error. -/
def paxExecDeleteRow (curr : Nat) (cols : List FetchedColumn)
    (f : TableFile) : Bool × TableFile :=
  if cols = [] then (false, f) else deleteColumns curr cols f

/-- The rounds of `pax_ExecUpdate`: the new columns, and the old ones as the projection has
them. -/
def updateRounds (oldRowData : TableRowData)
    (columns : List FetchedColumn) : Option (List ColumnUpdate) :=
  (columns.zip oldRowData.columnData).mapM fun (column, old) =>
    old.map fun old => ⟨old, oldRowData.size, column.headItem, column.old⟩

/-! ## The statement -/

/-- The plan of an UPDATE or a DELETE. -/
structure ModifyPlan where
  commandType : CmdType
  scan : TableScan
  qual : Option (List QualNode)
  targetList : List TargetEntry
  setValues : List QualNode
  rtable : List RangTblEntry

/-- What `ExecTableModifyTbl` leaves from row to row: the file, the cell of the node beside
it, and `opRet`. -/
structure ModifyTblState (V : Type) where
  file : TableFile
  cell : V
  opRet : Int

/-- The scan with another file. -/
def TableScan.onFile (scan : TableScan) (file : TableFile) : TableScan :=
  { scan with node := { scan.node with file := file } }

/-- The nodes below as those of a SELECT. -/
def ModifyPlan.leftplan (plan : ModifyPlan) (file : TableFile) : SelectPlan where
  subplan := .seqScan (plan.scan.onFile file).node
  tables := [plan.scan.onFile file]
  scanNodes_eq := rfl
  qual := plan.qual
  targetList := plan.targetList
  rtable := plan.rtable

section

variable {V : Type} (plan : ModifyPlan) (ops : SetOps V) (decode : RowColumnData → V)

/-- `ExecTableProject` as the node that modifies uses it: the row of the scan with the
projected one. -/
def ModifyPlan.leftProc (curr : Nat) (snapshot : SnapShotInfo) (file : TableFile) :
    Nat → (Option ScanPageInfo × V) × TableRowData →
      Option (Option (ScanTableRowData × TableRowData) ×
        ((Option ScanPageInfo × V) × TableRowData)) :=
  Cursor.through
    (execSelect ops.toExprOps decode plan.rtable
      (scanNodeProc curr snapshot (plan.leftplan file).tables (plan.leftplan file).subplan)
        plan.qual)
    fun rowData pjData =>
      let (row, pjData) := projectRow plan.targetList plan.rtable rowData pjData
      ((rowData, row), pjData)

/-- `ExecModifyTable` of what was formed. -/
def ModifyTblState.write (st : ModifyTblState V)
    (written : Bool × TableFile) : Bool × ModifyTblState V :=
  (written.1, { st with file := written.2, opRet := if written.1 then 0 else -1 })

/-- One round of `ExecTableModifyTbl`. Where nothing is formed, `opRet` is that of the round
before. -/
def ModifyPlan.modifyRow (curr : Nat) (row : ScanTableRowData × TableRowData)
    (st : ModifyTblState V) :
    Option (Bool × ModifyTblState V) :=
  match plan.commandType with
  | .delete =>
    match formOriginRowsPos plan.rtable row.1 plan.targetList with
    | none => some (decide (0 ≤ st.opRet), st)
    | some cols => some (st.write (paxExecDeleteRow curr cols st.file))
  | .update => do
    match ← formNewRowsPos ops decode plan.rtable row.1 plan.targetList
      plan.setValues st.cell with
    | (none, cell) => return (decide (0 ≤ st.opRet), { st with cell := cell })
    | (some columns, cell) =>
      let us ← updateRounds row.2 columns
      return { st with cell := cell }.write (paxExecUpdateRow curr us st.file)
  | _ => none

/-- `ExecTableModifyTbl`: the number of rows takes the place of the return code. -/
def ModifyPlan.exec (curr : Nat) (snapshot : SnapShotInfo) (file : TableFile)
    (fuel : Nat) : Option (Int × TableFile) := do
  let planState := initExecNode (plan.leftplan file).subplan
  let ((ended, sucRows), st) ← Cursor.feed
      (fun st => plan.leftProc ops decode curr snapshot st.file)
    (plan.modifyRow ops decode curr) fuel ((planState, ops.zero), initProjectData)
      ⟨file, ops.zero, -1⟩ 0
  return (if 0 < sucRows then sucRows else if ended then 0 else st.opRet, st.file)

end

/-- `subPlanUpdateStmt` and `subPlanDeleteStmt`, for a query of one table. -/
def modifyPlan (storage : Nat → TableFile × GroupFork)
    (query : Query) : Option ModifyPlan := do
  let plan ← selectPlan storage query
  match plan.tables with
  | [scan] =>
    return ⟨query.commandType, scan, plan.qual, plan.targetList, query.setValues, plan.rtable⟩
  | _ => none

end Toadb
