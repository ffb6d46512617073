/-
Toadb.Executor.ColumnFetch — the columns of a row (`GetColRowDataEx` of `scan.c`,
`FetchTargetColumns` of `execProject.c`).

A scan reads the columns of the target list of its range table entry: those of the WHERE
clause if it names one of the table, else those of the select list, else all
(`assignTargets`). A column that is read for the result or for the WHERE clause is one of
these, and then it is in the row data; or it is fetched from its page, at the offset where the
scan stands. The scan looks at the stamps of what it reads, the fetch does not.

A row of a join is where the scans of its tables stand, `ScanTableRowData`. Without one of its
columns a result row is not formed, and the row that goes out is what the buffer had of an
earlier one: no result here.
-/
import Toadb.Executor.NestLoop
import Toadb.Plan.Query

namespace Toadb

/-! ## Where a scan stands -/

/-- `TableRowDataPosition`, with the scan it belongs to. -/
structure TableRowPosition where
  rindex : Nat
  node : SeqScan
  scanPostionInfo : ScanPageInfo
  rowData : List RowColumnData

/-- What the calls of a scan come to, one after the other and from the start again. -/
inductive ScanState (node : SeqScan) (curr : Nat)
    (snapshot : SnapShotInfo) : ScanPageInfo → Prop
  | start {info : ScanPageInfo} :
      initScanPositionInfo node.colNum node.colindexList = some info →
      ScanState node curr snapshot info
  | next {info info' : ScanPageInfo} {fuel : Nat} {found : Option (List RowColumnData)} :
      ScanState node curr snapshot info →
      seqscanNext node.file node.groups curr snapshot fuel info = some (found, info') →
      ScanState node curr snapshot info'
  | reScan {info : ScanPageInfo} : ScanState node curr snapshot info →
      ScanState node curr snapshot (execReSeqScan info)

/-- The scan has just handed out the row. -/
def TableRowPosition.HandedOut (curr : Nat) (snapshot : SnapShotInfo)
    (pos : TableRowPosition) : Prop :=
  ∃ info fuel, ScanState pos.node curr snapshot info ∧
    seqscanNext pos.node.file pos.node.groups curr snapshot fuel info
      = some (some pos.rowData, pos.scanPostionInfo)

/-! ## Columns -/

/-- `GetPageNoFromGroupInfo`. -/
def getPageNoFromGroupInfo (groups : GroupFork) (groupInfo : GroupSearch) (attrIndex : Nat) :
    Option Nat :=
  if groupInfo.page then do
    let items ← groups[groupInfo.pageNum - firstGroupPage]?
    let item ← items[groupInfo.item]?
    if item.valid then item.member[attrIndex]? else none
  else none

/-- `GetColRowDataEx`. The fetch takes the offset of the first column that the scan reads. -/
def getColRowDataEx (pos : TableRowPosition) (attrIndex : Nat) : Option RowColumnData :=
  match pos.scanPostionInfo.colindexList.idxOf? attrIndex with
  | some index => pos.rowData[index]?
  | none => do
    let pageOffset ← pos.scanPostionInfo.searchPageList.head?
    let pageno ← getPageNoFromGroupInfo pos.node.groups
        pos.scanPostionInfo.groupPageInfo attrIndex
    rowByIndex pos.node.file pageno pageOffset

/-- `GetTblRowDataPosition`. -/
def getTblRowDataPosition (scanTblRow : List TableRowPosition) (rindex : Nat) :
    Option TableRowPosition :=
  scanTblRow.find? (·.rindex = rindex)

/-- A column of the row: of the table that the range table has at the number. -/
def readColumn (rtable : List RangTblEntry) (scanTblRow : List TableRowPosition)
    (column : Nat × Nat) : Option RowColumnData := do
  let rte ← getCellValueByIndex rtable column.1
  let pos ← getTblRowDataPosition scanTblRow rte.rindex
  getColRowDataEx pos column.2

/-- The table and the column of a target. -/
def TargetEntry.column (target : TargetEntry) : Nat × Nat := (target.rindex, target.attrIndex)

/-- `FetchTargetColumns`. -/
def fetchTargetColumns (rtable : List RangTblEntry) (scanTblRow : List TableRowPosition)
    (targetList : List TargetEntry) : Option (List RowColumnData) :=
  targetList.mapM fun target => readColumn rtable scanTblRow target.column

/-- The column that an operand is, if it has a number: `GetExprDataColumnValue`. -/
def QualNode.operandColumn (node : QualNode) (rindex : Nat) : List (Nat × Nat) :=
  match node with
  | .columnRef colRef => if rindex = 0 then [] else [(rindex, colRef.attrIndex)]
  | _ => []

/-- The columns that `ProcessQualExprNode` reads. -/
def QualNode.columns : QualNode → List (Nat × Nat)
  | .null | .columnRef _ | .constValue _ | .functionClause _ => []
  | .exprEntry _ _ rindex rrindex _ lefttree righttree =>
    lefttree.operandColumn rindex ++ lefttree.columns ++
      (righttree.operandColumn rrindex ++ righttree.columns)
  | .mergerEntry _ _ lefttree righttree => lefttree.columns ++ righttree.columns

/-- The columns that the result and the WHERE clause read. -/
def Query.columns (query : Query) : List (Nat × Nat) :=
  query.targetList.map TargetEntry.column ++ query.joinTree.flatMap QualNode.columns

/-- The columns that `InitScanPositionInfo` takes for an entry; nothing where the table has
not all of them. -/
def RangTblEntry.colindexList (rte : RangTblEntry) : Option (List Nat) := do
  let tblInfo ← rte.tblInfo
  (getTblTargetList rte.targetList rte.rindex).mapM fun target =>
    getAttrIndex tblInfo target.colRef.field

end Toadb
