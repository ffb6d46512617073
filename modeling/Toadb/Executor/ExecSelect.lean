/-
Toadb.Executor.ExecSelect — the result of a SELECT (`execSelect.c`, `execProject.c`).

On top of the scans and nested loops stand the node that selects, the one that
projects, and the one that sends. A row goes up as `ScanTableRowData`: where each
scan stands, with the columns it read. The scans write into memory of their own,
so that the row of a left table stands where its scan is, however many rows of
the right one are merged with it.

The cell of the WHERE clause and the row of the projection stay in the nodes from
row to row.

`selectPlan` is the plan of a query (`plan.c`), with its scans opened.
-/
import Toadb.Executor.ExecExpre
import Toadb.Executor.ExecProject
import Toadb.Lib.Pipeline
import Toadb.Plan.Query

namespace Toadb

/-! ## Rows of a plan -/

/-- A scan of a plan, with its table and the number of its entry in the range table. -/
structure TableScan where
  node : SeqScan
  tblInfo : TableList
  rindex : Nat

/-- The scans of a plan, from left to right. -/
def Plan.scanNodes : Plan → List SeqScan
  | .seqScan node => [node]
  | .nestLoop leftplan rightplan => leftplan.scanNodes ++ rightplan.scanNodes

/-- The states of the scans of a plan. -/
def Plan.scanStates : (plan : Plan) → plan.State → List (Option ScanPageInfo)
  | .seqScan _, scanPostionInfo => [scanPostionInfo]
  | .nestLoop leftplan rightplan, planState =>
      leftplan.scanStates planState.left ++ rightplan.scanStates planState.right

/-- What `SeqScanNextColumnOpt` says of the row of a table. -/
def TableScan.position (scan : TableScan) (scanPostionInfo : ScanPageInfo)
    (rowData : List RowColumnData) :
    TableRowDataPosition where
  rindex := scan.rindex
  node := scan.node
  scanPostionInfo := scanPostionInfo
  rowData := rowData
  tblInfo := scan.tblInfo

/-- `ScanTableRowData`: table by table, in the order of the scans. A scan without a position
has no row. -/
def scanTableRow : List TableScan → List (Option ScanPageInfo) → JoinRow → ScanTableRowData
  | scan :: scans, some scanPostionInfo :: infos, rowData :: joinRow =>
      scan.position scanPostionInfo rowData :: scanTableRow scans infos joinRow
  | _, _, _ => []

/-- `ExecNodeProc` of the scans and nested loops, with the rows as they go up. -/
def scanNodeProc (curr : Nat) (snapshot : SnapShotInfo)
    (scans : List TableScan) (plan : Plan) :
    Nat → plan.State → Option (Option ScanTableRowData × plan.State) :=
  Cursor.attach (execNodeProc curr snapshot plan) fun planState joinRow =>
    scanTableRow scans (plan.scanStates planState) joinRow

/-! ## The nodes above -/

section

variable {σ V : Type}

section Select

variable (ops : ExprOps V) (decode : RowColumnData → V) (rtable : List RangTblEntry)

/-- The values that the WHERE clause reads from a row. -/
def rowValues (scanTblRow : ScanTableRowData) (rindex attrIndex : Nat) : V :=
  match readColumn rtable (scanTblRow.map (·.toTableRowPosition)) (rindex, attrIndex) with
  | some column => decode column
  | none => ops.zero

/-- The loop of `ExecSelect` over the conditions: is one of them true, and the cell
afterwards. -/
def execSelectQuals (row : Nat → Nat → V) : List QualNode → V → Bool × V
  | [], cell => (false, cell)
  | qualNode :: qual, cell =>
    let (resultExpr, cell) := processQualExprNode ops rtable row qualNode 0 cell
    if ops.isTrue resultExpr then (true, cell) else execSelectQuals row qual cell

/-- Is the row returned? Without a condition it is. -/
def selectsRow (qual : Option (List QualNode)) (rowData : ScanTableRowData)
    (cell : V) : Bool × V :=
  match qual with
  | none => (true, cell)
  | some qual => execSelectQuals ops rtable (rowValues ops decode rtable rowData) qual cell

/-- `ExecSelect`: the next row of the node below that is selected. -/
def execSelect (next : Nat → σ → Option (Option ScanTableRowData × σ))
    (qual : Option (List QualNode)) :
    Nat → σ × V → Option (Option ScanTableRowData × (σ × V)) :=
  Cursor.filter next (selectsRow ops decode rtable qual)

end Select

/-- The row that `FetchTargetColumns` hands out, which is the one that stays in the node. -/
def projectRow (targetList : List TargetEntry) (rangTbl : List RangTblEntry)
    (rowData : ScanTableRowData) (pjData : TableRowData) : TableRowData × TableRowData :=
  let pjData := (pjData.fetchTargetColumns (some targetList) (some rangTbl) (some rowData)).2
  (pjData, pjData)

/-- `ExecTableProject`. -/
def execTableProjectNode (next : Nat → σ → Option (Option ScanTableRowData × σ))
    (targetList : List TargetEntry) (rangTbl : List RangTblEntry) :
    Nat → σ × TableRowData → Option (Option TableRowData × (σ × TableRowData)) :=
  Cursor.through next (projectRow targetList rangTbl)

/-- `SendToPort` as the loop of `ExecTableQuery` reads its result. -/
def sendRow {Portal : Type} (sendToPort : TableRowData → Portal → Option (Int × Portal))
    (rowData : TableRowData) (portal : Portal) : Option (Bool × Portal) :=
  (sendToPort rowData portal).map fun (ret, portal) => (!decide (ret < 0), portal)

/-- `ExecTableQuery`: the number of rows for `retCode`, which is not set when the client is
gone. -/
def execTableQuery {Portal : Type}
    (sendToPort : TableRowData → Portal → Option (Int × Portal))
    (next : Nat → σ → Option (Option TableRowData × σ)) (fuel : Nat)
    (planState : σ) (portal : Portal) :
    Option (Option Nat × Portal) :=
  Cursor.drain next (sendRow sendToPort) fuel planState portal 0

end

/-! ## SELECT -/

/-- The plan of a SELECT: the scans and nested loops, the conditions, and the targets of the
projection. -/
structure SelectPlan where
  subplan : Plan
  tables : List TableScan
  scanNodes_eq : subplan.scanNodes = tables.map TableScan.node
  qual : Option (List QualNode)
  targetList : List TargetEntry
  rtable : List RangTblEntry

/-- `ExecutorPlan` of a SELECT, from the states that `InitExecNode` gives. -/
def SelectPlan.exec {V Portal : Type} (plan : SelectPlan) (ops : ExprOps V)
    (decode : RowColumnData → V)
    (sendToPort : TableRowData → Portal → Option (Int × Portal)) (curr : Nat)
    (snapshot : SnapShotInfo) (portal : Portal)
    (fuel : Nat) : Option (Option Nat × Portal) :=
  execTableQuery sendToPort
    (execTableProjectNode
      (execSelect ops decode plan.rtable
        (scanNodeProc curr snapshot plan.tables plan.subplan) plan.qual)
      plan.targetList plan.rtable)
    fuel ((initExecNode plan.subplan, ops.zero), initProjectData) portal

/-! ## Plans of queries -/

section Plans

-- the files of the table that an entry of the range table names
variable (storage : Nat → TableFile × GroupFork)

/-- The scan of an entry: its table, and the columns of its target list. -/
def RangTblEntry.tableScan (rte : RangTblEntry) : Option TableScan := do
  let tblInfo ← rte.tblInfo
  let colindexList ← rte.colindexList
  return ⟨⟨(storage rte.rindex).1, (storage rte.rindex).2, tblInfo.column.length,
    colindexList⟩, tblInfo, rte.rindex⟩

variable (rtable : List RangTblEntry)

/-- The scans of a plan node, opened; nothing where one has no table. -/
def PlanNode.openScans : PlanNode →
    Option { opened : Plan × List TableScan // opened.1.scanNodes =
               opened.2.map TableScan.node }
  | .seqScan _ rangTbl => do
    let scan ← (rangTbl.bind fun pos => rtable[pos]?).bind (RangTblEntry.tableScan storage)
    return ⟨(.seqScan scan.node, [scan]), rfl⟩
  | .nestLoop _ _ _ _ leftplan rightplan => do
    let ⟨left, hleft⟩ ← leftplan.openScans
    let ⟨right, hright⟩ ← rightplan.openScans
    return ⟨(.nestLoop left.1 right.1, left.2 ++ right.2), by
      rw [Plan.scanNodes, hleft, hright, List.map_append]⟩

end Plans

/-- `subPlanSelectStmt`. There is a node that selects if the query has conditions. -/
def selectPlan (storage : Nat → TableFile × GroupFork)
    (query : Query) : Option SelectPlan := do
  let (subplan, rtable) := processTableScan query
  let ⟨(subplan, tables), hscans⟩ ← subplan.bind (PlanNode.openScans storage rtable)
  return ⟨subplan, tables, hscans, if query.joinTree = [] then none else some query.joinTree,
    query.targetList, rtable⟩

end Toadb
