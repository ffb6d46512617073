/-
Toadb.Executor.ValueScan — INSERT … VALUES (`valueScan.c`, `tuples.c`, `execModifyTable.c`).

  * `valuesFormRowData` makes a row of one VALUES list: for each column of the table it looks
    for the name in the target list, and for the value at that position;
  * `transformValues` makes all rows before the first one is stored. It stops at the first
    list that does not make a row;
  * `execTableModifyTbl` stores the rows one by one, until one is not stored.

`none` is a value that is read through a pointer it does not have, and `some none` is NULL.
What the storage answers is `opRet`: row `k` is stored when `opRet k` is not negative. A
statement has fewer rows than an `int` can count.
-/
import Toadb.Plan.Query

namespace Toadb

/-! ## Values by name -/

/-- `GetColumnRefIndexByName`, which counts from 1. -/
def getColumnRefIndexByName (attrName : CString) (list : List TargetEntry) : Option Nat :=
  (list.findIdx? (·.colRef.field = attrName)).map (· + 1)

/-- `GetDataByIndex`. -/
def getDataByIndex (index : Nat) (list : List Literal) : Option Literal :=
  getCellValueByIndex list index

section Form

variable (address : CString → BitVec 64)

/-- The loop of `ValuesFormRowData` over the columns from `index` on. -/
def formColumns (targetList : List TargetEntry) (valueList : List Literal) :
    List ColumnDefInfo → Nat → Option (Option (List RowColumnData))
  | [], _ => some (some [])
  | colDef :: column, index =>
    match getColumnRefIndexByName colDef.colName targetList with
    | none => do
      let rest ← formColumns targetList valueList column (index + 1)
      return rest.map (.new index [] :: ·)
    | some attrIndex =>
      match getDataByIndex attrIndex valueList with
      | none => some none
      | some attrValue => do
        let columnData ← transformConstValueRowData address
            attrValue.constValue colDef.type index
        let rest ← formColumns targetList valueList column (index + 1)
        return rest.map (columnData :: ·)

/-- `ValuesFormRowData`. -/
def valuesFormRowData (tblMeta : TableList) (targetList : List TargetEntry)
    (valueList : List Literal) : Option (Option (List RowColumnData)) :=
  formColumns address targetList valueList tblMeta.column 0

/-- `TransformValues`. -/
def transformValues (tblInfo : TableList) (targetList : List TargetEntry) :
    List (List Literal) → Option (List (List RowColumnData))
  | [] => some []
  | values :: valueList => do
    match ← valuesFormRowData address tblInfo targetList values with
    | none => return []
    | some rowData =>
      let rows ← transformValues tblInfo targetList valueList
      return rowData :: rows

end Form

/-! ## Storing the rows -/

/-- What an INSERT reports, and the rows that it stored. -/
structure InsertResult where
  retCode : Int
  rows : List (List RowColumnData)
  deriving DecidableEq

/-- The loop of `ExecTableModifyTbl`, with `sucRows` rows stored so far. -/
def insertLoop (opRet : Nat → Int) : List (List RowColumnData) → Nat → InsertResult
  | [], _ => ⟨0, []⟩
  | rowData :: rows, sucRows =>
    if opRet sucRows < 0 then ⟨opRet sucRows, []⟩
    else
      let rest := insertLoop opRet rows (sucRows + 1)
      ⟨rest.retCode, rowData :: rest.rows⟩

/-- `ExecTableModifyTbl`: the number of stored rows takes the place of the return code. -/
def execTableModifyTbl (opRet : Nat → Int)
    (rows : List (List RowColumnData)) : InsertResult :=
  let result := insertLoop opRet rows 0
  { result with
    retCode := if 0 < result.rows.length then result.rows.length else result.retCode }

/-! ## The statement -/

/-- `GetValuesTypeRangTbl`. -/
def getValuesTypeRangTbl (rangTblList : List RangTblEntry) : Option RangTblEntry :=
  rangTblList.find? (·.relkind = .values)

/-- The plan of `subPlanInsertStmt`: the VALUES are scanned with the metadata of the target
table, and stored in it. -/
def execInsert (address : CString → BitVec 64) (opRet : Nat → Int) (query : Query) :
    Option InsertResult := do
  let modifyTbl ← query.rtable.head?
  let valueScan ← getValuesTypeRangTbl query.rtable
  let tblInfo ← modifyTbl.tblInfo
  let rows ← transformValues address tblInfo valueScan.targetList valueScan.valueList
  return execTableModifyTbl opRet rows

/-- An INSERT from the parse tree to what it reports. -/
def runInsert (getTableInfo : CString → Option TableList) (address : CString → BitVec 64)
    (opRet : Nat → Int) (insertStmt : InsertStmt) : Option InsertResult := do
  let query ← transformInsertStmt getTableInfo insertStmt
  execInsert address opRet query

end Toadb
