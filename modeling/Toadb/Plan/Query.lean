/-
Toadb.Plan.Query — from a parsed statement to its query tree (`query.c`).

A query tree has a range table, `rtable`: one entry for each table that the statement names.
Whatever refers to a table afterwards carries the `rindex` of its entry, and
`getCellValueByIndex` looks it up by position. The four statements build and number their
range tables each in their own way:

  * `transformSelectStmt` numbers the FROM list;
  * `transformInsertStmt` numbers its table, and then the VALUES;
  * `transformUpdateStmt` and `transformDeleteStmt` number the FROM list, then the table to
    change, which they put in front.

A list of the source is a list of cells that other lists share. Here it is the list of its
first `length` cells, and the empty one stands for NULL too. `none` is a statement without a
query tree: one that is refused, or one that reads through NULL on the way. `getTableInfo`
stands for the dictionary of tables.
-/
import Toadb.Storage.Tuples

namespace Toadb

/-! ## Tables and names -/

/-- `ColumnDefInfo`. -/
structure ColumnDefInfo where
  colName : CString
  type : ValueType
  attrIndex : Nat
  deriving DecidableEq

/-- `TableList`: what the dictionary knows of a table, with the columns of its `tableDef`. -/
structure TableList where
  column : List ColumnDefInfo
  deriving DecidableEq

/-- `GetAttrDef`. -/
def getAttrDef (tblInfo : TableList) (attrName : CString) : Option ColumnDefInfo :=
  tblInfo.column.find? (·.colName = attrName)

/-- `GetAttrIndex`. -/
def getAttrIndex (tblInfo : TableList) (attrName : CString) : Option Nat :=
  tblInfo.column.findIdx? (·.colName = attrName)

/-- `NAME_MAX_LEN`. -/
def nameMaxLen : Nat := 64

/-- `hat_strcmp(str1, str2, NAME_MAX_LEN) == 0`. -/
def sameName (str1 str2 : CString) : Bool :=
  str1.val.take nameMaxLen == str2.val.take nameMaxLen

/-- `GetCellValueByIndex`, which counts from 1. -/
def getCellValueByIndex {α : Type} (list : List α) (index : Nat) : Option α :=
  if index = 0 then none else list[index - 1]?

/-! ## Parse tree -/

/-- `RangeVar`, with the name of its alias. -/
structure RangeVar where
  relname : CString
  aliasname : Option CString
  deriving DecidableEq

/-- The name of an aliased table is replaced by the alias once the table is found. -/
def RangeVar.renamed (rangVar : RangeVar) : RangeVar :=
  { rangVar with relname := rangVar.aliasname.getD rangVar.relname }

/-- `ColumnRef`. -/
structure ColumnRef where
  field : CString
  tableName : Option CString
  vt : ValueType
  attrIndex : Nat
  deriving DecidableEq

/-- `A_A_Expr_Op_Type`. -/
inductive ExprOpType where
  | less | lessEqual | equal | greaterEqual | greater | notEqual | positive | negative | plus
  | minus
  | multiple | division | mod
  deriving DecidableEq, Repr

/-- `BoolExprType` of an expression with two arguments. -/
inductive BoolExprType where
  | and | or
  deriving DecidableEq, Repr

/-- An expression as the parser leaves it. An expression in parentheses is NULL. -/
inductive ExprNode where
  | null
  | columnRef (columnRef : ColumnRef)
  | constValue (constValue : ConstValue)
  | functionClause (functionName : CString)
  | aExpr (exprOpType : ExprOpType) (lexpr rexpr : ExprNode)
  | boolExpr (boolop : BoolExprType) (first second : ExprNode)
  | notExpr (arg : ExprNode)

def ExprNode.isNull : ExprNode → Bool
  | .null => true
  | _ => false

/-- `ResTarget`. -/
structure ResTarget where
  name : Option CString
  val : ExprNode
  setValue : ExprNode
  all : Bool

structure SelectStmt where
  targetlist : List ResTarget
  fromList : List RangeVar
  whereList : List ExprNode

/-- `attrNameList` is empty where the statement has no list of columns; there is a row of
VALUES. -/
structure InsertStmt where
  tableName : CString
  attrNameList : List CString
  valuesList : List (List Literal)
  valuesList_ne_nil : valuesList ≠ []

structure UpdateStmt where
  relation : RangeVar
  targetlist : List ResTarget
  fromList : List RangeVar
  whereList : List ExprNode

structure DeleteStmt where
  relation : RangeVar
  fromList : List RangeVar
  whereList : List ExprNode

/-! ## Query tree -/

/-- `TargetEntry`, with the name and the column of its `ResTarget`. -/
structure TargetEntry where
  name : Option CString
  colRef : ColumnRef
  rindex : Nat
  attrIndex : Nat
  deriving DecidableEq

/-- `RelationKind`. -/
inductive RelationKind where
  | common | values
  deriving DecidableEq, Repr

/-- `RangTblEntry`. -/
structure RangTblEntry where
  relkind : RelationKind
  rindex : Nat
  rangVar : Option RangeVar
  targetList : List TargetEntry
  tblInfo : Option TableList
  valueList : List (List Literal)
  isScaned : Bool
  isNeeded : Bool
  deriving DecidableEq

/-- A condition as the query tree has it: `ExprEntry` and `MergerEntry` over columns,
constants and functions. -/
inductive QualNode where
  | null
  | columnRef (columnRef : ColumnRef)
  | constValue (constValue : ConstValue)
  | functionClause (functionName : CString)
  | exprEntry (op : ExprOpType) (rtNum rindex rrindex : Nat) (targetList : List TargetEntry)
      (lefttree righttree : QualNode)
  | mergerEntry (mergeType : BoolExprType) (targetList : List TargetEntry)
      (lefttree righttree : QualNode)

/-- The tree of table scans: an `ExprEntry` without operands is a scan, and a `JoinEntry` has
both sides. -/
inductive JoinTree where
  | scan (rindex rtNum : Nat) (targetList : List TargetEntry)
  | join (joinOp : BoolExprType) (isJoin : Bool) (rtNum : Nat) (targetList : List TargetEntry)
      (lefttree righttree : JoinTree)

/-- `GetNodeTargetList`. -/
def JoinTree.targetList : JoinTree → List TargetEntry
  | .scan _ _ targetList => targetList
  | .join _ _ _ targetList _ _ => targetList

/-- `GetNodeRtNum`. -/
def JoinTree.rtNum : JoinTree → Nat
  | .scan _ rtNum _ => rtNum
  | .join _ _ rtNum _ _ _ => rtNum

/-- `CmdType`. -/
inductive CmdType where
  | select | insert | update | delete
  deriving DecidableEq, Repr

/-- `Query`. The right sides of a SET list hang on its target entries in the source; here they
are a list, `setValues`. -/
structure Query where
  commandType : CmdType
  targetList : List TargetEntry
  setValues : List QualNode
  rtable : List RangTblEntry
  joinTree : List QualNode
  qualTargetList : List TargetEntry
  rtjoinTree : Option JoinTree

/-- `QueryState`. -/
structure QueryState where
  querylevel : Nat
  rindex : Nat
  rtable : List RangTblEntry
  parentTargetList : List TargetEntry
  qualTargetList : List TargetEntry
  processState : Int

/-- `FIRST_RANGTABLE_INDEX`. -/
def firstRangtableIndex : Nat := 1

/-- The state in which a statement's targets are processed. -/
def QueryState.start (rtable : List RangTblEntry) (rindex : Nat) : QueryState :=
  ⟨1, rindex, rtable, [], [], 0⟩

/-! ## Range table -/

section RangeTable

variable (getTableInfo : CString → Option TableList)

/-- `GetRangTblNode`. -/
def getRangTblNode (tableName : CString) : Option RangTblEntry := do
  let tblInfo ← getTableInfo tableName
  return ⟨.common, 0, none, [], some tblInfo, [], false, false⟩

/-- The entry for a table of the statement, with its alias and its number. -/
def rangTblOf (rangVar : RangeVar) (rindex : Nat) : Option RangTblEntry := do
  let rangEntry ← getRangTblNode getTableInfo rangVar.relname
  return { rangEntry with rangVar := some rangVar.renamed, rindex := rindex }

/-- The loop of `RangTblRewriteFromClause`. -/
def rangTblEntries : List RangeVar → Nat → Option (List RangTblEntry)
  | [], _ => some []
  | rangVar :: fromList, rindex => do
    let rangEntry ← rangTblOf getTableInfo rangVar rindex
    let rangTblList ← rangTblEntries fromList (rindex + 1)
    return rangEntry :: rangTblList

/-- `RangTblRewriteFromClause`: the entries and the next number. A table that is not found
gives NULL, and no number is used up. -/
def rangTblRewriteFromClause (fromList : List RangeVar)
    (rindex : Nat) : List RangTblEntry × Nat :=
  match rangTblEntries getTableInfo fromList rindex with
  | some rangTblList => (rangTblList, rindex + rangTblList.length)
  | none => ([], rindex)

end RangeTable

/-! ## Columns -/

/-- A column that names a table is looked for in the entries of that name only. -/
def mayOwn (columnRef : ColumnRef) (rte : RangTblEntry) : Bool :=
  match columnRef.tableName with
  | none => true
  | some tableName => rte.rangVar.any fun rangVar => sameName rangVar.relname tableName

/-- The definition that an entry's table has for a column. -/
def columnOf (columnRef : ColumnRef) (rte : RangTblEntry) : Option ColumnDefInfo :=
  if mayOwn columnRef rte then rte.tblInfo.bind (getAttrDef · columnRef.field) else none

/-- The entries that have the column, with their positions. -/
def columnOwners (columnRef : ColumnRef) :
    List RangTblEntry → Nat → List (Nat × RangTblEntry × ColumnDefInfo)
  | [], _ => []
  | rte :: rangTbl, pos =>
    match columnOf columnRef rte with
    | some col => (pos, rte, col) :: columnOwners columnRef rangTbl (pos + 1)
    | none => columnOwners columnRef rangTbl (pos + 1)

/-- `SearchColumDef`. A column of two tables is ambiguous. -/
def searchColumDef (columnRef : ColumnRef) (rangTbl : List RangTblEntry) :
    Option (Nat × RangTblEntry × ColumnDefInfo) :=
  match columnOwners columnRef rangTbl 0 with
  | [found] => some found
  | _ => none

/-! ## Target entries -/

/-- `QueryRangTblTarget`. -/
def queryRangTblTarget (targetList : List TargetEntry) (colName : Option CString) :
    Option TargetEntry := do
  let colName ← colName
  targetList.find? fun te => te.name.any (sameName colName)

/-- The list already has an entry of that name and table. -/
def isRepeated (targetList : List TargetEntry) (target : TargetEntry) : Bool :=
  (queryRangTblTarget targetList target.name).any (·.rindex = target.rindex)

/-- `AddRangTblTargetEntry`. -/
def addRangTblTargetEntry (target : TargetEntry) (rte : RangTblEntry) : RangTblEntry :=
  if (queryRangTblTarget rte.targetList target.name).any (·.rindex = rte.rindex) then rte
  else { rte with targetList := rte.targetList ++ [target] }

/-- `MergetTargetList`. -/
def mergetTargetList (target1 target2 : List TargetEntry) : List TargetEntry :=
  target2.foldl (fun result te => if isRepeated result te then result
    else result ++ [te]) target1

/-- A table is scanned for a condition, or needed for the top targets. -/
def markUsed (querylevel : Nat) (rte : RangTblEntry) : RangTblEntry :=
  if querylevel > 1 then { rte with isScaned := true } else { rte with isNeeded := true }

/-- `TargetNodeProcess` for a column, which is shown as `name`. -/
def targetNodeProcess (columnRef : ColumnRef) (name : Option CString) (st : QueryState) :
    Option TargetEntry × QueryState :=
  match searchColumDef columnRef st.rtable with
  | none => (none, { st with processState := -1 })
  | some (pos, rte, colDef) =>
    let columnRef := { columnRef with vt := colDef.type, attrIndex := colDef.attrIndex }
    let target := ⟨some (name.getD columnRef.field), columnRef, rte.rindex, colDef.attrIndex⟩
    let rte := markUsed st.querylevel (addRangTblTargetEntry target rte)
    (some target, { st with rindex := target.rindex, rtable := st.rtable.set pos rte })

/-- `TargetRewriteAllColumnsOneRte`. -/
def targetRewriteAllColumnsOneRte (targetList : List TargetEntry) (rte : RangTblEntry) :
    List TargetEntry :=
  match rte.tblInfo with
  | none => targetList
  | some tblInfo => targetList ++ tblInfo.column.map fun col =>
      ⟨some col.colName, ⟨col.colName, none, col.type, 0⟩, rte.rindex, col.attrIndex⟩

/-- `TargetRewriteAllColumns`. -/
def targetRewriteAllColumns (targetList : List TargetEntry) (st : QueryState) :
    List TargetEntry × QueryState :=
  (st.rtable.foldl targetRewriteAllColumnsOneRte targetList,
    { st with rtable := st.rtable.map (markUsed st.querylevel) })

/-! ## Conditions -/

/-- `SubExprNodeTargetProcess`: the target of an operand that is a column, and the operand. -/
def subExprNodeTargetProcess (node : QualNode) (st : QueryState) :
    List TargetEntry × QualNode × QueryState :=
  match node with
  | .columnRef columnRef =>
    match targetNodeProcess columnRef none st with
    | (some target, st) => ([target], .columnRef target.colRef, st)
    | (none, st) => ([], node, st)
  | _ => ([], node, st)

/-- `SimpleExprNodeProcess`. -/
def simpleExprNodeProcess (op : ExprOpType)
    (lefttree righttree : QualNode) (st : QueryState) :
    QualNode × QueryState :=
  let oriTargetList := st.qualTargetList
  let (leftList, lefttree, st) := subExprNodeTargetProcess lefttree st
  let lrindex := st.rindex
  let (rightList, righttree, st) := subExprNodeTargetProcess righttree st
  let rrindex := st.rindex
  let targetList := mergetTargetList leftList rightList
  let node : QualNode :=
    match leftList, rightList with
    | [], [] => .exprEntry op 0 0 0 targetList lefttree righttree
    -- the column goes to the left
    | [], _ => .exprEntry op 1 rrindex 0 targetList righttree lefttree
    | _, [] => .exprEntry op 1 lrindex 0 targetList lefttree righttree
    | _, _ =>
      if lrindex = rrindex then .exprEntry op 1 lrindex 0 targetList lefttree righttree
      else .exprEntry op 2 lrindex rrindex targetList lefttree righttree
  (node, { st with qualTargetList := mergetTargetList oriTargetList targetList })

/-- `QualNodeProcess`, with `MergerNodeProcess` and `ExprNodeProcess`. NOT reads its second
argument through NULL. -/
def qualNodeProcess : ExprNode → QueryState → Option (QualNode × QueryState)
  | .null, st => some (.null, st)
  | .columnRef columnRef, st => some (.columnRef columnRef, st)
  | .constValue constValue, st => some (.constValue constValue, st)
  | .functionClause functionName, st => some (.functionClause functionName, st)
  | .boolExpr boolop first second, st => do
    let qualTargetList := st.qualTargetList
    let (lefttree, st) ← qualNodeProcess first { st with qualTargetList := [] }
    let (righttree, st) ← qualNodeProcess second st
    return (.mergerEntry boolop st.qualTargetList lefttree righttree,
      { st with qualTargetList := qualTargetList ++ st.qualTargetList })
  | .notExpr _, _ => none
  | .aExpr exprOpType lexpr rexpr, st =>
    if lexpr.isNull || rexpr.isNull then some (.null, st)
    else do
      let (leftExpr, st) ← qualNodeProcess lexpr st
      let (rightExpr, st) ← qualNodeProcess rexpr st
      return simpleExprNodeProcess exprOpType leftExpr rightExpr st

/-- `QueryJoinTransform`. -/
def queryJoinTransform : List ExprNode → QueryState → Option (List QualNode × QueryState)
  | [], st => some ([], st)
  | valueNode :: qual, st => do
    let (node, st) ← qualNodeProcess valueNode st
    let (joinTree, st) ← queryJoinTransform qual st
    match node with
    | .null => return (joinTree, st)
    | node => return (node :: joinTree, st)

/-- The right side of a SET. -/
def processSetValue (setValue : ExprNode) (setValues : List QualNode) (st : QueryState) :
    Option (List QualNode × QueryState) :=
  if setValue.isNull then some (setValues, st)
  else do
    let (node, st) ← qualNodeProcess setValue st
    return (setValues ++ [node], st)

/-- `ProcessCheckTargetList`: the target entries and the right sides of a SET list. The loop
stops at the first target that gives no entry. -/
def processCheckTargetList : List ResTarget → List TargetEntry → List QualNode → QueryState →
    Option (List TargetEntry × List QualNode × QueryState)
  | [], targetEntryList, setValues, st => some (targetEntryList, setValues, st)
  | resTarget :: targetList, targetEntryList, setValues, st =>
    match resTarget.val with
    | .columnRef columnRef =>
      match targetNodeProcess columnRef resTarget.name st with
      | (none, st) => some (targetEntryList, setValues, st)
      | (some target, st) => do
        let (setValues, st) ← processSetValue resTarget.setValue setValues st
        processCheckTargetList targetList (targetEntryList ++ [target]) setValues st
    | .null =>
      if resTarget.all then do
        let (targetEntryList, st) := targetRewriteAllColumns targetEntryList st
        let (setValues, st) ← processSetValue resTarget.setValue setValues st
        processCheckTargetList targetList targetEntryList setValues st
      else some ([], setValues, st)
    | _ => some (targetEntryList, setValues, st)

/-! ## Scans -/

/-- `GetTblTargetList`. -/
def getTblTargetList (targetList : List TargetEntry) (rindex : Nat) : List TargetEntry :=
  targetList.filter (·.rindex = rindex)

/-- `AddJoinTblNode`. A join always has both sides, so that the new table goes on top. -/
def addJoinTblNode (left : Option JoinTree) (rangTbl : RangTblEntry) : JoinTree :=
  let node := JoinTree.scan rangTbl.rindex 1 rangTbl.targetList
  match left with
  | none => node
  | some left =>
    .join .and true (left.rtNum + node.rtNum)
      (mergetTargetList left.targetList node.targetList) left node

/-- The targets of one table: those of the conditions, else those of the top, else all its
columns. -/
def assignTargets (st : QueryState) (rangTbl : RangTblEntry) : RangTblEntry :=
  { rangTbl with targetList :=
      if rangTbl.isScaned then getTblTargetList st.qualTargetList rangTbl.rindex
      else if rangTbl.isNeeded then getTblTargetList st.parentTargetList rangTbl.rindex
      else targetRewriteAllColumnsOneRte rangTbl.targetList rangTbl }

/-- `CommonQueryTransform`. -/
def commonQueryTransform (st : QueryState) : Option JoinTree × QueryState :=
  if st.parentTargetList = [] then (none, st)
  else
    let rtable := st.rtable.map (assignTargets st)
    (rtable.foldl (fun joinTree rangTbl => some (addJoinTblNode joinTree rangTbl)) none,
      { st with rtable := rtable })

/-! ## Statements -/

/-- What SELECT, UPDATE and DELETE do once they have their targets. -/
def transformQual (commandType : CmdType) (whereList : List ExprNode)
    (setValues : List QualNode) (st : QueryState) : Option Query := do
  let (joinTree, st) ← queryJoinTransform whereList
      { st with querylevel := 2, qualTargetList := [] }
  let (rtjoinTree, st) := commonQueryTransform st
  guard (st.processState = 0)
  return ⟨commandType, st.parentTargetList, setValues, st.rtable, joinTree, st.qualTargetList,
    rtjoinTree⟩

section Statements

variable (getTableInfo : CString → Option TableList)

/-- `transformSelectStmt`. -/
def transformSelectStmt (selectStmt : SelectStmt) : Option Query := do
  let (rtable, rindex) :=
    rangTblRewriteFromClause getTableInfo selectStmt.fromList firstRangtableIndex
  guard (rtable ≠ [])
  let (targetList, setValues, st) ←
    processCheckTargetList selectStmt.targetlist [] [] (.start rtable rindex)
  transformQual .select selectStmt.whereList setValues
    { st with parentTargetList := targetList }

/-- A target of an INSERT: its entry is always the first one. -/
def attrTarget (attrName : CString) : TargetEntry :=
  ⟨none, ⟨attrName, none, .unknown, 0⟩, 1, 0⟩

/-- `ProcessAttrList`. The loop stops at the first name that the table does not have. -/
def processAttrList (attrList : List CString) (tblInfo : TableList) : List TargetEntry :=
  match attrList with
  | [] => tblInfo.column.map fun col => attrTarget col.colName
  | attrList =>
    (attrList.takeWhile fun name => (getAttrIndex tblInfo name).isSome).map attrTarget

/-- `RangTblRewriteValuseClause`: the number is counted up once more before it is used. -/
def rangTblRewriteValuseClause (valuesList : List (List Literal)) (st : QueryState) :
    List RangTblEntry :=
  st.rtable ++
    [⟨.values, st.rindex + 1, none, st.parentTargetList, none, valuesList, false, false⟩]

/-- `transformInsertStmt`. -/
def transformInsertStmt (insertStmt : InsertStmt) : Option Query := do
  let rtableNode ← getRangTblNode getTableInfo insertStmt.tableName
  let tblInfo ← rtableNode.tblInfo
  let targetList := processAttrList insertStmt.attrNameList tblInfo
  let rtableNode :=
    { rtableNode with rindex := firstRangtableIndex, targetList := targetList }
  let st := { QueryState.start [rtableNode] (firstRangtableIndex + 1) with
    parentTargetList := targetList }
  return ⟨.insert, targetList, [],
    rangTblRewriteValuseClause insertStmt.valuesList st, [], [], none⟩

/-- `transformUpdateStmt`. -/
def transformUpdateStmt (updateStmt : UpdateStmt) : Option Query := do
  let (rangTblList, rindex) :=
    rangTblRewriteFromClause getTableInfo updateStmt.fromList firstRangtableIndex
  let rtableNode ← rangTblOf getTableInfo updateStmt.relation rindex
  let (targetList, setValues, st) ← processCheckTargetList updateStmt.targetlist [] []
    (.start (rtableNode :: rangTblList) (rindex + 1))
  transformQual .update updateStmt.whereList setValues
    { st with parentTargetList := targetList }

/-- `transformDeleteStmt`: the targets are all columns of the table to change. -/
def transformDeleteStmt (deleteStmt : DeleteStmt) : Option Query := do
  let (rangTblList, rindex) :=
    rangTblRewriteFromClause getTableInfo deleteStmt.fromList firstRangtableIndex
  let rtableNode ← rangTblOf getTableInfo deleteStmt.relation rindex
  let (targetList, st) := targetRewriteAllColumns [] (.start [rtableNode] (rindex + 1))
  transformQual .delete deleteStmt.whereList []
    { st with parentTargetList := targetList, rtable := st.rtable ++ rangTblList }

end Statements

/-- A statement that has a query tree. -/
inductive Stmt where
  | select (selectStmt : SelectStmt)
  | insert (insertStmt : InsertStmt)
  | update (updateStmt : UpdateStmt)
  | delete (deleteStmt : DeleteStmt)

/-- `transformStmt`. -/
def transformStmt (getTableInfo : CString → Option TableList) : Stmt → Option Query
  | .select selectStmt => transformSelectStmt getTableInfo selectStmt
  | .insert insertStmt => transformInsertStmt getTableInfo insertStmt
  | .update updateStmt => transformUpdateStmt getTableInfo updateStmt
  | .delete deleteStmt => transformDeleteStmt getTableInfo deleteStmt

/-! ## The scans of a query

`ProcessTableScan` of `plan.c` turns the join tree of a query into plan nodes: a scan for each
table and a nested loop for each join. A scan refers to the entry of the range table at the
position that its number names, and marks it. -/

/-- `SeqScan`, with the position of its range table entry if there is one, and `NestLoop`. -/
inductive PlanNode where
  | seqScan (targetList : List TargetEntry) (rangTbl : Option Nat)
  | nestLoop (mergeType : BoolExprType) (isJoin : Bool) (rtNum : Nat)
      (targetList : List TargetEntry)
      (leftplan rightplan : PlanNode)

/-- `ProcessScanNode`. -/
def processScanNode (rindex : Nat) (targetList : List TargetEntry)
    (rtable : List RangTblEntry) :
    PlanNode × List RangTblEntry :=
  match getCellValueByIndex rtable rindex with
  | some rte =>
    (.seqScan targetList (some (rindex - 1)),
      rtable.set (rindex - 1) { rte with isScaned := true })
  | none => (.seqScan targetList none, rtable)

/-- `ProcessJoinTree`, with `ProcessJoinNode`. -/
def processJoinTree : JoinTree → List RangTblEntry → PlanNode × List RangTblEntry
  | .scan rindex _ targetList, rtable => processScanNode rindex targetList rtable
  | .join joinOp isJoin rtNum targetList lefttree righttree, rtable =>
    let (leftplan, rtable) := processJoinTree lefttree rtable
    let (rightplan, rtable) := processJoinTree righttree rtable
    (.nestLoop joinOp isJoin rtNum targetList leftplan rightplan, rtable)

/-- The loop of `ProcessQual`. -/
def processJoinTrees : List JoinTree → List RangTblEntry → List PlanNode × List RangTblEntry
  | [], rtable => ([], rtable)
  | valueNode :: joinTreeList, rtable =>
    let (exprNode, rtable) := processJoinTree valueNode rtable
    let (subPlanList, rtable) := processJoinTrees joinTreeList rtable
    (exprNode :: subPlanList, rtable)

/-- `ProcessQual`. More than one tree is not supported. -/
def processQual (joinTreeList : List JoinTree)
    (rtable : List RangTblEntry) : Option PlanNode × List RangTblEntry :=
  let (subPlanList, rtable) := processJoinTrees joinTreeList rtable
  (if subPlanList.length > 1 then none else subPlanList.getLast?, rtable)

/-- `ProcessTableScan`. -/
def processTableScan (query : Query) : Option PlanNode × List RangTblEntry :=
  processQual query.rtjoinTree.toList query.rtable

end Toadb
