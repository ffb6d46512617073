/-
Toadb.Executor.ExecExpre — the value of a condition for a row (`execExpre.c`).

`processQualExprNode` gives a result, and leaves it in the one cell that all steps share,
`resultExpreData`. A step without a result leaves the cell as it was, and whoever reads the
cell next takes what is there for the result. The operator functions of the data types are
`ExprOps`, for values of any type `V`; a row is what each entry of the range table has in each
of its columns.

`evalExpr` is the meaning of the tree that the parser made.
-/
import Toadb.Plan.Query

namespace Toadb

/-! ## Values -/

/-- The operator functions. `zero` is a value that was never set, and `none` is NULL. -/
structure ExprOps (V : Type) where
  zero : V
  constValue : ConstValue → V
  boolValue : Bool → V
  getDataBool : V → Bool
  computeExpr : ExprOpType → V → V → Option V

/-- `BoolExprType` as an operation. -/
def BoolExprType.apply : BoolExprType → Bool → Bool → Bool
  | .and, left, right => left && right
  | .or, left, right => left || right

section Eval

variable {V : Type} (ops : ExprOps V)

/-- `getDataBool` of a result. NULL is true. -/
def ExprOps.isTrue : Option V → Bool
  | none => true
  | some value => ops.getDataBool value

/-- `HAT_TRUE` or `HAT_FALSE`. -/
def hatBool (b : Bool) : BitVec 32 := if b then 1 else 0

/-- The processor divides neither by 0 nor the least `int` by -1. -/
def divisible (first seconde : BitVec 32) : Bool :=
  seconde != 0 && !(first == BitVec.intMin 32 && seconde == -1)

/-- `integerDataTypeProcEntry`: the operators of `int`. The entry for `<` is that for `<=`.
There is no result where the division of C has none. -/
def intOps : ExprOps (BitVec 32) where
  zero := 0
  constValue constValue :=
    match constValue.val with
    | .iData i => i
    | _ => 0
  boolValue := hatBool
  getDataBool value := value != 0
  computeExpr
    | .less, left, right => some (hatBool (left.sle right))
    | .lessEqual, left, right => some (hatBool (left.sle right))
    | .equal, left, right => some (hatBool (left == right))
    | .greaterEqual, left, right => some (hatBool (right.sle left))
    | .greater, left, right => some (hatBool (right.slt left))
    | .notEqual, left, right => some (hatBool (left != right))
    | .positive, left, _ => some (if (0 : BitVec 32).sle left then left else -left)
    | .negative, left, _ => some (if (0 : BitVec 32).slt left then -left else left)
    | .plus, left, right => some (left + right)
    | .minus, left, right => some (left - right)
    | .multiple, left, right => some (left * right)
    | .division, left, right => if divisible left right then some (left.sdiv right) else none
    | .mod, left, right => if divisible left right then some (left.srem right) else none

variable (rtable : List RangTblEntry) (row : Nat → Nat → V)

/-! ## Executor -/

/-- `GetExprDataColumnValue`: the column of the entry at position `rindex`. -/
def getExprDataColumnValue (columnRef : ColumnRef) (rindex : Nat) : Option V :=
  (getCellValueByIndex rtable rindex).map fun rte => row rte.rindex columnRef.attrIndex

/-- The value of an operand, which is read from the cell; NULL has none. -/
def ExprOps.operand (node : QualNode) (cell : V) : V :=
  match node with
  | .null => ops.zero
  | _ => cell

/-- `ProcessQualExprNode` for a node whose parent gives it the number `rindex`: the result,
and the cell afterwards. A `MergerEntry` has no number for its columns. -/
def processQualExprNode : QualNode → Nat → V → Option V × V
  | .null, _, cell => (none, cell)
  | .functionClause _, _, cell => (none, cell)
  | .columnRef columnRef, rindex, cell =>
    match getExprDataColumnValue rtable row columnRef rindex with
    | none => (none, cell)
    | some value => (some value, value)
  | .constValue constValue, _, _ =>
    (some (ops.constValue constValue), ops.constValue constValue)
  | .exprEntry op _ lrindex rrindex _ lefttree righttree, _, cell =>
    let leftCell := (processQualExprNode lefttree lrindex cell).2
    let rightCell := (processQualExprNode righttree rrindex leftCell).2
    match ops.computeExpr op (ops.operand lefttree leftCell)
      (ops.operand righttree rightCell) with
    | none => (none, rightCell)
    | some value => (some value, value)
  | .mergerEntry mergeType _ lefttree righttree, _, cell =>
    let leftCell := (processQualExprNode lefttree 0 cell).2
    let rightCell := (processQualExprNode righttree 0 leftCell).2
    let value :=
      ops.boolValue (mergeType.apply (ops.getDataBool (ops.operand lefttree leftCell))
        (ops.getDataBool (ops.operand righttree rightCell)))
    (some value, value)

/-- `ExecSelectQual`, as `ExecSelect` reads its result. -/
def execSelectQual (node : QualNode) (cell : V) : Bool :=
  ops.isTrue (processQualExprNode ops rtable row node 0 cell).1

/-! ## Meaning -/

/-- The value of an expression of the parse tree, where each operation has one. A unary
operator has no right side. -/
def evalExpr : ExprNode → Option V
  | .null => some ops.zero
  | .functionClause _ => none
  | .columnRef columnRef =>
    (searchColumDef columnRef rtable).map fun (_, rte, colDef) =>
      row rte.rindex colDef.attrIndex
  | .constValue constValue => some (ops.constValue constValue)
  | .aExpr exprOpType lexpr rexpr => do
    let left ← evalExpr lexpr
    let right ← evalExpr rexpr
    ops.computeExpr exprOpType left right
  | .boolExpr boolop first second => do
    let left ← evalExpr first
    let right ← evalExpr second
    return ops.boolValue (boolop.apply (ops.getDataBool left) (ops.getDataBool right))
  | .notExpr arg => do
    let value ← evalExpr arg
    return ops.boolValue (!ops.getDataBool value)

end Eval

/-- The columns that `ProcessQualExprNode` reads. -/
def columnsRead (rtable : List RangTblEntry) : QualNode → Nat → List (Nat × Nat)
  | .columnRef columnRef, rindex =>
    match getCellValueByIndex rtable rindex with
    | none => []
    | some rte => [(rte.rindex, columnRef.attrIndex)]
  | .exprEntry _ _ lrindex rrindex _ lefttree righttree, _ =>
    columnsRead rtable lefttree lrindex ++ columnsRead rtable righttree rrindex
  | .mergerEntry _ _ lefttree righttree, _ =>
    columnsRead rtable lefttree 0 ++ columnsRead rtable righttree 0
  | .null, _ | .constValue _, _ | .functionClause _, _ => []

end Toadb
