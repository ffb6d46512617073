/-
Toadb.Parser.Grammar — expressions (`a_expr` of `grammar.y`).

An expression is made of operands, a column or a constant, and of operators;
its conflicts are resolved by the precedence declarations. Parentheses, calls
of functions and the table of a column are left out.
-/
import Toadb.Lib.Precedence
import Toadb.Parser.Scanner
import Toadb.Portal.RowText

namespace Toadb

open Precedence (OpGrammar)

/-! ## Precedence -/

/-- The declarations, from the lowest to the highest. -/
def exprGrammar : OpGrammar Token where
  operand
    | .ident _ | .string _ | .intNumber _ | .floatNumber _ => true
    | _ => false
  unary
    -- `%right NOT`
    | .keyword .not => some 3
    -- `%prec UMINUS`
    | .self c => if c = 43 ∨ c = 45 then some 8 else none
    | _ => none
  binary
    -- `%left OR`, `%left AND`
    | .keyword .or => some (1, .left)
    | .keyword .and => some (2, .left)
    -- `%nonassoc`
    | .lessEq | .greaterEq | .notEq => some (4, .nonassoc)
    | .self c =>
      if c = 62 ∨ c = 60 ∨ c = 61 then some (4, .nonassoc)
      -- `%left '+' '-'`, `%left '*' '/' '%'`
      else if c = 43 ∨ c = 45 then some (6, .left)
      else if c = 42 ∨ c = 47 ∨ c = 37 then some (7, .left)
      else none
    | _ => none

/-! ## Actions -/

section Actions

-- the value of a floating point number
variable (atof : List UInt8 → BitVec 32)

/-- `c_expr`. -/
def operandNode : Token → ExprNode
  | .ident s => .columnRef ⟨s, none, .unknown, 0⟩
  | .string s => .constValue ⟨.varchar, .pData s⟩
  | .intNumber i => .constValue ⟨.int, .iData i⟩
  | .floatNumber text => .constValue ⟨.float, .fData (atof text)⟩
  | _ => .null

/-- `NOT a_expr`, `'+' a_expr` and `'-' a_expr`. -/
def unaryNode (t : Token) (arg : ExprNode) : ExprNode :=
  match t with
  | .keyword .not => .notExpr arg
  | .self c => .aExpr (if c = 43 then .positive else .negative) arg .null
  | _ => .null

/-- The type of a binary operator. -/
def exprOpType (t : Token) : ExprOpType :=
  match t with
  | .lessEq => .lessEqual
  | .greaterEq => .greaterEqual
  | .notEq => .notEqual
  | .self c =>
    if c = 43 then .plus
    else if c = 45 then .minus
    else if c = 42 then .multiple
    else if c = 47 then .division
    else if c = 37 then .mod
    else if c = 62 then .greater
    else if c = 60 then .less
    else .equal
  | _ => .equal

/-- `a_expr AND a_expr` and its like. -/
def binaryNode (t : Token) (left right : ExprNode) : ExprNode :=
  match t with
  | .keyword .and => .boolExpr .and left right
  | .keyword .or => .boolExpr .or left right
  | t => .aExpr (exprOpType t) left right

/-- The node of an expression. -/
def exprNode : Precedence.Tree Token → ExprNode
  | .leaf t => operandNode atof t
  | .unary t arg => unaryNode t (exprNode arg)
  | .binary t left right => binaryNode t (exprNode left) (exprNode right)

/-- `a_expr`. -/
def parseExpr (tokens : List Token) : Option ExprNode :=
  (Precedence.parse exprGrammar tokens).map (exprNode atof)

end Actions

/-! ## Expressions and their text -/

/-- A name that is a token of its own: no keyword. -/
def IsIdentifier (s : List UInt8) : Prop :=
  s ∈ identifyPattern.matches' ∧ ∀ r ∈ keywordRules, s ∉ r.pattern.matches'

instance (s : List UInt8) : Decidable (IsIdentifier s) := inferInstanceAs (Decidable (_ ∧ _))

/-- The operators between two operands. -/
inductive BinaryOp where
  | or | and | less | lessEqual | equal | greaterEqual | greater | notEqual | plus | minus
  | multiple | division
  | mod
  deriving DecidableEq, Repr

/-- An expression of columns, numbers that are not negative, and operators. -/
inductive Expr where
  | column (name : CString) (h : IsIdentifier name.val)
  | integer (n : Nat) (h : n < 2 ^ 31)
  | negative (arg : Expr)
  | not (arg : Expr)
  | binary (op : BinaryOp) (left right : Expr)

/-- The token of an operator. -/
def BinaryOp.token : BinaryOp → Token
  | .or => .keyword .or
  | .and => .keyword .and
  | .less => .self 60
  | .lessEqual => .lessEq
  | .equal => .self 61
  | .greaterEqual => .greaterEq
  | .greater => .self 62
  | .notEqual => .notEq
  | .plus => .self 43
  | .minus => .self 45
  | .multiple => .self 42
  | .division => .self 47
  | .mod => .self 37

/-- The minus sign. -/
def minus : Token := .self 45

/-- The tree over tokens of an expression. -/
def Expr.tree : Expr → Precedence.Tree Token
  | .column name _ => .leaf (.ident name)
  | .integer n _ => .leaf (.intNumber (BitVec.ofNat 32 n))
  | .negative arg => .unary minus arg.tree
  | .not arg => .unary (.keyword .not) arg.tree
  | .binary op left right => .binary op.token left.tree right.tree

/-- The node of a binary operator. -/
def BinaryOp.node (op : BinaryOp) (left right : ExprNode) : ExprNode :=
  match op with
  | .or => .boolExpr .or left right
  | .and => .boolExpr .and left right
  | .less => .aExpr .less left right
  | .lessEqual => .aExpr .lessEqual left right
  | .equal => .aExpr .equal left right
  | .greaterEqual => .aExpr .greaterEqual left right
  | .greater => .aExpr .greater left right
  | .notEqual => .aExpr .notEqual left right
  | .plus => .aExpr .plus left right
  | .minus => .aExpr .minus left right
  | .multiple => .aExpr .multiple left right
  | .division => .aExpr .division left right
  | .mod => .aExpr .mod left right

/-- The expression as the parser should leave it. -/
def Expr.node : Expr → ExprNode
  | .column name _ => .columnRef ⟨name, none, .unknown, 0⟩
  | .integer n _ => .constValue ⟨.int, .iData (BitVec.ofNat 32 n)⟩
  | .negative arg => .aExpr .negative arg.node .null
  | .not arg => .notExpr arg.node
  | .binary op left right => op.node left.node right.node

/-- A token as it is printed. -/
def Token.text : Token → List UInt8
  | .keyword k => ascii k.text
  | .string sval => sval.val
  | .intNumber ival => decimal ival.toInt
  | .floatNumber text => text
  | .ident sval => sval.val
  | .self c => [c]
  | .lessEq => ascii "<="
  | .greaterEq => ascii ">="
  | .notEq => ascii "<>"

/-- The text of tokens, each with a number of spaces in front. -/
def render (items : List (Nat × Token)) : List UInt8 :=
  items.flatMap fun item => List.replicate item.1 32 ++ item.2.text

end Toadb
