/-
Toadb.Executor.ExpreCompute — the operators of the data types
(`expreCompute.c`, `dataTypes.c`, `dataTypeProc.c`, `integerType.c`,
`stringType.c`, `charType.c`, `boolType.c`).

`ComputeExpr` takes the operators of the type of the left value and the one
at the place of the operation. `none` stands for NULL: a type without
operators, or an empty place in its table.

The operators read the member of the union that belongs to their type,
whatever was written. They give no result where C has none: a pointer that
is not one, a division by zero or one that does not fit. The float
functions are parameters, as floats are the numbers of the machine.
-/
import Toadb.Lib.Shortlex
import Toadb.Executor.ExecExpre

namespace Toadb

/-! ## Values -/

/-- `ExprDataInfo` as the cell of the executor holds it; the size of a constant is -1. -/
structure ResultExpreData where
  type : ValueType
  size : Int
  data : Data
  deriving DecidableEq

/-- `getDataInfo` of an `int`. -/
def getDataInfo (result : BitVec 32) : ResultExpreData := ⟨.int, 4, .iData result⟩

section Operators

-- where a string lies in memory
variable (address : CString → BitVec 64)

-- the comparisons of two floats, and whether a float or a double is not almost 0
variable (floatTest : ExprOpType → BitVec 32 → BitVec 32 → Bool)
  (floatIsTrue : BitVec 32 ⊕ BitVec 64 → Bool)

/-- `pData` is not NULL. -/
def Data.isPointer : Data → Bool
  | .pData _ => true
  | d => d.toInt address != 0

/-- `getDataBool`; NULL is true. -/
def getDataBool : Option ResultExpreData → Bool
  | none => true
  | some dataInfo =>
    match dataInfo.type with
    | .pointer => dataInfo.data.isPointer address
    | .int | .integer | .bool => dataInfo.data.toInt address != 0
    | .varchar | .string => dataInfo.data.isPointer address && decide (0 < dataInfo.size)
    | .char => (dataInfo.data.toInt address).setWidth 8 != 0
    | .double => floatIsTrue (.inr (dataInfo.data.toDouble address))
    | .float => floatIsTrue (.inl (dataInfo.data.toFloat address))
    | .unknown => false

/-- `OperatorEx`. -/
abbrev OperatorEx := ResultExpreData → ResultExpreData → Option ResultExpreData

/-! ## integerType.c -/

/-- A comparison of two `int`s. -/
def int32Test (test : BitVec 32 → BitVec 32 → Bool) : OperatorEx :=
  fun leftvalue rightvalue =>
  let first := leftvalue.data.toInt address
  let seconde := rightvalue.data.toInt address
  some (getDataInfo (hatBool (test first seconde)))

def int32GreaterOperator : OperatorEx :=
  int32Test address fun first seconde => seconde.slt first

def int32GreaterEqualOperator : OperatorEx :=
  int32Test address fun first seconde => seconde.sle first

def int32EqualOperator : OperatorEx := int32Test address fun first seconde => first == seconde

def int32LessEqualOperator : OperatorEx :=
  int32Test address fun first seconde => first.sle seconde

def int32LessOperator : OperatorEx := int32Test address fun first seconde => first.slt seconde

def int32NotEqualOperator : OperatorEx :=
  int32Test address fun first seconde => first != seconde

/-- An `int` computed from two; a sum that does not fit keeps its low bits. -/
def int32Compute (compute : BitVec 32 → BitVec 32 → Option (BitVec 32)) : OperatorEx :=
  fun leftvalue rightvalue =>
    let first := leftvalue.data.toInt address
    let seconde := rightvalue.data.toInt address
    (compute first seconde).map getDataInfo

def int32PositiveOperator : OperatorEx := int32Compute address fun first _ =>
  some (if (0 : BitVec 32).sle first then first else first * -1)

def int32NegtiveOperator : OperatorEx := int32Compute address fun first _ =>
  some (if (0 : BitVec 32).slt first then first * -1 else first)

def int32PlusOperator : OperatorEx :=
  int32Compute address fun first seconde => some (first + seconde)

def int32MinusOperator : OperatorEx :=
  int32Compute address fun first seconde => some (first - seconde)

def int32MultiOperator : OperatorEx :=
  int32Compute address fun first seconde => some (first * seconde)

def int32DivisionOperator : OperatorEx := int32Compute address fun first seconde =>
  if divisible first seconde then some (first.sdiv seconde) else none

def int32ModOperator : OperatorEx := int32Compute address fun first seconde =>
  if divisible first seconde then some (first.srem seconde) else none

/-- `integerDataTypeProcEntry` and `intDataTypeProcEntry`; the entry for `<` is that for
`<=`. -/
def integerDataTypeProcEntry : ExprOpType → Option OperatorEx
  | .less => some (int32LessEqualOperator address)
  | .lessEqual => some (int32LessEqualOperator address)
  | .equal => some (int32EqualOperator address)
  | .greaterEqual => some (int32GreaterEqualOperator address)
  | .greater => some (int32GreaterOperator address)
  | .notEqual => some (int32NotEqualOperator address)
  | .positive => some (int32PositiveOperator address)
  | .negative => some (int32NegtiveOperator address)
  | .plus => some (int32PlusOperator address)
  | .minus => some (int32MinusOperator address)
  | .multiple => some (int32MultiOperator address)
  | .division => some (int32DivisionOperator address)
  | .mod => some (int32ModOperator address)

/-! ## stringType.c, charType.c -/

/-- `stringGetSize`: the size of a NULL string stays as it is. -/
def stringGetSize (value : ResultExpreData) : Option ResultExpreData :=
  match value.data with
  | .pData str => some { value with size := str.strlen }
  | d => if d.isPointer address then none else some value

/-- `strncmp` of the strings of two values. Nothing is read for no bytes. -/
def dataStrncmp (left right : Data) (len : Int) : Option Ordering :=
  if len = 0 then some .eq
  else do
    let str1 ← left.toStr
    let str2 ← right.toStr
    return Shortlex.cmpFirst (str1.val.map UInt8.toNat) (str2.val.map UInt8.toNat) len.toNat

/-- The sizes first, then the bytes. -/
def stringOrder (leftvalue rightvalue : ResultExpreData) : Option Ordering := do
  let leftvalue ← stringGetSize address leftvalue
  let rightvalue ← stringGetSize address rightvalue
  if leftvalue.size > rightvalue.size then some .gt
  else if leftvalue.size < rightvalue.size then some .lt
  else dataStrncmp leftvalue.data rightvalue.data leftvalue.size

/-- A comparison of two strings. -/
def stringTest (test : Ordering → Bool) : OperatorEx := fun leftvalue rightvalue =>
  (stringOrder address leftvalue rightvalue).map fun order =>
    getDataInfo (hatBool (test order))

def stringGreaterOperator : OperatorEx := stringTest address (· == .gt)

def stringGreaterEqualOperator : OperatorEx := stringTest address (· != .lt)

def stringEqualOperator : OperatorEx := stringTest address (· == .eq)

def stringLessEqualOperator : OperatorEx := stringTest address (· != .gt)

def stringLessOperator : OperatorEx := stringTest address (· == .lt)

/-- `stringDataTypeProcEntry` and `varcharDataTypeProcEntry`. -/
def stringDataTypeProcEntry : ExprOpType → Option OperatorEx
  | .less => some (stringLessEqualOperator address)
  | .lessEqual => some (stringLessEqualOperator address)
  | .equal => some (stringEqualOperator address)
  | .greaterEqual => some (stringGreaterEqualOperator address)
  | .greater => some (stringGreaterOperator address)
  | _ => none

/-- A comparison of two `char`s, which are strings in memory. -/
def charTest (test : Ordering → Bool) : OperatorEx := fun leftvalue rightvalue =>
  (dataStrncmp leftvalue.data rightvalue.data 1).map fun order =>
    getDataInfo (hatBool (test order))

def charGreaterOperator : OperatorEx := charTest (· == .gt)

def charGreaterEqualOperator : OperatorEx := charTest (· != .lt)

def charEqualOperator : OperatorEx := charTest (· == .eq)

def charLessEqualOperator : OperatorEx := charTest (· != .gt)

def charLessOperator : OperatorEx := charTest (· == .lt)

/-- `charDataTypeProcEntry`. -/
def charDataTypeProcEntry : ExprOpType → Option OperatorEx
  | .less => some charLessEqualOperator
  | .lessEqual => some charLessEqualOperator
  | .equal => some charEqualOperator
  | .greaterEqual => some charGreaterEqualOperator
  | .greater => some charGreaterOperator
  | _ => none

/-! ## floatType.c, boolType.c -/

/-- A comparison of two floats. -/
def floatOperator (op : ExprOpType) : OperatorEx := fun leftvalue rightvalue =>
  some
    (getDataInfo (hatBool
      (floatTest op (leftvalue.data.toFloat address) (rightvalue.data.toFloat address))))

/-- `floatDataTypeProcEntry`. -/
def floatDataTypeProcEntry : ExprOpType → Option OperatorEx
  | .less => some (floatOperator address floatTest .lessEqual)
  | .lessEqual => some (floatOperator address floatTest .lessEqual)
  | .equal => some (floatOperator address floatTest .equal)
  | .greaterEqual => some (floatOperator address floatTest .greaterEqual)
  | .greater => some (floatOperator address floatTest .greater)
  | _ => none

/-- `boolDataTypeProcEntry`. -/
def boolDataTypeProcEntry : ExprOpType → Option OperatorEx
  | .equal => some (int32EqualOperator address)
  | .notEqual => some (int32NotEqualOperator address)
  | _ => none

/-! ## expreCompute.c -/

/-- `getDataTypeProcs`, the operators of `dataProcsEntry`. -/
def getDataTypeProcs : ValueType → Option (ExprOpType → Option OperatorEx)
  | .unknown | .pointer => none
  | .int | .integer => some (integerDataTypeProcEntry address)
  | .varchar | .string => some (stringDataTypeProcEntry address)
  | .char => some charDataTypeProcEntry
  | .double | .float => some (floatDataTypeProcEntry address floatTest)
  | .bool => some (boolDataTypeProcEntry address)

/-- The operator that `ComputeExpr` calls, if there is one. -/
def operatorOf (type : ValueType) (op : ExprOpType) : Option OperatorEx :=
  (getDataTypeProcs address floatTest type).bind fun opf => opf op

/-- `ComputeExpr`; `some none` is NULL. -/
def computeExpr (left right : ResultExpreData)
    (op : ExprOpType) : Option (Option ResultExpreData) :=
  match operatorOf address floatTest left.type op with
  | none => some none
  | some operator => (operator left right).map some

/-- The operator functions for the executor. -/
def valueOps : ExprOps ResultExpreData where
  zero := ⟨.unknown, 0, .iData 0⟩
  constValue constValue := ⟨constValue.vt, -1, constValue.val⟩
  boolValue b := getDataInfo (hatBool b)
  getDataBool value := getDataBool address floatIsTrue (some value)
  computeExpr op left right := (computeExpr address floatTest left right op).join

end Operators

end Toadb
