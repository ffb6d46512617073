/-
Toadb.Storage.Tuples — from literals to stored column values (`tuples.c`, `scan.c`).

INSERT stores a literal by the type of its column (`transformConstValueRowData`). UPDATE first
makes an expression value of it, by the kind of the literal, and stores that by its own type
(`transformConstExprValue`, `transFormExpr2RowColumnData`). `translateRawColumnData` reads a
stored value by the type of its column.

  * a value is a C union, `Data`: reading another member than the one written gives other
    bytes, or a pointer to nowhere;
  * `none` is an access or a copy outside of what was allocated;
  * a float is its 32 bits, and `floatOfInt` is the conversion of an `int` to one.
-/
import Mathlib.Data.List.TakeWhile
import Toadb.Storage.RowData

namespace Toadb

open Bytes (memcpy)

/-! ## Values -/

/-- `valueType`. -/
inductive ValueType where
  | unknown | pointer | int | integer | varchar | string | char | double | float | bool
  deriving DecidableEq, Repr

/-- The bytes of a C string in front of its 0. -/
abbrev CString := { s : List UInt8 // 0 ∉ s }

/-- The bytes of a C string, with the 0. -/
def CString.bytes (s : CString) : List UInt8 := s.val ++ [0]

def CString.strlen (s : CString) : Nat := s.val.length

/-- The first `char` of a C string. -/
def CString.first (s : CString) : UInt8 := s.val.headD 0

/-- The C string at the front of a block. -/
def cString (block : List UInt8) : CString :=
  ⟨block.takeWhile (· ≠ 0), fun h => by simpa using List.mem_takeWhile_imp h⟩

/-- The bytes of an ASCII text. -/
def ascii (s : String) : List UInt8 := s.toList.map fun c => UInt8.ofNat c.toNat

/-- `Data`, with the member that was written last; the other bytes are 0. -/
inductive Data where
  | pData (str : CString)
  | iData (i : BitVec 32)
  | cData (c : UInt8)
  | fData (bits : BitVec 32)
  deriving DecidableEq

/-- The string that `pData` points to. -/
def Data.toStr : Data → Option CString
  | .pData s => some s
  | _ => none

section Union

-- where a string lies in memory
variable (address : CString → BitVec 64)

/-- `iData`. -/
def Data.toInt : Data → BitVec 32
  | .pData s => (address s).setWidth 32
  | .iData i => i
  | .cData c => c.toBitVec.setWidth 32
  | .fData bits => bits

/-- `fData`: the same bytes. -/
def Data.toFloat (d : Data) : BitVec 32 := d.toInt address

/-- `dData`: all eight bytes. -/
def Data.toDouble : Data → BitVec 64
  | .pData s => address s
  | d => (d.toInt address).setWidth 64

end Union

/-- `q` rounded to a multiple of `2 ^ k`, ties to the even one, divided by `2 ^ k`. -/
def roundHalfEven (q k : Nat) : Nat :=
  let below := q % 2 ^ k
  let quotient := q / 2 ^ k
  if 2 ^ k < 2 * below ∨ 2 * below = 2 ^ k ∧ quotient % 2 = 1 then quotient + 1 else quotient

/-- The bits of `(float)i`. A mantissa that rounds up to `2 ^ 24` carries into the
exponent. -/
def floatOfInt (i : BitVec 32) : BitVec 32 :=
  let a := i.toInt.natAbs
  if a = 0 then 0
  else
    let e := a.log2
    let mantissa := if e ≤ 23 then a * 2 ^ (23 - e) else roundHalfEven a (e - 23)
    let sign := if i.toInt < 0 then 2 ^ 31 else 0
    BitVec.ofNat 32 (sign + (e + 127) * 2 ^ 23 + (mantissa - 2 ^ 23))

example : floatOfInt 1 = 0x3F800000 ∧ floatOfInt (-5) = 0xC0A00000 ∧
    floatOfInt 16777219 = 0x4B800002 := by decide

/-- `ConstValue`. -/
structure ConstValue where
  vt : ValueType
  val : Data
  deriving DecidableEq

/-- The literals of the grammar. -/
inductive Literal where
  | string (s : CString)
  | int (i : BitVec 32)
  | float (bits : BitVec 32)
  deriving DecidableEq

/-- `constValues`: the parser's node for a literal. -/
def Literal.constValue : Literal → ConstValue
  | .string s => ⟨.varchar, .pData s⟩
  | .int i => ⟨.int, .iData i⟩
  | .float bits => ⟨.float, .fData bits⟩

/-! ## Storing -/

/-- The four bytes of an `int` or a `float`. -/
def wordBytes (w : BitVec 32) : List UInt8 := Bytes.ofNat 4 w.toNat

/-- A `bool` as it is stored. -/
def boolByte (b : Bool) : UInt8 := if b then 0x54 else 0x46

section Store

variable (address : CString → BitVec 64)

/-- The float of a literal of a float column: digits are an int or a float. -/
def floatValue (constValue : ConstValue) : BitVec 32 :=
  match constValue.vt with
  | .float => constValue.val.toFloat address
  | .int => floatOfInt (constValue.val.toInt address)
  | _ => 0

/-- `TransformConstValueRowData`: the column value that INSERT stores. For a type that it does
not know the function returns NULL, and its caller reads the size of that. -/
def transformConstValueRowData (constValue : ConstValue)
    (type : ValueType) (attrIndex : Nat) :
    Option RowColumnData :=
  match type with
  | .int | .integer => some (.new attrIndex (wordBytes (constValue.val.toInt address)))
  | .varchar | .string => do
    let s ← constValue.val.toStr
    let len := s.strlen + 1
    let data ← memcpy len [] s.bytes len
    return .new attrIndex data
  | .char => do
    let s ← constValue.val.toStr
    let data ← if 0 < s.strlen then memcpy 1 [] s.bytes 1 else some []
    return .new attrIndex data
  | .double | .float => some (.new attrIndex (wordBytes (floatValue address constValue)))
  | .bool => some (.new attrIndex [boolByte (constValue.val.toInt address != 0)])
  | .unknown | .pointer => none

/-- `ExprDataInfo`. -/
structure ExprDataInfo where
  type : ValueType
  size : Nat
  data : Data
  deriving DecidableEq

/-- `TransformConstExprValue`; `some none` is NULL. -/
def transformConstExprValue (constValue : ConstValue) : Option (Option ExprDataInfo) :=
  match constValue.vt with
  | .int | .integer => some (some ⟨.integer, 4, .iData (constValue.val.toInt address)⟩)
  | .varchar | .string => do
    let s ← constValue.val.toStr
    let len := s.strlen + 1
    let copy ← memcpy len [] s.bytes len
    return some ⟨.string, len, .pData (cString copy)⟩
  | .char => do
    let s ← constValue.val.toStr
    return some ⟨.char, s.strlen, .cData s.first⟩
  | .double | .float => some (some ⟨.float, 4, .fData (floatValue address constValue)⟩)
  | .bool => some (some ⟨.float, 1, .cData (boolByte (constValue.val.toInt address != 0))⟩)
  | .unknown | .pointer => some none

/-- `transFormExpr2RowColumnData`; `some none` is NULL. -/
def transFormExpr2RowColumnData (exprData : ExprDataInfo) (attrIndex : Nat) :
    Option (Option RowColumnData) :=
  match exprData.type with
  | .int | .integer => some (some (.new attrIndex (wordBytes (exprData.data.toInt address))))
  | .varchar | .string => do
    let s ← exprData.data.toStr
    let dataSize := s.strlen + 1 + rowColumnDataSize
    -- the size of the whole structure is copied into its `data`
    let data ← memcpy (dataSize - rowColumnDataSize) [] s.bytes dataSize
    return some (.new attrIndex data)
  | .char => do
    let s ← exprData.data.toStr
    return some (.new attrIndex [s.first])
  | .double | .float => none -- `tmp` is the `data` of a NULL `newColData`
  | .bool =>
    some (some (.new attrIndex [boolByte (exprData.data.toInt address == 1), 0, 0, 0]))
  | .unknown | .pointer => some none

/-- `FormNewRowsPos` with a literal: the column value that UPDATE stores, unless a step gives
NULL. -/
def updateColumnData (constValue : ConstValue)
    (attrIndex : Nat) : Option (Option RowColumnData) := do
  match ← transformConstExprValue address constValue with
  | none => return none
  | some exprData => transFormExpr2RowColumnData address exprData attrIndex

end Store

/-! ## Reading -/

/-- The `int` or `float` at the front of a value's data. -/
def dataWord (data : List UInt8) : Option (BitVec 32) :=
  if 4 ≤ data.length then some (BitVec.ofNat 32 (Bytes.toNat (data.take 4))) else none

/-- `TranslateRawColumnData`; `some none` is NULL. -/
def translateRawColumnData (colData : RowColumnData)
    (type : ValueType) : Option (Option Data) :=
  match type with
  | .int | .integer => do
    let i ← dataWord colData.data
    return some (.iData i)
  | .varchar | .string => do
    let len := colData.size
    let str ← memcpy len [] colData.data len
    return some (.pData (cString str))
  | .char => do
    let c ← memcpy 2 [] colData.data 1
    return some (.pData (cString (c ++ [0])))
  | .double | .float => do
    let bits ← dataWord colData.data
    return some (.fData bits)
  | .bool => do
    let b ← colData.data.head?
    return some (.iData (if b = boolByte true then 1 else 0))
  | .unknown | .pointer => some none

end Toadb
