/-
Toadb.Executor.ColumnDecode — a column value as the executor finds it in
memory (`TranslateRawColumnData` of `scan.c`, `GetExprDataColumnValue` of
`execExpre.c`).

A column value is a copy of its own size in memory, and other bytes lie
behind it (`behind`). The decoder reads as many bytes as the type of the
column asks for, and for a string as many as the whole value has with its
header. A string that is copied without a 0 ends with the copy here.
-/
import Toadb.Executor.ExpreCompute

namespace Toadb

/-! ## Decoding -/

/-- The number of bytes that `TranslateRawColumnData` reads at `data`. -/
def bytesRead (type : ValueType) (size : Nat) : Nat :=
  match type with
  | .int | .integer | .double | .float => 4
  | .varchar | .string => size
  | .char | .bool => 1
  | .unknown | .pointer => 0

/-- The `n` bytes of the memory from `data` on: those of the value, and then those behind
it. -/
def dataBytes (colData : RowColumnData) (behind : Nat → UInt8) (n : Nat) : List UInt8 :=
  (colData.data ++ (List.range n).map behind).take n

/-- What `TranslateRawColumnData` makes of the bytes it has read. -/
def translateBytes (type : ValueType) (bytes : List UInt8) : Option Data :=
  match type with
  | .int | .integer => some (.iData (BitVec.ofNat 32 (Bytes.toNat bytes)))
  | .varchar | .string => some (.pData (cString bytes))
  | .char => some (.pData (cString (bytes ++ [0])))
  | .double | .float => some (.fData (BitVec.ofNat 32 (Bytes.toNat bytes)))
  | .bool => some (.iData (if bytes.head? = some (boolByte true) then 1 else 0))
  | .unknown | .pointer => none

/-- `TranslateRawColumnData` in memory. -/
def translateInMemory (colData : RowColumnData) (behind : Nat → UInt8)
    (type : ValueType) : Option Data :=
  translateBytes type (dataBytes colData behind (bytesRead type colData.size))

/-! ## Rows -/

/-- The columns of a row, each with the number of its entry in the range table and its own. -/
structure StoredRow where
  columns : List (Nat × Nat)
  type : Nat → Nat → ValueType
  value : Nat → Nat → RowColumnData

/-- `GetExprDataColumnValue` for every column of a row; `behind` has what lies behind each of
them. -/
def StoredRow.inMemory (row : StoredRow) (behind : Nat → Nat → Nat → UInt8)
    (rindex attrIndex : Nat) :
    ResultExpreData :=
  let colData := row.value rindex attrIndex
  let type := row.type rindex attrIndex
  ⟨type, colData.size,
    (translateInMemory colData (behind rindex attrIndex) type).getD (.iData 0)⟩

end Toadb
