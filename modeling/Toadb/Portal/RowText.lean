/-
Toadb.Portal.RowText — the text of a row for the client (`GetValueInfo` of
`portal.c`, `ClientRowDataSend` of `netclient.c`).

Each column is printed into the buffer of the portal behind the one before,
and the width that `GetValueInfo` returns says where the next one goes. What
is not printed stays in the buffer as it was.

`none` is a read outside of a column value. The text of a float is a
parameter, as floats are the numbers of the machine.
-/
import Toadb.Portal.Netclient
import Toadb.Storage.Tuples

namespace Toadb

/-! ## Printing -/

/-- The character `|`. -/
def bar : UInt8 := 124

/-- `%d`. -/
def decimal (i : Int) : List UInt8 :=
  let digits := (Nat.toDigits 10 i.natAbs).map fun c => UInt8.ofNat c.toNat
  if i < 0 then 45 :: digits else digits

/-- `%*s` and its like: spaces in front of a text that is shorter than the width. -/
def padLeft (width : Nat) (text : List UInt8) : List UInt8 :=
  List.replicate (width - text.length) 32 ++ text

/-- The `size_t` of an `int`. -/
def sizeT (i : Int) : Nat := (BitVec.ofInt 64 i).toNat

/-- `snprintf` at `offset` of the buffer, of at most `n` bytes with the 0. -/
def snprintf (mem : Int → UInt8) (offset : Int) (n : Nat) (text : List UInt8) : Int → UInt8 :=
  if n = 0 then mem else Bytes.write mem offset (text.take (n - 1) ++ [0])

/-- The C string at the front of a value's data. -/
def dataString (data : List UInt8) : Option CString :=
  if 0 ∈ data then some (cString data) else none

/-! ## Columns -/

/-- `NULL_VALUE`. -/
def nullValue : List UInt8 := [32]

/-- `MIN_DATA_SIZE`. -/
def minDataSize : Nat := rowColumnDataSize

/-- The length of a number in `digit`, an array of 128 bytes. -/
def digitSize (digit : List UInt8) : Nat := (digit.take 127).length

/-- What all cases of `GetValueInfo` end with: the width, and what goes to the buffer. -/
def printValue (maxwidth size : Nat) (text : List UInt8) : Int × Option (List UInt8) :=
  let maxwidth := max maxwidth size
  (maxwidth, some (bar :: padLeft maxwidth text))

section Print

-- `%f`
variable (floatText : BitVec 32 → List UInt8)

/-- `GetValueInfo`. -/
def getValueInfo (vt : ValueType) (colmnData : Option RowColumnData) (maxwidth : Nat) :
    Option (Int × Option (List UInt8)) :=
  match colmnData with
  | none => some (-1, none)
  | some colmnData =>
    if colmnData.size = minDataSize then
      some (nullValue.length + 1, some (bar :: padLeft maxwidth nullValue))
    else
      match vt with
      | .int | .integer => do
        let i ← dataWord colmnData.data
        let digit := decimal i.toInt
        return printValue maxwidth (digitSize digit) digit
      | .varchar | .string => do
        let str ← dataString colmnData.data
        return printValue maxwidth colmnData.size str.val
      | .char | .bool => do
        let data ← colmnData.data.head?
        return printValue maxwidth 1 [data]
      | .double | .float => do
        let bits ← dataWord colmnData.data
        let digit := floatText bits
        return printValue maxwidth (digitSize digit) digit
      | .unknown | .pointer => some (maxwidth, none)

/-- The loop of `ClientRowDataSend` over the columns and their types: the buffer and the
offset afterwards. -/
def printColumns : List (Option RowColumnData) → List ValueType → (Int → UInt8) → Int →
    Option ((Int → UInt8) × Int)
  | [], _, pbuf, bufOffset => some (pbuf, bufOffset)
  | _ :: _, [], _, _ => none
  | columnData :: columns, vt :: targetValTypeArr, pbuf, bufOffset => do
    let (width, text) ← getValueInfo floatText vt columnData 0
    let pbuf :=
      match text with
      | none => pbuf
      | some text => snprintf pbuf bufOffset portBufferSize text
    printColumns columns targetValTypeArr pbuf (bufOffset + (width + 1))

/-- `ClientRowDataSend`: the buffer, and the size of the message. -/
def clientRowDataSend (rawRow : Option (List (Option RowColumnData)))
    (targetValTypeArr : List ValueType) (pbuf : Int → UInt8) : Option ((Int → UInt8) × Int) :=
  match rawRow with
  | none => some (pbuf, 0)
  | some rawRow => do
    let (pbuf, bufOffset) ← printColumns floatText rawRow targetValTypeArr pbuf 0
    return (snprintf pbuf bufOffset (sizeT (portBufferSize - bufOffset)) [bar], bufOffset + 2)

end Print

end Toadb
