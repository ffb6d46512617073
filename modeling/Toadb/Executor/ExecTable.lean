/-
Toadb.Executor.ExecTable — CREATE TABLE (`exectable.c`, `tables.c`, `relCache.c`).

The metadata of a table, a `TableMetaInfo` with a `ColumnDefInfo` for each
column, is put together in a page buffer, copied to the dictionary, and written
to the head pages of both files of the table, where it is read back from.

A block of memory has `PAGE_MAX_SIZE` bytes here; what is done with bytes behind
it has no result (`none`). Whether files are created, read and written is up to
the storage manager (`FileResults`).
-/
import Toadb.Lib.Bytes
import Toadb.Plan.Query
import Toadb.Storage.PageLocks

namespace Toadb.ExecTable

/-! ## Blocks -/

/-- A block of `PAGE_MAX_SIZE` bytes. -/
abbrev Block := Int → UInt8

def readBlock (block : Block) (offset size : Nat) : Option (List UInt8) :=
  if offset + size ≤ pageMaxSize then some (Bytes.read block offset size) else none

def writeBlock (block : Block) (offset : Nat) (bytes : List UInt8) : Option Block :=
  if offset + bytes.length ≤ pageMaxSize then some (Bytes.write block offset bytes) else none

/-- An `int` that is not negative. -/
def readInt (block : Block) (offset : Nat) : Option Nat :=
  (readBlock block offset 4).map Bytes.toNat

def writeInt (block : Block) (offset value : Nat) : Option Block :=
  writeBlock block offset (Bytes.ofNat 4 value)

/-! ## Layout -/

/-- `sizeof(TableMetaInfo)`: `tableId`, `tableType`, `tableName` and `colNum`. -/
def tableMetaInfoSize : Nat := 4 + 4 + nameMaxLen + 4

/-- `sizeof(ColumnDefInfo)`: `colName`, `type`, `attrIndex` and `options`. -/
def columnDefInfoSize : Nat := nameMaxLen + 4 + 4 + 4

/-- `GROUP_PAGE_HEADER_SIZE`. -/
def groupPageHeaderSize : Nat := pageDataHeaderSize + 8

/-- `ST_PAX << STORAGE_TYPE_SHIFT`. -/
def tableType : Nat := 2 <<< 4

/-- The size of the metadata of so many columns. -/
def metadataSize (colNum : Nat) : Nat := tableMetaInfoSize + columnDefInfoSize * colNum

/-- Where a column definition begins in a page. -/
def columnOffset (i : Nat) : Nat := pageDataHeaderSize + metadataSize i

/-- `snprintf(name, NAME_MAX_LEN, "%s", s)`. -/
def nameText (s : CString) : List UInt8 := s.val.take (nameMaxLen - 1) ++ [0]

/-! ## Types -/

/-- `ColumnType`. -/
def columnType : List (List UInt8) :=
  ["UNKNOWN", "pointer", "int", "integer", "varchar", "string", "char", "double",
    "float", "bool"].map ascii

/-- `GetColumnType`: the last one of the name. -/
def getColumnType (typename : CString) : Int :=
  columnType.zipIdx.foldl (fun index (name, i) => if typename.val = name then (i : Int)
    else index) (-1)

/-! ## CREATE TABLE -/

/-- `ColumnDef`. -/
structure ColumnDef where
  colName : CString
  colType : CString

/-- `CreateStmt`. The list has a column at least. -/
structure CreateStmt where
  tableName : CString
  colList : List ColumnDef
  colList_ne_nil : colList ≠ []

/-- The type of a column as it is stored. -/
def ColumnDef.type (column : ColumnDef) : BitVec 32 :=
  BitVec.ofInt 32 (getColumnType column.colType)

/-- The loop over the columns, which may reject one. -/
def columnInfo : List ColumnDef → Nat → Block → Option (Option Block)
  | [], _, pagebuffer => some (some pagebuffer)
  | column :: colList, i, pagebuffer => do
    let pagebuffer ← writeBlock pagebuffer (columnOffset i) (nameText column.colName)
    let pagebuffer ← writeInt pagebuffer (columnOffset i + nameMaxLen) column.type.toNat
    -- the enumeration has no negative values, which makes the field unsigned
    if (column.type.toNat : Int) < 0 then return none
    else do
      let pagebuffer ← writeInt pagebuffer (columnOffset i + nameMaxLen + 4) i
      columnInfo colList (i + 1) pagebuffer

/-- What the storage manager returns. -/
structure FileResults where
  createMain : Bool
  createGroup : Bool
  writeMain : Bool
  openMain : Bool
  readMain : Bool
  writeGroup : Bool

/-- `TableList`: the metadata, the first page of the main file as far as it is kept, and the
head pages of both files. -/
structure TblInfo where
  tableDef : List UInt8
  tableInfo : Block
  mainHead : Block
  groupHead : Block

/-- The name in the metadata. -/
def TblInfo.tableName (tblInfo : TblInfo) : CString := cString (tblInfo.tableDef.drop 8)

/-- `FindTblInfo`. -/
def findTblInfo (tblList : List TblInfo) (filename : CString) : Option TblInfo :=
  tblList.find? (·.tableName = filename)

section Create

-- what the blocks hold that are allocated for the metadata and for the first page
variable (newBuffer newPage : Block)

/-- `TableFileMainInit`: the head page, and the copy of it that is kept. -/
def tableFileMainInit (tableDef : List UInt8) : Option (Block × Block) := do
  let colNum := Bytes.toNat ((tableDef.drop (tableMetaInfoSize - 4)).take 4)
  let size := metadataSize colNum
  let dataEndOffset := pageDataHeaderSize + size
  let page ← writeInt (fun _ => 0) 0 0x2B3C
  let page ← writeInt page 4 (1 ||| Bytes.toNat ((tableDef.drop 4).take 4))
  let page ← writeInt page 8 pageHeadPageNum
  let page ← writeInt page 20 pageHeadPageNum
  let page ← writeInt page 12 pageDataHeaderSize
  let page ← writeInt page 16 dataEndOffset
  let page ← writeBlock page pageDataHeaderSize (tableDef.take size)
  -- the header is counted twice
  let bytes ← readBlock page 0 (pageDataHeaderSize + dataEndOffset)
  let tableInfo ← writeBlock newPage 0 bytes
  return (page, tableInfo)

/-- `TableFileGroupInit`, from the kept page and the page that is read. -/
def tableFileGroupInit (tableInfo page : Block) : Option Block := do
  let dataOffset ← readInt tableInfo 12
  let dataEndOffset ← readInt tableInfo 16
  let colNum ← readInt tableInfo (dataOffset + (tableMetaInfoSize - 4))
  let metadata_size := dataEndOffset - dataOffset
  let gpage ← writeInt page pageDataHeaderSize 0
  let gpage ← writeInt gpage (pageDataHeaderSize + 4) colNum
  let bytes ← readBlock tableInfo dataOffset metadata_size
  let gpage ← writeBlock gpage groupPageHeaderSize bytes
  let gpage ← writeInt gpage 12 groupPageHeaderSize
  writeInt gpage 16 (groupPageHeaderSize + metadata_size)

/-- `TableFileInit`: the pages, unless something fails. -/
def tableFileInit (results : FileResults)
    (tableDef : List UInt8) : Option (Option TblInfo) := do
  let (mainHead, tableInfo) ← tableFileMainInit newPage tableDef
  if results.openMain && results.readMain then
    let groupHead ← tableFileGroupInit tableInfo mainHead
    return if results.writeMain && results.writeGroup then
      some ⟨tableDef, tableInfo, mainHead, groupHead⟩ else none
  else return none

/-- `CreateTblInfo`, from the metadata in the buffer: the new table, or NULL. -/
def createTblInfo (results : FileResults) (objectId : BitVec 32) (tblList : List TblInfo)
    (pagebuffer : Block) :
    Option (Option TblInfo) := do
  let name ← readBlock pagebuffer (pageDataHeaderSize + 8) nameMaxLen
  if (findTblInfo tblList (cString name)).isSome then return none
  else
    let colNum ← readInt pagebuffer (pageDataHeaderSize + (tableMetaInfoSize - 4))
    let tblDef ← readBlock pagebuffer pageDataHeaderSize (metadataSize colNum)
    if results.createMain && results.createGroup then
      tableFileInit newPage results (Bytes.ofNat 4 objectId.toNat ++ tblDef.drop 4)
    else return none

/-- `ExecCreateTable`: what it returns, and the tables of the dictionary. -/
def execCreateTable (results : FileResults) (objectId : BitVec 32) (stmt : CreateStmt)
    (tblList : List TblInfo) :
    Option (Int × List TblInfo) := do
  let pagebuffer ← writeBlock newBuffer (pageDataHeaderSize + 8) (nameText stmt.tableName)
  let pagebuffer ← writeInt pagebuffer (pageDataHeaderSize + 4) tableType
  match ← columnInfo stmt.colList 0 pagebuffer with
  | none => return (-1, tblList)
  | some pagebuffer =>
    let pagebuffer ← writeInt pagebuffer
        (pageDataHeaderSize + (tableMetaInfoSize - 4)) stmt.colList.length
    match ← createTblInfo newPage results objectId tblList pagebuffer with
    | none => return (-1, tblList)
    | some tblInfo => return (0, tblInfo :: tblList)

end Create

/-- `TableInfoInit`: the metadata in the head page of the main file. -/
def tableInfoInit (page : Block) : Option (List UInt8) := do
  let colNum ← readInt page (pageDataHeaderSize + (tableMetaInfoSize - 4))
  readBlock page pageDataHeaderSize (metadataSize colNum)

end Toadb.ExecTable
