/-
Toadb.Executor.PaxInsert — the insert of one row (`pax_ExecInsert` of `execModifyTable.c`, and
the search for space and the group file of `buffer.c`).

A table has a main file, whose pages belong to columns, and a group file. The insert

  * looks for a group whose pages all have room for their column of the row
    (`getSpaceGroupPage`). It starts where the insert of the row before has stopped;
  * adds one page for each column, and records them as a new group, when the search has come
    to the end (`extensionTbl`, `insertGroupItem`);
  * locks the pages and tests their space once more (`insertRowDataWithGroup`). When that
    fails it starts again.

One worker runs alone, so locks and pins are left out, and every page that exists is read. The
loops have a fuel; no result is "not enough fuel". A page that is NULL and used all the same
is a crash.
-/
import Toadb.Executor.SeqScan
import Toadb.Storage.Extend

namespace Toadb

/-! ## The group file -/

/-- `GetItemSize` of a group item: for each column `sizeof(MemberData)` and
`sizeof(PageOffset)`. -/
def GroupItem.size (item : GroupItem) : Nat := item.member.length * (8 + 8)

/-- `dataOffset` of a page of the group file; a group item has the size of an item. -/
def groupDataOffset (items : List GroupItem) : Int :=
  pageDataHeaderSize + items.length * itemSize

/-- `dataEndOffset` of a page of the group file. -/
def groupDataEndOffset (items : List GroupItem) : Int :=
  pageMaxSize - (items.map GroupItem.size).sum

/-- `HasFreeSpace` on a page of the group file. -/
def hasFreeGroupSpace (items : List GroupItem) (size : Nat) : Bool :=
  decide ((size : Int) < groupDataEndOffset items - groupDataOffset items)

/-- The definition and the files of a table; `groupId` is that of the newest group. -/
structure PaxTable where
  colNum : Nat
  file : TableFile
  groups : GroupFork
  groupId : Nat

/-- `GetSpacePage` on the group file: the index of the page, from the first page with groups
on. -/
def PaxTable.getSpacePage (t : PaxTable) (size : Nat) : Option (Nat × PaxTable) :=
  if size + pageDataHeaderSize ≥ pageMaxSize then none
  else
    match t.groups.findIdx? (hasFreeGroupSpace · size) with
    | some i => some (i, t)
    | none => some (t.groups.length, { t with groups := t.groups ++ [[]] })

/-- `InsertGroupItem`; without a page for the item it crashes. -/
def PaxTable.insertGroupItem (t : PaxTable) (lastpage : PageDataHeader) : Option PaxTable :=
  match groupMembers lastpage t.colNum with
  | none => some t
  | some members =>
      let item : GroupItem := ⟨true, t.groupId + 1, members⟩
      let t := { t with groupId := item.groupid }
      (t.getSpacePage (itemSize + item.size)).map fun (i, t) =>
        { t with groups := t.groups.modify i (· ++ [item]) }

/-! ## Space in a group -/

/-- `GetFreeSpaceMemberPage`: the page of a column. -/
def getFreeSpaceMemberPage (f : TableFile) (size : Nat) (item : GroupItem)
    (colIndex : Nat) : Option Nat :=
  (item.member[colIndex]?).bind fun pageIndex =>
    match getPageByIndex f pageIndex with
    | some page => if hasFreeSpace page size then some pageIndex else none
    | none => none

/-- The pages of a group for the columns of a row, if all of them have space. -/
def freeSpaceMemberPages (f : TableFile) (item : GroupItem)
    (insertdata : List NewRow) : Option (List Nat) :=
  insertdata.mapM fun col =>
    getFreeSpaceMemberPage f (col.1.size + columnRowHeaderSize) item col.1.attrindex

/-- `ScanPageInfo`, as far as an insert uses it. -/
structure InsertScanInfo where
  groupItem : GroupItem
  searchPage : GroupSearch
  pageListNum : Nat
  isNoSpace : Bool
  deriving DecidableEq, Repr

/-- What `InitExecNodeModifyTbl` sets up. -/
def InsertScanInfo.init (pageListNum : Nat) : InsertScanInfo :=
  ⟨⟨false, 0, []⟩, ⟨false, firstGroupPage, 0, 0⟩, pageListNum, true⟩

/-- `GetSpaceGroupPage`: the pages that were found, if any. -/
def getSpaceGroupPage (t : PaxTable) (insertdata : List NewRow) :
    Nat → InsertScanInfo → Option (Option (List Nat) × InsertScanInfo)
  | 0, _ => none
  | fuel + 1, scanInfo =>
      -- The group that had space for the last row is tried first.
      let (found, scanInfo) :=
        if scanInfo.isNoSpace then
          match getGroupInfo t.groups scanInfo.searchPage with
          | (some groupItem, searchPage) =>
              (true, { scanInfo with groupItem := groupItem, searchPage := searchPage,
                                     isNoSpace := false })
          | (none, searchPage) => (false, { scanInfo with searchPage := searchPage })
        else (true, scanInfo)
      if found then
        match freeSpaceMemberPages t.file scanInfo.groupItem insertdata with
        | some pageList => some (some pageList, scanInfo)
        | none => getSpaceGroupPage t insertdata fuel { scanInfo with isNoSpace := true }
      else some (if insertdata = [] then some [] else none, scanInfo)

/-! ## The insert -/

/-- `ESTAT_SUCESS`, which an insert returns. -/
def estatSucess : Int := 1

/-- `InsertRowDataWithGroup`; nothing, for `ESTAT_NO_SPACE`, when there is no space any
more. -/
def insertRowDataWithGroup (curr : Nat) (f : TableFile)
    (cols : List (Nat × NewRow)) : Option TableFile :=
  if freeSpaceCheck f cols then some (cols.foldl (insertColumn curr) f) else none

/-- How `pax_ExecInsert` ends. -/
inductive InsertEnd where
  | returns (ret : Int) (t : PaxTable) (scanInfo : InsertScanInfo)
  | crashes

/-- `pax_ExecInsert` from `RETRY` on. -/
def paxInsertRetry (curr : Nat) (insertdata : List NewRow) :
    Nat → PaxTable → InsertScanInfo → Option InsertEnd
  | 0, _, _ => none
  | fuel + 1, t, scanInfo =>
      match getSpaceGroupPage t insertdata fuel scanInfo with
      | none => none
      | some (some pageList, scanInfo) =>
          match insertRowDataWithGroup curr t.file (pageList.zip insertdata) with
          | some file => some (.returns estatSucess { t with file := file } scanInfo)
          | none => paxInsertRetry curr insertdata fuel t scanInfo
      | some (none, scanInfo) =>
          if t.colNum = 0 ∨ pageExtensionMaxNum < t.colNum then
            some (.returns (-1) t scanInfo)
          else
            let t := { t with file := extensionTbl t.colNum t.file }
            match getPageByIndex t.file t.file.pageCnt with
            | none => some (.returns (-1) t scanInfo)
            | some lastpage =>
                match t.insertGroupItem lastpage with
                | none => some .crashes
                | some t => paxInsertRetry curr insertdata fuel t scanInfo

/-- `pax_ExecInsert`. -/
def paxExecInsert (fuel curr : Nat) (t : PaxTable) (scanInfo : InsertScanInfo)
    (insertdata : List NewRow) :
    Option InsertEnd :=
  if scanInfo.pageListNum < insertdata.length then some (.returns (-1) t scanInfo)
  else paxInsertRetry curr insertdata fuel t scanInfo

end Toadb
