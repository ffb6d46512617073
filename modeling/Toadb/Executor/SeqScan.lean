/-
Toadb.Executor.SeqScan — the sequential scan of one table (`seqscan.c`,
`GetGroupInfo` and `GetGroupMemberPagesOpt` of `buffer.c`).

The group fork lists the groups of a table, and a group names the page of every
column. The scan goes from group to group; in a group it fetches the pages
of the columns it was asked for, and then it takes one row after the other,
each column from its own page.

What the scan keeps between two calls is `ScanPageInfo`. The functions have no
result when they run out of fuel — and when the walk over the members of a
group leaves the member array, for the code does not say what it reads there.
The buffers a version walk keeps are the business of `Storage/VersionRead.lean`
and are not counted here.
-/
import Toadb.Storage.VersionRead
import Toadb.Lib.Cursor

namespace Toadb

/-! ## Groups -/

/-- `GroupItem` with its member data: the page of each column, in column order.
`memNum` is always 1. -/
structure GroupItem where
  valid : Bool
  groupid : Nat
  member : List Nat
  deriving DecidableEq, Repr

/-- The group fork: the items of its pages. -/
abbrev GroupFork := List (List GroupItem)

/-- `PAGE_HEAD_PAGE_NUM + 1`: the number of the first page with items. -/
def firstGroupPage : Nat := 2

/-- The `SearchPageInfo` of the group search. `page` says whether the page
pointer is set; then it is page `pageNum`. -/
structure GroupSearch where
  page : Bool
  pageNum : Nat
  item : Nat
  groupId : Nat
  deriving DecidableEq, Repr

/-- The next valid item of a page, and its index. -/
def nextGroupItem : List GroupItem → Nat → Option (GroupItem × Nat)
  | [], _ => none
  | item :: items, index =>
      if item.valid then some (item, index) else nextGroupItem items (index + 1)

/-- The loop of `GetGroupInfo`, over the pages from number `pageNum` on. -/
def searchGroupPages : GroupFork → Nat → Nat → GroupSearch → Option GroupItem × GroupSearch
  | [], _, _, searchInfo => (none, { searchInfo with page := false })
  | items :: pages, pageNum, start, searchInfo =>
      match nextGroupItem (items.drop start) start with
      | some (item, index) => (some item, ⟨true, pageNum, index, item.groupid⟩)
      | none => searchGroupPages pages (pageNum + 1) 0 { searchInfo with pageNum := pageNum }

/-- `GetGroupInfo`: the next valid item. -/
def getGroupInfo (groups : GroupFork) (searchInfo : GroupSearch) :
    Option GroupItem × GroupSearch :=
  let start := if searchInfo.page then searchInfo.item + 1 else 0
  searchGroupPages (groups.drop (searchInfo.pageNum - firstGroupPage))
    searchInfo.pageNum start
    searchInfo

/-- What the walk over the members of a group comes to. -/
inductive MemberPages where
  | pages (pageList : List Nat)
  | missing
  | overrun
  deriving DecidableEq, Repr

/-- One page in front of the pages found behind it. -/
def MemberPages.cons (pageno : Nat) : MemberPages → MemberPages
  | .pages pageList => .pages (pageno :: pageList)
  | .missing => .missing
  | .overrun => .overrun

/-- The loop of `GetGroupMemberPagesOpt`: the members from column `colPageIndex`
on, and the columns still asked for. -/
def memberPages (f : TableFile) : List Nat → Nat → List Nat → MemberPages
  | [], _, _ => .overrun
  | _ :: _, _, [] => .missing
  | pageIndex :: member, colPageIndex, col :: cols =>
      if pageIndex = invalidPageNum then .missing
      else if colPageIndex = col then
        match getPageByIndex f pageIndex with
        | none => .missing
        | some _ =>
            if cols = [] then .pages [pageIndex]
            else (memberPages f member (colPageIndex + 1) cols).cons pageIndex
      else memberPages f member (colPageIndex + 1) (col :: cols)

/-- `GetGroupMemberPagesOpt` for the columns `colindexList`. -/
def getGroupMemberPagesOpt (f : TableFile) (group : GroupItem) (colindexList : List Nat) :
    MemberPages :=
  memberPages f group.member 0 colindexList

/-! ## The scan -/

/-- `ScanPageInfo`. `pageList` is empty when its pages are given back;
`searchPageList` is the `item_offset` of each column. -/
structure ScanPageInfo where
  groupPageInfo : GroupSearch
  colindexList : List Nat
  pageReset : Bool
  pageList : List Nat
  searchPageList : List Int
  deriving DecidableEq, Repr

/-- `InitScanPositionInfo` for a table of `colNum` columns. It refuses an empty
target list, and one that is longer than the table. -/
def initScanPositionInfo (colNum : Nat) (colindexList : List Nat) : Option ScanPageInfo :=
  if colindexList = [] ∨ colNum < colindexList.length then none
  else some ⟨⟨false, firstGroupPage, 0, 0⟩, colindexList, true, [],
    colindexList.map fun _ => 0⟩

/-- The flag of `SeqScanNextColumnOpt`. -/
inductive ScanFlag where
  | nextRow | endOfFile | ignoreInvisibilityColumns
  deriving DecidableEq, Repr

/-- The column loop of `SeqScanNextColumnOpt`, over the pages and their offsets:
the flag, the new offsets, and the columns of a row that is visible. -/
def scanColumns (f : TableFile) (curr : Nat) (snapshot : SnapShotInfo) (depth : Nat)
    (pageReset : Bool) :
    Bool → List (Nat × Int) → Option (ScanFlag × List Int × List RowColumnData)
  | ignore, [] => some (if ignore then .ignoreInvisibilityColumns else .nextRow, [], [])
  | ignore, (pageno, itemOffset) :: rest =>
      let itemOffset := if pageReset then 0 else itemOffset
      match (f.page pageno).bind fun page => getRowDataFromPageEx page itemOffset with
      | none => some (.endOfFile, itemOffset :: rest.map Prod.snd, [])
      | some (found, none) => some (.endOfFile, found :: rest.map Prod.snd, [])
      | some (found, some row) =>
          if ignore then
            (scanColumns f curr snapshot depth pageReset true rest).map
              fun (flag, offsets, row) => (flag, found :: offsets, row)
          else
            match readVersion f curr snapshot depth row with
            | none => none
            | some (none, _) =>
                (scanColumns f curr snapshot depth pageReset true rest).map
                  fun (flag, offsets, row) => (flag, found :: offsets, row)
            | some (some version, _) =>
                (scanColumns f curr snapshot depth pageReset false rest).map
                  fun (flag, offsets, row) => (flag, found :: offsets, version :: row)

/-- `SeqScanNextColumnOpt`: the next visible row of the group. -/
def seqScanNextColumnOpt (f : TableFile) (curr : Nat)
    (snapshot : SnapShotInfo) (depth : Nat) :
    Nat → ScanPageInfo → Option (Option (List RowColumnData) × ScanPageInfo)
  | 0, _ => none
  | fuel + 1, info =>
      if info.pageList = [] then some (none, { info with pageReset := false })
      else
        match scanColumns f curr snapshot depth info.pageReset false
            (info.pageList.zip info.searchPageList) with
        | none => none
        | some (flag, offsets, row) =>
            let info := { info with searchPageList := offsets, pageReset := false }
            match flag with
            | .endOfFile => some (none, info)
            | .ignoreInvisibilityColumns =>
              seqScanNextColumnOpt f curr snapshot depth fuel info
            | .nextRow => some (some row, info)

/-- What `SeqscanNext` makes of the next group. -/
inductive NextGroup where
  | found (info : ScanPageInfo)
  | done (info : ScanPageInfo)
  | overrun
  deriving DecidableEq, Repr

/-- The first half of the loop of `SeqscanNext`. -/
def nextGroup (f : TableFile) (groups : GroupFork) (info : ScanPageInfo) : NextGroup :=
  match getGroupInfo groups info.groupPageInfo with
  | (none, groupPageInfo) => .done { info with groupPageInfo := groupPageInfo }
  | (some group, groupPageInfo) =>
      let info := { info with groupPageInfo := groupPageInfo }
      match getGroupMemberPagesOpt f group info.colindexList with
      | .overrun => .overrun
      | .missing => .done { info with pageList := [] }
      | .pages pageList => .found { info with pageReset := true, pageList := pageList }

/-- The loop of `SeqscanNext`; `found` is its local variable. -/
def seqscanLoop (f : TableFile) (groups : GroupFork) (curr : Nat) (snapshot : SnapShotInfo)
    (depth : Nat) : Nat → Bool → ScanPageInfo →
      Option (Option (List RowColumnData) × ScanPageInfo)
  | 0, _, _ => none
  | fuel + 1, found, info =>
      match if found then .found info else nextGroup f groups info with
      | .overrun => none
      | .done info => some (none, info)
      | .found info =>
          match seqScanNextColumnOpt f curr snapshot depth depth info with
          | none => none
          | some (some row, info) => some (some row, info)
          | some (none, info) =>
              seqscanLoop f groups curr snapshot depth fuel false { info with pageList := [] }

/-- `SeqscanNext`. -/
def seqscanNext (f : TableFile) (groups : GroupFork) (curr : Nat) (snapshot : SnapShotInfo)
    (fuel : Nat) (info : ScanPageInfo) :
    Option (Option (List RowColumnData) × ScanPageInfo) :=
  seqscanLoop f groups curr snapshot fuel fuel (!info.pageReset) info

/-- All rows of a table: the scan, called until it returns no row. Without a
position there is none. -/
def scanTable (f : TableFile) (groups : GroupFork) (curr : Nat) (snapshot : SnapShotInfo)
    (colNum : Nat) (colindexList : List Nat) (fuel : Nat) :
    Option (List (List RowColumnData)) :=
  match initScanPositionInfo colNum colindexList with
  | none => some []
  | some info => (Cursor.collect (seqscanNext f groups curr snapshot) fuel info).map Prod.fst

end Toadb
