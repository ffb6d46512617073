/-
Toadb.Storage.TableFile — the pages of a table and the update of one column
(`ExtensionTbl`, `GetSpaceSpecifyPage` of `buffer.c`, `pax_ExecUpdate`,
`pax_ExecDelete`, and the version walk of `undopage.c`).

In PAX storage every column of a group has a data page of its own. A data page
has two chains of pages behind it, linked at the head: undo pages, which
receive the superseded versions, and extension pages, which receive new
versions that no longer fit. Both locks of `pax_ExecUpdate` are held from the
version test to the last write, so that part is one function.
-/
import Toadb.Storage.Page
import Toadb.Transaction.Snapshot

namespace Toadb

/-! ## Files -/

/-- The main fork of a table: `pageCnt` of the head page, and the pages. -/
structure TableFile where
  pageCnt : Nat
  page : Nat → Option PageDataHeader

/-- Where the rows of a page start; a page to come is empty. -/
def TableFile.dataEnd (f : TableFile) (no : Nat) : Int :=
  match f.page no with
  | some page => page.dataEndOffset
  | none => pageMaxSize

/-- Overwrite one page. -/
def TableFile.set (f : TableFile) (pageno : Nat) (page : PageDataHeader) : TableFile :=
  { f with page := Function.update f.page pageno (some page) }

/-- `GetPageByIndex`. -/
def getPageByIndex (f : TableFile) (index : Nat) : Option PageDataHeader :=
  if index = invalidPageNum then none else f.page index

/-- `ExtensionTbl`: `num` empty pages; the last one has the number `pageCnt`. -/
def extensionTbl : Nat → TableFile → TableFile
  | 0, f => f
  | num + 1, f =>
      let pageNum := f.pageCnt + 1
      extensionTbl num ({ f with pageCnt := pageNum }.set pageNum (initPage pageNum))

/-! ## Space -/

/-- The head of the chain of extension or of undo pages. -/
def PageDataHeader.chain (page : PageDataHeader) (pageType : PageType) : Nat :=
  if pageType = .extData then page.extPage else page.undoPage

/-- Overwrite the head of a chain. -/
def PageDataHeader.setChain (page : PageDataHeader) (pageType : PageType) (pageno : Nat) :
    PageDataHeader :=
  if pageType = .extData then { page with extPage := pageno }
    else { page with undoPage := pageno }

/-- The end of `GetSpaceSpecifyPage`: a new page becomes the head of the chain. -/
def extendChain (f : TableFile) (pageType : PageType) (firstno : Nat)
    (firstpage : PageDataHeader) :
    Nat × TableFile :=
  let f := extensionTbl 1 f
  let extpage := { initPage f.pageCnt with pageType := pageType }
  (f.pageCnt,
    (f.set f.pageCnt (extpage.setChain pageType (firstpage.chain pageType))).set firstno
    (firstpage.setChain pageType f.pageCnt))

/-- The second round of the search of `GetSpaceSpecifyPage`: only the head of
the chain is tested. -/
def searchChain (f : TableFile) (size : Nat) (pageType : PageType) (firstno : Nat)
    (firstpage : PageDataHeader) : Option Nat × TableFile :=
  match getPageByIndex f (firstpage.chain pageType) with
  | none =>
      let (extno, f) := extendChain f pageType firstno firstpage
      (some extno, f)
  | some page =>
      if page.pageType ≠ pageType then (none, f)
      else if hasFreeSpace page size then (some (firstpage.chain pageType), f)
      else
        let (extno, f) := extendChain f pageType firstno firstpage
        (some extno, f)

/-- `GetSpaceSpecifyPage` for an existing start page and `PAGE_NEW`: the page
found, or nothing. -/
def getSpaceSpecifyPage (f : TableFile) (size startPageIndex : Nat) (pageType : PageType) :
    Option Nat × TableFile :=
  if size + pageDataHeaderSize ≥ pageMaxSize then (none, f)
  else
    match getPageByIndex f startPageIndex with
    | none => (none, f)
    | some firstpage =>
        -- The start page of an undo search is the data page, whatever its type.
        if pageType = .undo then searchChain f size .undo startPageIndex firstpage
        else if firstpage.pageType ≠ pageType then (none, f)
        else if hasFreeSpace firstpage size then (some startPageIndex, f)
        else if pageType = .data then searchChain f size .extData startPageIndex firstpage
        else
          let (extno, f) := extendChain f pageType startPageIndex firstpage
          (some extno, f)

/-! ## Updating a column -/

/-- `HeapItemData`: where an item was found, and a copy of it. -/
structure HeapItemData where
  pageno : Nat
  itemOffset : Int
  itemData : ItemData
  deriving DecidableEq, Repr

/-- What one round of the loop of `pax_ExecUpdate` works on: the old value and
the size of the whole old row it came with, the position and the new value. -/
structure ColumnUpdate where
  old : RowColumnData
  oldRowSize : Nat
  headItem : HeapItemData
  row : RowColumnData
  deriving DecidableEq, Repr

/-- The old version as it is copied to the undo page. -/
def ColumnUpdate.undoRow (u : ColumnUpdate) (curr : Nat) : RowColumnData :=
  { u.old with headerData := (computeXmaxTupleHeader curr
      ⟨0, 0, 0, 0, RowPosition.none⟩ u.old.headerData).2 }

/-- The new version, with the position of the copy. -/
def ColumnUpdate.newRow (u : ColumnUpdate) (curr : Nat)
    (undo : RowPosition) : RowColumnData :=
  { u.row with headerData :=
    { (computeXmaxTupleHeader curr ⟨0, 0, 0, 0, RowPosition.none⟩ u.old.headerData).1 with
      undo := undo } }

/-- The new version is written: in place, elsewhere on the page, or on an
extension page behind a redirect item. -/
def writeNewRow (f : TableFile) (u : ColumnUpdate)
    (newRow : RowColumnData) : Bool × TableFile :=
  match f.page u.headItem.pageno with
  | none => (false, f)
  | some originPage =>
      if newRow.size ≤ u.old.size then
        (true, f.set u.headItem.pageno
          (replaceRowData originPage newRow u.headItem.itemData.offset))
      else
        let rowSize := newRow.size + itemSize
        match getSpaceSpecifyPage f rowSize originPage.pageNum .data with
        | (none, f) => (false, f)
        | (some newno, f) =>
            match f.page u.headItem.pageno, f.page newno with
            | some originPage, some newRowPage =>
                if newRowPage.pageNum = originPage.pageNum then
                  (true, f.set u.headItem.pageno
                    (relocateRow originPage u.headItem.itemOffset newRow rowSize))
                else
                  let (newRowPage, rowPos) := writeRowOnePage newRowPage newRow
                  (true, (f.set newno newRowPage).set u.headItem.pageno
                    (redirectItem originPage u.headItem.itemOffset rowPos))
            | _, _ => (false, f)

/-- `pax_ExecUpdate` under the locks of the data page and the undo page: the
test, the copy to the undo page, the new version. -/
def updateLocked (curr : Nat) (u : ColumnUpdate) (undono : Nat) (f : TableFile) :
    Bool × TableFile :=
  match f.page undono with
  | none => (false, f)
  | some undoPage =>
      if tupleUpdateSatisfy curr u.old.headerData ≠ .ok then (false, f)
      else
        let (undoPage, rowPos) := writeRowOnePage undoPage (u.undoRow curr)
        writeNewRow (f.set undono undoPage) u (u.newRow curr rowPos)

/-- The undo page `pax_ExecUpdate` asks for before it locks. -/
def undoSpace (u : ColumnUpdate) (f : TableFile) : Option Nat × TableFile :=
  match getPageByIndex f u.headItem.pageno with
  | none => (none, f)
  | some originPage =>
    getSpaceSpecifyPage f (itemSize + u.oldRowSize) originPage.pageNum .undo

/-- `pax_ExecUpdate` on one column, by a worker that is not interrupted. -/
def paxExecUpdate (curr : Nat) (u : ColumnUpdate) (f : TableFile) : Bool × TableFile :=
  match undoSpace u f with
  | (none, f) => (false, f)
  | (some undono, f) => updateLocked curr u undono f

/-! ## Reading a row -/

/-- `GetRowDataFromPageByIndexEx`. -/
def rowByIndex (f : TableFile) (pageno : Nat) (itemOffset : Int) : Option RowColumnData :=
  (getPageByIndex f pageno).bind fun page => getRowDataFromPageByIndexEx page itemOffset

/-- One round of `CurrentReadVersion`: the version at an undo position. -/
def readUndoVersion (f : TableFile) (pos : RowPosition) : Option RowColumnData :=
  (getPageByIndex f pos.pageIndex.pageno).bind fun page =>
    let itemOffset := itemOffsetOfIndex pos.itemIndex
    if itemEndCheck page itemOffset || !(page.item itemOffset).valid then none
    else readRowData page.bytes (page.item itemOffset).offset

/-! ## The update of one row

The assigned columns of a row are written one after the other, each on the
page of its own group. The loop ends at the first column that is refused; it
keeps no record of the columns it has written before. -/

/-- The loop of `pax_ExecUpdate` over the assigned columns. -/
def updateColumns (curr : Nat) : List ColumnUpdate → TableFile → Bool × TableFile
  | [], f => (true, f)
  | u :: us, f =>
      match paxExecUpdate curr u f with
      | (false, f) => (false, f)
      | (true, f) => updateColumns curr us f

/-- `pax_ExecUpdate` on a row; no assigned column is an error. -/
def paxExecUpdateRow (curr : Nat) (us : List ColumnUpdate)
    (f : TableFile) : Bool × TableFile :=
  if us = [] then (false, f) else updateColumns curr us f

end Toadb
