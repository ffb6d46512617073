/-
Toadb.Storage.Page — a table page and the writes to one (`tablecom.h`,
`InsertRowData`, `InsertItemData`, `ReplaceRowData` of `tables.c`,
`InitPage`, `WriteRowOnePage` of `buffer.c`).

A page is its header, the array of items that grows up from the header, and
the row bytes that grow down from the end. Offsets are from the start of the
page, and `item` is indexed by the offset of the item. The array and the
row bytes are kept apart, which is what the page layout is about: they share
no byte as long as `dataOffset <= dataEndOffset`.
-/
import Toadb.Storage.RowData
import Mathlib.Logic.Function.Basic

namespace Toadb

open Bytes

/-! ## Items and pages -/

/-- `ItemData`. `len` is split into its two flag bits and its 28 size bits. For a
redirect item `offset` is a page number and `size` an item index. -/
structure ItemData where
  offset : Int
  valid : Bool
  redirect : Bool
  size : Nat
  deriving DecidableEq, Repr

/-- `PageType`. -/
inductive PageType where
  | header | data | extData | undo
  deriving DecidableEq, Repr

/-- `PageDataHeader` and the page behind it; of the two links the page numbers. -/
structure PageDataHeader where
  pageType : PageType
  pageNum : Nat
  dataOffset : Int
  dataEndOffset : Int
  undoPage : Nat
  extPage : Nat
  item : Int → ItemData
  bytes : Int → UInt8

/-- `InitPage`. -/
def initPage (pageNum : Nat) : PageDataHeader :=
  { pageType := .data
    pageNum := pageNum
    dataOffset := pageDataHeaderSize
    dataEndOffset := pageMaxSize
    undoPage := invalidPageNum
    extPage := invalidPageNum
    item := fun _ => ⟨0, false, false, 0⟩
    bytes := fun _ => 0 }

/-- `HasFreeSpace`. -/
def hasFreeSpace (page : PageDataHeader) (size : Nat) : Bool :=
  decide ((size : Int) < page.dataEndOffset - page.dataOffset)

/-- `ITEM_END_CHECK`. -/
def itemEndCheck (page : PageDataHeader) (itemOffset : Int) : Bool :=
  decide (page.dataOffset ≤ itemOffset)

/-- The offset of `GET_ITEM_BY_INDEX`. -/
def itemOffsetOfIndex (index : Nat) : Int := pageDataHeaderSize + index * itemSize

/-- `GET_CUR_ITEM_INDEX`. -/
def getCurItemIndex (itemOffset : Int) : Nat :=
  ((itemOffset - pageDataHeaderSize) / itemSize).toNat

/-- `GET_ITEM_INDEX`: the index after the last item. -/
def getItemIndex (page : PageDataHeader) : Nat := getCurItemIndex page.dataOffset

/-! ## Writes -/

/-- `ReplaceRowData`. -/
def replaceRowData (page : PageDataHeader) (row : RowColumnData) (offset : Int) :
    PageDataHeader :=
  { page with bytes := write page.bytes offset row.toBytes }

/-- `InsertRowData`: the row goes below the last one. The item is the one
`WriteRowOnePage` marks valid. -/
def insertRowData (page : PageDataHeader) (row : RowColumnData) : PageDataHeader × ItemData :=
  let item : ItemData := ⟨page.dataEndOffset - row.size, true, false, row.size⟩
  (replaceRowData page row item.offset, item)

/-- `InsertItemData`. -/
def insertItemData (page : PageDataHeader) (item : ItemData) : PageDataHeader :=
  { page with
    item := Function.update page.item page.dataOffset item
    dataOffset := page.dataOffset + itemSize
    dataEndOffset := item.offset }

/-- `WriteRowOnePage`, with the position it stores in the row. -/
def writeRowOnePage (page : PageDataHeader) (row : RowColumnData) :
    PageDataHeader × RowPosition :=
  let (page, item) := insertRowData page row
  let page := insertItemData page item
  (page, ⟨⟨0, page.pageNum⟩, getItemIndex page - 1⟩)

/-- The writes of `pax_ExecUpdate` that move a row to the free space of its own
page; `rowSize` bytes are taken for it. -/
def relocateRow (page : PageDataHeader) (itemOffset : Int)
    (row : RowColumnData) (rowSize : Nat) :
    PageDataHeader :=
  let offset := page.dataEndOffset - rowSize
  replaceRowData
    { page with
      item := Function.update page.item itemOffset
        { page.item itemOffset with offset := offset }
      dataEndOffset := offset } row offset

/-- The writes of `pax_ExecUpdate` that turn an item into a redirect item. -/
def redirectItem (page : PageDataHeader) (itemOffset : Int) (rowPos : RowPosition) :
    PageDataHeader :=
  { page with
    item := Function.update page.item itemOffset
      { page.item itemOffset with
        redirect := true
        offset := rowPos.pageIndex.pageno
        size := rowPos.itemIndex } }

/-! ## Reads -/

/-- `GetRowDataFromExtPageEx`. -/
def getRowDataFromExtPageEx (page : PageDataHeader)
    (itemIndex : Nat) : Option RowColumnData :=
  if page.pageType ≠ .extData then none
  else
    let itemOffset := itemOffsetOfIndex itemIndex
    if !itemEndCheck page itemOffset && (page.item itemOffset).valid then
      readRowData page.bytes (page.item itemOffset).offset
    else none

/-- What both row readers do with a valid item. -/
def rowOfItem (page : PageDataHeader) (itemOffset : Int) : Option RowColumnData :=
  if (page.item itemOffset).redirect then
    getRowDataFromExtPageEx page (getCurItemIndex itemOffset)
  else readRowData page.bytes (page.item itemOffset).offset

/-- The search of `GetRowDataFromPageEx` for the next valid item. -/
def nextValidItem (page : PageDataHeader) : Nat → Int → Option Int
  | 0, _ => none
  | fuel + 1, itemOffset =>
      if itemEndCheck page itemOffset then none
      else if (page.item itemOffset).valid then some itemOffset
      else nextValidItem page fuel (itemOffset + itemSize)

/-- `GetRowDataFromPageEx`: `itemOffset` is where the last search stopped, 0 at
the start. The result is the new stop and the row. -/
def getRowDataFromPageEx (page : PageDataHeader) (itemOffset : Int) :
    Option (Int × Option RowColumnData) :=
  let start := if itemOffset > 0 then itemOffset + itemSize else pageDataHeaderSize
  (nextValidItem page (page.dataOffset - start).toNat start).map fun found =>
    (found, rowOfItem page found)

/-- `GetRowDataFromPageByIndexEx` on a page. -/
def getRowDataFromPageByIndexEx (page : PageDataHeader) (itemOffset : Int) :
    Option RowColumnData :=
  if itemOffset > 0 && !itemEndCheck page itemOffset && (page.item itemOffset).valid then
    rowOfItem page itemOffset
  else none

end Toadb
