/-
Toadb.Storage.VersionRead — the version of a column a scan returns
(`CurrentReadVersion` of `undopage.c`, the body of the column loop of
`SeqScanNextColumnOpt`), and the buffers it keeps.

`CurrentReadVersion` gets every undo page from `ReadPage` and gives none back, so
the walk answers with the version it found and with the pages it has asked
for. `readPages` is what the buffer pool makes of such a list: a page that is
not held takes a buffer that is not, and when there is none, the clock sweep
of `AllocBuffer` goes on for ever.
-/
import Toadb.Storage.TableFile
import Mathlib.Data.Finset.Basic

namespace Toadb

/-! ## Versions -/

/-- `CurrentReadVersion` from an undo position on, `fuel` rounds of its loop at
most: the version, and the pages asked for. -/
def currentReadVersion (f : TableFile) (curr : Nat) (snapshot : SnapShotInfo) :
    Nat → RowPosition → Option (Option RowColumnData × List Nat)
  | 0, _ => none
  | fuel + 1, olderRowPos =>
      let pageno := olderRowPos.pageIndex.pageno
      if pageno = invalidPageNum then some (none, [])
      else
        match readUndoVersion f olderRowPos with
        | none => some (none, [pageno])
        | some rowData =>
            if tupleVisibilitySatisfy curr rowData.headerData (some snapshot) =
              .tupleVisible then
              some (some rowData, [pageno])
            else
              (currentReadVersion f curr snapshot fuel rowData.headerData.undo).map
                fun (found, pages) => (found, pageno :: pages)

/-- What the column loop of `SeqScanNextColumnOpt` makes of the row it has got. -/
def readVersion (f : TableFile) (curr : Nat) (snapshot : SnapShotInfo) (fuel : Nat)
    (row : RowColumnData) : Option (Option RowColumnData × List Nat) :=
  if tupleVisibilitySatisfy curr row.headerData (some snapshot) = .tupleVisible then
    some (some row, [])
  else currentReadVersion f curr snapshot fuel row.headerData.undo

/-! ## Buffers -/

/-- The buffer pool as one reader finds it: the pages of the table that are
held, and how many buffers are not held by anyone. -/
structure PagePool where
  pinned : Finset Nat
  room : Nat

/-- `ReadPage`, with the buffers it leaves; nothing when it does not return. A
page that is not in the file needs a buffer too, but gives it back. -/
def readPage (f : TableFile) (pool : PagePool) (pageno : Nat) : Option PagePool :=
  if pageno ∈ pool.pinned then some pool
  else if pool.room = 0 then none
  else if (f.page pageno).isNone then some pool
  else some ⟨insert pageno pool.pinned, pool.room - 1⟩

/-- One page after the other. -/
def readPages (f : TableFile) (pool : PagePool) (pages : List Nat) : Option PagePool :=
  pages.foldlM (readPage f) pool

/-- The scan at an item: the row `GetRowDataFromPageEx` stops at, in the version
the snapshot is shown. Nothing at all is a scan that does not come back. -/
def scanItem (f : TableFile) (curr : Nat) (snapshot : SnapShotInfo) (fuel : Nat)
    (pool : PagePool) (page : PageDataHeader) (itemOffset : Int) :
    Option (Option RowColumnData × PagePool) :=
  match rowOfItem page itemOffset with
  | none => some (none, pool)
  | some row =>
      (readVersion f curr snapshot fuel row).bind fun (found, pages) =>
        (readPages f pool pages).map fun pool => (found, pool)

end Toadb
