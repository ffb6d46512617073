/-
Toadb.Executor.TableStore — the calls of `pax_ExecModifyTable` on one table, one after the
other.

The rows of an INSERT statement share what the search for space has found
(`InitExecNodeModifyTbl` sets it up again for each statement). An UPDATE hands each assigned
column to `pax_ExecUpdate`, with the version the scan has read and the copy of its item; so
does a DELETE with `pax_ExecDelete`.

`StoreCall.change` says what a call is for: as a change of a table of versions
(`Lib/VersionedTable.lean`). Each cell of such a table stands at an item of a page. An insert
chooses the items, which are read off the store it leaves (`TableStore.lastRow`).
-/
import Toadb.Executor.PaxInsert
import Toadb.Transaction.SnapshotTheorems
import Toadb.Lib.VersionedTable

namespace Toadb

open VersionedTable

/-- A table, and what an INSERT statement keeps from row to row. -/
structure TableStore where
  table : PaxTable
  scanInfo : InsertScanInfo

/-- A call, and the transaction it is made in. -/
inductive StoreCall where
  | startInsert (pageListNum : Nat)
  | insert (curr : Xtid) (row : List NewRow)
  | update (curr : Xtid) (u : ColumnUpdate)
  | delete (curr : Xtid) (col : FetchedColumn)

/-- The table with another file. -/
def TableStore.setFile (s : TableStore) (file : TableFile) : TableStore :=
  { s with table := { s.table with file := file } }

/-- A call: whether it reports success (`ExecTableModifyTbl` tests `opRet < 0`), and what it
leaves. There is no result when the insert does not end, or crashes. -/
def storeStep (fuel : Nat) (s : TableStore) : StoreCall → Option (Bool × TableStore)
  | .startInsert pageListNum => some (true, { s with scanInfo := .init pageListNum })
  | .insert curr row =>
      match paxExecInsert fuel curr s.table s.scanInfo row with
      | some (.returns ret table scanInfo) => some (decide (0 ≤ ret), ⟨table, scanInfo⟩)
      | _ => none
  | .update curr u =>
      let (done, file) := paxExecUpdate curr u s.table.file
      some (done, s.setFile file)
  | .delete curr col =>
      let (done, file) := paxExecDelete curr col s.table.file
      some (done, s.setFile file)

/-! ## What the calls are for -/

/-- The value of a column: its index and its data. -/
abbrev StoredValue := Nat × List UInt8

def RowColumnData.value (r : RowColumnData) : StoredValue := (r.attrindex, r.data)

/-- A stored version, without its place. -/
def RowColumnData.toVersion (r : RowColumnData) : Version Nat StoredValue :=
  ⟨r.headerData.tmin, if r.headerData.tmax = invalidXtid then none
    else some r.headerData.tmax, r.value⟩

/-- Where a column was found: the page and the item. -/
def HeapItemData.pos (headItem : HeapItemData) : Nat × Int :=
  (headItem.pageno, headItem.itemOffset)

/-- The last items of the pages of the group that the insert of a row has found. -/
def TableStore.lastRow (s : TableStore) : List (Nat × Int) :=
  s.scanInfo.groupItem.member.map fun no =>
    (no, (s.table.file.page no).elim 0 (·.dataOffset) - itemSize)

abbrev StoredChange := Change (Nat × Int) Nat StoredValue

/-- The change a call makes that leaves the store `s'`. -/
def StoreCall.change (s' : TableStore) : StoreCall → Option StoredChange
  | .startInsert _ => none
  | .insert curr row => some (.insert curr s'.lastRow (row.map fun col => col.1.value))
  | .update curr u => some (.write curr u.headItem.pos u.row.value)
  | .delete curr col => some (.delete curr col.headItem.pos)

/-- Whose work a snapshot shows. -/
def SnapShotInfo.Sees (snapshot : SnapShotInfo) (own x : Nat) : Prop :=
  x ≠ invalidXtid ∧ snapshot.CountsAsOver own x

instance (snapshot : SnapShotInfo) (own : Nat) : DecidablePred (snapshot.Sees own) :=
  fun x => inferInstanceAs (Decidable (x ≠ invalidXtid ∧ snapshot.CountsAsOver own x))

end Toadb
