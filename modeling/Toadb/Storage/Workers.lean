/-
Toadb.Storage.Workers — the workers that insert, update and delete rows of
one table (`pax_ExecInsert`, `pax_ExecUpdate`, `pax_ExecDelete`,
`InsertRowDataWithGroup`, and the fetch of `SeqScanNextColumnOpt` and
`GetColRowDataEx`).

A worker takes a page's lock, works and gives the lock back, so one step of
the system is one locked section. An update is cut into

    scan, walk     the row is read, then its older versions up to a visible one
    copyItem       the item is copied, without a lock
    undoSpace      GetSpaceSpecifyPage looks for an undo page
    update         test, copy to the undo page, new version

and a statement reads all columns of a row before it copies the first item, and
all items before it writes the first column.
The pages an insert works on are whatever `GetSpaceGroupPage` found before,
so they are left open. The lock table of a worker has room for eight locks:
an insert of more columns writes the rest without one, holding the eight.
-/
import Toadb.Lib.Transition
import Toadb.Lock.LocalLock
import Toadb.Storage.TableFile
import Toadb.Transaction.Control

namespace Toadb

/-! ## Allocations -/

/-- Record the space a step took off the free end of a page. -/
def setAside (rooms : Nat → Int → Nat) (f f' : TableFile) (no : Nat) (a : Int) : Nat :=
  if f'.dataEnd no < f.dataEnd no ∧ a = f'.dataEnd no then
    (f.dataEnd no - f'.dataEnd no).toNat
  else rooms no a

/-! ## Workers -/

/-- A column value that fits on a page. -/
abbrev NewRow := { row : RowColumnData // row.Fits }

/-- A transaction id other than the invalid one. -/
abbrev Xtid := { xid : Nat // xid < invalidXtid }

/-- A row copy, and where it was found. -/
structure FoundRow where
  pageno : Nat
  itemOffset : Int
  old : RowColumnData
  deriving DecidableEq, Repr

/-- A column that was fetched: the item copy and the row copy. -/
structure FetchedColumn where
  headItem : HeapItemData
  old : RowColumnData
  deriving DecidableEq, Repr

/-- Where a worker is. -/
inductive RowPhase where
  | ready
  /-- The version in hand is not visible; the next one is at `pos`. -/
  | walk (pageno : Nat) (itemOffset : Int) (pos : RowPosition)
  /-- `pax_ExecUpdate` before its two locks. -/
  | update (u : ColumnUpdate) (undono : Nat)
  /-- `InsertRowDataWithGroup` with the columns it has no lock for. -/
  | insertRest (locked : List Nat) (cols : List (Nat × NewRow))

/-- One worker: its transaction, its snapshot, the row copies without their items
and the fetched columns that are not written. -/
structure RowWorker where
  curr : Xtid
  snapshot : Option SnapShotInfo
  phase : RowPhase
  rows : List FoundRow
  cols : List FetchedColumn

/-- A version as a transaction wrote it. -/
structure RowVersion where
  tmin : Nat
  data : List UInt8
  deriving DecidableEq, Repr

/-- The version a stored row is. -/
def RowColumnData.version (r : RowColumnData) : RowVersion := ⟨r.headerData.tmin, r.data⟩

/-- The table and its workers. `rooms` and `written` are history variables that no
step reads: the space set aside at each address, and the versions written to
each row, the newest first. -/
structure TableSys (n : Nat) where
  file : TableFile
  workers : Fin n → RowWorker
  rooms : Nat → Int → Nat
  written : Nat → Int → List RowVersion

variable {n : Nat}

/-- Overwrite one worker. -/
def TableSys.setWorker (s : TableSys n) (w : Fin n) (k : RowWorker) : TableSys n :=
  { s with workers := Function.update s.workers w k }

/-- Overwrite the file. -/
def TableSys.setFile (s : TableSys n) (f : TableFile) : TableSys n :=
  { s with file := f, rooms := setAside s.rooms s.file f }

/-- Record a version of the row of item `o` of page `no`. -/
def TableSys.writeVersion (s : TableSys n) (no : Nat) (o : Int)
    (v : RowVersion) : TableSys n :=
  { s with written := fun no' o' =>
      if no' = no ∧ o' = o then v :: s.written no' o' else s.written no' o' }

@[simp] theorem TableSys.setWorker_self (s : TableSys n) (w : Fin n) (k : RowWorker) :
    (s.setWorker w k).workers w = k := Function.update_self ..

theorem TableSys.setWorker_of_ne (s : TableSys n) {w w' : Fin n}
    (k : RowWorker) (h : w' ≠ w) :
    (s.setWorker w k).workers w' = s.workers w' := Function.update_of_ne h ..

@[simp] theorem TableSys.setWorker_file (s : TableSys n) (w : Fin n) (k : RowWorker) :
    (s.setWorker w k).file = s.file := rfl

@[simp] theorem TableSys.setWorker_written (s : TableSys n) (w : Fin n) (k : RowWorker) :
    (s.setWorker w k).written = s.written := rfl

@[simp] theorem TableSys.setFile_file (s : TableSys n) (f : TableFile) :
    (s.setFile f).file = f := rfl

@[simp] theorem TableSys.setFile_workers (s : TableSys n) (f : TableFile) :
    (s.setFile f).workers = s.workers := rfl

@[simp] theorem TableSys.setFile_written (s : TableSys n) (f : TableFile) :
    (s.setFile f).written = s.written := rfl

/-- The pages whose lock a worker holds between two steps. -/
def RowWorker.locked (k : RowWorker) : List Nat :=
  match k.phase with
  | .insertRest locked _ => locked
  | _ => []

/-- No other worker holds the lock of page `no`. -/
def lockFree (s : TableSys n) (w : Fin n) (no : Nat) : Bool :=
  decide (∀ w', w' ≠ w → no ∉ (s.workers w').locked)

/-- Page `no` is a data page of the table. -/
def isDataPage (f : TableFile) (no : Nat) : Bool :=
  match getPageByIndex f no with
  | some page => page.pageType == .data
  | none => false

/-! ## Fetching a row -/

/-- A version was read: it is the one, or the next one is tried. -/
def judge (s : TableSys n) (w : Fin n) (no : Nat) (o : Int)
    (row : RowColumnData) : TableSys n :=
  let k := s.workers w
  if tupleVisibilitySatisfy k.curr row.headerData k.snapshot = .tupleVisible then
    s.setWorker w { k with phase := .ready, rows := k.rows ++ [⟨no, o, row⟩] }
  else s.setWorker w { k with phase := .walk no o row.headerData.undo }

/-- The scan reads an item of a data page (`GetRowDataFromPageEx`). -/
def scanRow (no index : Nat) (s : TableSys n) (w : Fin n) : Option (TableSys n) :=
  if isDataPage s.file no && lockFree s w no then
    match rowByIndex s.file no (itemOffsetOfIndex index) with
    | some row => some (judge s w no (itemOffsetOfIndex index) row)
    | none => some s
  else none

/-- One round of `CurrentReadVersion`. -/
def walkVersion (s : TableSys n) (w : Fin n) : Option (TableSys n) :=
  match (s.workers w).phase with
  | .walk no o pos =>
      match readUndoVersion s.file pos with
      | some row => some (judge s w no o row)
      | none => some (s.setWorker w { s.workers w with phase := .ready, rows := [] })
  | _ => none

/-- `GetRowDataFromPageByIndexEx` on a column the scan has not read. -/
def fetchRow (no index : Nat) (s : TableSys n) (w : Fin n) : Option (TableSys n) :=
  if isDataPage s.file no && lockFree s w no then
    match rowByIndex s.file no (itemOffsetOfIndex index) with
    | some row =>
        let k := s.workers w
        some (s.setWorker w { k with rows := k.rows ++ [⟨no, itemOffsetOfIndex index, row⟩] })
    | none => some s
  else none

/-- The item of the first row is copied. -/
def copyItem (s : TableSys n) (w : Fin n) : Option (TableSys n) :=
  let k := s.workers w
  match k.rows with
  | [] => none
  | row :: rows =>
      match s.file.page row.pageno with
      | some page =>
          let headItem : HeapItemData :=
            ⟨row.pageno, row.itemOffset, page.item row.itemOffset⟩
          some (s.setWorker w { k with rows := rows,
                                       cols := k.cols ++ [⟨headItem, row.old⟩] })
      | none => none

/-! ## Writing a row -/

/-- `pax_ExecUpdate` asks for an undo page; `others` is the size of the other
columns of the old row. -/
def findUndoPage (row : NewRow) (others : Nat) (s : TableSys n) (w : Fin n) :
    Option (TableSys n) :=
  let k := s.workers w
  match k.cols with
  | [] => none
  | col :: cols =>
      if lockFree s w col.headItem.pageno then
        let u : ColumnUpdate := ⟨col.old, col.old.size + others, col.headItem, row.1⟩
        match undoSpace u s.file with
        | (none, f) => some ((s.setFile f).setWorker w { k with cols := [] })
        | (some undono, f) =>
            some ((s.setFile f).setWorker w
              { k with phase := .update u undono, cols := cols })
      else none

/-- `pax_ExecUpdate` under its locks. -/
def updateRows (s : TableSys n) (w : Fin n) : Option (TableSys n) :=
  let k := s.workers w
  match k.phase with
  | .update u undono =>
      let no := u.headItem.pageno
      let o := u.headItem.itemOffset
      if lockFree s w no then
        match updateLocked k.curr u undono s.file with
        | (false, f) =>
          some ((s.setFile f).setWorker w { k with phase := .ready, cols := [] })
        | (true, f) =>
            some (((s.setFile f).writeVersion no o ⟨k.curr, u.row.data⟩).setWorker w
              { k with phase := .ready })
      else none
  | _ => none

/-- The row copy with its header stamped. -/
def deletedRow (curr : Nat) (old : RowColumnData) : RowColumnData :=
  { old with headerData := (computeXmaxTupleHeader curr TupleHeader.blank old.headerData).2 }

/-- `pax_ExecDelete` on one column: the row copy is written back. -/
def paxExecDelete (curr : Nat) (col : FetchedColumn) (f : TableFile) : Bool × TableFile :=
  match getPageByIndex f col.headItem.pageno with
  | none => (false, f)
  | some originPage =>
      if tupleUpdateSatisfy curr col.old.headerData ≠ .ok then (false, f)
      else
        (true, f.set col.headItem.pageno
          (replaceRowData originPage (deletedRow curr col.old) col.headItem.itemData.offset))

/-- `pax_ExecDelete`. -/
def deleteRow (s : TableSys n) (w : Fin n) : Option (TableSys n) :=
  let k := s.workers w
  match k.cols with
  | [] => none
  | col :: cols =>
      if lockFree s w col.headItem.pageno then
        match paxExecDelete k.curr col s.file with
        | (false, f) => some ((s.setFile f).setWorker w { k with cols := [] })
        | (true, f) => some ((s.setFile f).setWorker w { k with cols := cols })
      else none

/-! ## Inserting a row -/

/-- `sizeof(TableRowData) + sizeof(ItemData)`. -/
def columnRowHeaderSize : Nat := 8 + itemSize

/-- `FreeSpaceCheck`. -/
def freeSpaceCheck (f : TableFile) (cols : List (Nat × NewRow)) : Bool :=
  cols.all fun col =>
    match f.page col.1 with
    | some page => hasFreeSpace page (col.2.1.size + columnRowHeaderSize)
    | none => false

/-- A value stamped by the inserting transaction. -/
def insertedRow (curr : Nat) (row : RowColumnData) : RowColumnData :=
  { row with headerData := computeXminTupleHeader curr TupleHeader.blank }

/-- One round of the loop of `InsertRowDataWithGroup`. -/
def insertColumn (curr : Nat) (f : TableFile) (col : Nat × NewRow) : TableFile :=
  match f.page col.1 with
  | some page => f.set col.1 (writeRowOnePage page (insertedRow curr col.2.1)).1
  | none => f

/-- `InsertRowDataWithGroup` up to the columns it has locks for. -/
def insertRow (cols : List (Nat × NewRow)) (s : TableSys n)
    (w : Fin n) : Option (TableSys n) :=
  let k := s.workers w
  let (first, rest) := cols.splitAt maxLocalLockNum
  if (cols.map Prod.fst).Nodup ∧ cols.all (fun col => isDataPage s.file col.1) = true ∧
      first.all (fun col => lockFree s w col.1) = true then
    if freeSpaceCheck s.file cols then
      let s := s.setFile (first.foldl (insertColumn k.curr) s.file)
      some (if rest = [] then s
        else s.setWorker w { k with phase := .insertRest (first.map Prod.fst) rest })
    else some s
  else none

/-- One column more, without a lock. -/
def insertNext (s : TableSys n) (w : Fin n) : Option (TableSys n) :=
  let k := s.workers w
  match k.phase with
  | .insertRest locked (col :: rest) =>
      some ((s.setFile (insertColumn k.curr s.file col)).setWorker w
        { k with phase := if rest = [] then .ready else .insertRest locked rest })
  | _ => none

/-! ## The step function -/

/-- What a worker can be asked to do. -/
inductive RowCall where
  | statement (curr : Xtid) (snapshot : Option SnapShotInfo)
  | scan (no index : Nat)
  | walk
  | fetch (no index : Nat)
  | copyItem
  | undoSpace (row : NewRow) (others : Nat)
  | update
  | delete
  | insert (cols : List (Nat × NewRow))
  | insertNext
  | extend (num : Nat)

/-- A new statement, of the same transaction or another one. -/
def startStatement (curr : Xtid) (snapshot : Option SnapShotInfo)
    (s : TableSys n) (w : Fin n) :
    TableSys n :=
  s.setWorker w { s.workers w with curr := curr, snapshot := snapshot,
                                   rows := [], cols := [] }

/-- One locked section of one worker. -/
def tableStep (s : TableSys n) (a : Fin n × RowCall) : Option (TableSys n) :=
  match a.2, (s.workers a.1).phase with
  | .walk, _ => walkVersion s a.1
  | .update, _ => updateRows s a.1
  | .insertNext, _ => insertNext s a.1
  | .statement curr snapshot, .ready => some (startStatement curr snapshot s a.1)
  | .scan no index, .ready => scanRow no index s a.1
  | .fetch no index, .ready => fetchRow no index s a.1
  | .copyItem, .ready => copyItem s a.1
  | .undoSpace row others, .ready => findUndoPage row others s a.1
  | .delete, .ready => deleteRow s a.1
  | .insert cols, .ready => insertRow cols s a.1
  | .extend num, .ready => some (s.setFile (extensionTbl num s.file))
  | _, _ => none

end Toadb
