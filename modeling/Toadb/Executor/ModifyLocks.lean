/-
Toadb.Executor.ModifyLocks — the locks and pins of `pax_ExecInsert`,
`pax_ExecUpdate` and `pax_ExecDelete` (`execModifyTable.c`), on every path.
-/
import Toadb.Storage.PageLocks

namespace Toadb

open HeldLocks

/-! ## Updating -/

/-- What `pax_ExecUpdate` sees in one round: the page of the old value, the search for an
undo page and the search for a page with space for the new value. -/
structure UpdateSight where
  origin : Lookup
  undo : SpaceSight
  data : SpaceSight

/-- The end of a round: the undo page and the page of the old value are given back. -/
def updateEndLocks (origin undo : PageDataHeader) : LockTrace :=
  unlockAndRelease undo.mainId ++ unlockAndRelease origin.mainId

/-- The new version of a larger value. The page it is written to is unlocked at the end of the
round, also when it is the page of the old value, and when it was unlocked before. -/
def writeLargerLocks (origin newRowPage : PageDataHeader) : LockTrace :=
  (if newRowPage.pageNum = origin.pageNum then tableWriteLocks .main
    else
      .acquire (.page newRowPage.mainId) .write ::
        (tableWriteLocks .main ++ tableWriteLocks .main ++
          [.release (.page newRowPage.mainId)])) ++
    unlockAndRelease newRowPage.mainId

/-- One round of the loop of `pax_ExecUpdate` from the two locks on. -/
def updateLockedLocks (curr : Nat) (u : ColumnUpdate) (origin undo : PageDataHeader)
    (data : SpaceSight) : Bool × LockTrace :=
  if tupleUpdateSatisfy curr u.old.headerData ≠ .ok then (false, updateEndLocks origin undo)
  else if u.row.size ≤ u.old.size then
    (true, tableWriteLocks .main ++ tableWriteLocks .main ++ updateEndLocks origin undo)
  else
    match getSpaceSpecifyPageLocks (u.row.size + itemSize) .data data with
    | (none, locks) => (false, tableWriteLocks .main ++ locks ++ updateEndLocks origin undo)
    | (some newRowPage, locks) =>
        (true, tableWriteLocks .main ++ locks ++ writeLargerLocks origin newRowPage ++
          updateEndLocks origin undo)

/-- One round of the loop of `pax_ExecUpdate`. -/
def updateColumnLocks (curr : Nat) (u : ColumnUpdate) (s : UpdateSight) : Bool × LockTrace :=
  match s.origin.page with
  | none => (false, s.origin.locks .main)
  | some origin =>
      let locks := s.origin.locks .main
      match getSpaceSpecifyPageLocks (itemSize + u.oldRowSize) .undo s.undo with
      | (none, locks') => (false, locks ++ locks')
      | (some undo, locks') =>
          let (ok, locks'') := updateLockedLocks curr u origin undo s.data
          (ok, locks ++ locks' ++
            .acquire (.page origin.mainId) .write ::
              .acquire (.page undo.mainId) .write :: locks'')

/-- `pax_ExecUpdate`. -/
def paxExecUpdateLocks (curr : Nat) : List (ColumnUpdate × UpdateSight) → LockTrace
  | [] => []
  | (u, s) :: cols =>
      let (ok, locks) := updateColumnLocks curr u s
      if ok then locks ++ paxExecUpdateLocks curr cols else locks

/-! ## Deleting -/

/-- `pax_ExecDelete`: the row copies, and the page of each. -/
def paxExecDeleteLocks (curr : Nat) : List (RowColumnData × Lookup) → LockTrace
  | [] => []
  | (old, origin) :: cols =>
      let locks := origin.locks .main
      match origin.page with
      | none => locks
      | some page =>
          let locks := locks ++ [.acquire (.page page.mainId) .write]
          if tupleUpdateSatisfy curr old.headerData ≠ .ok then
            locks ++ unlockAndRelease page.mainId
          else
            locks ++ tableWriteLocks .main ++ unlockAndRelease page.mainId ++
              paxExecDeleteLocks curr cols

/-! ## Inserting -/

/-- What `pax_ExecInsert` sees in one round: the groups it looks at, the extension with the
new group item, and the pages of the group when they are locked. -/
structure InsertSight where
  groups : List GroupRound
  ext : ExtensionSight
  item : GroupItemSight
  locked : List PageDataHeader

/-- `FreeSpaceCheck`. -/
def groupHasSpace (sizes : List Nat) (pages : List PageDataHeader) : Bool :=
  (sizes.zip pages).all fun (size, page) => hasFreeSpace page size

/-- The rounds of `pax_ExecInsert`, as long as there are any, for columns of the given sizes
with their headers. Before it returns there is no result. -/
def insertRoundsLocks (colNum : Nat) (sizes : List Nat) (search : SpaceGroupSearch) :
    List InsertSight → Option SpaceGroupSearch × LockTrace
  | [] => (none, [])
  | s :: rounds =>
      match getSpaceGroupPageLocks sizes search s.groups with
      | (none, locks) => (none, locks)
      | (some (some pageList, search), locks) =>
          let hasSpace := groupHasSpace sizes s.locked
          let locks := locks ++ insertRowDataWithGroupLocks pageList hasSpace ++
            releasePageListLocks pageList
          if hasSpace then (some search, locks)
          else
            let (result, locks') := insertRoundsLocks colNum sizes search rounds
            (result, locks ++ locks')
      | (some (none, search), locks) =>
          match extensionTblLocks colNum .main s.ext with
          | (none, locks') => (some search, locks ++ .acquire .extension .write :: locks')
          | (some page, locks') =>
              match insertGroupItemLocks page colNum s.item with
              | (false, locks'') =>
                (none, locks ++ .acquire .extension .write :: (locks' ++ locks''))
              | (true, locks'') =>
                  let locks := locks ++ (.acquire .extension .write ::
                    (locks' ++ locks'' ++ [.release .extension])) ++
                      releasePageLocks page.mainId
                  let (result, locks') := insertRoundsLocks colNum sizes search rounds
                  (result, locks ++ locks')

/-- `pax_ExecInsert` into a table of `colNum` columns; the page list of the scan has room for
`pageListNum` pages. -/
def paxExecInsertLocks (colNum pageListNum : Nat) (sizes : List Nat)
    (search : SpaceGroupSearch)
    (rounds : List InsertSight) : Option SpaceGroupSearch × LockTrace :=
  if pageListNum < sizes.length then (some search, [])
  else insertRoundsLocks colNum sizes search rounds

end Toadb
