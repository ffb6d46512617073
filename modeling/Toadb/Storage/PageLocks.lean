/-
Toadb.Storage.PageLocks — the locks and pins of the page functions
(`GetPageByIndex`, `ReleasePage`, `WritePage`, `ExtensionTbl`, `UpdateMetaData`,
`GetSpaceSpecifyPage`, `GetSpacePage`, `InsertGroupItem`, `GetSpaceGroupPage`
and `InsertRowDataWithGroup` of `buffer.c`, `CurrentReadVersion` of `undopage.c`).

A function gives back what it returns and the trace of its actions on locks and
pins. No function looks at what an acquire or a release returns, so the trace
depends only on the pages the worker sees, and these are arguments: a `Lookup`
is one call of `GetPageByIndex`. They can be different at each call, since
other workers write the pages in between.

`LockPage` takes the lock of the buffer descriptor, which is called the lock of
the page here; `AllocBuffer` and `ReleasePage` take the same lock. On its way
`AllocBuffer` also locks buffers that have other pages (`TriedBuffer`).
-/
import Toadb.Lib.HeldLocks
import Toadb.Storage.Extend
import Toadb.Storage.Smgr

namespace Toadb

open HeldLocks

/-! ## Locks -/

/-- A page of a file of the table. -/
abbrev PageId := ForkType × Nat

/-- What a worker can lock. -/
inductive LockId where
  | page (p : PageId)
  | extension
  | smgr
  | file (forkNum : ForkType)
  deriving DecidableEq

/-- What a worker does with locks and pins. -/
abbrev LockTrace := List (Action LockId PageId)

/-- A lock that is given back at once. -/
def briefly (l : LockId) (m : Mode) : LockTrace := [.acquire l m, .release l]

/-- `TableWrite`. -/
def tableWriteLocks (forkNum : ForkType) : LockTrace :=
  briefly .smgr .read ++ briefly (.file forkNum) .write

/-- `TableRead`; a file that is closed is opened. -/
def tableReadLocks (forkNum : ForkType) (isOpen : Bool) : LockTrace :=
  briefly .smgr .read ++
    (if isOpen then [] else briefly .smgr .read ++ briefly (.file forkNum) .write) ++
    briefly (.file forkNum) .write

/-! ## Pages -/

/-- A buffer that `AllocBuffer` locks and that has another page then: one that was `found` in
the hash table, which it pins while it looks at it, or the choice of `ClockSweep`. -/
structure TriedBuffer where
  page : PageId
  found : Bool
  deriving DecidableEq, Repr

/-- Where `ReadPage` finds a page. -/
inductive PageSource where
  | inPool
  | file (isOpen : Bool)
  deriving DecidableEq, Repr

/-- How `ReadPage` gets a page. -/
structure Fetch where
  tried : List TriedBuffer
  source : PageSource
  deriving DecidableEq, Repr

/-- The page is in the pool. -/
def Fetch.inPool : Fetch := ⟨[], .inPool⟩

/-- A call of `GetPageByIndex`: the page as it is then, or no page. -/
inductive Lookup where
  | found (page : PageDataHeader) (fetch : Fetch)
  | missing (no : Nat) (tried : List TriedBuffer) (isOpen : Bool)

/-- What `GetPageByIndex` returns. -/
def Lookup.page : Lookup → Option PageDataHeader
  | .found page _ => some page
  | .missing .. => none

/-- The locks of the buffers that `AllocBuffer` does not return. -/
def triedLocks : List TriedBuffer → LockTrace
  | [] => []
  | ⟨page, found⟩ :: rest =>
      .acquire (.page page) .write ::
        ((if found then [.pin page, .unpin page] else []) ++ [.release (.page page)]) ++
        triedLocks rest

/-- The locks of a read that finds the page. -/
def readPageLocks (p : PageId) (fetch : Fetch) : LockTrace :=
  let read := match fetch.source with
    | .inPool => []
    | .file isOpen => tableReadLocks p.1 isOpen
  triedLocks fetch.tried ++ .acquire (.page p) .write ::
    (.pin p :: read ++ [.release (.page p)])

/-- `GetPageByIndex`. -/
def Lookup.locks (forkNum : ForkType) : Lookup → LockTrace
  | .found page fetch => readPageLocks (forkNum, page.pageNum) fetch
  | .missing no tried isOpen =>
      if no = invalidPageNum then []
      else
        let p : PageId := (forkNum, no)
        triedLocks tried ++ .acquire (.page p) .write ::
          (.pin p :: tableReadLocks forkNum isOpen ++ [.unpin p] ++ [.release (.page p)])

/-- `ReleasePage`. -/
def releasePageLocks (p : PageId) : LockTrace :=
  .acquire (.page p) .write :: ([.unpin p] ++ [.release (.page p)])

/-- `UnLockPage` and `ReleasePage`. -/
def unlockAndRelease (p : PageId) : LockTrace := .release (.page p) :: releasePageLocks p

/-- A page of the main file. -/
def PageDataHeader.mainId (page : PageDataHeader) : PageId := (.main, page.pageNum)

/-! ## Extending -/

/-- What `ExtensionTbl` sees: how it gets the head page, and the last new page. -/
structure ExtensionSight where
  head : Fetch
  last : Lookup

/-- `UpdateMetaData`. -/
def updateMetaDataLocks (forkNum : ForkType) (head : Fetch) : LockTrace :=
  let p : PageId := (forkNum, pageHeadPageNum)
  readPageLocks p head ++
    (.acquire (.page p) .write :: (tableWriteLocks forkNum ++ [.release (.page p)])) ++
    releasePageLocks p

/-- `ExtensionTbl`. -/
def extensionTblLocks (num : Nat) (forkNum : ForkType) (s : ExtensionSight) :
    Option PageDataHeader × LockTrace :=
  if num = 0 ∨ pageExtensionMaxNum < num then (none, [])
  else
    (s.last.page, (List.replicate num (tableWriteLocks forkNum)).flatten ++
      updateMetaDataLocks forkNum s.head ++ s.last.locks forkNum)

/-! ## `GetSpaceSpecifyPage` -/

/-- What `GetSpaceSpecifyPage` sees: the start page, which its callers have pinned,
so that it is in the pool, the page its chain starts with, and the extension. -/
structure SpaceSight where
  first : PageDataHeader
  chain : Lookup
  ext : ExtensionSight

/-- How the search ends. -/
inductive SpaceEnd where
  | refused
  | found (page : PageDataHeader)
  | full

/-- The search on the page the chain starts with. The start page is locked and pinned. -/
def searchChainLocks (size : Nat) (pageType : PageType)
    (s : SpaceSight) : SpaceEnd × LockTrace :=
  let first := s.first.mainId
  if s.first.chain pageType = invalidPageNum then (.full, [])
  else
    let locks := s.chain.locks .main
    match s.chain.page with
    | none => (.full, locks)
    | some page =>
        let locks := locks ++ [.acquire (.page page.mainId) .write]
        if page.pageType ≠ pageType then
          (.refused, locks ++ unlockAndRelease page.mainId ++ unlockAndRelease first)
        else if hasFreeSpace page size then
          (.found page, locks ++ [.release (.page page.mainId)] ++ unlockAndRelease first)
        -- A page that is the start page is not released.
        else if page.pageNum = s.first.pageNum then (.full, locks)
        else (.full, locks ++ unlockAndRelease page.mainId)

/-- The search. Without space it ends with the start page locked and pinned. -/
def searchSpaceLocks (size : Nat) (pageType : PageType)
    (s : SpaceSight) : SpaceEnd × LockTrace :=
  let first := s.first.mainId
  if size + pageDataHeaderSize ≥ pageMaxSize then (.refused, [])
  else
    let locks := readPageLocks first .inPool ++ [.acquire (.page first) .write]
    if pageType = .undo then
      let (found, locks') := searchChainLocks size .undo s
      (found, locks ++ locks')
    else if s.first.pageType ≠ pageType then (.refused, locks ++ unlockAndRelease first)
    else if hasFreeSpace s.first size then (.found s.first, locks ++ [.release (.page first)])
    else if pageType = .data then
      let (found, locks') := searchChainLocks size .extData s
      (found, locks ++ locks')
    else (.full, locks)

/-- A new page for the chain. Without it the start page stays locked and pinned. -/
def extendChainLocks (s : SpaceSight) : Option PageDataHeader × LockTrace :=
  let first := s.first.mainId
  match extensionTblLocks 1 .main s.ext with
  | (none, locks) => (none, .acquire .extension .write :: (locks ++ [.release .extension]))
  | (some extpage, locks) =>
      (some extpage,
        .acquire .extension .write ::
          (locks ++
              (.acquire (.page extpage.mainId) .write ::
                (tableWriteLocks .main ++ [.release (.page extpage.mainId)])) ++
            [.release .extension]) ++
          unlockAndRelease first)

/-- `GetSpaceSpecifyPage` for a new page of the main file. -/
def getSpaceSpecifyPageLocks (size : Nat) (pageType : PageType) (s : SpaceSight) :
    Option PageDataHeader × LockTrace :=
  match searchSpaceLocks size pageType s with
  | (.refused, locks) => (none, locks)
  | (.found page, locks) => (some page, locks)
  | (.full, locks) =>
      let (page, locks') := extendChainLocks s
      (page, locks ++ locks')

/-! ## Groups -/

/-- The rest of `GetGroupInfo` on a locked page: `next` are the pages after it that are tried;
the last one that is found has the item. -/
def groupPagesLocks (no : Nat) : List Lookup → Option Nat × LockTrace
  | [] => (some no, [.release (.page (.group, no))])
  | next :: rest =>
      let locks := unlockAndRelease (.group, no) ++ next.locks .group
      match next.page with
      | none => (none, locks)
      | some page =>
          let (search, locks') := groupPagesLocks page.pageNum rest
          (search, locks ++ .acquire (.page (.group, page.pageNum)) .read :: locks')

/-- What `GetGroupInfo` sees: the first page, when the search has none, and the next pages. -/
structure GroupSight where
  first : Lookup
  next : List Lookup

/-- `GetGroupInfo`: `search` is the page of the search, which stays pinned. Without one at the
end no group was found. -/
def getGroupInfoLocks (search : Option Nat) (s : GroupSight) : Option Nat × LockTrace :=
  match search with
  | some no =>
      let (search, locks) := groupPagesLocks no s.next
      (search, .acquire (.page (.group, no)) .read :: locks)
  | none =>
      match s.first.page with
      | none => (none, s.first.locks .group)
      | some page =>
          let (search, locks) := groupPagesLocks page.pageNum s.next
          (search, s.first.locks .group ++
            .acquire (.page (.group, page.pageNum)) .read :: locks)

/-- `GetFreeSpaceMemberPage` on the pages of a column. -/
def getFreeSpaceMemberPageLocks (size : Nat) : List Lookup → Option PageDataHeader × LockTrace
  | [] => (none, [])
  | member :: rest =>
      let locks := member.locks .main
      match member.page with
      | none => (none, locks)
      | some page =>
          let locks := locks ++ briefly (.page page.mainId) .read
          if hasFreeSpace page size then (some page, locks)
          else
            let (page', locks') := getFreeSpaceMemberPageLocks size rest
            (page', locks ++ releasePageLocks page.mainId ++ locks')

/-- `ReleasePageList`, `ReleasePageListMember`. -/
def releasePageListLocks (pageList : List PageDataHeader) : LockTrace :=
  (pageList.map fun page => releasePageLocks page.mainId).flatten

/-- The columns of one group: a page for each, or none is kept. -/
def groupColumnsLocks (pageList : List PageDataHeader) :
    List Nat → List (List Lookup) → Option (List PageDataHeader) × LockTrace
  | [], _ => (some pageList, [])
  | size :: sizes, columns =>
      match getFreeSpaceMemberPageLocks size (columns.headD []) with
      | (none, locks) => (none, locks ++ releasePageListLocks pageList)
      | (some page, locks) =>
          let (pageList, locks') := groupColumnsLocks (pageList ++ [page]) sizes columns.tail
          (pageList, locks ++ locks')

/-- One round of the loop of `GetSpaceGroupPage`: a group is looked for and its columns. -/
structure GroupRound where
  group : GroupSight
  columns : List (List Lookup)

/-- The position of the scan: the page of the group search, and `isNoSpace`. -/
structure SpaceGroupSearch where
  page : Option Nat
  isNoSpace : Bool

/-- `GetSpaceGroupPage`, as long as there are rounds. Before the end of the search there is no
result. -/
def getSpaceGroupPageLocks (sizes : List Nat) (search : SpaceGroupSearch) :
    List GroupRound → Option (Option (List PageDataHeader) × SpaceGroupSearch) × LockTrace
  | [] => (none, [])
  | round :: rounds =>
      let (page, locks) :=
        if search.isNoSpace then getGroupInfoLocks search.page round.group
          else (search.page, [])
      if search.isNoSpace ∧ page = none then
        (some (if sizes = [] then some [] else none, ⟨none, true⟩), locks)
      else
        match groupColumnsLocks [] sizes round.columns with
        | (some pageList, locks') => (some (some pageList, ⟨page, false⟩), locks ++ locks')
        | (none, locks') =>
            let (result, locks'') := getSpaceGroupPageLocks sizes ⟨page, true⟩ rounds
            (result, locks ++ locks' ++ locks'')

/-- `GetSpacePage` of the group file: the pages in turn, or a new page. -/
def getSpacePageLocks (size : Nat) (ext : ExtensionSight) :
    List Lookup → Option PageDataHeader × LockTrace
  | [] => extensionTblLocks 1 .group ext
  | next :: rest =>
      let locks := next.locks .group
      match next.page with
      | none =>
          let (page, locks') := extensionTblLocks 1 .group ext
          (page, locks ++ locks')
      | some page =>
          let locks := locks ++ briefly (.page (.group, page.pageNum)) .read
          if hasFreeSpace page size then (some page, locks)
          else
            let (page', locks') := getSpacePageLocks size ext rest
            (page', locks ++ releasePageLocks (.group, page.pageNum) ++ locks')

/-- What `InsertGroupItem` sees. -/
structure GroupItemSight where
  pages : List Lookup
  ext : ExtensionSight
  head : Fetch

/-- Sizes of `MemberData` with one page, and of `GroupItem`. -/
def memberDataSize : Nat := 16

def groupItemSize : Nat := 16

/-- `InsertGroupItem`; without a page for the item the server crashes, and it does not
return. -/
def insertGroupItemLocks (lastpage : PageDataHeader) (num : Nat) (s : GroupItemSight) :
    Bool × LockTrace :=
  let locks := briefly (.page lastpage.mainId) .read
  if lastpage.pageNum + 1 ≤ num + pageHeadPageNum then (true, locks)
  else
    let size := groupItemSize + num * memberDataSize
    if size + pageDataHeaderSize ≥ pageMaxSize then (false, locks)
    else
      match getSpacePageLocks size s.ext s.pages with
      | (none, locks') => (false, locks ++ locks')
      | (some page, locks') =>
          let p : PageId := (.group, page.pageNum)
          (true, locks ++ locks' ++
            (.acquire (.page p) .write :: (tableWriteLocks .group ++ [.release (.page p)])) ++
            releasePageLocks p ++ updateMetaDataLocks .group s.head)

/-- `InsertRowDataWithGroup`: the pages are locked, tested once more and written. -/
def insertRowDataWithGroupLocks (pageList : List PageDataHeader)
    (hasSpace : Bool) : LockTrace :=
  let locks := pageList.map fun page => LockId.page page.mainId
  acquireAll .write locks ++
    (if hasSpace then (pageList.map fun _ => tableWriteLocks .main).flatten else []) ++
    releaseAll locks

/-! ## The walk over old versions

The other workers write the undo pages between two rounds of `CurrentReadVersion`, so the page
that a round sees is an argument here too. `VersionRead.lean` has the same loop over a table
that stays as it is, without its locks. -/

/-- The page that is asked for. -/
def Lookup.pageno : Lookup → Nat
  | .found page _ => page.pageNum
  | .missing no .. => no

/-- A round of `CurrentReadVersion` up to `UnLockPage`: the row at the position, if there is
one. The loop is left before `UnLockPage` when the page does not have the item. -/
def undoRoundLocks (look : Lookup) (olderRowPos : RowPosition) :
    Option RowColumnData × LockTrace :=
  match look.page with
  | none => (none, look.locks .main)
  | some page =>
      let locked := look.locks .main ++ [.acquire (.page page.mainId) .read]
      let itemOffset := itemOffsetOfIndex olderRowPos.itemIndex
      if itemEndCheck page itemOffset || !(page.item itemOffset).valid then (none, locked)
      else
        (readRowData page.bytes (page.item itemOffset).offset,
          locked ++ [.release (.page page.mainId)])

/-- The loop of `CurrentReadVersion` from an undo position on: the version, and what was done
with locks and pins. No result is a lookup that is missing or is one of another page. -/
def undoWalkLocks (curr : Nat) (snapshot : SnapShotInfo) :
    List Lookup → RowPosition → Option (Option RowColumnData × LockTrace)
  | [], olderRowPos =>
    if olderRowPos.pageIndex.pageno = invalidPageNum then some (none, []) else none
  | look :: looks, olderRowPos =>
      if olderRowPos.pageIndex.pageno = invalidPageNum then some (none, [])
      else if look.pageno ≠ olderRowPos.pageIndex.pageno then none
      else
        match undoRoundLocks look olderRowPos with
        | (none, tr) => some (none, tr)
        | (some rowData, tr) =>
            if tupleVisibilitySatisfy curr rowData.headerData (some snapshot) =
              .tupleVisible then
              some (some rowData, tr)
            else
              (undoWalkLocks curr snapshot looks rowData.headerData.undo).map
                fun (found, rest) => (found, tr ++ rest)

/-- `CurrentReadVersion`. -/
def currentReadVersionLocks (curr : Nat) (snapshot : SnapShotInfo) (looks : List Lookup)
    (headRowData : Option RowColumnData) : Option (Option RowColumnData × LockTrace) :=
  match headRowData with
  | none => some (none, [])
  | some headRowData => undoWalkLocks curr snapshot looks headRowData.headerData.undo

end Toadb
