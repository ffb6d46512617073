/-
Toadb.Storage.Extend — extending a table (`ExtensionTbl`, `UpdateMetaData`,
the end of `GetSpaceSpecifyPage` and `InsertGroupItem` of `buffer.c`, the
extension in `pax_ExecInsert`, `TableInfoInit` of `tables.c`).

The number of pages is counted in memory (`tableInfo->pageCnt`) and written to
the head page of the file. Pages are read and changed in buffers. A buffer
that no worker has pinned is dropped without being written, so what is not in
the file then is lost. `WritePage` does not look at what `TableWrite` reports:
each write of a page has a flag that says whether the page reached the file.

An extension takes the extension lock of the table, adds the pages one after the other,
writes the head page, asks for the last page, and either makes it the head of
a chain or records the pages as a group. One step is one of these. The rows of
the pages are written by `RowWrite`.
-/
import Toadb.Lib.Transition
import Toadb.Storage.Workers

namespace Toadb

/-! ## Pages -/

/-- Number of values of `pageCnt`. -/
def pageCntModulus : Nat := 2 ^ 32

/-- `PAGE_EXTENSION_MAX_NUM`. -/
def pageExtensionMaxNum : Nat := 512

/-- What the writes of rows do to a page. -/
inductive RowWrite where
  | append (row : RowColumnData)
  | replace (row : RowColumnData) (offset : Int)
  | relocate (itemOffset : Int) (row : RowColumnData) (rowSize : Nat)
  | redirect (itemOffset : Int) (rowPos : RowPosition)

/-- The page after the write. -/
def RowWrite.apply (page : PageDataHeader) : RowWrite → PageDataHeader
  | .append row => (writeRowOnePage page row).1
  | .replace row offset => replaceRowData page row offset
  | .relocate itemOffset row rowSize => relocateRow page itemOffset row rowSize
  | .redirect itemOffset rowPos => redirectItem page itemOffset rowPos

/-! ## Workers -/

/-- What the table is extended for: a page for a chain of data page `firstno`, or the
pages of a group. -/
inductive ExtendJob where
  | chain (firstno : Nat) (pageType : PageType)
  | group (num : Nat)
  deriving DecidableEq, Repr

/-- The number of pages that are added. -/
def ExtendJob.num : ExtendJob → Nat
  | .chain _ _ => 1
  | .group num => num

/-- Where a worker is, with the page numbers it has got so far. -/
inductive ExtendPhase where
  | ready
  /-- In the loop of `ExtensionTbl`. -/
  | extend (job : ExtendJob) (got : List Nat)
  /-- The head page is written. -/
  | load (job : ExtendJob) (got : List Nat)
  /-- `ExtensionTbl` has returned the page `last`. -/
  | loaded (job : ExtendJob) (got : List Nat) (last : Nat)
  deriving DecidableEq, Repr

/-- The page numbers of an extension that is not over. -/
def ExtendPhase.got : ExtendPhase → List Nat
  | .ready => []
  | .extend _ got | .load _ got | .loaded _ got _ => got

/-- The pages an extension has pinned. -/
def ExtendPhase.pins : ExtendPhase → List Nat
  | .extend (.chain firstno _) _ | .load (.chain firstno _) _ => [firstno]
  | .loaded (.chain firstno _) _ last => [firstno, last]
  | .loaded (.group _) _ last => [last]
  | _ => []

/-- A worker, and the pages it has in hand. -/
structure ExtendWorker where
  phase : ExtendPhase
  hand : List Nat

/-- A table and its workers. `handed`, `chains` and `unwritten` are history variables that no
step reads: the numbers that were given out, the pages that were linked to each
chain, the newest first, and those of them that were not written since. -/
structure ExtendSys (n : Nat) where
  pageCnt : Nat
  disk : TableFile
  buffer : Nat → Option PageDataHeader
  groups : List (List Nat)
  extLock : Option (Fin n × Nat)
  workers : Fin n → ExtendWorker
  handed : List Nat
  chains : Nat → PageType → List Nat
  unwritten : List Nat

variable {n : Nat}

/-- The table as `GetPageByIndex` reads it: the buffer, or else the page in the file. -/
def ExtendSys.file (s : ExtendSys n) : TableFile :=
  ⟨s.pageCnt, fun no => (s.buffer no).or (s.disk.page no)⟩

/-- Overwrite one worker. -/
def ExtendSys.setWorker (s : ExtendSys n) (w : Fin n) (k : ExtendWorker) : ExtendSys n :=
  { s with workers := Function.update s.workers w k }

/-- Overwrite one buffer. -/
def ExtendSys.setBuffer (s : ExtendSys n) (no : Nat) (page : PageDataHeader) : ExtendSys n :=
  { s with buffer := Function.update s.buffer no (some page) }

/-- `WritePage` of `page`; without `stored` it does not reach the file. -/
def ExtendSys.writePage (s : ExtendSys n) (no : Nat) (page : PageDataHeader) (stored : Bool) :
    ExtendSys n :=
  if stored then { s with disk := s.disk.set no page } else s

/-- `StartExtensionTbl`. A worker that has the lock gets it once more; with a full table of
local locks `AcquireRWLockLocal` fails, and the worker goes on without the lock. -/
def startExtensionTbl (s : ExtendSys n) (w : Fin n) (locks : Nat) : Option (ExtendSys n) :=
  if maxLocalLockNum ≤ locks then some s
  else
    match s.extLock with
    | none => some { s with extLock := some (w, 1) }
    | some (holder, count) =>
        if holder = w then some { s with extLock := some (w, count + 1) } else none

/-- `EndExtensionTbl`. -/
def endExtensionTbl (s : ExtendSys n) (w : Fin n) : ExtendSys n :=
  match s.extLock with
  | some (holder, count + 2) =>
    if holder = w then { s with extLock := some (w, count + 1) } else s
  | some (holder, _) => if holder = w then { s with extLock := none } else s
  | none => s

/-! ## Extending -/

/-- The chain of the page can take a page more: its head, if it can be read, has the right
type. -/
def chainUsable (f : TableFile) (page : PageDataHeader) (pageType : PageType) : Bool :=
  match getPageByIndex f (page.chain pageType) with
  | some head => head.pageType == pageType
  | none => true

/-- A job a worker can have: `pax_ExecUpdate` extends the chains of data pages of groups. -/
def jobAllowed (s : ExtendSys n) : ExtendJob → Bool
  | .chain firstno pageType =>
      match s.file.page firstno with
      | some page => s.groups.flatten.contains firstno &&
          (pageType == .undo || pageType == .extData) && chainUsable s.file page pageType
      | none => false
  | .group _ => true

/-- The lock is taken. `ExtensionTbl` refuses a number of pages that is 0 or too large; then
`pax_ExecInsert` returns without giving the lock back. -/
def startExtend (job : ExtendJob) (locks : Nat) (s : ExtendSys n) (w : Fin n) :
    Option (ExtendSys n) :=
  if jobAllowed s job then
    (startExtensionTbl s w locks).map fun s =>
      if job.num = 0 ∨ pageExtensionMaxNum < job.num then s
      else s.setWorker w { s.workers w with phase := .extend job [] }
  else none

/-- One round of the loop of `ExtensionTbl`. -/
def addPage (stored : Bool) (s : ExtendSys n) (w : Fin n) : Option (ExtendSys n) :=
  match (s.workers w).phase with
  | .extend job got =>
      if got.length < job.num then
        let pageNum := (s.pageCnt + 1) % pageCntModulus
        let s := { s with pageCnt := pageNum, handed := pageNum :: s.handed }
        some ((s.writePage pageNum (initPage pageNum) stored).setWorker w
          { s.workers w with phase := .extend job (got ++ [pageNum]) })
      else none
  | _ => none

/-- `UpdateMetaData`. -/
def updateMetaData (stored : Bool) (s : ExtendSys n) (w : Fin n) : Option (ExtendSys n) :=
  match (s.workers w).phase with
  | .extend job got =>
      if got.length = job.num then
        let s := if stored then { s with disk := { s.disk with pageCnt := s.pageCnt } } else s
        some (s.setWorker w { s.workers w with phase := .load job got })
      else none
  | _ => none

/-- The last page is asked for. Without it `GetSpaceSpecifyPage` gives the lock back and
`pax_ExecInsert` does not. -/
def loadLast (s : ExtendSys n) (w : Fin n) : Option (ExtendSys n) :=
  match (s.workers w).phase with
  | .load job got =>
      let last := got.getLastD invalidPageNum
      match getPageByIndex s.file last with
      | some _ => some (s.setWorker w { s.workers w with phase := .loaded job got last })
      | none =>
          let s := match job with
            | .chain _ _ => endExtensionTbl s w
            | .group _ => s
          some (s.setWorker w { s.workers w with phase := .ready })
  | _ => none

/-- The new page as the head of a chain. -/
def chainHead (pageType : PageType) (firstpage extpage : PageDataHeader) : PageDataHeader :=
  { extpage with pageType := pageType }.setChain pageType (firstpage.chain pageType)

/-- Page `last` is linked to the chain of page `firstno`. Only the data page is written. -/
def linked (s : ExtendSys n) (firstno last : Nat) (pageType : PageType)
    (firstpage extpage : PageDataHeader) (stored : Bool) : ExtendSys n :=
  let head := chainHead pageType firstpage extpage
  let firstpage := firstpage.setChain pageType head.pageNum
  { ((s.setBuffer last head).setBuffer firstno firstpage).writePage firstno
      firstpage stored with
    chains := Function.update s.chains firstno
      (Function.update (s.chains firstno) pageType (last :: s.chains firstno pageType))
    unwritten := last :: s.unwritten }

/-- The end of `GetSpaceSpecifyPage`: the new page becomes the head of the chain. -/
def linkPage (stored : Bool) (s : ExtendSys n) (w : Fin n) : Option (ExtendSys n) :=
  match (s.workers w).phase with
  | .loaded (.chain firstno pageType) _ last =>
      match s.file.page firstno, s.file.page last with
      | some firstpage, some extpage =>
          let s' := linked s firstno last pageType firstpage extpage stored
          some ((endExtensionTbl s' w).setWorker w ⟨.ready, last :: (s.workers w).hand⟩)
      | _, _ => none
  | _ => none

/-- The members `InsertGroupItem` records, counted back from the last page. -/
def groupMembers (lastpage : PageDataHeader) (num : Nat) : Option (List Nat) :=
  if lastpage.pageNum + 1 ≤ num + pageHeadPageNum then none
  else some (List.range' (lastpage.pageNum + 1 - num) num)

/-- `InsertGroupItem`. -/
def insertGroupItem (s : ExtendSys n) (w : Fin n) : Option (ExtendSys n) :=
  match (s.workers w).phase with
  | .loaded (.group num) _ last =>
      match s.file.page last with
      | some lastpage =>
          let s := match groupMembers lastpage num with
            | some members => { s with groups := s.groups ++ [members] }
            | none => s
          some ((endExtensionTbl s w).setWorker w { s.workers w with phase := .ready })
      | none => none
  | _ => none

/-! ## Working with pages -/

/-- `GetPageByIndex` of a data page. -/
def takePage (no : Nat) (s : ExtendSys n) (w : Fin n) : Option (ExtendSys n) :=
  match s.file.page no with
  | some _ =>
      if s.groups.flatten.contains no then
        some (s.setWorker w { s.workers w with hand := no :: (s.workers w).hand })
      else none
  | none => none

/-- `GetSpaceSpecifyPage` finds space on the head of the chain. -/
def findSpace (firstno : Nat) (pageType : PageType) (s : ExtendSys n) (w : Fin n) :
    Option (ExtendSys n) :=
  match s.file.page firstno with
  | some firstpage =>
      let no := firstpage.chain pageType
      match getPageByIndex s.file no with
      | some page =>
          if s.groups.flatten.contains firstno ∧ (pageType = .undo ∨ pageType = .extData) ∧
              page.pageType = pageType then
            some (s.setWorker w { s.workers w with hand := no :: (s.workers w).hand })
          else none
      | none => none
  | none => none

/-- A row is written to a page in hand, and the page to the file. -/
def writeRow (no : Nat) (row : RowWrite) (stored : Bool) (s : ExtendSys n) (w : Fin n) :
    Option (ExtendSys n) :=
  match s.file.page no with
  | some page =>
      if (s.workers w).hand.contains no then
        let s := (s.setBuffer no (row.apply page)).writePage no (row.apply page) stored
        some { s with unwritten := if stored then s.unwritten.filter (· ≠ no)
                        else s.unwritten }
      else none
  | none => none

/-- The pages in hand are released, written or not. -/
def releaseHand (s : ExtendSys n) (w : Fin n) : ExtendSys n :=
  s.setWorker w { s.workers w with hand := [] }

/-- A worker has page `no` pinned. -/
def ExtendWorker.pins (k : ExtendWorker) : List Nat := k.hand ++ k.phase.pins

/-- The pool drops a buffer that nobody has pinned. -/
def evictPage (no : Nat) (s : ExtendSys n) : Option (ExtendSys n) :=
  if ∀ w, no ∉ (s.workers w).pins then
    some { s with buffer := Function.update s.buffer no none }
  else none

/-- The server stops between two statements of all workers and starts again (`TableInfoInit`);
of the groups it finds those whose items are in the file of the group fork. -/
def restart (kept : List (List Nat)) (s : ExtendSys n) : Option (ExtendSys n) :=
  if (∀ w, (s.workers w).phase = .ready) ∧ kept.Sublist s.groups then
    some { s with
      pageCnt := s.disk.pageCnt
      buffer := fun _ => none
      groups := kept
      extLock := none
      workers := fun _ => ⟨.ready, []⟩ }
  else none

/-! ## The step function -/

/-- What a worker, or the server, can do. -/
inductive ExtendCall where
  /-- `locks` is the number of locks in the worker's local table. -/
  | start (job : ExtendJob) (locks : Nat)
  | addPage (stored : Bool)
  | updateMetaData (stored : Bool)
  | loadLast
  | linkPage (stored : Bool)
  | insertGroupItem
  | takePage (no : Nat)
  | findSpace (firstno : Nat) (pageType : PageType)
  | writeRow (no : Nat) (row : RowWrite) (stored : Bool)
  | releaseHand
  | evictPage (no : Nat)
  | restart (kept : List (List Nat))

/-- A step between two extensions of the worker. -/
def whenReady (s : ExtendSys n) (w : Fin n)
    (next : Option (ExtendSys n)) : Option (ExtendSys n) :=
  if (s.workers w).phase = .ready then next else none

/-- One step. -/
def extendStep (s : ExtendSys n) (a : Fin n × ExtendCall) : Option (ExtendSys n) :=
  match a.2 with
  | .start job locks => whenReady s a.1 (startExtend job locks s a.1)
  | .addPage stored => addPage stored s a.1
  | .updateMetaData stored => updateMetaData stored s a.1
  | .loadLast => loadLast s a.1
  | .linkPage stored => linkPage stored s a.1
  | .insertGroupItem => insertGroupItem s a.1
  | .takePage no => whenReady s a.1 (takePage no s a.1)
  | .findSpace firstno pageType => whenReady s a.1 (findSpace firstno pageType s a.1)
  | .writeRow no row stored => whenReady s a.1 (writeRow no row stored s a.1)
  | .releaseHand => whenReady s a.1 (some (releaseHand s a.1))
  | .evictPage no => evictPage no s
  | .restart kept => restart kept s

/-- The page `TableFileMainInit` writes. -/
def headPage : PageDataHeader := { initPage pageHeadPageNum with pageType := .header }

/-- `TableFileInit`: a table with its head page. -/
def createTable (n : Nat) : ExtendSys n where
  pageCnt := pageHeadPageNum
  disk := ⟨pageHeadPageNum, fun no => if no = pageHeadPageNum then some headPage else none⟩
  buffer := fun _ => none
  groups := []
  extLock := none
  workers := fun _ => ⟨.ready, []⟩
  handed := []
  chains := fun _ _ => []
  unwritten := []

end Toadb
