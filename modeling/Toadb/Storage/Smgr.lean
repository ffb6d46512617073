/-
Toadb.Storage.Smgr — virtual files and page I/O (`smgr.c`, `tables.c`, the
table dictionary of `relCache.c` as far as it opens files, `WritePage`).

A virtual file (`VFVec`) stands for one fork of one table and is known by the
two. `ring` is the list that starts at `smgrContext->vfhead`, and
`pfh` is the file a descriptor has open: opening a descriptor when too many files
are open closes the first open one of the ring (`CloseFileSmgrContext`), and
the next use opens it again — where the source looks.

The operating system keeps what it accepts. Whether it accepts a page is an
argument of the write.
-/
import Toadb.Lib.Transition
import Toadb.Buffer.Pool
import Toadb.Storage.TupleHeader
import Mathlib.Data.List.Basic
import Mathlib.Logic.Function.Basic

namespace Toadb

/-! ## Files -/

/-- A page: its number and the bytes behind the header. -/
structure PageImage where
  pageNum : Nat
  body : List UInt8
  deriving DecidableEq, Repr

/-- A page that has a place in a file; the first page is number 1. -/
abbrev NumberedPage := { page : PageImage // 0 < page.pageNum }

/-- A file of the operating system, in pages. A page that was skipped reads
as zeros. -/
structure OsFile where
  size : Nat
  page : Nat → PageImage

/-- A new file. -/
def OsFile.empty : OsFile := ⟨0, fun _ => ⟨0, []⟩⟩

/-- What `read` finds at a page. -/
def OsFile.read (file : OsFile) (pageno : Nat) : Option PageImage :=
  if 0 < pageno ∧ pageno ≤ file.size then some (file.page pageno) else none

/-- What `write` leaves. -/
def OsFile.write (file : OsFile) (page : PageImage) : OsFile :=
  ⟨max file.size page.pageNum, Function.update file.page page.pageNum page⟩

/-! ## The storage manager -/

/-- `VFVec`. -/
abbrev VFVec (T : Type) := T × ForkType

/-- The files, `StorageMangeContext`, `sgmrInfo` of each table, the tables of the
dictionary and the dirty flags of the buffers. -/
structure StorageManager (T : Type) where
  disk : VFVec T → Option OsFile
  ring : List (VFVec T)
  pfh : VFVec T → Option (VFVec T)
  vfhead : T → Option (VFVec T)
  fileOpenedNum : Nat
  fileMaxNum : Nat
  tblList : List T
  isDirty : VFVec T → Nat → Bool

variable {T : Type} [DecidableEq T]

/-- `FILE_MAX_OPENED_PER_PROCESS`. -/
def fileMaxOpenedPerProcess : Nat := 1000

/-- `InitSmgr`: no file is open, and the files are what an earlier process left. -/
def initSmgr (disk : VFVec T → Option OsFile) : StorageManager T :=
  ⟨disk, [], fun _ => none, fun _ => none, 0, fileMaxOpenedPerProcess, [], fun _ _ => false⟩

/-! ### Physical files -/

/-- `FileReadPage`. -/
def fileReadPage (s : StorageManager T) (fd : Option (VFVec T)) (pageno : Nat) :
    Option PageImage :=
  fd.bind fun name => (s.disk name).bind fun file => file.read pageno

/-- `FileWritePage`. -/
def fileWritePage (s : StorageManager T) (fd : Option (VFVec T)) (page : PageImage)
    (accepted : Bool) : Bool × StorageManager T :=
  match fd with
  | none => (false, s)
  | some name =>
      match s.disk name with
      | none => (false, s)
      | some file =>
          if accepted then
            (true, { s with disk := Function.update s.disk name (some (file.write page)) })
          else (false, s)

/-- `AddFileToSmgrContext`. -/
def addFileToSmgrContext (s : StorageManager T) (vf : VFVec T)
    (fileHandle : Option (VFVec T)) :
    StorageManager T :=
  { s with pfh := Function.update s.pfh vf fileHandle, fileOpenedNum := s.fileOpenedNum + 1 }

/-- `smgr_close`. -/
def smgrClose (s : StorageManager T) (vf : VFVec T) : StorageManager T :=
  if s.pfh vf = none then s
  else { s with pfh := Function.update s.pfh vf none, fileOpenedNum := s.fileOpenedNum - 1 }

/-! ### Virtual files -/

/-- `list.next`: the ring closes behind its last descriptor. -/
def nextVF (s : StorageManager T) (vf : VFVec T) : VFVec T :=
  match s.ring.dropWhile (· ≠ vf) with
  | _ :: next :: _ => next
  | _ => s.ring.headD vf

/-- `FindVF`: `MAX_FORK` descriptors are looked at. -/
def findVF (s : StorageManager T) (head : Option (VFVec T)) (forkNum : ForkType) :
    Option (VFVec T) :=
  head.bind fun vf =>
    if vf.2 = forkNum then some vf
    else
      let next := nextVF s vf
      if next = vf then none
      else if next.2 = forkNum then some next
      else none

/-- `CloseFileSmgrContext`. -/
def closeFileSmgrContext (s : StorageManager T) : StorageManager T :=
  match s.ring.find? (fun vf => (s.pfh vf).isSome) with
  | some vf => smgrClose s vf
  | none => s

/-- `AddDListNext`. -/
def addDListNext (ring : List (VFVec T)) (head vf : VFVec T) : List (VFVec T) :=
  ring.flatMap fun v => if v = head then [v, vf] else [v]

/-- Where `AddFileInfoToSmgrContext` links a descriptor. -/
def linkVF (s : StorageManager T) (t : T) (vf : VFVec T) : StorageManager T :=
  if s.ring = [] then
    { s with ring := [vf], vfhead := Function.update s.vfhead t (some vf) }
  else
    match s.vfhead t with
    | none =>
        { s with ring := s.ring ++ [vf], vfhead := Function.update s.vfhead t (some vf) }
    | some head => { s with ring := addDListNext s.ring head vf }

/-- `AddFileInfoToSmgrContext`. -/
def addFileInfoToSmgrContext (s : StorageManager T) (t : T)
    (vf : VFVec T) : StorageManager T :=
  let s := linkVF s t vf
  if s.fileMaxNum - 1 < s.fileOpenedNum then closeFileSmgrContext s else s

/-- `GetVFec`, with `AddVFec`. -/
def getVFec (s : StorageManager T) (t : T) (forkNum : ForkType) :
    VFVec T × StorageManager T :=
  match findVF s (s.vfhead t) forkNum with
  | some vf => (vf, s)
  | none =>
      let vf := (t, forkNum)
      (vf, addFileInfoToSmgrContext { s with pfh := Function.update s.pfh vf none } t vf)

/-- `smgr_create`. `CreateFile` gives no handle when the file exists, which the
source takes for a handle. -/
def smgrCreate (s : StorageManager T) (t : T) (forkNum : ForkType) :
    Option (VFVec T) × StorageManager T :=
  let (vpos, s) := getVFec s t forkNum
  if s.pfh vpos ≠ none then (none, s)
  else if (s.disk (t, forkNum)).isSome then (some vpos, addFileToSmgrContext s vpos none)
  else
    let s := { s with disk := Function.update s.disk (t, forkNum) (some OsFile.empty) }
    (some vpos, addFileToSmgrContext s vpos (some (t, forkNum)))

/-- `smgr_open`. -/
def smgrOpen (s : StorageManager T) (t : T) (forkNum : ForkType) :
    Option (VFVec T) × StorageManager T :=
  let (vpos, s) := getVFec s t forkNum
  if s.pfh vpos ≠ none then (some vpos, s)
  else if (s.disk (t, forkNum)).isSome then
    (some vpos, addFileToSmgrContext s vpos (some (t, forkNum)))
  else (none, s)

/-- `smgrRelease`, of a table that is given up: its descriptors leave the ring. The
ring is dropped when it starts with them. -/
def smgrRelease (s : StorageManager T) (t : T) : StorageManager T :=
  let s' := smgrClose (smgrClose s (t, .group)) (t, .main)
  { s' with
    ring := if s.ring.head? = s.vfhead t then [] else s.ring.filter (·.1 ≠ t)
    vfhead := Function.update s.vfhead t none }

/-! ### Pages -/

/-- `TableRead`: a closed descriptor is opened again. -/
def tableRead (s : StorageManager T) (t : T) (forkNum : ForkType) (pageno : Nat) :
    Option PageImage × StorageManager T :=
  match (findVF s (s.vfhead t) forkNum).filter (fun vpos => (s.pfh vpos).isSome) with
  | some vpos => (fileReadPage s (s.pfh vpos) pageno, s)
  | none =>
      match smgrOpen s t forkNum with
      | (none, s) => (none, s)
      | (some vpos, s) => (fileReadPage s (s.pfh vpos) pageno, s)

/-- `TableWrite`: only a missing descriptor is opened. -/
def tableWrite (s : StorageManager T) (t : T) (forkNum : ForkType) (page : PageImage)
    (accepted : Bool) : Bool × StorageManager T :=
  match findVF s (s.vfhead t) forkNum with
  | some vpos => fileWritePage s (s.pfh vpos) page accepted
  | none =>
      match smgrOpen s t forkNum with
      | (none, s) => (false, s)
      | (some vpos, s) => fileWritePage s (s.pfh vpos) page accepted

/-- `WritePage`: the flag is cleared whatever the write reported. -/
def writePage (s : StorageManager T) (t : T) (forkNum : ForkType) (page : PageImage)
    (accepted : Bool) : Bool × StorageManager T :=
  let (ret, s) := tableWrite s t forkNum page accepted
  let flags := Function.update (s.isDirty (t, forkNum)) page.pageNum false
  (ret, { s with isDirty := Function.update s.isDirty (t, forkNum) flags })

/-! ### Tables -/

/-- The head pages of a new table, and whether the system takes them. -/
structure TableMetaInfo where
  mainBody : List UInt8
  groupBody : List UInt8
  acceptMain : Bool
  acceptGroup : Bool

/-- `TableFileInit`. -/
def tableFileInit (s : StorageManager T) (t : T) (tblDef : TableMetaInfo) :
    Bool × StorageManager T :=
  let (ret, s) := tableWrite s t .main ⟨pageHeadPageNum, tblDef.mainBody⟩ tblDef.acceptMain
  match smgrOpen s t .main with
  | (none, s) => (false, s)
  | (some _, s) =>
      match tableRead s t .main pageHeadPageNum with
      | (none, s) => (false, s)
      | (some _, s) =>
          let (gret, s) :=
            tableWrite s t .group ⟨pageHeadPageNum, tblDef.groupBody⟩ tblDef.acceptGroup
          (ret && gret, s)

/-- `CreateTblInfo`, of a table that the dictionary does not have. -/
def createTblInfo (s : StorageManager T) (t : T)
    (tblDef : TableMetaInfo) : StorageManager T :=
  match smgrCreate s t .main with
  | (none, s) => smgrRelease s t
  | (some _, s) =>
      match smgrCreate s t .group with
      | (none, s) => smgrRelease s t
      | (some _, s) =>
          match tableFileInit s t tblDef with
          | (false, s) => smgrRelease s t
          | (true, s) => { s with tblList := t :: s.tblList }

/-- `LoadTblInfo`, with `TableOpen`: the head pages of both files are read. -/
def loadTblInfo (s : StorageManager T) (t : T) : StorageManager T :=
  match smgrOpen s t .main with
  | (none, s) => smgrRelease s t
  | (some _, s) =>
      match tableRead s t .main pageHeadPageNum with
      | (none, s) => smgrRelease s t
      | (some _, s) =>
          match tableRead s t .group pageHeadPageNum with
          | (none, s) => smgrRelease s t
          | (some _, s) => { s with tblList := t :: s.tblList }

/-! ## The step function -/

/-- What the storage manager can be asked to do. -/
inductive SmgrCall (T : Type) where
  | create (t : T) (tblDef : TableMetaInfo)
  | openTable (t : T)
  | read (t : T) (forkNum : ForkType) (pageno : Nat)
  | write (t : T) (forkNum : ForkType) (page : NumberedPage) (accepted : Bool)
  | writePage (t : T) (forkNum : ForkType) (page : NumberedPage) (accepted : Bool)

/-- One call. Pages are read and written through the table of the dictionary. -/
def smgrStep (s : StorageManager T) (a : SmgrCall T) : Option (StorageManager T) :=
  match a with
  | .create t tblDef => some (if t ∈ s.tblList then s else createTblInfo s t tblDef)
  | .openTable t => some (if t ∈ s.tblList then s else loadTblInfo s t)
  | .read t forkNum pageno =>
      if t ∈ s.tblList then some (tableRead s t forkNum pageno).2 else none
  | .write t forkNum page accepted =>
      if t ∈ s.tblList then some (tableWrite s t forkNum page.1 accepted).2 else none
  | .writePage t forkNum page accepted =>
      if t ∈ s.tblList then some (writePage s t forkNum page.1 accepted).2 else none

end Toadb
