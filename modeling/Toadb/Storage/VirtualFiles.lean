/-
Toadb.Storage.VirtualFiles — the list of virtual files of the storage manager (`smgr.c`), with
its links.

The nodes of all tables are in one ring behind `smgrContext->vfhead`. A table has its nodes
side by side, from `vfhead` to `vfend` of its `sgmrInfo`. An address is a number, 0 is NULL,
and the links and fields of a node keep what they were when its memory is released.

The calls come one after the other. `made` and `found` say whether the file can be made or
opened; memory for a new node comes with the call. `T` are the tables.
-/
import Toadb.Storage.RelCache
import Toadb.Buffer.Pool

namespace Toadb

/-- The list pointers of `sgmrInfo`. -/
structure SgmrInfo where
  vfhead : Nat
  vfend : Nat
  deriving DecidableEq, Repr

/-- A new `sgmrInfo`. -/
def SgmrInfo.init : SgmrInfo := ⟨nullAddr, nullAddr⟩

/-- `smgrContext`, the nodes and the tables. `pfh` says whether a node has a file open.
`nodes` and `freedTwice` are history variables that no call reads: the nodes in use, each with
the table it was made for, and whether memory that was not in use has been released. -/
structure SmgrContext (T : Type) where
  next : Nat → Nat
  prev : Nat → Nat
  forkNum : Nat → ForkType
  pfh : Nat → Bool
  vfhead : Nat
  vFileNum : Int
  fileOpenedNum : Int
  fileMaxNum : Int
  tables : T → SgmrInfo
  nodes : List (T × Nat)
  freedTwice : Bool

variable {T : Type} [DecidableEq T]

namespace SmgrContext

/-! ## Links -/

/-- `AddDListTail`, to a list that has a head. -/
def addDListTail (s : SmgrContext T) (head node : Nat) : SmgrContext T :=
  let s := { s with next := Function.update s.next node head }
  let s := { s with prev := Function.update s.prev node (s.prev head) }
  let s := { s with next := Function.update s.next (s.prev head) node }
  { s with prev := Function.update s.prev head node }

/-- `AddDListNext`, to a list that has a head. -/
def addDListNext (s : SmgrContext T) (head node : Nat) : SmgrContext T :=
  let s := { s with next := Function.update s.next node (s.next head) }
  let s := { s with prev := Function.update s.prev node head }
  let s := { s with next := Function.update s.next head node }
  { s with prev := Function.update s.prev (s.next node) node }

/-- `DelDListNode`. -/
def delDListNode (s : SmgrContext T) (head node : Nat) : SmgrContext T :=
  if head = nullAddr then s
  else if s.prev node = node then s
  else
    let s := { s with prev := Function.update s.prev (s.next node) (s.prev node) }
    let s := { s with next := Function.update s.next (s.prev node) (s.next node) }
    { s with
      next := Function.update s.next node node
      prev := Function.update s.prev node node }

/-! ## Files -/

/-- `smgr_close`. -/
def smgrClose (s : SmgrContext T) (vfInfo : Nat) : SmgrContext T :=
  if vfInfo = nullAddr ∨ s.pfh vfInfo = false then s
  else
    { s with
      pfh := Function.update s.pfh vfInfo false
      fileOpenedNum := s.fileOpenedNum - 1 }

/-- The loop of `CloseFileSmgrContext`. A list has no more nodes than are in use. -/
def firstOpened (s : SmgrContext T) : Nat → Nat → Option Nat
  | 0, _ => none
  | fuel + 1, tpos =>
    if tpos = nullAddr then none
    else if s.pfh tpos then some tpos
    else if s.next tpos = s.vfhead then none
    else s.firstOpened fuel (s.next tpos)

/-- `CloseFileSmgrContext`. -/
def closeFileSmgrContext (s : SmgrContext T) : SmgrContext T :=
  match s.firstOpened s.nodes.length s.vfhead with
  | some vpos => s.smgrClose vpos
  | none => s

/-- `AddFileToSmgrContext`. -/
def addFileToSmgrContext (s : SmgrContext T) (vf : Nat) (fileHandle : Bool) : SmgrContext T :=
  { s with
    pfh := Function.update s.pfh vf fileHandle
    fileOpenedNum := s.fileOpenedNum + 1 }

/-- `FreeMem`. -/
def freeMem (s : SmgrContext T) (node : Nat) : SmgrContext T :=
  { s with
    nodes := s.nodes.filter (·.2 ≠ node)
    freedTwice := s.freedTwice || !(s.nodes.any (·.2 == node)) }

/-! ## Nodes -/

/-- The list pointers of a table are set. -/
def setTable (s : SmgrContext T) (t : T) (info : SgmrInfo) : SmgrContext T :=
  { s with tables := Function.update s.tables t info }

/-- Where `AddFileInfoToSmgrContext` links a node. -/
def linkNode (s : SmgrContext T) (t : T) (vpos : Nat) : SmgrContext T :=
  if s.vfhead = nullAddr then
    { s with vfhead := vpos }.setTable t { s.tables t with vfhead := vpos }
  else if (s.tables t).vfhead = nullAddr then
    (s.setTable t { s.tables t with vfhead := vpos }).addDListTail s.vfhead vpos
  else s.addDListNext (s.tables t).vfhead vpos

/-- `AddFileInfoToSmgrContext`. -/
def addFileInfoToSmgrContext (s : SmgrContext T) (t : T) (vpos : Nat) : SmgrContext T :=
  let s := s.linkNode t vpos
  let s : SmgrContext T :=
    { s.setTable t { s.tables t with vfend := vpos } with vFileNum := s.vFileNum + 1 }
  if s.fileMaxNum - 1 < s.fileOpenedNum then s.closeFileSmgrContext else s

/-- `CreateVFVec` and `INIT_DLIST_NODE`. -/
def createVFVec (s : SmgrContext T) (t : T) (forkNum : ForkType)
    (memory : Nat) : SmgrContext T :=
  { s with
    next := Function.update s.next memory memory
    prev := Function.update s.prev memory memory
    forkNum := Function.update s.forkNum memory forkNum
    pfh := Function.update s.pfh memory false
    nodes := (t, memory) :: s.nodes }

/-- The loop of `FindVF`, which looks at no more than `searchCnt` nodes. -/
def findVFFrom (s : SmgrContext T) (head : Nat) (forknum : ForkType) : Nat → Nat → Option Nat
  | 0, _ => none
  | searchCnt + 1, tpos =>
    if tpos = nullAddr then none
    else if s.forkNum tpos = forknum then some tpos
    else if s.next tpos = head then none
    else s.findVFFrom head forknum searchCnt (s.next tpos)

/-- `MAX_FORK`. -/
def maxFork : Nat := 2

/-- `FindVF`, and `SearchVF` under its lock. -/
def findVF (s : SmgrContext T) (head : Nat) (forknum : ForkType) : Option Nat :=
  s.findVFFrom head forknum maxFork head

/-- `AddVFec`. -/
def addVFec (s : SmgrContext T) (t : T) (forkNum : ForkType)
    (memory : Nat) : Nat × SmgrContext T :=
  match s.findVF (s.tables t).vfhead forkNum with
  | some vpos => (vpos, s)
  | none => (memory, (s.createVFVec t forkNum memory).addFileInfoToSmgrContext t memory)

/-- `GetVFec`. -/
def getVFec (s : SmgrContext T) (t : T) (forkNum : ForkType)
    (memory : Nat) : Nat × SmgrContext T :=
  if (s.tables t).vfhead = nullAddr then s.addVFec t forkNum memory
  else
    match s.findVF (s.tables t).vfhead forkNum with
    | some vpos => (vpos, s)
    | none => s.addVFec t forkNum memory

/-! ## Calls -/

/-- `smgr_create`. `CreateFile` gives NULL where it fails, which the test `fd < 0` does not
see. -/
def smgrCreate (s : SmgrContext T) (t : T) (forkNum : ForkType) (memory : Nat) (made : Bool) :
    Option Nat × SmgrContext T :=
  let (vpos, s) := s.getVFec t forkNum memory
  if s.pfh vpos then (none, s) else (some vpos, s.addFileToSmgrContext vpos made)

/-- `smgr_open`. -/
def smgrOpen (s : SmgrContext T) (t : T) (forkNum : ForkType) (memory : Nat) (found : Bool) :
    Option Nat × SmgrContext T :=
  let (vpos, s) := s.getVFec t forkNum memory
  if s.pfh vpos then (some vpos, s)
  else if found then (some vpos, s.addFileToSmgrContext vpos true)
  else (none, s.freeMem vpos)

/-- `DeleteVF`. -/
def deleteVF (s : SmgrContext T) (head node : Nat) : SmgrContext T :=
  let s :=
    if head ≠ node then s.delDListNode head node
    else if head ≠ s.vfhead then s.delDListNode s.vfhead node
    else { s with vfhead := nullAddr }
  { s with vFileNum := s.vFileNum - 1 }

/-- The three calls that give up a node. -/
def releaseVF (s : SmgrContext T) (head tpos : Nat) : SmgrContext T :=
  ((s.deleteVF head tpos).smgrClose tpos).freeMem tpos

/-- The loop of `smgrRelease`, from the last node of the table to its first. -/
def releaseFrom (head : Nat) : Nat → Nat → Nat → SmgrContext T → Nat × SmgrContext T
  | 0, tpos, _, s => (tpos, s)
  | fuel + 1, tpos, tposPrev, s =>
    if tpos = nullAddr ∨ tpos = head then (tpos, s)
    else
      let s := s.releaseVF head tpos
      releaseFrom head fuel tposPrev (s.prev tposPrev) s

/-- `smgrRelease`. -/
def smgrRelease (s : SmgrContext T) (t : T) : SmgrContext T :=
  let head := (s.tables t).vfhead
  let tpos := (s.tables t).vfend
  let (tpos, s) := releaseFrom head (s.nodes.length + 1) tpos (s.prev tpos) s
  let s := if tpos ≠ nullAddr then s.releaseVF head tpos else s
  s.setTable t SgmrInfo.init

/-- Memory that `AllocMem` may give. -/
def Unused (s : SmgrContext T) (memory : Nat) : Prop :=
  memory ≠ nullAddr ∧ ∀ p ∈ s.nodes, p.2 ≠ memory

instance (s : SmgrContext T) (memory : Nat) : Decidable (s.Unused memory) :=
  inferInstanceAs (Decidable (_ ∧ _))

end SmgrContext

/-- A call. -/
inductive SmgrListCall (T : Type) where
  | smgrCreate (t : T) (forkNum : ForkType) (memory : Nat) (made : Bool)
  | smgrOpen (t : T) (forkNum : ForkType) (memory : Nat) (found : Bool)
  | smgrRelease (t : T)

/-- One call. A table is released after a call of one of the others for it. -/
def SmgrContext.call (s : SmgrContext T) : SmgrListCall T → Option (SmgrContext T)
  | .smgrCreate t forkNum memory made =>
    if s.Unused memory then some (s.smgrCreate t forkNum memory made).2 else none
  | .smgrOpen t forkNum memory found =>
    if s.Unused memory then some (s.smgrOpen t forkNum memory found).2 else none
  | .smgrRelease t => if (s.tables t).vfend ≠ nullAddr then some (s.smgrRelease t) else none

/-- After `InitSmgr`; no table is open. -/
structure SmgrContextInit (s : SmgrContext T) : Prop where
  vfhead : s.vfhead = nullAddr
  vFileNum : s.vFileNum = 0
  tables : ∀ t, s.tables t = SgmrInfo.init
  nodes : s.nodes = []
  freedTwice : s.freedTwice = false

end Toadb
