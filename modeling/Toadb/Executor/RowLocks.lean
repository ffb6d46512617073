/-
Toadb.Executor.RowLocks — workers that insert, update, delete and scan one table.

A worker runs one operation after the other, and takes the actions on its locks and pins
(`ModifyLocks`) one by one, in any interleaving with the other workers. An acquire of a
lock that is not in the worker's own table has to wait while another worker has it
in a mode that excludes it.

A page is asked for by its number, which is in a group, in the link of a page or in the undo
position of a version. So it is `recorded`, or it is added by the worker itself, which has
its number from `ExtensionTbl`. Only `AllocBuffer` takes locks of buffers that have
any page.
-/
import Toadb.Lib.LockOrder
import Toadb.Executor.ModifyLocks

namespace Toadb

open HeldLocks

/-! ## Scans -/

/-- What a scan does with locks. -/
inductive ScanLockStep where
  /-- `GetGroupInfo`. -/
  | group (search : Option Nat) (s : GroupSight)
  /-- `GetGroupMemberPagesOpt` gets the page of a column. -/
  | member (look : Lookup)
  /-- `ReleasePageList`, or the page of the group search at a rescan. -/
  | release (p : PageId)
  /-- `GetRowDataFromPageEx`. -/
  | item (page : PageDataHeader)
  /-- One round of `CurrentReadVersion`; the item it looks for is `valid`. -/
  | version (look : Lookup) (valid : Bool)
  /-- `GetRowDataFromPageByIndexEx`. -/
  | column (look : Lookup)

/-- The locks of one step. A round of `CurrentReadVersion` that does not find its item ends
the loop and leaves the page locked. -/
def ScanLockStep.locks : ScanLockStep → LockTrace
  | .group search s => (getGroupInfoLocks search s).2
  | .member look => look.locks .main
  | .release p => releasePageLocks p
  | .item page => briefly (.page page.mainId) .read
  | .version look valid =>
      look.locks .main ++
        match look.page with
        | none => []
        | some page =>
            .acquire (.page page.mainId) .read ::
              if valid then [.release (.page page.mainId)] else []
  | .column look =>
      look.locks .main ++
        match look.page with
        | none => []
        | some page => briefly (.page page.mainId) .read ++ releasePageLocks page.mainId

/-! ## Operations -/

/-- An operation of a worker, with what it sees. -/
inductive RowOperation where
  | insert (colNum pageListNum : Nat) (sizes : List Nat) (search : SpaceGroupSearch)
      (rounds : List InsertSight)
  | update (curr : Nat) (cols : List (ColumnUpdate × UpdateSight))
  | delete (curr : Nat) (cols : List (RowColumnData × Lookup))
  | scan (steps : List ScanLockStep)

/-- The trace of an operation, and whether it returns. -/
def RowOperation.locks : RowOperation → Bool × LockTrace
  | .insert colNum pageListNum sizes search rounds =>
      let result := paxExecInsertLocks colNum pageListNum sizes search rounds
      (result.1.isSome, result.2)
  | .update curr cols => (true, paxExecUpdateLocks curr cols)
  | .delete curr cols => (true, paxExecDeleteLocks curr cols)
  | .scan steps => (true, (steps.map ScanLockStep.locks).flatten)

/-! ## Workers -/

/-- A worker: its locks and pins, the rest of its operation, and the pages it adds. -/
structure LockingWorker where
  held : Held LockId PageId
  todo : LockTrace
  returns : Bool
  making : List Nat

/-- The workers, and the pages that are in a group or in a chain. -/
structure LockingSys (n : Nat) where
  workers : Fin n → LockingWorker
  recorded : List Nat

variable {n : Nat}

/-- Overwrite one worker. -/
def LockingSys.setWorker (s : LockingSys n) (w : Fin n) (k : LockingWorker) : LockingSys n :=
  { s with workers := Function.update s.workers w k }

/-- A lock that is given back before anything else is locked: `AllocBuffer` took it. -/
def takenBriefly (l : LockId) : LockTrace → Bool
  | .release l' :: _ => l' == l
  | .pin _ :: .unpin _ :: .release l' :: _ => l' == l
  | _ => false

/-- The worker knows the page that it asks for. Under the extension lock it asks for the head
page and for the pages it adds. -/
def LockingSys.knows (s : LockingSys n) (w : Fin n) (l : LockId) : Bool :=
  match l with
  | .page (.main, no) =>
      no == pageHeadPageNum || (s.workers w).making.contains no ||
        (s.recorded.contains no && !(locks (s.workers w).held.table).contains .extension)
  | _ => true

/-- The worker gets to an acquire of `l`. -/
def LockingSys.asks (s : LockingSys n) (w : Fin n) (l : LockId) (rest : LockTrace) : Bool :=
  s.knows w l || ((locks (s.workers w).held.table).isEmpty && takenBriefly l rest)

/-- A table that has the lock in a mode that excludes `m`. -/
def excludes (t : List (Entry LockId)) (l : LockId) (m : Mode) : Bool :=
  t.any fun e => e.lock == l && (e.mode == .write || m == .write)

/-- The next action can be taken. -/
def LockingSys.ready (s : LockingSys n) (w : Fin n) : Action LockId PageId → LockTrace → Bool
  | .acquire l m, rest =>
      if Lacks maxLocalLockNum (s.workers w).held.table l then
        s.asks w l rest &&
          decide (∀ w', w' ≠ w → excludes (s.workers w').held.table l m = false)
      else true
  | _, _ => true

/-! ## The step function -/

/-- What a worker can do. -/
inductive LockingCall where
  | start (op : RowOperation)
  | act
  /-- `ExtensionTbl` gives out page numbers. -/
  | addPages (nos : List Nat)
  /-- The pages are recorded in a group, or the page is linked. -/
  | recordPages

/-- One step. -/
def lockingStep (s : LockingSys n) (a : Fin n × LockingCall) : Option (LockingSys n) :=
  let k := s.workers a.1
  match a.2 with
  | .start op =>
      if k.todo = [] ∧ k.returns then
        some (s.setWorker a.1 { k with todo := op.locks.2, returns := op.locks.1 })
      else none
  | .act =>
      match k.todo with
      | [] => none
      | act :: rest =>
          if s.ready a.1 act rest then
            some (s.setWorker a.1 { k with held := step maxLocalLockNum k.held act,
                                           todo := rest })
          else none
  | .addPages nos =>
      if k.making = [] ∧ ∀ no ∈ nos, no ≠ pageHeadPageNum ∧ no ∉ s.recorded ∧
          ∀ w, no ∉ (s.workers w).making then
        some (s.setWorker a.1 { k with making := nos })
      else none
  | .recordPages =>
      some { s.setWorker a.1 { k with making := [] } with recorded := k.making ++ s.recorded }

/-- A table with pages, and workers that hold nothing. -/
def lockingInit (n : Nat) (recorded : List Nat) : LockingSys n where
  workers := fun _ => ⟨⟨[], 0, 0⟩, [], true, []⟩
  recorded := recorded

/-! ## Waiting -/

/-- `w` waits for a lock that `w'` has. -/
def LockingSys.blockedBy (s : LockingSys n) (w w' : Fin n) : Prop :=
  ∃ l m rest, (s.workers w).todo = .acquire l m :: rest ∧
    Lacks maxLocalLockNum (s.workers w).held.table l ∧ s.asks w l rest ∧
    excludes (s.workers w').held.table l m

/-- Workers wait for each other in a cycle. -/
def LockingSys.Deadlocked (s : LockingSys n) : Prop := ∃ w, Relation.TransGen s.blockedBy w w

end Toadb
