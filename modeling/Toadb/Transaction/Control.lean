/-
Toadb.Transaction.Control — the transaction system: `n` workers, the shared
counters and slot table, and the row versions they stamp
(`transactionControl.c`, `execTransaction.c`).

A worker owns one slot of the shared table (`transactionContextArray`,
indexed by `GetCurrentWorkerIndex() - 1`) and is the only one to write it.
Its other fields are thread-local. A call that writes or reads shared
memory several times is cut into its single accesses. `Phase` says how far
it has come and the action `proceed` takes the next access:

    StartTransaction    ts := TS_START | fetch id | store id
    BeginTransaction    fetch id | store id | ts := TS_BEGIN   (from TS_IDLE)
    FinishTransaction   ts := TS_IDLE | raise highLevelXtid
    GenerateSnapshot    read highLevelXtid | one slot at a time | store

Versions are a list that only grows, and a version keeps its index. A
statement reads a header first (`scanTuple`) and tests and writes its copy
later (`updateTuple`, `deleteTuple`), as `pax_ExecUpdate` and
`pax_ExecDelete` do. Which version a scan returns is left open.
-/
import Toadb.Lib.Transition
import Toadb.Transaction.Snapshot
import Mathlib.Logic.Function.Basic

namespace Toadb

/-! ## State -/

/-- How far a worker has come inside a call. -/
inductive Phase where
  | ready
  /-- `StartTransaction`: the state is `TS_START`, the id is not fetched. -/
  | startFetch
  /-- The id is fetched and not yet stored in the slot. -/
  | startStore (xid : Nat)
  /-- `BeginTransaction` from `TS_IDLE`: the id is fetched, not stored. -/
  | beginStore (xid : Nat)
  /-- The id is stored, the state is still `TS_IDLE`. -/
  | beginState
  /-- `FinishTransaction`: the state is `TS_IDLE`, the high level is not raised. -/
  | finishHigh (aborted : Bool)
  /-- `GetActiveXtids`: the slots below `i` are read. -/
  | snapshotSlot (i : Nat) (acc : ActiveXtids) (max : Nat)
  deriving DecidableEq, Repr

/-- One worker: its slot and its thread-local variables. -/
structure Worker where
  /-- `myTransaction` is not NULL. -/
  mine : Bool
  context : TransactionContext
  phase : Phase
  /-- `GetServSnapShot()`, reused from statement to statement. -/
  snapshot : SnapShotInfo
  /-- The header copy the current statement got from its scan. -/
  scanned : Option (Nat × TupleHeader)
  deriving DecidableEq, Repr

/-- `TransactionIsolationLevel`. -/
inductive TransactionIsolationLevel where
  | readCommited | readRepeatable
  deriving DecidableEq, Repr

/-- The whole system. `rolledBack` is a history variable that no step reads:
the ids of the transactions finished from `TS_ABORT`. -/
structure TransSys (n : Nat) where
  info : TransactionIDInfo
  workers : Fin n → Worker
  versions : List TupleHeader
  /-- `config_transIsolationLevel`. -/
  isolationLevel : TransactionIsolationLevel
  rolledBack : List Nat

/-- `GetCurrentTransactionID`. -/
def Worker.currentTransactionID (k : Worker) : Nat :=
  if k.mine then k.context.transactionID else invalidXtid

/-- Overwrite one worker. -/
def TransSys.setWorker {n : Nat} (s : TransSys n) (w : Fin n) (k : Worker) : TransSys n :=
  { s with workers := Function.update s.workers w k }

/-- Overwrite the state of a worker's slot. -/
def Worker.setState (k : Worker) (ts : TransactionFSMState) : Worker :=
  { k with context := { k.context with ts := ts } }

/-- Overwrite the id of a worker's slot. -/
def Worker.setXid (k : Worker) (xid : Nat) : Worker :=
  { k with context := { k.context with transactionID := xid } }

/-- `myTransaction = &transactionContextArray[..]; myTransaction->snapshot = 0`,
done by a worker that has no transaction. -/
def Worker.attach (k : Worker) : Worker :=
  if k.mine then k
  else { k with mine := true, context := { k.context with snapshot := false } }

/-! ## Calls -/

variable {n : Nat}

/-- `StartTransaction`, up to its first shared write. -/
def startTransaction (s : TransSys n) (w : Fin n) : TransSys n :=
  if (s.workers w).mine then s
  else
    let k := (s.workers w).attach
    if k.context.ts = .idle then
      s.setWorker w { k.setState .start with phase := .startFetch }
    else s.setWorker w k

/-- `BeginTransaction`, up to its first shared access. -/
def beginTransaction (s : TransSys n) (w : Fin n) : TransSys n :=
  let k := (s.workers w).attach
  match k.context.ts with
  | .idle =>
      let (xid, info) := getNewTransactionID s.info
      { s with info := info }.setWorker w { k with phase := .beginStore xid }
  | .start => s.setWorker w (k.setState .begin)
  | _ => s.setWorker w k

/-- `EndTransaction` (`ts = .commit`) and `AbortTransaction` (`ts = .abort`). -/
def leaveTransaction (ts : TransactionFSMState) (s : TransSys n) (w : Fin n) : TransSys n :=
  if (s.workers w).mine = false then s
  else if (s.workers w).context.ts = .idle then s
  else s.setWorker w ((s.workers w).setState ts)

/-- `EndTransaction`. -/
def endTransaction (s : TransSys n) (w : Fin n) : TransSys n := leaveTransaction .commit s w

/-- `AbortTransaction`. -/
def abortTransaction (s : TransSys n) (w : Fin n) : TransSys n := leaveTransaction .abort s w

/-- `FinishTransaction`, up to its first shared write. -/
def finishTransaction (s : TransSys n) (w : Fin n) : TransSys n :=
  let k := s.workers w
  if k.mine = false then s
  else
    match k.context.ts with
    | .start | .commit => s.setWorker w { k.setState .idle with phase := .finishHigh false }
    | .abort => s.setWorker w { k.setState .idle with phase := .finishHigh true }
    | _ => s

/-- `GenerateSnapshot` and the first read of `GetActiveXtids`. -/
def generateSnapshot (s : TransSys n) (w : Fin n) : TransSys n :=
  let k := s.workers w
  if k.mine = false then s
  else if s.isolationLevel = .readRepeatable ∧ k.context.snapshot = true then s
  else
    let max := snapshotMax s.info
    let acc := activeXtidsInit (some k.context.transactionID) max k.snapshot.runningXidArr
    s.setWorker w { k with phase := .snapshotSlot 0 acc max }

/-- The states in which a worker executes statements. -/
def inStatement (k : Worker) : Bool :=
  k.mine && (k.context.ts == .start || k.context.ts == .begin || k.context.ts == .inprocess)

/-- A header before it is stamped. -/
def TupleHeader.blank : TupleHeader := ⟨0, 0, 0, 0, RowPosition.none⟩

/-- Insert: a new version stamped by `ComputeXminTupleHeader`. -/
def insertTuple (s : TransSys n) (w : Fin n) : Option (TransSys n) :=
  if inStatement (s.workers w) then
    some { s with versions := s.versions ++
      [computeXminTupleHeader (s.workers w).currentTransactionID TupleHeader.blank] }
  else none

/-- A scan copies the header of version `v`. -/
def scanTuple (v : Nat) (s : TransSys n) (w : Fin n) : Option (TransSys n) :=
  if inStatement (s.workers w) then
    match s.versions[v]? with
    | some tupHeader =>
      some (s.setWorker w { s.workers w with scanned := some (v, tupHeader) })
    | none => none
  else none

/-- Write back the scanned header with its `tmax` stamped, and append the new
version when there is one. The test reads the copy. -/
def stampTuple (update : Bool) (s : TransSys n) (w : Fin n) : Option (TransSys n) :=
  if inStatement (s.workers w) then
    match (s.workers w).scanned with
    | some (v, tupHeader) =>
        let curr := (s.workers w).currentTransactionID
        if tupleUpdateSatisfy curr tupHeader = .ok then
          let (newHeader, oldHeader) :=
            computeXmaxTupleHeader curr TupleHeader.blank tupHeader
          some ({ s with versions := s.versions.set v oldHeader ++
            if update then [newHeader]
              else [] }.setWorker w { s.workers w with scanned := none })
        else some (s.setWorker w { s.workers w with scanned := none })
    | none => none
  else none

/-- The stamping step of `pax_ExecUpdate`. -/
def updateTuple (s : TransSys n) (w : Fin n) : Option (TransSys n) := stampTuple true s w

/-- The stamping step of `pax_ExecDelete`. -/
def deleteTuple (s : TransSys n) (w : Fin n) : Option (TransSys n) := stampTuple false s w

/-- The next shared access of the call in progress. -/
def proceed (s : TransSys n) (w : Fin n) : Option (TransSys n) :=
  let k := s.workers w
  match k.phase with
  | .ready => none
  | .startFetch =>
      let (xid, info) := getNewTransactionID s.info
      some ({ s with info := info }.setWorker w { k with phase := .startStore xid })
  | .startStore xid => some (s.setWorker w { k.setXid xid with phase := .ready })
  | .beginStore xid => some (s.setWorker w { k.setXid xid with phase := .beginState })
  | .beginState => some (s.setWorker w { k.setState .begin with phase := .ready })
  | .finishHigh aborted =>
      some ({ s with
          info := setHighLevelTransaction s.info k.context.transactionID
          rolledBack := if aborted then k.context.transactionID :: s.rolledBack
            else s.rolledBack }.setWorker w { k with mine := false, phase := .ready })
  | .snapshotSlot i acc max =>
      if h : i < n ∧ acc.full = false then
        let acc' := activeXtidsSlot (some k.context.transactionID) max acc
          (s.workers ⟨i, h.1⟩).context
        some (s.setWorker w { k with phase := .snapshotSlot (i + 1) acc' max })
      else
        some (s.setWorker w { k with
          snapshot := acc.toSnapshot max
          context := { k.context with snapshot := true }
          phase := .ready })

/-! ## The step function -/

/-- What a worker can be asked to do. -/
inductive Call where
  | startTransaction | beginTransaction | endTransaction | abortTransaction
  | finishTransaction | generateSnapshot
  | insertTuple | scanTuple (v : Nat) | updateTuple | deleteTuple
  | proceed
  deriving DecidableEq, Repr

/-- One atomic step: a worker between calls enters one, a worker inside a call
takes its next access. -/
def transStep (s : TransSys n) (a : Fin n × Call) : Option (TransSys n) :=
  match a.2 with
  | .proceed => proceed s a.1
  | call =>
      if (s.workers a.1).phase = .ready then
        match call with
        | .startTransaction => some (startTransaction s a.1)
        | .beginTransaction => some (beginTransaction s a.1)
        | .endTransaction => some (endTransaction s a.1)
        | .abortTransaction => some (abortTransaction s a.1)
        | .finishTransaction => some (finishTransaction s a.1)
        | .generateSnapshot => some (generateSnapshot s a.1)
        | .insertTuple => insertTuple s a.1
        | .scanTuple v => scanTuple v s a.1
        | .updateTuple => updateTuple s a.1
        | .deleteTuple => deleteTuple s a.1
        | .proceed => none
      else none

/-- A freshly started server: no transaction anywhere, the counters as they are
initialised or restored, the snapshot arrays as large as the slot table with
any content, any stored versions. -/
structure TransInit (s : TransSys n) : Prop where
  next_lt : s.info.nextTransactionId < xtidModulus
  next_pos : 0 < s.info.nextTransactionId
  high_le : s.info.highLevelXtid ≤ s.info.nextTransactionId
  detached : ∀ w, (s.workers w).mine = false ∧ (s.workers w).context = ⟨.idle, 0, false⟩ ∧
    (s.workers w).phase = .ready ∧ (s.workers w).scanned = none
  room : ∀ w, n ≤ (s.workers w).snapshot.xidArrMax
  rolledBack : s.rolledBack = []

end Toadb
