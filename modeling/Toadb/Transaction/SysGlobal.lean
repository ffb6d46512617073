/-
Toadb.Transaction.SysGlobal — the global data of the server, its file, and the server over
restarts (`toadmain.c`).

The file has two records behind each other: `SysGlobalData`, and the counters of
`xtid.c`. They are read at the start and written at the end, when `StopThreadPool` has
joined all workers. What `write` and `read` return is up to the system: they can deal
with fewer bytes than they are asked for.
-/
import Toadb.Lib.Bytes
import Toadb.Transaction.Control

namespace Toadb

open Bytes

/-! ## Records -/

/-- `SysGlobalContext`. -/
structure SysGlobalContext where
  /-- `fd > 0`. -/
  opened : Bool
  objectId : Nat
  transInfo : TransactionIDInfo

/-- `SYSGLOBALDATA_SIZE`. -/
def sysGlobalDataSize : Nat := 4

/-- `TRANSACTION_INFO_SIZE`. -/
def transactionInfoSize : Nat := 24

/-- `SysGlobalData` in memory. -/
def sysGlobalDataBytes (objectId : Nat) : List UInt8 := ofNat sysGlobalDataSize objectId

/-- `TransactionIDInfo` in memory. -/
def TransactionIDInfo.bytes (info : TransactionIDInfo) : List UInt8 :=
  ofNat 8 info.nextTransactionId ++ (ofNat 8 info.lowLevelXtid ++ ofNat 8 info.highLevelXtid)

/-- The counters with the given bytes. -/
def TransactionIDInfo.ofBytes (bs : List UInt8) : TransactionIDInfo :=
  let (nextTransactionId, bs) := splitNat 8 bs
  let (lowLevelXtid, bs) := splitNat 8 bs
  { nextTransactionId := nextTransactionId, lowLevelXtid := lowLevelXtid,
    highLevelXtid := toNat bs }

/-! ## The file -/

/-- `write` at a position. -/
def fileWrite (file : List UInt8) (pos : Nat) (bs : List UInt8) : List UInt8 :=
  file.take pos ++ List.replicate (pos - file.length) 0 ++ bs ++ file.drop (pos + bs.length)

/-- `read` at a position. -/
def fileRead (file : List UInt8) (pos size : Nat) : List UInt8 := (file.drop pos).take size

/-- `WriteSysGlobalData`; the two calls of `write` deal with at most `written` bytes. -/
def writeSysGlobalData (sysContext : SysGlobalContext) (written : Nat × Nat)
    (file : List UInt8) :
    Int × List UInt8 :=
  if sysContext.opened = false then (-1, file)
  else
    let data := (sysGlobalDataBytes sysContext.objectId).take written.1
    let file := fileWrite file 0 data
    if data.length ≠ sysGlobalDataSize then (-1, file)
    else
      let info := sysContext.transInfo.bytes.take written.2
      let file := fileWrite file sysGlobalDataSize info
      if info.length ≠ transactionInfoSize then (-1, file) else (0, file)

/-- `ReadSysGlobalData`; the two calls of `read` deal with at most `delivered` bytes, which
are in memory also when they are too few. -/
def readSysGlobalData (sysContext : SysGlobalContext) (delivered : Nat × Nat)
    (file : List UInt8) :
    Int × SysGlobalContext :=
  if sysContext.opened = false then (-1, sysContext)
  else
    let data := (fileRead file 0 sysGlobalDataSize).take delivered.1
    let sysContext :=
      { sysContext with
        objectId :=
          toNat (data ++ (sysGlobalDataBytes sysContext.objectId).drop data.length) }
    if data.length ≠ sysGlobalDataSize then (-1, sysContext)
    else
      let info := (fileRead file sysGlobalDataSize transactionInfoSize).take delivered.2
      let transInfo :=
        TransactionIDInfo.ofBytes (info ++ sysContext.transInfo.bytes.drop info.length)
      if info.length ≠ transactionInfoSize then
        (-1, { sysContext with transInfo := transInfo })
      else
        (0, { sysContext with
          transInfo :=
            { transInfo with
              highLevelXtid := transInfo.nextTransactionId
              lowLevelXtid := transInfo.nextTransactionId } })

/-! ## The server -/

/-- The server and its file. `allocated`, `boundAt`, `taken` and `restored` are history
variables that no step reads: the ids that were handed out, in order; how many there were when
a worker entered `GetActiveXtids`; the snapshots, each with this number; whether the counters
are those that the last start read. -/
structure ServerSys (n : Nat) where
  running : Bool
  opened : Bool
  objectId : Nat
  trans : TransSys n
  file : List UInt8
  allocated : List Nat
  boundAt : Fin n → Nat
  taken : List (SnapShotInfo × Nat)
  restored : Bool

variable {n : Nat}

/-- What the server can do. -/
inductive ServerCall (n : Nat) where
  | work (w : Fin n) (call : Call)
  | getAndIncObjectId
  /-- `ExitToad`. -/
  | stop (opens : Bool) (written : Nat × Nat)
  /-- `InitToad`; the memory of the snapshots is not initialised. -/
  | start (opens : Bool) (delivered : Nat × Nat) (snapshots : Fin n → SnapShotInfo)

/-- The ids `GetNewTransactionID` handed out between two values of the counters. -/
def handedOut (info info' : TransactionIDInfo) : List Nat :=
  if info'.nextTransactionId = info.nextTransactionId then [] else [info.nextTransactionId]

/-- The worker enters `GetActiveXtids`. -/
def entersScan (k k' : Worker) : Bool :=
  match k.phase, k'.phase with
  | .ready, .snapshotSlot .. => true
  | _, _ => false

/-- The worker stores its snapshot. -/
def leavesScan (k k' : Worker) : Bool :=
  match k.phase, k'.phase with
  | .snapshotSlot .., .ready => true
  | _, _ => false

/-- A step of a worker. -/
def ServerSys.work (s : ServerSys n) (w : Fin n) (trans : TransSys n) : ServerSys n :=
  let k := s.trans.workers w
  let k' := trans.workers w
  let ids := handedOut s.trans.info trans.info
  { s with
    trans := trans
    allocated := s.allocated ++ ids
    boundAt := if entersScan k k' then Function.update s.boundAt w s.allocated.length
      else s.boundAt
    taken := if leavesScan k k' then (k'.snapshot, s.boundAt w) :: s.taken else s.taken
    restored := s.restored && ids.isEmpty }

/-- `RecordSysGlobal`. -/
def ServerSys.stop (s : ServerSys n) (opens : Bool) (written : Nat × Nat) : ServerSys n :=
  let sysContext : SysGlobalContext := ⟨s.opened || opens, s.objectId, s.trans.info⟩
  { s with running := false, opened := false,
           file := (writeSysGlobalData sysContext written s.file).2 }

/-- `InitSysGlobal` and `InitTransactContext`, in a new process. -/
def ServerSys.start (s : ServerSys n) (opens : Bool) (delivered : Nat × Nat)
    (snapshots : Fin n → SnapShotInfo) : ServerSys n :=
  let (ret, sysContext) :=
    readSysGlobalData ⟨opens, 0, TransactionIDInfo.init⟩ delivered s.file
  { s with
    running := true
    opened := sysContext.opened
    objectId := sysContext.objectId
    trans :=
      { s.trans with
        info := sysContext.transInfo
        workers := fun w => ⟨false, ⟨.idle, 0, false⟩, .ready, snapshots w, none⟩ }
    restored := ret == 0 }

/-- One step. -/
def serverStep (s : ServerSys n) : ServerCall n → Option (ServerSys n)
  | .work w call => if s.running then (transStep s.trans (w, call)).map (s.work w) else none
  | .getAndIncObjectId =>
      if s.running then some { s with objectId := (s.objectId + 1) % 2 ^ 32 } else none
  | .stop opens written => if s.running then some (s.stop opens written) else none
  | .start opens delivered snapshots =>
      if s.running then none else some (s.start opens delivered snapshots)

/-- Before the first start: there is no record. -/
def serverInit (n : Nat) (isolationLevel : TransactionIsolationLevel) : ServerSys n where
  running := false
  opened := false
  objectId := 0
  trans :=
    { info := TransactionIDInfo.init
      workers := fun _ => ⟨false, ⟨.idle, 0, false⟩, .ready, ⟨0, 0, 0, []⟩, none⟩
      versions := []
      isolationLevel := isolationLevel
      rolledBack := [] }
  file := []
  allocated := []
  boundAt := fun _ => 0
  taken := []
  restored := false

end Toadb
