/-
Toadb.Transaction.Snapshot — the transaction counters, the slot table and
the snapshot test (`xtid.c`, `snapshot.c` and the snapshot half of
`transactionControl.c`).

Every function is the source's own, argument for argument. What the source
reads from a thread-local or global variable is an argument here: the
caller's own transaction id (`myTransaction`, `none` when it is NULL), the
counters, the slot table.

`GetActiveXtids` is one loop over the slots. Its body is the separate
definition `activeXtidsSlot`, because the transaction system of
`Transaction/Control.lean` takes the loop one slot at a time.

The running-transaction array is the list `runningXidArr`; its capacity
`xidArrMax` is the length of that list, as `CreateSnapshot` allocates it.
-/
import Toadb.Storage.TupleHeader
import Mathlib.Data.List.Basic

namespace Toadb

/-! ## Counters (`xtid.c`) -/

/-- `TransactionIDInfo`. -/
structure TransactionIDInfo where
  nextTransactionId : Nat
  /-- Minimal id of the running transactions. -/
  lowLevelXtid : Nat
  /-- Maximal id of the finished transactions. -/
  highLevelXtid : Nat
  deriving DecidableEq, Repr

/-- `transactionInfo = {1,0,0}`. -/
def TransactionIDInfo.init : TransactionIDInfo := ⟨1, 0, 0⟩

/-- `GetNewTransactionID`: the old counter, and the counter one up. -/
def getNewTransactionID (info : TransactionIDInfo) : Nat × TransactionIDInfo :=
  (info.nextTransactionId,
    { info with nextTransactionId := (info.nextTransactionId + 1) % xtidModulus })

/-- `SetHighLevelTransaction`. The source retries a compare-and-swap until
either the stored value is at least `xid` or the swap succeeds, so the
effect is this one atomic update. -/
def setHighLevelTransaction (info : TransactionIDInfo) (xid : Nat) : TransactionIDInfo :=
  if xtidIsInvalid xid then info
  else if info.highLevelXtid ≥ xid then info
  else { info with highLevelXtid := xid }

/-- `TransactionState`. -/
inductive TransactionState where
  | running | commited | abort | unknow
  deriving DecidableEq, Repr

/-- `GetTransactionState`: the body is a stub ("TODO") that never looks at
the id. -/
def getTransactionState (_xtid : Nat) : TransactionState := .commited

/-! ## Transaction slots (`transactionControl.h`) -/

/-- `TransactionFSMState`. -/
inductive TransactionFSMState where
  | idle | start | begin | inprocess | commit | abort | unknown
  deriving DecidableEq, Repr

/-- `TransactionContext`: one worker's entry of the shared slot table. -/
structure TransactionContext where
  ts : TransactionFSMState
  transactionID : Nat
  /-- Whether the transaction has taken its snapshot. -/
  snapshot : Bool
  deriving DecidableEq, Repr

/-- `SnapShotInfo`. -/
structure SnapShotInfo where
  highLevel : Nat
  lowLevel : Nat
  xidNum : Nat
  runningXidArr : List Nat
  deriving DecidableEq, Repr

/-- `xidArrMax`: the capacity of the array. -/
def SnapShotInfo.xidArrMax (snapshot : SnapShotInfo) : Nat := snapshot.runningXidArr.length

/-- The ids that count: the first `xidNum` cells of the array. -/
def SnapShotInfo.runningXids (snapshot : SnapShotInfo) : List Nat :=
  snapshot.runningXidArr.take snapshot.xidNum

/-! ## Taking a snapshot -/

/-- The local variables of the loop of `GetActiveXtids`. `full` is set when
the loop was left by its `break`. -/
structure ActiveXtids where
  xtids : List Nat
  count : Nat
  min : Nat
  full : Bool
  deriving DecidableEq, Repr

/-- The slot is passed over: idle, or the caller's own transaction. -/
def slotSkipped (own : Option Nat) (slot : TransactionContext) : Bool :=
  slot.ts == .idle || own == some slot.transactionID

/-- One iteration of the loop of `GetActiveXtids`. -/
def activeXtidsSlot (own : Option Nat) (max : Nat) (acc : ActiveXtids)
    (slot : TransactionContext) : ActiveXtids :=
  if acc.full then acc
  else if slotSkipped own slot then acc
  -- The source compares the cell it is about to overwrite, not the slot's id.
  else if max < acc.xtids.getD acc.count 0 then acc
  else
    { xtids := acc.xtids.set acc.count slot.transactionID
      count := acc.count + 1
      min := if slot.transactionID < acc.min then slot.transactionID else acc.min
      full := decide (acc.xtids.length ≤ acc.count + 1) }

/-- The upper bound a snapshot uses: `GetHighLevelTransaction() + 1`. -/
def snapshotMax (info : TransactionIDInfo) : Nat := (info.highLevelXtid + 1) % xtidModulus

/-- The low water mark before the loop: "low limit include current
transaction". -/
def snapshotMin (own : Option Nat) (max : Nat) : Nat :=
  match own with
  | some xid => if xid < max then xid else max
  | none => max

/-- The loop variables on entry. -/
def activeXtidsInit (own : Option Nat) (max : Nat) (xtids : List Nat) : ActiveXtids :=
  { xtids := xtids, count := 0, min := snapshotMin own max, full := false }

/-- The loop of `GetActiveXtids`. -/
def activeXtidsLoop (own : Option Nat) (max : Nat) (slots : List TransactionContext)
    (acc : ActiveXtids) : ActiveXtids :=
  slots.foldl (activeXtidsSlot own max) acc

/-- `GetActiveXtids`, from the counters, the slot table and the old array. -/
def getActiveXtids (info : TransactionIDInfo) (own : Option Nat)
    (slots : List TransactionContext) (xtids : List Nat) : ActiveXtids :=
  activeXtidsLoop own (snapshotMax info) slots
    (activeXtidsInit own (snapshotMax info) xtids)

/-- The snapshot object the loop variables are stored into. -/
def ActiveXtids.toSnapshot (acc : ActiveXtids) (max : Nat) : SnapShotInfo :=
  { highLevel := max, lowLevel := acc.min, xidNum := acc.count, runningXidArr := acc.xtids }

/-- `GetSnapshot`: refill the reused snapshot object. -/
def getSnapshot (info : TransactionIDInfo) (own : Option Nat)
    (slots : List TransactionContext) (snapshot : SnapShotInfo) : SnapShotInfo :=
  (getActiveXtids info own slots snapshot.runningXidArr).toSnapshot (snapshotMax info)

/-! ## Judging a version -/

/-- `TupleVisibility`. -/
inductive TupleVisibility where
  | tupleInvisible | tupleVisible | inSnapshot | outSnapshot | tupleUnknown
  deriving DecidableEq, Repr

/-- `XtidIsInSnapshot`. -/
def xtidIsInSnapshot (xtid : Nat) (snapshot : SnapShotInfo) : Bool :=
  snapshot.runningXids.contains xtid

/-- `TupleVisibililtySnapshot`: is the transaction running for this snapshot? -/
def tupleVisibililtySnapshot (currxtid : Nat) (snapshot : SnapShotInfo) : TupleVisibility :=
  if currxtid < snapshot.lowLevel then .outSnapshot
  else if currxtid < snapshot.highLevel then
    if xtidIsInSnapshot currxtid snapshot then .inSnapshot else .outSnapshot
  else .inSnapshot

/-- `TupleVisibilitySatisfy`; `curr` is `GetCurrentTransactionID()`. -/
def tupleVisibilitySatisfy (curr : Nat) (tupHeader : TupleHeader)
    (snapshot : Option SnapShotInfo) : TupleVisibility :=
  match snapshot with
  | none => .tupleVisible
  | some snapshot =>
      if xtidIsInvalid tupHeader.tmin then .tupleInvisible
      else if tupHeader.tmin ≠ curr ∧
          (tupleVisibililtySnapshot tupHeader.tmin snapshot = .inSnapshot ∨
            getTransactionState tupHeader.tmin ≠ .commited) then .tupleInvisible
      else if xtidIsInvalid tupHeader.tmax then .tupleVisible
      -- The source asks for the state of `tmin` here too.
      else if tupHeader.tmax ≠ curr ∧
          (tupleVisibililtySnapshot tupHeader.tmax snapshot = .inSnapshot ∨
            getTransactionState tupHeader.tmin ≠ .commited) then .tupleVisible
      else .tupleInvisible

/-- `TupleUpdateResult`. -/
inductive TupleUpdateResult where
  | ok | invsible | begingModify | upated | deleted | selfModifed | unknown
  deriving DecidableEq, Repr

/-- `TupleUpdateSatisfy` (the branch the source compiles). -/
def tupleUpdateSatisfy (curr : Nat) (tupHeader : TupleHeader) : TupleUpdateResult :=
  if xtidIsInvalid tupHeader.tmin then .invsible
  else if getTransactionState tupHeader.tmin ≠ .commited then
    if curr = tupHeader.tmin then
      if xtidIsInvalid tupHeader.tmax then .ok
      else if curr ≠ tupHeader.tmax then .ok
      else .invsible
    else .invsible
  else if xtidIsInvalid tupHeader.tmax then .ok
  else .invsible

/-! ## Stamping a version -/

/-- `ComputeXminTupleHeader`: the header of a newly inserted version. -/
def computeXminTupleHeader (curr : Nat) (tupHeader : TupleHeader) : TupleHeader :=
  { tupHeader with cid := 0, tmin := curr, tmax := invalidXtid, tinfo := cleanXtid }

/-- `ComputeXmaxTupleHeader`: the headers of the new and of the superseded
version. -/
def computeXmaxTupleHeader (curr : Nat) (tupHeader oldHeader : TupleHeader) :
    TupleHeader × TupleHeader :=
  (computeXminTupleHeader curr tupHeader, { oldHeader with cid := 0, tmax := curr })

end Toadb
