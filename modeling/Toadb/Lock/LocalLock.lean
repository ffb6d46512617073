/-
Toadb.Lock.LocalLock — the locks a thread has (`locallock.c`).

A thread lists the locks it has in `localRWlockTableInfo`, with the mode and how often each
was acquired. Only the cells below `localRWlockUsedPos` are read, so the table is the list of
these cells. What the functions of `rwlock.c` answer is up to the other threads: it is an
argument of a call. A call gives back its return value, the table, and what it did with the
lock itself.
-/
import Toadb.Lib.HeldLocks

namespace Toadb

variable {L : Type} [DecidableEq L]

/-! ## The table -/

/-- `RWLockMode`. -/
inductive RWLockMode where
  | null | read | write
  deriving DecidableEq, Repr

/-- `LocalLockInfo`; the lock can be NULL. -/
structure LocalLockInfo (L : Type) where
  lock : Option L
  lockMode : RWLockMode
  lockCnt : Nat
  deriving DecidableEq, Repr

/-- The cells of `localRWlockTableInfo` in use. -/
abbrev LocalLockTable (L : Type) := List (LocalLockInfo L)

/-- `MAX_LOCAL_LOCK_NUM`. -/
def maxLocalLockNum : Nat := 8

/-- `SearchLocalLockTable`. -/
def searchLocalLockTable (table : LocalLockTable L) (lock : L) : Option Nat :=
  table.findIdx? fun info => info.lock == some lock

/-- `RemoveLocalLock`: the cells behind it move down. -/
def removeLocalLock (table : LocalLockTable L) (rmIndex : Nat) : LocalLockTable L :=
  table.eraseIdx rmIndex

/-! ## The lock itself -/

/-- What happens to the lock itself. -/
inductive RWLockEvent (L : Type) where
  | locked (lock : L)
  | unlocked (lock : L)
  deriving DecidableEq, Repr

/-- `AcquireRWLockEx`: it waits until the lock is there, or there is an error. -/
def acquireRWLockEx (mode : RWLockMode) (granted : Bool) : Int :=
  if mode = .null then -1 else if granted then 0 else -1

/-- What `pthread_rwlock_tryrdlock` and `pthread_rwlock_trywrlock` answer. -/
inductive TryAnswer where
  | acquired | busy | error
  deriving DecidableEq, Repr

/-- `TryAcquireRWLockEx`. -/
def tryAcquireRWLockEx (mode : RWLockMode) (answer : TryAnswer) : Int :=
  if mode = .null then -1
  else
    match answer with
    | .acquired => 1
    | .busy => 0
    | .error => -1

/-- `ReleaseRWLockEx`. -/
def releaseRWLockEx (unlocks : Bool) : Int := if unlocks then 0 else -1

/-! ## The calls -/

/-- What a call does. -/
structure LocalLockResult (L : Type) where
  ret : Int
  table : LocalLockTable L
  event : Option (RWLockEvent L)
  deriving DecidableEq, Repr

/-- The body of `AcquireRWLockLocal` and `TryAcquireRWLockLocal`: `done` is what stands for
success, and `ret` what the function of `rwlock.c` returns. -/
def acquireLocal (done ret : Int) (table : LocalLockTable L) (lock : Option L)
    (mode : RWLockMode) :
    LocalLockResult L :=
  match lock with
  | none => ⟨-1, table, none⟩
  | some lock =>
      if maxLocalLockNum ≤ table.length then ⟨-1, table, none⟩
      else
        match searchLocalLockTable table lock with
        | some pos =>
            match table[pos]? with
            | some info =>
                if info.lockMode = mode then
                  ⟨done, table.set pos { info with lockCnt := info.lockCnt + 1 }, none⟩
                else ⟨-2, table, none⟩
            | none => ⟨-2, table, none⟩
        | none =>
            if ret = done then ⟨ret, table ++ [⟨some lock, mode, 1⟩], some (.locked lock)⟩
            else ⟨ret, table, none⟩

/-- `AcquireRWLockLocal`. -/
def acquireRWLockLocal (table : LocalLockTable L) (lock : Option L)
    (mode : RWLockMode) (granted : Bool) :
    LocalLockResult L :=
  acquireLocal 0 (acquireRWLockEx mode granted) table lock mode

/-- `TryAcquireRWLockLocal`. -/
def tryAcquireRWLockLocal (table : LocalLockTable L) (lock : Option L) (mode : RWLockMode)
    (answer : TryAnswer) : LocalLockResult L :=
  acquireLocal 1 (tryAcquireRWLockEx mode answer) table lock mode

/-- `ReleaseRWLockLocal`. The mode is only compared for the log. -/
def releaseRWLockLocal (table : LocalLockTable L) (lock : Option L)
    (_mode : RWLockMode) (unlocks : Bool) :
    LocalLockResult L :=
  match lock with
  | none => ⟨-1, table, none⟩
  | some lock =>
      if table.length = 0 then ⟨-1, table, none⟩
      else
        let event := if unlocks then some (.unlocked lock) else none
        match searchLocalLockTable table lock with
        | some rmIndex =>
            match table[rmIndex]? with
            | some info =>
                if 1 < info.lockCnt then
                  ⟨0, table.set rmIndex { info with lockCnt := info.lockCnt - 1 }, none⟩
                else
                  ⟨releaseRWLockEx unlocks,
                    if releaseRWLockEx unlocks = 0 then removeLocalLock table rmIndex
                      else table, event⟩
            | none => ⟨releaseRWLockEx unlocks, table, event⟩
        -- A lock that is not in the table is unlocked too.
        | none => ⟨releaseRWLockEx unlocks, table, event⟩

/-! ## A thread -/

/-- A call of a thread. -/
inductive LocalLockCall (L : Type) where
  | acquire (lock : Option L) (mode : RWLockMode) (granted : Bool)
  | tryAcquire (lock : Option L) (mode : RWLockMode) (answer : TryAnswer)
  | release (lock : Option L) (mode : RWLockMode) (unlocks : Bool)

/-- The table of a thread. `holds`, `acquires`, `releases` and `strays` are history variables
that no call reads: how often the thread has each lock itself, how many acquires and releases
of it have succeeded, and the locks it unlocked without having them. -/
structure LockThread (L : Type) where
  table : LocalLockTable L
  holds : L → Nat
  acquires : L → Nat
  releases : L → Nat
  strays : List L

/-- A thread that starts. -/
def LockThread.init : LockThread L := ⟨[], fun _ => 0, fun _ => 0, fun _ => 0, []⟩

/-- One more, when the call was about this lock and has succeeded. -/
def countCall (f : L → Nat) (lock : Option L) (succeeded : Bool) : L → Nat := fun l =>
  if succeeded = true ∧ lock = some l then f l + 1 else f l

/-- What happened to the locks themselves. -/
def LockThread.apply (s : LockThread L) : Option (RWLockEvent L) → LockThread L
  | none => s
  | some (.locked lock) => { s with holds := Function.update s.holds lock (s.holds lock + 1) }
  | some (.unlocked lock) =>
      if s.holds lock = 0 then { s with strays := lock :: s.strays }
      else { s with holds := Function.update s.holds lock (s.holds lock - 1) }

/-- One call. -/
def LockThread.call (s : LockThread L) : LocalLockCall L → LockThread L
  | .acquire lock mode granted =>
      let result := acquireRWLockLocal s.table lock mode granted
      { s.apply result.event with
        table := result.table
        acquires := countCall s.acquires lock (result.ret == 0) }
  | .tryAcquire lock mode answer =>
      let result := tryAcquireRWLockLocal s.table lock mode answer
      { s.apply result.event with
        table := result.table
        acquires := countCall s.acquires lock (result.ret == 1) }
  | .release lock mode unlocks =>
      let result := releaseRWLockLocal s.table lock mode unlocks
      { s.apply result.event with
        table := result.table
        releases := countCall s.releases lock (result.ret == 0) }

/-- A sequence of calls. -/
def LockThread.calls (s : LockThread L) (calls : List (LocalLockCall L)) : LockThread L :=
  calls.foldl LockThread.call s

/-! ## The end of a session -/

/-- The rest of the loop of `InitializeLocalLock`, with at most `fuel` rounds; `unlocks` is
what `pthread_rwlock_unlock` answers for each lock. The locks that are unlocked, and the
table. -/
def initializeLoop (unlocks : L → Bool) :
    Nat → Nat → LocalLockTable L → List L × LocalLockTable L
  | 0, _, table => ([], table)
  | fuel + 1, pos, table =>
      match table[pos]? with
      | none => ([], table)
      | some info =>
          match info.lock with
          | none => initializeLoop unlocks fuel (pos + 1) table
          | some lock =>
              let result := releaseRWLockLocal table (some lock) .null (unlocks lock)
              -- The cell at `pos` is another one when the lock was removed.
              let table := result.table.set pos ⟨none, .null, 0⟩
              let (unlocked, table) := initializeLoop unlocks fuel (pos + 1) table
              (if result.event = none then unlocked else lock :: unlocked, table)

/-- `InitializeLocalLock`: the locks that are unlocked, and the table, which has no cell in
use then. -/
def initializeLocalLock (unlocks : L → Bool)
    (table : LocalLockTable L) : List L × LocalLockTable L :=
  ((initializeLoop unlocks table.length 0 table).1, [])

/-- `ReleaseLocalLock`. -/
def releaseLocalLock (unlocks : L → Bool)
    (table : LocalLockTable L) : List L × LocalLockTable L :=
  initializeLocalLock unlocks table

end Toadb
