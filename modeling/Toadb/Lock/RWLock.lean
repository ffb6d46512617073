/-
Toadb.Lock.RWLock — the bookkeeping of a reader-writer lock (`rwlock.c`).

`RWLockInfo` has the lock of the system and beside it a mode and a count of
readers, which each thread writes on its own. The lock of the system is
taken to be right: `writer` and `readers` are the threads that have it. When it
refuses, and with which error, is left open, and it has a highest number of
readers. One step is one access to what the threads share:

    AcquireRWLock      lock | compare the mode | set it | test it | add one
    TryAcquireRWLock   try to lock | the same, whatever the answer was
    ReleaseRWLock      test the mode | clear it, or subtract one | unlock

A call that waits for the lock, and one that tries again after `EAGAIN`, has not begun.
`freedBy` is a history variable that no step reads: how the thread that gave the
lock back last had it.
-/
import Toadb.Lib.Transition
import Toadb.Lock.LocalLock
import Mathlib.Logic.Function.Basic

namespace Toadb

/-! ## State -/

/-- The next access of a thread. `acquired` says whether the lock of the system was given to
it. -/
inductive RWLockPoint where
  /-- In no call. -/
  | outside
  /-- `if(lock->lockMode != mode)`. -/
  | compareMode (mode : RWLockMode) (acquired : Bool)
  /-- `lock->lockMode = mode`. -/
  | setMode (mode : RWLockMode) (acquired : Bool)
  /-- `if(lock->lockMode == RWLock_READ)`. -/
  | testRead (mode : RWLockMode) (acquired : Bool)
  /-- `atomic_fetch_add`. -/
  | addCnt (mode : RWLockMode) (acquired : Bool)
  /-- `if(lock->lockMode == RWLock_WRITE)`. -/
  | testWrite
  /-- `atomic_fetch_sub`. -/
  | subCnt
  /-- `lock->lockMode = RWLock_NULL`, as a writer or after the count. -/
  | clearMode (subtracted : Bool)
  /-- `pthread_rwlock_unlock`. -/
  | unlock (subtracted : Bool)
  deriving DecidableEq, Repr

/-- `RWLockInfo`, the lock of the system and the threads. -/
structure RWLockInfo (n : Nat) where
  writer : Option (Fin n)
  readers : List (Fin n)
  lockMode : RWLockMode
  rlockCnt : Nat
  points : Fin n → RWLockPoint
  freedBy : RWLockMode

/-- `InitRWLock`. -/
def RWLockInfo.init (n : Nat) : RWLockInfo n := ⟨none, [], .null, 0, fun _ => .outside, .null⟩

namespace RWLockInfo

variable {n : Nat}

/-- Overwrite where a thread is. -/
def setPoint (s : RWLockInfo n) (t : Fin n) (point : RWLockPoint) : RWLockInfo n :=
  { s with points := Function.update s.points t point }

/-! ## The lock of the system -/

/-- The lock can be given in this mode. -/
def available (s : RWLockInfo n) (maxReaders : Nat) : RWLockMode → Bool
  | .null => false
  | .read => s.writer.isNone && decide (s.readers.length < maxReaders)
  | .write => s.writer.isNone && s.readers.isEmpty

/-- The lock is given to the thread. -/
def take (s : RWLockInfo n) (t : Fin n) : RWLockMode → RWLockInfo n
  | .null => s
  | .read => { s with readers := t :: s.readers }
  | .write => { s with writer := some t }

/-- The thread has the lock. -/
def holds (s : RWLockInfo n) (t : Fin n) : Bool := s.writer == some t || s.readers.contains t

/-- The thread gives the lock back. -/
def giveBack (s : RWLockInfo n) (t : Fin n) : RWLockInfo n :=
  if s.writer = some t then { s with writer := none, freedBy := .write }
  else { s with readers := s.readers.erase t, freedBy := .read }

/-! ## Steps -/

/-- The next access of a call. -/
def proceed (s : RWLockInfo n) (t : Fin n) : Option (RWLockInfo n) :=
  match s.points t with
  | .outside => none
  | .compareMode mode acquired =>
      some (s.setPoint t (if s.lockMode = mode then .testRead mode acquired
        else .setMode mode acquired))
  | .setMode mode acquired =>
    some ({ s with lockMode := mode }.setPoint t (.testRead mode acquired))
  | .testRead mode acquired =>
    some (s.setPoint t (if s.lockMode = .read then .addCnt mode acquired else .outside))
  | .addCnt _ _ => some ({ s with rlockCnt := (s.rlockCnt + 1) % 2 ^ 32 }.setPoint t .outside)
  | .testWrite =>
    some (s.setPoint t (if s.lockMode = .write then .clearMode false else .subCnt))
  -- `atomic_fetch_sub` returns the count it has found
  | .subCnt => some ({ s with rlockCnt := (s.rlockCnt + (2 ^ 32 - 1)) % 2 ^ 32 }.setPoint t
      (if s.rlockCnt = 0 then .clearMode true else .unlock true))
  | .clearMode subtracted =>
    some ({ s with lockMode := .null }.setPoint t (.unlock subtracted))
  | .unlock _ => some ((s.giveBack t).setPoint t .outside)

/-- `AcquireRWLock`, `TryAcquireRWLock` and `ReleaseRWLock` up to the first access behind the
lock, and the rest of a call. -/
inductive Act (n : Nat) where
  | acquire (t : Fin n) (mode : RWLockMode) (granted : Bool)
  | tryAcquire (t : Fin n) (mode : RWLockMode) (answer : TryAnswer)
  | release (t : Fin n) (mode : RWLockMode)
  | proceed (t : Fin n)
  deriving DecidableEq, Repr

/-- The lock was given to the thread. -/
def enter (s : RWLockInfo n) (maxReaders : Nat) (t : Fin n)
    (mode : RWLockMode) : Option (RWLockInfo n) :=
  if s.available maxReaders mode = true then
    some ((s.take t mode).setPoint t (.compareMode mode true)) else none

/-- One step. A thread releases what it has; the mode is only compared for the log. -/
def step (maxReaders : Nat) (s : RWLockInfo n) : Act n → Option (RWLockInfo n)
  | .acquire t mode granted =>
      if s.points t ≠ .outside then none
      else if mode = .null ∨ granted = false then some s
      else s.enter maxReaders t mode
  | .tryAcquire t mode answer =>
      if s.points t ≠ .outside then none
      else if mode = .null then some s
      else if answer = .acquired then s.enter maxReaders t mode
      else some (s.setPoint t (.compareMode mode false))
  | .release t _ =>
      if s.points t = .outside ∧ s.holds t = true then
        some (s.setPoint t .testWrite) else none
  | .proceed t => s.proceed t

end RWLockInfo

end Toadb
