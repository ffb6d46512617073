/-
Toadb.Lock.SpinLock — spin locks (`spinlock.c`) and the locks of a hash table
(`HashLockPartition` and `HashLockFreeList` of `hashtab.c`).

A lock is a flag that is exchanged for 1 by the threads that want it; as long as it is set it
is only read. After each attempt that fails a thread counts up to `SPIN_DELAY_MAX`, so many
times and once more, and then it leaves the loop as it does with the lock. None of the callers
looks at what is returned.

One step is one access, or the count between two attempts.
-/
import Toadb.Lib.Transition
import Mathlib.Logic.Function.Basic

namespace Toadb

/-- `SPIN_DELAY_MAX`. -/
def spinDelayMax : Nat := 10000

/-- Where a thread is with a lock. -/
inductive SpinPoint where
  | outside
  /-- `lock->stom` in `TAS_SPIN`. -/
  | test (delays curDelays : Nat)
  /-- `spin_tas`. -/
  | tas (delays curDelays : Nat)
  /-- `spin_delay`, and the count. -/
  | delay (delays curDelays : Nat)
  /-- Past `SpinLockAquire`. -/
  | inside
  deriving DecidableEq, Repr

/-- The counts after an attempt that has failed; the last one leaves the loop. -/
def countDelay (delays curDelays : Nat) : SpinPoint :=
  if spinDelayMax < curDelays + 1 then
    if spinDelayMax < delays + 1 then .inside else .test (delays + 1) 0
  else .test delays (curDelays + 1)

/-- The locks `L`, and `n` threads. -/
structure SpinSys (n : Nat) (L : Type) where
  stom : L → Bool
  points : Fin n → L → SpinPoint

/-- A call, or the next step of one. -/
inductive SpinAct (n : Nat) (L : Type) where
  | acquire (t : Fin n) (lock : L)
  | release (t : Fin n) (lock : L)
  | proceed (t : Fin n) (lock : L)
  deriving DecidableEq, Repr

namespace SpinSys

variable {n : Nat} {L : Type} [DecidableEq L]

/-- `SpinLockInit` of every lock. -/
def init (n : Nat) (L : Type) : SpinSys n L := ⟨fun _ => false, fun _ _ => .outside⟩

/-- Overwrite where a thread is with a lock. -/
def setPoint (s : SpinSys n L) (t : Fin n) (lock : L) (point : SpinPoint) : SpinSys n L :=
  { s with points := Function.update s.points t (Function.update (s.points t) lock point) }

/-- Overwrite the flag of a lock. -/
def setStom (s : SpinSys n L) (lock : L) (stom : Bool) : SpinSys n L :=
  { s with stom := Function.update s.stom lock stom }

/-- The next step of `SpinLockAquire`. -/
def proceed (s : SpinSys n L) (t : Fin n) (lock : L) : Option (SpinSys n L) :=
  match s.points t lock with
  | .outside | .inside => none
  | .test delays cur =>
    some (s.setPoint t lock (if s.stom lock = true then .delay delays cur
      else .tas delays cur))
  | .tas delays cur =>
      some ((s.setStom lock true).setPoint t lock
        (if s.stom lock = true then .delay delays cur else .inside))
  | .delay delays cur => some (s.setPoint t lock (countDelay delays cur))

/-- One step. `SpinLockRelease` is called by a thread that is past `SpinLockAquire`. -/
def step (s : SpinSys n L) : SpinAct n L → Option (SpinSys n L)
  | .acquire t lock =>
    if s.points t lock = .outside then some (s.setPoint t lock (.test 0 0)) else none
  | .release t lock =>
      if s.points t lock = .inside then
        some ((s.setStom lock false).setPoint t lock .outside) else none
  | .proceed t lock => s.proceed t lock

end SpinSys

/-! ## The locks of a hash table -/

/-- `segLock` of a partition, and `freeListLock`. -/
inductive HashLock where
  | partition (index : Nat)
  | freeList
  deriving DecidableEq, Repr

/-- `HashLockPartition`. -/
def hashLockPartition {n : Nat} (t : Fin n) (partition : Nat) : SpinAct n HashLock :=
  .acquire t (.partition partition)

/-- `HashLockPartitionRelease`. -/
def hashLockPartitionRelease {n : Nat} (t : Fin n) (partition : Nat) : SpinAct n HashLock :=
  .release t (.partition partition)

/-- `HashLockFreeList`. -/
def hashLockFreeList {n : Nat} (t : Fin n) : SpinAct n HashLock := .acquire t .freeList

/-- `HashLockReleaseFreeList`. -/
def hashLockReleaseFreeList {n : Nat} (t : Fin n) : SpinAct n HashLock := .release t .freeList

/-- What is edited under a lock: the entries on the free list, and the chain of a bucket. -/
inductive HashPart where
  | freeEntries
  | chain (partition bucket : Nat)
  deriving DecidableEq, Repr

/-- The lock. -/
def HashPart.lock : HashPart → HashLock
  | .freeEntries => .freeList
  | .chain partition _ => .partition partition

end Toadb
