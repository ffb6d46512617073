/-
Toadb.Buffer.AllocBuffer — the allocation of a buffer by a worker that is alone
(`AllocBuffer` of `buffer.c`, `ClockSweep` of `bufferPool.c`).

The pool is that of `Pool.lean`, where the same code is cut into the steps of many workers.
Here one worker runs `AllocBuffer` to its end and nobody else does anything, so a lock that is
not in its table of local locks is free: `LockBufDesc` and `TryLockBufDesc` fail for what the
table says only, and nobody looks at what `LockBufDesc` and `UnLockBufDesc` return. The locks
of the pool and of the hash table are taken and given back in between and leave the table as
it was.

The loops may not end, so they have a fuel; no result is "not enough fuel".
-/
import Toadb.Buffer.Pool
import Toadb.Lib.Clock
import Toadb.Lock.LocalLock

namespace Toadb

variable {N m : Nat}

/-! ## The worker and the descriptors -/

/-- The pool and the `localRWlockTableInfo` of the worker. -/
structure AllocState (N m : Nat) where
  pool : PoolState N m
  localLocks : LocalLockTable (Fin N)

namespace AllocState

/-- Overwrite one descriptor. -/
def setDesc (s : AllocState N m) (id : Fin N) (d : BufferDesc m) : AllocState N m :=
  { s with pool := s.pool.setDesc id d }

/-- `LockBufDesc`. -/
def lockBufDesc (s : AllocState N m) (id : Fin N) (mode : RWLockMode) : AllocState N m :=
  { s with localLocks := (acquireRWLockLocal s.localLocks (some id) mode true).table }

/-- `TryLockBufDesc`. -/
def tryLockBufDesc (s : AllocState N m) (id : Fin N)
    (mode : RWLockMode) : Int × AllocState N m :=
  let result := tryAcquireRWLockLocal s.localLocks (some id) mode .acquired
  (result.ret, { s with localLocks := result.table })

/-- `UnLockBufDesc`. -/
def unLockBufDesc (s : AllocState N m) (id : Fin N) (mode : RWLockMode) : AllocState N m :=
  { s with localLocks := (releaseRWLockLocal s.localLocks (some id) mode true).table }

/-- `PinBuffer`. -/
def pinBuffer (s : AllocState N m) (id : Fin N) : AllocState N m :=
  s.setDesc id (s.pool.bufferDesc id).pin

/-- `unPinBuffer`. -/
def unPinBuffer (s : AllocState N m) (id : Fin N) : AllocState N m :=
  s.setDesc id (s.pool.bufferDesc id).unPin

end AllocState

/-! ## ClockSweep -/

/-- One round of the loop of `ClockSweep`. -/
def clockRound (id : Fin N) (s : AllocState N m) : Clock.Round (AllocState N m) :=
  let (ret, s) := s.tryLockBufDesc id .read
  if ret ≤ 0 then .goOn s
  else
    let d := s.pool.bufferDesc id
    if d.isValid = .invalid then .stop s
    else
      let d := { d with usedCnt := d.usedCnt - 1 }
      let s := s.setDesc id d
      if d.refCnt = 0 ∧ d.usedCnt = 0 then .stop s else .goOn (s.unLockBufDesc id .read)

/-- `ClockSweep` from `RETRY` on. A `BUFFERID` is nothing when it is `INVLID_BUFFER`. -/
def clockSweepFrom [NeZero N] : Nat → Fin N → AllocState N m →
    Option (Option (Fin N) × AllocState N m)
  | 0, _, _ => none
  | fuel + 1, id, s =>
      match Clock.sweep clockRound fuel id s with
      | none => none
      | some (id, s) =>
          let s := (s.unLockBufDesc id .read).lockBufDesc id .write
          let d := s.pool.bufferDesc id
          if d.isValid = .invalid ∨ (d.refCnt = 0 ∧ d.usedCnt = 0) then
            some (some id, { s with pool := { s.pool with start := id + 1 } })
          else clockSweepFrom fuel id (s.unLockBufDesc id .write)

/-- `ClockSweep`. -/
def clockSweep [NeZero N] (fuel : Nat)
    (s : AllocState N m) : Option (Option (Fin N) × AllocState N m) :=
  clockSweepFrom fuel s.pool.start s

/-! ## AllocBuffer -/

/-- What `AllocBuffer` writes to `found`. -/
inductive BufferFound where
  | found | empty
  deriving DecidableEq, Repr

/-- The returned buffer, if it is not NULL, and `found`, if it was written. -/
structure AllocResult (N : Nat) where
  bufferId : Option (Fin N)
  found : Option BufferFound
  deriving DecidableEq

/-- Where `AllocBuffer` goes from `INIT_TAG`. -/
inductive AllocNext (N : Nat) where
  | retBuf (result : AllocResult N)
  | refind
  | findRecheck (bufferId : Fin N)

namespace AllocState

/-- `FIND_RECHECK` with a buffer; no result: it was swept out. -/
def findRecheck (s : AllocState N m) (t : BufferTag)
    (id : Fin N) : Option (AllocResult N) × AllocState N m :=
  let s := (s.lockBufDesc id .write).pinBuffer id
  let d := s.pool.bufferDesc id
  if t = d.bufferTag ∧ d.isValid ≠ .invalid then
    -- A page that is not read yet stays locked.
    if d.isValid = .tag then (some ⟨some id, some .empty⟩, s)
    else (some ⟨some id, some .found⟩, s.unLockBufDesc id .write)
  else (none, (s.unPinBuffer id).unLockBufDesc id .write)

/-- `GetFreeBufferId`. -/
def getFreeBufferId (s : AllocState N m) : Option (Fin N) × AllocState N m :=
  let (id, freeList) := Toadb.getFreeBufferId s.pool
  (id, { s with pool := { s.pool with freeList := freeList } })

/-- `CleanPageBuffer`. -/
def cleanPageBuffer (s : AllocState N m) (id : Fin N) : AllocState N m :=
  let d := s.pool.bufferDesc id
  let table := s.pool.hashTable
  let table := (hashDeleteEntry table (table.getHashKey d.bufferTag) d.bufferTag).2
  { s with pool := { s.pool with hashTable := table } }.setDesc id d.clean

/-- `INIT_TAG`. -/
def initTag (s : AllocState N m) (t : BufferTag)
    (id : Fin N) : AllocNext N × AllocState N m :=
  let d := s.pool.bufferDesc id
  if d.isValid = .invalid then
    let s := s.setDesc id (d.initTag t)
    match hashGetFreeEntry s.pool.hashTable (s.pool.hashTable.getHashKey t) t id with
    | (.insert, some _, table) =>
        (.retBuf ⟨some id, some .empty⟩,
          { s with pool := { s.pool with hashTable := table } })
    | (.find, some entry, table) =>
        (.findRecheck (table.element entry).value, (s.unPinBuffer id).unLockBufDesc id .write)
    | _ => (.refind, (s.unPinBuffer id).unLockBufDesc id .write)
  else (.refind, (s.unPinBuffer id).unLockBufDesc id .write)

/-- From "find free list" to the end of `INIT_TAG`. -/
def takeBuffer [NeZero N] (fuel : Nat) (s : AllocState N m) (t : BufferTag) :
    Option (AllocNext N × AllocState N m) :=
  match s.getFreeBufferId with
  | (some id, s) => some (((s.lockBufDesc id .write).pinBuffer id).initTag t id)
  | (none, s) =>
      match clockSweep fuel s with
      | none => none
      | some (some id, s) => some (((s.pinBuffer id).cleanPageBuffer id).initTag t id)
      | some (none, s) => some (.retBuf ⟨none, none⟩, s)

end AllocState

/-- `AllocBuffer` from `FIND_RECHECK` on. -/
def allocBufferFrom [NeZero N] (t : BufferTag) : Nat → Option (Fin N) → AllocState N m →
    Option (AllocResult N × AllocState N m)
  | 0, _, _ => none
  | fuel + 1, bufferId, s =>
      let (result, s) := match bufferId with
        | some id => s.findRecheck t id
        | none => (none, s)
      match result with
      | some result => some (result, s)
      | none =>
          match s.takeBuffer fuel t with
          | none => none
          | some (.retBuf result, s) => some (result, s)
          | some (.refind, s) => allocBufferFrom t fuel (searchBuffer s.pool t) s
          | some (.findRecheck id, s) => allocBufferFrom t fuel (some id) s

/-- `AllocBuffer`. -/
def allocBuffer [NeZero N] (fuel : Nat) (s : AllocState N m) (t : BufferTag) :
    Option (AllocResult N × AllocState N m) :=
  allocBufferFrom t fuel (searchBuffer s.pool t) s

end Toadb
