/-
Toadb.Buffer.Pool — the shared buffer pool and the workers that use it
(`bufferPool.c`, and `ReadPage`, `AllocBuffer`, `CleanPageBuffer`,
`ReleasePage` of `buffer.c`).

A worker inside `ReadPage` is at one of the places `PoolPhase`; `poolStep`
takes it over the next lock-protected section. The fields of a descriptor are
read and written under the descriptor's lock only, so what a worker does to
a descriptor it has locked stands in the step of the next other lock it
takes: `INIT_TAG` writes the tag in the step of `HashGetFreeEntry`, and
`CleanPageBuffer` invalidates in the step that unlinks the old tag.

No caller sets `isDirty`, and `InvalidateBuffer` (the only way back onto the
free list) has no caller. The hash function is a parameter.
-/
import Toadb.Buffer.HashTable
import Mathlib.Data.List.FinRange
import Mathlib.Data.Fin.Basic
import Mathlib.Algebra.Order.Ring.Int

namespace Toadb

/-! ## Descriptors -/

/-- `ForkType`. -/
inductive ForkType where
  | main | group
  deriving DecidableEq, Repr

/-- `BufferTag`. -/
structure BufferTag where
  databaseId : Int
  tableId : Int
  segno : Int
  pageno : Int
  forkNum : ForkType
  deriving DecidableEq, Repr

/-- The states of `BufferDesc.isValid`; `tag` is a buffer whose page is not
read yet. -/
inductive BufferValidFlag where
  | invalid | vlid | tag
  deriving DecidableEq, Repr

/-- `BufferDesc`, for `m` workers. `lock` is the worker that holds the write
lock. -/
structure BufferDesc (m : Nat) where
  bufferTag : BufferTag
  isValid : BufferValidFlag
  isDirty : Bool
  refCnt : Nat
  usedCnt : Nat
  lock : Option (Fin m)

/-- `USE_COUNT_MAX`. -/
def useCountMax : Nat := 5

variable {N m : Nat}

/-- `PinBuffer`. -/
def BufferDesc.pin (d : BufferDesc m) : BufferDesc m :=
  { d with usedCnt := useCountMax, refCnt := d.refCnt + 1 }

/-- `unPinBuffer`. -/
def BufferDesc.unPin (d : BufferDesc m) : BufferDesc m :=
  { d with refCnt := d.refCnt - 1 }

/-- Overwrite the lock. -/
def BufferDesc.setLock (d : BufferDesc m) (lock : Option (Fin m)) : BufferDesc m :=
  { d with lock := lock }

/-- `unPinBuffer` and `UnLockBufDesc`. -/
def BufferDesc.leave (d : BufferDesc m) : BufferDesc m := d.unPin.setLock none

/-- The writes of `CleanPageBuffer`; `FlushPage` clears the dirty flag. -/
def BufferDesc.clean (d : BufferDesc m) : BufferDesc m :=
  { d with isDirty := if d.isDirty then false else d.isDirty, isValid := .invalid }

/-- The writes after `INIT_TAG`. -/
def BufferDesc.initTag (d : BufferDesc m) (bufferTag : BufferTag) : BufferDesc m :=
  { d with isValid := .tag, bufferTag := bufferTag, isDirty := false }

/-! ## The pool -/

/-- Where a worker is inside `ReadPage`; `t` is the requested tag. -/
inductive PoolPhase (N : Nat) where
  | idle
  /-- `REFIND`. -/
  | search (t : BufferTag)
  /-- `FIND_RECHECK` with a buffer id. -/
  | recheck (t : BufferTag) (id : Fin N)
  /-- Before `GetFreeBufferId`. -/
  | freeList (t : BufferTag)
  /-- Before the lock of a buffer from the free list. -/
  | lockFree (t : BufferTag) (id : Fin N)
  /-- The loop of `ClockSweep`. -/
  | sweep (t : BufferTag) (id : Fin N)
  /-- The write lock after that loop. -/
  | sweepLock (t : BufferTag) (id : Fin N)
  /-- `PinBuffer` and `CleanPageBuffer` on the locked victim. -/
  | clean (t : BufferTag) (id : Fin N)
  /-- `PutFreeList` inside `HashDeleteEntry`. -/
  | putFree (t : BufferTag) (id : Fin N) (entry : Nat)
  /-- `INIT_TAG` on a locked buffer. -/
  | initTag (t : BufferTag) (id : Fin N)
  /-- `GetEntryValue` of the entry another worker inserted. -/
  | readEntry (t : BufferTag) (entry : Nat)
  /-- `TableRead` into a locked buffer. -/
  | load (t : BufferTag) (id : Fin N)
  deriving DecidableEq

/-- `g_bufferPoolContext` and `g_bufferHashTable`, the place of each worker and
the pages it has got and not released. -/
structure PoolState (N m : Nat) where
  bufferDesc : Fin N → BufferDesc m
  freeList : List (Fin N)
  /-- `start` of `ClockSweep`. -/
  start : Fin N
  hashTable : HashTableInfo BufferTag (Fin N)
  phase : Fin m → PoolPhase N
  pages : Fin m → List (Fin N)

/-- Overwrite one descriptor. -/
def PoolState.setDesc (s : PoolState N m) (id : Fin N) (d : BufferDesc m) : PoolState N m :=
  { s with bufferDesc := Function.update s.bufferDesc id d }

/-- Move one worker. -/
def PoolState.goto (s : PoolState N m) (w : Fin m) (p : PoolPhase N) : PoolState N m :=
  { s with phase := Function.update s.phase w p }

/-- `ReadPage` returns buffer `id`. -/
def PoolState.got (s : PoolState N m) (w : Fin m) (id : Fin N) : PoolState N m :=
  { s with pages := Function.update s.pages w (id :: s.pages w) }

/-- `CreateBufferPool`: buffer 0 is the head of the free list and not on it. -/
def createBufferPool (N m : Nat) [NeZero N] (getHashKey : BufferTag → Nat) : PoolState N m :=
  let zeroTag : BufferTag := ⟨0, 0, 0, 0, .main⟩
  { bufferDesc := fun _ => ⟨zeroTag, .invalid, false, 0, 0, none⟩
    freeList := (List.finRange N).tail
    start := 0
    hashTable := hashTableCreate 4 N getHashKey ⟨0, zeroTag, 0⟩
    phase := fun _ => .idle
    pages := fun _ => [] }

/-! ## The steps of ReadPage -/

/-- `SearchBuffer`. -/
def searchBuffer (s : PoolState N m) (t : BufferTag) : Option (Fin N) := s.hashTable.lookup t

/-- `FIND_RECHECK`: the tag is compared again under the descriptor's lock. -/
def findRecheck (s : PoolState N m) (w : Fin m) (t : BufferTag) (id : Fin N) :
    Option (PoolState N m) :=
  let d := s.bufferDesc id
  if d.lock = none then
    if t = d.bufferTag ∧ d.isValid ≠ .invalid then
      if d.isValid = .tag then
        some ((s.setDesc id (d.pin.setLock (some w))).goto w (.load t id))
      else some (((s.setDesc id d.pin).goto w .idle).got w id)
    else some ((s.setDesc id d.pin.unPin).goto w (.freeList t))
  else none

/-- `GetFreeBufferId`: pinned buffers are dropped from the list. -/
def getFreeBufferId (s : PoolState N m) : Option (Fin N) × List (Fin N) :=
  match s.freeList.dropWhile fun id => (s.bufferDesc id).refCnt != 0 with
  | [] => (none, [])
  | id :: rest => (some id, rest)

/-- One round of the loop of `ClockSweep`. -/
def clockSweepRound [NeZero N] (s : PoolState N m) (w : Fin m) (t : BufferTag) (id : Fin N) :
    PoolState N m :=
  let d := s.bufferDesc id
  if d.lock = none then
    if d.isValid = .invalid then s.goto w (.sweepLock t id)
    else
      let d := { d with usedCnt := d.usedCnt - 1 }
      (s.setDesc id d).goto w
        (if d.refCnt = 0 ∧ d.usedCnt = 0 then .sweepLock t id else .sweep t (id + 1))
  else s.goto w (.sweep t (id + 1))

/-- The end of `ClockSweep`: the candidate is tested again under the write lock. -/
def clockSweepEnd [NeZero N] (s : PoolState N m) (w : Fin m) (t : BufferTag) (id : Fin N) :
    Option (PoolState N m) :=
  let d := s.bufferDesc id
  if d.lock = none then
    if d.isValid = .invalid ∨ (d.refCnt = 0 ∧ d.usedCnt = 0) then
      some ({ s with start := id + 1 }.setDesc id
        (d.setLock (some w)) |>.goto w (.clean t id))
    else some (s.goto w (.sweep t id))
  else none

/-- The rest of `HashDeleteEntry`: an unlinked element still has to be freed. -/
def afterUnlink (t : BufferTag) (id : Fin N) : Option Nat → PoolPhase N
  | some entry => .putFree t id entry
  | none => .initTag t id

/-- `CleanPageBuffer` up to the release of the partition lock in `HashDeleteEntry`. -/
def cleanPageBuffer (s : PoolState N m) (w : Fin m) (t : BufferTag) (id : Fin N) :
    PoolState N m :=
  let d := s.bufferDesc id
  let (entry, table) :=
    hashUnlinkEntry s.hashTable (s.hashTable.getHashKey d.bufferTag) d.bufferTag
  ({ s with hashTable := table }.setDesc id d.pin.clean).goto w (afterUnlink t id entry)

/-- `INIT_TAG`. -/
def initTag (s : PoolState N m) (w : Fin m) (t : BufferTag) (id : Fin N) : PoolState N m :=
  let d := s.bufferDesc id
  if d.isValid = .invalid then
    match hashGetFreeEntry s.hashTable (s.hashTable.getHashKey t) t id with
    | (.insert, some _, table) =>
        ({ s with hashTable := table }.setDesc id (d.initTag t)).goto w (.load t id)
    | (.find, some entry, _) =>
        (s.setDesc id (d.initTag t).leave).goto w (.readEntry t entry)
    | _ => (s.setDesc id (d.initTag t).leave).goto w (.search t)
  else (s.setDesc id d.leave).goto w (.search t)

/-- The end of `ReadPage` after `TableRead`. -/
def finishRead (s : PoolState N m) (w : Fin m) (id : Fin N) (readOk : Bool) : PoolState N m :=
  let d := s.bufferDesc id
  if readOk then
    ((s.setDesc id ({ d with isValid := .vlid }.setLock none)).goto w .idle).got w id
  else (s.setDesc id d.leave).goto w .idle

/-- The next section of the `ReadPage` in progress. `readOk` is the outcome of
`TableRead`. -/
def readNext [NeZero N] (s : PoolState N m) (w : Fin m) (readOk : Bool) :
    Option (PoolState N m) :=
  match s.phase w with
  | .idle => none
  | .search t =>
      some (s.goto w (match searchBuffer s t with
        | some id => .recheck t id
        | none => .freeList t))
  | .recheck t id => findRecheck s w t id
  | .freeList t =>
      let (id, rest) := getFreeBufferId s
      some ({ s with freeList := rest }.goto w (match id with
        | some id => .lockFree t id
        | none => .sweep t s.start))
  | .lockFree t id =>
      let d := s.bufferDesc id
      if d.lock = none then
        some ((s.setDesc id (d.pin.setLock (some w))).goto w (.initTag t id))
      else none
  | .sweep t id => some (clockSweepRound s w t id)
  | .sweepLock t id => clockSweepEnd s w t id
  | .clean t id => some (cleanPageBuffer s w t id)
  | .putFree t id entry =>
      some ({ s with hashTable := putFreeList s.hashTable entry }.goto w (.initTag t id))
  | .initTag t id => some (initTag s w t id)
  | .readEntry t entry => some (s.goto w (.recheck t (s.hashTable.element entry).value))
  | .load _ id => some (finishRead s w id readOk)

/-! ## The step function -/

/-- What a worker does next. -/
inductive PoolCall (N : Nat) where
  | readPage (tableId index : Int) (forkNum : ForkType)
  | releasePage (id : Fin N)
  | next (readOk : Bool)
  deriving DecidableEq

/-- The tag `ReadPage` asks for. -/
def readPageTag (tableId index : Int) (forkNum : ForkType) : BufferTag :=
  ⟨0, tableId, 0, index, forkNum⟩

/-- One step of one worker. -/
def poolStep [NeZero N] (s : PoolState N m)
    (a : Fin m × PoolCall N) : Option (PoolState N m) :=
  match a.2 with
  | .next readOk => readNext s a.1 readOk
  | .readPage tableId index forkNum =>
      if s.phase a.1 = .idle then
        if index ≤ 0 then some s
        else some (s.goto a.1 (.search (readPageTag tableId index forkNum)))
      else none
  | .releasePage id =>
      if s.phase a.1 = .idle ∧ id ∈ s.pages a.1 ∧ (s.bufferDesc id).lock = none then
        some { s.setDesc id (s.bufferDesc id).unPin with
          pages := Function.update s.pages a.1 ((s.pages a.1).erase id) }
      else none

/-- Every page is cached at most once, and a table entry names the buffer that
holds its page. -/
def SingleCopy (s : PoolState N m) : Prop :=
  (∀ b b', (s.bufferDesc b).isValid ≠ .invalid → (s.bufferDesc b').isValid ≠ .invalid →
    (s.bufferDesc b).bufferTag = (s.bufferDesc b').bufferTag → b = b') ∧
  ∀ t b, s.hashTable.lookup t = some b →
    (s.bufferDesc b).bufferTag = t ∧ (s.bufferDesc b).isValid ≠ .invalid

end Toadb
