/-
Toadb.Buffer.FreeList — the free list of the buffer pool as the array it is
(`bufferPool.c`).

`freeList[0]` is the first id and `freeList[id]` the id behind `id`; buffer 0
is never on the list. A cell or a descriptor out of the arrays is other
memory: a function that gets to one has no result.

The functions take the lock of the pool, so a call is one step.
-/
import Toadb.Lib.Refinement
import Toadb.Buffer.Pool

namespace Toadb

/-- `Free_List_End`. -/
def freeListEnd : Int := -1

/-- `BUFFER_MIN_NUM`. -/
def bufferMinNum : Nat := 8

/-- The fields of `BufferDesc` that these functions use. -/
structure FreeListDesc where
  isValid : BufferValidFlag
  isDirty : Bool
  refCnt : Nat
  usedCnt : Nat
  isInFreeList : Bool

/-- `BufferPoolContext`. -/
structure BufferPoolContext where
  bufferNum : Nat
  freeList : Int → Int
  bufferDesc : Int → FreeListDesc

namespace BufferPoolContext

/-- Overwrite one descriptor. -/
def setDesc (pool : BufferPoolContext) (id : Int) (d : FreeListDesc) : BufferPoolContext :=
  { pool with bufferDesc := Function.update pool.bufferDesc id d }

/-- The memory of `CreateBufferPool` before it is initialized. -/
def zeroed : BufferPoolContext where
  bufferNum := 0
  freeList _ := 0
  bufferDesc _ := ⟨.invalid, false, 0, 0, false⟩

/-- `InitBufferPool`. The pins and `isInFreeList` stay as they are. -/
def initBufferPool (pool : BufferPoolContext) (pageNum : Nat) : Int × BufferPoolContext :=
  if pageNum < bufferMinNum then (-1, pool)
  else
    let freeList := fun index : Int => if 0 ≤ index ∧ index < pageNum then index + 1
        else pool.freeList index
    (0, { bufferNum := pageNum
          freeList := Function.update freeList (pageNum - 1) freeListEnd
          bufferDesc := fun index : Int =>
            if 0 ≤ index ∧ index < pageNum then
              { pool.bufferDesc index with isValid := .invalid, isDirty := false }
            else pool.bufferDesc index })

/-- `PinBuffer`; `refCnt` is an `unsigned int`. -/
def pinBuffer (pool : BufferPoolContext) (bufferId : Int) : BufferPoolContext :=
  let d := pool.bufferDesc bufferId
  pool.setDesc bufferId { d with usedCnt := useCountMax, refCnt := (d.refCnt + 1) % 2 ^ 32 }

/-- `unPinBuffer`. -/
def unPinBuffer (pool : BufferPoolContext) (bufferId : Int) : BufferPoolContext :=
  let d := pool.bufferDesc bufferId
  if 0 < d.refCnt then pool.setDesc bufferId { d with refCnt := d.refCnt - 1 } else pool

/-- Put an id in front of the list. -/
def pushFreeList (pool : BufferPoolContext) (id : Int) : BufferPoolContext :=
  let freeList := Function.update pool.freeList id (pool.freeList 0)
  { pool with freeList := Function.update freeList 0 id }.setDesc id
    { pool.bufferDesc id with isInFreeList := true }

/-- `InsertFreeList`. -/
def insertFreeList (pool : BufferPoolContext) (id : Int) : BufferPoolContext :=
  if 0 < id ∧ (pool.bufferDesc id).isInFreeList = false then pool.pushFreeList id else pool

/-- `InvalidateBuffer`. -/
def invalidateBuffer (pool : BufferPoolContext) (bufferId : Int) : BufferPoolContext :=
  (pool.setDesc bufferId { pool.bufferDesc bufferId with isValid := .invalid }).insertFreeList
    bufferId

/-- Take the first id off the list. -/
def popFreeList (pool : BufferPoolContext) (id : Int) : BufferPoolContext :=
  { pool with freeList := Function.update pool.freeList 0 (pool.freeList id) }.setDesc id
    { pool.bufferDesc id with isInFreeList := false }

/-- The loop of `GetFreeBufferId`: the end is looked for in the id of the round before. -/
def getFreeLoop : Nat → BufferPoolContext → Int → Option (Int × BufferPoolContext)
  | 0, _, _ => none
  | fuel + 1, pool, id =>
      if id = freeListEnd then some (id, pool)
      else
        let id := pool.freeList 0
        if 0 ≤ id ∧ id < pool.bufferNum then
          let pool := pool.popFreeList id
          if (pool.bufferDesc id).refCnt = 0 then some (id, pool)
            else getFreeLoop fuel pool id
        else none

/-- `GetFreeBufferId`. -/
def getFreeBufferId (fuel : Nat) (pool : BufferPoolContext) :
    Option (Int × BufferPoolContext) :=
  getFreeLoop fuel pool (pool.freeList 0)

end BufferPoolContext

/-! ## The calls -/

/-- A call on a pool of `N` buffers. -/
inductive FreeListCall (N : Nat) where
  | initBufferPool
  | getFreeBufferId
  | pinBuffer (id : Fin N)
  | unPinBuffer (id : Fin N)
  | invalidateBuffer (id : Fin N)
  deriving DecidableEq

/-- A call with what it returns. -/
def freeListStep {N : Nat} (fuel : Nat)
    (pool : BufferPoolContext) : FreeListCall N → Option (Int × BufferPoolContext)
  | .initBufferPool => some (pool.initBufferPool N)
  | .getFreeBufferId => pool.getFreeBufferId fuel
  | .pinBuffer id => some (0, pool.pinBuffer id.val)
  | .unPinBuffer id => some (0, pool.unPinBuffer id.val)
  | .invalidateBuffer id => some (0, pool.invalidateBuffer id.val)

end Toadb
