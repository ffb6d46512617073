/-
Toadb.Buffer.ResourceOwner — the pins that a command records (`resourceMgr.c`, and
`GetPageByIndex`, `ReleasePage` and `ReleaseAllResourceOwner` of `buffer.c`).

Every worker has a list of records of its own. `GetPageByIndex` adds one for the page it gets,
`ReleasePage` takes the first one of its page away, and at the end of a command
`ReleaseAllResourceOwner` releases what is left. `ReadPage` pins a page and records nothing.

A step here is one call. What `ReadPage` comes back with is an argument of it: a buffer, which
it has pinned, or no page. `pages` is a history that no step reads: the pages that a worker
has got and not released.
-/
import Toadb.Buffer.Pool

namespace Toadb

variable {N m : Nat}

/-! ## Records -/

/-- `BufferResource`. -/
structure BufferResource (N : Nat) where
  type : Int
  buffer : Fin N
  deriving DecidableEq

/-- `ResourceOnwerPool`. The list behind `header` is here from its first node on, and of the
free nodes only the number counts. -/
structure ResourceOnwerPool (N : Nat) where
  header : List (BufferResource N)
  onwerResourceNum : Int
  freeNodeNum : Int

/-- `CreateResourceOwnerPool`. -/
def createResourceOwnerPool (N : Nat) : ResourceOnwerPool N := ⟨[], 0, 0⟩

/-- `GetResourceOwnerNode`: a free node, or a new one. -/
def getResourceOwnerNode (pool : ResourceOnwerPool N) : ResourceOnwerPool N :=
  if 0 < pool.freeNodeNum then { pool with freeNodeNum := pool.freeNodeNum - 1 } else pool

/-- `PushResourceOwner`. -/
def pushResourceOwner (pool : ResourceOnwerPool N) (buffer : Fin N)
    (type : Int) : ResourceOnwerPool N :=
  let pool := getResourceOwnerNode pool
  { pool with header := pool.header ++ [⟨type, buffer⟩],
              onwerResourceNum := pool.onwerResourceNum + 1 }

/-- `ReleaseResourceOwner`: the first record of the buffer. -/
def releaseResourceOwner (pool : ResourceOnwerPool N) (buffer : Fin N)
    (type : Int) : ResourceOnwerPool N :=
  if pool.onwerResourceNum = 0 then pool
  else if ⟨type, buffer⟩ ∈ pool.header then
    { header := pool.header.erase ⟨type, buffer⟩
      onwerResourceNum := pool.onwerResourceNum - 1
      freeNodeNum := pool.freeNodeNum + 1 }
  else pool

/-- `PopResourceOwner`. -/
def popResourceOwner (pool : ResourceOnwerPool N) : Option (Fin N) × ResourceOnwerPool N :=
  if pool.onwerResourceNum = 0 then (none, pool)
  else
    match pool.header with
    | [] => (none, pool)
    | node :: header =>
        (some node.buffer,
          { header := header
            onwerResourceNum := pool.onwerResourceNum - 1
            freeNodeNum := pool.freeNodeNum + 1 })

/-! ## The workers -/

/-- The descriptors, and the records of each worker. -/
structure OwnerSys (N m : Nat) where
  bufferDesc : Fin N → BufferDesc m
  owner : Fin m → ResourceOnwerPool N
  pages : Fin m → List (Fin N)

namespace OwnerSys

/-- Overwrite the records of a worker. -/
def setOwner (s : OwnerSys N m) (w : Fin m) (pool : ResourceOnwerPool N) : OwnerSys N m :=
  { s with owner := Function.update s.owner w pool }

/-- `ReadPage`: the buffer it returns is pinned. -/
def readPage (s : OwnerSys N m) (w : Fin m) (page : Option (Fin N)) : OwnerSys N m :=
  match page with
  | none => s
  | some id =>
      { s with
        bufferDesc := Function.update s.bufferDesc id (s.bufferDesc id).pin
        pages := Function.update s.pages w (id :: s.pages w) }

/-- `GetPageByIndex`. -/
def getPageByIndex (s : OwnerSys N m) (w : Fin m) (page : Option (Fin N)) : OwnerSys N m :=
  match page with
  | none => s
  | some id =>
      let s := s.readPage w page
      s.setOwner w (pushResourceOwner (s.owner w) id 1)

/-- `ReleasePage`. -/
def releasePage (s : OwnerSys N m) (w : Fin m) (id : Fin N) : OwnerSys N m :=
  let s :=
    { s with
      bufferDesc := Function.update s.bufferDesc id (s.bufferDesc id).unPin
      pages := Function.update s.pages w ((s.pages w).erase id) }
  s.setOwner w (releaseResourceOwner (s.owner w) id 1)

/-- `ReleaseAllResourceOwner`, with at most `fuel` rounds. -/
def releaseAllResourceOwner (w : Fin m) : Nat → OwnerSys N m → Option (OwnerSys N m)
  | 0, _ => none
  | fuel + 1, s =>
      match popResourceOwner (s.owner w) with
      | (none, _) => some s
      | (some id, pool) =>
        releaseAllResourceOwner w fuel ((s.setOwner w pool).releasePage w id)

end OwnerSys

/-! ## The step function -/

/-- What a worker calls. -/
inductive OwnerCall (N : Nat) where
  | getPageByIndex (page : Option (Fin N))
  | readPage (page : Option (Fin N))
  | releasePage (id : Fin N)
  | releaseAllResourceOwner
  deriving DecidableEq

/-- One call of one worker. A page is released by a worker that has it. -/
def ownerStep (s : OwnerSys N m) (a : Fin m × OwnerCall N) : Option (OwnerSys N m) :=
  match a.2 with
  | .getPageByIndex page => some (s.getPageByIndex a.1 page)
  | .readPage page => some (s.readPage a.1 page)
  | .releasePage id => if (s.pages a.1).contains id then some (s.releasePage a.1 id) else none
  | .releaseAllResourceOwner =>
    s.releaseAllResourceOwner a.1 ((s.owner a.1).header.length + 1)

/-- How often a worker has recorded a page. -/
def OwnerSys.recorded (s : OwnerSys N m) (w : Fin m) (id : Fin N) : Nat :=
  (s.owner w).header.count ⟨1, id⟩

end Toadb
