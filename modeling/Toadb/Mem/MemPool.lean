/-
Toadb.Mem.MemPool — memory contexts and their pages (`memPool.c`).

A page is named by when it was made, and a context by the page with its record.
The nodes of a list lie in pages, but for `g_MemList`. What reads or writes
memory that was given back, or through NULL, has no result (`none`), as has what
never returns, and a block header behind the end of its page.

In a page are its `MemPageInfo`, the record of a context in the first page of
one, and the blocks. Pages that are released go back to the system at once, so
`memFreeList` stays empty. Counters that nothing reads are left out.
-/
import Mathlib.Algebra.Order.Ring.Int
import Mathlib.Logic.Function.Basic

namespace Toadb.MemPool

/-! ## Memory -/

/-- The list nodes: `g_MemList`, the `list` of a page, and of a context `memList`, `subList`
and the head of its pages. The links of a node are NULL until it is initialised. -/
inductive Node where
  | null
  | memListHead
  | page (p : Nat)
  | memList (c : Nat)
  | subList (c : Nat)
  | pageList (c : Nat)
  deriving DecidableEq

/-- `MemPoolContextInfo` but for its lists. A pointer that is NULL or written over is
`none`. -/
structure MemPoolContextInfo where
  currUsePage : Option Nat
  deriving DecidableEq

/-- `MemPageInfo`, with the record behind it. -/
structure MemPageInfo where
  memHead : Option Nat
  memPageSize : Nat
  useOffset : Nat
  releaseSize : Nat
  contextInfo : Option MemPoolContextInfo
  deriving DecidableEq

/-- `MemBlock`, and where it is. -/
structure MemBlock where
  page : Nat
  offset : Nat
  size : Nat
  memPage : Nat
  deriving DecidableEq

/-- The memory, with `g_CurrentContext`. Three fields are history: how many pages were made,
those given back, and the blocks handed out that were not freed. -/
structure Memory where
  next : Node → Node
  prev : Node → Node
  pageInfo : Nat → Option MemPageInfo
  current : Option Nat
  pageNum : Nat
  released : List Nat
  blocks : List MemBlock

/-! ## Layout -/

/-- `MEMORY_POOL_PAGE_SIZE`. -/
def memoryPoolPageSize : Nat := 4096

/-- `MEMPAGE_INFO_LEN`. -/
def memPageInfoLen : Nat := 40

/-- `MEMORY_POOL_BLOCK_HEADER_SIZE`; the structure is packed. -/
def memBlockHeaderSize : Nat := 12

/-- `MEMORY_POOL_MIN_ALLOC_SIZE`. -/
def memoryPoolMinAllocSize : Nat := memoryPoolPageSize - memPageInfoLen

/-- `MEMPOOL_CONTEXTINFO_SIZE`. -/
def memPoolContextInfoSize : Nat := 136

/-- Where the record of a context begins and ends. Its last 8 bytes are `currUsePage`. -/
def contextOffset : Nat := memPageInfoLen + memBlockHeaderSize

def contextEnd : Nat := contextOffset + memPoolContextInfoSize

/-- The size of the page for a block with its header. -/
def alignSize (size : BitVec 32) : BitVec 32 :=
  ((size.setWidth 64 + 40 + (~~~ (0xFFFFE000 : BitVec 32)).setWidth 64 - 1) &&&
    0xFFFFE000).setWidth 32

/-- What is left of the record when a block header is written at `offset`: behind it nothing
changes, and in its last 12 bytes `currUsePage` gets the page of the header or a part of
it. -/
def MemPoolContextInfo.writeOver (contextInfo : MemPoolContextInfo)
    (p offset : Nat) : MemPoolContextInfo :=
  if contextEnd ≤ offset then contextInfo
  else if offset + memBlockHeaderSize = contextEnd then ⟨some p⟩
  else ⟨none⟩

namespace Memory

variable (m : Memory)

/-! ## Lists -/

/-- The memory of a node is in use. -/
def alive : Node → Bool
  | .null => false
  | .memListHead => true
  | .page p => (m.pageInfo p).isSome
  | .memList c | .subList c | .pageList c => ((m.pageInfo c).bind (·.contextInfo)).isSome

def getNext (node : Node) : Option Node := if m.alive node then some (m.next node) else none

def getPrev (node : Node) : Option Node := if m.alive node then some (m.prev node) else none

def setNext (node value : Node) : Option Memory :=
  if m.alive node then some { m with next := Function.update m.next node value } else none

def setPrev (node value : Node) : Option Memory :=
  if m.alive node then some { m with prev := Function.update m.prev node value } else none

/-- `AddDListTail`, to a list with a head. -/
def addDListTail (head node : Node) : Option Memory := do
  let m ← m.setNext node head
  let m ← m.setPrev node (← m.getPrev head)
  let m ← m.setNext (← m.getPrev head) node
  m.setPrev head node

/-- `DelDListNode`, from a list with a head. -/
def delDListNode (node : Node) : Option Memory := do
  if (← m.getPrev node) = node then return m
  else
    let m ← m.setPrev (← m.getNext node) (← m.getPrev node)
    let m ← m.setNext (← m.getPrev node) (← m.getNext node)
    let m ← m.setPrev node node
    m.setNext node node

/-- `INIT_DLIST_NODE`. -/
def initDListNode (node : Node) : Memory :=
  { m with next := Function.update m.next node node,
           prev := Function.update m.prev node node }

/-! ## Pages -/

def setPage (p : Nat) (info : MemPageInfo) : Memory :=
  { m with pageInfo := Function.update m.pageInfo p (some info) }

/-- `NewMemPage` and `InitMemPage`. -/
def initMemPage (size : Nat) : Memory × Nat :=
  let p := m.pageNum
  let m := { m with pageNum := p + 1 }
  ((m.setPage p ⟨none, size, memPageInfoLen, memPageInfoLen, none⟩).initDListNode (.page p),
    p)

/-- `AllocFromMemPage`. An `int` that is negative is `2 ^ 32` more here. -/
def allocFromMemPage (p : Nat) (size : Nat) : Option (Memory × MemBlock) := do
  let info ← m.pageInfo p
  let offset := info.useOffset
  if info.memPageSize < offset + memBlockHeaderSize then none
  else
    let m := m.setPage p { info with
      useOffset := (offset + size) % 2 ^ 32
      contextInfo := info.contextInfo.map (MemPoolContextInfo.writeOver · p offset) }
    return (m, ⟨p, offset, size, p⟩)

/-- `ReleaseMemPage`, which frees the page whatever its size is. -/
def releaseMemPage (p : Nat) : Option Memory :=
  match m.pageInfo p with
  | none => none
  | some _ =>
    some { m with pageInfo := Function.update m.pageInfo p none,
                  released := m.released ++ [p] }

/-! ## Contexts -/

def setCurrUsePage (c p : Nat) : Option Memory := do
  let info ← m.pageInfo c
  match info.contextInfo with
  | none => none
  | some _ => return m.setPage c { info with contextInfo := some ⟨some p⟩ }

/-- `AddMemPageToContext`. -/
def addMemPageToContext (p c : Nat) (isSwitchCurrent : Bool) : Option Memory := do
  let m ← m.addDListTail (.pageList c) (.page p)
  let m ← if isSwitchCurrent then m.setCurrUsePage c p else some m
  let info ← m.pageInfo p
  return m.setPage p { info with memHead := some c }

/-- `AddNewPageToContext`. -/
def addNewPageToContext (c : Nat) : Option Memory :=
  let (m, p) := m.initMemPage memoryPoolPageSize
  m.addMemPageToContext p c true

/-- `InitializePoolContext`. -/
def initializePoolContext (c : Nat) : Option Memory := do
  let info ← m.pageInfo c
  return (m.setPage c { info with contextInfo := some ⟨none⟩ }).initDListNode (.pageList c)

/-- `NewPoolMemContext`. -/
def newPoolMemContext : Option (Memory × Nat) := do
  let (m, p) := m.initMemPage memoryPoolPageSize
  let (m, _) ← m.allocFromMemPage p memPoolContextInfoSize
  let m ← m.initializePoolContext p
  let m ← m.addMemPageToContext p p true
  return (m, p)

/-! ## Blocks -/

/-- `AllocFromMemContext`: NULL is `some none`. -/
def allocFromMemContext (size : Nat) (c : Nat) : Option (Option (Memory × MemBlock)) := do
  if size = 0 then return none
  else
    let contextInfo ← (← m.pageInfo c).contextInfo
    let p ← contextInfo.currUsePage
    let info ← m.pageInfo p
    if info.useOffset + size ≤ info.memPageSize then return some (← m.allocFromMemPage p size)
    else return none

/-- `AllocFromMemPool`. A page of 2 GB has a negative size for `memset`. The loop goes on for
ever when a new page is not enough. -/
def allocFromMemPool (size : BitVec 32) : Option (Memory × MemBlock) := do
  let c ← m.current
  let size := size + BitVec.ofNat 32 memBlockHeaderSize
  if memoryPoolMinAllocSize ≤ size.toNat then
    let align_size := (alignSize size).toNat
    if 2 ^ 31 ≤ align_size then none
    else
      let (m, p) := m.initMemPage align_size
      let m ← m.addMemPageToContext p c false
      m.allocFromMemPage p size.toNat
  else
    match ← m.allocFromMemContext size.toNat c with
    | some mem => return mem
    | none =>
      let m ← m.addNewPageToContext c
      (← m.allocFromMemContext size.toNat c)

/-- `AllocMem`. -/
def allocMem (size : BitVec 32) : Option Memory := do
  let (m, block) ← m.allocFromMemPool size
  return { m with blocks := block :: m.blocks }

/-- The page that the header of a block names. The header of the first block behind a record
lies over the end of the record. -/
def memPageOf (block : MemBlock) : Option Nat := do
  let info ← m.pageInfo block.page
  match info.contextInfo with
  | none => return block.memPage
  | some contextInfo =>
    if block.offset + memBlockHeaderSize = contextEnd then contextInfo.currUsePage
      else return block.memPage

/-- `ReleaseToMemPage`. A block that is shorter than its header has lost it to the next
one. -/
def releaseToMemPage (block : MemBlock) : Option Memory := do
  if block.size < memBlockHeaderSize then none
  else
    let p ← m.memPageOf block
    let info ← m.pageInfo p
    let info := { info with releaseSize := (info.releaseSize + block.size) % 2 ^ 32 }
    let m := m.setPage p info
    if info.releaseSize = info.memPageSize then
      let m ← match info.memHead with
        | none => some m
        | some _ => m.delDListNode (.page p)
      m.releaseMemPage p
    else return m

/-- `FreeMem`, of a block that was not freed. -/
def freeMem (block : MemBlock) : Option Memory :=
  if m.blocks.contains block then
    { m with blocks := m.blocks.erase block }.releaseToMemPage block else none

end Memory

end Toadb.MemPool
