/-
Toadb.Mem.MemStack — the tree of memory contexts (`memstack.c`).

The children of a context are linked behind its `subList`, the pages behind the
head of its pages, where the page with its own record is the first. Contexts
are the only nodes in a `subList`: `MemMangerInsert` is not called any more.

A walk along a list takes no more steps than there are pages, and no context is
deeper in the tree than that.
-/
import Toadb.Lib.Transition
import Toadb.Mem.MemPool

namespace Toadb.MemPool

namespace Memory

variable (m : Memory)

/-! ## New contexts -/

/-- `NewMMContext`. -/
def newMMContext : Option (Memory × Nat) := do
  let (m, c) ← m.newPoolMemContext
  return ((m.initDListNode (.memList c)).initDListNode (.subList c), c)

/-- `MemMangerNewContext`. -/
def memMangerNewContext : Option Memory := do
  let (m, c) ← m.newMMContext
  let m ← m.addDListTail (.subList (← m.current)) (.memList c)
  return { m with current := some c }

/-- `MemMangerSwitchContext`. -/
def memMangerSwitchContext (context : Option Nat) : Memory := { m with current := context }

/-- No page was made, and no node was initialised. -/
def empty : Memory := ⟨fun _ => .null, fun _ => .null, fun _ => none, none, 0, [], []⟩

/-- `MemMangerInit`. -/
def memMangerInit : Option Memory := do
  let (m, c) ← (empty.initDListNode .memListHead).newMMContext
  { m with current := some c }.addDListTail .memListHead (.memList c)

/-- The memory at the start of the server. -/
def start : Memory := memMangerInit.getD empty

theorem memMangerInit_eq : memMangerInit = some start := rfl

/-! ## Deleting a context -/

/-- The loop of `ReleaseMemContext`. -/
def releasePages : Nat → Memory → Node → Node → Option Memory
  | 0, _, _, _ => none
  | fuel + 1, m, owner, preNode =>
    if preNode = owner then some m
    else
      match preNode with
      | .page p => do
        let tailNode := preNode
        let preNode ← m.getPrev preNode
        let m ← m.delDListNode tailNode
        let m ← m.releaseMemPage p
        releasePages fuel m owner preNode
      | .null => some m
      | _ => none

/-- `ReleaseMemContext`. -/
def releaseMemContext (c : Nat) : Option Memory := do
  let preNode ← m.getPrev (.pageList c)
  let owner ← m.getNext (.pageList c)
  let m ← releasePages (m.pageNum + 1) m owner preNode
  match owner with
  | .page p => m.releaseMemPage p
  | _ => none

/-- The loop of `MemDestroyContextNode`. -/
def destroyChildren (destroy : Memory → Nat → Option Memory) :
    Nat → Memory → Node → Node → Option Memory
  | 0, _, _, _ => none
  | fuel + 1, m, headNode, preNode =>
    if preNode = headNode then some m
    else
      match preNode with
      | .memList d => do
        let preNode ← m.getPrev preNode
        let m ← destroy m d
        destroyChildren destroy fuel m headNode preNode
      | .null => some m
      | _ => none

/-- `MemDestroyContextNode`. -/
def memDestroyContextNode : Nat → Memory → Nat → Option Memory
  | 0, _, _ => none
  | fuel + 1, m, c => do
    let tailNode ← m.getPrev (.subList c)
    let m ← destroyChildren (memDestroyContextNode fuel) (m.pageNum + 1) m
        (.subList c) tailNode
    m.releaseMemContext c

/-- `MemMangerDeleteContext`; the parent is not looked at. -/
def memMangerDeleteContext (delContext : Nat) : Option Memory := do
  let m ← m.delDListNode (.memList delContext)
  memDestroyContextNode (m.pageNum + 1) m delContext

end Memory

/-! ## Calls -/

inductive Op where
  | newContext
  | switchContext (context : Option Nat)
  | allocMem (size : BitVec 32)
  | freeMem (block : MemBlock)
  | deleteContext (delContext : Nat)

/-- A pointer to a context is one that was handed out. -/
def step (m : Memory) : Op → Option Memory
  | .newContext => m.memMangerNewContext
  | .switchContext context =>
      if context.all (· < m.pageNum) then some (m.memMangerSwitchContext context) else none
  | .allocMem size => m.allocMem size
  | .freeMem block => m.freeMem block
  | .deleteContext delContext => m.memMangerDeleteContext delContext

/-- What a sequence of calls leaves. -/
def calls (ops : List Op) : Option Memory := Transition.run step Memory.start ops

end Toadb.MemPool
