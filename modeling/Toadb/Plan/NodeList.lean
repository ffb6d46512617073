/-
Toadb.Plan.NodeList — lists of nodes (`node.c`).

A list has a length and the links to its first and last cell; the cells are
linked by `next`. Cells and lists are numbered as they are allocated, and 0 is
NULL. Whatever a new cell or list holds is left as it was in memory.

`MergeList` makes a new list, but of the cells of the lists it is given.
-/
import Mathlib.Logic.Function.Basic

namespace Toadb

/-- `List`. -/
structure NodeList where
  length : Nat
  head : Nat
  tail : Nat

/-- The cells and lists, with the numbers of the next ones. -/
structure NodeMemory (α : Type) where
  -- NULL is no node
  value : Nat → Option α
  next : Nat → Nat
  lists : Nat → NodeList
  cellCount : Nat
  listCount : Nat

section Operations

variable {α : Type}

/-- A cell is allocated and ends its list. -/
def newCell (m : NodeMemory α) : Nat × NodeMemory α :=
  (m.cellCount,
    { m with cellCount := m.cellCount + 1, next := Function.update m.next m.cellCount 0 })

/-- `CreateNode` of a list, without a cell; a list that is there already is kept. -/
def initialList (list : Nat) (m : NodeMemory α) : Nat × NodeMemory α :=
  if list = 0 then
    (m.listCount, { m with
      listCount := m.listCount + 1
      lists := Function.update m.lists m.listCount { m.lists m.listCount with length := 0 } })
  else (list, m)

/-- Add the cell to this list. Without a last cell, `tail` is read through NULL. -/
def addCell (list cell : Nat) (m : NodeMemory α) : Option (NodeMemory α) :=
  let l := m.lists list
  if l.length = 0 then some { m with lists := Function.update m.lists list ⟨1, cell, cell⟩ }
  else if l.tail = 0 then none
  else some { m with
    next := Function.update m.next l.tail cell
    lists := Function.update m.lists list ⟨l.length + 1, l.head, cell⟩ }

/-- `CreateCell`. -/
def createCell (list : Nat) (m : NodeMemory α) : Option (Nat × NodeMemory α) := do
  let (cell, m) := newCell m
  let (list, m) := initialList list m
  let m ← addCell list cell m
  return (list, m)

/-- `CreateList`. -/
def createList (n : Option α) (m : NodeMemory α) : Option (Nat × NodeMemory α) := do
  let (list, m) ← createCell 0 m
  match n with
  | some n =>
    return (list, { m with value := Function.update m.value (m.lists list).tail (some n) })
  | none => return (list, m)

/-- `AppendNode`. -/
def appendNode (list : Nat) (n : Option α) (m : NodeMemory α) : Option (Nat × NodeMemory α) :=
  if list = 0 then createList n m
  else do
    let (cell, m) := newCell m
    let m ← addCell list cell { m with value := Function.update m.value cell n }
    return (list, m)

/-- `AppendCellNode`. -/
def appendCellNode (list cell : Nat) (m : NodeMemory α) : Option (Nat × NodeMemory α) := do
  let (list, m) := initialList list m
  let m ← addCell list cell m
  return (list, m)

/-- A loop of `MergeList`, over as many cells as the list has. -/
def appendCells : Nat → Nat → Nat → NodeMemory α → Option (Nat × NodeMemory α)
  | 0, _, tempList, m => some (tempList, m)
  | listLen + 1, tmpCell, tempList, m =>
    if tmpCell = 0 then some (tempList, m)
    else do
      let (tempList, m) ← appendCellNode tempList tmpCell m
      appendCells listLen (m.next tmpCell) tempList m

/-- The loop over a list that may be NULL. -/
def appendList (list tempList : Nat) (m : NodeMemory α) : Option (Nat × NodeMemory α) :=
  if list = 0 then some (tempList, m)
  else appendCells (m.lists list).length (m.lists list).head tempList m

/-- `MergeList`. -/
def mergeList (list1 list2 : Nat) (m : NodeMemory α) : Option (Nat × NodeMemory α) := do
  let (tempList, m) ← appendList list1 0 m
  appendList list2 tempList m

/-- The loop of `DelListNode`, over as many cells as there are at most: the cell with the node
and the one before it. -/
def findCell [DecidableEq α] (n : α) : Nat → Nat → Nat → NodeMemory α → Option (Nat × Nat)
  | 0, _, _, _ => none
  | fuel + 1, preCell, curCell, m =>
    if curCell = 0 ∨ m.value curCell = some n then some (preCell, curCell)
    else findCell n fuel curCell (m.next curCell) m

/-- The list without its first cell, which is not unlinked yet. -/
def delHead (list : Nat) (m : NodeMemory α) : NodeMemory α :=
  let l := m.lists list
  let rest : NodeList := if l.length = 1 then ⟨0, 0, 0⟩
      else ⟨l.length - 1, m.next l.head, l.tail⟩
  { m with lists := Function.update m.lists list rest }

/-- The cell is unlinked from the one before it, which is read through NULL if there is
none. -/
def unlinkCell (list preCell curCell : Nat) (m : NodeMemory α) : Option (NodeMemory α) :=
  let l := m.lists list
  if preCell = 0 then none
  else if curCell = l.tail then some { m with
    next := Function.update m.next preCell 0
    lists := Function.update m.lists list ⟨l.length - 1, l.head, preCell⟩ }
  else some { m with
    next := Function.update m.next preCell (m.next curCell)
    lists := Function.update m.lists list ⟨l.length - 1, l.head, l.tail⟩ }

/-- `DelListNode`. -/
def delListNode [DecidableEq α] (list : Nat) (n : Option α)
    (m : NodeMemory α) : Option (Nat × NodeMemory α) :=
  match n with
  | none => some (0, m)
  | some n =>
    if list = 0 then some (0, m)
    else do
      let (preCell, curCell) ← findCell n m.cellCount 0 (m.lists list).head m
      if curCell = 0 then return (list, m)
      let m ← unlinkCell list preCell curCell (if preCell = 0 then delHead list m else m)
      return (list, m)

end Operations

end Toadb
