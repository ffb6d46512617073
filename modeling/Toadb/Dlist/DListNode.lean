/-
Toadb.Dlist.DListNode — lists of nodes that are linked in a ring (`list.c`).

A node has a link to the next node and one to the previous node. A list is the pointer to its
first node, and NULL if it is empty. The links are written one after the other, as what one
assignment writes the next one may read.

`DelDListNode` reads the pointer, but never writes it.
-/
import Mathlib.Logic.Function.Basic

namespace Toadb

/-- The links of the nodes, and the pointer to the list. -/
structure DListNodes (ν : Type) where
  next : ν → ν
  prev : ν → ν
  list : Option ν

namespace DListNodes

variable {ν : Type} [DecidableEq ν]

def setNext (m : DListNodes ν) (x y : ν) : DListNodes ν :=
  { m with next := Function.update m.next x y }

def setPrev (m : DListNodes ν) (x y : ν) : DListNodes ν :=
  { m with prev := Function.update m.prev x y }

/-- The list of a node alone. -/
def single (m : DListNodes ν) (node : ν) : DListNodes ν :=
  { (m.setPrev node node).setNext node node with list := some node }

/-- `AddDListTail`. -/
def addDListTail (m : DListNodes ν) (node : ν) : Nat × DListNodes ν :=
  match m.list with
  | none => (1, m.single node)
  | some head =>
    let m := m.setNext node head
    let m := m.setPrev node (m.prev head)
    let m := m.setNext (m.prev head) node
    (0, m.setPrev head node)

/-- `AddDListNext`. -/
def addDListNext (m : DListNodes ν) (node : ν) : Nat × DListNodes ν :=
  match m.list with
  | none => (0, m.single node)
  | some head =>
    let m := m.setNext node (m.next head)
    let m := m.setPrev node head
    let m := m.setNext head node
    (0, m.setPrev (m.next node) node)

/-- `PopDListHeadNode`. -/
def popDListHeadNode (m : DListNodes ν) : Option ν × DListNodes ν :=
  match m.list with
  | none => (none, m)
  | some node =>
    let head := m.next node
    let m :=
      if head = node then { m with list := none }
      else
        let m := m.setPrev head (m.prev node)
        let m := m.setNext (m.prev node) head
        { m with list := some head }
    (some node, (m.setNext node node).setPrev node node)

/-- `PopDListTailNode`. -/
def popDListTailNode (m : DListNodes ν) : Option ν × DListNodes ν :=
  match m.list with
  | none => (none, m)
  | some head =>
    let node := m.prev head
    let m :=
      if head = node then { m with list := none }
      else
        let m := m.setNext (m.prev node) (m.next node)
        m.setPrev (m.next node) (m.prev node)
    (some node, (m.setNext node node).setPrev node node)

/-- `DelDListNode`. -/
def delDListNode (m : DListNodes ν) (node : ν) : Nat × DListNodes ν :=
  match m.list with
  | none => (0, m)
  | some _ =>
    if m.prev node = node then (0, m)
    else
      let m := m.setPrev (m.next node) (m.prev node)
      let m := m.setNext (m.prev node) (m.next node)
      (1, (m.setPrev node node).setNext node node)

end DListNodes

/-! ## Calls -/

/-- The calls on a list. -/
inductive DListCall (ν : Type)
  | addTail (node : ν)
  | addNext (node : ν)
  | popHead
  | popTail
  | del (node : ν)

namespace DListCall

variable {ν : Type} [DecidableEq ν]

/-- The call, and the node that it gives back. -/
def call (m : DListNodes ν) : DListCall ν → Option ν × DListNodes ν
  | .addTail node => (none, (m.addDListTail node).2)
  | .addNext node => (none, (m.addDListNext node).2)
  | .popHead => m.popDListHeadNode
  | .popTail => m.popDListTailNode
  | .del node => (none, (m.delDListNode node).2)

/-- What the call does to a sequence. -/
def onSequence (seq : List ν) : DListCall ν → Option ν × List ν
  | .addTail node => (none, seq ++ [node])
  | .addNext node => (none, seq.take 1 ++ node :: seq.drop 1)
  | .popHead => (seq.head?, seq.drop 1)
  | .popTail => (seq.getLast?, seq.dropLast)
  | .del node => (none, seq.erase node)

/-- Which calls there may be: a node that is added is not in the list. One that is deleted is
in it, or is linked to none of its nodes. -/
def fits (m : DListNodes ν) (seq : List ν) : DListCall ν → Bool
  | .addTail node | .addNext node => !seq.contains node
  | .popHead | .popTail => true
  | .del node =>
    seq.contains node || !(seq.contains (m.next node) || seq.contains (m.prev node))

end DListCall

/-- The list and the sequence that it stands for, with the nodes that they have given back. -/
structure DListSys (ν : Type) where
  nodes : DListNodes ν
  seq : List ν
  popped : List ν
  seqPopped : List ν

/-- The call is made, and the sequence follows. -/
def DListSys.step {ν : Type} [DecidableEq ν] (s : DListSys ν)
    (c : DListCall ν) : Option (DListSys ν) :=
  if c.fits s.nodes s.seq then
    some {
      nodes := (c.call s.nodes).2
      seq := (c.onSequence s.seq).2
      popped := s.popped ++ (c.call s.nodes).1.toList
      seqPopped := s.seqPopped ++ (c.onSequence s.seq).1.toList }
  else none

end Toadb
