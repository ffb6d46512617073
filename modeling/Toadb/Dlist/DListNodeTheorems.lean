/-
Toadb.Dlist.DListNodeTheorems — does a list stay the ring of its sequence?

`DListNodes.Represents` says that the list is the ring of a sequence. Adding to either end
(`addDListTail_represents`, `addDListNext_represents`), taking from either end
(`popDListHeadNode_represents`, `popDListTailNode_represents`) and taking out a node behind
the first one (`delDListNode_represents`) do to the ring what they do to the sequence.

`DelDListNode` does not move the pointer on. After the first node is deleted the pointer still
designates it (`delDListNode_head`), whether or not other nodes remain. `represents_iff` is
the account of whole runs.
-/
import Toadb.Lib.DList
import Toadb.Lib.Transition
import Toadb.Dlist.DListNode

namespace Toadb

open DList (Ring)
open Transition (run exec run_exec Along run_invariant_iff)

variable {ν : Type} {m : DListNodes ν} {l p s : List ν} {a x : ν}

/-- The list is the ring of the sequence: the pointer designates its first node. -/
structure DListNodes.Represents (m : DListNodes ν) (l : List ν) : Prop where
  head : m.list = l.head?
  ring : ∀ a ∈ l.head?, Ring m.next m.prev a l

namespace DListNodes

theorem represents_nil (h : m.list = none) : m.Represents [] where
  head := h
  ring := nofun

theorem represents_cons (hlist : m.list = some a) (hring : Ring m.next m.prev a (a :: s)) :
    m.Represents (a :: s) where
  head := hlist
  ring _ hb := Option.some.inj hb ▸ hring

theorem Represents.nil (h : m.Represents []) : m.list = none := h.head

theorem Represents.cons (h : m.Represents (a :: s)) :
    m.list = some a ∧ Ring m.next m.prev a (a :: s) :=
  ⟨h.head, h.ring a rfl⟩

variable [DecidableEq ν] {node : ν}

/-! ## Adding -/

/-- A node alone is a list. -/
theorem single_represents (m : DListNodes ν) (node : ν) : (m.single node).Represents [node] :=
  represents_cons rfl (DList.ring_singleton (by simp [single, setNext, setPrev])
    (by simp [single, setNext, setPrev]))

/-- A node is added at the end. -/
theorem addDListTail_represents (h : m.Represents l) (hnew : node ∉ l) :
    (m.addDListTail node).2.Represents (l ++ [node]) := by
  cases l with
  | nil =>
    rw [addDListTail, h.nil]
    exact single_represents m node
  | cons a s =>
    obtain ⟨hlist, hring⟩ := h.cons
    have hne : a ≠ node := ne_of_mem_of_not_mem List.mem_cons_self hnew
    refine represents_cons (s := s ++ [node])
      (by simp [addDListTail, hlist, setNext, setPrev]) ?_
    convert hring.append_update hnew using 1
    · simp [addDListTail, hlist, setNext, setPrev, hne]
    · simp [addDListTail, hlist, setNext, setPrev]

/-- A node is added behind the first one. -/
theorem addDListNext_represents (h : m.Represents l) (hnew : node ∉ l) :
    (m.addDListNext node).2.Represents (l.take 1 ++ node :: l.drop 1) := by
  cases l with
  | nil =>
    rw [addDListNext, h.nil]
    exact single_represents m node
  | cons a s =>
    obtain ⟨hlist, hring⟩ := h.cons
    have hne : a ≠ node := ne_of_mem_of_not_mem List.mem_cons_self hnew
    have hinsert : Ring _ _ a (a :: node :: s) := Ring.insert_update (p := []) hring hnew
    refine represents_cons (s := node :: s)
      (by simp [addDListNext, hlist, setNext, setPrev]) ?_
    convert hinsert using 1
    · simp [addDListNext, hlist, setNext, setPrev]
    · simp [addDListNext, hlist, setNext, setPrev, hne.symm]

/-! ## Taking out -/

/-- The first node is taken. -/
theorem popDListHeadNode_represents (h : m.Represents l) :
    m.popDListHeadNode.1 = l.head? ∧ m.popDListHeadNode.2.Represents (l.drop 1) := by
  cases l with
  | nil =>
    rw [popDListHeadNode, h.nil]
    exact ⟨rfl, h⟩
  | cons a s =>
    obtain ⟨hlist, hring⟩ := h.cons
    refine ⟨by simp [popDListHeadNode, hlist], ?_⟩
    cases s with
    | nil =>
      have hnext : m.next a = a := (hring.last (p := [])).1
      exact represents_nil (by simp [popDListHeadNode, hlist, hnext, setNext, setPrev])
    | cons b s =>
      have hnext : m.next a = b := (hring.adjacent (p := [])).1
      have hne : b ≠ a := by
        rintro rfl
        simpa using hring.nodup
      -- the ring from the second node on ends with the one that is taken
      have hrotate := hring.rotate
      rw [hnext] at hrotate
      refine represents_cons
        (by simp [popDListHeadNode, hlist, hnext, hne, setNext, setPrev]) ?_
      rw [← List.append_nil s]
      convert hrotate.erase_update using 1
      · simp [popDListHeadNode, hlist, hnext, hne, hne.symm, setNext, setPrev]
      · simp [popDListHeadNode, hlist, hnext, hne, setNext, setPrev]

/-- The last node is taken. -/
theorem popDListTailNode_represents (h : m.Represents l) :
    m.popDListTailNode.1 = l.getLast? ∧ m.popDListTailNode.2.Represents l.dropLast := by
  cases l with
  | nil =>
    rw [popDListTailNode, h.nil]
    exact ⟨rfl, h⟩
  | cons a s =>
    obtain ⟨hlist, hring⟩ := h.cons
    rcases List.eq_nil_or_concat' s with rfl | ⟨s, x, rfl⟩
    · have hprev : m.prev a = a := (hring.last (p := [])).2
      refine ⟨by simp [popDListTailNode, hlist, hprev], represents_nil ?_⟩
      simp [popDListTailNode, hlist, hprev, setNext, setPrev]
    · have hprev : m.prev a = x := (hring.last (p := a :: s)).2
      have hne : a ≠ x := by
        rintro rfl
        simpa using hring.nodup
      have hbefore : m.prev x ≠ x := hring.not_alone.1
      rw [← List.cons_append, List.getLast?_concat, List.dropLast_concat]
      refine ⟨by simp [popDListTailNode, hlist, hprev], ?_⟩
      refine represents_cons
        (by simp [popDListTailNode, hlist, hprev, hne, setNext, setPrev]) ?_
      rw [← List.append_nil s]
      convert hring.erase_update using 1
      · simp [popDListTailNode, hlist, hprev, hne, setNext, setPrev]
      · simp [popDListTailNode, hlist, hprev, hne, hbefore.symm, setNext, setPrev]

/-- A node behind the first one is taken out. -/
theorem delDListNode_represents (h : m.Represents (a :: s)) (hnode : node ∈ s) :
    (m.delDListNode node).2.Represents ((a :: s).erase node) := by
  obtain ⟨hlist, hring⟩ := h.cons
  have hhead : a ≠ node :=
    (ne_of_mem_of_not_mem hnode (List.nodup_cons.mp hring.nodup).1).symm
  obtain ⟨p, t, rfl⟩ := List.append_of_mem hnode
  have hnot : node ∉ p := by
    have hmiddle := (DList.nodup_middle.mp (List.nodup_cons.mp hring.nodup).2).1
    exact fun hmem => hmiddle (List.mem_append_left t hmem)
  obtain ⟨hprev, hnext⟩ := hring.not_alone
  rw [List.erase_cons_tail (by simpa using hhead), List.erase_append_right _ hnot,
    List.erase_cons_head]
  refine represents_cons (by simp [delDListNode, hlist, hprev, setNext, setPrev]) ?_
  convert hring.erase_update using 1
  · simp [delDListNode, hlist, hprev, hnext.symm, setNext, setPrev]
  · simp [delDListNode, hlist, hprev, setNext, setPrev]

/-- A node that is linked to none of the list is deleted from wherever it is. -/
theorem delDListNode_apart (h : m.Represents l) (hnode : node ∉ l) (hnext : m.next node ∉ l)
    (hprev : m.prev node ∉ l) :
    (m.delDListNode node).2.Represents l := by
  cases l with
  | nil => exact represents_nil (by simp [delDListNode, h.nil])
  | cons a s =>
    obtain ⟨hlist, hring⟩ := h.cons
    by_cases halone : m.prev node = node
    · simpa [delDListNode, hlist, halone] using h
    · refine represents_cons (by simp [delDListNode, hlist, halone, setNext, setPrev])
        (hring.congr ?_ ?_)
      · intro y hy
        have hne := ne_of_mem_of_not_mem hy hnode
        by_cases hself : m.next node = node
        · simp [delDListNode, hlist, halone, setNext, setPrev, hself, hne,
            ne_of_mem_of_not_mem hy hprev]
        · simp [delDListNode, hlist, halone, setNext, setPrev, Ne.symm hself, hne,
            ne_of_mem_of_not_mem hy hprev]
      · intro y hy
        simp [delDListNode, hlist, halone, setNext, setPrev, ne_of_mem_of_not_mem hy hnode,
          ne_of_mem_of_not_mem hy hnext]

/-- After the first node is deleted the pointer designates it as before. -/
theorem delDListNode_head (h : m.Represents (a :: s)) :
    ¬ (m.delDListNode a).2.Represents s := by
  obtain ⟨hlist, hring⟩ := h.cons
  have hstays : (m.delDListNode a).2.list = some a := by
    by_cases halone : m.prev a = a
    · simp [delDListNode, hlist, halone]
    · simp [delDListNode, hlist, halone, setNext, setPrev]
  intro hrest
  have hhead := hrest.head
  rw [hstays] at hhead
  exact (List.nodup_cons.mp hring.nodup).1 (List.mem_of_head? hhead.symm)

end DListNodes

/-! ## Runs -/

variable [DecidableEq ν] {c : DListCall ν}

/-- The call does not delete the first node. -/
def DListCall.KeepsHead (seq : List ν) : DListCall ν → Prop
  | .del node => seq.head? ≠ some node
  | _ => True

/-- A call that does not delete the first node does to the list what it does to the
sequence. -/
theorem call_represents (h : m.Represents l) (hfits : c.fits m l = true)
    (hkeeps : c.KeepsHead l) :
    (c.call m).1 = (c.onSequence l).1 ∧ (c.call m).2.Represents (c.onSequence l).2 := by
  cases c with
  | addTail node =>
    exact ⟨rfl, DListNodes.addDListTail_represents h (by simpa [DListCall.fits] using hfits)⟩
  | addNext node =>
    exact ⟨rfl, DListNodes.addDListNext_represents h (by simpa [DListCall.fits] using hfits)⟩
  | popHead => exact DListNodes.popDListHeadNode_represents h
  | popTail => exact DListNodes.popDListTailNode_represents h
  | del node =>
    refine ⟨rfl, ?_⟩
    by_cases hnode : node ∈ l
    · cases l with
      | nil => exact absurd hnode List.not_mem_nil
      | cons a s =>
        have hne : node ≠ a := fun heq => hkeeps (by rw [heq]; rfl)
        exact DListNodes.delDListNode_represents h (List.mem_of_ne_of_mem hne hnode)
    · obtain ⟨hnext, hprev⟩ : m.next node ∉ l ∧ m.prev node ∉ l := by
        simpa [DListCall.fits, hnode] using hfits
      have hapart := DListNodes.delDListNode_apart h hnode hnext hprev
      rwa [DListCall.onSequence, List.erase_of_not_mem hnode]

/-- The list is the ring of the sequence, and they have given back the same nodes. -/
structure DListSys.Represents (s : DListSys ν) : Prop where
  list : s.nodes.Represents s.seq
  popped : s.popped = s.seqPopped

theorem DListSys.step_represents_iff {s t : DListSys ν} (h : s.Represents)
    (hstep : s.step c = some t) :
    t.Represents ↔ c.KeepsHead s.seq := by
  obtain ⟨hfits, ht⟩ := Option.ite_none_right_eq_some.mp hstep
  obtain rfl := Option.some.inj ht
  constructor
  · intro ht
    cases c with
    | del node =>
      intro hhead
      obtain ⟨rest, hseq⟩ := List.head?_eq_some_iff.mp hhead
      have hlist := h.list
      have hrest := ht.list
      simp only [DListCall.call, DListCall.onSequence, hseq,
        List.erase_cons_head] at hlist hrest
      exact DListNodes.delDListNode_head hlist hrest
    | _ => trivial
  · intro hkeeps
    obtain ⟨hpopped, hlist⟩ := call_represents h.list hfits hkeeps
    exact ⟨hlist, by simp only [h.popped, hpopped]⟩

/-- In a run the list is the ring of its sequence in every state, exactly when its first node
is never deleted. -/
theorem DListSys.represents_iff {s u : DListSys ν}
    {calls : List (DListCall ν)} (h : s.Represents) (hrun : run step s calls = some u) :
    (∀ before after t, calls = before ++ after → run step s before = some t → t.Represents) ↔
      Along step (fun s c => c.KeepsHead s.seq) s calls :=
  run_invariant_iff (fun hs ht => step_represents_iff hs ht) h hrun

/-- No node is in the list. -/
def DListSys.empty : DListSys Nat := ⟨⟨id, id, none⟩, [], [], []⟩

theorem DListSys.empty_represents : empty.Represents := ⟨DListNodes.represents_nil rfl, rfl⟩

/-- Both ends are used, and a node between them is deleted. -/
theorem DListSys.sixCalls_represents :
    (exec step empty [.addTail 1, .addTail 2, .addNext 3, .del 3, .popTail,
      .popHead]).Represents := by
  refine (represents_iff empty_represents (run_exec rfl)).mpr ?_ _ [] _
    (List.append_nil _).symm (run_exec rfl)
  have hkeeps : DListCall.KeepsHead [1, 3, 2] (.del 3) :=
    show [1, 3, 2].head? ≠ some 3 by decide
  exact ⟨trivial, trivial, trivial, hkeeps, trivial, trivial, trivial⟩

/-- The first node is deleted, while another one remains or none does: the pointer still
designates it. -/
theorem DListSys.headDeleted :
    (∃ t, run step empty [.addTail 1, .addTail 2, .del 1] = some t ∧ t.seq = [2] ∧
      t.nodes.list = some 1 ∧
      ¬ t.Represents) ∧
    ∃ t, run step empty [.addTail 1, .del 1] = some t ∧ t.seq = [] ∧
      t.nodes.list = some 1 ∧ ¬ t.Represents :=
  ⟨⟨_, rfl, rfl, rfl, fun h => absurd h.list.head (by decide)⟩,
    _, rfl, rfl, rfl, fun h => absurd h.list.head (by decide)⟩

end Toadb
