/-
Toadb.Plan.DelListTheorems — does `DelListNode` take the first cell with the node out?

The loop stops at the first cell with the node, with the cell before it (`findCell_split`), or
it goes to the end (`findCell_none`). With a cell before it, the cell is unlinked
(`unlinkCell_isList`). Without one, the head is moved on, and then the cell is unlinked all
the same, from NULL (`delListNode_head`). So every cell of a list can be taken out but the
first one (`delListNode_iff`).
-/
import Toadb.Plan.NodeListTheorems
import Mathlib.Data.List.Perm.Subperm

namespace Toadb

open DList (Seg)

variable {α : Type} [DecidableEq α] {m m' : NodeMemory α} {list : Nat}
  {cells front back : List Nat} {c : Nat} {n : α}

/-- The cells without the first one that has the node. -/
def withoutNode (m : NodeMemory α) (n : α) (cells : List Nat) : List Nat :=
  cells.eraseP fun c => decide (m.value c = some n)

/-- The first cell with the node is taken out, and nothing else changes; a list that has
become empty has neither head nor tail. -/
structure TakesOut (m m' : NodeMemory α) (list : Nat) (cells : List Nat) (n : α) : Prop where
  isList : IsList m' list (withoutNode m n cells)
  value : m'.value = m.value
  others : ∀ l, l ≠ list → m'.lists l = m.lists l
  unchanged : (∀ c ∈ cells, m.value c ≠ some n) → m' = m
  emptied : cells ≠ [] → withoutNode m n cells = [] →
    (m'.lists list).head = 0 ∧ (m'.lists list).tail = 0

/-- What `DelListNode` is for. -/
def DeletesNode (m : NodeMemory α) (list : Nat) (cells : List Nat) (n : α) : Prop :=
  ∃ m', delListNode list (some n) m = some (list, m') ∧ TakesOut m m' list cells n

/-! ## The loop -/

/-- Without a cell that has the node, the loop goes to the end. -/
theorem findCell_none {fuel a pre : Nat} (hseg : Seg m.next a cells 0) (hzero : 0 ∉ cells)
    (hfuel : cells.length < fuel) (hother : ∀ c ∈ cells, m.value c ≠ some n) :
    ∃ pre', findCell n fuel pre a m = some (pre', 0) := by
  induction cells generalizing fuel a pre with
  | nil =>
    obtain rfl := DList.seg_nil_iff.mp hseg
    obtain ⟨fuel, rfl⟩ := Nat.exists_eq_succ_of_ne_zero (show fuel ≠ 0 by omega)
    exact ⟨pre, by rw [findCell, if_pos (.inl rfl)]⟩
  | cons c cells ih =>
    obtain ⟨rfl, hrest⟩ := DList.seg_cons_iff.mp hseg
    rw [List.length_cons] at hfuel
    obtain ⟨fuel, rfl⟩ := Nat.exists_eq_succ_of_ne_zero (show fuel ≠ 0 by omega)
    rw [List.forall_mem_cons] at hother
    have hne : a ≠ 0 := fun heq => hzero (heq ▸ List.mem_cons_self)
    rw [findCell, if_neg (by simp [hne, hother.1])]
    exact ih hrest (List.not_mem_of_not_mem_cons hzero) (by omega) hother.2

/-- The loop stops at the first cell with the node. -/
theorem findCell_split {fuel a pre : Nat} (hseg : Seg m.next a (front ++ c :: back) 0)
    (hzero : 0 ∉ front ++ c :: back)
    (hfuel : front.length < fuel) (hother : ∀ d ∈ front, m.value d ≠ some n)
    (hnode : m.value c = some n) :
    findCell n fuel pre a m = some (front.getLast?.getD pre, c) := by
  induction front generalizing fuel a pre with
  | nil =>
    obtain ⟨rfl, -⟩ := DList.seg_cons_iff.mp hseg
    obtain ⟨fuel, rfl⟩ := Nat.exists_eq_succ_of_ne_zero (show fuel ≠ 0 by omega)
    rw [findCell, if_pos (.inr hnode)]
    rfl
  | cons d front ih =>
    obtain ⟨rfl, hrest⟩ := DList.seg_cons_iff.mp hseg
    rw [List.length_cons] at hfuel
    obtain ⟨fuel, rfl⟩ := Nat.exists_eq_succ_of_ne_zero (show fuel ≠ 0 by omega)
    rw [List.forall_mem_cons] at hother
    have hne : a ≠ 0 := fun heq => hzero (heq ▸ List.mem_cons_self)
    rw [findCell, if_neg (by simp [hne, hother.1]),
      ih hrest (List.not_mem_of_not_mem_cons hzero) (by omega) hother.2]
    cases front with
    | nil => rfl
    | cons e front => rw [List.getLast?_cons_cons]; rfl

omit [DecidableEq α] in
/-- There are more cells than a list has: 0 is none. -/
theorem IsList.length_lt (hm : m.Valid) (h : IsList m list cells) :
    cells.length < m.cellCount := by
  have hnodup : (0 :: cells).Nodup :=
    List.nodup_cons.mpr ⟨h.zero_notMem, h.seg.nodup h.zero_notMem⟩
  have hsub : 0 :: cells ⊆ List.range m.cellCount :=
    List.cons_subset.mpr ⟨List.mem_range.mpr hm.cellCount,
      fun c hc => List.mem_range.mpr (h.valid c hc).2⟩
  have hle := (List.subperm_of_subset hnodup hsub).length_le
  rwa [List.length_cons, List.length_range] at hle

/-- Either no cell has the node, or there is a first one that has. -/
theorem first_cell (m : NodeMemory α) (n : α) (cells : List Nat) :
    (∀ c ∈ cells, m.value c ≠ some n) ∨ ∃ front c back, cells = front ++ c :: back ∧
      (∀ d ∈ front, m.value d ≠ some n) ∧ m.value c = some n ∧
        withoutNode m n cells = front ++ back := by
  by_cases hmem : ∃ c ∈ cells, m.value c = some n
  · obtain ⟨c, hc, hnode⟩ := hmem
    obtain ⟨d, front, back, hother, hd, hcells, herase⟩ :=
      List.exists_of_eraseP (p := fun c => decide (m.value c = some n)) hc
        (decide_eq_true hnode)
    exact .inr ⟨front, d, back, hcells,
      fun e he => of_decide_eq_false (by simpa using hother e he),
      of_decide_eq_true hd, herase⟩
  · exact .inl fun c hc hnode => hmem ⟨c, hc, hnode⟩

/-- A list without a cell that has the node stays. -/
theorem withoutNode_of_absent (hother : ∀ c ∈ cells, m.value c ≠ some n) :
    withoutNode m n cells = cells :=
  List.eraseP_of_forall_not fun c hc => by simpa using hother c hc

/-! ## Unlinking -/

section Unlink

variable {pre : Nat}

omit [DecidableEq α]

/-- The cell before it is linked to the one behind it. -/
theorem seg_unlink {next : Nat → Nat} {head : Nat}
    (h : Seg next head (front ++ pre :: c :: back) 0)
    (hnodup : (front ++ pre :: c :: back).Nodup) :
    Seg (Function.update next pre (next c)) head (front ++ pre :: back) 0 := by
  obtain ⟨hfront, hrest⟩ := h.split
  obtain ⟨-, hrest⟩ := DList.seg_cons_iff.mp hrest
  obtain ⟨hnext, hback⟩ := DList.seg_cons_iff.mp hrest
  rw [hnext] at hback
  have hother := (DList.nodup_middle.mp hnodup).1
  simp only [List.mem_append, List.mem_cons, not_or] at hother
  have hfront' := hfront.congr fun d hd =>
    Function.update_of_ne (v := next c) (f := next) (ne_of_mem_of_not_mem hd hother.1)
  refine hfront'.append (.cons ?_)
  rw [Function.update_self]
  exact hback.congr fun d hd => Function.update_of_ne (ne_of_mem_of_not_mem hd hother.2.2) _ _

/-- The last cell is NULL's neighbour. -/
theorem seg_last_next {next : Nat → Nat} {head : Nat}
    (h : Seg next head (front ++ [c]) 0) : next c = 0 :=
  DList.seg_nil_iff.mp (DList.seg_cons_iff.mp h.split.2).2

/-- A cell behind another one is unlinked. -/
theorem unlinkCell_isList (h : IsList m list (front ++ pre :: c :: back)) (hlist : list ≠ 0) :
    ∃ m', unlinkCell list pre c m = some m' ∧ IsList m' list (front ++ pre :: back) ∧
      m'.value = m.value ∧
      ∀ l, l ≠ list → m'.lists l = m.lists l := by
  have hpre : pre ≠ 0 := Nat.pos_iff_ne_zero.mp (h.valid pre (by simp)).1
  have hnodup := h.seg.nodup h.zero_notMem
  have hlength := h.length hlist
  have hseg := seg_unlink h.seg hnodup
  rw [NodeMemory.headOf, if_neg hlist] at hseg
  have hvalid : ∀ d ∈ front ++ pre :: back, 0 < d ∧ d < m.cellCount :=
    fun d hd => h.valid d (by
    simp only [List.mem_append, List.mem_cons] at hd ⊢
    tauto)
  rcases List.eq_nil_or_concat' back with rfl | ⟨back, last, rfl⟩
  · -- the cell is the last one
    have htail : c = (m.lists list).tail := (h.tail c (by simp)).symm
    have hend : m.next c = 0 := by
      have hsnoc := h.seg
      rw [← List.singleton_append, ← List.append_assoc] at hsnoc
      exact seg_last_next hsnoc
    rw [hend] at hseg
    rw [unlinkCell, if_neg hpre, if_pos htail]
    refine ⟨_, rfl, ⟨h.allocated, ?_, hvalid, fun _ => ?_, ?_⟩, rfl,
      fun l hl => Function.update_of_ne hl _ _⟩
    · simpa only [NodeMemory.headOf, if_neg hlist, Function.update_self] using hseg
    · simp [hlength]
    · simp
  · have hlast : (m.lists list).tail = last := h.tail last (by simp [List.getLast?_cons])
    have htail : c ≠ (m.lists list).tail := by
      rw [hlast]
      rintro rfl
      simp [List.nodup_append] at hnodup
    rw [unlinkCell, if_neg hpre, if_neg htail]
    refine ⟨_, rfl, ⟨h.allocated, ?_, hvalid, fun _ => ?_, ?_⟩, rfl,
      fun l hl => Function.update_of_ne hl _ _⟩
    · simpa only [NodeMemory.headOf, if_neg hlist, Function.update_self] using hseg
    · simp [hlength]
    · intro d hd
      obtain rfl : last = d := by simpa [List.getLast?_cons] using hd
      simp [hlast]

end Unlink

/-! ## The call -/

/-- What the call does with the cell where the loop has stopped. -/
theorem delListNode_of_findCell {pre : Nat} (hlist : list ≠ 0)
    (hfind : findCell n m.cellCount 0 (m.lists list).head m = some (pre, c)) :
    delListNode list (some n) m = if c = 0 then some (list, m)
      else (unlinkCell list pre c (if pre = 0 then delHead list m else m)).map fun m =>
        (list, m) := by
  simp only [delListNode, if_neg hlist, hfind, Option.bind_eq_bind,
    Option.bind_some, Option.map_eq_bind]
  rfl

/-- Without a cell that has the node, nothing is done. -/
theorem delListNode_absent (hm : m.Valid) (h : IsList m list cells)
    (hother : ∀ c ∈ cells, m.value c ≠ some n) :
    delListNode list (some n) m = some (list, m) := by
  by_cases hlist : list = 0
  · simp [delListNode, hlist]
  · have hseg := h.seg
    rw [NodeMemory.headOf, if_neg hlist] at hseg
    obtain ⟨pre, hfind⟩ : ∃ pre,
        findCell n m.cellCount 0 (m.lists list).head m = some (pre, 0) :=
      findCell_none hseg h.zero_notMem (h.length_lt hm) hother
    rw [delListNode_of_findCell hlist hfind, if_pos rfl]

/-- The loop stops at the first cell with the node, and that cell is unlinked. -/
theorem delListNode_found (hm : m.Valid) (h : IsList m list (front ++ c :: back))
    (hother : ∀ d ∈ front, m.value d ≠ some n) (hnode : m.value c = some n) :
    delListNode list (some n) m = (unlinkCell list (front.getLast?.getD 0) c
      (if front.getLast?.getD 0 = 0 then delHead list m else m)).map fun m => (list, m) := by
  have hlist : list ≠ 0 := by
    rintro rfl
    simpa using h.null
  have hseg := h.seg
  rw [NodeMemory.headOf, if_neg hlist] at hseg
  have hlength := h.length_lt hm
  rw [List.length_append] at hlength
  have hzero : c ≠ 0 := Nat.pos_iff_ne_zero.mp (h.valid c (by simp)).1
  rw [delListNode_of_findCell hlist
    (findCell_split hseg h.zero_notMem (by omega) hother hnode), if_neg hzero]

/-- The first cell is not unlinked from anything. -/
theorem delListNode_head (hm : m.Valid) (h : IsList m list (c :: back))
    (hnode : m.value c = some n) :
    delListNode list (some n) m = none := by
  rw [delListNode_found hm (show IsList m list ([] ++ c :: back) from h) nofun hnode]
  rfl

/-- A node is deleted as it is meant to be, unless the first cell has it: then the call goes
on to read `next` through NULL. -/
theorem delListNode_iff (hm : m.Valid) (h : IsList m list cells) :
    DeletesNode m list cells n ↔ ∀ c ∈ cells.head?, m.value c ≠ some n := by
  constructor
  · rintro ⟨m', hcall, -⟩ c hc hnode
    obtain ⟨back, rfl⟩ := List.head?_eq_some_iff.mp hc
    rw [delListNode_head hm h hnode] at hcall
    exact Option.some_ne_none _ hcall.symm
  · intro hhead
    obtain habsent | ⟨front, c, back, rfl, hother, hnode, herase⟩ := first_cell m n cells
    · have hsame := withoutNode_of_absent habsent
      refine ⟨m, delListNode_absent hm h habsent, ?_⟩
      exact { isList := hsame.symm ▸ h, value := rfl, others := fun _ _ => rfl,
              unchanged := fun _ => rfl,
              emptied := fun hne hempty => absurd (hsame.symm.trans hempty) hne }
    · -- there is a cell before it
      obtain rfl | ⟨front, pre, rfl⟩ := List.eq_nil_or_concat' front
      · exact absurd hnode (hhead c rfl)
      have hlist : list ≠ 0 := by
        rintro rfl
        simpa using h.null
      have hcall := delListNode_found hm h hother hnode
      simp only [List.append_assoc, List.singleton_append] at h herase ⊢
      have hpre : pre ≠ 0 := Nat.pos_iff_ne_zero.mp (h.valid pre (by simp)).1
      obtain ⟨m', hunlink, hrest, hvalue, hothers⟩ := unlinkCell_isList h hlist
      rw [List.getLast?_concat, Option.getD_some, if_neg hpre, hunlink] at hcall
      refine ⟨m', hcall, ?_⟩
      exact { isList := herase.symm ▸ hrest, value := hvalue, others := hothers,
              unchanged := fun habsent => absurd hnode (habsent c (by simp)),
              emptied := fun _ hempty => absurd (herase.symm.trans hempty) (by simp) }

/-- A list of two cells. -/
def twoCells : NodeMemory Nat where
  value cell := if cell = 1 then some 10 else if cell = 2 then some 20 else none
  next cell := if cell = 1 then 2 else 0
  lists _ := ⟨2, 1, 2⟩
  cellCount := 3
  listCount := 2

theorem isList_twoCells : IsList twoCells 1 [1, 2] where
  allocated := by decide
  seg := .cons (.cons (.nil 0))
  valid := by decide
  length _ := rfl
  tail := by decide

theorem delListNode_twoCells : DeletesNode twoCells 1 [1, 2] 20 :=
  (delListNode_iff ⟨by decide, by decide⟩ isList_twoCells).mpr (by decide)

/-- The only cell cannot be deleted. -/
theorem only_notDeleted : IsList twoLists 1 [1] ∧ twoLists.value 1 = some 10 ∧
    ¬ DeletesNode twoLists 1 [1] 10 := by
  refine ⟨isList_twoLists (by decide) (by decide), rfl, ?_⟩
  rintro ⟨m', hcall, -⟩
  exact Option.some_ne_none _ (hcall.symm.trans (delListNode_head ⟨by decide, by decide⟩
    (isList_twoLists (by decide) (by decide)) rfl))

end Toadb
