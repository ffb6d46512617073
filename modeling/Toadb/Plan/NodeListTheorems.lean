/-
Toadb.Plan.NodeListTheorems — is a merged list apart from its parts?

A list reads as the nodes of the cells that follow one another from its head to
the end (`Reads`). Appending to a list links a new cell behind its last one, so
lists without common cells stay apart (`Separate.add`). The list that
`MergeList` makes begins with the first cell of the lists it is given: it reads
as that list does, before and after every append (`mergeList_apart_iff`).
-/
import Toadb.Lib.DList
import Toadb.Plan.NodeList

namespace Toadb

open DList (Seg)

variable {α : Type}

/-! ## Lists and what they read as -/

/-- The first cell. -/
def NodeMemory.headOf (m : NodeMemory α) (list : Nat) : Nat :=
  if list = 0 then 0 else (m.lists list).head

/-- The list, traversed by `next` to the end. -/
def Reads (m : NodeMemory α) (list : Nat) (nodes : List (Option α)) : Prop :=
  ∃ cells, Seg m.next (m.headOf list) cells 0 ∧ 0 ∉ cells ∧ nodes = cells.map m.value

/-- A list with its cells. A list whose cells go on behind `length`, as those of `list1` do
after it was merged with another one, is none. -/
structure IsList (m : NodeMemory α) (list : Nat) (cells : List Nat) : Prop where
  allocated : list < m.listCount
  seg : Seg m.next (m.headOf list) cells 0
  valid : ∀ cell ∈ cells, 0 < cell ∧ cell < m.cellCount
  length : list ≠ 0 → (m.lists list).length = cells.length
  tail : ∀ cell ∈ cells.getLast?, (m.lists list).tail = cell

/-- NULL is neither a cell nor a list. -/
structure NodeMemory.Valid (m : NodeMemory α) : Prop where
  cellCount : 0 < m.cellCount
  listCount : 0 < m.listCount

section Reads

variable {m m' : NodeMemory α} {list list' : Nat} {cells cells' : List Nat}
  {nodes nodes' : List (Option α)}

theorem IsList.zero_notMem (h : IsList m list cells) : 0 ∉ cells :=
  fun hmem => Nat.lt_irrefl 0 (h.valid 0 hmem).1

theorem IsList.reads (h : IsList m list cells) : Reads m list (cells.map m.value) :=
  ⟨cells, h.seg, h.zero_notMem, rfl⟩

theorem Reads.unique (h : Reads m list nodes) (h' : Reads m list nodes') :
    nodes = nodes' := by
  obtain ⟨cells, hseg, hzero, rfl⟩ := h
  obtain ⟨cells', hseg', hzero', rfl⟩ := h'
  rw [Seg.unique hseg hseg' hzero hzero']

/-- Lists with the same first cell read the same. -/
theorem reads_of_headOf (h : Reads m list nodes) (hhead : m.headOf list' = m.headOf list) :
    Reads m list' nodes := by
  obtain ⟨cells, hseg, hzero, rfl⟩ := h
  exact ⟨cells, hhead ▸ hseg, hzero, rfl⟩

theorem IsList.null (h : IsList m 0 cells) : cells = [] := by
  have hseg := h.seg
  rw [NodeMemory.headOf, if_pos rfl] at hseg
  exact Seg.unique hseg (.nil 0) h.zero_notMem List.not_mem_nil

theorem isList_null (hm : m.Valid) : IsList m 0 [] where
  allocated := hm.listCount
  seg := by
    rw [NodeMemory.headOf, if_pos rfl]
    exact .nil 0
  valid := fun _ h => absurd h List.not_mem_nil
  length := fun h => absurd rfl h
  tail := fun _ h => by cases h

theorem headOf_congr (h : list ≠ 0 → m'.lists list = m.lists list) :
    m'.headOf list = m.headOf list := by
  rw [NodeMemory.headOf, NodeMemory.headOf]
  split
  next => rfl
  next hne => rw [h hne]

/-- A list is kept as long as its cells and itself are. -/
theorem IsList.frame (h : IsList m list cells) (hcells : m.cellCount ≤ m'.cellCount)
    (hlists : m.listCount ≤ m'.listCount)
    (hnext : ∀ cell ∈ cells, m'.next cell = m.next cell)
    (hlist : list ≠ 0 → m'.lists list = m.lists list) :
    IsList m' list cells where
  allocated := Nat.lt_of_lt_of_le h.allocated hlists
  seg := by
    rw [headOf_congr hlist]
    exact h.seg.congr hnext
  valid := fun cell hmem =>
    ⟨(h.valid cell hmem).1, Nat.lt_of_lt_of_le (h.valid cell hmem).2 hcells⟩
  length := fun hne => by rw [hlist hne, h.length hne]
  tail := fun cell hlast => by
    have hne : list ≠ 0 := by
      rintro rfl
      rw [h.null] at hlast
      cases hlast
    rw [hlist hne, h.tail cell hlast]

end Reads

/-! ## Appending -/

/-- Adding to a list changes the list itself, and the link of its last cell. -/
structure CellAdded (m m' : NodeMemory α) (list : Nat) (cells : List Nat) : Prop where
  next : ∀ x, x ∉ cells → m'.next x = m.next x
  value : m'.value = m.value
  lists : ∀ l, l ≠ list → m'.lists l = m.lists l
  head : cells ≠ [] → m'.headOf list = m.headOf list
  cellCount : m'.cellCount = m.cellCount
  listCount : m'.listCount = m.listCount

theorem addCell_first {m : NodeMemory α} {list : Nat}
    (h : (m.lists list).length = 0) (cell : Nat) :
    addCell list cell m =
      some { m with lists := Function.update m.lists list ⟨1, cell, cell⟩ } := by
  rw [addCell, if_pos h]

theorem addCell_last {m : NodeMemory α} {list last : Nat} (h : (m.lists list).length ≠ 0)
    (htail : (m.lists list).tail = last) (hlast : last ≠ 0) (cell : Nat) :
    addCell list cell m = some { m with
      next := Function.update m.next last cell
      lists := Function.update m.lists list
        ⟨(m.lists list).length + 1, (m.lists list).head, cell⟩ } := by
  rw [addCell, if_neg h, htail, if_neg hlast]

/-- A cell of its own is added at the end. -/
theorem addCell_isList {m : NodeMemory α} {list cell : Nat} {cells : List Nat}
    (h : IsList m list cells) (hlist : list ≠ 0)
    (hcell : cell ∉ cells) (hvalid : 0 < cell ∧ cell < m.cellCount) (hend : m.next cell = 0) :
    ∃ m', addCell list cell m = some m' ∧ IsList m' list (cells ++ [cell]) ∧
      CellAdded m m' list cells := by
  have hcells : ∀ c ∈ cells ++ [cell], 0 < c ∧ c < m.cellCount :=
    List.forall_mem_append.mpr ⟨h.valid, List.forall_mem_singleton.mpr hvalid⟩
  have hlength := h.length hlist
  rcases List.eq_nil_or_concat cells with rfl | ⟨front, last, rfl⟩
  · have hseg : Seg m.next cell [cell] 0 := .cons (hend ▸ .nil _)
    refine ⟨_, addCell_first hlength cell, ⟨h.allocated, ?_, hcells, fun _ => ?_, ?_⟩,
      ⟨fun x _ => rfl, rfl, fun l hl => Function.update_of_ne hl _ _,
        fun hne => absurd rfl hne, rfl, rfl⟩⟩
    · simp only [NodeMemory.headOf, if_neg hlist, Function.update_self]
      exact hseg
    · simp
    · rintro c ⟨⟩
      simp
  · rw [List.concat_eq_append] at h hcell hcells hlength ⊢
    have htail : (m.lists list).tail = last := h.tail last (by simp)
    have hlast : last ≠ 0 := Nat.pos_iff_ne_zero.mp (h.valid last (by simp)).1
    have hnodup := h.seg.nodup h.zero_notMem
    have hne : cell ≠ last := fun heq => hcell (by simp [heq])
    -- the last cell gets a link to the new one, which ends the list
    have hfront : ∀ y ∈ front, Function.update m.next last cell y = m.next y := fun y hy =>
      Function.update_of_ne
        ((List.nodup_append.mp hnodup).2.2 y hy last (List.mem_singleton_self _)) _ _
    have hrelink := h.seg.relink hfront
    have hnew : Seg (Function.update m.next last cell) cell [cell] 0 :=
      .cons (by rw [Function.update_of_ne hne, hend]; exact .nil 0)
    rw [Function.update_self] at hrelink
    have hhead : (if list = 0 then 0 else (Function.update m.lists list
        ⟨(m.lists list).length + 1, (m.lists list).head, cell⟩ list).head) =
          m.headOf list := by
      rw [NodeMemory.headOf, if_neg hlist, if_neg hlist, Function.update_self]
    refine ⟨_, addCell_last (by simp [hlength]) htail hlast cell,
      ⟨h.allocated, ?_, hcells, fun _ => ?_, ?_⟩,
      ⟨fun x hx => Function.update_of_ne (fun heq => hx (by simp [heq])) _ _, rfl,
        fun l hl => Function.update_of_ne hl _ _,
        fun _ => hhead, rfl, rfl⟩⟩
    · rw [NodeMemory.headOf, hhead]
      exact hrelink.append hnew
    · simp [hlength]
    · intro c hc
      obtain rfl : cell = c := by simpa using hc
      simp

/-! ### New cells -/

/-- Appending adds a new cell, to the list or to a new one. -/
structure Appended (m m' : NodeMemory α) (list list' : Nat) (cells : List Nat) : Prop where
  isList : IsList m' list' (cells ++ [m.cellCount])
  here : list ≠ 0 → list' = list
  new : list = 0 → list' = m.listCount
  next : ∀ x < m.cellCount, x ∉ cells → m'.next x = m.next x
  value : ∀ x < m.cellCount, m'.value x = m.value x
  lists : ∀ l < m.listCount, l ≠ list → m'.lists l = m.lists l
  head : cells ≠ [] → m'.headOf list = m.headOf list
  cellCount : m'.cellCount = m.cellCount + 1
  listCount : m.listCount ≤ m'.listCount

section NewCells

variable {m m' : NodeMemory α} {list list' : Nat} {cells : List Nat}

theorem Appended.valid (h : Appended m m' list list' cells) (hm : m.Valid) : m'.Valid :=
  ⟨by rw [h.cellCount]; exact Nat.succ_pos _, Nat.lt_of_lt_of_le hm.listCount h.listCount⟩

/-- The memory with a new cell. -/
theorem IsList.newCell (h : IsList m list cells) (value : Nat → Option α) :
    IsList { (newCell m).2 with value := value } list cells :=
  h.frame (Nat.le_succ _) (Nat.le_refl _)
    (fun cell hmem => Function.update_of_ne (Nat.ne_of_lt (h.valid cell hmem).2) _ _) fun _ =>
      rfl

/-- A new cell is added to the list, or to a new one. -/
theorem addCell_newCell (hm : m.Valid) (h : IsList m list cells) {value : Nat → Option α}
    (hvalue : ∀ x < m.cellCount, value x = m.value x) :
    ∃ list' m1 m', initialList list { (newCell m).2 with value := value } = (list', m1) ∧
      addCell list' m.cellCount m1 = some m' ∧ Appended m m' list list' cells ∧
        m'.value = value := by
  have hend : Function.update m.next m.cellCount 0 m.cellCount = 0 := Function.update_self ..
  have hold : ∀ x < m.cellCount, Function.update m.next m.cellCount 0 x = m.next x :=
    fun x hx => Function.update_of_ne (Nat.ne_of_lt hx) _ _
  by_cases hlist : list = 0
  · subst hlist
    obtain rfl := h.null
    have hne : m.listCount ≠ 0 := Nat.pos_iff_ne_zero.mp hm.listCount
    refine ⟨_, _, _, if_pos rfl, addCell_first (by simp [newCell]) _,
      ⟨⟨Nat.lt_succ_self _, ?_, ?_, ?_, ?_⟩, fun hne => absurd rfl hne,
      fun _ => rfl, fun x hx _ => hold x hx, hvalue, fun l hl _ => ?_,
        fun hne => absurd rfl hne, rfl, Nat.le_succ _⟩, rfl⟩
    · simp only [NodeMemory.headOf, newCell, if_neg hne, Function.update_self]
      exact .cons (by rw [Function.update_self]; exact .nil 0)
    · exact List.forall_mem_singleton.mpr ⟨hm.cellCount, Nat.lt_succ_self _⟩
    · simp [newCell]
    · rintro c ⟨⟩
      simp [newCell]
    · simp only [newCell]
      rw [Function.update_of_ne (Nat.ne_of_lt hl), Function.update_of_ne (Nat.ne_of_lt hl)]
  · have hcell : m.cellCount ∉ cells := fun hmem => Nat.lt_irrefl _ (h.valid _ hmem).2
    obtain ⟨m', hadd, hisList, hadded⟩ :=
      addCell_isList (h.newCell value) hlist hcell ⟨hm.cellCount, Nat.lt_succ_self _⟩ hend
    exact ⟨list, _, m', if_neg hlist, hadd,
      ⟨hisList, fun _ => rfl, fun heq => absurd heq hlist,
      fun x hx hmem => (hadded.next x hmem).trans (hold x hx), fun x hx => by
        rw [hadded.value]; exact hvalue x hx,
      fun l _ hl => hadded.lists l hl, hadded.head, hadded.cellCount,
        Nat.le_of_eq hadded.listCount.symm⟩, hadded.value⟩

/-- The functions that add a new cell. -/
inductive Addition (α : Type) where
  | createCell
  | appendNode (n : Option α)

/-- The call. -/
def Addition.call (list : Nat) (m : NodeMemory α) : Addition α → Option (Nat × NodeMemory α)
  | .createCell => Toadb.createCell list m
  | .appendNode n => Toadb.appendNode list n m

theorem createCell_appended (hm : m.Valid) (h : IsList m list cells) :
    ∃ list' m', createCell list m = some (list', m') ∧ Appended m m' list list' cells := by
  obtain ⟨list', m1, m', hinit, hadd, happended, -⟩ :=
    addCell_newCell hm h fun x (_ : x < m.cellCount) => (rfl : m.value x = m.value x)
  refine ⟨list', m', ?_, happended⟩
  have hcell : initialList list (newCell m).2 = (list', m1) := hinit
  have hnew : addCell list' (newCell m).1 m1 = some m' := hadd
  simp only [createCell, hcell, hnew, Option.bind_eq_bind, Option.bind_some, Option.pure_def]

theorem appendNode_appended (hm : m.Valid) (h : IsList m list cells) (n : Option α) :
    ∃ list' m', appendNode list n m = some (list', m') ∧ Appended m m' list list' cells := by
  by_cases hlist : list = 0
  · subst hlist
    obtain rfl := h.null
    obtain ⟨list', m', hcreate, happended⟩ := createCell_appended hm h
    rw [appendNode, if_pos rfl, createList, hcreate]
    cases n with
    | none => exact ⟨list', m', rfl, happended⟩
    | some n =>
      -- the tail is the new cell
      have htail : (m'.lists list').tail = m.cellCount := happended.isList.tail _ rfl
      refine ⟨list', _, rfl,
        ⟨happended.isList.frame (Nat.le_refl _) (Nat.le_refl _) (fun _ _ => rfl) fun _ => rfl,
        happended.here, happended.new, happended.next, fun x hx => ?_, happended.lists,
          fun hne => absurd rfl hne,
        happended.cellCount, happended.listCount⟩⟩
      simp only [htail]
      rw [Function.update_of_ne (Nat.ne_of_lt hx), happended.value x hx]
  · have hvalue : ∀ x < m.cellCount, Function.update m.value m.cellCount n x = m.value x :=
      fun x hx => Function.update_of_ne (Nat.ne_of_lt hx) _ _
    obtain ⟨list', m1, m', hinit, hadd, happended, -⟩ := addCell_newCell hm h hvalue
    obtain rfl : list' = list := happended.here hlist
    rw [initialList, if_neg hlist] at hinit
    obtain ⟨-, rfl⟩ := Prod.mk.inj hinit
    refine ⟨list', m', ?_, happended⟩
    rw [appendNode, if_neg hlist]
    change (addCell list' _ _).bind _ = _
    exact (congrArg (Option.bind · _) hadd).trans rfl

theorem call_appended (hm : m.Valid) (h : IsList m list cells) (a : Addition α) :
    ∃ list' m', a.call list m = some (list', m') ∧ Appended m m' list list' cells := by
  cases a with
  | createCell => exact createCell_appended hm h
  | appendNode n => exact appendNode_appended hm h n

end NewCells

/-! ## The lists of a merge -/

/-- The lists that a merge leaves. -/
inductive Role where
  | result | list1 | list2
  deriving DecidableEq

/-- The memory, and where each list is. -/
structure MergeState (α : Type) where
  memory : NodeMemory α
  list : Role → Nat

/-- `list = AppendNode(list, n)`, for one of the lists. -/
def MergeState.add (s : MergeState α) (role : Role)
    (a : Addition α) : Option (MergeState α) :=
  (a.call (s.list role) s.memory).map fun (list, m) => ⟨m, Function.update s.list role list⟩

def MergeState.addAll : List (Role × Addition α) → MergeState α → Option (MergeState α)
  | [], s => some s
  | (role, a) :: run, s => (s.add role a).bind (addAll run)

def mergedLists (result list1 list2 : Nat) : Role → Nat
  | .result => result
  | .list1 => list1
  | .list2 => list2

/-- What is added to one list is not seen in the others. -/
def AddsApart (s : MergeState α) : Prop :=
  ∀ role a s', s.add role a = some s' → ∀ other, other ≠ role → ∀ nodes,
    Reads s.memory (s.list other) nodes → Reads s'.memory (s'.list other) nodes

/-- The merge reads as the first list and then the second one, both read as before, and from
then on nothing that is added to one of the three is seen in the others. -/
def MergesApart (list1 list2 : Nat) (m : NodeMemory α) : Prop :=
  ∃ result m', mergeList list1 list2 m = some (result, m') ∧
    (∀ nodes1 nodes2, Reads m list1 nodes1 → Reads m list2 nodes2 →
      Reads m' result (nodes1 ++ nodes2) ∧ Reads m' list1 nodes1 ∧ Reads m' list2 nodes2) ∧
    ∀ run s, MergeState.addAll run ⟨m', mergedLists result list1 list2⟩ = some s → AddsApart s

/-! ### Lists without common cells -/

/-- No two lists have a cell in common, or are the same. -/
structure Separate (s : MergeState α) (cells : Role → List Nat) : Prop where
  valid : s.memory.Valid
  isList : ∀ role, IsList s.memory (s.list role) (cells role)
  cells : ∀ role other, role ≠ other → ∀ cell ∈ cells role, cell ∉ cells other
  lists : ∀ role other, role ≠ other → s.list role = s.list other → s.list role = 0

section Separate

variable {s s' : MergeState α} {cells : Role → List Nat} {role : Role} {a : Addition α}

/-- One list gets longer, and the others are kept. -/
theorem Separate.add (h : Separate s cells) (hadd : s.add role a = some s') :
    Separate s' (Function.update cells role (cells role ++ [s.memory.cellCount])) ∧
      (∀ other, other ≠ role → s'.list other = s.list other) ∧
      ∀ x < s.memory.cellCount, s'.memory.value x = s.memory.value x := by
  obtain ⟨list, m, hcall, happended⟩ := call_appended h.valid (h.isList role) a
  rw [MergeState.add, hcall] at hadd
  cases hadd
  have hnew : list ≠ 0 := by
    rintro rfl
    have hnil := happended.isList.null
    simp at hnil
  -- the new list is none of the others
  have hlist (other : Role) (hother : other ≠ role) : s.list other ≠ list := by
    intro heq
    by_cases hzero : s.list role = 0
    · have hlt := (h.isList other).allocated
      rw [heq, happended.new hzero] at hlt
      exact Nat.lt_irrefl _ hlt
    · exact hzero ((h.lists role other hother.symm) (by rw [heq, happended.here hzero]))
  have hkept (other : Role) (hother : other ≠ role) :
      IsList m (s.list other) (cells other) := by
    refine (h.isList other).frame
      (by rw [happended.cellCount]; exact Nat.le_succ _) happended.listCount ?_ ?_
    · exact fun cell hmem => happended.next cell ((h.isList other).valid cell hmem).2
        (h.cells other role hother cell hmem)
    · intro hne
      exact happended.lists _ (h.isList other).allocated fun heq =>
        hne (h.lists other role hother heq)
  have hfresh (other : Role) : s.memory.cellCount ∉ cells other :=
    fun hmem => Nat.lt_irrefl _ ((h.isList other).valid _ hmem).2
  refine ⟨⟨happended.valid h.valid, fun r => ?_, fun r r' hne => ?_, fun r r' hne => ?_⟩,
    fun other hother => Function.update_of_ne hother _ _, happended.value⟩
  · by_cases hr : r = role
    · subst hr
      simpa only [Function.update_self] using happended.isList
    · simpa only [Function.update_of_ne hr] using hkept r hr
  · by_cases hr : r = role
    · subst hr
      rw [Function.update_self, Function.update_of_ne hne.symm]
      refine List.forall_mem_append.mpr
        ⟨h.cells r r' hne, List.forall_mem_singleton.mpr (hfresh r')⟩
    · rw [Function.update_of_ne hr]
      by_cases hr' : r' = role
      · subst hr'
        rw [Function.update_self]
        intro cell hcell hmem
        rcases List.mem_append.mp hmem with hold | hlast
        · exact h.cells r r' hne cell hcell hold
        · exact hfresh r (List.mem_singleton.mp hlast ▸ hcell)
      · rw [Function.update_of_ne hr']
        exact h.cells r r' hne
  · simp only
    by_cases hr : r = role
    · subst hr
      rw [Function.update_self, Function.update_of_ne hne.symm]
      exact fun heq => absurd heq.symm (hlist r' hne.symm)
    · rw [Function.update_of_ne hr]
      by_cases hr' : r' = role
      · subst hr'
        rw [Function.update_self]
        exact fun heq => absurd heq (hlist r hr)
      · rw [Function.update_of_ne hr']
        exact h.lists r r' hne

theorem Separate.addsApart (h : Separate s cells) : AddsApart s := by
  intro role a s' hadd other hother nodes hreads
  obtain ⟨h', hlist, hvalue⟩ := h.add hadd
  have hreads' := (h'.isList other).reads
  rw [Function.update_of_ne hother] at hreads'
  rw [hreads.unique (h.isList other).reads]
  have hmap : (cells other).map s'.memory.value = (cells other).map s.memory.value :=
    List.map_congr_left fun cell hmem => hvalue cell ((h.isList other).valid cell hmem).2
  exact hmap ▸ hreads'

theorem Separate.addAll {run : List (Role × Addition α)} (h : Separate s cells)
    (hrun : MergeState.addAll run s = some s') :
    ∃ cells', Separate s' cells' := by
  induction run generalizing s cells with
  | nil =>
    cases hrun
    exact ⟨cells, h⟩
  | cons step run ih =>
    obtain ⟨mid, hadd, hrest⟩ := Option.bind_eq_some_iff.mp hrun
    exact ih (h.add hadd).1 hrest

end Separate

/-! ## The loops -/

section Merge

variable {m m' : NodeMemory α} {list list' list1 list2 : Nat} {cells cells1 cells2 : List Nat}

/-- The memory with a new list. -/
def withList (m : NodeMemory α) (l : NodeList) : NodeMemory α :=
  { m with listCount := m.listCount + 1, lists := Function.update m.lists m.listCount l }

@[simp] theorem lists_withList (m : NodeMemory α) (l : NodeList) :
    (withList m l).lists m.listCount = l :=
  Function.update_self ..

/-- The link that is written is there already. -/
theorem addCell_withList {n head last c : Nat} (hlast : last ≠ 0) (hnext : m.next last = c) :
    addCell m.listCount c (withList m ⟨n + 1, head, last⟩) =
      some (withList m ⟨n + 1 + 1, head, c⟩) := by
  have htail : ((withList m ⟨n + 1, head, last⟩).lists m.listCount).tail = last := by simp
  rw [addCell_last (by simp) htail hlast]
  subst hnext
  simp [withList]

/-- The cells that follow are taken over, with the links they have. -/
theorem appendCells_withList (hm : m.Valid) {rest : List Nat} {c last n head : Nat}
    (hseg : Seg m.next c rest 0)
    (hzero : 0 ∉ rest) (hlast : last ≠ 0) (hnext : m.next last = c) :
    ∃ tail ∈ (last :: rest).getLast?,
      appendCells rest.length c m.listCount (withList m ⟨n + 1, head, last⟩) =
      some (m.listCount, withList m ⟨n + 1 + rest.length, head, tail⟩) := by
  have hlist : m.listCount ≠ 0 := Nat.pos_iff_ne_zero.mp hm.listCount
  induction rest generalizing c last n with
  | nil => exact ⟨last, rfl, rfl⟩
  | cons d rest ih =>
    obtain ⟨rfl, hrest⟩ := DList.seg_cons_iff.mp hseg
    have hc : c ≠ 0 := fun heq => hzero (heq ▸ List.mem_cons_self)
    obtain ⟨tail, htail, hloop⟩ :=
      ih (n := n + 1) hrest (List.not_mem_of_not_mem_cons hzero) hc rfl
    refine ⟨tail, by rwa [List.getLast?_cons_cons], ?_⟩
    rw [List.length_cons, appendCells, if_neg hc, appendCellNode, initialList, if_neg hlist]
    simp only [addCell_withList hlast hnext, Option.bind_eq_bind,
      Option.bind_some, Option.pure_def]
    rw [Nat.add_comm rest.length 1, ← Nat.add_assoc]
    exact hloop

/-- A loop over one list with nothing before makes a list of the same cells. -/
theorem appendList_own (hm : m.Valid) (h : IsList m list cells) (hcells : cells ≠ []) :
    ∃ m', appendList list 0 m = some (m.listCount, m') ∧ IsList m' m.listCount cells ∧
      m'.headOf m.listCount = m.headOf list ∧ IsList m' list cells ∧ m'.Valid ∧
      (∀ l < m.listCount, m'.lists l = m.lists l) ∧ m'.next = m.next ∧
        m'.value = m.value := by
  have hlist : list ≠ 0 := by
    rintro rfl
    exact hcells h.null
  have hcount : m.listCount ≠ 0 := Nat.pos_iff_ne_zero.mp hm.listCount
  rcases cells with _ | ⟨c, rest⟩
  · exact absurd rfl hcells
  have hlength := h.length hlist
  have hseg := h.seg
  rw [NodeMemory.headOf, if_neg hlist] at hseg
  obtain ⟨hhead, hrest⟩ := DList.seg_cons_iff.mp hseg
  have hzero := h.zero_notMem
  have hc : c ≠ 0 := fun heq => hzero (heq ▸ List.mem_cons_self)
  rw [hhead] at hrest
  obtain ⟨tail, htail, hloop⟩ : ∃ tail ∈ (c :: rest).getLast?,
      appendCells rest.length (m.next c) m.listCount (withList m ⟨0 + 1, c, c⟩) =
        some (m.listCount, withList m ⟨0 + 1 + rest.length, c, tail⟩) :=
    appendCells_withList hm hrest (List.not_mem_of_not_mem_cons hzero) hc rfl
  have hkept : ∀ l < m.listCount,
      (withList m ⟨0 + 1 + rest.length, c, tail⟩).lists l = m.lists l :=
    fun l hl => Function.update_of_ne (Nat.ne_of_lt hl) _ _
  have hnew : (withList m ⟨0 + 1 + rest.length, c, tail⟩).headOf m.listCount = c := by
    rw [NodeMemory.headOf, if_neg hcount, lists_withList]
  refine ⟨withList m ⟨0 + 1 + rest.length, c, tail⟩, ?_,
    ⟨Nat.lt_succ_self _, ?_, h.valid, fun _ => ?_, fun d hd => ?_⟩, ?_,
    h.frame (Nat.le_refl _) (Nat.le_succ _) (fun _ _ => rfl)
      (fun _ => hkept list h.allocated),
    ⟨hm.cellCount, Nat.succ_pos _⟩, hkept, rfl, rfl⟩
  · have hfirst : addCell m.listCount c (initialList 0 m).2 =
        some (withList m ⟨0 + 1, c, c⟩) := by
      rw [initialList, if_pos rfl, addCell_first (by simp)]
      simp [withList]
    rw [appendList, if_neg hlist, hlength, hhead, List.length_cons, appendCells,
      if_neg hc, appendCellNode]
    simp only [initialList, if_pos] at hfirst ⊢
    simp only [hfirst, Option.bind_eq_bind, Option.bind_some, Option.pure_def]
    exact hloop
  · rw [hnew]
    exact .cons hrest
  · rw [lists_withList, List.length_cons]
    simp only
    omega
  · rw [lists_withList]
    exact Option.some.inj (htail.symm.trans hd)
  · rw [hnew, NodeMemory.headOf, if_neg hlist, hhead]

theorem appendList_nil (h : list ≠ 0 → (m.lists list).length = 0) (tempList : Nat) :
    appendList list tempList m = some (tempList, m) := by
  by_cases hlist : list = 0
  · rw [appendList, if_pos hlist]
  · rw [appendList, if_neg hlist, h hlist]
    rfl

theorem mergeList_eq {tempList : Nat} (h : appendList list1 0 m = some (tempList, m')) :
    mergeList list1 list2 m = appendList list2 tempList m' := by
  rw [mergeList, h]
  rfl

/-- A loop that goes on with a list keeps its first cell, and the other lists. -/
theorem appendCells_head {n c : Nat} (hlist : list ≠ 0) (hlength : (m.lists list).length ≠ 0)
    (h : appendCells n c list m = some (list', m')) :
    list' = list ∧ m'.headOf list = m.headOf list ∧ ∀ l, l ≠ list →
      m'.lists l = m.lists l := by
  induction n generalizing c m with
  | zero =>
    cases h
    exact ⟨rfl, rfl, fun _ _ => rfl⟩
  | succ n ih =>
    rw [appendCells] at h
    split at h
    next =>
      cases h
      exact ⟨rfl, rfl, fun _ _ => rfl⟩
    next =>
      rw [appendCellNode, initialList, if_neg hlist] at h
      simp only [addCell, if_neg hlength] at h
      split at h
      next => cases h
      next =>
        obtain ⟨rfl, hhead, hkept⟩ := ih (by simp) h
        refine ⟨rfl, hhead.trans ?_, fun l hl =>
          (hkept l hl).trans (Function.update_of_ne hl _ _)⟩
        rw [NodeMemory.headOf, NodeMemory.headOf, if_neg hlist, if_neg hlist]
        simp

/-- When only one of the lists has cells, what is added to the merge is seen in it. -/
theorem not_mergesApart_of_own (hm : m.Valid) {role : Role} (hrole : role ≠ .result)
    (h : IsList m (mergedLists 0 list1 list2 role) cells) (hcells : cells ≠ [])
    (hmerge : mergeList list1 list2 m = appendList (mergedLists 0 list1 list2 role) 0 m) :
    ¬ MergesApart list1 list2 m := by
  obtain ⟨m1, hown, hresult, hhead, hlist, hm1, hkept, -⟩ := appendList_own hm h hcells
  rintro ⟨result, m', hmerge', -, hruns⟩
  rw [hmerge, hown] at hmerge'
  cases hmerge'
  have hrolelist : mergedLists m.listCount list1 list2 role =
      mergedLists 0 list1 list2 role := by
    cases role with
    | result => exact absurd rfl hrole
    | list1 | list2 => rfl
  obtain ⟨list', m2, hcall, happended⟩ := call_appended hm1 hresult (.createCell : Addition α)
  obtain rfl : list' = m.listCount := happended.here (Nat.pos_iff_ne_zero.mp hm.listCount)
  have hadd := hruns [] _ rfl .result .createCell
      ⟨m2, Function.update (mergedLists m.listCount list1 list2) .result m.listCount⟩
    (by rw [MergeState.add]; exact congrArg _ hcall) role hrole (cells.map m1.value)
  simp only [Function.update_of_ne hrole, hrolelist] at hadd
  have hafter := hadd hlist.reads
  -- the list begins with the same cell as the merge, which is longer now
  have hlt := h.allocated
  have hsame : m2.headOf (mergedLists 0 list1 list2 role) = m2.headOf m.listCount := by
    rw [happended.head hcells, hhead]
    refine headOf_congr fun _ => ?_
    rw [happended.lists _ hlist.allocated (Nat.ne_of_lt hlt), hkept _ hlt]
  have hlonger := (reads_of_headOf happended.isList.reads hsame).unique hafter
  have hlen := congrArg List.length hlonger
  simp at hlen

/-- When both lists have cells, the merge begins with the first cell of the first one. -/
theorem not_mergesApart_of_both (hm : m.Valid) (h1 : IsList m list1 cells1)
    (h2 : IsList m list2 cells2)
    (hcells1 : cells1 ≠ []) (hcells2 : cells2 ≠ []) : ¬ MergesApart list1 list2 m := by
  rintro ⟨result, m', hmerge, hreads, -⟩
  obtain ⟨m1, hown, hresult, hhead, hlist, hm1, hkept, -⟩ := appendList_own hm h1 hcells1
  have hcount : m.listCount ≠ 0 := Nat.pos_iff_ne_zero.mp hm.listCount
  have hlist2 : list2 ≠ 0 := by
    rintro rfl
    exact hcells2 h2.null
  have hlength : (m1.lists m.listCount).length ≠ 0 := by
    rw [hresult.length hcount]
    exact fun hzero => hcells1 (List.length_eq_zero_iff.mp hzero)
  rw [mergeList_eq hown, appendList, if_neg hlist2] at hmerge
  obtain ⟨rfl, hhead', hkept'⟩ := appendCells_head hcount hlength hmerge
  obtain ⟨hmerged, hread1, -⟩ := hreads _ _ h1.reads h2.reads
  have hsame : m'.headOf list1 = m'.headOf m.listCount := by
    rw [hhead', hhead]
    refine headOf_congr fun _ => ?_
    rw [hkept' _ (Nat.ne_of_lt h1.allocated), hkept _ h1.allocated]
  have hlen := congrArg List.length ((reads_of_headOf hmerged hsame).unique hread1)
  rw [List.length_append, List.length_map, List.length_map] at hlen
  exact hcells2 (List.length_eq_zero_iff.mp (by omega))

/-- What is added to a list is seen in every list that is the same. -/
theorem not_mergesApart_of_same (hm : m.Valid) (h : IsList m list []) (hlist : list ≠ 0) :
    ¬ MergesApart list list m := by
  rintro ⟨result, m', hmerge, -, hruns⟩
  rw [mergeList_eq (appendList_nil h.length 0), appendList_nil h.length] at hmerge
  cases hmerge
  obtain ⟨list', m2, hcall, happended⟩ := call_appended hm h (.createCell : Addition α)
  obtain rfl : list' = list := happended.here hlist
  have hadd := hruns [] _ rfl .list1 .createCell
      ⟨m2, Function.update (mergedLists 0 list' list') .list1 list'⟩
    (by rw [MergeState.add]; exact congrArg _ hcall) .list2 (by decide) [] h.reads
  have hlen := congrArg List.length (happended.isList.reads.unique hadd)
  simp at hlen

/-- Lists without cells, of which the merge is NULL. -/
theorem mergesApart_of_nil (hm : m.Valid) (h1 : IsList m list1 []) (h2 : IsList m list2 [])
    (hlists : list1 = list2 → list1 = 0) : MergesApart list1 list2 m := by
  have hmerge : mergeList list1 list2 m = some (0, m) := by
    rw [mergeList_eq (appendList_nil h1.length 0), appendList_nil h2.length]
  have hseparate : Separate ⟨m, mergedLists 0 list1 list2⟩ fun _ => [] := by
    refine ⟨hm, fun role => ?_, fun _ _ _ cell hmem => absurd hmem List.not_mem_nil,
      fun role other hne heq => ?_⟩
    · cases role with
      | result => exact isList_null hm
      | list1 => exact h1
      | list2 => exact h2
    · cases role <;> cases other <;> first
        | exact absurd rfl hne
        | rfl
        | exact heq
        | exact hlists heq
        | exact heq.trans (hlists heq.symm)
  refine ⟨0, m, hmerge, fun nodes1 nodes2 hreads1 hreads2 => ?_, fun run s hrun => ?_⟩
  · obtain rfl := hreads1.unique h1.reads
    obtain rfl := hreads2.unique h2.reads
    exact ⟨(isList_null hm).reads, hreads1, hreads2⟩
  · obtain ⟨cells', hs⟩ := hseparate.addAll hrun
    exact hs.addsApart

/-- A merge is apart from its parts only when there are no cells. -/
theorem mergeList_apart_iff (hm : m.Valid) (h1 : IsList m list1 cells1)
    (h2 : IsList m list2 cells2) :
    MergesApart list1 list2 m ↔ cells1 = [] ∧ cells2 = [] ∧ (list1 = list2 → list1 = 0) := by
  constructor
  · intro h
    by_cases hcells1 : cells1 = []
    · subst hcells1
      by_cases hcells2 : cells2 = []
      · subst hcells2
        refine ⟨rfl, rfl, fun heq => ?_⟩
        by_contra hlist
        exact not_mergesApart_of_same hm h1 hlist (heq ▸ h)
      · exact absurd h
          (not_mergesApart_of_own hm (by decide : Role.list2 ≠ .result) h2 hcells2
          (mergeList_eq (appendList_nil h1.length 0)))
    · by_cases hcells2 : cells2 = []
      · subst hcells2
        obtain ⟨m1, hown, -, -, -, -, hkept, -⟩ := appendList_own hm h1 hcells1
        have hlength : list2 ≠ 0 → (m1.lists list2).length = 0 := fun hne => by
          rw [hkept list2 h2.allocated]
          exact h2.length hne
        exact absurd h
          (not_mergesApart_of_own hm (by decide : Role.list1 ≠ .result) h1 hcells1
          ((mergeList_eq hown).trans ((appendList_nil hlength _).trans hown.symm)))
      · exact absurd h (not_mergesApart_of_both hm h1 h2 hcells1 hcells2)
  · rintro ⟨rfl, rfl, hlists⟩
    exact mergesApart_of_nil hm h1 h2 hlists

end Merge

/-- A list of the node 10, and one of the node 20. -/
def twoLists : NodeMemory Nat where
  value cell := if cell = 1 then some 10 else some 20
  next _ := 0
  lists list := ⟨1, list, list⟩
  cellCount := 3
  listCount := 3

theorem isList_twoLists {list : Nat} (hpos : 0 < list) (hlt : list < 3) :
    IsList twoLists list [list] where
  allocated := hlt
  seg := by
    have hhead : twoLists.headOf list = list := if_neg (Nat.pos_iff_ne_zero.mp hpos)
    rw [hhead]
    exact .cons (.nil 0)
  valid := List.forall_mem_singleton.mpr ⟨hpos, hlt⟩
  length _ := rfl
  tail c hc := Option.some.inj hc

/-- Two lists with a cell each are not apart from their merge. -/
theorem twoLists_not_mergesApart : ¬ MergesApart 1 2 twoLists := by
  have hiff := mergeList_apart_iff ⟨by decide, by decide⟩
      (isList_twoLists (by decide : 0 < 1) (by decide))
    (isList_twoLists (by decide : 0 < 2) (by decide))
  exact fun h => absurd (hiff.mp h).1 (by decide)

/-- The first list reads as both of them after the merge. -/
theorem mergeList_twoLists : Reads twoLists 1 [some 10] ∧
    ∃ m, mergeList 1 2 twoLists = some (3, m) ∧ Reads m 1 [some 10, some 20] ∧
      ¬ Reads m 1 [some 10] := by
  have hboth (m : NodeMemory Nat) (hhead : m.headOf 1 = 1) (hfirst : m.next 1 = 2)
      (hlast : m.next 2 = 0)
      (hvalue : [1, 2].map m.value = [some 10, some 20]) : Reads m 1 [some 10, some 20] ∧
        ¬ Reads m 1 [some 10] := by
    have hseg : Seg m.next 1 [1, 2] 0 :=
      .cons (by rw [hfirst]; exact .cons (by rw [hlast]; exact .nil 0))
    have hreads : Reads m 1 [some 10, some 20] :=
      ⟨[1, 2], by rw [hhead]; exact hseg, by decide, hvalue.symm⟩
    exact ⟨hreads, fun h => absurd (hreads.unique h) (by decide)⟩
  exact ⟨(isList_twoLists (by decide) (by decide)).reads, _, rfl, hboth _ rfl rfl rfl rfl⟩

end Toadb
