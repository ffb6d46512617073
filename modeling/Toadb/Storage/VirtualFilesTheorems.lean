/-
Toadb.Storage.VirtualFilesTheorems — which nodes the list of virtual files has.

  * `SmgrContext.ListsFiles` — what the list is for: it has the nodes of the open tables, and
                               a table finds its own;
  * `SmgrContext.Linked`     — the ring has the nodes table by table, the first node of a
                               table before its second (`FileBlock`);
  * `SmgrContext.Aligned`    — the first nodes of all tables are of one fork.

A call keeps them where it meets `CallOk`, and `ListsFiles` is lost at any other one: a node
is released where it is linked, the ring is given up with its first table, or a table looks
for its second node and comes to the first one of the next table (`listsFiles_iff`).
-/
import Toadb.Storage.VirtualFiles

namespace Toadb

open DList Transition

/-- The nodes of a table: the first one, and the one of the other fork. -/
structure FileBlock (T : Type) where
  table : T
  head : Nat
  second : Option Nat

/-- The nodes in the order of the ring. -/
def FileBlock.nodes {T : Type} (b : FileBlock T) : List Nat := b.head :: b.second.toList

/-- `vfend`. -/
def FileBlock.last {T : Type} (b : FileBlock T) : Nat := b.second.getD b.head

/-- The nodes of all tables. -/
def nodesOf {T : Type} (bs : List (FileBlock T)) : List Nat := bs.flatMap FileBlock.nodes

variable {T : Type}

@[simp] theorem nodesOf_nil : nodesOf ([] : List (FileBlock T)) = [] := rfl

@[simp] theorem nodesOf_cons (b : FileBlock T) (bs : List (FileBlock T)) :
    nodesOf (b :: bs) = b.nodes ++ nodesOf bs := by simp [nodesOf]

@[simp] theorem nodesOf_append (as bs : List (FileBlock T)) :
    nodesOf (as ++ bs) = nodesOf as ++ nodesOf bs := by simp [nodesOf]

theorem mem_nodesOf {bs : List (FileBlock T)} {x : Nat} :
    x ∈ nodesOf bs ↔ ∃ b ∈ bs, x ∈ b.nodes := by
  simp [nodesOf]

theorem nodesOf_eq_nil {bs : List (FileBlock T)} : nodesOf bs = [] ↔ bs = [] := by
  cases bs with
  | nil => simp
  | cons b bs => simp [FileBlock.nodes]

theorem head_mem_nodesOf {b : FileBlock T} {bs : List (FileBlock T)} (h : b ∈ bs) :
    b.head ∈ nodesOf bs := mem_nodesOf.mpr ⟨b, h, List.mem_cons_self⟩

theorem exists_middle {as cs : List (FileBlock T)} {b : FileBlock T}
    {p : FileBlock T → Prop} :
    (∃ c ∈ as ++ b :: cs, p c) ↔ p b ∨ ∃ c ∈ as ++ cs, p c := by
  simp only [List.mem_append, List.mem_cons, or_and_right, exists_or, exists_eq_left]
  exact or_left_comm

/-- With its second node a table has one node more. -/
theorem has_second_iff {as cs : List (FileBlock T)} {t t' : T} {head node x : Nat} :
    (∃ b ∈ as ++ ⟨t, head, some node⟩ :: cs, b.table = t' ∧ x ∈ b.nodes) ↔
      t' = t ∧ x = node ∨ ∃ b ∈ as ++ ⟨t, head, none⟩ :: cs, b.table = t' ∧ x ∈ b.nodes := by
  rw [exists_middle, exists_middle, ← or_assoc]
  refine or_congr_left ?_
  simp only [FileBlock.nodes, Option.toList_none, Option.toList_some,
    List.mem_cons, List.not_mem_nil,
    or_false, and_or_left, eq_comm (a := t)]
  exact or_comm

theorem perm_second {front rest : List Nat} {head node : Nat} :
    (front ++ head :: node :: rest).Perm (node :: (front ++ head :: rest)) := by
  have hsplit : front ++ head :: node :: rest = (front ++ [head]) ++ node :: rest := by simp
  have hshort : front ++ head :: rest = (front ++ [head]) ++ rest := by simp
  rw [hsplit, hshort]
  exact List.perm_middle

namespace SmgrContext

/-! ## What the list is for -/

/-- From `smgrContext->vfhead` on the nodes are those of `l`, and then it is back. -/
structure Lists (s : SmgrContext T) (l : List Nat) : Prop where
  walk : Seg s.next s.vfhead l s.vfhead
  empty : l = [] ↔ s.vfhead = nullAddr
  once : s.vfhead ∉ l.tail

/-- The list has exactly the nodes in use, all of them of open tables, and `vFileNum` of them;
the links and pointers lead to nodes in use, none was released twice; and `SearchVF` gives a
table its own node of the fork or nothing. -/
structure ListsFiles (s : SmgrContext T) : Prop where
  list : ∃ l, s.Lists l ∧ (∀ x, x ∈ l ↔ ∃ t, (t, x) ∈ s.nodes) ∧ s.vFileNum = l.length ∧
    ∀ x ∈ l, s.prev x ∈ l
  opened : ∀ t x, (t, x) ∈ s.nodes → (s.tables t).vfhead ≠ nullAddr
  pointers : ∀ t, (s.tables t).vfhead ≠ nullAddr →
    (t, (s.tables t).vfhead) ∈ s.nodes ∧ (t, (s.tables t).vfend) ∈ s.nodes
  freed : s.freedTwice = false
  search : ∀ t forknum x, s.findVF (s.tables t).vfhead forknum = some x →
    (t, x) ∈ s.nodes ∧ s.forkNum x = forknum

/-! ## The invariant -/

/-- The ring has the nodes table by table. -/
structure Linked (s : SmgrContext T) (bs : List (FileBlock T)) : Prop where
  ring : Ring s.next s.prev s.vfhead (nodesOf bs)
  empty : bs = [] → s.vfhead = nullAddr
  null : nullAddr ∉ nodesOf bs
  tables : (bs.map FileBlock.table).Nodup
  nodes : ∀ t x, (t, x) ∈ s.nodes ↔ ∃ b ∈ bs, b.table = t ∧ x ∈ b.nodes
  count : s.vFileNum = (nodesOf bs).length
  freed : s.freedTwice = false

/-- The pointers of the tables. -/
structure Pointers (s : SmgrContext T) (bs : List (FileBlock T)) : Prop where
  opened : ∀ b ∈ bs, s.tables b.table = ⟨b.head, b.last⟩
  closed : ∀ t, t ∉ bs.map FileBlock.table → s.tables t = SgmrInfo.init

/-- The first nodes are of the fork `f`, the second ones are not. -/
def Aligned (s : SmgrContext T) (f : ForkType) (bs : List (FileBlock T)) : Prop :=
  ∀ b ∈ bs, s.forkNum b.head = f ∧ ∀ x ∈ b.second, s.forkNum x ≠ f

/-- The invariant of the list. -/
def FilesOk (s : SmgrContext T) : Prop := ∃ bs f, s.Linked bs ∧ s.Pointers bs ∧ s.Aligned f bs

variable {s : SmgrContext T} {bs as : List (FileBlock T)} {b : FileBlock T}
  {f : ForkType} {t : T}
  {x : Nat}

theorem filesOk_init (h : SmgrContextInit s) : s.FilesOk := by
  refine ⟨[], .main,
    ⟨ring_nil .., fun _ => h.vfhead, List.not_mem_nil, List.nodup_nil, ?_, h.vFileNum,
    h.freedTwice⟩, ⟨nofun, fun t _ => h.tables t⟩, nofun⟩
  simp [h.nodes]

theorem Linked.head_ne_null (h : s.Linked bs) (hb : b ∈ bs) : b.head ≠ nullAddr :=
  fun heq => h.null (heq ▸ head_mem_nodesOf hb)

theorem Linked.vfhead_cons (h : s.Linked (b :: bs)) : s.vfhead = b.head := by
  have hring := h.ring
  rw [nodesOf_cons, FileBlock.nodes, List.cons_append] at hring
  exact hring.head_eq

theorem Linked.vfhead_eq_null (h : s.Linked bs) : bs = [] ↔ s.vfhead = nullAddr := by
  refine ⟨h.empty, fun hnull => ?_⟩
  cases bs with
  | nil => rfl
  | cons b bs =>
    rw [h.vfhead_cons] at hnull
    exact absurd hnull (h.head_ne_null List.mem_cons_self)

theorem Linked.lists (h : s.Linked bs) : s.Lists (nodesOf bs) where
  walk := h.ring.seg
  empty := by rw [nodesOf_eq_nil, h.vfhead_eq_null]
  once := by
    cases bs with
    | nil => exact List.not_mem_nil
    | cons b bs =>
      rw [h.vfhead_cons]
      have hnodup := h.ring.nodup
      rw [nodesOf_cons, FileBlock.nodes, List.cons_append] at hnodup ⊢
      exact (List.nodup_cons.mp hnodup).1

/-- There is one list. -/
theorem Lists.unique {l l' : List Nat} (h : s.Lists l) (h' : s.Lists l') : l = l' := by
  cases l with
  | nil => exact (h'.empty.mpr (h.empty.mp rfl)).symm
  | cons y l =>
    cases l' with
    | nil => exact h.empty.mpr (h'.empty.mp rfl)
    | cons z l' =>
      obtain ⟨hy, hwalk⟩ := seg_cons_iff.mp h.walk
      obtain ⟨hz, hwalk'⟩ := seg_cons_iff.mp h'.walk
      rw [← hy, ← hz, hwalk.unique hwalk' h.once h'.once]

theorem Linked.mem_nodes (h : s.Linked bs) : (∃ t, (t, x) ∈ s.nodes) ↔ x ∈ nodesOf bs := by
  rw [mem_nodesOf]
  constructor
  · rintro ⟨t, ht⟩
    obtain ⟨b, hb, -, hx⟩ := (h.nodes t x).mp ht
    exact ⟨b, hb, hx⟩
  · rintro ⟨b, hb, hx⟩
    exact ⟨b.table, (h.nodes b.table x).mpr ⟨b, hb, rfl, hx⟩⟩

theorem Linked.not_mem_of_unused (h : s.Linked bs) (hx : s.Unused x) : x ∉ nodesOf bs := by
  intro hmem
  obtain ⟨t, ht⟩ := h.mem_nodes.mpr hmem
  exact hx.2 _ ht rfl

/-! ## Searching -/

/-- After a table with one node comes the first node of a table. -/
theorem Linked.next_head (h : s.Linked bs) (hb : b ∈ bs) (hone : b.second = none) :
    ∃ b' ∈ bs, s.next b.head = b'.head := by
  obtain ⟨as, cs, rfl⟩ := List.append_of_mem hb
  have hring := h.ring
  rw [nodesOf_append, nodesOf_cons, FileBlock.nodes, hone] at hring
  cases cs with
  | nil =>
    have hlast : Ring s.next s.prev s.vfhead (nodesOf as ++ [b.head]) := by simpa using hring
    rw [hlast.last.1]
    cases as with
    | nil => exact ⟨b, List.mem_singleton_self b, h.vfhead_cons⟩
    | cons a as => exact ⟨a, List.mem_cons_self, h.vfhead_cons⟩
  | cons c cs =>
    have hnext : Ring s.next s.prev s.vfhead
        (nodesOf as ++ b.head :: c.head :: (c.second.toList ++ nodesOf cs)) := by
      simpa [FileBlock.nodes] using hring
    exact ⟨c, by simp, hnext.adjacent.1⟩

/-- The second node comes after the first. -/
theorem Linked.next_second (h : s.Linked bs) (hb : b ∈ bs) (htwo : b.second = some x) :
    s.next b.head = x ∧ s.prev x = b.head := by
  obtain ⟨as, cs, rfl⟩ := List.append_of_mem hb
  have hring := h.ring
  rw [nodesOf_append, nodesOf_cons, FileBlock.nodes, htwo] at hring
  exact Ring.adjacent (by simpa using hring)

theorem Linked.second_ne (h : s.Linked bs) (hb : b ∈ bs) (htwo : b.second = some x) :
    x ≠ b.head ∧ x ≠ nullAddr := by
  obtain ⟨as, cs, rfl⟩ := List.append_of_mem hb
  have hnodup := h.ring.nodup
  have hnull := h.null
  rw [nodesOf_append, nodesOf_cons, FileBlock.nodes, htwo] at hnodup hnull
  constructor
  · rintro rfl
    simp [List.nodup_append] at hnodup
  · rintro rfl
    simp at hnull

/-- `FindVF` finds the node of the fork. -/
theorem Linked.findVF (h : s.Linked bs) (haligned : s.Aligned f bs) (hb : b ∈ bs)
    (forknum : ForkType) :
    s.findVF b.head forknum = if forknum = f then some b.head else b.second := by
  obtain ⟨hfirst, hsecond⟩ := haligned b hb
  simp only [SmgrContext.findVF, maxFork, findVFFrom, if_neg (h.head_ne_null hb), hfirst]
  by_cases hf : forknum = f
  · rw [if_pos hf.symm, if_pos hf]
  · rw [if_neg (Ne.symm hf), if_neg hf]
    cases htwo : b.second with
    | none =>
      obtain ⟨b', hb', hnext⟩ := h.next_head hb htwo
      rw [hnext, if_neg (h.head_ne_null hb'), (haligned b' hb').1, if_neg (Ne.symm hf)]
      simp
    | some x =>
      obtain ⟨hne, hnull⟩ := h.second_ne hb htwo
      have hfork : s.forkNum x = forknum := by
        have hother := hsecond x (by simp [htwo])
        cases hx : s.forkNum x <;> cases forknum <;> cases f <;> simp_all
      rw [(h.next_second hb htwo).1, if_neg hne, if_neg hnull, if_pos hfork]

@[simp] theorem findVF_null (s : SmgrContext T) (forknum : ForkType) :
    s.findVF nullAddr forknum = none := rfl

theorem FilesOk.listsFiles (h : s.FilesOk) : s.ListsFiles := by
  obtain ⟨bs, f, hlinked, hpointers, haligned⟩ := h
  have hblock : ∀ t, (s.tables t).vfhead ≠ nullAddr →
      ∃ b ∈ bs, b.table = t ∧ s.tables t = ⟨b.head, b.last⟩ := by
    intro t ht
    by_cases hmem : t ∈ bs.map FileBlock.table
    · obtain ⟨b, hb, rfl⟩ := List.mem_map.mp hmem
      exact ⟨b, hb, rfl, hpointers.opened b hb⟩
    · exact absurd (by rw [hpointers.closed t hmem]; rfl) ht
  refine ⟨⟨nodesOf bs, hlinked.lists, fun x => hlinked.mem_nodes.symm, hlinked.count,
    fun x hx => hlinked.ring.prev_mem hx⟩, ?_, ?_, hlinked.freed, ?_⟩
  · intro t x hx
    obtain ⟨b, hb, rfl, -⟩ := (hlinked.nodes t x).mp hx
    rw [hpointers.opened b hb]
    exact hlinked.head_ne_null hb
  · intro t ht
    obtain ⟨b, hb, rfl, htable⟩ := hblock t ht
    rw [htable]
    refine ⟨(hlinked.nodes _ _).mpr ⟨b, hb, rfl, List.mem_cons_self⟩,
      (hlinked.nodes _ _).mpr ⟨b, hb, rfl, ?_⟩⟩
    cases hsecond : b.second <;> simp [FileBlock.last, FileBlock.nodes, hsecond]
  · intro t forknum x hfound
    by_cases ht : (s.tables t).vfhead = nullAddr
    · rw [ht] at hfound
      cases hfound
    · obtain ⟨b, hb, rfl, htable⟩ := hblock t ht
      rw [htable, hlinked.findVF haligned hb] at hfound
      obtain ⟨hfirst, hsecond⟩ := haligned b hb
      rw [hlinked.nodes]
      split at hfound
      case isTrue hf =>
        obtain rfl := Option.some.inj hfound
        exact ⟨⟨b, hb, rfl, List.mem_cons_self⟩, hfirst.trans hf.symm⟩
      case isFalse hf =>
        refine ⟨⟨b, hb, rfl, by simp [FileBlock.nodes, hfound]⟩, ?_⟩
        have hother := hsecond x (by simp [hfound])
        cases hx : s.forkNum x <;> cases forknum <;> cases f <;> simp_all

/-! ## Links -/

section Links

variable {head node : Nat}

theorem addDListNext_linkedIn (hne : head ≠ node) (hnext : s.next head ≠ node) :
    LinkedIn s.next s.prev (s.addDListNext head node).next
      (s.addDListNext head node).prev head node where
  next_node := by simp [addDListNext]
  next_new := by simp [addDListNext, hne.symm]
  next_other y hy hnew := by simp [addDListNext, hy, hnew]
  prev_new := by simp [addDListNext, hne.symm, hnext.symm]
  prev_node := by simp [addDListNext, hne.symm]
  prev_other y hnew hy := by simp [addDListNext, hne.symm, hnew, hy]

theorem addDListTail_linkedIn (hne : head ≠ node) (hlast : s.prev head ≠ node)
    (hnext : s.next (s.prev head) = head) :
    LinkedIn s.next s.prev (s.addDListTail head node).next (s.addDListTail head node).prev
      (s.prev head) node where
  next_node := by simp [addDListTail, hne]
  next_new := by simp [addDListTail, hne, hlast.symm, hnext]
  next_other y hy hnew := by simp [addDListTail, hne, hy, hnew]
  prev_new := by simp [addDListTail, hne.symm]
  prev_node := by simp [addDListTail, hnext]
  prev_other y hnew hy := by
    rw [hnext] at hy
    simp [addDListTail, hnew, hy]

theorem delDListNode_cutOut (hhead : head ≠ nullAddr) (hne : s.prev node ≠ node)
    (hnext : s.next node ≠ node) :
    CutOut s.next s.prev (s.delDListNode head node).next (s.delDListNode head node).prev
      (s.prev node) node where
  next_node := by simp [delDListNode, hhead, hne, hnext.symm]
  next_other y hy hcut := by simp [delDListNode, hhead, hne, hnext.symm, hy, hcut]
  prev_node := by simp [delDListNode, hhead, hne, hnext]
  prev_other y hy hcut := by simp [delDListNode, hhead, hne, hy, hcut]

/-- A node behind another one is taken out of the ring, and the list starts where it did. -/
theorem delDListNode_ring {a x : Nat} {front rest : List Nat} (hhead : head ≠ nullAddr)
    (hring : Ring s.next s.prev a (front ++ x :: node :: rest)) :
    Ring (s.delDListNode head node).next (s.delDListNode head node).prev a
      (front ++ x :: rest) ∧
      (s.delDListNode head node).vfhead = s.vfhead := by
  obtain ⟨hprev, hnext⟩ := hring.not_self
  have hcut := delDListNode_cutOut hhead hprev hnext
  rw [hring.adjacent.2] at hcut
  exact ⟨hring.erase hcut, by simp [delDListNode, hhead, hprev]⟩

end Links

/-! ## Files -/

/-- Closing a file changes none of the list. -/
theorem smgrClose_eq (s : SmgrContext T) (vfInfo : Nat) :
    ∃ pfh opened, s.smgrClose vfInfo = { s with pfh := pfh, fileOpenedNum := opened } ∧
      ∀ x, s.pfh x = false → pfh x = false := by
  unfold smgrClose
  split
  · exact ⟨s.pfh, s.fileOpenedNum, rfl, fun _ => id⟩
  · refine ⟨_, _, rfl, fun x hx => ?_⟩
    by_cases heq : x = vfInfo
    · simp [heq]
    · simp [heq, hx]

theorem closeFileSmgrContext_eq (s : SmgrContext T) :
    ∃ pfh opened, s.closeFileSmgrContext = { s with pfh := pfh, fileOpenedNum := opened } ∧
      ∀ x, s.pfh x = false → pfh x = false := by
  unfold closeFileSmgrContext
  split
  · exact smgrClose_eq s _
  · exact ⟨s.pfh, s.fileOpenedNum, rfl, fun _ => id⟩

theorem Linked.withFiles (h : s.Linked bs) (pfh : Nat → Bool) (opened : Int) :
    Linked { s with pfh := pfh, fileOpenedNum := opened } bs :=
  ⟨h.ring, h.empty, h.null, h.tables, h.nodes, h.count, h.freed⟩

theorem Pointers.withFiles (h : s.Pointers bs) (pfh : Nat → Bool) (opened : Int) :
    Pointers { s with pfh := pfh, fileOpenedNum := opened } bs :=
  ⟨h.opened, h.closed⟩

/-! ## Adding a node -/

section Adding

variable {forkNum : ForkType} {memory : Nat}

/-- The ring does not see the links of a node that is not in it. -/
theorem Linked.createVFVec_ring (h : s.Linked bs) (forkNum : ForkType)
    (hunused : s.Unused memory) :
    Ring (s.createVFVec t forkNum memory).next (s.createVFVec t forkNum memory).prev s.vfhead
      (nodesOf bs) := by
  have hne : ∀ x ∈ nodesOf bs, x ≠ memory :=
    fun x hx heq => h.not_mem_of_unused hunused (heq ▸ hx)
  exact h.ring.congr (fun x hx => Function.update_of_ne (hne x hx) ..)
    (fun x hx => Function.update_of_ne (hne x hx) ..)

/-- A node was made for a table and is linked in. -/
structure Adds (s s' : SmgrContext T) (t : T) (forkNum : ForkType)
    (memory head : Nat) : Prop where
  nodes : s'.nodes = (t, memory) :: s.nodes
  vFileNum : s'.vFileNum = s.vFileNum + 1
  freedTwice : s'.freedTwice = s.freedTwice
  forkNum : s'.forkNum = Function.update s.forkNum memory forkNum
  pfh : s'.pfh memory = false
  table : s'.tables t = ⟨head, memory⟩
  others : ∀ t', t' ≠ t → s'.tables t' = s.tables t'

/-- The invariant with one more node, in a ring that has it. -/
theorem Linked.adds {s' : SmgrContext T} {bs' : List (FileBlock T)}
    {head : Nat} (h : s.Linked bs)
    (hunused : s.Unused memory) (hadds : Adds s s' t forkNum memory head)
    (hring : Ring s'.next s'.prev s'.vfhead (nodesOf bs'))
    (hperm : (nodesOf bs').Perm (memory :: nodesOf bs))
    (htables : (bs'.map FileBlock.table).Nodup)
    (hblocks : ∀ t' x, (∃ b ∈ bs', b.table = t' ∧ x ∈ b.nodes) ↔
      t' = t ∧ x = memory ∨ ∃ b ∈ bs, b.table = t' ∧ x ∈ b.nodes) : s'.Linked bs' where
  ring := hring
  empty hnil := by
    subst hnil
    exact absurd hperm.length_eq (by simp)
  null hmem := by
    obtain heq | hmem := List.mem_cons.mp (hperm.subset hmem)
    · exact hunused.1 heq.symm
    · exact h.null hmem
  tables := htables
  nodes t' x := by
    rw [hadds.nodes, hblocks, List.mem_cons, Prod.mk.injEq, h.nodes]
  count := by
    rw [hadds.vFileNum, h.count, hperm.length_eq]
    simp
  freed := hadds.freedTwice.trans h.freed

/-- What `GetVFec` gives: a node of the table that is there, or a new one. -/
inductive GetsNode (s : SmgrContext T) (bs : List (FileBlock T)) (f : ForkType) (t : T)
    (forkNum : ForkType) (memory : Nat) : Nat × SmgrContext T → Prop where
  | found {vpos : Nat} (b : FileBlock T) (hb : b ∈ bs) (htable : b.table = t)
      (hfind : s.findVF (s.tables t).vfhead forkNum = some vpos) (hmem : vpos ∈ b.nodes) :
      GetsNode s bs f t forkNum memory (vpos, s)
  | first {s' : SmgrContext T} (ht : t ∉ bs.map FileBlock.table)
      (hlinked : s'.Linked (bs ++ [⟨t, memory, none⟩]))
      (hadds : Adds s s' t forkNum memory memory) (hvfhead : bs ≠ [] → s'.vfhead = s.vfhead) :
      GetsNode s bs f t forkNum memory (memory, s')
  | second {s' : SmgrContext T} (as cs : List (FileBlock T)) (head : Nat)
      (hbs : bs = as ++ ⟨t, head, none⟩ :: cs) (hfork : forkNum ≠ f)
      (hlinked : s'.Linked (as ++ ⟨t, head, some memory⟩ :: cs))
      (hadds : Adds s s' t forkNum memory head) :
        GetsNode s bs f t forkNum memory (memory, s')

/-- A table without a node starts with the fork that the list starts with. -/
def StartsAlike (s : SmgrContext T) (t : T) (forkNum : ForkType) : Prop :=
  (s.tables t).vfhead = nullAddr → s.vfhead ≠ nullAddr → s.forkNum s.vfhead = forkNum

theorem Adds.pointers {s' : SmgrContext T} {head : Nat} {front rest : List (FileBlock T)}
    (hadds : Adds s s' t forkNum memory head) (hp : s.Pointers bs)
    (hlinked : s'.Linked (front ++ b :: rest))
    (hb : b.table = t ∧ b.head = head ∧ b.last = memory)
    (hother : ∀ b' ∈ front ++ rest, b' ∈ bs)
    (hclosed : ∀ t', t' ∉ (front ++ b :: rest).map FileBlock.table →
      t' ∉ bs.map FileBlock.table) :
    s'.Pointers (front ++ b :: rest) where
  opened b' hb' := by
    obtain rfl | hmem := mem_middle.mp hb'
    · rw [hb.1, hb.2.1, hb.2.2]
      exact hadds.table
    · have htables := hlinked.tables
      rw [List.map_append, List.map_cons, nodup_middle, ← List.map_append] at htables
      have hne : b'.table ≠ t := by
        rw [← hb.1]
        exact fun heq => htables.1 (List.mem_map.mpr ⟨b', hmem, heq⟩)
      rw [hadds.others _ hne]
      exact hp.opened b' (hother b' hmem)
  closed t' ht' := by
    have hne : t' ≠ t := by
      rintro rfl
      exact ht' (List.mem_map.mpr ⟨b, by simp, hb.1⟩)
    rw [hadds.others _ hne]
    exact hp.closed t' (hclosed t' ht')

theorem Adds.aligned {s' : SmgrContext T} {head : Nat}
    (hadds : Adds s s' t forkNum memory head)
    (h : s.Linked bs) (hunused : s.Unused memory) (haligned : s.Aligned f bs) :
    s'.Aligned f bs := by
  intro b hb
  have hsame : ∀ x ∈ b.nodes, s'.forkNum x = s.forkNum x := by
    intro x hx
    rw [hadds.forkNum, Function.update_of_ne]
    rintro rfl
    exact h.not_mem_of_unused hunused (mem_nodesOf.mpr ⟨b, hb, hx⟩)
  refine ⟨by rw [hsame _ List.mem_cons_self]; exact (haligned b hb).1, ?_⟩
  intro x hx
  rw [hsame x (by simp_all [FileBlock.nodes])]
  exact (haligned b hb).2 x hx

/-- Where the forks are alike the list stays as it has to be. -/
theorem GetsNode.filesOk {vpos : Nat} {s' : SmgrContext T}
    (hget : GetsNode s bs f t forkNum memory (vpos, s')) (h : s.Linked bs)
    (hp : s.Pointers bs) (haligned : s.Aligned f bs) (hunused : s.Unused memory)
    (hstart : s.StartsAlike t forkNum) :
    s'.FilesOk := by
  cases hget with
  | found => exact ⟨bs, f, h, hp, haligned⟩
  | first ht hlinked hadds =>
    have hpointers : s'.Pointers (bs ++ [⟨t, memory, none⟩]) := by
      refine hadds.pointers hp hlinked ⟨rfl, rfl, rfl⟩ (fun b' hb' => by simpa using hb') ?_
      intro t' ht' hmem
      exact ht' (by rw [List.map_append]; exact List.mem_append_left _ hmem)
    have hfork : s'.forkNum memory = forkNum := by rw [hadds.forkNum, Function.update_self]
    refine ⟨_, forkNum, hlinked, hpointers, ?_⟩
    have hold : s'.Aligned forkNum bs := by
      cases bs with
      | nil => exact nofun
      | cons b bs =>
        have hhead : s.forkNum b.head = forkNum := by
          rw [← h.vfhead_cons]
          refine hstart (by rw [hp.closed t ht]; rfl) ?_
          rw [h.vfhead_cons]
          exact h.head_ne_null List.mem_cons_self
        rw [← hhead, (haligned b List.mem_cons_self).1]
        exact hadds.aligned h hunused haligned
    intro b hb
    obtain hb | hb := List.mem_append.mp hb
    · exact hold b hb
    · obtain rfl := List.mem_singleton.mp hb
      exact ⟨hfork, nofun⟩
  | second as cs head hbs hfork hlinked hadds =>
    subst hbs
    refine ⟨_, f, hlinked, hadds.pointers hp hlinked ⟨rfl, rfl, rfl⟩ ?_ ?_, ?_⟩
    · exact fun b' hb' => mem_middle.mpr (.inr hb')
    · intro t' ht'
      simpa using ht'
    · have hold := hadds.aligned h hunused haligned
      intro b hb
      obtain rfl | hb := mem_middle.mp hb
      · refine ⟨(hold ⟨t, head, none⟩ (mem_middle.mpr (.inl rfl))).1, ?_⟩
        intro x hx
        obtain rfl : memory = x := by simpa using hx
        rw [hadds.forkNum, Function.update_self]
        exact hfork
      · exact hold b (mem_middle.mpr (.inr hb))

/-- The node is in the list. -/
theorem GetsNode.linked {vpos : Nat} {s' : SmgrContext T}
    (hget : GetsNode s bs f t forkNum memory (vpos, s')) (h : s.Linked bs) :
    ∃ bs', s'.Linked bs' ∧ vpos ∈ nodesOf bs' := by
  cases hget with
  | found b hb _ _ hmem => exact ⟨bs, h, mem_nodesOf.mpr ⟨b, hb, hmem⟩⟩
  | first _ hlinked => exact ⟨_, hlinked, by simp [FileBlock.nodes]⟩
  | second _ _ _ _ _ hlinked => exact ⟨_, hlinked, by simp [FileBlock.nodes]⟩

/-- A node that is released where it is linked stays reachable. -/
theorem not_listsFiles_of_freed (h : s.Linked bs) (hx : x ∈ nodesOf bs) :
    ¬ (s.freeMem x).ListsFiles := by
  intro hlists
  obtain ⟨l, hl, hnodes, -⟩ := hlists.list
  have hsame : s.Lists l := ⟨hl.walk, hl.empty, hl.once⟩
  rw [hsame.unique h.lists] at hnodes
  obtain ⟨t, ht⟩ := (hnodes x).mp hx
  simp [freeMem] at ht

/-- A table that starts with another fork than the list finds the first node of the list when
it looks for its second. -/
theorem not_listsFiles_of_fork {s' : SmgrContext T} (h : s.Linked bs)
    (hlinked : s'.Linked (bs ++ [⟨t, memory, none⟩]))
    (hadds : Adds s s' t forkNum memory memory)
    (hvfhead : s'.vfhead = s.vfhead) (hunused : s.Unused memory)
    (ht : t ∉ bs.map FileBlock.table)
    (hne : bs ≠ []) (hfork : s.forkNum s.vfhead ≠ forkNum) : ¬ s'.ListsFiles := by
  intro hlists
  have hnodes : nodesOf (bs ++ [⟨t, memory, none⟩]) = nodesOf bs ++ [memory] := by
    simp [FileBlock.nodes]
  have hring := hlinked.ring
  rw [hnodes] at hring
  have hmem : s.vfhead ∈ nodesOf bs :=
    h.ring.head_mem (fun hnil => hne (nodesOf_eq_nil.mp hnil))
  have hother : s.vfhead ≠ memory := fun heq => h.not_mem_of_unused hunused (heq ▸ hmem)
  have hnull : s.vfhead ≠ nullAddr := fun heq => hne (h.vfhead_eq_null.mpr heq)
  have hself : s'.forkNum memory = forkNum := by rw [hadds.forkNum, Function.update_self]
  have hhead : s'.forkNum s.vfhead = s.forkNum s.vfhead := by
    rw [hadds.forkNum, Function.update_of_ne hother]
  have hfound : s'.findVF (s'.tables t).vfhead (s.forkNum s.vfhead) = some s.vfhead := by
    rw [hadds.table]
    simp only [SmgrContext.findVF, maxFork, findVFFrom]
    rw [if_neg hunused.1, hself, if_neg hfork.symm, hring.last.1, hvfhead, if_neg hother,
      if_neg hnull, if_pos hhead]
  have hown := (hlists.search t _ _ hfound).1
  rw [hadds.nodes, List.mem_cons, Prod.mk.injEq] at hown
  obtain ⟨-, heq⟩ | hown := hown
  · exact hother heq
  · obtain ⟨b, hb, rfl, -⟩ := (h.nodes t _).mp hown
    exact ht (List.mem_map.mpr ⟨b, hb, rfl⟩)

variable [DecidableEq T]

/-- `AddFileInfoToSmgrContext` links the node, and may close a file. -/
theorem addFileInfoToSmgrContext_eq (s : SmgrContext T) (t : T) (vpos : Nat) :
    ∃ pfh opened, s.addFileInfoToSmgrContext t vpos =
        { (s.linkNode t vpos).setTable t
            { (s.linkNode t vpos).tables t with vfend := vpos } with
          vFileNum := (s.linkNode t vpos).vFileNum + 1, pfh := pfh,
          fileOpenedNum := opened } ∧
      ∀ x, (s.linkNode t vpos).pfh x = false → pfh x = false := by
  simp only [addFileInfoToSmgrContext]
  split
  · exact closeFileSmgrContext_eq _
  · exact ⟨_, _, rfl, fun _ => id⟩

/-- What linking a node leaves alone. -/
theorem linkNode_fields (s : SmgrContext T) (t : T) (vpos : Nat) :
    (s.linkNode t vpos).nodes = s.nodes ∧ (s.linkNode t vpos).vFileNum = s.vFileNum ∧
      (s.linkNode t vpos).freedTwice = s.freedTwice ∧
        (s.linkNode t vpos).forkNum = s.forkNum ∧
      (s.linkNode t vpos).pfh = s.pfh := by
  unfold linkNode
  split
  · exact ⟨rfl, rfl, rfl, rfl, rfl⟩
  · split
    all_goals exact ⟨rfl, rfl, rfl, rfl, rfl⟩

theorem adds_of_linkNode (s : SmgrContext T) (t : T) (forkNum : ForkType)
    (memory : Nat) {head : Nat}
    (hhead : (((s.createVFVec t forkNum memory).linkNode t memory).tables t).vfhead = head)
    (hothers : ∀ t', t' ≠ t → ((s.createVFVec t forkNum memory).linkNode t memory).tables t' =
      s.tables t') :
    Adds s ((s.createVFVec t forkNum memory).addFileInfoToSmgrContext t memory) t
      forkNum memory head := by
  obtain ⟨pfh, opened, heq, hpfh⟩ :=
    addFileInfoToSmgrContext_eq (s.createVFVec t forkNum memory) t memory
  obtain ⟨hnodes, hcount, hfreed, hfork, hsame⟩ :=
    linkNode_fields (s.createVFVec t forkNum memory) t memory
  rw [heq]
  refine ⟨hnodes, by rw [hcount]; rfl, hfreed, hfork, hpfh memory ?_, ?_, ?_⟩
  · rw [hsame]
    exact Function.update_self ..
  · simp [setTable, hhead]
  · intro t' ht
    simp [setTable, ht, hothers t' ht]

/-- The ring and the head after the node is linked in. -/
theorem addFileInfoToSmgrContext_links (s : SmgrContext T) (t : T) (memory : Nat) :
    (s.addFileInfoToSmgrContext t memory).next = (s.linkNode t memory).next ∧
      (s.addFileInfoToSmgrContext t memory).prev = (s.linkNode t memory).prev ∧
      (s.addFileInfoToSmgrContext t memory).vfhead = (s.linkNode t memory).vfhead := by
  obtain ⟨pfh, opened, heq, -⟩ := addFileInfoToSmgrContext_eq s t memory
  rw [heq]
  exact ⟨rfl, rfl, rfl⟩

/-- The node a table starts with comes after those of all others. -/
theorem Linked.addFirst (h : s.Linked bs) (forkNum : ForkType) (hunused : s.Unused memory)
    (hclosed : (s.tables t).vfhead = nullAddr) :
    let s' := (s.createVFVec t forkNum memory).addFileInfoToSmgrContext t memory
    Ring s'.next s'.prev s'.vfhead (nodesOf bs ++ [memory]) ∧
      (bs ≠ [] → s'.vfhead = s.vfhead) ∧
      Adds s s' t forkNum memory memory := by
  dsimp only
  obtain ⟨hnext, hprev, hvfhead⟩ :=
    addFileInfoToSmgrContext_links (s.createVFVec t forkNum memory) t memory
  rw [hnext, hprev, hvfhead]
  have hring := h.createVFVec_ring (t := t) forkNum hunused
  have hnot := h.not_mem_of_unused hunused
  by_cases hnull : s.vfhead = nullAddr
  · -- The first node of all.
    obtain rfl := h.vfhead_eq_null.mpr hnull
    have hlink : (s.createVFVec t forkNum memory).linkNode t memory =
        { s.createVFVec t forkNum memory with vfhead := memory }.setTable t
          { s.tables t with vfhead := memory } := if_pos hnull
    refine ⟨?_, (absurd rfl ·), adds_of_linkNode s t forkNum memory ?_ ?_⟩
    · rw [hlink]
      exact ring_singleton (Function.update_self ..) (Function.update_self ..)
    · simp [hlink, setTable]
    · intro t' ht
      rw [hlink]
      exact Function.update_of_ne ht ..
  · have hlink : (s.createVFVec t forkNum memory).linkNode t memory =
        ((s.createVFVec t forkNum memory).setTable t
          { s.tables t with vfhead := memory }).addDListTail
          s.vfhead memory := by
      simp [linkNode, createVFVec, hnull, hclosed]
    refine ⟨?_, fun _ => by rw [hlink]; rfl, adds_of_linkNode s t forkNum memory ?_ ?_⟩
    · have hne : nodesOf bs ≠ [] := fun hnil => hnull (h.lists.empty.mp hnil)
      obtain ⟨front, last, hnodes⟩ := (List.eq_nil_or_concat (nodesOf bs)).resolve_left hne
      rw [List.concat_eq_append] at hnodes
      have hhead : s.vfhead ∈ nodesOf bs := h.ring.head_mem hne
      rw [hnodes] at hring
      have hlast := hring.last
      rw [hlink, hnodes, List.append_assoc]
      refine hring.insert ?_ (hnodes ▸ hnot)
      rw [← hlast.2]
      refine addDListTail_linkedIn (s := (s.createVFVec t forkNum memory).setTable t
        { s.tables t with vfhead := memory }) (fun heq => hnot (heq ▸ hhead)) ?_ ?_
      · change (s.createVFVec t forkNum memory).prev s.vfhead ≠ memory
        rw [hlast.2]
        exact fun heq => hnot (by rw [hnodes, heq]; simp)
      · change (s.createVFVec t forkNum memory).next
            ((s.createVFVec t forkNum memory).prev s.vfhead) = _
        rw [hlast.2, hlast.1]
    · simp [hlink, addDListTail, setTable]
    · intro t' ht
      rw [hlink]
      exact Function.update_of_ne ht ..

/-- The second node of a table comes after its first. -/
theorem Linked.addSecond {head : Nat} {front rest : List Nat} (h : s.Linked bs)
    (forkNum : ForkType) (hunused : s.Unused memory)
    (hnodes : nodesOf bs = front ++ head :: rest)
    (hhead : (s.tables t).vfhead = head) (hne : head ≠ nullAddr) :
    let s' := (s.createVFVec t forkNum memory).addFileInfoToSmgrContext t memory
    Ring s'.next s'.prev s'.vfhead (front ++ head :: memory :: rest) ∧ s'.vfhead = s.vfhead ∧
      Adds s s' t forkNum memory head := by
  dsimp only
  obtain ⟨hnext, hprev, hvfhead⟩ :=
    addFileInfoToSmgrContext_links (s.createVFVec t forkNum memory) t memory
  rw [hnext, hprev, hvfhead]
  have hring := h.createVFVec_ring (t := t) forkNum hunused
  have hnot := h.not_mem_of_unused hunused
  have hmem : head ∈ nodesOf bs := by simp [hnodes]
  have hnull : s.vfhead ≠ nullAddr :=
    fun heq => List.ne_nil_of_mem hmem (h.lists.empty.mpr heq)
  have hlink : (s.createVFVec t forkNum memory).linkNode t memory =
      (s.createVFVec t forkNum memory).addDListNext head memory := by
    simp [linkNode, createVFVec, hnull, hhead, hne]
  refine ⟨?_, by rw [hlink]; rfl, adds_of_linkNode s t forkNum memory ?_ ?_⟩
  · have hclosed := hring.next_mem hmem
    rw [hlink]
    rw [hnodes] at hring
    exact hring.insert (addDListNext_linkedIn (fun heq => hnot (heq ▸ hmem))
      (fun heq => hnot (heq ▸ hclosed))) (hnodes ▸ hnot)
  · rw [hlink]
    exact hhead
  · intro t' _
    rw [hlink]
    rfl

theorem getVFec_gets (h : s.Linked bs) (forkNum : ForkType) (hp : s.Pointers bs)
    (haligned : s.Aligned f bs) (hunused : s.Unused memory) :
    GetsNode s bs f t forkNum memory (s.getVFec t forkNum memory) := by
  by_cases ht : t ∈ bs.map FileBlock.table
  case neg =>
    have hclosed : (s.tables t).vfhead = nullAddr := by rw [hp.closed t ht]; rfl
    have hget : s.getVFec t forkNum memory =
        (memory, (s.createVFVec t forkNum memory).addFileInfoToSmgrContext t memory) := by
      simp [getVFec, addVFec, hclosed]
    obtain ⟨hring, hvfhead, hadds⟩ := h.addFirst forkNum hunused hclosed
    rw [hget]
    refine .first ht (h.adds hunused hadds ?_ ?_ ?_ ?_) hadds hvfhead
    · simpa [FileBlock.nodes] using hring
    · simp only [nodesOf_append, nodesOf_cons, nodesOf_nil,
        FileBlock.nodes, Option.toList_none,
        List.append_nil]
      exact List.perm_append_singleton ..
    · rw [List.map_append, List.map_singleton]
      exact List.nodup_append.mpr ⟨h.tables, List.nodup_singleton _,
        fun a ha b hb heq => ht (by rw [List.mem_singleton] at hb; subst hb; exact heq ▸ ha)⟩
    · intro t' x
      simp only [List.mem_append, List.mem_singleton, or_and_right, exists_or, exists_eq_left,
        FileBlock.nodes, Option.toList_none, List.mem_singleton]
      rw [or_comm, eq_comm (a := t)]
  case pos =>
    obtain ⟨b, hb, rfl⟩ := List.mem_map.mp ht
    have htable := hp.opened b hb
    have hne := h.head_ne_null hb
    have hfind : s.findVF (s.tables b.table).vfhead forkNum = if forkNum = f then some b.head
        else b.second := by
      rw [htable, h.findVF haligned hb]
    have hopened : (s.tables b.table).vfhead ≠ nullAddr := by
      rw [htable]
      exact hne
    cases hfound : s.findVF (s.tables b.table).vfhead forkNum with
    | some vpos =>
      have hget : s.getVFec b.table forkNum memory = (vpos, s) := by
        simp only [getVFec, hfound, if_neg hopened]
      rw [hget]
      refine .found b hb rfl hfound ?_
      rw [hfound] at hfind
      split at hfind
      · obtain rfl := Option.some.inj hfind
        exact List.mem_cons_self
      · simp [FileBlock.nodes, ← hfind]
    | none =>
      have hget : s.getVFec b.table forkNum memory =
          (memory, (s.createVFVec b.table forkNum memory).addFileInfoToSmgrContext
            b.table memory) := by
        simp only [getVFec, addVFec, hfound, if_neg hopened]
      rw [hfound] at hfind
      obtain ⟨hfork, hsecond⟩ : forkNum ≠ f ∧ b.second = none := by
        split at hfind
        · cases hfind
        · exact ⟨by assumption, hfind.symm⟩
      obtain ⟨t, head, second⟩ := b
      obtain rfl : second = none := hsecond
      obtain ⟨as, cs, rfl⟩ := List.append_of_mem hb
      have hnodes : nodesOf (as ++ ⟨t, head, none⟩ :: cs) =
          nodesOf as ++ head :: nodesOf cs := by
        simp [FileBlock.nodes]
      obtain ⟨hring, -, hadds⟩ := h.addSecond forkNum hunused hnodes
        (by rw [htable]) hne
      have hafter : nodesOf (as ++ ⟨t, head, some memory⟩ :: cs) =
          nodesOf as ++ head :: memory :: nodesOf cs := by
        simp [FileBlock.nodes]
      rw [hget]
      refine .second as cs head rfl hfork (h.adds hunused hadds ?_ ?_ ?_ ?_) hadds
      · rw [hafter]
        exact hring
      · rw [hafter, hnodes]
        exact perm_second
      · simpa using h.tables
      · exact fun t' x => has_second_iff

end Adding

/-! ## Giving up a node -/

section Releasing

variable {head node : Nat}

theorem deleteVF_fields (s : SmgrContext T) (head node : Nat) :
    (s.deleteVF head node).nodes = s.nodes ∧
      (s.deleteVF head node).vFileNum = s.vFileNum - 1 ∧
      (s.deleteVF head node).freedTwice = s.freedTwice ∧
        (s.deleteVF head node).forkNum = s.forkNum ∧
      (s.deleteVF head node).tables = s.tables := by
  unfold deleteVF delDListNode
  dsimp only
  split
  · split
    · exact ⟨rfl, rfl, rfl, rfl, rfl⟩
    · split
      all_goals exact ⟨rfl, rfl, rfl, rfl, rfl⟩
  · split
    · split
      · exact ⟨rfl, rfl, rfl, rfl, rfl⟩
      · split
        all_goals exact ⟨rfl, rfl, rfl, rfl, rfl⟩
    · exact ⟨rfl, rfl, rfl, rfl, rfl⟩

/-- What giving up a node does: the links are those that `DeleteVF` leaves. -/
theorem releaseVF_fields (s : SmgrContext T) (head node : Nat) :
    (s.releaseVF head node).nodes = s.nodes.filter (·.2 ≠ node) ∧
      (s.releaseVF head node).vFileNum = s.vFileNum - 1 ∧
      (s.releaseVF head node).freedTwice = (s.freedTwice || !(s.nodes.any (·.2 == node))) ∧
      (s.releaseVF head node).forkNum = s.forkNum ∧
        (s.releaseVF head node).tables = s.tables := by
  obtain ⟨hnodes, hcount, hfreed, hfork, htables⟩ := deleteVF_fields s head node
  obtain ⟨pfh, opened, hclose, -⟩ := smgrClose_eq (s.deleteVF head node) node
  simp only [releaseVF, freeMem, hclose, hnodes, hcount, hfreed, hfork, htables, and_self]

theorem releaseVF_links (s : SmgrContext T) (head node : Nat) :
    (s.releaseVF head node).next = (s.deleteVF head node).next ∧
      (s.releaseVF head node).prev = (s.deleteVF head node).prev ∧
      (s.releaseVF head node).vfhead = (s.deleteVF head node).vfhead := by
  obtain ⟨pfh, opened, hclose, -⟩ := smgrClose_eq (s.deleteVF head node) node
  simp only [releaseVF, freeMem, hclose, and_self]

/-- The invariant with one node less, in a ring without it. -/
theorem Linked.releases {bs' : List (FileBlock T)} (owner : T) (h : s.Linked bs)
    (hring : Ring (s.deleteVF head node).next (s.deleteVF head node).prev
      (s.deleteVF head node).vfhead
      (nodesOf bs'))
    (hempty : bs' = [] → (s.deleteVF head node).vfhead = nullAddr)
    (hperm : (nodesOf bs).Perm (node :: nodesOf bs'))
    (htables : (bs'.map FileBlock.table).Nodup)
    (hblocks : ∀ t x, (∃ b ∈ bs, b.table = t ∧ x ∈ b.nodes) ↔
      t = owner ∧ x = node ∨ ∃ b ∈ bs', b.table = t ∧ x ∈ b.nodes) :
    (s.releaseVF head node).Linked bs' := by
  obtain ⟨hnext, hprev, hvfhead⟩ := releaseVF_links s head node
  obtain ⟨hnodes, hcount, hfreed, -, -⟩ := releaseVF_fields s head node
  refine ⟨by rw [hnext, hprev, hvfhead]; exact hring, by
    rw [hvfhead]; exact hempty, ?_, htables, ?_, ?_, ?_⟩
  · exact fun hnull => h.null (hperm.symm.subset (List.mem_cons_of_mem _ hnull))
  · have hgone : node ∉ nodesOf bs' :=
      (List.nodup_cons.mp (hperm.nodup_iff.mp h.ring.nodup)).1
    intro t x
    rw [hnodes, List.mem_filter, h.nodes, hblocks]
    constructor
    · rintro ⟨⟨-, rfl⟩ | hmem, hne⟩
      · simp at hne
      · exact hmem
    · intro hmem
      have hx : x ∈ nodesOf bs' := by
        obtain ⟨b, hb, -, hx⟩ := hmem
        exact mem_nodesOf.mpr ⟨b, hb, hx⟩
      exact ⟨.inr hmem, by simpa using fun heq : x = node => hgone (heq ▸ hx)⟩
  · rw [hcount, h.count, hperm.length_eq]
    simp
  · obtain ⟨t, ht⟩ := h.mem_nodes.mpr (hperm.symm.subset (List.mem_cons_self))
    have hany : s.nodes.any (·.2 == node) = true :=
      List.any_eq_true.mpr ⟨(t, node), ht, by simp⟩
    rw [hfreed, h.freed, hany]
    rfl

/-- The second node of a table is given up. -/
theorem Linked.releaseSecond {as cs : List (FileBlock T)} {t : T}
    (h : s.Linked (as ++ ⟨t, head, some node⟩ :: cs)) :
    (s.releaseVF head node).Linked (as ++ ⟨t, head, none⟩ :: cs) ∧
      (s.releaseVF head node).vfhead = s.vfhead := by
  have hnodes : nodesOf (as ++ ⟨t, head, some node⟩ :: cs) =
      nodesOf as ++ head :: node :: nodesOf cs := by
    simp [FileBlock.nodes]
  have hafter : nodesOf (as ++ ⟨t, head, none⟩ :: cs) = nodesOf as ++ head :: nodesOf cs := by
    simp [FileBlock.nodes]
  have hmem : (⟨t, head, some node⟩ : FileBlock T) ∈
      as ++ ⟨t, head, some node⟩ :: cs := by simp
  have hne : node ≠ head := (h.second_ne hmem rfl).1
  have hhead : head ≠ nullAddr := h.head_ne_null hmem
  have hring := h.ring
  rw [hnodes] at hring
  have hdelete : s.deleteVF head node =
      { s.delDListNode head node with
        vFileNum := (s.delDListNode head node).vFileNum - 1 } := by
    simp only [deleteVF, if_pos hne.symm]
  obtain ⟨herase, hvfhead⟩ := delDListNode_ring hhead hring
  refine ⟨h.releases t ?_ (by simp) ?_ (by simpa using h.tables) ?_, ?_⟩
  · rw [hdelete, hafter]
    change Ring _ _ (s.delDListNode head node).vfhead _
    rw [hvfhead]
    exact herase
  · rw [hnodes, hafter]
    exact perm_second
  · exact fun t' x => has_second_iff
  · rw [(releaseVF_links s head node).2.2, hdelete]
    exact hvfhead

/-- The node that is left of a table is given up. The list is lost where it starts with it. -/
theorem Linked.releaseHead {as cs : List (FileBlock T)} {t : T}
    (h : s.Linked (as ++ ⟨t, head, none⟩ :: cs)) (hrest : head = s.vfhead → as ++ cs = []) :
    (s.releaseVF head head).Linked (as ++ cs) := by
  have hnodes : nodesOf (as ++ ⟨t, head, none⟩ :: cs) = nodesOf as ++ head :: nodesOf cs := by
    simp [FileBlock.nodes]
  have hperm : (nodesOf (as ++ ⟨t, head, none⟩ :: cs)).Perm (head :: nodesOf (as ++ cs)) := by
    rw [hnodes, nodesOf_append]
    exact List.perm_middle
  have htables : ((as ++ cs).map FileBlock.table).Nodup := by
    have htables := h.tables
    rw [List.map_append, List.map_cons, nodup_middle] at htables
    rw [List.map_append]
    exact htables.2
  have hblocks : ∀ t' x, (∃ b ∈ as ++ ⟨t, head, none⟩ :: cs, b.table = t' ∧ x ∈ b.nodes) ↔
      t' = t ∧ x = head ∨ ∃ b ∈ as ++ cs, b.table = t' ∧ x ∈ b.nodes := by
    intro t' x
    rw [exists_middle]
    refine or_congr_left ?_
    simp [FileBlock.nodes, eq_comm (a := t)]
  by_cases hhead : head = s.vfhead
  · have hnil := hrest hhead
    have hdelete : s.deleteVF head head =
        { s with vfhead := nullAddr, vFileNum := s.vFileNum - 1 } := by
      simp [deleteVF, hhead]
    refine h.releases t ?_ ?_ hperm htables hblocks
    · rw [hnil]
      exact ring_nil ..
    · intro _
      rw [hdelete]
  · -- The node before it is of another table.
    have hvfhead : s.vfhead ≠ nullAddr := fun heq => by simpa using h.vfhead_eq_null.mpr heq
    have hring := h.ring
    rw [hnodes] at hring
    obtain ⟨front, before, hfront⟩ : ∃ front before, nodesOf as = front ++ [before] := by
      obtain hnil | ⟨front, before, hconcat⟩ := List.eq_nil_or_concat (nodesOf as)
      · rw [hnil, List.nil_append] at hring
        exact absurd hring.head_eq.symm hhead
      · exact ⟨front, before, by rw [hconcat, List.concat_eq_append]⟩
    rw [hfront, List.append_assoc, List.singleton_append] at hring
    have hdelete : s.deleteVF head head =
        { s.delDListNode s.vfhead head with
          vFileNum := (s.delDListNode s.vfhead head).vFileNum - 1 } := by
      simp only [deleteVF, ne_eq, not_true_eq_false, if_false, hhead,
        not_false_eq_true, if_true]
    obtain ⟨herase, hkeep⟩ := delDListNode_ring hvfhead hring
    refine h.releases t ?_ ?_ hperm htables hblocks
    · rw [hdelete, nodesOf_append, hfront, List.append_assoc, List.singleton_append]
      change Ring _ _ (s.delDListNode s.vfhead head).vfhead _
      rw [hkeep]
      exact herase
    · intro hnil
      rw [List.append_eq_nil_iff] at hnil
      rw [hnil.1] at hfront
      simp at hfront

/-- The nodes a table gives up when it is released. -/
def releaseNodes (s : SmgrContext T) (b : FileBlock T) : SmgrContext T :=
  match b.second with
  | none => s.releaseVF b.head b.head
  | some node => (s.releaseVF b.head node).releaseVF b.head b.head

theorem releaseNodes_fields (s : SmgrContext T) (b : FileBlock T) :
    (s.releaseNodes b).forkNum = s.forkNum ∧ (s.releaseNodes b).tables = s.tables ∧
      ∀ p ∈ s.nodes, p.2 ∉ b.nodes → p ∈ (s.releaseNodes b).nodes := by
  unfold releaseNodes
  cases hsecond : b.second with
  | none =>
    obtain ⟨hnodes, -, -, hfork, htables⟩ := releaseVF_fields s b.head b.head
    refine ⟨hfork, htables, fun p hp hnot => ?_⟩
    rw [hnodes]
    simp_all [FileBlock.nodes]
  | some node =>
    obtain ⟨hnodes, -, -, hfork, htables⟩ := releaseVF_fields s b.head node
    obtain ⟨hnodes', -, -, hfork', htables'⟩ :=
      releaseVF_fields (s.releaseVF b.head node) b.head b.head
    refine ⟨hfork'.trans hfork, htables'.trans htables, fun p hp hnot => ?_⟩
    rw [hnodes', hnodes]
    simp_all [FileBlock.nodes]

/-- A release in a list that does not start with the table, or has no other. -/
theorem Linked.releaseNodes {as cs : List (FileBlock T)} (h : s.Linked (as ++ b :: cs))
    (hrest : b.head = s.vfhead → as ++ cs = []) : (s.releaseNodes b).Linked (as ++ cs) := by
  obtain ⟨t, head, second⟩ := b
  cases second with
  | none => exact h.releaseHead hrest
  | some node =>
    obtain ⟨hone, hvfhead⟩ := h.releaseSecond
    exact hone.releaseHead (by rw [hvfhead]; exact hrest)

/-- A release of the table that the list starts with leaves no list. -/
theorem releaseNodes_vfhead {as cs : List (FileBlock T)} (h : s.Linked (as ++ b :: cs))
    (hhead : b.head = s.vfhead) : (s.releaseNodes b).vfhead = nullAddr := by
  have hdelete : ∀ s' : SmgrContext T, s'.vfhead = b.head →
      (s'.releaseVF b.head b.head).vfhead = nullAddr := by
    intro s' hs'
    rw [(releaseVF_links s' b.head b.head).2.2]
    simp [deleteVF, hs']
  obtain ⟨t, head, second⟩ := b
  cases second with
  | none => exact hdelete s hhead.symm
  | some node => exact hdelete _ (h.releaseSecond.2.trans hhead.symm)

variable [DecidableEq T]

theorem smgrRelease_eq (h : s.Linked bs) (hp : s.Pointers bs) (hb : b ∈ bs) :
    s.smgrRelease b.table = (s.releaseNodes b).setTable b.table SgmrInfo.init := by
  have hhead := h.head_ne_null hb
  simp only [smgrRelease, hp.opened b hb]
  cases hsecond : b.second with
  | none =>
    have hlast : b.last = b.head := by simp [FileBlock.last, hsecond]
    rw [hlast]
    have hloop : releaseFrom b.head (s.nodes.length + 1) b.head (s.prev b.head) s =
        (b.head, s) := by
      simp [releaseFrom]
    simp only [hloop, releaseNodes, hsecond, ne_eq, hhead, not_false_eq_true, if_true]
  | some node =>
    have hlast : b.last = node := by simp [FileBlock.last, hsecond]
    obtain ⟨hne, hnull⟩ := h.second_ne hb hsecond
    have hprev := (h.next_second hb hsecond).2
    have hlength : s.nodes.length ≠ 0 := by
      intro hzero
      have hmem := (h.nodes b.table b.head).mpr ⟨b, hb, rfl, List.mem_cons_self⟩
      rw [List.eq_nil_of_length_eq_zero hzero] at hmem
      cases hmem
    obtain ⟨fuel, hfuel⟩ := Nat.exists_eq_succ_of_ne_zero hlength
    have hloop : releaseFrom b.head (s.nodes.length + 1) node (s.prev node) s =
        (b.head, s.releaseVF b.head node) := by
      rw [hfuel]
      simp [releaseFrom, hne, hnull, hprev]
    rw [hlast]
    simp only [hloop, releaseNodes, hsecond, ne_eq, hhead, not_false_eq_true, if_true]

end Releasing

/-! ## Calls -/

section Calls

variable {forkNum : ForkType} {memory : Nat}

/-- Changing files only does not change what the list has. -/
theorem ListsFiles.withoutFiles {pfh : Nat → Bool} {opened : Int}
    (h : ListsFiles { s with pfh := pfh, fileOpenedNum := opened }) : s.ListsFiles := by
  obtain ⟨l, hl, hlist⟩ := h.list
  exact ⟨⟨l, ⟨hl.walk, hl.empty, hl.once⟩, hlist⟩, h.opened, h.pointers, h.freed, h.search⟩

theorem FilesOk.withFiles (h : s.FilesOk) (pfh : Nat → Bool) (opened : Int) :
    FilesOk { s with pfh := pfh, fileOpenedNum := opened } := by
  obtain ⟨bs, f, hlinked, hp, haligned⟩ := h
  exact ⟨bs, f, hlinked.withFiles pfh opened, hp.withFiles pfh opened, haligned⟩

variable [DecidableEq T]

/-- The file of a node that is there is open. -/
def AlreadyOpen (s : SmgrContext T) (t : T) (forkNum : ForkType) : Prop :=
  ∃ x ∈ s.findVF (s.tables t).vfhead forkNum, s.pfh x = true

/-- When a call keeps the list: a table starts with the fork that the list starts with; the
file to open is open already or is found; a table that is released is not the one the list
starts with, or the only one. -/
def CallOk (s : SmgrContext T) : SmgrListCall T → Prop
  | .smgrCreate t forkNum _ _ => s.StartsAlike t forkNum
  | .smgrOpen t forkNum _ found =>
    s.StartsAlike t forkNum ∧ (s.AlreadyOpen t forkNum ∨ found = true)
  | .smgrRelease t => (s.tables t).vfhead = s.vfhead → ∀ p ∈ s.nodes, p.1 = t

instance (s : SmgrContext T) (t : T)
    (forkNum : ForkType) : Decidable (s.StartsAlike t forkNum) :=
  inferInstanceAs (Decidable (_ → _ → _))

instance (s : SmgrContext T) (t : T)
    (forkNum : ForkType) : Decidable (s.AlreadyOpen t forkNum) :=
  inferInstanceAs (Decidable (∃ x ∈ s.findVF (s.tables t).vfhead forkNum, s.pfh x = true))

instance (s : SmgrContext T) (a : SmgrListCall T) : Decidable (s.CallOk a) :=
  match a with
  | .smgrCreate t forkNum _ _ => inferInstanceAs (Decidable (s.StartsAlike t forkNum))
  | .smgrOpen t forkNum _ found =>
    inferInstanceAs
      (Decidable (s.StartsAlike t forkNum ∧ (s.AlreadyOpen t forkNum ∨ found = true)))
  | .smgrRelease t =>
    inferInstanceAs (Decidable ((s.tables t).vfhead = s.vfhead → ∀ p ∈ s.nodes, p.1 = t))

/-- `GetVFec` keeps the list exactly where the forks are alike. -/
theorem getVFec_iff (h : s.FilesOk) (forkNum : ForkType) (hunused : s.Unused memory) :
    (s.StartsAlike t forkNum → (s.getVFec t forkNum memory).2.FilesOk) ∧
      ((s.getVFec t forkNum memory).2.ListsFiles → s.StartsAlike t forkNum) := by
  obtain ⟨bs, f, hlinked, hp, haligned⟩ := h
  have hget := getVFec_gets (t := t) hlinked forkNum hp haligned hunused
  refine ⟨fun hstart => hget.filesOk hlinked hp haligned hunused hstart, ?_⟩
  intro hlists hclosed hvfhead
  by_contra hfork
  generalize s.getVFec t forkNum memory = r at hget hlists
  have hempty : ∀ b ∈ bs, b.table = t → False := by
    rintro b hb rfl
    rw [hp.opened b hb] at hclosed
    exact hlinked.head_ne_null hb hclosed
  cases hget with
  | found b hb htable => exact hempty b hb htable
  | first ht hlinked' hadds hkeep =>
    have hne : bs ≠ [] := fun hnil => hvfhead (hlinked.empty hnil)
    exact not_listsFiles_of_fork hlinked hlinked' hadds
      (hkeep hne) hunused ht hne hfork hlists
  | second as cs head hbs => exact hempty ⟨t, head, none⟩ (by simp [hbs]) rfl

/-- The node that `GetVFec` gives has its file open exactly where it was there with it. -/
theorem getVFec_pfh (h : s.FilesOk) (forkNum : ForkType) (hunused : s.Unused memory) :
    (s.getVFec t forkNum memory).2.pfh (s.getVFec t forkNum memory).1 = true ↔
      s.AlreadyOpen t forkNum := by
  obtain ⟨bs, f, hlinked, hp, haligned⟩ := h
  have hget := getVFec_gets (t := t) hlinked forkNum hp haligned hunused
  generalize s.getVFec t forkNum memory = r at hget
  unfold AlreadyOpen
  cases hget with
  | found b hb htable hfind => simp [hfind]
  | first ht hlinked' hadds =>
    have hclosed : (s.tables t).vfhead = nullAddr := by rw [hp.closed t ht]; rfl
    simp [hclosed, hadds.pfh]
  | second as cs head hbs hfork hlinked' hadds =>
    have hmem : (⟨t, head, none⟩ : FileBlock T) ∈ bs := by simp [hbs]
    have hnone : s.findVF (s.tables t).vfhead forkNum = none := by
      rw [hp.opened _ hmem, hlinked.findVF haligned hmem, if_neg hfork]
    simp [hnone, hadds.pfh]

theorem smgrCreate_iff {made : Bool} (h : s.FilesOk) (hunused : s.Unused memory) :
    (s.StartsAlike t forkNum → (s.smgrCreate t forkNum memory made).2.FilesOk) ∧
      ((s.smgrCreate t forkNum memory made).2.ListsFiles → s.StartsAlike t forkNum) := by
  obtain ⟨hkeeps, hlost⟩ := getVFec_iff (t := t) h forkNum hunused
  unfold smgrCreate
  dsimp only
  split
  · exact ⟨hkeeps, hlost⟩
  · exact ⟨fun hstart => (hkeeps hstart).withFiles ..,
      fun hlists => hlost hlists.withoutFiles⟩

theorem smgrOpen_iff {found : Bool} (h : s.FilesOk) (hunused : s.Unused memory) :
    (s.StartsAlike t forkNum ∧ (s.AlreadyOpen t forkNum ∨ found = true) →
        (s.smgrOpen t forkNum memory found).2.FilesOk) ∧
      ((s.smgrOpen t forkNum memory found).2.ListsFiles →
        s.StartsAlike t forkNum ∧ (s.AlreadyOpen t forkNum ∨ found = true)) := by
  obtain ⟨hkeeps, hlost⟩ := getVFec_iff (t := t) h forkNum hunused
  have hopen := getVFec_pfh (t := t) h forkNum hunused
  unfold smgrOpen
  dsimp only
  split
  case isTrue hpfh =>
    exact ⟨fun hok => hkeeps hok.1, fun hlists => ⟨hlost hlists, .inl (hopen.mp hpfh)⟩⟩
  case isFalse hpfh =>
    split
    case isTrue hfound =>
      exact ⟨fun hok => (hkeeps hok.1).withFiles ..,
        fun hlists => ⟨hlost hlists.withoutFiles, .inr hfound⟩⟩
    case isFalse hfound =>
      refine ⟨fun hok => absurd hok.2 (by simp [hfound, ← hopen, hpfh]), fun hlists => ?_⟩
      obtain ⟨bs, f, hlinked, hp, haligned⟩ := h
      obtain ⟨bs', hlinked', hmem⟩ :=
        (getVFec_gets (t := t) hlinked forkNum hp haligned hunused).linked hlinked
      exact absurd hlists (not_listsFiles_of_freed hlinked' hmem)

theorem smgrRelease_iff (h : s.FilesOk) (hused : (s.tables t).vfend ≠ nullAddr) :
    (s.CallOk (.smgrRelease t) → (s.smgrRelease t).FilesOk) ∧
      ((s.smgrRelease t).ListsFiles → s.CallOk (.smgrRelease t)) := by
  obtain ⟨bs, f, hlinked, hp, haligned⟩ := h
  obtain ⟨b, hb, rfl⟩ : ∃ b ∈ bs, b.table = t := by
    by_contra hnot
    refine hused ?_
    rw [hp.closed t (fun hmem => hnot (List.mem_map.mp hmem))]
    rfl
  obtain ⟨as, cs, rfl⟩ := List.append_of_mem hb
  have hhead : (s.tables b.table).vfhead = b.head := by rw [hp.opened b hb]
  obtain ⟨hfork, htables, hnodes⟩ := releaseNodes_fields s b
  have hmap := hlinked.tables
  rw [List.map_append, List.map_cons, nodup_middle, ← List.map_append] at hmap
  -- The nodes of the other tables.
  have hothers : (∀ p ∈ s.nodes, p.1 = b.table) ↔ as ++ cs = [] := by
    constructor
    · intro hall
      refine List.eq_nil_iff_forall_not_mem.mpr fun c hc => hmap.1 ?_
      have hmem := (hlinked.nodes c.table c.head).mpr
        ⟨c, mem_middle.mpr (.inr hc), rfl, List.mem_cons_self⟩
      rw [← hall _ hmem]
      exact List.mem_map_of_mem hc
    · rintro hnil ⟨t, x⟩ hp
      obtain ⟨c, hc, rfl, -⟩ := (hlinked.nodes t x).mp hp
      obtain rfl | hc := mem_middle.mp hc
      · rfl
      · rw [hnil] at hc
        cases hc
  rw [smgrRelease_eq hlinked hp hb]
  simp only [CallOk, hhead, hothers]
  constructor
  · intro hrest
    refine ⟨as ++ cs, f, ?_, ?_, ?_⟩
    · have hless := hlinked.releaseNodes hrest
      exact ⟨hless.ring, hless.empty, hless.null, hless.tables, hless.nodes,
        hless.count, hless.freed⟩
    · constructor
      · intro c hc
        have hne : c.table ≠ b.table := fun heq => hmap.1 (heq ▸ List.mem_map_of_mem hc)
        simp only [setTable, Function.update_of_ne hne, htables]
        exact hp.opened c (mem_middle.mpr (.inr hc))
      · intro t ht
        by_cases heq : t = b.table
        · simp [setTable, heq]
        · simp only [setTable, Function.update_of_ne heq, htables]
          refine hp.closed t ?_
          rw [List.map_append, List.map_cons, mem_middle, ← List.map_append]
          exact fun hor => hor.elim heq ht
    · intro c hc
      have hc := haligned c (mem_middle.mpr (.inr hc))
      simp only [setTable, hfork]
      exact hc
  · intro hlists hvfhead
    by_contra hne
    obtain ⟨c, hc⟩ := List.exists_mem_of_ne_nil _ hne
    have hmem : (c.table, c.head) ∈ (s.releaseNodes b).nodes := by
      refine hnodes _
        ((hlinked.nodes _ _).mpr ⟨c, mem_middle.mpr (.inr hc), rfl, List.mem_cons_self⟩) ?_
      have hperm : (nodesOf (as ++ b :: cs)).Perm (b.nodes ++ nodesOf (as ++ cs)) := by
        rw [nodesOf_append, nodesOf_cons, nodesOf_append]
        exact List.perm_append_comm_assoc ..
      have hdisjoint := List.disjoint_of_nodup_append (hperm.nodup_iff.mp hlinked.ring.nodup)
      exact fun hx => hdisjoint hx (head_mem_nodesOf hc)
    obtain ⟨l, hl, hlisted, -⟩ := hlists.list
    have hnil : l = [] := hl.empty.mpr (releaseNodes_vfhead hlinked hvfhead)
    have hlost := (hlisted c.head).mpr ⟨c.table, hmem⟩
    rw [hnil] at hlost
    cases hlost

/-- A call keeps the list exactly where it is as it has to be. -/
theorem call_iff {s' : SmgrContext T} {a : SmgrListCall T} (h : s.FilesOk)
    (hcall : s.call a = some s') :
    (s.CallOk a → s'.FilesOk) ∧ (s'.ListsFiles → s.CallOk a) := by
  cases a with
  | smgrCreate t forkNum memory made =>
    simp only [call, Option.ite_none_right_eq_some, Option.some.injEq] at hcall
    obtain ⟨hunused, rfl⟩ := hcall
    exact smgrCreate_iff h hunused
  | smgrOpen t forkNum memory found =>
    simp only [call, Option.ite_none_right_eq_some, Option.some.injEq] at hcall
    obtain ⟨hunused, rfl⟩ := hcall
    exact smgrOpen_iff h hunused
  | smgrRelease t =>
    simp only [call, Option.ite_none_right_eq_some, Option.some.injEq] at hcall
    obtain ⟨hused, rfl⟩ := hcall
    exact smgrRelease_iff h hused

/-- Over any sequence of calls for any tables, successful or not, the list has the nodes of
the open tables, and the tables find their own, exactly when every call of it is as it has to
be. -/
theorem listsFiles_iff {s' : SmgrContext T} {as : List (SmgrListCall T)}
    (h : SmgrContextInit s) (hrun : run call s as = some s') :
    (∀ bs cs t, as = bs ++ cs → run call s bs = some t → t.ListsFiles) ↔
      Along call CallOk s as :=
  run_property_iff FilesOk.listsFiles call_iff (filesOk_init h) hrun

end Calls

/-! ## Three tables -/

/-- A storage manager that has no file. -/
def noFiles : SmgrContext Nat where
  next _ := nullAddr
  prev _ := nullAddr
  forkNum _ := .main
  pfh _ := false
  vfhead := nullAddr
  vFileNum := 0
  fileOpenedNum := 0
  fileMaxNum := 1000
  tables _ := SgmrInfo.init
  nodes := []
  freedTwice := false

theorem noFiles_init : SmgrContextInit noFiles := ⟨rfl, rfl, fun _ => rfl, rfl, rfl⟩

/-- Three tables are opened and made, one of them with both its files, and those that the list
does not start with are released. -/
def opensAndReleases : List (SmgrListCall Nat) :=
  [.smgrOpen 1 .main 10 true, .smgrCreate 2 .main 20 true, .smgrCreate 2 .group 21 true,
    .smgrOpen 3 .main 30 true, .smgrRelease 2, .smgrRelease 3, .smgrRelease 1]

theorem opensAndReleases_listsFiles :
    SmgrContextInit noFiles ∧
      ∀ bs cs t, opensAndReleases = bs ++ cs → run call noFiles bs = some t → t.ListsFiles :=
  ⟨noFiles_init, (listsFiles_iff noFiles_init (run_exec (by decide))).mpr (by decide)⟩

/-- A table whose file is not there is opened, and released, as `LoadTblInfo` does. -/
def opensMissing : List (SmgrListCall Nat) := [.smgrOpen 1 .main 10 false, .smgrRelease 1]

/-- Two tables are opened, and the first of them is released. -/
def releasesFirst : List (SmgrListCall Nat) :=
  [.smgrOpen 1 .main 10 true, .smgrOpen 2 .main 20 true, .smgrRelease 1]

/-- A node is released twice in the one run; in the other the list is gone, with a table
open. -/
theorem opensMissing_freesTwice :
    SmgrContextInit noFiles ∧
    (∃ t, run call noFiles opensMissing = some t ∧ t.freedTwice = true ∧ ¬ t.ListsFiles) ∧
    ∃ t, run call noFiles releasesFirst = some t ∧ t.vfhead = nullAddr ∧ t.nodes = [(2, 20)] ∧
      t.vFileNum = 1 ∧ ¬ t.ListsFiles := by
  refine ⟨noFiles_init, ⟨_, run_exec (by decide), by decide, ?_⟩,
    ⟨_, run_exec (by decide), by decide, by decide, by decide, ?_⟩⟩
  · intro hlists
    have hfreed := hlists.freed
    revert hfreed
    decide
  · intro hlists
    obtain ⟨l, hl, -, hcount, -⟩ := hlists.list
    rw [hl.empty.mpr (by decide)] at hcount
    revert hcount
    decide

end SmgrContext

end Toadb
