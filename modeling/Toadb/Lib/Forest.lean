/-
Toadb.Lib.Forest — trees given by the parent of each node.

A node is younger than its parent. The children of a node, or of no node, are
in the order of the nodes.

  * `below_iff`  — what is below a node: itself, and what is below its children;
  * `below_unique` — no node is below two children of one node;
  * `insert`     — another node, as the last child of its parent;
  * `delete`     — the forest without a node and what is below it, where the
                   child lists lose that node only (`children_delete`).
-/
import Mathlib.Logic.Relation
import Mathlib.Logic.Function.Basic
import Mathlib.Data.List.Nodup
import Mathlib.Order.Lattice

/-- Nodes with their parents; a node without one is the root of a tree. -/
structure Forest (α : Type*) [LinearOrder α] where
  nodes : List α
  parent : α → Option α
  nodup : nodes.Nodup
  older : ∀ c ∈ nodes, ∀ p, parent c = some p → p ∈ nodes ∧ p < c

namespace Forest

variable {α : Type*} [LinearOrder α] (f : Forest α) {c d e : α} {o o' : Option α}

/-- The nodes with this parent. -/
def children (o : Option α) : List α := f.nodes.filter fun c => f.parent c = o

/-- `d` is the parent of `c`. -/
def Edge (c d : α) : Prop := c ∈ f.nodes ∧ f.parent c = some d

/-- `d` is in the tree under `c`. -/
def Below (c d : α) : Prop := Relation.ReflTransGen f.Edge d c

variable {f}

theorem mem_children : c ∈ f.children o ↔ c ∈ f.nodes ∧ f.parent c = o := by
  simp [children]

theorem children_nodup (f : Forest α) (o : Option α) :
    (f.children o).Nodup := f.nodup.filter _

theorem Below.refl (f : Forest α) (c : α) : f.Below c c := Relation.ReflTransGen.refl

theorem Below.mem (h : f.Below c d) (hc : c ∈ f.nodes) : d ∈ f.nodes := by
  obtain rfl | ⟨e, hedge, -⟩ := Relation.ReflTransGen.cases_head h
  · exact hc
  · exact hedge.1

theorem Below.le (h : f.Below c d) : c ≤ d := by
  induction h using Relation.ReflTransGen.head_induction_on with
  | refl => exact le_refl c
  | head hedge _ ih => exact ih.trans (f.older _ hedge.1 _ hedge.2).2.le

/-- A child of what is below a node is below it. -/
theorem Below.child (h : f.Below c d) (he : e ∈ f.children (some d)) : f.Below c e :=
  Relation.ReflTransGen.head (mem_children.mp he) h

theorem below_iff : f.Below c e ↔ e = c ∨ ∃ d ∈ f.children (some c), f.Below d e := by
  constructor
  · intro h
    obtain rfl | ⟨d, hbelow, hedge⟩ := Relation.ReflTransGen.cases_tail h
    · exact .inl rfl
    · exact .inr ⟨d, mem_children.mpr hedge, hbelow⟩
  · rintro (rfl | ⟨d, hd, hbelow⟩)
    · exact Below.refl f e
    · exact Relation.ReflTransGen.tail hbelow (mem_children.mp hd)

/-- A node is not below its children. -/
theorem not_below_of_child (hd : d ∈ f.children (some c)) : ¬ f.Below d c := by
  intro h
  obtain ⟨hmem, hparent⟩ := mem_children.mp hd
  exact absurd h.le (f.older d hmem c hparent).2.not_ge

/-- The trees under two children of one node share no node. -/
theorem below_unique (hc : c ∈ f.children o) (hd : d ∈ f.children o) (h : f.Below c e)
    (h' : f.Below d e) : c = d := by
  have huniq : Relator.RightUnique f.Edge :=
    fun _ _ _ hx hy => Option.some.inj (hx.2.symm.trans hy.2)
  have hcases : ∀ {c d : α}, c ∈ f.children o → d ∈ f.children o → f.Below d c → c = d := by
    intro c d hc hd hbelow
    obtain rfl | ⟨x, hedge, hx⟩ := Relation.ReflTransGen.cases_head hbelow
    · rfl
    · obtain rfl : o = some x := (mem_children.mp hc).2.symm.trans hedge.2
      exact absurd hx (not_below_of_child hd)
  rcases Relation.ReflTransGen.total_of_right_unique huniq h h' with hle | hle
  · exact hcases hc hd hle
  · exact (hcases hd hc hle).symm

/-! ## Another node -/

section Insert

variable {n : α} {parent : Option α}

/-- A youngest node is added. -/
def insert (f : Forest α) (n : α) (parent : Option α) (hnew : ∀ c ∈ f.nodes, c < n)
    (hparent : ∀ p, parent = some p → p ∈ f.nodes) : Forest α where
  nodes := f.nodes ++ [n]
  parent := Function.update f.parent n parent
  nodup := List.nodup_append.mpr ⟨f.nodup, List.nodup_singleton n, fun c hc d hd => by
    rw [List.mem_singleton.mp hd]
    exact (hnew c hc).ne⟩
  older c hc p hp := by
    rcases List.mem_append.mp hc with hc | hc
    · rw [Function.update_of_ne (hnew c hc).ne] at hp
      have hold := f.older c hc p hp
      exact ⟨List.mem_append_left _ hold.1, hold.2⟩
    · obtain rfl := List.mem_singleton.mp hc
      rw [Function.update_self] at hp
      exact ⟨List.mem_append_left _ (hparent p hp), hnew p (hparent p hp)⟩

variable (hnew : ∀ c ∈ f.nodes, c < n) (hparent : ∀ p, parent = some p → p ∈ f.nodes)

theorem mem_insert : c ∈ (f.insert n parent hnew hparent).nodes ↔ c ∈ f.nodes ∨ c = n := by
  rw [insert, List.mem_append, List.mem_singleton]

theorem children_insert : (f.insert n parent hnew hparent).children o =
    if parent = o then f.children o ++ [n] else f.children o := by
  have hold : f.nodes.filter (fun c => Function.update f.parent n parent c = o) =
      f.children o :=
    List.filter_congr fun c hc => by rw [Function.update_of_ne (hnew c hc).ne]
  rw [children, insert, List.filter_append, hold]
  by_cases h : parent = o
  · simp [h]
  · simp [h]

/-- The new node has no children. -/
theorem children_insert_new : (f.insert n parent hnew hparent).children (some n) = [] := by
  have hne : parent ≠ some n := fun heq => (hnew n (hparent n heq)).false
  rw [children_insert, if_neg hne, children, List.filter_eq_nil_iff]
  intro c hc
  rw [decide_eq_true_eq]
  intro hp
  exact (hnew n (f.older c hc n hp).1).false

end Insert

/-! ## Without a tree -/

section Delete

open Classical in
/-- The forest without a node and what is below it. -/
noncomputable def delete (f : Forest α) (c : α) : Forest α where
  nodes := f.nodes.filter fun d => ¬ f.Below c d
  parent := f.parent
  nodup := f.nodup.filter _
  older d hd p hp := by
    rw [List.mem_filter, decide_eq_true_eq] at hd ⊢
    have hold := f.older d hd.1 p hp
    exact ⟨⟨hold.1, fun h => hd.2 (h.child (mem_children.mpr ⟨hd.1, hp⟩))⟩, hold.2⟩

theorem mem_delete : d ∈ (f.delete c).nodes ↔ d ∈ f.nodes ∧ ¬ f.Below c d := by
  simp [delete]

/-- A list of children that is left loses the node only. -/
theorem children_delete (ho : ∀ p, o = some p → ¬ f.Below c p) :
    (f.delete c).children o = (f.children o).erase c := by
  rw [(f.children_nodup o).erase_eq_filter, children, children, delete,
    List.filter_filter, List.filter_filter]
  refine List.filter_congr fun d hd => ?_
  by_cases hp : f.parent d = o
  · have hbelow : f.Below c d ↔ d = c := by
      constructor
      · intro h
        obtain rfl | ⟨p, hedge, hup⟩ := Relation.ReflTransGen.cases_head h
        · rfl
        · exact absurd hup (ho p (hp.symm.trans hedge.2))
      · rintro rfl
        exact Below.refl f d
    simp [hp, hbelow, bne, beq_eq_decide]
  · simp [hp]

end Delete

end Forest
