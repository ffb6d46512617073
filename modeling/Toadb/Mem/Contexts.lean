/-
Toadb.Mem.Contexts — the tree of the memory contexts, with their pages.

What the lists of `memPool.c` and `memstack.c` stand for: which context is the
parent of which, and the pages of each one, where the page with its record has
its name (`pagesOf`). No page is of two contexts. `lists` says which nodes are
in which list.
-/
import Toadb.Lib.Forest
import Toadb.Mem.MemPool

namespace Toadb.MemPool

/-- The contexts, and for each the pages behind the one with its record. -/
structure Contexts extends Forest Nat where
  pages : Nat → List Nat
  apart : ∀ c ∈ nodes, ∀ d ∈ nodes, ∀ p, p ∈ c :: pages c → p ∈ d :: pages d → c = d

namespace Contexts

/-- No context. -/
def empty : Contexts where
  nodes := []
  parent _ := none
  nodup := List.nodup_nil
  older := List.forall_mem_nil _
  pages _ := []
  apart := List.forall_mem_nil _

variable (cs : Contexts) {c d p : Nat} {parent : Option Nat}

/-- All pages of a context. -/
def pagesOf (c : Nat) : List Nat := c :: cs.pages c

/-- The page is of a context in the tree under `c`. -/
def PageBelow (c p : Nat) : Prop := ∃ d, cs.Below c d ∧ p ∈ cs.pagesOf d

/-- The context is there; with none, its list is that of `g_MemList`. -/
def Held (o : Option Nat) : Prop := ∀ c, o = some c → c ∈ cs.nodes

/-- The list of the contexts with this parent. -/
def contextList : Option Nat → Node
  | none => .memListHead
  | some c => .subList c

/-- The lists with their nodes. -/
def lists : Node → Option (List Node)
  | .memListHead => some ((cs.children none).map .memList)
  | .subList c => if c ∈ cs.nodes then some ((cs.children (some c)).map .memList) else none
  | .pageList c => if c ∈ cs.nodes then some ((cs.pagesOf c).map .page) else none
  | .null | .page _ | .memList _ => none

/-- Another context, which has one page. -/
def newContext (c : Nat) (parent : Option Nat)
    (hnew : ∀ d ∈ cs.nodes, ∀ p ∈ cs.pagesOf d, p < c)
    (hparent : cs.Held parent) : Contexts where
  toForest := cs.toForest.insert c parent (fun d hd => hnew d hd d List.mem_cons_self) hparent
  pages := Function.update cs.pages c []
  apart := by
    have hpages : ∀ d ∈ cs.nodes, Function.update cs.pages c [] d = cs.pages d := fun d hd =>
      Function.update_of_ne (hnew d hd d List.mem_cons_self).ne ..
    have hself : ∀ p, p ∈ c :: Function.update cs.pages c [] c → p = c := by simp
    intro d hd e he p hp hp'
    rcases List.mem_append.mp hd with hd | hd
    · rw [hpages d hd] at hp
      rcases List.mem_append.mp he with he | he
      · rw [hpages e he] at hp'
        exact cs.apart d hd e he p hp hp'
      · rw [List.mem_singleton.mp he] at hp'
        exact absurd (hself p hp') (hnew d hd p hp).ne
    · rw [List.mem_singleton.mp hd] at hp ⊢
      rcases List.mem_append.mp he with he | he
      · rw [hpages e he] at hp'
        exact absurd (hself p hp) (hnew e he p hp').ne
      · exact (List.mem_singleton.mp he).symm

/-- Another page of a context. -/
def newPage (c p : Nat) (hnew : ∀ d ∈ cs.nodes, ∀ q ∈ cs.pagesOf d, q < p) : Contexts where
  toForest := cs.toForest
  pages := Function.update cs.pages c (cs.pages c ++ [p])
  apart := by
    have hcases : ∀ d q, q ∈ d :: Function.update cs.pages c (cs.pages c ++ [p]) d →
        q ∈ cs.pagesOf d ∨ q = p ∧ d = c := by
      intro d q hq
      by_cases hd : d = c
      · rw [hd, Function.update_self, ← List.cons_append] at hq
        rcases List.mem_append.mp hq with hq | hq
        · exact .inl (hd ▸ hq)
        · exact .inr ⟨List.mem_singleton.mp hq, hd⟩
      · rw [Function.update_of_ne hd] at hq
        exact .inl hq
    intro d hd e he q hq hq'
    rcases hcases d q hq with hold | ⟨rfl, rfl⟩
    · rcases hcases e q hq' with hold' | ⟨rfl, rfl⟩
      · exact cs.apart d hd e he q hold hold'
      · exact absurd rfl (hnew d hd q hold).ne
    · rcases hcases e q hq' with hold' | ⟨-, rfl⟩
      · exact absurd rfl (hnew e he q hold').ne
      · rfl

/-- Without a context and those in the tree under it. -/
noncomputable def deleteContext (c : Nat) : Contexts where
  toForest := cs.toForest.delete c
  pages := cs.pages
  apart d hd e he := cs.apart d (Forest.mem_delete.mp hd).1 e (Forest.mem_delete.mp he).1

variable {cs}

theorem held_some : cs.Held (some c) ↔ c ∈ cs.nodes := by simp [Held]

theorem mem_newContext (hnew : ∀ d ∈ cs.nodes, ∀ p ∈ cs.pagesOf d, p < c)
    (hparent : cs.Held parent) :
    d ∈ (cs.newContext c parent hnew hparent).nodes ↔ d ∈ cs.nodes ∨ d = c :=
  Forest.mem_insert (fun d hd => hnew d hd d List.mem_cons_self) hparent

theorem children_newContext (hnew : ∀ d ∈ cs.nodes, ∀ p ∈ cs.pagesOf d, p < c)
    (hparent : cs.Held parent) (o : Option Nat) :
    (cs.newContext c parent hnew hparent).children o = if parent = o then cs.children o ++ [c]
      else cs.children o :=
  Forest.children_insert (fun d hd => hnew d hd d List.mem_cons_self) hparent

theorem children_newContext_self (hnew : ∀ d ∈ cs.nodes, ∀ p ∈ cs.pagesOf d, p < c)
    (hparent : cs.Held parent) :
    (cs.newContext c parent hnew hparent).children (some c) = [] :=
  Forest.children_insert_new (fun d hd => hnew d hd d List.mem_cons_self) hparent

theorem pagesOf_newContext (hnew : ∀ d ∈ cs.nodes, ∀ p ∈ cs.pagesOf d, p < c)
    (hparent : cs.Held parent) (d : Nat) :
    (cs.newContext c parent hnew hparent).pagesOf d = if d = c then [c]
      else cs.pagesOf d := by
  by_cases hd : d = c
  · simp [pagesOf, newContext, hd]
  · simp [pagesOf, newContext, hd]

theorem pagesOf_newPage (hnew : ∀ d ∈ cs.nodes, ∀ q ∈ cs.pagesOf d, q < p) (d : Nat) :
    (cs.newPage c p hnew).pagesOf d = if d = c then cs.pagesOf d ++ [p]
      else cs.pagesOf d := by
  by_cases hd : d = c
  · simp [pagesOf, newPage, hd]
  · simp [pagesOf, newPage, hd]

theorem mem_deleteContext : d ∈ (cs.deleteContext c).nodes ↔
    d ∈ cs.nodes ∧ ¬ cs.Below c d := Forest.mem_delete

theorem mem_pagesOf (cs : Contexts) (c : Nat) : c ∈ cs.pagesOf c := List.mem_cons_self

/-- The pages under a context are its own, and those under its children. -/
theorem pageBelow_iff : cs.PageBelow c p ↔
    p ∈ cs.pagesOf c ∨ ∃ d ∈ cs.children (some c), cs.PageBelow d p := by
  constructor
  · rintro ⟨e, hbelow, hp⟩
    rcases Forest.below_iff.mp hbelow with rfl | ⟨d, hd, hbelow⟩
    · exact .inl hp
    · exact .inr ⟨d, hd, e, hbelow, hp⟩
  · rintro (hp | ⟨d, hd, e, hbelow, hp⟩)
    · exact ⟨c, Forest.Below.refl _ c, hp⟩
    · exact ⟨e, Forest.below_iff.mpr (.inr ⟨d, hd, hbelow⟩), hp⟩

/-- Two children of one context have no page in common. -/
theorem pageBelow_unique {o : Option Nat} (hc : c ∈ cs.children o) (hd : d ∈ cs.children o)
    (h : cs.PageBelow c p) (h' : cs.PageBelow d p) : c = d := by
  obtain ⟨e, hbelow, hp⟩ := h
  obtain ⟨e', hbelow', hp'⟩ := h'
  obtain rfl := cs.apart e (hbelow.mem (Forest.mem_children.mp hc).1) e'
      (hbelow'.mem (Forest.mem_children.mp hd).1) p hp hp'
  exact Forest.below_unique hc hd hbelow hbelow'

/-- A page of a context is not of the contexts under one of its children. -/
theorem not_pageBelow_of_child (hc : c ∈ cs.nodes) (hd : d ∈ cs.children (some c))
    (hp : p ∈ cs.pagesOf c) :
    ¬ cs.PageBelow d p := by
  rintro ⟨e, hbelow, hp'⟩
  obtain rfl := cs.apart c hc e (hbelow.mem (Forest.mem_children.mp hd).1) p hp hp'
  exact Forest.not_below_of_child hd hbelow

/-- A page of a context that is not under `c` is of none that is. -/
theorem not_pageBelow (hc : c ∈ cs.nodes) (hd : d ∈ cs.nodes) (hbelow : ¬ cs.Below c d)
    (hp : p ∈ cs.pagesOf d) :
    ¬ cs.PageBelow c p := by
  rintro ⟨e, he, hp'⟩
  obtain rfl := cs.apart d hd e (he.mem hc) p hp hp'
  exact hbelow he

end Contexts

end Toadb.MemPool
