/-
Toadb.Mem.MemStackTheorems — what is given back when a memory context is deleted.

`Represents` says that a memory holds a tree of contexts: the lists are rings of
the nodes they should have, and the pages in use are those of the contexts. Each
call that makes contexts and pages keeps that, and `MemMangerDeleteContext` gives
back the pages of the tree under a context (`deleteContext_exact`).

The recursion of `MemDestroyContextNode` leaves dead nodes in the list it walks.
`Frees` says which pages are gone, and that only nodes in pages that are freed have
other links, so what is still to be freed is as it was (`Ready.frees`).
-/
import Mathlib.Data.List.Induction
import Mathlib.Data.List.Perm.Subperm
import Toadb.Mem.Contexts
import Toadb.Mem.MemPoolTheorems

namespace Toadb.MemPool

open DList Contexts

/-! ## The lists of a tree -/

section Lists

variable {cs : Contexts} {a : Node} {l : List Node} {c : Nat} {o : Option Nat}

theorem lists_contextList (ho : cs.Held o) :
    cs.lists (contextList o) = some ((cs.children o).map .memList) := by
  cases o with
  | none => rfl
  | some c => exact if_pos (held_some.mp ho)

theorem lists_pageList (hc : c ∈ cs.nodes) :
    cs.lists (.pageList c) = some ((cs.pagesOf c).map .page) := if_pos hc

/-- A list is of contexts, or of the pages of one. -/
theorem lists_cases (h : cs.lists a = some l) :
    (∃ o, cs.Held o ∧ a = contextList o ∧ l = (cs.children o).map .memList) ∨
      ∃ c ∈ cs.nodes, a = .pageList c ∧ l = (cs.pagesOf c).map .page := by
  cases a with
  | memListHead => exact .inl ⟨none, fun _ h => (by cases h), rfl, (Option.some.inj h).symm⟩
  | subList c =>
    rw [Contexts.lists, Option.ite_none_right_eq_some] at h
    exact .inl ⟨some c, held_some.mpr h.1, rfl, (Option.some.inj h.2).symm⟩
  | pageList c =>
    rw [Contexts.lists, Option.ite_none_right_eq_some] at h
    exact .inr ⟨c, h.1, rfl, (Option.some.inj h.2).symm⟩
  | null | page p | memList c => cases h

/-- The page that a node is in. -/
def Node.home : Node → Option Nat
  | .null | .memListHead => none
  | .page p | .memList p | .subList p | .pageList p => some p

/-- The nodes are in pages of the contexts. -/
theorem home_of_lists (h : cs.lists a = some l) {x : Node} (hx : x ∈ a :: l) {p : Nat}
    (hp : x.home = some p) :
    ∃ c ∈ cs.nodes, p ∈ cs.pagesOf c := by
  rcases lists_cases h with ⟨o, ho, rfl, rfl⟩ | ⟨c, hc, rfl, rfl⟩
  · rcases List.mem_cons.mp hx with rfl | hx
    · cases o with
      | none => cases hp
      | some c =>
        rw [← Option.some.inj hp]
        exact ⟨c, held_some.mp ho, cs.mem_pagesOf c⟩
    · obtain ⟨d, hd, rfl⟩ := List.mem_map.mp hx
      rw [← Option.some.inj hp]
      exact ⟨d, (Forest.mem_children.mp hd).1, cs.mem_pagesOf d⟩
  · rcases List.mem_cons.mp hx with rfl | hx
    · rw [← Option.some.inj hp]
      exact ⟨c, hc, cs.mem_pagesOf c⟩
    · obtain ⟨q, hq, rfl⟩ := List.mem_map.mp hx
      rw [← Option.some.inj hp]
      exact ⟨c, hc, hq⟩

theorem contextList_inj {o' : Option Nat} (h : contextList o = contextList o') : o = o' := by
  cases o with
  | none =>
    cases o' with
    | none => rfl
    | some c => cases h
  | some c =>
    cases o' with
    | none => cases h
    | some d => exact congrArg some (Node.subList.inj h)

/-- A new page is at the end of its list. -/
theorem lists_newPage {p : Nat} (hnew : ∀ d ∈ cs.nodes, ∀ q ∈ cs.pagesOf d, q < p)
    (hc : c ∈ cs.nodes) :
    (cs.newPage c p hnew).lists =
      Function.update cs.lists (.pageList c)
        (some ((cs.pagesOf c).map .page ++ [.page p])) := by
  funext x
  cases x with
  | pageList d =>
    change (if d ∈ cs.nodes then some (((cs.newPage c p hnew).pagesOf d).map Node.page)
        else none) = _
    rw [pagesOf_newPage]
    by_cases hd : d = c
    · simp [hd, hc]
    · rw [Function.update_of_ne fun heq => hd (Node.pageList.inj heq), if_neg hd]
      rfl
  | null | memListHead | subList d | page q | memList d => rfl

/-- A new context is at the end of the list of its parent, and has one page. -/
theorem lists_newContext (hnew : ∀ d ∈ cs.nodes, ∀ p ∈ cs.pagesOf d, p < c)
    (hparent : cs.Held o) :
    (cs.newContext c o hnew hparent).lists = Function.update
    (Function.update (Function.update cs.lists (contextList o)
      (some ((cs.children o).map .memList ++ [.memList c]))) (.subList c) (some []))
      (.pageList c) (some [.page c]) := by
  have hother : ∀ o', o ≠ o' → contextList o' ≠ contextList o :=
    fun o' hne heq => hne (contextList_inj heq).symm
  funext x
  cases x with
  | memListHead =>
    rw [Function.update_of_ne (by simp), Function.update_of_ne (by simp), Contexts.lists,
      children_newContext]
    by_cases ho : o = none
    · simp [ho, contextList]
    · have hne : Node.memListHead ≠ contextList o := hother none ho
      rw [if_neg ho, Function.update_of_ne hne]
      rfl
  | subList d =>
    rw [Function.update_of_ne (by simp), Contexts.lists]
    by_cases hd : d = c
    · rw [hd, children_newContext_self]
      simp [mem_newContext]
    · rw [Function.update_of_ne fun heq => hd (Node.subList.inj heq), children_newContext]
      simp only [mem_newContext, hd, or_false]
      by_cases ho : o = some d
      · have hmem : d ∈ cs.nodes := hparent d ho
        simp [ho, contextList, hmem]
      · have hne : Node.subList d ≠ contextList o := hother (some d) ho
        rw [if_neg ho, Function.update_of_ne hne]
        rfl
  | pageList d =>
    rw [Contexts.lists, pagesOf_newContext]
    by_cases hd : d = c
    · simp [hd, mem_newContext]
    · rw [Function.update_of_ne fun heq => hd (Node.pageList.inj heq),
        Function.update_of_ne (by simp),
        Function.update_of_ne (by cases o <;> simp [contextList]), if_neg hd]
      simp only [mem_newContext, hd, or_false]
      rfl
  | null | page q | memList d =>
    rw [Function.update_of_ne (by simp), Function.update_of_ne (by simp),
      Function.update_of_ne (by cases o <;> simp [contextList])]
    rfl

/-- Of the lists that are left one has a node less. -/
theorem lists_deleteContext {front back : List Nat}
    (hsplit : cs.children (cs.parent c) = front ++ c :: back)
    (h : (cs.deleteContext c).lists a = some l) :
    Function.update cs.lists (contextList (cs.parent c))
      (some (front.map .memList ++ back.map .memList)) a = some l := by
  rcases lists_cases h with ⟨o, ho, rfl, rfl⟩ | ⟨d, hd, rfl, rfl⟩
  · have hkept : ∀ d, o = some d → d ∈ cs.nodes ∧ ¬ cs.Below c d :=
      fun d hd => mem_deleteContext.mp (ho d hd)
    have hchildren : (cs.deleteContext c).children o = (cs.children o).erase c :=
      Forest.children_delete fun d hd => (hkept d hd).2
    by_cases heq : o = cs.parent c
    · have hfront : c ∉ front := by
        have hnodup := cs.children_nodup (cs.parent c)
        rw [hsplit, List.nodup_append] at hnodup
        exact fun hc => hnodup.2.2 c hc c List.mem_cons_self rfl
      rw [hchildren, heq, Function.update_self, hsplit, List.erase_append_right _ hfront,
        List.erase_cons_head, List.map_append]
    · have hc : c ∉ cs.children o := fun hc => heq (Forest.mem_children.mp hc).2.symm
      rw [hchildren, List.erase_of_not_mem hc,
        Function.update_of_ne fun hlist => heq (contextList_inj hlist)]
      exact lists_contextList fun d hd => (hkept d hd).1
  · rw [Function.update_of_ne (by cases cs.parent c <;> simp [contextList])]
    exact lists_pageList (mem_deleteContext.mp hd).1

/-- Links of a new context are in its page. -/
theorem contextLinks_other (links : Node → Node) {x : Node} (hx : x.home ≠ some c) :
    Memory.contextLinks links c x = links x := by
  cases x with
  | null | memListHead => simp [Memory.contextLinks]
  | page p | memList p | subList p | pageList p =>
    have hp : p ≠ c := fun heq => hx (heq ▸ rfl)
    simp [Memory.contextLinks, hp]

/-- Whether a node is in use is seen in its page. -/
theorem alive_congr {m m' : Memory} {x : Node}
    (h : ∀ p, x.home = some p → m'.pageInfo p = m.pageInfo p) :
    m'.alive x = m.alive x := by
  cases x with
  | null | memListHead => rfl
  | page p | memList p | subList p | pageList p => rw [Memory.alive, Memory.alive, h p rfl]

end Lists

/-! ## The contexts in memory -/

/-- The lists are linked, a context has its record, and the pages in use are those of the
contexts. -/
structure Represents (m : Memory) (cs : Contexts) : Prop where
  unused : m.Unused
  rings : Rings m.next m.prev cs.lists
  records : ∀ c, m.alive (.memList c) = true ↔ c ∈ cs.nodes
  pages : ∀ c ∈ cs.nodes, ∀ p ∈ cs.pagesOf c, ∃ info,
    m.pageInfo p = some info ∧ info.memHead = some c
  owned : ∀ p, (m.pageInfo p).isSome = true → ∃ c ∈ cs.nodes, p ∈ cs.pagesOf c

namespace Represents

variable {m m' : Memory} {cs : Contexts} {a : Node} {l : List Node} {c p : Nat}
  {info info' : MemPageInfo}

theorem inUse (h : Represents m cs) (hc : c ∈ cs.nodes) (hp : p ∈ cs.pagesOf c) :
    (m.pageInfo p).isSome = true := by
  obtain ⟨info, hinfo, -⟩ := h.pages c hc p hp
  rw [hinfo]
  rfl

theorem lt_pageNum (h : Represents m cs) (hc : c ∈ cs.nodes)
    (hp : p ∈ cs.pagesOf c) : p < m.pageNum := by
  obtain ⟨info, hinfo, -⟩ := h.pages c hc p hp
  exact h.unused.lt hinfo

/-- The nodes of the lists are in use. -/
theorem alive (h : Represents m cs) (ha : cs.lists a = some l) :
    ∀ x ∈ a :: l, m.alive x = true := by
  intro x hx
  rcases lists_cases ha with ⟨o, ho, rfl, rfl⟩ | ⟨c, hc, rfl, rfl⟩
  · rcases List.mem_cons.mp hx with rfl | hx
    · cases o with
      | none => rfl
      | some c => exact (h.records c).mpr (held_some.mp ho)
    · obtain ⟨d, hd, rfl⟩ := List.mem_map.mp hx
      exact (h.records d).mpr (Forest.mem_children.mp hd).1
  · rcases List.mem_cons.mp hx with rfl | hx
    · exact (h.records c).mpr hc
    · obtain ⟨p, hp, rfl⟩ := List.mem_map.mp hx
      exact h.inUse hc hp

/-- A node of a page that is not made yet is in no list. -/
theorem not_mem_lists (h : Represents m cs) (ha : cs.lists a = some l) {x : Node}
    (hx : x.home = some m.pageNum) :
    x ∉ a :: l := by
  intro hmem
  obtain ⟨c, hc, hp⟩ := home_of_lists ha hmem hx
  exact absurd rfl (h.lt_pageNum hc hp).ne

/-- A record is that of a context. -/
theorem mem_nodes (h : Represents m cs) (hinfo : m.pageInfo c = some info)
    {contextInfo : MemPoolContextInfo}
    (hcontext : info.contextInfo = some contextInfo) : c ∈ cs.nodes := by
  rw [← h.records, Memory.alive, hinfo, Option.bind_some, hcontext]
  rfl

/-- Another current context, and other blocks. -/
theorem withBlocks (h : Represents m cs) (current : Option Nat) (blocks : List MemBlock) :
    Represents { m with current := current, blocks := blocks } cs :=
  ⟨h.unused, h.rings, h.records, h.pages, h.owned⟩

/-- A node of a page that is not made yet is added to a list. -/
theorem rings_add (h : Represents m cs) (ha : cs.lists a = some l) {node : Node}
    (hnode : node.home = some m.pageNum)
    {next prev : Node → Node} (hring : Ring next prev a (a :: (l ++ [node])))
    (hframe : ∀ x, x ∉ a :: l → x.home ≠ some m.pageNum →
      next x = m.next x ∧ prev x = m.prev x) :
    Rings next prev (Function.update cs.lists a (some (l ++ [node]))) := by
  refine h.rings.set hring (fun x hx b k hb hxb => ?_) fun b k hb hba x hx => ?_
  · rw [← List.cons_append] at hx
    rcases List.mem_append.mp hx with hx | hx
    · exact h.rings.apart b k a l x hb ha hxb hx
    · rw [List.mem_singleton.mp hx] at hxb
      exact absurd hxb (h.not_mem_lists hb hnode)
  · exact hframe x (fun hxa => hba (h.rings.apart b k a l x hb ha hx hxa)) fun hhome =>
      h.not_mem_lists hb hhome hx

/-- A page changes, but for what it is of. -/
theorem setPage (h : Represents m cs) (hp : m.pageInfo p = some info)
    (hhead : info'.memHead = info.memHead)
    (hrecord : info'.contextInfo.isSome = info.contextInfo.isSome) :
    Represents (m.setPage p info') cs := by
  have hnew : (m.setPage p info').pageInfo p = some info' := Function.update_self ..
  have hold {q : Nat} (hq : q ≠ p) : (m.setPage p info').pageInfo q = m.pageInfo q :=
    Function.update_of_ne hq ..
  constructor
  · exact Memory.Unused.set h.unused hp info'
  · exact h.rings
  · intro c
    rw [← h.records c, Memory.alive, Memory.alive]
    by_cases hcp : c = p
    · rw [hcp, hnew, hp, Option.bind_some, Option.bind_some, hrecord]
    · rw [hold hcp]
  · intro c hc q hq
    obtain ⟨qInfo, hqInfo, hqHead⟩ := h.pages c hc q hq
    by_cases hqp : q = p
    · rw [hqp] at hqInfo ⊢
      obtain rfl := Option.some.inj (hp.symm.trans hqInfo)
      exact ⟨info', hnew, hhead.trans hqHead⟩
    · exact ⟨qInfo, (hold hqp).trans hqInfo, hqHead⟩
  · intro q hq
    by_cases hqp : q = p
    · refine h.owned q ?_
      rw [hqp, hp]
      rfl
    · rw [hold hqp] at hq
      exact h.owned q hq

/-- A context gets another page. -/
theorem newPage (h : Represents m cs) (hc : c ∈ cs.nodes) (hinfo : m.pageInfo c = some info)
    {contextInfo : MemPoolContextInfo}
    (hcontext : info.contextInfo = some contextInfo) {size n : Nat}
    {isSwitchCurrent : Bool} {next prev : Node → Node}
    (hlink : m.LinksPage c size next prev) :
    Represents (m.withCarved c info size n isSwitchCurrent next prev)
      (cs.newPage c m.pageNum fun _ hd _ hq => h.lt_pageNum hd hq) := by
  have hlist := lists_pageList hc
  obtain ⟨hring, hframe⟩ :=
    hlink.ring (h.rings.ring _ _ hlist) (h.alive hlist) (h.unused _ (le_refl _))
  have hcn : c ≠ m.pageNum := (h.lt_pageNum hc (cs.mem_pagesOf c)).ne
  have hnew : (m.withCarved c info size n isSwitchCurrent next prev).pageInfo m.pageNum = _ :=
    Memory.withCarved_new
  -- the record may name another current page
  have hold : ∀ q, q ≠ m.pageNum → ∀ qInfo, m.pageInfo q = some qInfo → ∃ qInfo',
      (m.withCarved c info size n isSwitchCurrent next prev).pageInfo q = some qInfo' ∧
        qInfo'.memHead = qInfo.memHead ∧ qInfo'.contextInfo.isSome =
          qInfo.contextInfo.isSome := by
    intro q hq qInfo hqInfo
    rw [Memory.withCarved_old hq]
    split
    case isTrue hif =>
      rw [hif.2] at hqInfo
      obtain rfl := Option.some.inj (hinfo.symm.trans hqInfo)
      exact ⟨_, rfl, rfl, by rw [hcontext]; rfl⟩
    case isFalse => exact ⟨qInfo, hqInfo, rfl, rfl⟩
  have hgone : ∀ q, q ≠ m.pageNum → m.pageInfo q = none →
      (m.withCarved c info size n isSwitchCurrent next prev).pageInfo q = none := by
    intro q hq hqInfo
    rw [Memory.withCarved_old hq, if_neg]
    · exact hqInfo
    · rintro ⟨-, rfl⟩
      cases hqInfo.symm.trans hinfo
  constructor
  · exact h.unused.withCarved hinfo _ _ _ _ _
  · rw [lists_newPage _ hc]
    exact h.rings_add hlist rfl hring fun x hx hhome =>
      hframe x hx fun heq => hhome (heq ▸ rfl)
  · intro d
    change _ ↔ d ∈ cs.nodes
    rw [← h.records d, Memory.alive, Memory.alive]
    by_cases hd : d = m.pageNum
    · rw [hd, hnew, h.unused _ (le_refl _)]
      simp [Memory.carvedPage, Memory.newPageInfo]
    · cases hdInfo : m.pageInfo d with
      | none => rw [hgone d hd hdInfo]
      | some dInfo =>
        obtain ⟨dInfo', hdInfo', -, hrecord⟩ := hold d hd dInfo hdInfo
        rw [hdInfo', Option.bind_some, Option.bind_some, hrecord]
  · intro d hd q hq
    have hcases : q ∈ cs.pagesOf d ∨ q = m.pageNum ∧ d = c := by
      rw [pagesOf_newPage] at hq
      split at hq
      case isTrue hdc => exact (List.mem_append.mp hq).imp_right fun hq =>
        ⟨List.mem_singleton.mp hq, hdc⟩
      case isFalse => exact .inl hq
    rcases hcases with hq | ⟨rfl, rfl⟩
    · obtain ⟨qInfo, hqInfo, hqHead⟩ := h.pages d hd q hq
      obtain ⟨qInfo', hqInfo', hhead, -⟩ := hold q (h.lt_pageNum hd hq).ne qInfo hqInfo
      exact ⟨qInfo', hqInfo', hhead.trans hqHead⟩
    · exact ⟨_, hnew, rfl⟩
  · intro q hq
    by_cases hqn : q = m.pageNum
    · refine ⟨c, hc, ?_⟩
      rw [pagesOf_newPage, if_pos rfl, hqn]
      exact List.mem_append_right _ List.mem_cons_self
    · have hinUse : (m.pageInfo q).isSome = true := by
        cases hqInfo : m.pageInfo q with
        | none =>
          rw [hgone q hqn hqInfo] at hq
          cases hq
        | some qInfo => rfl
      obtain ⟨d, hd, hqd⟩ := h.owned q hinUse
      refine ⟨d, hd, ?_⟩
      rw [pagesOf_newPage]
      split
      case isTrue => exact List.mem_append_left _ hqd
      case isFalse => exact hqd

/-- A context is linked in behind the others with its parent. -/
theorem newContext (h : Represents m cs) {o : Option Nat} (ho : cs.Held o)
    {next prev : Node → Node}
    (hlink : m.withContext.addDListTail (contextList o) (.memList m.pageNum) =
      some (m.withContext.relinked next prev)) :
    Represents (m.withContext.relinked next prev)
      (cs.newContext m.pageNum o (fun _ hd _ hq => h.lt_pageNum hd hq) ho) := by
  have hlist := lists_contextList ho
  have hhome {a : Node} {l : List Node} (ha : cs.lists a = some l)
      {x : Node} (hx : x ∈ a :: l) :
      x.home ≠ some m.pageNum := fun heq => h.not_mem_lists ha heq hx
  have hold {p : Nat} (hp : p ≠ m.pageNum) : m.withContext.pageInfo p = m.pageInfo p :=
    Function.update_of_ne hp ..
  have hnew : m.withContext.pageInfo m.pageNum = some (Memory.newContextPage m.pageNum) :=
    Function.update_self ..
  have halive {x : Node} (hx : x.home ≠ some m.pageNum) : m.withContext.alive x = m.alive x :=
    alive_congr fun p hp => hold fun heq => hx (heq ▸ hp)
  have hnode : m.withContext.alive (.memList m.pageNum) = true := by
    rw [Memory.alive, hnew]
    rfl
  obtain ⟨next', prev', hadd, hring, hframe⟩ := Memory.addDListTail_ring
    ((h.rings.ring _ _ hlist).congr (fun x hx => contextLinks_other m.next (hhome hlist hx))
      fun x hx => contextLinks_other m.prev (hhome hlist hx))
    (h.not_mem_lists hlist rfl)
      (fun x hx => (halive (hhome hlist hx)).trans (h.alive hlist x hx)) hnode
  have heq := Option.some.inj (hlink.symm.trans hadd)
  obtain rfl : next = next' := congrArg Memory.next heq
  obtain rfl : prev = prev' := congrArg Memory.prev heq
  -- the other nodes of the new page
  have hself {x : Node} (hx : x.home = some m.pageNum) (hne : x ≠ .memList m.pageNum) :
      next x = Memory.contextLinks m.next m.pageNum x ∧
        prev x = Memory.contextLinks m.prev m.pageNum x :=
    hframe x (h.not_mem_lists hlist hx) hne
  have hsub := hself (x := .subList m.pageNum) rfl (by simp)
  have hpages := hself (x := .pageList m.pageNum) rfl (by simp)
  have hpage := hself (x := .page m.pageNum) rfl (by simp)
  have hrings := h.rings_add hlist rfl hring fun x hx hne => by
    have hsame := hframe x hx fun heq => hne (heq ▸ rfl)
    exact ⟨hsame.1.trans (contextLinks_other m.next hne),
      hsame.2.trans (contextLinks_other m.prev hne)⟩
  have hfree {x : Node} (hx : x.home = some m.pageNum) (hne : x ≠ .memList m.pageNum)
      {b : Node} {k : List Node}
      (hb : Function.update cs.lists (contextList o)
        (some ((cs.children o).map .memList ++ [.memList m.pageNum])) b = some k) :
      x ∉ b :: k := by
    refine not_mem_set (fun b k hb => h.not_mem_lists hb hx) (fun hmem => ?_) hb
    rw [← List.cons_append] at hmem
    rcases List.mem_append.mp hmem with hmem | hmem
    · exact h.not_mem_lists hlist hx hmem
    · exact hne (List.mem_singleton.mp hmem)
  have hchildren := hrings.set (a := .subList m.pageNum) (l := [])
    (ring_singleton (hsub.1.trans (by simp [Memory.contextLinks]))
      (hsub.2.trans (by simp [Memory.contextLinks])))
    (fun x hx b k hb hxb => absurd hxb (List.mem_singleton.mp hx ▸ hfree rfl (by simp) hb))
      fun _ _ _ _ _ _ => ⟨rfl, rfl⟩
  have hfree' {x : Node} (hx : x.home = some m.pageNum) (hne : x ≠ .memList m.pageNum)
      (hne' : x ≠ .subList m.pageNum)
      {b : Node} {k : List Node}
        (hb : Function.update (Function.update cs.lists (contextList o)
        (some ((cs.children o).map .memList ++ [.memList m.pageNum]))) (.subList m.pageNum)
          (some []) b = some k) : x ∉ b :: k :=
    not_mem_set (fun b k hb => hfree hx hne hb)
      (fun hmem => hne' (List.mem_singleton.mp hmem)) hb
  have hall := hchildren.set (a := .pageList m.pageNum) (l := [.page m.pageNum])
    (ring_pair (by simp) (hpages.1.trans (by simp [Memory.contextLinks]))
      (hpage.1.trans (by simp [Memory.contextLinks]))
      (hpage.2.trans (by simp [Memory.contextLinks]))
        (hpages.2.trans (by simp [Memory.contextLinks])))
    (fun x hx b k hb hxb => by
      rcases List.mem_cons.mp hx with rfl | hx
      · exact absurd hxb (hfree' rfl (by simp) (by simp) hb)
      · rw [List.mem_singleton.mp hx] at hxb
        exact absurd hxb (hfree' rfl (by simp) (by simp) hb)) fun _ _ _ _ _ _ => ⟨rfl, rfl⟩
  constructor
  · exact Memory.Unused.withContext h.unused
  · rw [lists_newContext]
    exact hall
  · intro d
    rw [mem_newContext]
    by_cases hd : d = m.pageNum
    · rw [hd]
      exact iff_of_true hnode (.inr rfl)
    · have hsame := halive (x := .memList d) fun heq => hd (Option.some.inj heq)
      rw [Memory.alive_relinked, hsame, h.records d]
      exact (or_iff_left hd).symm
  · intro d hd p hp
    rw [pagesOf_newContext] at hp
    split at hp
    case isTrue hdn =>
      rw [List.mem_singleton.mp hp, hdn]
      exact ⟨_, hnew, rfl⟩
    case isFalse hdn =>
      have hd' := (or_iff_left hdn).mp ((mem_newContext ..).mp hd)
      obtain ⟨info, hinfo, hhead⟩ := h.pages d hd' p hp
      exact ⟨info, (hold (h.lt_pageNum hd' hp).ne).trans hinfo, hhead⟩
  · intro p hp
    by_cases hpn : p = m.pageNum
    · refine ⟨m.pageNum, (mem_newContext ..).mpr (.inr rfl), ?_⟩
      rw [pagesOf_newContext, if_pos rfl, hpn]
      exact List.mem_cons_self
    · have hinUse : (m.pageInfo p).isSome = true := hold hpn ▸ hp
      obtain ⟨d, hd, hpd⟩ := h.owned p hinUse
      refine ⟨d, (mem_newContext ..).mpr (.inl hd), ?_⟩
      rwa [pagesOf_newContext, if_neg (h.lt_pageNum hd (cs.mem_pagesOf d)).ne]

/-- At the start of the server there is one context. -/
theorem start : ∃ cs, Represents Memory.start cs := by
  obtain ⟨next, prev, hlink, heq⟩ := Memory.start_eq
  have hempty : Represents { Memory.noContext with current := some 0 } Contexts.empty := by
    constructor
    · exact fun _ _ => rfl
    · constructor
      · intro a l ha
        rcases lists_cases ha with ⟨o, ho, rfl, rfl⟩ | ⟨c, hc, -⟩
        · cases o with
          | none => exact ring_singleton rfl rfl
          | some c => cases ho c rfl
        · cases hc
      · intro a l b k x ha hb hx hx'
        rcases lists_cases ha with ⟨o, -, rfl, rfl⟩ | ⟨c, hc, -⟩
        · rcases lists_cases hb with ⟨o', -, rfl, rfl⟩ | ⟨c, hc, -⟩
          · exact (List.mem_singleton.mp hx).symm.trans (List.mem_singleton.mp hx')
          · cases hc
        · cases hc
    · exact fun c => iff_of_false (fun hc => by cases hc) (fun hc => by cases hc)
    · exact List.forall_mem_nil _
    · exact fun p hp => by cases hp
  have ho : Contexts.empty.Held none := fun _ hc => by cases hc
  rw [heq] at hlink ⊢
  exact ⟨_, (hempty.newContext ho hlink).withBlocks (some 0) []⟩

end Represents

/-! ## Pages that are given back -/

/-- The pages that are given back, each once. The links of nodes in other pages than `homes`
stay. -/
structure Frees (m m' : Memory) (l : List Nat) (homes : Nat → Prop) : Prop where
  pageNum : m'.pageNum = m.pageNum
  released : m'.released = m.released ++ l
  nodup : l.Nodup
  inUse : ∀ p ∈ l, (m.pageInfo p).isSome = true
  gone : ∀ p ∈ l, m'.pageInfo p = none
  kept : ∀ p, p ∉ l → m'.pageInfo p = m.pageInfo p
  links : ∀ x : Node, (∀ p, x.home = some p → ¬ homes p) →
    m'.next x = m.next x ∧ m'.prev x = m.prev x

namespace Frees

variable {m m' m'' : Memory} {l l' : List Nat} {homes homes' : Nat → Prop}
  {p c : Nat} {cs : Contexts}

theorem refl (m : Memory) (homes : Nat → Prop) : Frees m m [] homes where
  pageNum := rfl
  released := (List.append_nil _).symm
  nodup := List.nodup_nil
  inUse := List.forall_mem_nil _
  gone := List.forall_mem_nil _
  kept _ _ := rfl
  links _ _ := ⟨rfl, rfl⟩

theorem trans (h : Frees m m' l homes) (h' : Frees m' m'' l' homes) :
    Frees m m'' (l ++ l') homes := by
  have hapart : ∀ p ∈ l, p ∉ l' := by
    intro p hp hp'
    have hdead := h'.inUse p hp'
    rw [h.gone p hp] at hdead
    cases hdead
  constructor
  · exact h'.pageNum.trans h.pageNum
  · rw [h'.released, h.released, List.append_assoc]
  · exact List.nodup_append.mpr ⟨h.nodup, h'.nodup,
      fun p hp q hq heq => hapart p hp (heq ▸ hq)⟩
  · intro p hp
    rcases List.mem_append.mp hp with hp | hp
    · exact h.inUse p hp
    · have hinUse := h'.inUse p hp
      rwa [h.kept p fun hpl => hapart p hpl hp] at hinUse
  · intro p hp
    rcases List.mem_append.mp hp with hp | hp
    · rw [h'.kept p (hapart p hp)]
      exact h.gone p hp
    · exact h'.gone p hp
  · intro p hp
    rw [List.mem_append, not_or] at hp
    rw [h'.kept p hp.2, h.kept p hp.1]
  · intro x hx
    exact ⟨(h'.links x hx).1.trans (h.links x hx).1, (h'.links x hx).2.trans (h.links x hx).2⟩

theorem mono (h : Frees m m' l homes) (hsub : ∀ p, homes p → homes' p) :
    Frees m m' l homes' :=
  { h with links := fun x hx => h.links x fun p hp hhome => hx p hp (hsub p hhome) }

theorem unused (h : Frees m m' l homes) (hunused : m.Unused) : m'.Unused := by
  intro p hp
  rw [h.pageNum] at hp
  by_cases hpl : p ∈ l
  · exact h.gone p hpl
  · rw [h.kept p hpl]
    exact hunused p hp

theorem releaseMemPage (hp : (m.pageInfo p).isSome = true) (homes : Nat → Prop) :
    ∃ m', m.releaseMemPage p = some m' ∧ m'.next = m.next ∧ m'.prev = m.prev ∧
      Frees m m' [p] homes := by
  obtain ⟨info, hinfo⟩ := Option.isSome_iff_exists.mp hp
  refine ⟨{ m with pageInfo := Function.update m.pageInfo p none,
                   released := m.released ++ [p] }, ?_, rfl, rfl, ?_⟩
  · rw [Memory.releaseMemPage, hinfo]
  · refine ⟨rfl, rfl, List.nodup_singleton p, ?_, ?_, ?_, fun _ _ => ⟨rfl, rfl⟩⟩
    · exact List.forall_mem_singleton.mpr hp
    · exact List.forall_mem_singleton.mpr (Function.update_self ..)
    · exact fun q hq => Function.update_of_ne (fun heq => hq (List.mem_singleton.mpr heq)) ..

theorem relinked {next prev : Node → Node} {homes : Nat → Prop}
    (hframe : ∀ x : Node, (∀ p, x.home = some p → ¬ homes p) →
      next x = m.next x ∧ prev x = m.prev x) :
    Frees m (m.relinked next prev) [] homes :=
  { refl m homes with links := hframe }

end Frees

/-! ## The pages of one context -/

section ReleaseContext

variable {m : Memory} {c : Nat}

/-- `ReleaseMemContext` walks back to the page with the record. -/
theorem releasePages_frees (hrecord : m.alive (.pageList c) = true) {l : List Nat}
    (hring : Ring m.next m.prev (.pageList c) (.pageList c :: (c :: l).map .page))
    (hinUse : ∀ p ∈ c :: l, (m.pageInfo p).isSome = true) {fuel : Nat}
    (hfuel : l.length < fuel) :
    ∃ m', Memory.releasePages fuel m (.page c) (m.prev (.pageList c)) = some m' ∧
      Frees m m' l.reverse (· ∈ c :: l) := by
  induction l using List.reverseRecOn generalizing m fuel with
  | nil =>
    obtain ⟨fuel, rfl⟩ := Nat.exists_eq_succ_of_ne_zero (Nat.ne_of_gt hfuel)
    have hlast : m.prev (.pageList c) = .page c := (Ring.last (p := [.pageList c]) hring).2
    rw [hlast, Memory.releasePages, if_pos rfl]
    exact ⟨m, rfl, Frees.refl m _⟩
  | append_singleton l p ih =>
    obtain ⟨fuel, rfl⟩ :=
      Nat.exists_eq_succ_of_ne_zero (Nat.ne_of_gt (Nat.zero_lt_of_lt hfuel))
    have hnodes : (c :: (l ++ [p])).map Node.page =
        (c :: l).map Node.page ++ [Node.page p] := by simp
    rw [hnodes] at hring
    obtain ⟨front, x, hsplit⟩ :=
      (List.eq_nil_or_concat (Node.pageList c :: (c :: l).map Node.page)).resolve_left
        (List.cons_ne_nil _ _)
    rw [List.concat_eq_append] at hsplit
    have hsplit' : Node.pageList c :: ((c :: l).map Node.page ++ [Node.page p]) =
        front ++ x :: .page p :: [] := by
      rw [← List.cons_append, hsplit, List.append_assoc]
      rfl
    have hlast : m.prev (.pageList c) = .page p := by
      rw [← List.cons_append] at hring
      exact hring.last.2
    have hback : m.prev (.page p) = x := by
      rw [hsplit'] at hring
      exact hring.adjacent.2
    have hpages : p ∉ c :: l := by
      have hnodup := hring.nodup
      rw [List.nodup_cons, List.nodup_append] at hnodup
      exact fun hp => hnodup.2.2.2 _ (List.mem_map_of_mem hp) _ List.mem_cons_self rfl
    have hmem : ∀ q ∈ c :: l, q ∈ c :: (l ++ [p]) := fun q hq => by
      rw [← List.cons_append]
      exact List.mem_append_left _ hq
    have halive : ∀ x ∈ Node.pageList c :: ((c :: l).map Node.page ++ [Node.page p]),
        m.alive x = true := by
      intro x hx
      rcases List.mem_cons.mp hx with rfl | hx
      · exact hrecord
      · rw [← hnodes] at hx
        obtain ⟨q, hq, rfl⟩ := List.mem_map.mp hx
        exact hinUse q hq
    obtain ⟨next, prev, hdel, hring', hframe⟩ := Memory.delDListNode_ring hring halive
    rw [List.append_nil] at hring'
    have hlast' : prev (.pageList c) = x := by
      rw [hsplit] at hring'
      exact hring'.last.2
    have hrelinked : Frees m (m.relinked next prev) [] (· ∈ c :: (l ++ [p])) := by
      refine Frees.relinked fun y hy => hframe y fun hmem => ?_
      rcases List.mem_cons.mp hmem with rfl | hmem
      · exact hy c rfl List.mem_cons_self
      · rw [← hnodes] at hmem
        obtain ⟨q, hq, rfl⟩ := List.mem_map.mp hmem
        exact hy q rfl hq
    have hp : ((m.relinked next prev).pageInfo p).isSome = true := hinUse p (by simp)
    obtain ⟨m', hrelease, hnext', hprev', hfrees⟩ :=
      Frees.releaseMemPage hp (· ∈ c :: (l ++ [p]))
    have hkept : ∀ q ∈ c :: l, m'.pageInfo q = m.pageInfo q := fun q hq =>
      hfrees.kept q fun hqp => hpages (List.mem_singleton.mp hqp ▸ hq)
    have hrecord' : m'.alive (.pageList c) = true := by
      refine (alive_congr fun q hq => ?_).trans hrecord
      rw [← Option.some.inj hq]
      exact hkept c List.mem_cons_self
    have hfuel' : l.length < fuel := by simpa using hfuel
    obtain ⟨m'', hrest, hfrees'⟩ :=
      ih hrecord' (by rwa [hnext', hprev'])
        (fun q hq => (hkept q hq).symm ▸ hinUse q (hmem q hq))
      hfuel'
    refine ⟨m'', ?_, ?_⟩
    · have hne : Node.page p ≠ .page c :=
        fun heq => hpages (Node.page.inj heq ▸ List.mem_cons_self)
      have hpAlive : m.alive (.page p) = true := hinUse p (by simp)
      have hhere : m.getPrev (.page p) = some x :=
        (Memory.getPrev_eq hpAlive).trans (congrArg some hback)
      rw [hprev', Memory.prev_relinked, hlast'] at hrest
      rw [hlast, Memory.releasePages, if_neg hne]
      simp only [hhere, hdel, hrelease, Option.bind_eq_bind, Option.bind_some]
      exact hrest
    · have hall := (hrelinked.trans hfrees).trans (hfrees'.mono hmem)
      rwa [List.nil_append, List.singleton_append, ← List.reverse_concat] at hall

/-- There are no more different pages than were made. -/
theorem length_le_pageNum {l : List Nat} (hnodup : l.Nodup) {n : Nat}
    (hlt : ∀ p ∈ l, p < n) : l.length ≤ n := by
  have hle :=
    (List.subperm_of_subset hnodup fun p hp => List.mem_range.mpr (hlt p hp)).length_le
  rwa [List.length_range] at hle

/-- `ReleaseMemContext` gives back the pages from the last one on, the one with the record at
the end. -/
theorem releaseMemContext_frees (hunused : m.Unused)
    (hrecord : m.alive (.pageList c) = true) {l : List Nat}
    (hring : Ring m.next m.prev (.pageList c) (.pageList c :: (c :: l).map .page))
    (hinUse : ∀ p ∈ c :: l, (m.pageInfo p).isSome = true) :
    ∃ m', m.releaseMemContext c = some m' ∧ Frees m m' (l.reverse ++ [c]) (· ∈ c :: l) := by
  have hnodup : (c :: l).Nodup := (List.nodup_cons.mp hring.nodup).2.of_map
  have hlt : ∀ p ∈ l, p < m.pageNum := by
    intro p hp
    obtain ⟨info, hinfo⟩ := Option.isSome_iff_exists.mp (hinUse p (List.mem_cons_of_mem c hp))
    exact hunused.lt hinfo
  have hfuel := Nat.lt_succ_of_le (length_le_pageNum hnodup.of_cons hlt)
  have howner : m.next (.pageList c) = .page c := (Ring.adjacent (p := []) hring).1
  obtain ⟨m₁, hpages, hfrees⟩ := releasePages_frees hrecord hring hinUse hfuel
  have hc : (m₁.pageInfo c).isSome = true := by
    rw [hfrees.kept c fun hmem => (List.nodup_cons.mp hnodup).1 (List.mem_reverse.mp hmem)]
    exact hinUse c List.mem_cons_self
  obtain ⟨m₂, hrelease, -, -, hfrees'⟩ := Frees.releaseMemPage hc (· ∈ c :: l)
  refine ⟨m₂, ?_, hfrees.trans hfrees'⟩
  simp only [Memory.releaseMemContext, Memory.getPrev_eq hrecord,
    Memory.getNext_eq hrecord, howner, hpages,
    Option.bind_eq_bind, Option.bind_some]
  exact hrelease

end ReleaseContext

/-! ## A tree of contexts -/

section Destroy

variable {m m' : Memory} {cs : Contexts} {c d : Nat} {l : List Nat}

/-- The pages of a context can be given back. -/
structure ReadyPages (m : Memory) (cs : Contexts) (c : Nat) : Prop where
  ring : Ring m.next m.prev (.pageList c) (.pageList c :: (cs.pagesOf c).map .page)
  record : m.alive (.memList c) = true
  inUse : ∀ p ∈ cs.pagesOf c, (m.pageInfo p).isSome = true

/-- So can those of the contexts in the tree under it, which are linked behind their
parents. -/
structure Ready (m : Memory) (cs : Contexts) (c : Nat) : Prop where
  mem : c ∈ cs.nodes
  pages : ∀ d, cs.Below c d → ReadyPages m cs d
  children : ∀ d, cs.Below c d →
    Ring m.next m.prev (.subList d) (.subList d :: (cs.children (some d)).map .memList)

theorem Ready.child (h : Ready m cs c) (hd : d ∈ cs.children (some c)) : Ready m cs d where
  mem := (Forest.mem_children.mp hd).1
  pages e he := h.pages e (Forest.below_iff.mpr (.inr ⟨d, hd, he⟩))
  children e he := h.children e (Forest.below_iff.mpr (.inr ⟨d, hd, he⟩))

section Frees

variable {homes : Nat → Prop}

/-- Pages of others were freed. -/
theorem ReadyPages.frees (h : ReadyPages m cs c) (hfrees : Frees m m' l homes)
    (hl : ∀ p ∈ l, homes p)
    (hhomes : ∀ p ∈ cs.pagesOf c, ¬ homes p) : ReadyPages m' cs c := by
  have hkept {p : Nat} (hp : p ∈ cs.pagesOf c) : m'.pageInfo p = m.pageInfo p :=
    hfrees.kept p fun hpl => hhomes p hp (hl p hpl)
  have hlinks : ∀ x ∈ Node.pageList c :: (cs.pagesOf c).map .page,
      m'.next x = m.next x ∧ m'.prev x = m.prev x := by
    intro x hx
    refine hfrees.links x fun q hq => hhomes q ?_
    rcases List.mem_cons.mp hx with rfl | hx
    · exact Option.some.inj hq ▸ cs.mem_pagesOf c
    · obtain ⟨p, hp, rfl⟩ := List.mem_map.mp hx
      exact Option.some.inj hq ▸ hp
  constructor
  · exact h.ring.congr (fun x hx => (hlinks x hx).1) fun x hx => (hlinks x hx).2
  · refine (alive_congr fun p hp => ?_).trans h.record
    rw [← Option.some.inj hp]
    exact hkept (cs.mem_pagesOf c)
  · exact fun p hp => (hkept hp).symm ▸ h.inUse p hp

theorem Ready.frees (h : Ready m cs c) (hfrees : Frees m m' l homes) (hl : ∀ p ∈ l, homes p)
    (hhomes : ∀ p, cs.PageBelow c p → ¬ homes p) : Ready m' cs c where
  mem := h.mem
  pages d hd := (h.pages d hd).frees hfrees hl fun p hp => hhomes p ⟨d, hd, hp⟩
  children d hd := by
    have hlinks : ∀ x ∈ Node.subList d :: (cs.children (some d)).map .memList,
        m'.next x = m.next x ∧ m'.prev x = m.prev x := by
      intro x hx
      refine hfrees.links x fun q hq => hhomes q ?_
      rcases List.mem_cons.mp hx with rfl | hx
      · exact ⟨d, hd, Option.some.inj hq ▸ cs.mem_pagesOf d⟩
      · obtain ⟨e, he, rfl⟩ := List.mem_map.mp hx
        exact ⟨e, hd.child he, Option.some.inj hq ▸ cs.mem_pagesOf e⟩
    exact (h.children d hd).congr (fun x hx => (hlinks x hx).1) fun x hx => (hlinks x hx).2

end Frees

/-- A function that frees the trees under the children of `c`. -/
def Destroys (cs : Contexts) (c pageNum : Nat)
    (destroy : Memory → Nat → Option Memory) : Prop :=
  ∀ m d, m.pageNum = pageNum → m.Unused → d ∈ cs.children (some c) → Ready m cs d →
    ∃ m' l, destroy m d = some m' ∧ Frees m m' l (cs.PageBelow d) ∧ ∀ p,
      p ∈ l ↔ cs.PageBelow d p

/-- The loop of `MemDestroyContextNode`: the children in `back` are gone, those in `front` are
as they were. -/
theorem destroyChildren_frees (hunused : m.Unused) (h : Ready m cs c)
    {destroy : Memory → Nat → Option Memory}
    (hdestroy : Destroys cs c m.pageNum destroy) {front back : List Nat}
    (hsplit : cs.children (some c) = front ++ back)
    {s : Memory} (hfrees : Frees m s l fun p => ∃ d ∈ back, cs.PageBelow d p)
    (hl : ∀ p, p ∈ l ↔ ∃ d ∈ back, cs.PageBelow d p) {pre : List Node} {preNode : Node}
    (hpre : Node.subList c :: front.map .memList = pre ++ [preNode]) {fuel : Nat}
    (hfuel : front.length < fuel) :
    ∃ m' l', Memory.destroyChildren destroy fuel s (.subList c) preNode = some m' ∧
      Frees m m' l' (fun p => ∃ d ∈ cs.children (some c), cs.PageBelow d p) ∧
      ∀ p, p ∈ l' ↔ ∃ d ∈ cs.children (some c), cs.PageBelow d p := by
  induction front using List.reverseRecOn generalizing back s l pre preNode fuel with
  | nil =>
    obtain ⟨fuel, rfl⟩ := Nat.exists_eq_succ_of_ne_zero (Nat.ne_of_gt hfuel)
    obtain rfl : .subList c = preNode := by simpa using congrArg List.getLast? hpre
    rw [hsplit]
    exact ⟨s, l, if_pos rfl, hfrees, hl⟩
  | append_singleton front d ih =>
    obtain ⟨fuel, rfl⟩ :=
      Nat.exists_eq_succ_of_ne_zero (Nat.ne_of_gt (Nat.zero_lt_of_lt hfuel))
    have hfuel' : front.length < fuel := by simpa using hfuel
    rw [List.map_append, List.map_singleton, ← List.cons_append] at hpre
    obtain rfl : .memList d = preNode :=
      List.singleton_injective (List.append_inj' hpre rfl).2
    obtain ⟨pre, x, hfront⟩ :=
      (List.eq_nil_or_concat (Node.subList c :: front.map Node.memList)).resolve_left
        (List.cons_ne_nil _ _)
    rw [List.concat_eq_append] at hfront
    have hd : d ∈ cs.children (some c) := by simp [hsplit]
    have hback : m.prev (.memList d) = x := by
      have hring := h.children c (Forest.Below.refl _ c)
      have hnodes : Node.subList c :: (cs.children (some c)).map .memList =
          pre ++ x :: .memList d :: back.map .memList := by
        rw [hsplit, List.map_append, List.map_append, ← List.cons_append,
          ← List.cons_append, hfront]
        simp
      rw [hnodes] at hring
      exact hring.adjacent.2
    have hapart : ∀ p, cs.PageBelow d p → ¬ ∃ e ∈ back, cs.PageBelow e p := by
      rintro p hp ⟨e, he, hp'⟩
      obtain rfl := pageBelow_unique hd (by simp [hsplit, he]) hp hp'
      have hnodup := cs.children_nodup (some c)
      rw [hsplit, List.nodup_append] at hnodup
      exact hnodup.2.2 d (by simp) d he rfl
    have hready := (h.child hd).frees hfrees (fun p hp => (hl p).mp hp) hapart
    have hprev : s.prev (.memList d) = x := by
      refine (hfrees.links _ fun p hp => ?_).2.trans hback
      exact hapart p ⟨d, Forest.Below.refl _ d, Option.some.inj hp ▸ cs.mem_pagesOf d⟩
    obtain ⟨t, l', hchild, hfrees', hl'⟩ :=
      hdestroy s d hfrees.pageNum (hfrees.unused hunused) hd hready
    have hboth : Frees m t (l ++ l') fun p => ∃ e ∈ d :: back, cs.PageBelow e p := by
      refine (hfrees.mono ?_).trans (hfrees'.mono fun p hp => ⟨d, List.mem_cons_self, hp⟩)
      rintro p ⟨e, he, hp⟩
      exact ⟨e, List.mem_cons_of_mem d he, hp⟩
    obtain ⟨m', l'', hrest, hall⟩ :=
      ih (hsplit.trans (by simp)) hboth (fun p => by simp [hl, hl', or_comm]) hfront hfuel'
    refine ⟨m', l'', ?_, hall⟩
    have halive := (hready.pages d (Forest.Below.refl _ d)).record
    unfold Memory.destroyChildren
    rw [if_neg (by simp)]
    simp only [Memory.getPrev_eq halive, hprev, hchild, Option.bind_eq_bind, Option.bind_some]
    exact hrest

theorem Ready.lt_pageNum (h : Ready m cs c) (hunused : m.Unused) {d : Nat}
    (hd : cs.Below c d) : d < m.pageNum := by
  obtain ⟨info, hinfo⟩ :=
    Option.isSome_iff_exists.mp ((h.pages d hd).inUse d (cs.mem_pagesOf d))
  exact hunused.lt hinfo

/-- `MemDestroyContextNode` gives back the pages under a context. A child is younger than its
parent, so the recursion is no deeper than there are pages. -/
theorem memDestroyContextNode_frees {fuel : Nat} (hunused : m.Unused) (h : Ready m cs c)
    (hfuel : m.pageNum ≤ fuel + c) :
    ∃ m' l, Memory.memDestroyContextNode fuel m c = some m' ∧ Frees m m' l (cs.PageBelow c) ∧
      ∀ p, p ∈ l ↔ cs.PageBelow c p := by
  have hself := Forest.Below.refl cs.toForest c
  have hc := h.lt_pageNum hunused hself
  induction fuel generalizing m c with
  | zero => omega
  | succ fuel ih =>
    have hdestroy : Destroys cs c m.pageNum (Memory.memDestroyContextNode fuel) := by
      intro s d hpageNum hs hd hready
      obtain ⟨hmem, hparent⟩ := Forest.mem_children.mp hd
      have hlt := (cs.older d hmem c hparent).2
      have hdself := Forest.Below.refl cs.toForest d
      exact ih hs hready (by omega) hdself (hready.lt_pageNum hs hdself)
    have hlength : (cs.children (some c)).length < m.pageNum + 1 :=
      Nat.lt_succ_of_le (length_le_pageNum (cs.children_nodup _) fun d hd =>
        h.lt_pageNum hunused (hself.child hd))
    obtain ⟨pre, tailNode, hpre⟩ :=
      (List.eq_nil_or_concat
        (Node.subList c :: (cs.children (some c)).map Node.memList)).resolve_left
      (List.cons_ne_nil _ _)
    rw [List.concat_eq_append] at hpre
    have htail : m.prev (.subList c) = tailNode := by
      have hring := h.children c hself
      rw [hpre] at hring
      exact hring.last.2
    obtain ⟨m₁, l, hchildren, hfrees, hl⟩ :=
      destroyChildren_frees hunused h hdestroy (List.append_nil _).symm
        (Frees.refl m _) (by simp) hpre hlength
    have hown : ∀ p ∈ cs.pagesOf c, ¬ ∃ d ∈ cs.children (some c), cs.PageBelow d p := by
      rintro p hp ⟨d, hd, hbelow⟩
      exact not_pageBelow_of_child h.mem hd hp hbelow
    have hpages := (h.pages c hself).frees hfrees (fun p hp => (hl p).mp hp) hown
    obtain ⟨m₂, hrelease, hfrees'⟩ :=
      releaseMemContext_frees (hfrees.unused hunused) hpages.record hpages.ring hpages.inUse
    refine ⟨m₂, _, ?_, (hfrees.mono ?_).trans (hfrees'.mono ?_), fun p => ?_⟩
    · have hrecord : m.alive (.subList c) = true := (h.pages c hself).record
      simp only [Memory.memDestroyContextNode, Memory.getPrev_eq hrecord, htail, hchildren,
        Option.bind_eq_bind, Option.bind_some]
      exact hrelease
    · exact fun p hp => pageBelow_iff.mpr (.inr hp)
    · exact fun p hp => pageBelow_iff.mpr (.inl hp)
    · rw [pageBelow_iff, List.mem_append, hl, Contexts.pagesOf]
      simp [or_comm]

end Destroy

/-- `MemMangerDeleteContext` gives back the pages under a context, and the other contexts are
as they were. -/
theorem Represents.deleteContext {m : Memory} {cs : Contexts} (h : Represents m cs) {c : Nat}
    (hc : c ∈ cs.nodes) :
    ∃ m' l, m.memMangerDeleteContext c = some m' ∧ m'.released = m.released ++ l ∧ l.Nodup ∧
      (∀ p, p ∈ l ↔ cs.PageBelow c p) ∧ Represents m' (cs.deleteContext c) := by
  have ho : cs.Held (cs.parent c) := fun d hd => (cs.older c hc d hd).1
  have hlist := lists_contextList ho
  obtain ⟨front, back, hsplit⟩ :=
    List.append_of_mem (Forest.mem_children.mpr ⟨hc, rfl⟩ : c ∈ cs.children (cs.parent c))
  have hold := h.rings.ring _ _ hlist
  have halive := h.alive hlist
  rw [hsplit, List.map_append, List.map_cons] at hold halive
  obtain ⟨next, prev, hdel, hring, hframe⟩ := Memory.delDListNode_ring hold halive
  have hother : ∀ b k, cs.lists b = some k → b ≠ contextList (cs.parent c) → ∀ x ∈ b :: k,
      next x = m.next x ∧ prev x = m.prev x := by
    intro b k hb hne x hx
    refine hframe x fun hmem => hne (h.rings.apart _ _ _ _ x hb hlist hx ?_)
    rwa [hsplit, List.map_append, List.map_cons]
  have hsame {b : Node} {k : List Node} (hb : cs.lists b = some k)
      (hne : b ≠ contextList (cs.parent c)) :
      Ring next prev b (b :: k) :=
    (h.rings.ring b k hb).congr (fun x hx => (hother b k hb hne x hx).1) fun x hx =>
      (hother b k hb hne x hx).2
  have hready : Ready (m.relinked next prev) cs c := by
    refine ⟨hc, fun d hd => ⟨?_, ?_, ?_⟩, fun d hd => ?_⟩
    · exact hsame (lists_pageList (hd.mem hc)) (by cases cs.parent c <;> simp [contextList])
    · exact (h.records d).mpr (hd.mem hc)
    · exact fun p hp => h.inUse (hd.mem hc) hp
    · -- the parent is not under the context
      refine hsame (lists_contextList (held_some.mpr (hd.mem hc))) fun heq => ?_
      have hparent := contextList_inj (o := some d) heq
      exact absurd hd.le (cs.older c hc d hparent.symm).2.not_ge
  have hunused : (m.relinked next prev).Unused := h.unused
  have hfuel : (m.relinked next prev).pageNum ≤ m.pageNum + 1 + c :=
    Nat.le_add_right_of_le (Nat.le_succ _)
  obtain ⟨m', l, hdestroy, hfrees, hl⟩ := memDestroyContextNode_frees hunused hready hfuel
  have hstay {d p : Nat} (hd : d ∈ (cs.deleteContext c).nodes) (hp : p ∈ cs.pagesOf d) :
      ¬ cs.PageBelow c p := by
    obtain ⟨hmem, hbelow⟩ := mem_deleteContext.mp hd
    exact not_pageBelow hc hmem hbelow hp
  have hkept {p : Nat} (hp : ¬ cs.PageBelow c p) : m'.pageInfo p = m.pageInfo p :=
    hfrees.kept p fun hpl => hp ((hl p).mp hpl)
  have hgone {p : Nat} (hp : (m'.pageInfo p).isSome = true) : ¬ cs.PageBelow c p := by
    intro hbelow
    rw [hfrees.gone p ((hl p).mpr hbelow)] at hp
    cases hp
  refine ⟨m', l, ?_, hfrees.released, hfrees.nodup, hl, ?_, ?_, ?_, ?_, ?_⟩
  · rw [Memory.memMangerDeleteContext, hdel, Option.bind_eq_bind, Option.bind_some]
    exact hdestroy
  · exact hfrees.unused hunused
  · have hown : ∀ x ∈ contextList (cs.parent c) :: (front.map .memList ++ back.map .memList),
        ∀ b k, cs.lists b = some k →
        x ∈ b :: k → b = contextList (cs.parent c) := by
      intro x hx b k hb hxb
      refine h.rings.apart b k _ _ x hb hlist hxb ?_
      rw [hsplit, List.map_append, List.map_cons]
      simp only [List.mem_cons, List.mem_append] at hx ⊢
      tauto
    refine (h.rings.set hring hown hother).sub (fun a k ha => lists_deleteContext hsplit ha)
      fun a k ha x hx => ?_
    refine hfrees.links x fun p hp => ?_
    obtain ⟨d, hd, hpd⟩ := home_of_lists ha hx hp
    exact hstay hd hpd
  · intro d
    rw [mem_deleteContext]
    constructor
    · intro hd
      have hpage : ¬ cs.PageBelow c d := by
        refine hgone ?_
        obtain ⟨contextInfo, hbind⟩ := Option.isSome_iff_exists.mp hd
        obtain ⟨info, hinfo, -⟩ := Option.bind_eq_some_iff.mp hbind
        rw [hinfo]
        rfl
      have hsameAlive : m'.alive (.memList d) = m.alive (.memList d) :=
        alive_congr fun p hp => hkept (Option.some.inj hp ▸ hpage)
      exact ⟨(h.records d).mp (hsameAlive ▸ hd),
        fun hbelow => hpage ⟨d, hbelow, cs.mem_pagesOf d⟩⟩
    · intro hd
      have hpage := hstay (mem_deleteContext.mpr hd) (cs.mem_pagesOf d)
      have hsameAlive : m'.alive (.memList d) = m.alive (.memList d) :=
        alive_congr fun p hp => hkept (Option.some.inj hp ▸ hpage)
      exact hsameAlive.trans ((h.records d).mpr hd.1)
  · intro d hd p hp
    obtain ⟨info, hinfo, hhead⟩ := h.pages d (mem_deleteContext.mp hd).1 p hp
    exact ⟨info, (hkept (hstay hd hp)).trans hinfo, hhead⟩
  · intro p hp
    have hpage := hgone hp
    rw [hkept hpage] at hp
    obtain ⟨d, hd, hpd⟩ := h.owned p hp
    exact ⟨d, mem_deleteContext.mpr ⟨hd, fun hbelow => hpage ⟨d, hbelow, hpd⟩⟩, hpd⟩

/-! ## Runs -/

/-- The calls that make contexts and pages, and delete contexts. -/
inductive TreeOp where
  | newContext
  | switchContext (context : Option Nat)
  | allocMem (size : BitVec 32)
  | deleteContext (delContext : Nat)

def TreeOp.op : TreeOp → Op
  | .newContext => .newContext
  | .switchContext context => .switchContext context
  | .allocMem size => .allocMem size
  | .deleteContext delContext => .deleteContext delContext

def treeStep (m : Memory) (op : TreeOp) : Option Memory := step m op.op

section Runs

variable {m m' : Memory} {cs : Contexts} {ops : List TreeOp}

theorem Represents.allocMem (h : Represents m cs) {size : BitVec 32}
    (hstep : m.allocMem size = some m') :
    ∃ cs', Represents m' cs' := by
  rw [Memory.allocMem, Option.bind_eq_bind, Option.bind_eq_some_iff] at hstep
  obtain ⟨⟨m₁, block⟩, halloc, hblocks⟩ := hstep
  obtain ⟨c, info, contextInfo, -, hinfo, hcontext, hcase⟩ :=
    Memory.allocFromMemPool_cases halloc
  have hc := h.mem_nodes hinfo hcontext
  cases hblocks
  cases hcase with
  | oversize next prev _ _ hlink | newPage _ _ next prev _ _ _ _ _ hlink =>
    exact ⟨_, (h.newPage hc hinfo hcontext hlink).withBlocks _ _⟩
  | current p pageInfo _ _ _ hpage =>
    have hhead : (Memory.carvedPage pageInfo p (Memory.blockSize size)).memHead =
        pageInfo.memHead := rfl
    have hrecord : (Memory.carvedPage pageInfo p (Memory.blockSize size)).contextInfo.isSome =
        pageInfo.contextInfo.isSome := by
      rw [Memory.carvedPage, Option.isSome_map]
    exact ⟨cs, (h.setPage hpage hhead hrecord).withBlocks _ _⟩

/-- Each call keeps the lists and pages of the contexts as they should be. -/
theorem Represents.step (hmade : m.WellMade) (h : Represents m cs) {op : TreeOp}
    (hstep : treeStep m op = some m') :
    ∃ cs', Represents m' cs' := by
  cases op with
  | newContext =>
    obtain ⟨current, next, prev, hcurrent, hlink, rfl⟩ :=
      Memory.memMangerNewContext_cases hstep
    have hne : current ≠ m.pageNum := (hmade.current current hcurrent).ne
    have hsame : m.withContext.alive (.subList current) = m.alive (.memList current) :=
      (alive_congr fun p hp => Function.update_of_ne (Option.some.inj hp ▸ hne) ..).trans rfl
    have hheld : cs.Held (some current) :=
      held_some.mpr ((h.records current).mp (hsame ▸ (Memory.addDListTail_keeps hlink).1))
    exact ⟨_, (h.newContext hheld hlink).withBlocks (some m.pageNum) m.blocks⟩
  | switchContext context =>
    rw [treeStep, TreeOp.op, MemPool.step, Option.ite_none_right_eq_some] at hstep
    cases hstep.2
    exact ⟨cs, h.withBlocks _ _⟩
  | allocMem size => exact h.allocMem hstep
  | deleteContext delContext =>
    have hc : delContext ∈ cs.nodes := by
      rw [treeStep, TreeOp.op, MemPool.step, Memory.memMangerDeleteContext,
        Memory.delDListNode, Option.bind_eq_bind,
        Option.bind_eq_bind, Option.bind_eq_some_iff] at hstep
      obtain ⟨m₁, hdel, -⟩ := hstep
      obtain ⟨before, hbefore, -⟩ := Option.bind_eq_some_iff.mp hdel
      exact (h.records delContext).mp (Memory.getPrev_some hbefore).1
    obtain ⟨m₁, l, hdelete, -, -, -, hrep⟩ := h.deleteContext hc
    obtain rfl := Option.some.inj (hdelete.symm.trans hstep)
    exact ⟨_, hrep⟩

theorem run_represents (hrun : Transition.run treeStep Memory.start ops = some m) :
    ∃ cs, Represents m cs := by
  have hkeep {s t : Memory} {op : TreeOp} (h : s.WellMade ∧ ∃ cs, Represents s cs)
      (hstep : treeStep s op = some t) :
      t.WellMade ∧ ∃ cs, Represents t cs := by
    obtain ⟨hmade, cs, hrep⟩ := h
    exact ⟨hmade.step hstep, hrep.step hmade hstep⟩
  exact (Transition.run_invariant_of_step
    (I := fun s => s.WellMade ∧ ∃ cs, Represents s cs) hkeep
    ⟨Memory.start_wellMade, Represents.start⟩ hrun).2

/-- After any calls, deleting a context gives back the pages of the contexts in its tree, each
once, and no others. It reads no page that is gone, and the lists of the other contexts are
without it. -/
theorem deleteContext_exact (hrun : Transition.run treeStep Memory.start ops = some m) :
    ∃ cs, Represents m cs ∧ ∀ c ∈ cs.nodes, ∃ m' l,
      m.memMangerDeleteContext c = some m' ∧ m'.released = m.released ++ l ∧
      l.Nodup ∧ (∀ p, p ∈ l ↔ ∃ d, cs.Below c d ∧ p ∈ cs.pagesOf d) ∧
        Represents m' (cs.deleteContext c) := by
  obtain ⟨cs, hrep⟩ := run_represents hrun
  exact ⟨cs, hrep, fun _ hc => hrep.deleteContext hc⟩

end Runs

/-- Two contexts in one another, of which the inner one has a long block, and another one with
two pages. -/
def contextTree : List TreeOp :=
  [.newContext, .newContext, .allocMem 5000, .switchContext (some 0),
    .newContext, .allocMem 4000]

theorem contextTree_deleted :
    (Transition.run treeStep Memory.start contextTree).isSome = true ∧
      ((Transition.exec treeStep Memory.start contextTree).memMangerDeleteContext 1).map
      (·.released) = some [3, 2, 1] ∧
      ∃ cs, Represents (Transition.exec treeStep Memory.start contextTree) cs ∧
        ∀ c ∈ cs.nodes, ∃ m' l,
        (Transition.exec treeStep Memory.start contextTree).memMangerDeleteContext c =
          some m' ∧
        m'.released = (Transition.exec treeStep Memory.start contextTree).released ++
          l ∧ l.Nodup ∧
        (∀ p, p ∈ l ↔ ∃ d, cs.Below c d ∧ p ∈ cs.pagesOf d) ∧ Represents m'
        (cs.deleteContext c) := by
  have hrun : (Transition.run treeStep Memory.start contextTree).isSome = true := by decide
  exact ⟨hrun, by decide, deleteContext_exact (Transition.run_exec hrun)⟩

end Toadb.MemPool
