/-
Toadb.Mem.MemPoolTheorems — what the calls of the memory pool do.

A list is a ring from its head on (`Ring`): `addDListTail_ring` and
`delDListNode_ring` are what `AddDListTail` and `DelDListNode` do to it, and
which links they leave alone. `allocFromMemPool_cases` says what an allocation
does, `memMangerNewContext_cases` what a new context is, and `Memory.Releases`
what is left of a memory after a release.

No call makes a link to a page that is not made yet (`calls_wellMade`).
-/
import Toadb.Lib.DList
import Toadb.Lib.Regions
import Toadb.Mem.MemStack

namespace Toadb.MemPool

open DList

namespace Memory

/-! ## Lists -/

section Lists

variable {m : Memory} {head node x : Node} {l s : List Node}

theorem getNext_eq (h : m.alive node = true) : m.getNext node = some (m.next node) := if_pos h

theorem getPrev_eq (h : m.alive node = true) : m.getPrev node = some (m.prev node) := if_pos h

/-- The memory with other links. -/
def relinked (m : Memory) (next prev : Node → Node) : Memory :=
  { m with next := next, prev := prev }

@[simp] theorem alive_relinked (next prev : Node → Node) :
    (m.relinked next prev).alive = m.alive := rfl

@[simp] theorem next_relinked (next prev : Node → Node) :
    (m.relinked next prev).next = next := rfl

@[simp] theorem prev_relinked (next prev : Node → Node) :
    (m.relinked next prev).prev = prev := rfl

@[simp] theorem relinked_relinked (next prev next' prev' : Node → Node) :
    (m.relinked next prev).relinked next' prev' = m.relinked next' prev' := rfl

theorem getNext_some (h : m.getNext node = some x) :
    m.alive node = true ∧ m.next node = x := by
  rwa [getNext, Option.ite_none_right_eq_some, Option.some.injEq] at h

theorem getPrev_some (h : m.getPrev node = some x) :
    m.alive node = true ∧ m.prev node = x := by
  rwa [getPrev, Option.ite_none_right_eq_some, Option.some.injEq] at h

theorem setNext_eq (h : m.alive node = true) :
    m.setNext node x = some (m.relinked (Function.update m.next node x) m.prev) := if_pos h

theorem setPrev_eq (h : m.alive node = true) :
    m.setPrev node x = some (m.relinked m.next (Function.update m.prev node x)) := if_pos h

theorem setNext_some {m' : Memory} (h : m.setNext node x = some m') :
    m.alive node = true ∧ m' = m.relinked (Function.update m.next node x) m.prev := by
  rw [setNext, Option.ite_none_right_eq_some] at h
  exact ⟨h.1, (Option.some.inj h.2).symm⟩

theorem setPrev_some {m' : Memory} (h : m.setPrev node x = some m') :
    m.alive node = true ∧ m' = m.relinked m.next (Function.update m.prev node x) := by
  rw [setPrev, Option.ite_none_right_eq_some] at h
  exact ⟨h.1, (Option.some.inj h.2).symm⟩

/-- The links after `AddDListTail`. -/
theorem addDListTail_eq (hhead : m.alive head = true) (hnode : m.alive node = true)
    (htail : m.alive (m.prev head) = true) (hne : head ≠ node) :
    m.addDListTail head node =
      some (m.relinked (Function.update (Function.update m.next node head) (m.prev head) node)
      (Function.update (Function.update m.prev node (m.prev head)) head node)) := by
  simp [addDListTail, setNext_eq, setPrev_eq, getPrev_eq, hhead, hnode, htail, hne]

/-- The links after `DelDListNode`. -/
theorem delDListNode_eq (hnode : m.alive node = true) (hnext : m.alive (m.next node) = true)
    (hprev : m.alive (m.prev node) = true) (hne : m.prev node ≠ node)
    (hne' : m.next node ≠ node) :
    m.delDListNode node =
      some (m.relinked
        (Function.update (Function.update m.next (m.prev node) (m.next node)) node node)
      (Function.update (Function.update m.prev (m.next node) (m.prev node)) node node)) := by
  simp [delDListNode, setNext_eq, setPrev_eq, getPrev_eq, getNext_eq, hnode, hnext,
    hprev, hne, hne'.symm]

theorem addDListTail_some {m' : Memory} (hne : head ≠ node)
    (h : m.addDListTail head node = some m') :
    m' = m.relinked (Function.update (Function.update m.next node head) (m.prev head) node)
      (Function.update (Function.update m.prev node (m.prev head)) head node) := by
  have hrun := h
  simp only [addDListTail, Option.bind_eq_bind, Option.bind_eq_some_iff] at h
  obtain ⟨m₁, h₁, tail, htail, m₂, h₂, tail', htail', m₃, h₃, h₄⟩ := h
  obtain ⟨hnode, rfl⟩ := setNext_some h₁
  obtain ⟨hhead, rfl⟩ := getPrev_some htail
  obtain ⟨-, rfl⟩ := setPrev_some h₂
  obtain ⟨-, rfl⟩ := getPrev_some htail'
  obtain ⟨halive, -⟩ := setNext_some h₃
  simp only [alive_relinked, prev_relinked, Function.update_of_ne hne] at hhead halive
  rw [addDListTail_eq hhead hnode halive hne] at hrun
  exact (Option.some.inj hrun).symm

/-- The links of the other nodes stay, but for the two ends of the list. -/
theorem addDListTail_frame {m' : Memory} (hne : head ≠ node)
    (h : m.addDListTail head node = some m') (hx : x ≠ node) :
    (x ≠ m.prev head → m'.next x = m.next x) ∧ (x ≠ head → m'.prev x = m.prev x) := by
  rw [addDListTail_some hne h]
  constructor
  · intro htail
    rw [next_relinked, Function.update_of_ne htail, Function.update_of_ne hx]
  · intro hhead
    rw [prev_relinked, Function.update_of_ne hhead, Function.update_of_ne hx]

/-- A node is added to a list. -/
theorem addDListTail_ring (hring : Ring m.next m.prev head (head :: l))
    (hnew : node ∉ head :: l)
    (halive : ∀ x ∈ head :: l, m.alive x = true) (hnode : m.alive node = true) :
    ∃ next prev, m.addDListTail head node = some (m.relinked next prev) ∧
      Ring next prev head (head :: (l ++ [node])) ∧
      ∀ x, x ∉ head :: l → x ≠ node → next x = m.next x ∧ prev x = m.prev x := by
  have hhead := List.mem_cons_self (a := head) (l := l)
  have htail := hring.prev_mem hhead
  refine ⟨_, _, addDListTail_eq (halive _ hhead) hnode (halive _ htail)
    (ne_of_mem_of_not_mem hhead hnew),
    hring.append_update hnew, fun x hx hxnode => ⟨?_, ?_⟩⟩
  · rw [Function.update_of_ne (ne_of_mem_of_not_mem htail hx).symm,
      Function.update_of_ne hxnode]
  · rw [Function.update_of_ne (ne_of_mem_of_not_mem hhead hx).symm,
      Function.update_of_ne hxnode]

/-- A node that is not the head is taken out of a list. -/
theorem delDListNode_ring (hring : Ring m.next m.prev head (head :: (l ++ node :: s)))
    (halive : ∀ x ∈ head :: (l ++ node :: s), m.alive x = true) :
    ∃ next prev, m.delDListNode node = some (m.relinked next prev) ∧
      Ring next prev head (head :: (l ++ s)) ∧
      ∀ x, x ∉ head :: (l ++ node :: s) → next x = m.next x ∧ prev x = m.prev x := by
  have hmem : node ∈ head :: (l ++ node :: s) := by simp
  have hnext := hring.next_mem hmem
  have hprev := hring.prev_mem hmem
  obtain ⟨hne, hne'⟩ := hring.not_alone
  refine ⟨_, _, delDListNode_eq (halive _ hmem) (halive _ hnext) (halive _ hprev) hne hne',
    hring.erase_update,
    fun x hx => ⟨?_, ?_⟩⟩
  · rw [Function.update_of_ne (ne_of_mem_of_not_mem hmem hx).symm,
      Function.update_of_ne (ne_of_mem_of_not_mem hprev hx).symm]
  · rw [Function.update_of_ne (ne_of_mem_of_not_mem hmem hx).symm,
      Function.update_of_ne (ne_of_mem_of_not_mem hnext hx).symm]

end Lists

/-! ## Pages -/

section Pages

variable {m m' : Memory} {c p : Nat} {info : MemPageInfo} {size : Nat}
  {isSwitchCurrent : Bool}

/-- The links are all that `AddDListTail` changes. -/
theorem addDListTail_keeps {head node : Node} (h : m.addDListTail head node = some m') :
    m.alive head = true ∧ ∃ next prev, m' = m.relinked next prev := by
  simp only [addDListTail, Option.bind_eq_bind, Option.bind_eq_some_iff] at h
  obtain ⟨m₁, h₁, _, _, m₂, h₂, _, _, m₃, h₃, h₄⟩ := h
  obtain ⟨-, rfl⟩ := setNext_some h₁
  obtain ⟨-, rfl⟩ := setPrev_some h₂
  obtain ⟨-, rfl⟩ := setNext_some h₃
  obtain ⟨hhead, rfl⟩ := setPrev_some h₄
  exact ⟨hhead, _, _, rfl⟩

/-- A new page of a context. -/
def newPageInfo (c : Nat) (size : Nat) : MemPageInfo :=
  ⟨some c, size, memPageInfoLen, memPageInfoLen, none⟩

/-- The pages when a context gets a new one. -/
def addedPages (m : Memory) (c : Nat) (info : MemPageInfo) (size : Nat)
    (isSwitchCurrent : Bool) :
    Nat → Option MemPageInfo :=
  Function.update (if isSwitchCurrent then
      Function.update m.pageInfo c (some { info with contextInfo := some ⟨some m.pageNum⟩ })
    else m.pageInfo) m.pageNum (some (newPageInfo c size))

/-- The memory with a new page. -/
def withPage (m : Memory) (pageInfo : Nat → Option MemPageInfo)
    (next prev : Node → Node) : Memory :=
  { m with next := next, prev := prev, pageInfo := pageInfo, pageNum := m.pageNum + 1 }

theorem pageInfo_initMemPage (m : Memory) (size : Nat) : (m.initMemPage size).1.pageInfo =
    Function.update m.pageInfo m.pageNum
      (some ⟨none, size, memPageInfoLen, memPageInfoLen, none⟩) := rfl

/-- What is in use stays in use when a page is made. -/
theorem alive_initMemPage {x : Node} (hunused : m.pageInfo m.pageNum = none)
    (h : m.alive x = true) :
    (m.initMemPage size).1.alive x = true := by
  have hkept : ∀ p, (m.pageInfo p).isSome = true →
      (m.initMemPage size).1.pageInfo p = m.pageInfo p := by
    intro p hp
    refine Function.update_of_ne ?_ ..
    rintro rfl
    rw [hunused] at hp
    cases hp
  cases x with
  | null => cases h
  | memListHead => rfl
  | page p => rwa [alive, hkept p h]
  | memList c | subList c | pageList c =>
    have hc : (m.pageInfo c).isSome = true := by
      rw [alive] at h
      cases hinfo : m.pageInfo c with
      | none => rw [hinfo] at h; cases h
      | some info => rfl
    rwa [alive, hkept c hc]

/-- The links after a new page is linked in. -/
def LinksPage (m : Memory) (c size : Nat) (next prev : Node → Node) : Prop :=
  (m.initMemPage size).1.addDListTail (.pageList c) (.page m.pageNum) =
    some ((m.initMemPage size).1.relinked next prev)

/-- `AddMemPageToContext` of a new page, once it is linked in. -/
theorem addMemPageToContext_eq {next prev : Node → Node} {contextInfo : MemPoolContextInfo}
    (hlink : m.LinksPage c size next prev) (hne : c ≠ m.pageNum)
    (hinfo : m.pageInfo c = some info) (hcontext : info.contextInfo = some contextInfo) :
    (m.initMemPage size).1.addMemPageToContext m.pageNum c isSwitchCurrent =
      some (m.withPage (m.addedPages c info size isSwitchCurrent) next prev) := by
  have hc : ((m.initMemPage size).1.relinked next prev).pageInfo c = some info :=
    (Function.update_of_ne hne ..).trans hinfo
  rw [LinksPage] at hlink
  rw [addMemPageToContext, hlink, Option.bind_eq_bind, Option.bind_some]
  cases isSwitchCurrent with
  | false =>
    have hp : ((m.initMemPage size).1.relinked next prev).pageInfo m.pageNum =
        some ⟨none, size, memPageInfoLen, memPageInfoLen, none⟩ := Function.update_self ..
    simp only [Bool.false_eq_true, if_false, Option.bind_some, hp,
      Option.bind_eq_bind, Option.pure_def]
    simp only [setPage, relinked, withPage, addedPages, newPageInfo, initMemPage,
      initDListNode, Bool.false_eq_true,
      if_false]
    rw [Function.update_idem]
  | true =>
    have hp : (((m.initMemPage size).1.relinked next prev).setPage c
        { info with contextInfo := some ⟨some m.pageNum⟩ }).pageInfo m.pageNum =
        some ⟨none, size, memPageInfoLen, memPageInfoLen, none⟩ :=
      (Function.update_of_ne hne.symm ..).trans (Function.update_self ..)
    simp only [if_true, setCurrUsePage, hc, Option.bind_eq_bind, Option.bind_some, hcontext,
      hp, Option.pure_def]
    simp only [setPage, relinked, withPage, addedPages, newPageInfo, initMemPage,
      initDListNode, if_true]
    rw [Function.update_comm hne.symm, Function.update_idem]

/-- What a new page of a context is when it is made. -/
theorem addMemPageToContext_cases
    (h : (m.initMemPage size).1.addMemPageToContext m.pageNum c isSwitchCurrent = some m') :
    c ≠ m.pageNum ∧ ∃ info contextInfo next prev,
      m.pageInfo c = some info ∧ info.contextInfo = some contextInfo ∧
      m.LinksPage c size next prev ∧ m' =
        m.withPage (m.addedPages c info size isSwitchCurrent) next prev := by
  have hrun := h
  rw [addMemPageToContext, Option.bind_eq_bind, Option.bind_eq_some_iff] at h
  obtain ⟨m₁, hlink, -⟩ := h
  obtain ⟨halive, next, prev, rfl⟩ := addDListTail_keeps hlink
  rw [alive, pageInfo_initMemPage] at halive
  have hne : c ≠ m.pageNum := by
    rintro rfl
    rw [Function.update_self] at halive
    cases halive
  rw [Function.update_of_ne hne, Option.isSome_iff_exists] at halive
  obtain ⟨contextInfo, hbind⟩ := halive
  obtain ⟨info, hinfo, hcontext⟩ := Option.bind_eq_some_iff.mp hbind
  rw [addMemPageToContext_eq hlink hne hinfo hcontext] at hrun
  exact ⟨hne, info, contextInfo, next, prev, hinfo, hcontext, hlink,
    (Option.some.inj hrun).symm⟩

/-- A page with another block. -/
def carvedPage (info : MemPageInfo) (p size : Nat) : MemPageInfo :=
  { info with
    useOffset := (info.useOffset + size) % 2 ^ 32
    contextInfo := info.contextInfo.map (MemPoolContextInfo.writeOver · p info.useOffset) }

theorem allocFromMemPage_some {block : MemBlock} (hinfo : m.pageInfo p = some info)
    (h : m.allocFromMemPage p size = some (m', block)) :
    info.useOffset + memBlockHeaderSize ≤ info.memPageSize ∧
      m' = m.setPage p (carvedPage info p size) ∧
      block = ⟨p, info.useOffset, size, p⟩ := by
  rw [allocFromMemPage, hinfo, Option.bind_eq_bind, Option.bind_some] at h
  by_cases hfit : info.memPageSize < info.useOffset + memBlockHeaderSize
  · simp only [hfit, if_true] at h
    cases h
  · simp only [hfit, if_false] at h
    cases h
    exact ⟨Nat.not_lt.mp hfit, rfl, rfl⟩

/-- A new page is at the end of the list of its context. -/
theorem LinksPage.ring {next prev : Node → Node} {l : List Node}
    (h : m.LinksPage c size next prev)
    (hring : Ring m.next m.prev (.pageList c) (.pageList c :: l))
    (halive : ∀ x ∈ Node.pageList c :: l, m.alive x = true)
    (hunused : m.pageInfo m.pageNum = none) :
    Ring next prev (.pageList c) (.pageList c :: (l ++ [.page m.pageNum])) ∧
      ∀ x, x ∉ Node.pageList c :: l → x ≠ .page m.pageNum →
        next x = m.next x ∧ prev x = m.prev x := by
  have hnew : Node.page m.pageNum ∉ Node.pageList c :: l := by
    intro hmem
    have hdead := halive _ hmem
    rw [alive, hunused] at hdead
    cases hdead
  have hsame : ∀ x, x ≠ .page m.pageNum →
      (m.initMemPage size).1.next x = m.next x ∧ (m.initMemPage size).1.prev x = m.prev x :=
        fun x hx =>
    ⟨Function.update_of_ne hx .., Function.update_of_ne hx ..⟩
  have hother : ∀ x ∈ Node.pageList c :: l, x ≠ .page m.pageNum :=
    fun x hx => ne_of_mem_of_not_mem hx hnew
  have hkept : ∀ x ∈ Node.pageList c :: l, (m.initMemPage size).1.alive x = true := by
    intro x hx
    exact alive_initMemPage hunused (halive x hx)
  obtain ⟨next', prev', hlink, hring', hframe⟩ := addDListTail_ring
    (hring.congr (fun x hx => (hsame x (hother x hx)).1) fun x hx =>
      (hsame x (hother x hx)).2) hnew hkept
    (by rw [alive, pageInfo_initMemPage, Function.update_self]; rfl)
  have heq := Option.some.inj (h.symm.trans hlink)
  obtain rfl : next = next' := congrArg Memory.next heq
  obtain rfl : prev = prev' := congrArg Memory.prev heq
  refine ⟨hring', fun x hx hxnew => ?_⟩
  obtain ⟨hnext, hprev⟩ := hframe x hx hxnew
  exact ⟨hnext.trans (hsame x hxnew).1, hprev.trans (hsame x hxnew).2⟩

end Pages

/-! ## Contexts -/

section Contexts

variable {m m' : Memory} {c : Nat}

/-- The page of a new context. -/
def newContextPage (c : Nat) : MemPageInfo :=
  ⟨some c, memoryPoolPageSize, memPageInfoLen + memPoolContextInfoSize,
    memPageInfoLen, some ⟨some c⟩⟩

/-- The links of a new context, in both directions. -/
def contextLinks (links : Node → Node) (c : Nat) : Node → Node :=
  Function.update (Function.update
    (Function.update (Function.update links (.page c) (.pageList c)) (.pageList c) (.page c))
    (.memList c) (.memList c)) (.subList c) (.subList c)

/-- The memory with a new context. -/
def withContext (m : Memory) : Memory :=
  m.withPage (Function.update m.pageInfo m.pageNum (some (newContextPage m.pageNum)))
    (contextLinks m.next m.pageNum)
    (contextLinks m.prev m.pageNum)

/-- A new context has one page, no children and no parent yet. -/
theorem newMMContext_eq (m : Memory) : m.newMMContext = some (m.withContext, m.pageNum) := by
  have hlinks (links : Node → Node) (p : Nat) :
      Function.update (Function.update (Function.update
      (Function.update links (.page p) (.page p)) (.pageList p) (.pageList p)) (.page p)
        (.pageList p)) (.pageList p) (.page p) =
      Function.update (Function.update links (.page p) (.pageList p))
        (.pageList p) (.page p) := by
    rw [Function.update_comm (by simp : Node.pageList p ≠ .page p), Function.update_idem,
      Function.update_idem]
  simp [newMMContext, newPoolMemContext, initMemPage, allocFromMemPage, setPage,
    initDListNode, initializePoolContext,
    memoryPoolPageSize, memPageInfoLen, memBlockHeaderSize, addMemPageToContext, addDListTail,
      setNext, setPrev, getPrev, alive,
    setCurrUsePage, hlinks, withContext, withPage, contextLinks, newContextPage,
      memPoolContextInfoSize]

theorem memMangerNewContext_cases (h : m.memMangerNewContext = some m') :
    ∃ current next prev, m.current = some current ∧
    m.withContext.addDListTail (.subList current) (.memList m.pageNum) =
      some (m.withContext.relinked next prev) ∧
    m' = { m.withContext.relinked next prev with current := some m.pageNum } := by
  simp only [memMangerNewContext, newMMContext_eq, Option.bind_eq_bind, Option.bind_some,
    Option.bind_eq_some_iff] at h
  obtain ⟨current, hcurrent, m₁, hlink, h⟩ := h
  obtain ⟨-, next, prev, rfl⟩ := addDListTail_keeps hlink
  exact ⟨current, next, prev, hcurrent, hlink, (Option.some.inj h).symm⟩

/-- The memory that the first context is made in. -/
def noContext : Memory := empty.initDListNode .memListHead

theorem start_eq : ∃ next prev,
    { noContext.withContext with current := some 0 }.addDListTail .memListHead
    (.memList 0) = some start ∧
    start = { noContext.withContext.relinked next prev with current := some 0 } := by
  have h := memMangerInit_eq
  rw [memMangerInit, newMMContext_eq, Option.bind_eq_bind, Option.bind_some] at h
  obtain ⟨-, next, prev, heq⟩ := addDListTail_keeps h
  exact ⟨next, prev, h, heq⟩

end Contexts

/-! ## Blocks -/

section Blocks

variable {m m' : Memory} {c : Nat} {info : MemPageInfo}
  {contextInfo : MemPoolContextInfo} {size : BitVec 32}
  {block : MemBlock}

/-- The size of a block with its header. -/
def blockSize (size : BitVec 32) : Nat := (size + BitVec.ofNat 32 memBlockHeaderSize).toNat

/-- The size of the page for a block that is too long for a usual one. -/
def oversizePageSize (size : BitVec 32) : Nat :=
  (alignSize (size + BitVec.ofNat 32 memBlockHeaderSize)).toNat

/-- The memory with a new page that has a block. -/
def withCarved (m : Memory) (c : Nat) (info : MemPageInfo) (pageSize size : Nat)
    (isSwitchCurrent : Bool) (next prev : Node → Node) : Memory :=
  (m.withPage (m.addedPages c info pageSize isSwitchCurrent) next prev).setPage m.pageNum
    (carvedPage (newPageInfo c pageSize) m.pageNum size)

/-- What `AllocFromMemPool` can do in a context: an own page for the block, a block of the
current page, or a block of a new one. -/
inductive Allocates (m : Memory) (c : Nat) (info : MemPageInfo)
    (contextInfo : MemPoolContextInfo) (size : BitVec 32) : Memory → MemBlock → Prop
  | oversize (next prev : Node → Node) (hsize : memoryPoolMinAllocSize ≤ blockSize size)
      (halign : oversizePageSize size < 2 ^ 31)
        (hlink : m.LinksPage c (oversizePageSize size) next prev) :
      Allocates m c info contextInfo size
        (m.withCarved c info (oversizePageSize size) (blockSize size) false next prev)
        ⟨m.pageNum, memPageInfoLen, blockSize size, m.pageNum⟩
  | current (p : Nat) (pageInfo : MemPageInfo)
      (hsize : blockSize size < memoryPoolMinAllocSize)
      (hpos : 0 < blockSize size) (hcurr : contextInfo.currUsePage = some p)
        (hinfo : m.pageInfo p = some pageInfo)
      (hroom : pageInfo.useOffset + blockSize size ≤ pageInfo.memPageSize) :
      Allocates m c info contextInfo size
        (m.setPage p (carvedPage pageInfo p (blockSize size)))
        ⟨p, pageInfo.useOffset, blockSize size, p⟩
  | newPage (p : Nat) (pageInfo : MemPageInfo) (next prev : Node → Node)
      (hsize : blockSize size < memoryPoolMinAllocSize) (hpos : 0 < blockSize size)
      (hcurr : contextInfo.currUsePage = some p) (hinfo : m.pageInfo p = some pageInfo)
      (hroom : pageInfo.memPageSize < pageInfo.useOffset + blockSize size)
      (hlink : m.LinksPage c memoryPoolPageSize next prev) :
      Allocates m c info contextInfo size
        (m.withCarved c info memoryPoolPageSize (blockSize size) true next prev)
        ⟨m.pageNum, memPageInfoLen, blockSize size, m.pageNum⟩

theorem addedPages_new (m : Memory) (c : Nat) (info : MemPageInfo) (size : Nat)
    (isSwitchCurrent : Bool) :
    m.addedPages c info size isSwitchCurrent m.pageNum = some (newPageInfo c size) :=
  Function.update_self ..

/-- The context after it got a new current page. -/
theorem addedPages_context {size : Nat} (hne : c ≠ m.pageNum) :
    m.addedPages c info size true c =
      some { info with contextInfo := some ⟨some m.pageNum⟩ } := by
  rw [addedPages, Function.update_of_ne hne, if_pos rfl, Function.update_self]

/-- `AllocFromMemContext` looks at the current page of the context. -/
theorem allocFromMemContext_cases {n : Nat} {result : Option (Memory × MemBlock)} (hn : 0 < n)
    (h : m.allocFromMemContext n c = some result) :
    ∃ info contextInfo p pageInfo, m.pageInfo c = some info ∧
      info.contextInfo = some contextInfo ∧
      contextInfo.currUsePage = some p ∧ m.pageInfo p = some pageInfo ∧
      (pageInfo.useOffset + n ≤ pageInfo.memPageSize ∧ m.allocFromMemPage p n = result ∧
        result.isSome = true ∨
        pageInfo.memPageSize < pageInfo.useOffset + n ∧ result = none) := by
  rw [allocFromMemContext, if_neg (Nat.ne_of_gt hn)] at h
  simp only [Option.bind_eq_bind, Option.bind_eq_some_iff] at h
  obtain ⟨info, hinfo, contextInfo, hcontext, p, hcurr, pageInfo, hpage, h⟩ := h
  refine ⟨info, contextInfo, p, pageInfo, hinfo, hcontext, hcurr, hpage, ?_⟩
  by_cases hroom : pageInfo.useOffset + n ≤ pageInfo.memPageSize
  · rw [if_pos hroom, Option.bind_eq_some_iff] at h
    obtain ⟨mem, halloc, hmem⟩ := h
    cases hmem
    exact .inl ⟨hroom, halloc, rfl⟩
  · rw [if_neg hroom] at h
    cases h
    exact .inr ⟨Nat.not_le.mp hroom, rfl⟩

theorem allocFromMemContext_pos {n : Nat} {mem : Memory × MemBlock}
    (h : m.allocFromMemContext n c = some (some mem)) :
    0 < n := by
  refine Nat.pos_of_ne_zero fun hn => ?_
  rw [allocFromMemContext, if_pos hn] at h
  cases h

theorem allocFromMemPool_cases (h : m.allocFromMemPool size = some (m', block)) :
    ∃ c info contextInfo, m.current = some c ∧ m.pageInfo c = some info ∧
      info.contextInfo = some contextInfo ∧
      m.Allocates c info contextInfo size m' block := by
  rw [allocFromMemPool, Option.bind_eq_bind, Option.bind_eq_some_iff] at h
  obtain ⟨c, hcurrent, h⟩ := h
  by_cases hsize : memoryPoolMinAllocSize ≤ blockSize size
  · have hover : memoryPoolMinAllocSize ≤
        (size + BitVec.ofNat 32 memBlockHeaderSize).toNat := hsize
    simp only [hover, if_true] at h
    by_cases halign : 2 ^ 31 ≤ (alignSize (size + BitVec.ofNat 32 memBlockHeaderSize)).toNat
    · rw [if_pos halign] at h
      cases h
    · rw [if_neg halign, Option.bind_eq_bind, Option.bind_eq_some_iff] at h
      obtain ⟨m₁, hadd, halloc⟩ := h
      obtain ⟨hne, info, contextInfo, next, prev, hinfo, hcontext, hlink, rfl⟩ :=
        addMemPageToContext_cases hadd
      obtain ⟨-, rfl, rfl⟩ := allocFromMemPage_some (addedPages_new ..) halloc
      exact ⟨c, info, contextInfo, hcurrent, hinfo, hcontext,
        .oversize next prev hsize (Nat.not_le.mp halign) hlink⟩
  · have hsmall : ¬ memoryPoolMinAllocSize ≤
        (size + BitVec.ofNat 32 memBlockHeaderSize).toNat := hsize
    simp only [hsmall, if_false, Option.bind_eq_some_iff, Option.bind_eq_bind] at h
    obtain ⟨result, hfirst, h⟩ := h
    cases result with
    | some mem =>
      cases h
      have hpos := allocFromMemContext_pos hfirst
      obtain ⟨info, contextInfo, p, pageInfo, hinfo, hcontext, hcurr, hpage, hcase⟩ :=
        allocFromMemContext_cases hpos hfirst
      rcases hcase with ⟨hroom, halloc, -⟩ | ⟨-, hnone⟩
      · obtain ⟨-, rfl, rfl⟩ := allocFromMemPage_some hpage halloc
        exact ⟨c, info, contextInfo, hcurrent, hinfo, hcontext,
          .current p pageInfo (Nat.not_le.mp hsize) hpos hcurr hpage hroom⟩
      · cases hnone
    | none =>
      obtain ⟨m₁, hadd, h⟩ := Option.bind_eq_some_iff.mp h
      obtain ⟨second, hsecond, rfl⟩ := Option.bind_eq_some_iff.mp h
      have hpos := allocFromMemContext_pos hsecond
      obtain ⟨info, contextInfo, p, pageInfo, hinfo, hcontext, hcurr, hpage, hcase⟩ :=
        allocFromMemContext_cases hpos hfirst
      have hfull : pageInfo.memPageSize < pageInfo.useOffset + blockSize size := by
        rcases hcase with ⟨-, -, hsome⟩ | ⟨hfull, -⟩
        · cases hsome
        · exact hfull
      obtain ⟨hne, info', contextInfo', next, prev, hinfo', -, hlink, rfl⟩ :=
        addMemPageToContext_cases hadd
      obtain rfl := Option.some.inj (hinfo.symm.trans hinfo')
      obtain ⟨info', contextInfo', p', pageInfo', hinfo', hcontext',
          hcurr', hpage', hcase'⟩ :=
        allocFromMemContext_cases hpos hsecond
      obtain rfl := Option.some.inj ((addedPages_context hne).symm.trans hinfo')
      cases hcontext'
      cases hcurr'
      obtain rfl := Option.some.inj ((addedPages_new ..).symm.trans hpage')
      rcases hcase' with ⟨-, halloc, -⟩ | ⟨-, hnone⟩
      · obtain ⟨-, rfl, rfl⟩ := allocFromMemPage_some (addedPages_new ..) halloc
        exact ⟨c, info, contextInfo, hcurrent, hinfo, hcontext,
          .newPage p pageInfo next prev (Nat.not_le.mp hsize) hpos hcurr hpage hfull hlink⟩
      · cases hnone

section Carved

variable {pageSize n : Nat} {isSwitchCurrent : Bool} {next prev : Node → Node} {p : Nat}

theorem withCarved_new :
    (m.withCarved c info pageSize n isSwitchCurrent next prev).pageInfo m.pageNum =
    some (carvedPage (newPageInfo c pageSize) m.pageNum n) := Function.update_self ..

/-- Another page is what it was, but for the current page in the record. -/
theorem withCarved_old (hp : p ≠ m.pageNum) :
    (m.withCarved c info pageSize n isSwitchCurrent next prev).pageInfo p =
      if isSwitchCurrent = true ∧ p = c then
        some { info with contextInfo := some ⟨some m.pageNum⟩ } else m.pageInfo p := by
  have hold : (m.withCarved c info pageSize n isSwitchCurrent next prev).pageInfo p =
      (if isSwitchCurrent then
        Function.update m.pageInfo c (some { info with contextInfo := some ⟨some m.pageNum⟩ })
        else m.pageInfo) p :=
    (Function.update_of_ne hp ..).trans (Function.update_of_ne hp ..)
  rw [hold]
  cases isSwitchCurrent with
  | false => simp
  | true =>
    by_cases hc : p = c
    · simp [hc]
    · simp [hc]

end Carved

end Blocks

/-! ## Pages that are not made yet -/

section Unused

variable {m m' m'' : Memory} {p c : Nat}

/-- Pages are named one after the other. -/
def Unused (m : Memory) : Prop := ∀ p, m.pageNum ≤ p → m.pageInfo p = none

theorem Unused.lt (h : m.Unused) {info : MemPageInfo}
    (hp : m.pageInfo p = some info) : p < m.pageNum := by
  refine Nat.lt_of_not_le fun hle => ?_
  rw [h p hle] at hp
  cases hp

theorem Unused.set (h : m.Unused) {info : MemPageInfo} (hp : m.pageInfo p = some info)
    (info' : MemPageInfo) :
    (m.setPage p info').Unused := by
  intro q hq
  have hne : q ≠ p := ((h.lt hp).trans_le hq).ne'
  exact (Function.update_of_ne hne ..).trans (h q hq)

theorem Unused.withCarved (h : m.Unused) {info : MemPageInfo}
    (hc : m.pageInfo c = some info) (pageSize n : Nat)
    (isSwitchCurrent : Bool) (next prev : Node → Node) :
    (m.withCarved c info pageSize n isSwitchCurrent next prev).Unused := by
  intro q hq
  have hlt := h.lt hc
  change m.pageNum + 1 ≤ q at hq
  have hne : q ≠ m.pageNum := by omega
  have hother : ¬ (isSwitchCurrent = true ∧ q = c) := by
    rintro ⟨-, rfl⟩
    omega
  rw [withCarved_old hne, if_neg hother]
  exact h q (by omega)

theorem Unused.allocMem (h : m.Unused) {size : BitVec 32}
    (hstep : m.allocMem size = some m') : m'.Unused := by
  rw [Memory.allocMem, Option.bind_eq_bind, Option.bind_eq_some_iff] at hstep
  obtain ⟨⟨m₁, block⟩, halloc, hblocks⟩ := hstep
  obtain ⟨c, info, contextInfo, -, hinfo, -, hcase⟩ := allocFromMemPool_cases halloc
  cases hblocks
  cases hcase with
  | oversize next prev => exact h.withCarved hinfo _ _ false next prev
  | current p pageInfo _ _ _ hpage => exact h.set hpage _
  | newPage p pageInfo next prev => exact h.withCarved hinfo _ _ true next prev

/-- The node is in one of the first pages, if in any. -/
def Made (pageNum : Nat) : Node → Prop
  | .null | .memListHead => True
  | .page p | .memList p | .subList p | .pageList p => p < pageNum

theorem Unused.made (h : m.Unused) {x : Node} (hx : m.alive x = true) : Made m.pageNum x := by
  cases x with
  | null | memListHead => trivial
  | page p =>
    obtain ⟨info, hinfo⟩ := Option.isSome_iff_exists.mp hx
    exact h.lt hinfo
  | memList c | subList c | pageList c =>
    obtain ⟨contextInfo, hbind⟩ := Option.isSome_iff_exists.mp hx
    obtain ⟨info, hinfo, -⟩ := Option.bind_eq_some_iff.mp hbind
    exact h.lt hinfo

/-- The links of a node are to nodes that were made, or NULL. -/
def LinksMade (m : Memory) : Prop :=
  ∀ x, Made m.pageNum (m.next x) ∧ Made m.pageNum (m.prev x)

/-- A link that is set to a node that was made. -/
theorem LinksMade.setNext (h : m.LinksMade) {node value : Node}
    (hvalue : Made m.pageNum value) (hset : m.setNext node value = some m') :
    ∃ next prev, m' = m.relinked next prev ∧ (m.relinked next prev).LinksMade := by
  refine ⟨_, _, (setNext_some hset).2, fun x => ⟨?_, (h x).2⟩⟩
  by_cases hx : x = node
  · rw [next_relinked, hx, Function.update_self]
    exact hvalue
  · rw [next_relinked, Function.update_of_ne hx]
    exact (h x).1

theorem LinksMade.setPrev (h : m.LinksMade) {node value : Node}
    (hvalue : Made m.pageNum value) (hset : m.setPrev node value = some m') :
    ∃ next prev, m' = m.relinked next prev ∧ (m.relinked next prev).LinksMade := by
  refine ⟨_, _, (setPrev_some hset).2, fun x => ⟨(h x).1, ?_⟩⟩
  by_cases hx : x = node
  · rw [prev_relinked, hx, Function.update_self]
    exact hvalue
  · rw [prev_relinked, Function.update_of_ne hx]
    exact (h x).2

theorem LinksMade.addDListTail (h : m.LinksMade) (hunused : m.Unused) {head node : Node}
    (hnode : Made m.pageNum node)
    (hstep : m.addDListTail head node = some m') : m'.LinksMade := by
  have hhead := hunused.made (addDListTail_keeps hstep).1
  simp only [Memory.addDListTail, Option.bind_eq_bind, Option.bind_eq_some_iff] at hstep
  obtain ⟨m₁, h₁, tail, htail, m₂, h₂, tail', htail', m₃, h₃, h₄⟩ := hstep
  obtain ⟨_, _, rfl, hl₁⟩ := h.setNext hhead h₁
  obtain ⟨_, rfl⟩ := getPrev_some htail
  obtain ⟨_, _, rfl, hl₂⟩ := hl₁.setPrev (hl₁ head).2 h₂
  obtain ⟨_, _, rfl, hl₃⟩ := hl₂.setNext hnode h₃
  obtain ⟨_, _, rfl, hl₄⟩ := hl₃.setPrev hnode h₄
  exact hl₄

theorem LinksMade.delDListNode (h : m.LinksMade) (hunused : m.Unused) {node : Node}
    (hstep : m.delDListNode node = some m') : m'.LinksMade := by
  rw [Memory.delDListNode, Option.bind_eq_bind, Option.bind_eq_some_iff] at hstep
  obtain ⟨before, hbefore, hstep⟩ := hstep
  have hnode := hunused.made (getPrev_some hbefore).1
  split at hstep
  case isTrue =>
    cases hstep
    exact h
  case isFalse =>
    simp only [Option.bind_eq_bind, Option.bind_eq_some_iff] at hstep
    obtain ⟨x₁, hx₁, x₂, hx₂, m₁, h₁, x₃, hx₃, x₄, hx₄, m₂, h₂, m₃, h₃, h₄⟩ := hstep
    obtain ⟨_, rfl⟩ := getPrev_some hx₂
    obtain ⟨_, _, rfl, hl₁⟩ := h.setPrev (h node).2 h₁
    obtain ⟨_, rfl⟩ := getNext_some hx₄
    obtain ⟨_, _, rfl, hl₂⟩ := hl₁.setNext (hl₁ node).1 h₂
    obtain ⟨_, _, rfl, hl₃⟩ := hl₂.setPrev hnode h₃
    obtain ⟨_, _, rfl, hl₄⟩ := hl₃.setNext hnode h₄
    exact hl₄

/-- Pages are given back only, and no link is set to a page that was not made. -/
structure Releases (m m' : Memory) : Prop where
  pageNum : m'.pageNum = m.pageNum
  current : m'.current = m.current
  pages : ∀ p info, m'.pageInfo p = some info → m.pageInfo p = some info
  links : m.Unused → m.LinksMade → m'.LinksMade

theorem Releases.refl (m : Memory) : m.Releases m := ⟨rfl, rfl, fun _ _ => id, fun _ => id⟩

theorem Unused.releases (h : m.Unused) (hrel : m.Releases m') : m'.Unused := by
  intro p hp
  rw [Option.eq_none_iff_forall_ne_some]
  intro info hinfo
  have hlt := h.lt (hrel.pages p info hinfo)
  rw [← hrel.pageNum] at hlt
  exact absurd hp (Nat.not_le.mpr hlt)

theorem Releases.trans (h : m.Releases m') (h' : m'.Releases m'') : m.Releases m'' where
  pageNum := h'.pageNum.trans h.pageNum
  current := h'.current.trans h.current
  pages p info hp := h.pages p info (h'.pages p info hp)
  links hunused hlinks := h'.links (hunused.releases h) (h.links hunused hlinks)

/-- The links are all that `DelDListNode` changes. -/
theorem delDListNode_keeps {node : Node} (h : m.delDListNode node = some m') :
    ∃ next prev, m' = m.relinked next prev := by
  rw [delDListNode, Option.bind_eq_bind, Option.bind_eq_some_iff] at h
  obtain ⟨before, -, h⟩ := h
  by_cases hsame : before = node
  · rw [if_pos hsame] at h
    cases h
    exact ⟨m.next, m.prev, rfl⟩
  · rw [if_neg hsame] at h
    simp only [Option.bind_eq_bind, Option.bind_eq_some_iff] at h
    obtain ⟨_, _, _, _, m₁, h₁, _, _, _, _, m₂, h₂, m₃, h₃, h₄⟩ := h
    obtain ⟨-, rfl⟩ := setPrev_some h₁
    obtain ⟨-, rfl⟩ := setNext_some h₂
    obtain ⟨-, rfl⟩ := setPrev_some h₃
    obtain ⟨-, rfl⟩ := setNext_some h₄
    exact ⟨_, _, rfl⟩

theorem releases_delDListNode {node : Node}
    (h : m.delDListNode node = some m') : m.Releases m' := by
  have hkeep := fun hunused hlinks => LinksMade.delDListNode hlinks hunused h
  obtain ⟨next, prev, rfl⟩ := delDListNode_keeps h
  exact ⟨rfl, rfl, fun _ _ => id, hkeep⟩

theorem releases_releaseMemPage (h : m.releaseMemPage p = some m') : m.Releases m' := by
  rw [releaseMemPage] at h
  split at h
  case h_1 => cases h
  case h_2 =>
    cases h
    refine ⟨rfl, rfl, fun q info hq => ?_, fun _ => id⟩
    by_cases hqp : q = p
    · rw [hqp] at hq
      cases (Function.update_self ..).symm.trans hq
    · exact (Function.update_of_ne hqp ..).symm.trans hq

theorem releases_releasePages {fuel : Nat} {owner preNode : Node}
    (h : releasePages fuel m owner preNode = some m') :
    m.Releases m' := by
  induction fuel generalizing m preNode with
  | zero => cases h
  | succ fuel ih =>
    unfold releasePages at h
    split at h
    case isTrue =>
      cases h
      exact Releases.refl _
    case isFalse =>
      split at h
      case h_1 =>
        simp only [Option.bind_eq_bind, Option.bind_eq_some_iff] at h
        obtain ⟨_, -, m₁, hdel, m₂, hrel, h⟩ := h
        exact ((releases_delDListNode hdel).trans (releases_releaseMemPage hrel)).trans (ih h)
      case h_2 =>
        cases h
        exact Releases.refl _
      case h_3 => cases h

theorem releases_releaseMemContext (h : m.releaseMemContext c = some m') : m.Releases m' := by
  simp only [releaseMemContext, Option.bind_eq_bind, Option.bind_eq_some_iff] at h
  obtain ⟨_, -, owner, -, m₁, hpages, h⟩ := h
  cases owner with
  | page p => exact (releases_releasePages hpages).trans (releases_releaseMemPage h)
  | null | memListHead | memList c | subList c | pageList c => cases h

theorem releases_destroyChildren {destroy : Memory → Nat → Option Memory}
    (hdestroy : ∀ {m m' : Memory} {c : Nat}, destroy m c = some m' → m.Releases m')
    {fuel : Nat} {headNode preNode : Node}
    (h : destroyChildren destroy fuel m headNode preNode = some m') : m.Releases m' := by
  induction fuel generalizing m preNode with
  | zero => cases h
  | succ fuel ih =>
    unfold destroyChildren at h
    split at h
    case isTrue =>
      cases h
      exact Releases.refl _
    case isFalse =>
      split at h
      case h_1 =>
        simp only [Option.bind_eq_bind, Option.bind_eq_some_iff] at h
        obtain ⟨_, -, m₁, hchild, h⟩ := h
        exact (hdestroy hchild).trans (ih h)
      case h_2 =>
        cases h
        exact Releases.refl _
      case h_3 => cases h

theorem releases_memDestroyContextNode {fuel : Nat}
    (h : memDestroyContextNode fuel m c = some m') : m.Releases m' := by
  induction fuel generalizing m m' c with
  | zero => cases h
  | succ fuel ih =>
    simp only [memDestroyContextNode, Option.bind_eq_bind, Option.bind_eq_some_iff] at h
    obtain ⟨_, -, m₁, hchildren, h⟩ := h
    exact (releases_destroyChildren ih hchildren).trans (releases_releaseMemContext h)

/-- What `ReleaseToMemPage` writes: the counter of one page, which may be given back. -/
theorem releaseToMemPage_cases {block : MemBlock} (h : m.releaseToMemPage block = some m') :
    ∃ p info, m.pageInfo p = some info ∧ (m.setPage p { info with
      releaseSize := (info.releaseSize + block.size) % 2 ^ 32 }).Releases m' := by
  unfold releaseToMemPage at h
  split at h
  case isTrue => cases h
  case isFalse =>
    simp only [Option.bind_eq_bind, Option.bind_eq_some_iff] at h
    obtain ⟨p, -, info, hinfo, h⟩ := h
    refine ⟨p, info, hinfo, ?_⟩
    split at h
    case isTrue =>
      split at h
      case h_1 => exact releases_releaseMemPage h
      case h_2 =>
        obtain ⟨m₁, hdel, hrel⟩ := Option.bind_eq_some_iff.mp h
        exact (releases_delDListNode hdel).trans (releases_releaseMemPage hrel)
    case isFalse =>
      cases h
      exact Releases.refl _

theorem made_mono {n n' : Nat} (h : n ≤ n') {x : Node} (hx : Made n x) : Made n' x := by
  cases x with
  | null | memListHead => trivial
  | page p | memList c | subList c | pageList c => exact Nat.lt_of_lt_of_le hx h

/-- A page is of a context that was made. -/
def HeadsMade (m : Memory) : Prop :=
  ∀ p info c, m.pageInfo p = some info → info.memHead = some c → c < m.pageNum

theorem HeadsMade.releases (h : m.HeadsMade) (hrel : m.Releases m') : m'.HeadsMade :=
  fun p info c hinfo hhead =>
  hrel.pageNum.symm ▸ h p info c (hrel.pages p info hinfo) hhead

theorem HeadsMade.set (h : m.HeadsMade) {info info' : MemPageInfo}
    (hp : m.pageInfo p = some info)
    (hhead : info'.memHead = info.memHead) : (m.setPage p info').HeadsMade := by
  intro q qInfo c hq hc
  by_cases hqp : q = p
  · rw [hqp] at hq
    cases (Function.update_self ..).symm.trans hq
    exact h p info c hp (hhead ▸ hc)
  · exact h q qInfo c ((Function.update_of_ne hqp ..).symm.trans hq) hc

theorem HeadsMade.withContext (h : m.HeadsMade) : m.withContext.HeadsMade := by
  intro q info c hq hc
  change c < m.pageNum + 1
  by_cases hqn : q = m.pageNum
  · rw [hqn] at hq
    cases (Function.update_self ..).symm.trans hq
    cases hc
    exact Nat.lt_succ_self _
  · exact Nat.lt_succ_of_lt (h q info c ((Function.update_of_ne hqn ..).symm.trans hq) hc)

theorem HeadsMade.withCarved (h : m.HeadsMade) (hunused : m.Unused) {info : MemPageInfo}
    (hc : m.pageInfo c = some info)
    (pageSize n : Nat) (isSwitchCurrent : Bool) (next prev : Node → Node) :
    (m.withCarved c info pageSize n isSwitchCurrent next prev).HeadsMade := by
  intro q qInfo d hq hd
  change d < m.pageNum + 1
  by_cases hqn : q = m.pageNum
  · rw [hqn] at hq
    cases withCarved_new.symm.trans hq
    cases hd
    exact Nat.lt_succ_of_lt (hunused.lt hc)
  · rw [withCarved_old hqn] at hq
    split at hq
    case isTrue =>
      cases hq
      exact Nat.lt_succ_of_lt (h c info d hc hd)
    case isFalse => exact Nat.lt_succ_of_lt (h q qInfo d hq hd)

/-- Names, links and the current context are of what was made. -/
structure WellMade (m : Memory) : Prop where
  unused : m.Unused
  links : m.LinksMade
  heads : m.HeadsMade
  current : ∀ c, m.current = some c → c < m.pageNum

/-- Links that are set to what was made. -/
theorem LinksMade.of_links (h : m.LinksMade) (hle : m.pageNum ≤ m'.pageNum)
    (hnext : ∀ x, m'.next x = m.next x ∨ Made m'.pageNum (m'.next x))
    (hprev : ∀ x, m'.prev x = m.prev x ∨ Made m'.pageNum (m'.prev x)) : m'.LinksMade := by
  intro x
  constructor
  · rcases hnext x with heq | hmade
    · rw [heq]
      exact made_mono hle (h x).1
    · exact hmade
  · rcases hprev x with heq | hmade
    · rw [heq]
      exact made_mono hle (h x).2
    · exact hmade

theorem contextLinks_made (links : Node → Node) (c : Nat) (x : Node) :
    contextLinks links c x = links x ∨ Made (c + 1) (contextLinks links c x) := by
  simp only [contextLinks, Function.update_apply]
  split
  · exact .inr (Nat.lt_succ_self c)
  · split
    · exact .inr (Nat.lt_succ_self c)
    · split
      · exact .inr (Nat.lt_succ_self c)
      · split
        · exact .inr (Nat.lt_succ_self c)
        · exact .inl rfl

theorem Unused.withContext (h : m.Unused) : m.withContext.Unused := by
  intro p hp
  change m.pageNum + 1 ≤ p at hp
  have hne : p ≠ m.pageNum := by omega
  exact (Function.update_of_ne hne ..).trans (h p (by omega))

theorem LinksMade.withContext (h : m.LinksMade) : m.withContext.LinksMade :=
  h.of_links (Nat.le_succ _) (contextLinks_made m.next m.pageNum)
    (contextLinks_made m.prev m.pageNum)

/-- The links of a new page of a context. -/
theorem LinksMade.linksPage (h : m.LinksMade) (hunused : m.Unused) {pageSize : Nat}
    {next prev : Node → Node} (hlink : m.LinksPage c pageSize next prev) :
    ((m.initMemPage pageSize).1.relinked next prev).LinksMade := by
  have hself (links : Node → Node) (x : Node) :
      Function.update links (.page m.pageNum) (.page m.pageNum) x = links x ∨
      Made (m.pageNum + 1) (Function.update links (.page m.pageNum) (.page m.pageNum) x) := by
    by_cases hx : x = .page m.pageNum
    · rw [hx, Function.update_self]
      exact .inr (Nat.lt_succ_self _)
    · exact .inl (Function.update_of_ne hx ..)
  have hmade : (m.initMemPage pageSize).1.LinksMade :=
    h.of_links (Nat.le_succ _) (hself m.next) (hself m.prev)
  have hunused' : (m.initMemPage pageSize).1.Unused := by
    intro p hp
    change m.pageNum + 1 ≤ p at hp
    have hne : p ≠ m.pageNum := by omega
    exact (Function.update_of_ne hne ..).trans (hunused p (by omega))
  have hnode : Made (m.initMemPage pageSize).1.pageNum (.page m.pageNum) :=
    Nat.lt_succ_self m.pageNum
  exact hmade.addDListTail hunused' hnode hlink

theorem WellMade.allocMem (h : m.WellMade) {size : BitVec 32}
    (hstep : m.allocMem size = some m') : m'.WellMade := by
  have hunused := h.unused.allocMem hstep
  rw [Memory.allocMem, Option.bind_eq_bind, Option.bind_eq_some_iff] at hstep
  obtain ⟨⟨m₁, block⟩, halloc, hblocks⟩ := hstep
  obtain ⟨c, info, contextInfo, -, hinfo, -, hcase⟩ := allocFromMemPool_cases halloc
  cases hblocks
  cases hcase with
  | oversize next prev _ _ hlink | newPage _ _ next prev _ _ _ _ _ hlink =>
    exact ⟨hunused, h.links.linksPage h.unused hlink,
      h.heads.withCarved h.unused hinfo _ _ _ _ _, fun c hc =>
      Nat.lt_succ_of_lt (h.current c hc)⟩
  | current p pageInfo _ _ _ hpage =>
    exact ⟨hunused, h.links, HeadsMade.set h.heads hpage rfl, h.current⟩

theorem WellMade.step (h : m.WellMade) {op : Op}
    (hstep : MemPool.step m op = some m') : m'.WellMade := by
  cases op with
  | newContext =>
    obtain ⟨current, next, prev, -, hlink, rfl⟩ := memMangerNewContext_cases hstep
    have hnode : Made m.withContext.pageNum (.memList m.pageNum) := Nat.lt_succ_self m.pageNum
    have hlinks := h.links.withContext.addDListTail h.unused.withContext hnode hlink
    refine ⟨h.unused.withContext, hlinks, h.heads.withContext, fun c hc => ?_⟩
    cases hc
    exact Nat.lt_succ_self m.pageNum
  | switchContext context =>
    rw [MemPool.step, Option.ite_none_right_eq_some] at hstep
    obtain ⟨hmade, hm⟩ := hstep
    cases hm
    refine ⟨h.unused, h.links, h.heads, fun c hc => ?_⟩
    have hcontext : context = some c := hc
    rw [hcontext] at hmade
    exact of_decide_eq_true hmade
  | allocMem size => exact h.allocMem hstep
  | freeMem block =>
    rw [MemPool.step, freeMem] at hstep
    split at hstep
    case isTrue =>
      obtain ⟨p, info, hinfo, hrel⟩ := releaseToMemPage_cases hstep
      have hunused : ({ m with blocks := m.blocks.erase block }.setPage p
        { info with releaseSize := (info.releaseSize + block.size) % 2 ^ 32 }).Unused :=
          Unused.set h.unused hinfo _
      have hheads :=
        HeadsMade.set (m := { m with blocks := m.blocks.erase block }) h.heads hinfo
          (rfl : ({ info with releaseSize := (info.releaseSize + block.size) % 2 ^ 32 } :
            MemPageInfo).memHead = info.memHead)
      exact ⟨hunused.releases hrel, hrel.links hunused h.links,
        hheads.releases hrel, fun c hc =>
        hrel.pageNum.symm ▸ h.current c (hrel.current ▸ hc)⟩
    case isFalse => cases hstep
  | deleteContext delContext =>
    rw [MemPool.step, memMangerDeleteContext, Option.bind_eq_bind,
      Option.bind_eq_some_iff] at hstep
    obtain ⟨m₁, hdel, hdestroy⟩ := hstep
    have hrel := (releases_delDListNode hdel).trans (releases_memDestroyContextNode hdestroy)
    exact ⟨h.unused.releases hrel, hrel.links h.unused h.links,
      h.heads.releases hrel, fun c hc =>
      hrel.pageNum.symm ▸ h.current c (hrel.current ▸ hc)⟩

/-- Nothing is made of the memory that the first context is made in. -/
theorem noContext_made : { noContext with current := some 0 }.Unused ∧
    { noContext with current := some 0 }.LinksMade ∧
    { noContext with current := some 0 }.HeadsMade := by
  refine ⟨fun _ _ => rfl, fun x => ?_, fun _ _ _ hinfo => by cases hinfo⟩
  by_cases hx : x = .memListHead
  · simp [noContext, initDListNode, hx, Made]
  · simp [noContext, initDListNode, empty, hx, Made]

theorem start_wellMade : start.WellMade := by
  obtain ⟨hunused, hempty, hheads⟩ := noContext_made
  obtain ⟨next, prev, hlink, heq⟩ := start_eq
  have hnode : Made 1 (.memList 0) := Nat.one_pos
  have hlinks := hempty.withContext.addDListTail hunused.withContext hnode hlink
  rw [heq] at hlinks ⊢
  refine ⟨hunused.withContext, hlinks, hheads.withContext, fun c hc => ?_⟩
  cases hc
  exact Nat.one_pos

/-- After any calls. -/
theorem calls_wellMade {ops : List Op} (h : calls ops = some m) : m.WellMade :=
  Transition.run_invariant_of_step (I := WellMade)
    (fun h hstep => h.step hstep) start_wellMade h

end Unused

end Memory

end Toadb.MemPool
