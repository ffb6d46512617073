/-
Toadb.Mem.MemPageListTheorems — the pages of one memory context, while blocks
are allocated and freed in it.

The counter of a page (`releaseSize`) and the blocks in use on it make up its
`useOffset`. So a usual page is given back when it is full and its last block is
freed (`ShortPage.full`), and the page of one long block when the block ends
where the page does (`LongPage.full_iff`).

Three kinds of calls break that: freeing the last block of the current page, if it is not the
first one, when the page is full, freeing a long block that does not end with its page, and
freeing the block behind the record once another page is the current one, since the header of
that block names the current page then. `pageList_ok` leaves these out, and requests whose
size is no `int`.
-/
import Toadb.Mem.MemBlockTheorems

namespace Toadb.MemPool

open DList

/-! ## Blocks of a page -/

section OnPage

variable {blocks : List MemBlock} {block : MemBlock} {p : Nat}

/-- The blocks in use on a page. -/
def onPage (blocks : List MemBlock) (p : Nat) : List MemBlock := blocks.filter (·.page = p)

/-- The size of so many blocks. -/
def totalSize (blocks : List MemBlock) : Nat := (blocks.map (·.size)).sum

@[simp] theorem onPage_cons_self (h : block.page = p) :
    onPage (block :: blocks) p = block :: onPage blocks p :=
  List.filter_cons_of_pos (by simp [h])

@[simp] theorem onPage_cons_ne (h : block.page ≠ p) :
    onPage (block :: blocks) p = onPage blocks p :=
  List.filter_cons_of_neg (by simp [h])

theorem mem_onPage {b : MemBlock} : b ∈ onPage blocks p ↔ b ∈ blocks ∧ b.page = p := by
  simp [onPage]

theorem onPage_eq_nil (h : ∀ b ∈ blocks, b.page ≠ p) : onPage blocks p = [] :=
  List.filter_eq_nil_iff.mpr fun b hb => by simp [h b hb]

/-- Freeing a block does not change the blocks of another page. -/
theorem onPage_erase_ne (h : block.page ≠ p) :
    onPage (blocks.erase block) p = onPage blocks p := by
  induction blocks with
  | nil => rfl
  | cons b blocks ih =>
    by_cases hb : b = block
    · rw [hb, List.erase_cons_head, onPage_cons_ne h]
    · rw [List.erase_cons_tail (by simpa using hb)]
      by_cases hp : b.page = p
      · rw [onPage_cons_self hp, onPage_cons_self hp, ih]
      · rw [onPage_cons_ne hp, onPage_cons_ne hp, ih]

theorem onPage_erase_self (hmem : block ∈ blocks) (h : block.page = p) :
    (onPage blocks p).Perm (block :: onPage (blocks.erase block) p) := by
  have hperm := (List.perm_cons_erase hmem).filter fun b => decide (b.page = p)
  rwa [List.filter_cons_of_pos (by simp [h])] at hperm

theorem totalSize_cons : totalSize (block :: blocks) = block.size + totalSize blocks :=
  List.sum_cons

theorem totalSize_erase (hmem : block ∈ blocks) (h : block.page = p) :
    totalSize (onPage blocks p) = block.size + totalSize (onPage (blocks.erase block) p) := by
  have hsum := ((onPage_erase_self hmem h).map (·.size)).sum_nat
  rwa [List.map_cons, List.sum_cons] at hsum

theorem size_le_totalSize (hmem : block ∈ blocks) : block.size ≤ totalSize blocks := by
  have hsum := ((List.perm_cons_erase hmem).map (·.size)).sum_nat
  rw [List.map_cons, List.sum_cons] at hsum
  exact (Nat.le_add_right _ _).trans hsum.ge

theorem mem_onPage_of_erase {b : MemBlock} (h : b ∈ onPage (blocks.erase block) p) :
    b ∈ onPage blocks p :=
  mem_onPage.mpr ⟨List.mem_of_mem_erase (mem_onPage.mp h).1, (mem_onPage.mp h).2⟩

end OnPage

/-! ## Pages -/

section Pages

variable {info : MemPageInfo} {c p : Nat} {blocks : List MemBlock} {block : MemBlock}

/-- A page for short blocks. -/
structure ShortPage (info : MemPageInfo) (c : Nat) (blocks : List MemBlock) : Prop where
  record : info.contextInfo = none
  head : info.memHead = some c
  size : info.memPageSize = memoryPoolPageSize
  offset : info.useOffset ≤ memoryPoolPageSize
  counter : info.releaseSize + totalSize blocks = info.useOffset
  short : ∀ block ∈ blocks, block.size < memoryPoolMinAllocSize

/-- The first page, which has the record. -/
structure OwnPage (info : MemPageInfo) (c curr : Nat) (blocks : List MemBlock) : Prop where
  record : info.contextInfo = some ⟨some curr⟩
  head : info.memHead = some c
  size : info.memPageSize = memoryPoolPageSize
  offset : info.useOffset ≤ memoryPoolPageSize
  place : info.useOffset + memBlockHeaderSize = contextEnd ∨ contextEnd ≤ info.useOffset
  counter : info.releaseSize + memPoolContextInfoSize + totalSize blocks = info.useOffset
  short : ∀ block ∈ blocks, block.size < memoryPoolMinAllocSize

/-- The page of one long block. -/
structure LongPage (info : MemPageInfo) (c : Nat) (blocks : List MemBlock) : Prop where
  record : info.contextInfo = none
  head : info.memHead = some c
  small : info.memPageSize < 2 ^ 31
  counter : info.releaseSize = memPageInfoLen
  block : ∃ block, blocks = [block] ∧ memoryPoolMinAllocSize ≤ block.size ∧
    info.memPageSize = (block.size + 8230) / 8192 * 8192

/-- Another block of a page for short blocks. -/
theorem ShortPage.carve (h : ShortPage info c blocks) {n : Nat}
    (hshort : n < memoryPoolMinAllocSize) (hroom : info.useOffset + n ≤ info.memPageSize) :
    ShortPage (Memory.carvedPage info p n) c (⟨p, info.useOffset, n, p⟩ :: blocks) := by
  rw [h.size] at hroom
  have hoffset : (Memory.carvedPage info p n).useOffset = info.useOffset + n :=
    Nat.mod_eq_of_lt (hroom.trans_lt (by decide))
  refine ⟨?_, h.head, h.size, hoffset.trans_le hroom, ?_, ?_⟩
  · rw [Memory.carvedPage, h.record]
    rfl
  · rw [hoffset, totalSize_cons, ← h.counter]
    change info.releaseSize + (n + totalSize blocks) = _
    omega
  · intro block hblock
    rcases List.mem_cons.mp hblock with rfl | hblock
    · exact hshort
    · exact h.short block hblock

/-- Another block behind the record, when the first page is the current one. -/
theorem OwnPage.carve (h : OwnPage info c c blocks) {n : Nat} (hlong : memBlockHeaderSize ≤ n)
    (hshort : n < memoryPoolMinAllocSize) (hroom : info.useOffset + n ≤ info.memPageSize) :
    OwnPage (Memory.carvedPage info c n) c c (⟨c, info.useOffset, n, c⟩ :: blocks) := by
  rw [h.size] at hroom
  have hoffset : (Memory.carvedPage info c n).useOffset = info.useOffset + n :=
    Nat.mod_eq_of_lt (hroom.trans_lt (by decide))
  have hplace := h.place
  refine ⟨?_, h.head, h.size, hoffset.trans_le hroom, ?_, ?_, ?_⟩
  · -- the first header is laid over `currUsePage` and names the same page
    simp only [Memory.carvedPage, h.record, Option.map_some, MemPoolContextInfo.writeOver]
    by_cases hbehind : contextEnd ≤ info.useOffset
    · rw [if_pos hbehind]
    · rw [if_neg hbehind, if_pos (hplace.resolve_right hbehind)]
  · rw [hoffset]
    exact .inr (by omega)
  · rw [hoffset, totalSize_cons, ← h.counter]
    change info.releaseSize + memPoolContextInfoSize + (n + totalSize blocks) = _
    omega
  · intro block hblock
    rcases List.mem_cons.mp hblock with rfl | hblock
    · exact hshort
    · exact h.short block hblock

/-- A long block has a page that is longer than usual. -/
theorem LongPage.size_ne (h : LongPage info c blocks) :
    info.memPageSize ≠ memoryPoolPageSize := by
  obtain ⟨block, -, hlong, hsize⟩ := h.block
  rw [memoryPoolMinAllocSize, memoryPoolPageSize, memPageInfoLen] at hlong
  rw [hsize, memoryPoolPageSize]
  omega

/-- A page for short blocks that is given back was full, and has no other block in use. -/
theorem ShortPage.full (h : ShortPage info c blocks) {rest : Nat}
    (hsplit : totalSize blocks = block.size + rest)
    (hfull : info.releaseSize + block.size = info.memPageSize) :
    info.useOffset = info.memPageSize ∧ rest = 0 := by
  have hoffset := h.offset
  have hcounter := h.counter
  have hsize := h.size
  omega

/-- The first page is not given back. -/
theorem OwnPage.not_full {curr : Nat} (h : OwnPage info c curr blocks) {rest : Nat}
    (hsplit : totalSize blocks = block.size + rest) :
    info.releaseSize + block.size < info.memPageSize := by
  have hoffset := h.offset
  have hcounter := h.counter
  have hsize := h.size
  rw [memPoolContextInfoSize] at hcounter
  omega

/-- The page of a long block is given back with it when they end together. -/
theorem LongPage.full_iff (h : LongPage info c [block]) :
    info.releaseSize + block.size = info.memPageSize ↔
      (block.size + memPageInfoLen) % 8192 = 0 := by
  obtain ⟨b, hb, -, hsize⟩ := h.block
  obtain rfl := (List.cons_eq_cons.mp hb).1
  rw [h.counter, hsize, memPageInfoLen]
  omega

end Pages

namespace Memory

variable {m : Memory} {c p : Nat} {info : MemPageInfo} {block : MemBlock}

theorem releaseToMemPage_eq (hlong : memBlockHeaderSize ≤ block.size)
    (hpage : m.memPageOf block = some p)
    (hinfo : m.pageInfo p = some info) (hhead : info.memHead = some c)
    (hint : info.releaseSize + block.size < 2 ^ 32) :
    m.releaseToMemPage block =
      if info.releaseSize + block.size = info.memPageSize then
        ((m.setPage p { info with releaseSize := info.releaseSize + block.size }).delDListNode
          (.page p)).bind
          (·.releaseMemPage p)
      else some (m.setPage p { info with releaseSize := info.releaseSize + block.size }) := by
  rw [releaseToMemPage, if_neg (Nat.not_lt.mpr hlong)]
  simp only [hpage, hinfo, Option.bind_eq_bind, Option.bind_some,
    Nat.mod_eq_of_lt hint, hhead]
  rfl

theorem alive_setPage {info' : MemPageInfo} (hinfo : m.pageInfo p = some info)
    (hrecord : info'.contextInfo = info.contextInfo) :
    (m.setPage p info').alive = m.alive := by
  have hsome (q : Nat) : ((m.setPage p info').pageInfo q).isSome = (m.pageInfo q).isSome ∧
      ((m.setPage p info').pageInfo q).bind (·.contextInfo) =
        (m.pageInfo q).bind (·.contextInfo) := by
    by_cases hq : q = p
    · simp [setPage, hq, hinfo, hrecord]
    · simp [setPage, hq]
  funext x
  cases x with
  | null | memListHead => rfl
  | page q => exact (hsome q).1
  | memList q | subList q | pageList q => exact congrArg Option.isSome (hsome q).2

end Memory

/-! ## The property -/

/-- The list of a context: its pages are in use, one of them is the current page, the blocks
in use are on them, and so is each page of the context; a page for one long block has it. -/
structure PageList (m : Memory) (c : Nat) (pages : List Nat) : Prop where
  ring : Ring m.next m.prev (.pageList c) (.pageList c :: pages.map .page)
  inUse : ∀ p ∈ pages, (m.pageInfo p).isSome = true
  current : ∃ p ∈ pages, m.currUsePage = some p
  blocks : ∀ block ∈ m.blocks, block.page ∈ pages
  all : ∀ p info, m.pageInfo p = some info → info.memHead = some c → p ∈ pages
  long : ∀ p ∈ pages, ∀ info, m.pageInfo p = some info →
    memoryPoolPageSize < info.memPageSize →
    ∃ block ∈ m.blocks, block.page = p

/-- What is done in one context. -/
inductive ContextOp where
  | allocMem (size : BitVec 32)
  | freeMem (block : MemBlock)

def ContextOp.op : ContextOp → Op
  | .allocMem size => .allocMem size
  | .freeMem block => .freeMem block

def contextStep (m : Memory) (op : ContextOp) : Option Memory := step m op.op

/-- The size of a request can be rounded up. A long block that is freed ends with its page. A
short one is not the first behind the record when another page is the current one, and not the
last of the current page when it is full, unless the page is the first one. -/
def KeepsPages (m : Memory) : ContextOp → Prop
  | .allocMem size => Requestable size
  | .freeMem block =>
      if memoryPoolMinAllocSize ≤ block.size then (block.size + memPageInfoLen) % 8192 = 0
      else
        (m.current = some block.page → block.offset + memBlockHeaderSize = contextEnd →
          m.currUsePage = m.current) ∧
        (m.currUsePage = some block.page → m.current ≠ some block.page →
          (m.pageInfo block.page).any (fun info => info.useOffset = info.memPageSize) →
          onPage (m.blocks.erase block) block.page ≠ [])

instance (m : Memory) : (op : ContextOp) → Decidable (KeepsPages m op)
  | .allocMem size => inferInstanceAs (Decidable (size.toNat + 8242 < 2 ^ 32))
  | .freeMem block =>
    inferInstanceAs (Decidable (if memoryPoolMinAllocSize ≤ block.size then _ else _))

/-- A context when it is made, and none of its blocks handed out: the one of the server, or
another one. -/
inductive NewContext : Memory → Nat → Prop
  | init : NewContext Memory.start 0
  | new {ops : List Op} {m m' : Memory} (hcalls : calls ops = some m)
      (hnew : m.memMangerNewContext = some m') :
      NewContext { m' with blocks := [] } m.pageNum

/-! ## The invariant -/

/-- The pages of the context `c`, its first one and the others. -/
structure ContextInv (m : Memory) (c : Nat) (pages : List Nat) : Prop where
  current : m.current = some c
  unused : m.Unused
  ring : Ring m.next m.prev (.pageList c) (.pageList c :: (c :: pages).map .page)
  own : ∃ info curr, m.pageInfo c = some info ∧ OwnPage info c curr (onPage m.blocks c) ∧
    (curr = c ∨ curr ∈ pages ∧ ∃ currInfo,
      m.pageInfo curr = some currInfo ∧ currInfo.memPageSize = memoryPoolPageSize)
  others : ∀ p ∈ pages, ∃ info, m.pageInfo p = some info ∧
    (ShortPage info c (onPage m.blocks p) ∨ LongPage info c (onPage m.blocks p))
  all : ∀ p info, m.pageInfo p = some info → info.memHead = some c → p ∈ c :: pages
  blocks : ∀ block ∈ m.blocks, block.page ∈ c :: pages ∧ memBlockHeaderSize ≤ block.size ∧
    block.memPage = block.page

namespace ContextInv

variable {m m' : Memory} {c p : Nat} {pages : List Nat} {info : MemPageInfo}

theorem currUsePage_eq (h : ContextInv m c pages) {info : MemPageInfo} {curr : Nat}
    (hinfo : m.pageInfo c = some info)
    (hrecord : info.contextInfo = some ⟨some curr⟩) : m.currUsePage = some curr :=
  MemPool.currUsePage_eq h.current hinfo hrecord

/-- The list is as it should be. -/
theorem pageList (h : ContextInv m c pages) : PageList m c (c :: pages) where
  ring := h.ring
  inUse p hp := by
    rcases List.mem_cons.mp hp with rfl | hp
    · obtain ⟨info, curr, hinfo, -⟩ := h.own
      rw [hinfo]
      rfl
    · obtain ⟨info, hinfo, -⟩ := h.others p hp
      rw [hinfo]
      rfl
  current := by
    obtain ⟨info, curr, hinfo, hown, hcurr⟩ := h.own
    refine ⟨curr, ?_, h.currUsePage_eq hinfo hown.record⟩
    rcases hcurr with rfl | ⟨hmem, -⟩
    · exact List.mem_cons_self
    · exact List.mem_cons_of_mem _ hmem
  blocks block hblock := (h.blocks block hblock).1
  all := h.all
  long p hp info hinfo hlong := by
    rcases List.mem_cons.mp hp with rfl | hp
    · obtain ⟨info', curr, hinfo', hown, -⟩ := h.own
      cases hinfo.symm.trans hinfo'
      exact absurd hown.size hlong.ne'
    · obtain ⟨info', hinfo', hshort | hpage⟩ := h.others p hp
      · cases hinfo.symm.trans hinfo'
        exact absurd hshort.size hlong.ne'
      · cases hinfo.symm.trans hinfo'
        obtain ⟨block, hblock, -⟩ := hpage.block
        have hmem : block ∈ onPage m.blocks p := hblock ▸ List.mem_singleton_self block
        exact ⟨block, mem_onPage.mp hmem⟩

/-- The nodes of the list are in use. -/
theorem alive (h : ContextInv m c pages) :
    ∀ x ∈ Node.pageList c :: (c :: pages).map .page, m.alive x = true := by
  intro x hx
  rcases List.mem_cons.mp hx with rfl | hx
  · obtain ⟨info, curr, hinfo, hown, -⟩ := h.own
    rw [Memory.alive, hinfo, Option.bind_some, hown.record]
    rfl
  · obtain ⟨p, hp, rfl⟩ := List.mem_map.mp hx
    exact h.pageList.inUse p hp

theorem lt_pageNum (h : ContextInv m c pages) (hp : p ∈ c :: pages) : p < m.pageNum := by
  obtain ⟨info, hinfo⟩ := Option.isSome_iff_exists.mp (h.pageList.inUse p hp)
  exact h.unused.lt hinfo

theorem not_mem_pages (h : ContextInv m c pages) : c ∉ pages := by
  have hnodup := h.ring.nodup
  rw [List.nodup_cons, List.map_cons, List.nodup_cons] at hnodup
  exact fun hmem => hnodup.2.1 (List.mem_map_of_mem hmem)

/-- A new page with a block. -/
theorem newPage (h : ContextInv m c pages) {pageSize n : Nat} {isSwitchCurrent : Bool}
    {next prev : Node → Node}
    (hinfo : m.pageInfo c = some info) (hlink : m.LinksPage c pageSize next prev)
    (hswitch : isSwitchCurrent = true → pageSize = memoryPoolPageSize)
    (hn : memBlockHeaderSize ≤ n)
    (hpage : ShortPage (Memory.carvedPage (Memory.newPageInfo c pageSize) m.pageNum n) c
        [⟨m.pageNum, memPageInfoLen, n, m.pageNum⟩] ∨
      LongPage (Memory.carvedPage (Memory.newPageInfo c pageSize) m.pageNum n) c
        [⟨m.pageNum, memPageInfoLen, n, m.pageNum⟩]) :
    ContextInv { m.withCarved c info pageSize n isSwitchCurrent next prev with
      blocks := ⟨m.pageNum, memPageInfoLen, n, m.pageNum⟩ ::
        m.blocks } c (pages ++ [m.pageNum]) := by
  have hlt {p : Nat} (hp : p ∈ c :: pages) : p ≠ m.pageNum := (h.lt_pageNum hp).ne
  have hc : c ≠ m.pageNum := hlt List.mem_cons_self
  have hnew : (m.withCarved c info pageSize n isSwitchCurrent next prev).pageInfo m.pageNum =
      _ := Memory.withCarved_new
  have hold {p : Nat} (hp : p ≠ m.pageNum) (hpc : p ≠ c) :
      (m.withCarved c info pageSize n isSwitchCurrent next prev).pageInfo p =
        m.pageInfo p := by
    rw [Memory.withCarved_old hp, if_neg fun hif => hpc hif.2]
  have hblocks {p : Nat} (hp : p ≠ m.pageNum) :
      onPage (⟨m.pageNum, memPageInfoLen, n, m.pageNum⟩ :: m.blocks) p =
        onPage m.blocks p := by
    rw [onPage_cons_ne]
    exact hp.symm
  have hfresh : onPage (⟨m.pageNum, memPageInfoLen, n, m.pageNum⟩ :: m.blocks) m.pageNum =
      [⟨m.pageNum, memPageInfoLen, n, m.pageNum⟩] := by
    rw [onPage_cons_self rfl, onPage_eq_nil fun b hb => hlt (h.blocks b hb).1]
  obtain ⟨info', curr, hinfo', hown, hcurr⟩ := h.own
  obtain rfl := Option.some.inj (hinfo.symm.trans hinfo')
  constructor
  · exact h.current
  · exact h.unused.withCarved hinfo pageSize n isSwitchCurrent next prev
  · have hring := (hlink.ring h.ring h.alive (h.unused _ (le_refl _))).1
    rwa [show (c :: (pages ++ [m.pageNum])).map Node.page =
      (c :: pages).map Node.page ++ [Node.page m.pageNum] by simp]
  · cases isSwitchCurrent with
    | false =>
      refine ⟨info, curr, ?_, ?_, ?_⟩
      · exact (Memory.withCarved_old hc).trans hinfo
      · exact (hblocks hc).symm ▸ hown
      · rcases hcurr with rfl | ⟨hmem, currInfo, hcurrInfo, hsize⟩
        · exact .inl rfl
        · exact .inr ⟨List.mem_append_left _ hmem, currInfo,
            (Memory.withCarved_old (hlt (List.mem_cons_of_mem _ hmem))).trans hcurrInfo,
              hsize⟩
    | true =>
      refine ⟨{ info with contextInfo := some ⟨some m.pageNum⟩ }, m.pageNum, ?_, ?_, ?_⟩
      · exact (Memory.withCarved_old hc).trans (if_pos ⟨rfl, rfl⟩)
      · exact (hblocks hc).symm ▸
          ⟨rfl, hown.head, hown.size, hown.offset, hown.place, hown.counter, hown.short⟩
      · exact .inr ⟨List.mem_append_right _ List.mem_cons_self, _, hnew, hswitch rfl⟩
  · intro p hp
    rcases List.mem_append.mp hp with hp | hp
    · obtain ⟨pageInfo, hpageInfo, hkind⟩ := h.others p hp
      have hne := hlt (List.mem_cons_of_mem c hp)
      exact ⟨pageInfo, (hold hne (ne_of_mem_of_not_mem hp h.not_mem_pages)).trans hpageInfo,
        (hblocks hne).symm ▸ hkind⟩
    · obtain rfl := List.mem_singleton.mp hp
      exact ⟨_, hnew, hfresh.symm ▸ hpage⟩
  · intro p pageInfo hp hhead
    by_cases hne : p = m.pageNum
    · rw [hne]
      exact List.mem_cons_of_mem _ (List.mem_append_right _ List.mem_cons_self)
    · by_cases hpc : p = c
      · rw [hpc]
        exact List.mem_cons_self
      · have hmem := h.all p pageInfo ((hold hne hpc).symm.trans hp) hhead
        exact List.mem_cons_of_mem _
          (List.mem_append_left _ ((List.mem_cons.mp hmem).resolve_left hpc))
  · intro block hblock
    rcases List.mem_cons.mp hblock with rfl | hblock
    · exact ⟨List.mem_cons_of_mem _ (List.mem_append_right _ List.mem_cons_self), hn, rfl⟩
    · obtain ⟨hmem, hsize, hpageOf⟩ := h.blocks block hblock
      refine ⟨?_, hsize, hpageOf⟩
      rw [← List.cons_append]
      exact List.mem_append_left _ hmem

/-- One page and its blocks change. -/
theorem setPage (h : ContextInv m c pages) {info' : MemPageInfo} {blocks : List MemBlock}
    (hp : m.pageInfo p = some info)
    (hother : ∀ q, q ≠ p → onPage blocks q = onPage m.blocks q)
    (hblocks : ∀ block ∈ blocks, block.page ∈ c :: pages ∧ memBlockHeaderSize ≤ block.size ∧
      block.memPage = block.page)
    (hsize : info'.memPageSize = info.memPageSize) (hhead : info'.memHead = info.memHead)
    (hpage : p = c ∧
      (∀ curr, OwnPage info c curr (onPage m.blocks c) → (curr = c ∨ curr ∈ pages) →
        OwnPage info' c curr (onPage blocks c)) ∨
      p ∈ pages ∧
        (ShortPage info' c (onPage blocks p) ∨ LongPage info' c (onPage blocks p))) :
    ContextInv { m.setPage p info' with blocks := blocks } c pages := by
  have hnew : (m.setPage p info').pageInfo p = some info' := Function.update_self ..
  have hold {q : Nat} (hq : q ≠ p) : (m.setPage p info').pageInfo q = m.pageInfo q :=
    Function.update_of_ne hq ..
  obtain ⟨ownInfo, curr, hown, hownPage, hcurr⟩ := h.own
  have hcurr' : curr = c ∨ curr ∈ pages ∧ ∃ currInfo,
      (m.setPage p info').pageInfo curr = some currInfo ∧
      currInfo.memPageSize = memoryPoolPageSize := by
    rcases hcurr with rfl | ⟨hmem, currInfo, hcurrInfo, hcurrSize⟩
    · exact .inl rfl
    · by_cases hcp : curr = p
      · rw [hcp] at hmem hcurrInfo ⊢
        cases hp.symm.trans hcurrInfo
        exact .inr ⟨hmem, info', hnew, hsize.trans hcurrSize⟩
      · exact .inr ⟨hmem, currInfo, (hold hcp).trans hcurrInfo, hcurrSize⟩
  constructor
  · exact h.current
  · exact h.unused.set hp info'
  · exact h.ring
  · rcases hpage with ⟨rfl, hkeep⟩ | ⟨hmem, -⟩
    · cases hp.symm.trans hown
      exact ⟨info', curr, hnew, hkeep curr hownPage (hcurr.imp id And.left), hcurr'⟩
    · have hcp : c ≠ p := (ne_of_mem_of_not_mem hmem h.not_mem_pages).symm
      exact ⟨ownInfo, curr, (hold hcp).trans hown, (hother c hcp).symm ▸ hownPage, hcurr'⟩
  · intro q hq
    by_cases hqp : q = p
    · rw [hqp] at hq ⊢
      rcases hpage with ⟨rfl, -⟩ | ⟨-, hkind⟩
      · exact absurd hq h.not_mem_pages
      · exact ⟨info', hnew, hkind⟩
    · obtain ⟨qInfo, hqInfo, hkind⟩ := h.others q hq
      exact ⟨qInfo, (hold hqp).trans hqInfo, (hother q hqp).symm ▸ hkind⟩
  · intro q qInfo hq hqHead
    by_cases hqp : q = p
    · rw [hqp] at hq ⊢
      cases hnew.symm.trans hq
      exact h.all p info hp (hhead ▸ hqHead)
    · exact h.all q qInfo ((hold hqp).symm.trans hq) hqHead
  · exact hblocks

/-- A page without blocks is given back; it is not the current one. -/
theorem release (h : ContextInv m c pages) {blocks : List MemBlock}
    {next prev : Node → Node} (hmem : p ∈ pages)
    (hring : Ring next prev (.pageList c) (.pageList c :: (c :: pages.erase p).map .page))
    (hother : ∀ q, q ≠ p → onPage blocks q = onPage m.blocks q)
    (hblocks : ∀ block ∈ blocks, block.page ∈ c :: pages ∧ block.page ≠ p ∧
      memBlockHeaderSize ≤ block.size ∧
      block.memPage = block.page)
    (hcurr : m.currUsePage ≠ some p) {pageInfo : Nat → Option MemPageInfo}
    (hpageInfo : pageInfo = Function.update m.pageInfo p none) (released : List Nat) :
    ContextInv ⟨next, prev, pageInfo, m.current, m.pageNum, released, blocks⟩ c
      (pages.erase p) := by
  have hcp : c ≠ p := (ne_of_mem_of_not_mem hmem h.not_mem_pages).symm
  have hold {q : Nat} (hq : q ≠ p) : pageInfo q = m.pageInfo q := by
    rw [hpageInfo]
    exact Function.update_of_ne hq ..
  have hsub {q : Nat} (hq : q ∈ pages) (hqp : q ≠ p) : q ∈ pages.erase p :=
    (List.mem_erase_of_ne hqp).mpr hq
  have hnodup : pages.Nodup := by
    have hall := h.ring.nodup
    rw [List.nodup_cons, List.map_cons, List.nodup_cons] at hall
    exact hall.2.2.of_map
  constructor
  · exact h.current
  · intro q hq
    by_cases hqp : q = p
    · change pageInfo q = none
      rw [hpageInfo, hqp]
      exact Function.update_self ..
    · exact (hold hqp).trans (h.unused q hq)
  · exact hring
  · obtain ⟨info, curr, hinfo, hown, hcase⟩ := h.own
    refine ⟨info, curr, (hold hcp).trans hinfo, (hother c hcp).symm ▸ hown, ?_⟩
    rcases hcase with rfl | ⟨hcurrMem, currInfo, hcurrInfo, hsize⟩
    · exact .inl rfl
    · have hne : curr ≠ p := by
        rintro rfl
        exact hcurr (h.currUsePage_eq hinfo hown.record)
      exact .inr ⟨hsub hcurrMem hne, currInfo, (hold hne).trans hcurrInfo, hsize⟩
  · intro q hq
    have hqp : q ≠ p := by
      rintro rfl
      exact hnodup.not_mem_erase hq
    obtain ⟨qInfo, hqInfo, hkind⟩ := h.others q (List.mem_of_mem_erase hq)
    exact ⟨qInfo, (hold hqp).trans hqInfo, (hother q hqp).symm ▸ hkind⟩
  · intro q qInfo hq hhead
    have hqp : q ≠ p := by
      rintro rfl
      change pageInfo q = some qInfo at hq
      rw [hpageInfo, Function.update_self] at hq
      cases hq
    rcases List.mem_cons.mp (h.all q qInfo ((hold hqp).symm.trans hq) hhead) with rfl | hqmem
    · exact List.mem_cons_self
    · exact List.mem_cons_of_mem _ (hsub hqmem hqp)
  · intro block hblock
    obtain ⟨hbmem, hbp, hsize, hpageOf⟩ := hblocks block hblock
    refine ⟨?_, hsize, hpageOf⟩
    rcases List.mem_cons.mp hbmem with hbc | hbmem
    · exact hbc ▸ List.mem_cons_self
    · exact List.mem_cons_of_mem _ (hsub hbmem hbp)

/-- Allocations keep the invariant. -/
theorem allocMem (h : ContextInv m c pages) {size : BitVec 32}
    (hok : KeepsPages m (.allocMem size))
    (hstep : m.allocMem size = some m') : ∃ pages', ContextInv m' c pages' := by
  have hrequest : Requestable size := hok
  have hn := blockSize_eq hrequest
  rw [memBlockHeaderSize] at hn
  have hlong : memBlockHeaderSize ≤ Memory.blockSize size := by
    rw [hn, memBlockHeaderSize]
    omega
  rw [Memory.allocMem, Option.bind_eq_bind, Option.bind_eq_some_iff] at hstep
  obtain ⟨⟨m₁, block⟩, halloc, hblocks⟩ := hstep
  obtain ⟨c', info, contextInfo, hcurrent, hinfo, hcontext, hcase⟩ :=
    Memory.allocFromMemPool_cases halloc
  obtain rfl := Option.some.inj (h.current.symm.trans hcurrent)
  obtain ⟨ownInfo, curr, hown, hownPage, hcurrCase⟩ := h.own
  obtain rfl := Option.some.inj (hinfo.symm.trans hown)
  obtain rfl := Option.some.inj (hcontext.symm.trans hownPage.record)
  cases hblocks
  cases hcase with
  | oversize next prev hmin halign hlink =>
    have hpageSize : Memory.oversizePageSize size =
        (Memory.blockSize size + 8230) / 8192 * 8192 := by
      rw [oversizePageSize_eq hrequest, hn, Nat.add_assoc]
    generalize Memory.oversizePageSize size = pageSize at *
    exact ⟨_, h.newPage hinfo hlink (fun hfalse => by cases hfalse) hlong
      (.inr ⟨rfl, rfl, halign, rfl, _, rfl, hmin, hpageSize⟩)⟩
  | current p pageInfo hmin hpos hcurr hpage hroom =>
    have hcp : curr = p := Option.some.inj hcurr
    subst hcp
    have hblock : ∀ b ∈ (⟨curr, pageInfo.useOffset, Memory.blockSize size, curr⟩ :
        MemBlock) :: m.blocks,
        b.page ∈ c :: pages ∧ memBlockHeaderSize ≤ b.size ∧ b.memPage = b.page := by
      intro b hb
      rcases List.mem_cons.mp hb with rfl | hb
      · refine ⟨?_, hlong, rfl⟩
        rcases hcurrCase with rfl | ⟨hmem, -⟩
        · exact List.mem_cons_self
        · exact List.mem_cons_of_mem _ hmem
      · exact h.blocks b hb
    have hother : ∀ q, q ≠ curr →
        onPage (⟨curr, pageInfo.useOffset, Memory.blockSize size, curr⟩ :: m.blocks) q =
        onPage m.blocks q := by
      intro q hq
      rw [onPage_cons_ne]
      exact hq.symm
    refine ⟨pages, h.setPage hpage hother hblock rfl rfl ?_⟩
    rcases hcurrCase with rfl | ⟨hmem, currInfo, hcurrInfo, hsize⟩
    · -- behind the record, whose current page stays what it is
      obtain rfl := Option.some.inj (hinfo.symm.trans hpage)
      refine .inl ⟨rfl, fun curr' hownPage' _ => ?_⟩
      cases hownPage.record.symm.trans hownPage'.record
      rw [onPage_cons_self rfl]
      exact hownPage.carve hlong hmin hroom
    · obtain ⟨pageInfo', hpage', hshort | hkind⟩ := h.others curr hmem
      · obtain rfl := Option.some.inj (hpage.symm.trans hpage')
        refine .inr ⟨hmem, .inl ?_⟩
        rw [onPage_cons_self rfl]
        exact hshort.carve hmin hroom
      · obtain rfl := Option.some.inj (hcurrInfo.symm.trans hpage')
        exact absurd hsize hkind.size_ne
  | newPage p pageInfo next prev hmin hpos hcurr hpage hroom hlink =>
    have hoffset : (memPageInfoLen + Memory.blockSize size) % 2 ^ 32 =
        memPageInfoLen + Memory.blockSize size :=
      Nat.mod_eq_of_lt (by
        rw [memoryPoolMinAllocSize, memoryPoolPageSize, memPageInfoLen] at hmin
        rw [memPageInfoLen]
        omega)
    refine ⟨_, h.newPage hinfo hlink (fun _ => rfl) hlong (.inl ⟨rfl, rfl, rfl, ?_, ?_, ?_⟩)⟩
    · change (memPageInfoLen + Memory.blockSize size) % 2 ^ 32 ≤ memoryPoolPageSize
      rw [memoryPoolMinAllocSize] at hmin
      omega
    · change memPageInfoLen + totalSize [_] =
          (memPageInfoLen + Memory.blockSize size) % 2 ^ 32
      rw [hoffset, totalSize_cons]
      rfl
    · intro block hblock
      obtain rfl := List.mem_singleton.mp hblock
      exact hmin

/-- The header of the block names its page. -/
theorem memPageOf_eq (h : ContextInv m c pages) {block : MemBlock} (hmem : block ∈ m.blocks)
    (hok : KeepsPages m (.freeMem block)) : m.memPageOf block = some block.page := by
  obtain ⟨hpage, -, hsame⟩ := h.blocks block hmem
  rcases List.mem_cons.mp hpage with hc | hp
  · obtain ⟨info, curr, hinfo, hown, -⟩ := h.own
    have hshort : ¬ memoryPoolMinAllocSize ≤ block.size :=
      Nat.not_le.mpr (hown.short block (mem_onPage.mpr ⟨hmem, hc⟩))
    rw [KeepsPages, if_neg hshort] at hok
    simp only [Memory.memPageOf, hc, hinfo, hown.record,
      Option.bind_eq_bind, Option.bind_some]
    by_cases hfirst : block.offset + memBlockHeaderSize = contextEnd
    · have hcurr := hok.1 (h.current.trans (congrArg some hc.symm)) hfirst
      rw [h.currUsePage_eq hinfo hown.record, h.current] at hcurr
      rw [if_pos hfirst, hcurr]
    · rw [if_neg hfirst, hsame, hc]
      rfl
  · obtain ⟨info, hinfo, hkind⟩ := h.others _ hp
    have hrecord : info.contextInfo = none := hkind.elim ShortPage.record LongPage.record
    simp only [Memory.memPageOf, hinfo, hrecord, Option.bind_eq_bind, Option.bind_some, hsame]
    rfl

/-- A page that is full after the block was freed is taken from the list and given back. -/
theorem giveBack (h : ContextInv m c pages) {block : MemBlock} {blocks : List MemBlock}
    (info' : MemPageInfo)
    (hmem : block.page ∈ pages) (hinfo : m.pageInfo block.page = some info)
    (hrecord : info'.contextInfo = info.contextInfo)
    (hother : ∀ q, q ≠ block.page → onPage blocks q = onPage m.blocks q)
    (hblocks : ∀ b ∈ blocks, b.page ∈ c :: pages ∧ b.page ≠ block.page ∧
      memBlockHeaderSize ≤ b.size ∧ b.memPage = b.page)
    (hcurr : m.currUsePage ≠ some block.page)
    (hstep : (({ m with blocks := blocks }.setPage block.page info').delDListNode
      (.page block.page)).bind
      (·.releaseMemPage block.page) = some m') : ∃ pages', ContextInv m' c pages' := by
  obtain ⟨front, back, hsplit⟩ := List.append_of_mem hmem
  have hnodup := h.ring.nodup
  rw [hsplit, List.map_cons, List.map_append, List.map_cons] at hnodup
  have halive := h.alive
  rw [hsplit, List.map_cons, List.map_append, List.map_cons] at halive
  have hring := h.ring
  rw [hsplit, List.map_cons, List.map_append, List.map_cons] at hring
  have hfront : block.page ∉ front := by
    intro hp
    rw [List.nodup_cons, List.nodup_cons, List.nodup_append] at hnodup
    exact hnodup.2.2.2.2 _ (List.mem_map_of_mem hp) _ List.mem_cons_self rfl
  have herase : pages.erase block.page = front ++ back := by
    rw [hsplit, List.erase_append_right _ hfront, List.erase_cons_head]
  let m₁ := { m with blocks := blocks }.setPage block.page info'
  have hsame : m₁.alive = m.alive :=
    Memory.alive_setPage (m := { m with blocks := blocks }) hinfo hrecord
  obtain ⟨next, prev, hdel, hring', -⟩ :=
    Memory.delDListNode_ring (m := m₁) (l := .page c :: front.map .page)
      (s := back.map .page) hring fun x hx => by
        rw [hsame]
        exact halive x hx
  rw [hdel, Option.bind_some, Memory.releaseMemPage] at hstep
  have hpage : (m₁.relinked next prev).pageInfo block.page = some info' :=
    Function.update_self ..
  rw [hpage] at hstep
  cases hstep
  refine ⟨pages.erase block.page,
    h.release hmem ?_ hother hblocks hcurr (Function.update_idem ..) _⟩
  rwa [herase, List.map_cons, List.map_append]

section FreeMem

variable {block : MemBlock}

/-- The blocks that are left when one is freed. -/
theorem erase_blocks (h : ContextInv m c pages) (block : MemBlock) :
    ∀ b ∈ m.blocks.erase block, b.page ∈ c :: pages ∧ memBlockHeaderSize ≤ b.size ∧
      b.memPage = b.page :=
  fun b hb => h.blocks b (List.mem_of_mem_erase hb)

/-- What `releaseToMemPage` does with a block in use, on a page that counts it. -/
theorem releaseToMemPage_erase (h : ContextInv m c pages) (hmem : block ∈ m.blocks)
    (hok : KeepsPages m (.freeMem block)) (hinfo : m.pageInfo block.page = some info)
    (hhead : info.memHead = some c) (hint : info.releaseSize + block.size < 2 ^ 32) :
    { m with blocks := m.blocks.erase block }.releaseToMemPage block =
      if info.releaseSize + block.size = info.memPageSize then
        (({ m with blocks := m.blocks.erase block }.setPage block.page
          { info with releaseSize := info.releaseSize + block.size }).delDListNode
          (.page block.page)).bind
          (·.releaseMemPage block.page)
      else some ({ m with blocks := m.blocks.erase block }.setPage block.page
        { info with releaseSize := info.releaseSize + block.size }) :=
  Memory.releaseToMemPage_eq (h.blocks block hmem).2.1
    (h.memPageOf_eq hmem hok) hinfo hhead hint

/-- A block of the first page is freed. -/
theorem freeMem_first (h : ContextInv m c pages) (hmem : block ∈ m.blocks)
    (hok : KeepsPages m (.freeMem block)) (hc : block.page = c)
    (hstep : { m with blocks := m.blocks.erase block }.releaseToMemPage block = some m') :
    ContextInv m' c pages := by
  have hsum := totalSize_erase hmem rfl
  obtain ⟨info, curr, hinfo, hown, -⟩ := h.own
  rw [← hc] at hinfo hown
  have hsize := hown.size
  have hnot := hown.not_full hsum
  have hint : info.releaseSize + block.size < 2 ^ 32 := by
    rw [hsize, memoryPoolPageSize] at hnot
    omega
  rw [h.releaseToMemPage_erase hmem hok hinfo (hc ▸ hown.head) hint, if_neg hnot.ne] at hstep
  cases hstep
  refine h.setPage hinfo (fun q hq => onPage_erase_ne hq.symm) (h.erase_blocks block) rfl rfl
    (.inl ⟨hc, fun curr' hown' _ => ?_⟩)
  rw [← hc] at hown' ⊢
  refine ⟨hown'.record, hown'.head, hown'.size, hown'.offset, hown'.place, ?_,
    fun b hb => hown'.short b (mem_onPage_of_erase hb)⟩
  have hcounter := hown'.counter
  change info.releaseSize + block.size + memPoolContextInfoSize +
      totalSize (onPage (m.blocks.erase block) block.page) =
    info.useOffset
  omega

/-- A block of a page for short blocks is freed. -/
theorem freeMem_short (h : ContextInv m c pages) (hmem : block ∈ m.blocks)
    (hok : KeepsPages m (.freeMem block))
    (hp : block.page ∈ pages) (hinfo : m.pageInfo block.page = some info)
    (hshort : ShortPage info c (onPage m.blocks block.page))
    (hstep : { m with blocks := m.blocks.erase block }.releaseToMemPage block = some m') :
    ∃ pages', ContextInv m' c pages' := by
  have hsum := totalSize_erase hmem rfl
  have hsmall : ¬ memoryPoolMinAllocSize ≤ block.size :=
    Nat.not_le.mpr (hshort.short block (mem_onPage.mpr ⟨hmem, rfl⟩))
  have hint : info.releaseSize + block.size < 2 ^ 32 := by
    have hcounter := hshort.counter
    have hoffset := hshort.offset
    rw [memoryPoolPageSize] at hoffset
    omega
  rw [h.releaseToMemPage_erase hmem hok hinfo hshort.head hint] at hstep
  rw [KeepsPages, if_neg hsmall] at hok
  split at hstep
  case isTrue hfull =>
    obtain ⟨hend, hrest⟩ := hshort.full hsum hfull
    have hnone : ∀ b ∈ m.blocks.erase block, b.page ≠ block.page := by
      intro b hb hbp
      have hle := size_le_totalSize (mem_onPage.mpr ⟨hb, hbp⟩)
      have hsize := (h.erase_blocks block b hb).2.1
      rw [memBlockHeaderSize] at hsize
      omega
    refine h.giveBack { info with releaseSize := info.releaseSize + block.size } hp hinfo rfl
      (fun q hq => onPage_erase_ne hq.symm) (fun b hb => ?_) (fun hcurr => ?_) hstep
    · exact ⟨(h.erase_blocks block b hb).1, hnone b hb, (h.erase_blocks block b hb).2⟩
    · have hother : m.current ≠ some block.page := by
        rw [h.current]
        exact fun heq => h.not_mem_pages (Option.some.inj heq ▸ hp)
      exact hok.2 hcurr hother (by simp [hinfo, hend]) (onPage_eq_nil hnone)
  case isFalse hfull =>
    cases hstep
    refine ⟨pages, h.setPage hinfo (fun q hq => onPage_erase_ne hq.symm)
      (h.erase_blocks block) rfl rfl
      (.inr ⟨hp, .inl ?_⟩)⟩
    refine ⟨hshort.record, hshort.head, hshort.size, hshort.offset, ?_,
      fun b hb => hshort.short b (mem_onPage_of_erase hb)⟩
    have hcounter := hshort.counter
    change info.releaseSize + block.size +
        totalSize (onPage (m.blocks.erase block) block.page) = info.useOffset
    omega

/-- The block of a page of its own is freed. -/
theorem freeMem_long (h : ContextInv m c pages) (hmem : block ∈ m.blocks)
    (hok : KeepsPages m (.freeMem block))
    (hp : block.page ∈ pages) (hinfo : m.pageInfo block.page = some info)
    (hlong : LongPage info c (onPage m.blocks block.page))
    (hstep : { m with blocks := m.blocks.erase block }.releaseToMemPage block = some m') :
    ∃ pages', ContextInv m' c pages' := by
  obtain ⟨b, hb, hbLong, hpageSize⟩ := hlong.block
  have hblock : block = b := by
    have hon := mem_onPage.mpr ⟨hmem, rfl⟩
    rw [hb] at hon
    exact List.mem_singleton.mp hon
  subst hblock
  rw [hb] at hlong
  have hint : info.releaseSize + block.size < 2 ^ 32 := by
    have hmax := hlong.small
    rw [hlong.counter, memPageInfoLen]
    omega
  rw [h.releaseToMemPage_erase hmem hok hinfo hlong.head hint] at hstep
  rw [KeepsPages, if_pos hbLong] at hok
  rw [if_pos (hlong.full_iff.mpr hok)] at hstep
  have hnone : ∀ b ∈ m.blocks.erase block, b.page ≠ block.page := by
    intro b' hb' hbp
    have hlen := (onPage_erase_self hmem rfl).length_eq
    have hpos := List.length_pos_of_mem (mem_onPage.mpr ⟨hb', hbp⟩)
    rw [hb, List.length_singleton, List.length_cons] at hlen
    omega
  refine h.giveBack { info with releaseSize := info.releaseSize + block.size } hp hinfo rfl
    (fun q hq => onPage_erase_ne hq.symm) (fun b hb => ?_) (fun hcurr => ?_) hstep
  · exact ⟨(h.erase_blocks block b hb).1, hnone b hb, (h.erase_blocks block b hb).2⟩
  · obtain ⟨ownInfo, curr, hown, hownPage, hcase⟩ := h.own
    rw [h.currUsePage_eq hown hownPage.record] at hcurr
    cases hcurr
    rcases hcase with hc | ⟨-, currInfo, hcurrInfo, hsize⟩
    · exact h.not_mem_pages (hc ▸ hp)
    · cases hinfo.symm.trans hcurrInfo
      exact hlong.size_ne hsize

/-- Frees keep the invariant. -/
theorem freeMem (h : ContextInv m c pages) (hok : KeepsPages m (.freeMem block))
    (hstep : m.freeMem block = some m') : ∃ pages', ContextInv m' c pages' := by
  rw [Memory.freeMem] at hstep
  split at hstep
  case isFalse => cases hstep
  case isTrue hcontains =>
    have hmem : block ∈ m.blocks := List.contains_iff_mem.mp hcontains
    rcases List.mem_cons.mp (h.blocks block hmem).1 with hc | hp
    · exact ⟨pages, h.freeMem_first hmem hok hc hstep⟩
    · obtain ⟨info, hinfo, hshort | hlong⟩ := h.others _ hp
      · exact h.freeMem_short hmem hok hp hinfo hshort hstep
      · exact h.freeMem_long hmem hok hp hinfo hlong hstep

end FreeMem

/-- A context that was just linked in, at the end of a list of contexts that were made. -/
theorem newContext (hunused : m.Unused) (hlinks : m.LinksMade)
    (hheads : m.HeadsMade) {head : Node}
    {next prev : Node → Node} (hhead : Memory.Made m.pageNum head)
    (hlink : m.withContext.addDListTail head (.memList m.pageNum) =
      some (m.withContext.relinked next prev)) :
    ContextInv { m.withContext.relinked next prev with current := some m.pageNum,
                                                       blocks := [] } m.pageNum [] := by
  have hne : head ≠ .memList m.pageNum := by
    rintro rfl
    exact Nat.lt_irrefl _ hhead
  -- the end of that list is not in the new page
  have hprevHead : m.withContext.prev head = m.prev head := by
    change Memory.contextLinks m.prev m.pageNum head = m.prev head
    cases head with
    | null | memListHead => simp [Memory.contextLinks]
    | page p | memList p | subList p | pageList p =>
      have hp : p ≠ m.pageNum := Nat.ne_of_lt hhead
      simp [Memory.contextLinks, hp]
  have htail : Memory.Made m.pageNum (m.withContext.prev head) := hprevHead ▸ (hlinks head).2
  have hnew {x : Node} (hx : ¬ Memory.Made m.pageNum x) (hxnode : x ≠ .memList m.pageNum) :
      next x = m.withContext.next x ∧ prev x = m.withContext.prev x := by
    obtain ⟨hnext, hprev⟩ := Memory.addDListTail_frame hne hlink hxnode
    exact ⟨hnext fun heq => hx (heq ▸ htail), hprev fun heq => hx (heq ▸ hhead)⟩
  have hlist := hnew (x := .pageList m.pageNum) (Nat.lt_irrefl _) (by simp)
  have hpage := hnew (x := .page m.pageNum) (Nat.lt_irrefl _) (by simp)
  have hold {p : Nat} (hp : p ≠ m.pageNum) : m.withContext.pageInfo p = m.pageInfo p :=
    Function.update_of_ne hp ..
  constructor
  · rfl
  · exact Memory.Unused.withContext hunused
  · refine ring_pair (by simp) (hlist.1.trans ?_) (hpage.1.trans ?_)
      (hpage.2.trans ?_) (hlist.2.trans ?_)
    all_goals simp [Memory.withContext, Memory.withPage, Memory.contextLinks]
  · exact ⟨Memory.newContextPage m.pageNum, m.pageNum, Function.update_self ..,
      ⟨rfl, rfl, rfl, (by decide : 176 ≤ 4096), .inl rfl,
      rfl, List.forall_mem_nil _⟩, .inl rfl⟩
  · exact List.forall_mem_nil _
  · intro p info hp hc
    by_cases hpn : p = m.pageNum
    · rw [hpn]
      exact List.mem_cons_self
    · exact absurd (hheads p info _ ((hold hpn).symm.trans hp) hc) (Nat.lt_irrefl _)
  · exact List.forall_mem_nil _

/-- A new context has the page with its record. -/
theorem of_newContext (h : NewContext m c) : ContextInv m c [] := by
  cases h with
  | init =>
    obtain ⟨next, prev, hlink, heq⟩ := Memory.start_eq
    obtain ⟨hunused, hlinks, hheads⟩ := Memory.noContext_made
    rw [heq] at hlink ⊢
    have hhead : Memory.Made 0 .memListHead := trivial
    exact newContext hunused hlinks hheads hhead hlink
  | new hcalls hnew =>
    obtain ⟨current, next, prev, hcurrent, hlink, rfl⟩ :=
      Memory.memMangerNewContext_cases hnew
    have hmade := Memory.calls_wellMade hcalls
    have hhead : Memory.Made _ (.subList current) := hmade.current current hcurrent
    exact newContext hmade.unused hmade.links hmade.heads hhead hlink

theorem step (h : ContextInv m c pages) {op : ContextOp} (hok : KeepsPages m op)
    (hstep : contextStep m op = some m') :
    ∃ pages', ContextInv m' c pages' := by
  cases op with
  | allocMem size => exact h.allocMem hok hstep
  | freeMem block => exact h.freeMem hok hstep

end ContextInv

/-! ## Runs -/

section Runs

variable {m m' : Memory} {c : Nat} {ops : List ContextOp}

/-- After any allocations and frees in a context that keep its pages, they are as they should
be. -/
theorem pageList_ok (hnew : NewContext m c)
    (hok : Transition.Along contextStep KeepsPages m ops)
    (hrun : Transition.run contextStep m ops = some m') : ∃ pages, PageList m' c pages := by
  have hstep {s t : Memory} {op : ContextOp} :
      (∃ pages, ContextInv s c pages) → KeepsPages s op →
      contextStep s op = some t → ∃ pages, ContextInv t c pages :=
        fun ⟨_, h⟩ hkeeps => h.step hkeeps
  obtain ⟨pages, h⟩ :=
    Transition.run_invariant (I := fun s => ∃ pages, ContextInv s c pages) hstep
      ⟨[], ContextInv.of_newContext hnew⟩ hok hrun
  exact ⟨c :: pages, h.pageList⟩

end Runs

/-- Blocks on three pages; one page is given back with a long block, and one with the last of
its blocks. -/
def contextBlocks : List ContextOp :=
  [.allocMem 4000, .allocMem 32, .allocMem 8140, .allocMem 100, .freeMem ⟨1, 4052, 44, 1⟩,
    .freeMem ⟨2, 40, 8152, 2⟩,
    .freeMem ⟨1, 40, 4012, 1⟩]

theorem contextBlocks_pageList :
    (Transition.run contextStep Memory.start contextBlocks).isSome = true ∧
      (Transition.exec contextStep Memory.start contextBlocks).released = [2, 1] ∧
      ∃ pages, PageList (Transition.exec contextStep Memory.start contextBlocks) 0 pages := by
  have hrun : (Transition.run contextStep Memory.start contextBlocks).isSome =
      true := by decide
  exact ⟨hrun, by decide, pageList_ok .init (by decide) (Transition.run_exec hrun)⟩

/-- A block of 5000 bytes is freed. -/
def longFreed : List ContextOp := [.allocMem 5000, .freeMem ⟨1, 40, 5012, 1⟩]

/-- Both blocks of a full page are freed. -/
def fullFreed : List ContextOp :=
  [.allocMem 4000, .allocMem 32, .freeMem ⟨1, 40, 4012, 1⟩, .freeMem ⟨1, 4052, 44, 1⟩]

/-- The block behind the record is freed, and two of the three on the next page. -/
def firstFreed : List ContextOp :=
  [.allocMem 8, .allocMem 4000, .allocMem 12, .allocMem 8, .freeMem ⟨0, 176, 20, 0⟩,
    .freeMem ⟨1, 40, 4012, 1⟩,
    .freeMem ⟨1, 4052, 24, 1⟩]

/-- The page of the long block is kept, the full page is given back while it is the current
one, and the last page while a block is in use on it. -/
theorem freeMem_losesPages :
    ((Transition.run contextStep Memory.start longFreed).isSome = true ∧
      ¬ ∃ pages, PageList (Transition.exec contextStep Memory.start longFreed) 0 pages) ∧
    ((Transition.run contextStep Memory.start fullFreed).isSome = true ∧
      ¬ ∃ pages, PageList (Transition.exec contextStep Memory.start fullFreed) 0 pages) ∧
    (Transition.run contextStep Memory.start firstFreed).isSome = true ∧
      ¬ ∃ pages, PageList (Transition.exec contextStep Memory.start firstFreed) 0 pages := by
  refine ⟨⟨by decide, ?_⟩, ⟨by decide, ?_⟩, by decide, ?_⟩
  · rintro ⟨pages, h⟩
    have hpage : (Transition.exec contextStep Memory.start longFreed).pageInfo 1 =
        some ⟨some 0, 8192, 5052, 5052, none⟩ := by
      decide
    have hblocks : (Transition.exec contextStep Memory.start longFreed).blocks =
        [] := by decide
    obtain ⟨block, hblock, -⟩ := h.long 1 (h.all 1 _ hpage rfl) _ hpage (by decide)
    rw [hblocks] at hblock
    cases hblock
  · rintro ⟨pages, h⟩
    have hcurr : (Transition.exec contextStep Memory.start fullFreed).currUsePage =
        some 1 := by decide
    have hpage : (Transition.exec contextStep Memory.start fullFreed).pageInfo 1 =
        none := by decide
    obtain ⟨p, hp, heq⟩ := h.current
    obtain rfl := Option.some.inj (hcurr.symm.trans heq)
    have hinUse := h.inUse 1 hp
    rw [hpage] at hinUse
    cases hinUse
  · rintro ⟨pages, h⟩
    have hblock : ⟨1, 4076, 20, 1⟩ ∈
        (Transition.exec contextStep Memory.start firstFreed).blocks := by decide
    have hpage : (Transition.exec contextStep Memory.start firstFreed).pageInfo 1 =
        none := by decide
    have hinUse := h.inUse 1 (h.blocks _ hblock)
    rw [hpage] at hinUse
    cases hinUse

end Toadb.MemPool
