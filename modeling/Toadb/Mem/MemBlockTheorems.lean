/-
Toadb.Mem.MemBlockTheorems — do the blocks of the memory pool overlap?

A page for one long block is long enough unless the block and the header of the
page are one byte longer than a multiple of 8192 (`oversize_fits_iff`). The
record of a context is put in its first page without room for the header of its
block, and whatever comes next there is laid over its end; so that page must not
get a block.

`blocksApart_iff` says the same of whole sequences of calls.
-/
import Toadb.Mem.MemPoolTheorems

namespace Toadb.MemPool

open Regions

/-! ## Sizes -/

section Sizes

variable {size : BitVec 32}

/-- The mask clears the last 13 bits. -/
theorem and_pageMask {y : Nat} (hy : y < 2 ^ 32) : y &&& 0xFFFFE000 = y / 8192 * 8192 := by
  have hmask : (0xFFFFE000 : Nat) = (2 ^ 19 - 1) <<< 13 := rfl
  have hshift : y / 8192 * 8192 = (y >>> 13) <<< 13 := by
    rw [Nat.shiftLeft_eq, Nat.shiftRight_eq_div_pow]
  rw [hshift, hmask]
  refine Nat.eq_of_testBit_eq fun i => ?_
  rw [Nat.testBit_and, Nat.testBit_shiftLeft, Nat.testBit_shiftLeft,
    Nat.testBit_two_pow_sub_one, Nat.testBit_shiftRight]
  by_cases hi : 13 ≤ i
  · rw [Nat.add_sub_cancel' hi]
    by_cases htop : i < 32
    · simp [hi, show i - 13 < 19 by omega]
    · rw [Nat.testBit_lt_two_pow
        (hy.trans_le (Nat.pow_le_pow_right Nat.two_pos (Nat.not_lt.mp htop)))]
      simp
  · simp [hi]

/-- A request whose rounded size is no more than 32 bits long. -/
def Requestable (size : BitVec 32) : Prop := size.toNat + 8242 < 2 ^ 32

instance (size : BitVec 32) : Decidable (Requestable size) :=
  inferInstanceAs (Decidable (_ < _))

theorem blockSize_eq (h : Requestable size) :
    Memory.blockSize size = size.toNat + memBlockHeaderSize := by
  rw [Requestable] at h
  rw [Memory.blockSize, BitVec.toNat_add, BitVec.toNat_ofNat, memBlockHeaderSize]
  omega

theorem oversizePageSize_eq (h : Requestable size) :
    Memory.oversizePageSize size = (size.toNat + 8242) / 8192 * 8192 := by
  have hblock := blockSize_eq h
  rw [Memory.blockSize, memBlockHeaderSize] at hblock
  rw [Requestable] at h
  have hcomplement : (~~~ (0xFFFFE000 : BitVec 32)).setWidth 64 = 8191 := rfl
  have hsum : ((size + BitVec.ofNat 32 memBlockHeaderSize).setWidth 64 + 40 + 8191 - 1 :
      BitVec 64).toNat =
      size.toNat + 8242 := by
    rw [memBlockHeaderSize, BitVec.toNat_sub, BitVec.toNat_add, BitVec.toNat_add,
      BitVec.toNat_setWidth, hblock]
    change (2 ^ 64 - 1 + (((size.toNat + 12) % 2 ^ 64 + 40) % 2 ^ 64 + 8191) % 2 ^ 64) %
        2 ^ 64 = _
    omega
  have hmask : (0xFFFFE000 : BitVec 64).toNat = 0xFFFFE000 := rfl
  have hle := Nat.div_mul_le_self (size.toNat + 8242) 8192
  rw [Memory.oversizePageSize, alignSize, hcomplement, BitVec.toNat_setWidth,
    BitVec.toNat_and, hsum, hmask,
    and_pageMask h, Nat.mod_eq_of_lt (by omega)]

/-- The page for one block is long enough for it. -/
theorem oversize_fits_iff (h : Requestable size) :
    memPageInfoLen + Memory.blockSize size ≤ Memory.oversizePageSize size ↔
      (size.toNat + 52) % 8192 ≠ 1 := by
  rw [blockSize_eq h, oversizePageSize_eq h, memPageInfoLen, memBlockHeaderSize]
  omega

end Sizes

/-! ## The property -/

/-- The header and the content of a block. -/
def MemBlock.region (block : MemBlock) : Region := ⟨block.offset, block.size⟩

/-- The record of a context, with the header in front of it. -/
def recordRegion : Region := ⟨memPageInfoLen, memBlockHeaderSize + memPoolContextInfoSize⟩

/-- Blocks and records are in their pages, and no two of one page share a byte. -/
structure BlocksApart (m : Memory) : Prop where
  within : ∀ block ∈ m.blocks, ∃ info,
    m.pageInfo block.page = some info ∧ block.region.Within info.memPageSize
  record_within : ∀ c info, m.pageInfo c = some info → info.contextInfo.isSome = true →
    recordRegion.Within info.memPageSize
  apart : m.blocks.Pairwise fun block block' => block.page = block'.page →
    block.region.Apart block'.region
  record_apart : ∀ block ∈ m.blocks, ∀ info, m.pageInfo block.page = some info →
    info.contextInfo.isSome = true →
    block.region.Apart recordRegion

/-- The calls that make contexts and blocks. -/
inductive MakeOp where
  | newContext
  | switchContext (context : Option Nat)
  | allocMem (size : BitVec 32) (hsize : Requestable size)

def MakeOp.op : MakeOp → Op
  | .newContext => .newContext
  | .switchContext context => .switchContext context
  | .allocMem size _ => .allocMem size

def makeStep (m : Memory) (op : MakeOp) : Option Memory := step m op.op

/-- The current page of the current context. -/
def Memory.currUsePage (m : Memory) : Option Nat := do
  let contextInfo ← (← m.pageInfo (← m.current)).contextInfo
  contextInfo.currUsePage

/-- A long block is not one byte longer than its page; a short one is not put in the page with
the record. -/
def MakesApart (m : Memory) : MakeOp → Prop
  | .allocMem size _ =>
      if memoryPoolMinAllocSize ≤ size.toNat + memBlockHeaderSize then
        (size.toNat + 52) % 8192 ≠ 1
      else m.currUsePage = m.current → 3908 < size.toNat
  | _ => True

instance (m : Memory) : (op : MakeOp) → Decidable (MakesApart m op)
  | .newContext => isTrue trivial
  | .switchContext _ => isTrue trivial
  | .allocMem size _ =>
      inferInstanceAs (Decidable
        (if memoryPoolMinAllocSize ≤ size.toNat + memBlockHeaderSize then _ else _))

/-! ## The invariant -/

/-- No block is in a page with a record, where the offset stays behind the size of the
record. -/
structure BlocksInv (m : Memory) : Prop where
  unused : ∀ p, m.pageNum ≤ p → m.pageInfo p = none
  records : ∀ c info, m.pageInfo c = some info → info.contextInfo.isSome = true →
    info.useOffset = memPageInfoLen + memPoolContextInfoSize ∧
      info.memPageSize = memoryPoolPageSize
  current : ∀ c info contextInfo p, m.pageInfo c = some info →
    info.contextInfo = some contextInfo →
    contextInfo.currUsePage = some p →
    ∃ pageInfo, m.pageInfo p = some pageInfo ∧ (pageInfo.contextInfo.isSome = true → p = c)
  pages : ∀ p info, m.pageInfo p = some info → info.contextInfo = none →
    info.useOffset ≤ info.memPageSize ∧ info.memPageSize < 2 ^ 32
  blocks : ∀ block ∈ m.blocks, ∃ info,
    m.pageInfo block.page = some info ∧ info.contextInfo = none ∧
    block.offset + block.size ≤ info.useOffset
  apart : m.blocks.Pairwise fun block block' => block.page = block'.page →
    block.region.Apart block'.region

namespace BlocksInv

variable {m m' : Memory}

theorem blocksApart (h : BlocksInv m) : BlocksApart m where
  within block hblock := by
    obtain ⟨info, hinfo, hcontext, hend⟩ := h.blocks block hblock
    have hle := (h.pages _ _ hinfo hcontext).1
    refine ⟨info, hinfo, Int.natCast_nonneg _, ?_⟩
    change ((block.offset : Int) + block.size) ≤ info.memPageSize
    omega
  record_within c info hinfo hcontext := by
    rw [(h.records c info hinfo hcontext).2]
    decide
  apart := h.apart
  record_apart block hblock info hinfo hcontext := by
    obtain ⟨info', hinfo', hnone, -⟩ := h.blocks block hblock
    obtain rfl := Option.some.inj (hinfo.symm.trans hinfo')
    rw [hnone] at hcontext
    cases hcontext

/-- A new page has the block at its start. -/
theorem withCarved (h : BlocksInv m) {c : Nat} {info : MemPageInfo}
    {contextInfo : MemPoolContextInfo} (hinfo : m.pageInfo c = some info)
    (hcontext : info.contextInfo = some contextInfo) {pageSize n : Nat}
    (hfit : memPageInfoLen + n ≤ pageSize) (hmax : pageSize < 2 ^ 32) (isSwitchCurrent : Bool)
    (next prev : Node → Node) :
    BlocksInv { m.withCarved c info pageSize n isSwitchCurrent next prev with
      blocks := ⟨m.pageNum, memPageInfoLen, n, m.pageNum⟩ :: m.blocks } := by
  have hused : ∀ p info, m.pageInfo p = some info → p < m.pageNum :=
    fun _ _ => Memory.Unused.lt h.unused
  have hc := hused c info hinfo
  have hnew : (m.withCarved c info pageSize n isSwitchCurrent next prev).pageInfo m.pageNum =
      _ := Memory.withCarved_new
  have hoffset : (Memory.carvedPage (Memory.newPageInfo c pageSize) m.pageNum n).useOffset =
      memPageInfoLen + n :=
    Nat.mod_eq_of_lt (hfit.trans_lt hmax)
  -- an old page, with a record that may have another current page
  have hold : ∀ p info',
      (m.withCarved c info pageSize n isSwitchCurrent next prev).pageInfo p = some info' →
      p ≠ m.pageNum → ∃ info₀, m.pageInfo p = some info₀ ∧ info'.useOffset = info₀.useOffset ∧
        info'.memPageSize = info₀.memPageSize ∧
          info'.contextInfo.isSome = info₀.contextInfo.isSome ∧
        (info' = info₀ ∨ info'.contextInfo = some ⟨some m.pageNum⟩) := by
    intro p info' hp hne
    rw [Memory.withCarved_old hne] at hp
    split at hp
    case isTrue hif =>
      obtain ⟨-, rfl⟩ := hif
      cases hp
      exact ⟨info, hinfo, rfl, rfl, by rw [hcontext]; rfl, .inr rfl⟩
    case isFalse => exact ⟨info', hp, rfl, rfl, rfl, .inl rfl⟩
  have hkept : ∀ p pageInfo, m.pageInfo p = some pageInfo →
      ∃ pageInfo', (m.withCarved c info pageSize n isSwitchCurrent next prev).pageInfo p =
        some pageInfo' ∧
        pageInfo.contextInfo.isSome = pageInfo'.contextInfo.isSome := by
    intro p pageInfo hp
    rw [Memory.withCarved_old (hused p pageInfo hp).ne]
    split
    case isTrue hif =>
      rw [hif.2, hinfo] at hp
      cases hp
      exact ⟨_, rfl, by rw [hcontext]; rfl⟩
    case isFalse => exact ⟨pageInfo, hp, rfl⟩
  constructor
  · intro p hp
    change m.pageNum + 1 ≤ p at hp
    change (m.withCarved c info pageSize n isSwitchCurrent next prev).pageInfo p = none
    have hne : p ≠ m.pageNum := by omega
    have hother : ¬ (isSwitchCurrent = true ∧ p = c) := by
      intro hif
      have hpc : p = c := hif.2
      omega
    rw [Memory.withCarved_old hne, if_neg hother, h.unused p (by omega)]
  · intro c' info' hc' hsome
    by_cases hp : c' = m.pageNum
    · rw [hp] at hc'
      cases hnew.symm.trans hc'
      cases hsome
    · obtain ⟨info₀, hinfo₀, hsame, hsize, hrec, -⟩ := hold _ _ hc' hp
      rw [hsame, hsize]
      exact h.records c' info₀ hinfo₀ (hrec ▸ hsome)
  · intro c' info' contextInfo' p hc' hcontext' hcurr
    have hcn : c' ≠ m.pageNum := by
      rintro rfl
      cases hnew.symm.trans hc'
      cases hcontext'
    obtain ⟨info₀, hinfo₀, -, -, -, rfl | hnewCurr⟩ := hold _ _ hc' hcn
    · obtain ⟨pageInfo, hpage, hrecord⟩ :=
        h.current c' info' contextInfo' p hinfo₀ hcontext' hcurr
      obtain ⟨pageInfo', hpage', hsame⟩ := hkept p pageInfo hpage
      exact ⟨pageInfo', hpage', hsame ▸ hrecord⟩
    · -- the current page is the new one
      rw [hnewCurr] at hcontext'
      cases hcontext'
      cases hcurr
      exact ⟨_, hnew, fun hsome => by cases hsome⟩
  · intro p info' hp hnone
    by_cases hpn : p = m.pageNum
    · rw [hpn] at hp
      cases hnew.symm.trans hp
      rw [hoffset]
      exact ⟨hfit, hmax⟩
    · obtain ⟨info₀, hinfo₀, hsame, hsize, hrec, -⟩ := hold _ _ hp hpn
      rw [hsame, hsize]
      exact h.pages p info₀ hinfo₀ (by simpa [hnone] using hrec)
  · intro block hblock
    rcases List.mem_cons.mp hblock with rfl | hblock
    · exact ⟨_, hnew, rfl, hoffset.ge⟩
    · obtain ⟨info₀, hinfo₀, hnone, hend⟩ := h.blocks block hblock
      have hne : block.page ≠ m.pageNum := (hused _ _ hinfo₀).ne
      have hother : ¬ (isSwitchCurrent = true ∧ block.page = c) := by
        rintro ⟨-, hbc⟩
        rw [hbc, hinfo] at hinfo₀
        cases hinfo₀
        rw [hcontext] at hnone
        cases hnone
      refine ⟨info₀, ?_, hnone, hend⟩
      change (m.withCarved c info pageSize n isSwitchCurrent next prev).pageInfo block.page =
          some info₀
      rw [Memory.withCarved_old hne, if_neg hother, hinfo₀]
  · refine List.pairwise_cons.mpr ⟨fun block hblock heq => ?_, h.apart⟩
    obtain ⟨info₀, hinfo₀, -, -⟩ := h.blocks block hblock
    exact absurd heq.symm (hused _ _ hinfo₀).ne

/-- A page without a record has the block behind the others. -/
theorem setCarved (h : BlocksInv m) {p : Nat} {pageInfo : MemPageInfo} {n : Nat}
    (hinfo : m.pageInfo p = some pageInfo) (hnone : pageInfo.contextInfo = none)
    (hroom : pageInfo.useOffset + n ≤ pageInfo.memPageSize) :
    BlocksInv { m.setPage p (Memory.carvedPage pageInfo p n) with
      blocks := ⟨p, pageInfo.useOffset, n, p⟩ :: m.blocks } := by
  have hcarved : (Memory.carvedPage pageInfo p n).contextInfo = none := by
    rw [Memory.carvedPage, hnone]
    rfl
  have hnew : (m.setPage p (Memory.carvedPage pageInfo p n)).pageInfo p =
      some (Memory.carvedPage pageInfo p n) :=
    Function.update_self ..
  have hmax := (h.pages p pageInfo hinfo hnone).2
  have hoffset : (Memory.carvedPage pageInfo p n).useOffset = pageInfo.useOffset + n :=
    Nat.mod_eq_of_lt (hroom.trans_lt hmax)
  have hold (q : Nat) (hq : q ≠ p) :
      (m.setPage p (Memory.carvedPage pageInfo p n)).pageInfo q = m.pageInfo q :=
    Function.update_of_ne hq ..
  -- a page with a record is another one
  have hrecord : ∀ q info, (m.setPage p (Memory.carvedPage pageInfo p n)).pageInfo q =
      some info →
      info.contextInfo.isSome = true → m.pageInfo q = some info := by
    intro q info hq hsome
    by_cases hqp : q = p
    · rw [hqp, hnew] at hq
      cases hq
      rw [hcarved] at hsome
      cases hsome
    · rwa [hold q hqp] at hq
  constructor
  · intro q hq
    have hqp : q ≠ p := by
      rintro rfl
      rw [h.unused q hq] at hinfo
      cases hinfo
    exact (hold q hqp).trans (h.unused q hq)
  · intro c info hc hsome
    exact h.records c info (hrecord c info hc hsome) hsome
  · intro c info contextInfo q hc hcontext hcurr
    obtain ⟨qInfo, hq, hrec⟩ := h.current c info contextInfo q
        (hrecord c info hc (by rw [hcontext]; rfl)) hcontext hcurr
    by_cases hqp : q = p
    · rw [hqp]
      refine ⟨_, hnew, fun hsome => ?_⟩
      rw [hcarved] at hsome
      cases hsome
    · exact ⟨qInfo, (hold q hqp).trans hq, hrec⟩
  · intro q info hq hqnone
    by_cases hqp : q = p
    · rw [hqp] at hq
      cases hnew.symm.trans hq
      rw [hoffset]
      exact ⟨hroom, hmax⟩
    · exact h.pages q info ((hold q hqp).symm.trans hq) hqnone
  · intro block hblock
    rcases List.mem_cons.mp hblock with rfl | hblock
    · exact ⟨_, hnew, hcarved, hoffset.ge⟩
    · obtain ⟨info, hblockInfo, hblockNone, hend⟩ := h.blocks block hblock
      by_cases hbp : block.page = p
      · rw [hbp, hinfo] at hblockInfo
        cases hblockInfo
        refine ⟨_, ?_, hcarved, (hend.trans (Nat.le_add_right _ _)).trans hoffset.ge⟩
        rw [hbp]
        exact hnew
      · exact ⟨info, (hold _ hbp).trans hblockInfo, hblockNone, hend⟩
  · refine List.pairwise_cons.mpr ⟨fun block hblock heq => .inr ?_, h.apart⟩
    obtain ⟨info, hblockInfo, -, hend⟩ := h.blocks block hblock
    have hbp : p = block.page := heq
    rw [← hbp, hinfo] at hblockInfo
    cases hblockInfo
    change ((block.offset : Int) + block.size) ≤ pageInfo.useOffset
    omega

/-- A new context has no blocks. -/
theorem withContext (h : BlocksInv m) (next prev : Node → Node) :
    BlocksInv { m.withContext.relinked next prev with current := some m.pageNum } := by
  have hnew : m.withContext.pageInfo m.pageNum = some (Memory.newContextPage m.pageNum) :=
    Function.update_self ..
  have hold (p : Nat) (hp : p ≠ m.pageNum) : m.withContext.pageInfo p = m.pageInfo p :=
    Function.update_of_ne hp ..
  have hkept (p : Nat) (info : MemPageInfo) (hp : m.pageInfo p = some info) : p ≠ m.pageNum :=
    (Memory.Unused.lt h.unused hp).ne
  constructor
  · intro p hp
    change m.pageNum + 1 ≤ p at hp
    exact (hold p (by omega)).trans (h.unused p (by omega))
  · intro c info hc hsome
    by_cases hcn : c = m.pageNum
    · rw [hcn] at hc
      cases hnew.symm.trans hc
      exact ⟨rfl, rfl⟩
    · exact h.records c info ((hold c hcn).symm.trans hc) hsome
  · intro c info contextInfo p hc hcontext hcurr
    by_cases hcn : c = m.pageNum
    · rw [hcn] at hc ⊢
      cases hnew.symm.trans hc
      cases hcontext
      cases hcurr
      exact ⟨_, hnew, fun _ => rfl⟩
    · obtain ⟨pageInfo, hp, hrec⟩ :=
        h.current c info contextInfo p ((hold c hcn).symm.trans hc) hcontext hcurr
      exact ⟨pageInfo, (hold p (hkept p pageInfo hp)).trans hp, hrec⟩
  · intro p info hp hnone
    by_cases hpn : p = m.pageNum
    · rw [hpn] at hp
      cases hnew.symm.trans hp
      cases hnone
    · exact h.pages p info ((hold p hpn).symm.trans hp) hnone
  · intro block hblock
    obtain ⟨info, hinfo, hnone, hend⟩ := h.blocks block hblock
    exact ⟨info, (hold _ (hkept _ info hinfo)).trans hinfo, hnone, hend⟩
  · exact h.apart

theorem noContext : BlocksInv Memory.noContext := by
  constructor
  · exact fun _ _ => rfl
  · intro c info hc
    cases hc
  · intro c info contextInfo p hc
    cases hc
  · intro p info hp
    cases hp
  · intro block hblock
    cases hblock
  · exact List.Pairwise.nil

theorem start : BlocksInv Memory.start := by
  obtain ⟨next, prev, -, heq⟩ := Memory.start_eq
  rw [heq]
  exact noContext.withContext next prev

/-- Another current context. -/
theorem withCurrent (h : BlocksInv m) (context : Option Nat) :
    BlocksInv { m with current := context } :=
  ⟨h.unused, h.records, h.current, h.pages, h.blocks, h.apart⟩

end BlocksInv

/-! ## Steps -/

section Steps

variable {m m' : Memory} {c : Nat} {info : MemPageInfo}
  {contextInfo : MemPoolContextInfo} {size : BitVec 32}
  {block : MemBlock}

theorem currUsePage_eq (hcurrent : m.current = some c) (hinfo : m.pageInfo c = some info)
    (hcontext : info.contextInfo = some contextInfo) :
    m.currUsePage = contextInfo.currUsePage := by
  simp only [Memory.currUsePage, hcurrent, hinfo, hcontext,
    Option.bind_eq_bind, Option.bind_some]

theorem withCarved_fits {pageSize n : Nat} {isSwitchCurrent : Bool} {next prev : Node → Node}
    (h : BlocksApart { m.withCarved c info pageSize n isSwitchCurrent next prev with
      blocks := ⟨m.pageNum, memPageInfoLen, n, m.pageNum⟩ :: m.blocks }) :
      memPageInfoLen + n ≤ pageSize := by
  obtain ⟨info', hinfo', -, hstop⟩ := h.within _ List.mem_cons_self
  cases (Memory.withCarved_new (m := m)).symm.trans hinfo'
  change ((memPageInfoLen : Int) + n) ≤ pageSize at hstop
  omega

/-- An allocation keeps the invariant, or makes a block that does not lie apart. -/
theorem allocMem_step (h : BlocksInv m) (hsize : Requestable size)
    (hstep : m.allocMem size = some m') :
    (MakesApart m (.allocMem size hsize) → BlocksInv m') ∧
      (BlocksApart m' → MakesApart m (.allocMem size hsize)) := by
  rw [Memory.allocMem, Option.bind_eq_bind, Option.bind_eq_some_iff] at hstep
  obtain ⟨⟨m₁, block⟩, halloc, hblocks⟩ := hstep
  obtain ⟨c, info, contextInfo, hcurrent, hinfo, hcontext, hcase⟩ :=
    Memory.allocFromMemPool_cases halloc
  have hn := blockSize_eq hsize
  cases hblocks
  cases hcase with
  | oversize next prev hmin halign hlink =>
    have hlong : memoryPoolMinAllocSize ≤ size.toNat + memBlockHeaderSize := hn ▸ hmin
    rw [MakesApart, if_pos hlong, ← oversize_fits_iff hsize]
    exact ⟨fun hfit => h.withCarved hinfo hcontext hfit (by omega) false next prev,
      fun hapart => withCarved_fits hapart⟩
  | current p pageInfo hmin hpos hcurr hpage hroom =>
    have hshort : ¬ memoryPoolMinAllocSize ≤ size.toNat + memBlockHeaderSize := by omega
    rw [MakesApart, if_neg hshort, currUsePage_eq hcurrent hinfo hcontext, hcurr, hcurrent]
    obtain ⟨pageInfo', hpage', hrecord⟩ := h.current c info contextInfo p hinfo hcontext hcurr
    cases hpage.symm.trans hpage'
    cases hpageContext : pageInfo.contextInfo with
    | none =>
      refine ⟨fun _ => h.setCarved hpage hpageContext hroom, fun _ heq => ?_⟩
      cases heq
      cases hpage.symm.trans hinfo
      rw [hpageContext] at hcontext
      cases hcontext
    | some pageContext =>
      -- the first page of the context
      obtain rfl := hrecord (by rw [hpageContext]; rfl)
      obtain ⟨hoffset, hpageSize⟩ := h.records p pageInfo hpage (by rw [hpageContext]; rfl)
      rw [hoffset, hpageSize, hn, memoryPoolPageSize, memPageInfoLen, memPoolContextInfoSize,
        memBlockHeaderSize] at hroom
      refine ⟨fun hok => absurd (hok rfl) (by omega), fun hapart => ?_⟩
      have hlap := hapart.record_apart _ List.mem_cons_self
          (Memory.carvedPage pageInfo p (Memory.blockSize size))
        (Function.update_self ..) (by rw [Memory.carvedPage, hpageContext]; rfl)
      change ((pageInfo.useOffset : Int) + Memory.blockSize size ≤ memPageInfoLen ∨
        ((memPageInfoLen : Int) + (memBlockHeaderSize + memPoolContextInfoSize : Nat) ≤
          pageInfo.useOffset)) at hlap
      rw [hoffset, memPageInfoLen, memPoolContextInfoSize, memBlockHeaderSize] at hlap
      omega
  | newPage p pageInfo next prev hmin hpos hcurr hpage hroom hlink =>
    have hshort : ¬ memoryPoolMinAllocSize ≤ size.toNat + memBlockHeaderSize := by omega
    have hfit : memPageInfoLen + Memory.blockSize size ≤ memoryPoolPageSize := by
      rw [memoryPoolMinAllocSize, memoryPoolPageSize, memPageInfoLen] at hmin
      rw [memoryPoolPageSize, memPageInfoLen]
      omega
    rw [MakesApart, if_neg hshort, currUsePage_eq hcurrent hinfo hcontext, hcurr, hcurrent]
    refine ⟨fun _ => h.withCarved hinfo hcontext hfit (by decide) true next prev,
      fun _ heq => ?_⟩
    cases heq
    obtain rfl := Option.some.inj (hinfo.symm.trans hpage)
    obtain ⟨hoffset, hpageSize⟩ := h.records _ info hpage (by rw [hcontext]; rfl)
    rw [hoffset, hpageSize, hn, memoryPoolPageSize, memPageInfoLen, memPoolContextInfoSize,
      memBlockHeaderSize] at hroom
    omega

/-- A call keeps the invariant, or makes a block that does not lie apart. -/
theorem makeStep_step (h : BlocksInv m) {op : MakeOp} (hstep : makeStep m op = some m') :
    (MakesApart m op → BlocksInv m') ∧ (BlocksApart m' → MakesApart m op) := by
  cases op with
  | newContext =>
    obtain ⟨current, next, prev, -, -, rfl⟩ := Memory.memMangerNewContext_cases hstep
    exact ⟨fun _ => h.withContext next prev, fun _ => trivial⟩
  | switchContext context =>
    rw [makeStep, MakeOp.op, step, Option.ite_none_right_eq_some] at hstep
    cases hstep.2
    exact ⟨fun _ => h.withCurrent context, fun _ => trivial⟩
  | allocMem size hsize => exact allocMem_step h hsize hstep

/-- Along a sequence of calls the blocks lie apart if and only if no block is put in the first
page of a context, and no long one is one byte longer than its page. -/
theorem blocksApart_iff {ops : List MakeOp}
    (hrun : Transition.run makeStep Memory.start ops = some m) :
    (∀ front back m', ops = front ++ back →
      Transition.run makeStep Memory.start front = some m' → BlocksApart m') ↔
      Transition.Along makeStep MakesApart Memory.start ops :=
  Transition.run_property_iff (fun h => h.blocksApart)
    (fun h hstep => makeStep_step h hstep) BlocksInv.start hrun

end Steps

theorem requestable_8 : Requestable 8 := by decide

theorem requestable_4000 : Requestable 4000 := by decide

theorem requestable_5000 : Requestable 5000 := by decide

theorem requestable_8141 : Requestable 8141 := by decide

/-- A long block, and two that are too long for what is left of the first page of a
context. -/
def longBlocks : List MakeOp :=
  [.allocMem 5000 requestable_5000, .newContext, .allocMem 4000 requestable_4000,
    .allocMem 8 requestable_8]

theorem longBlocks_apart : (Transition.run makeStep Memory.start longBlocks).isSome = true ∧
    ∀ front back m', longBlocks = front ++ back →
      Transition.run makeStep Memory.start front = some m' → BlocksApart m' := by
  have hrun : (Transition.run makeStep Memory.start longBlocks).isSome = true := by decide
  exact ⟨hrun, (blocksApart_iff (Transition.run_exec hrun)).mpr (by decide)⟩

/-- The first block of a context is laid over its record, and a block of 8141 bytes is longer
than its page. -/
theorem allocMem_overRecord :
    (Transition.run makeStep Memory.start [.allocMem 8 requestable_8]).isSome = true ∧
      ¬ BlocksApart (Transition.exec makeStep Memory.start [.allocMem 8 requestable_8]) ∧
    (Transition.run makeStep Memory.start [.allocMem 8141 requestable_8141]).isSome = true ∧
      ¬ BlocksApart
        (Transition.exec makeStep Memory.start [.allocMem 8141 requestable_8141]) := by
  refine ⟨by decide, fun h => ?_, by decide, fun h => ?_⟩
  · have hlap :=
      h.record_apart ⟨0, 176, 20, 0⟩ (by decide) ⟨some 0, 4096, 196, 40, some ⟨some 0⟩⟩
        (by decide) rfl
    exact absurd hlap (by decide)
  · obtain ⟨info, hinfo, hwithin⟩ := h.within ⟨1, 40, 8153, 1⟩ (by decide)
    have hpage :
        (Transition.exec makeStep Memory.start [.allocMem 8141 requestable_8141]).pageInfo 1 =
        some ⟨some 0, 8192, 8193, 40, none⟩ := by decide
    cases hpage.symm.trans hinfo
    exact absurd hwithin (by decide)

end Toadb.MemPool
