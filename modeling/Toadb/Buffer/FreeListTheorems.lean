/-
Toadb.Buffer.FreeListTheorems — the cells of the free list and the list they
make.

`Listed pool l` says that the cells link exactly the ids of `l`, each once.
`FreeAnswer` is what a call has to do to that list, `FreeListOk` the state
before a call in which it does (`freeList_right_iff`). The flags never say
what the list says: `InitBufferPool` links the buffers and sets no flag
(`created_flags`).
-/
import Toadb.Lib.DList
import Toadb.Buffer.FreeList

namespace Toadb

open DList (Seg seg_cons_iff seg_nil_iff)
open Refinement (Right Along right_iff_along)
open BufferPoolContext

variable {N fuel : Nat} {pool pool' : BufferPoolContext} {l l' : List Int} {id : Int}

/-! ## The list in the cells -/

/-- The cells link the ids of `l` from the head to the end. -/
structure Listed (pool : BufferPoolContext) (l : List Int) : Prop where
  seg : Seg pool.freeList (pool.freeList 0) l freeListEnd
  nodup : l.Nodup
  inArray : ∀ id ∈ l, 0 < id ∧ id < pool.bufferNum

theorem Listed.end_not_mem (h : Listed pool l) : freeListEnd ∉ l := by
  intro hmem
  obtain ⟨hpos, -⟩ := h.inArray _ hmem
  unfold freeListEnd at hpos
  omega

/-- The cells make one list. -/
theorem Listed.unique (h : Listed pool l) (h' : Listed pool l') : l = l' :=
  h.seg.unique h'.seg h.end_not_mem h'.end_not_mem

/-- The list depends on the cells alone. -/
theorem Listed.congr (h : Listed pool l) (hfree : pool'.freeList = pool.freeList)
    (hnum : pool'.bufferNum = pool.bufferNum) : Listed pool' l := by
  refine ⟨?_, h.nodup, ?_⟩
  · rw [hfree]
    exact h.seg
  · rw [hnum]
    exact h.inArray

theorem Listed.nil_iff (h : Listed pool l) : l = [] ↔ pool.freeList 0 = freeListEnd := by
  constructor
  · rintro rfl
    exact seg_nil_iff.mp h.seg
  · intro hhead
    cases l with
    | nil => rfl
    | cons id l =>
      obtain ⟨heq, -⟩ := seg_cons_iff.mp h.seg
      exact absurd (hhead ▸ heq ▸ List.mem_cons_self) h.end_not_mem

theorem Listed.head_eq (h : Listed pool (id :: l)) : pool.freeList 0 = id :=
  (seg_cons_iff.mp h.seg).1

@[simp] theorem popFreeList_bufferNum :
    (pool.popFreeList id).bufferNum = pool.bufferNum := rfl

@[simp] theorem popFreeList_refCnt (x : Int) :
    ((pool.popFreeList id).bufferDesc x).refCnt = (pool.bufferDesc x).refCnt := by
  show (Function.update pool.bufferDesc id _ x).refCnt = _
  by_cases hx : x = id
  · rw [hx, Function.update_self]
  · rw [Function.update_of_ne hx]

/-- The rest of the list is listed when its first id is taken off. -/
theorem Listed.popFreeList (h : Listed pool (id :: l)) : Listed (pool.popFreeList id) l := by
  obtain ⟨-, hseg⟩ := seg_cons_iff.mp h.seg
  rw [h.head_eq] at hseg
  have hzero : ∀ x ∈ l, Function.update pool.freeList 0 (pool.freeList id) x =
      pool.freeList x := by
    intro x hx
    obtain ⟨hpos, -⟩ := h.inArray x (List.mem_cons_of_mem _ hx)
    exact Function.update_of_ne hpos.ne' _ _
  refine ⟨?_, (List.nodup_cons.mp h.nodup).2,
    fun x hx => h.inArray x (List.mem_cons_of_mem _ hx)⟩
  show Seg (Function.update pool.freeList 0 (pool.freeList id))
    (Function.update pool.freeList 0 (pool.freeList id) 0) l freeListEnd
  rw [Function.update_self]
  exact hseg.congr hzero

theorem pushFreeList_zero : (pool.pushFreeList id).freeList 0 = id := by
  show Function.update (Function.update pool.freeList id (pool.freeList 0)) 0 id 0 = id
  rw [Function.update_self]

theorem pushFreeList_self (hid : 0 < id) :
    (pool.pushFreeList id).freeList id = pool.freeList 0 := by
  show Function.update (Function.update pool.freeList id (pool.freeList 0)) 0 id id = _
  rw [Function.update_of_ne hid.ne', Function.update_self]

theorem pushFreeList_of_ne {x : Int} (hpos : 0 < x) (hne : x ≠ id) :
    (pool.pushFreeList id).freeList x = pool.freeList x := by
  show Function.update (Function.update pool.freeList id (pool.freeList 0)) 0 id x = _
  rw [Function.update_of_ne hpos.ne', Function.update_of_ne hne]

/-- A new id is put in front of the list. -/
theorem Listed.pushFreeList (h : Listed pool l)
    (hid : 0 < id ∧ id < pool.bufferNum) (hnew : id ∉ l) :
    Listed (pool.pushFreeList id) (id :: l) := by
  refine ⟨?_, List.nodup_cons.mpr ⟨hnew, h.nodup⟩, List.forall_mem_cons.mpr ⟨hid, h.inArray⟩⟩
  rw [pushFreeList_zero]
  refine .cons ?_
  rw [pushFreeList_self hid.1]
  exact h.seg.congr fun x hx => pushFreeList_of_ne (h.inArray x hx).1 fun heq =>
    hnew (heq ▸ hx)

/-- An id that is on the list already closes a cycle. -/
theorem Listed.pushFreeList_cycle (h : Listed pool l) (hmem : id ∈ l) :
    ¬ Listed (pool.pushFreeList id) l' := by
  intro hcyclic
  obtain ⟨before, behind, rfl⟩ := List.append_of_mem hmem
  have hid := (h.inArray id hmem).1
  have hsame : ∀ x ∈ before, (pool.pushFreeList id).freeList x = pool.freeList x := by
    intro x hx
    refine pushFreeList_of_ne (h.inArray x (List.mem_append_left _ hx)).1 ?_
    rintro rfl
    exact List.disjoint_of_nodup_append h.nodup hx List.mem_cons_self
  -- From the id the cells lead over the ids before it back to the id.
  have hback : Seg (pool.pushFreeList id).freeList id (id :: before) id := by
    refine .cons ?_
    rw [pushFreeList_self hid]
    exact h.seg.split.1.congr hsame
  have hend : freeListEnd ∉ id :: before := by
    intro hin
    refine h.end_not_mem ?_
    rcases List.mem_cons.mp hin with heq | hin
    · exact heq ▸ hmem
    · exact List.mem_append_left _ hin
  have hseg := hcyclic.seg
  rw [pushFreeList_zero] at hseg
  obtain ⟨rest, rfl, hrest⟩ := hback.continues hseg hend
  have hfirst : id ∈ rest := by
    cases hrest with
    | nil => exact absurd List.mem_cons_self hend
    | cons => exact List.mem_cons_self
  exact List.disjoint_of_nodup_append hcyclic.nodup List.mem_cons_self hfirst

/-! ## The loop -/

/-- What the loop takes off: the ids up to the first one that is not pinned. -/
theorem getFreeLoop_pops {answer : Int} :
    ∀ {fuel : Nat} {l : List Int} {pool : BufferPoolContext} {id : Int},
      Listed pool l → id ≠ freeListEnd →
      getFreeLoop fuel pool id = some (answer, pool') →
        ∃ before rest, l = before ++ answer :: rest ∧ Listed pool' rest ∧
          (pool.bufferDesc answer).refCnt = 0
  | 0, _, _, _, _, _, hrun => by cases hrun
  | fuel + 1, [], pool, id, h, hid, hrun => by
    have hhead := h.nil_iff.mp rfl
    unfold getFreeLoop at hrun
    rw [if_neg hid, hhead, if_neg (by unfold freeListEnd; omega)] at hrun
    cases hrun
  | fuel + 1, first :: l, pool, id, h, hid, hrun => by
    obtain ⟨hpos, hlt⟩ := h.inArray first List.mem_cons_self
    unfold getFreeLoop at hrun
    rw [if_neg hid, h.head_eq, if_pos ⟨hpos.le, hlt⟩] at hrun
    dsimp only at hrun
    rw [popFreeList_refCnt] at hrun
    split at hrun
    · rename_i hunpinned
      obtain ⟨rfl, rfl⟩ := Prod.mk.inj (Option.some.inj hrun)
      exact ⟨[], l, rfl, h.popFreeList, hunpinned⟩
    · have hfirst : first ≠ freeListEnd := by unfold freeListEnd; omega
      obtain ⟨before, rest, rfl, hrest, hrefs⟩ := getFreeLoop_pops h.popFreeList hfirst hrun
      rw [popFreeList_refCnt] at hrefs
      exact ⟨first :: before, rest, rfl, hrest, hrefs⟩

/-! ## The calls -/

/-- What a call does to the list. -/
def FreeListAfter (pool' : BufferPoolContext) (answer : Int)
    (l l' : List Int) : FreeListCall N → Prop
  | .initBufferPool => ∀ x, x ∈ l' ↔ 0 < x ∧ x < N
  | .getFreeBufferId =>
      (answer = freeListEnd ∧ l' = l) ∨
        (answer ∈ l ∧ (pool'.bufferDesc answer).refCnt = 0 ∧ l' = l.erase answer)
  | .invalidateBuffer id => ∀ x, x ∈ l' ↔ x ∈ l ∨ (x = id.val ∧ 0 < x)
  | .pinBuffer _ => l' = l
  | .unPinBuffer _ => l' = l

/-- The cells are a list before and after the call, and the call does to it what it is to
do. -/
def FreeAnswer (pool : BufferPoolContext) (call : FreeListCall N) (answer : Int)
    (pool' : BufferPoolContext) : Prop :=
  ∃ l l', Listed pool l ∧ Listed pool' l' ∧ FreeListAfter pool' answer l l' call

/-- `isInFreeList` says what the list says. -/
def FlagsAgree (pool : BufferPoolContext) : Prop :=
  ∃ l, Listed pool l ∧
    ∀ id : Int, 0 ≤ id → id < pool.bufferNum →
      ((pool.bufferDesc id).isInFreeList = true ↔ id ∈ l)

/-- The state before a call in which it does what it is to do: no pinned buffer is the first
of the list when one is taken, and no buffer is invalidated that is on the list without the
flag. -/
def FreeListOk (pool : BufferPoolContext) : FreeListCall N → Prop
  | .getFreeBufferId =>
    pool.freeList 0 = freeListEnd ∨ (pool.bufferDesc (pool.freeList 0)).refCnt = 0
  | .invalidateBuffer id =>
    (pool.bufferDesc id.val).isInFreeList = true ∨ ∀ l, Listed pool l → (id.val : Int) ∉ l
  | _ => True

/-- The list of a pool of `N` buffers; a buffer with the flag is on it. -/
structure FreeListInv (N : Nat) (pool : BufferPoolContext) (l : List Int) : Prop where
  bufferNum : pool.bufferNum = N
  listed : Listed pool l
  flagged : ∀ id, (pool.bufferDesc id).isInFreeList = true → id ∈ l

/-- A call that keeps the cells and the flags. -/
theorem FreeListInv.congr (h : FreeListInv N pool l) (hfree : pool'.freeList = pool.freeList)
    (hnum : pool'.bufferNum = pool.bufferNum)
    (hflag : ∀ id, (pool'.bufferDesc id).isInFreeList = (pool.bufferDesc id).isInFreeList) :
    FreeListInv N pool' l where
  bufferNum := hnum.trans h.bufferNum
  listed := h.listed.congr hfree hnum
  flagged id hset := h.flagged id (hflag id ▸ hset)

/-- A write to a descriptor that keeps the flag. -/
theorem FreeListInv.setDesc (h : FreeListInv N pool l) {d : FreeListDesc}
    (hflag : d.isInFreeList = (pool.bufferDesc id).isInFreeList) :
    FreeListInv N (pool.setDesc id d) l := by
  refine h.congr rfl rfl fun x => ?_
  show (Function.update pool.bufferDesc id d x).isInFreeList = _
  by_cases hx : x = id
  · rw [hx, Function.update_self, hflag]
  · rw [Function.update_of_ne hx]

theorem FreeListInv.unPinBuffer (h : FreeListInv N pool l) (id : Int) :
    FreeListInv N (pool.unPinBuffer id) l := by
  unfold BufferPoolContext.unPinBuffer
  dsimp only
  split
  · exact h.setDesc rfl
  · exact h

/-- An unpinned buffer is taken off the list. -/
theorem FreeListInv.popFreeList (h : FreeListInv N pool (id :: l)) :
    FreeListInv N (pool.popFreeList id) l := by
  refine ⟨h.bufferNum, h.listed.popFreeList, fun x hset => ?_⟩
  change (Function.update pool.bufferDesc id _ x).isInFreeList = true at hset
  by_cases hx : x = id
  · rw [hx, Function.update_self] at hset
    cases hset
  · rw [Function.update_of_ne hx] at hset
    exact (List.mem_cons.mp (h.flagged x hset)).resolve_left hx

theorem FreeListInv.pushFreeList (h : FreeListInv N pool l)
    (hid : 0 < id ∧ id < pool.bufferNum) (hnew : id ∉ l) :
    FreeListInv N (pool.pushFreeList id) (id :: l) := by
  refine ⟨h.bufferNum, h.listed.pushFreeList hid hnew, fun x hset => ?_⟩
  change (Function.update pool.bufferDesc id _ x).isInFreeList = true at hset
  by_cases hx : x = id
  · rw [hx]
    exact List.mem_cons_self
  · rw [Function.update_of_ne hx] at hset
    exact List.mem_cons_of_mem _ (h.flagged x hset)

/-! ## InitBufferPool -/

/-- Consecutive ids up to the last one. -/
theorem seg_range {next : Int → Int}
    (hnext : ∀ i : Int, 0 ≤ i → i < N → next i = if i = N - 1 then freeListEnd else i + 1) :
    ∀ (n i : Nat), i + (n + 1) = N →
      Seg next i ((List.range' i (n + 1)).map fun k : Nat => (k : Int)) freeListEnd
  | 0, i, hi => by
    have hlast := hnext i (by omega) (by omega)
    rw [if_pos (by omega)] at hlast
    refine .cons ?_
    rw [hlast]
    exact .nil _
  | n + 1, i, hi => by
    have hstep := hnext i (by omega) (by omega)
    rw [if_neg (by omega)] at hstep
    rw [List.range'_succ, List.map_cons]
    refine .cons ?_
    rw [hstep]
    exact seg_range hnext n (i + 1) (by omega)

/-- The cells that `InitBufferPool` writes. -/
theorem initBufferPool_freeList (hN : bufferMinNum ≤ N) {i : Int} (h0 : 0 ≤ i) (hlt : i < N) :
    (pool.initBufferPool N).2.freeList i = if i = N - 1 then freeListEnd else i + 1 := by
  unfold BufferPoolContext.initBufferPool
  rw [if_neg (not_lt.mpr hN)]
  dsimp only
  by_cases hi : i = N - 1
  · rw [if_pos hi, hi, Function.update_self]
  · rw [if_neg hi, Function.update_of_ne hi, if_pos ⟨h0, hlt⟩]

theorem initBufferPool_bufferNum (hN : bufferMinNum ≤ N) :
    (pool.initBufferPool N).2.bufferNum = N := by
  unfold BufferPoolContext.initBufferPool
  rw [if_neg (not_lt.mpr hN)]

/-- The flags are not initialized. -/
theorem initBufferPool_isInFreeList (id : Int) :
    ((pool.initBufferPool N).2.bufferDesc id).isInFreeList =
      (pool.bufferDesc id).isInFreeList := by
  unfold BufferPoolContext.initBufferPool
  split
  · rfl
  · dsimp only
    split <;> rfl

theorem mem_range_ids (x : Int) :
    x ∈ (List.range' 1 (N - 1)).map (fun k : Nat => (k : Int)) ↔ 0 < x ∧ x < N := by
  simp only [List.mem_map, List.mem_range'_1]
  constructor
  · rintro ⟨k, hk, rfl⟩
    omega
  · intro hx
    exact ⟨x.toNat, by omega, by omega⟩

/-- All buffers but buffer 0 are listed. -/
theorem initBufferPool_inv (hN : bufferMinNum ≤ N)
    (hflagged : ∀ id, (pool.bufferDesc id).isInFreeList = true →
    0 < id ∧ id < N) :
    FreeListInv N (pool.initBufferPool N).2
      ((List.range' 1 (N - 1)).map fun k : Nat => (k : Int)) := by
  have hmin : 8 ≤ N := hN
  have hcell (i : Int) (h0 : 0 ≤ i) (hlt : i < N) :
      (pool.initBufferPool N).2.freeList i = _ :=
    initBufferPool_freeList hN h0 hlt
  have hhead : (pool.initBufferPool N).2.freeList 0 = (1 : Nat) := by
    rw [hcell 0 (by omega) (by omega), if_neg (by omega)]
    rfl
  have hnum : (pool.initBufferPool N).2.bufferNum = N := initBufferPool_bufferNum hN
  refine ⟨hnum, ⟨?_, ?_, fun id hid => ?_⟩,
    fun id hset => (mem_range_ids id).mpr (hflagged id ?_)⟩
  · rw [hhead, show N - 1 = N - 2 + 1 by omega]
    exact seg_range hcell (N - 2) 1 (by omega)
  · exact List.Nodup.map (fun a b hab => Int.ofNat.inj hab) List.nodup_range'
  · rw [hnum]
    exact (mem_range_ids id).mp hid
  · rwa [initBufferPool_isInFreeList] at hset

/-- A buffer with the flag is one of the pool. -/
theorem FreeListInv.lt_of_flag (h : FreeListInv N pool l)
    (hset : (pool.bufferDesc id).isInFreeList = true) :
    0 < id ∧ id < N := by
  have hin := h.listed.inArray id (h.flagged id hset)
  rwa [h.bufferNum] at hin

/-! ## One call -/

theorem FreeListInv.getFreeBufferId (h : FreeListInv N pool l) (hfuel : 0 < fuel)
    (hok : pool.freeList 0 = freeListEnd ∨ (pool.bufferDesc (pool.freeList 0)).refCnt = 0) :
    ∃ answer pool' l', pool.getFreeBufferId fuel = some (answer, pool') ∧
      FreeListInv N pool' l' ∧
      ((answer = freeListEnd ∧ l' = l) ∨
        (answer ∈ l ∧ (pool'.bufferDesc answer).refCnt = 0 ∧ l' = l.erase answer)) := by
  obtain ⟨fuel, rfl⟩ := Nat.exists_eq_succ_of_ne_zero hfuel.ne'
  unfold BufferPoolContext.getFreeBufferId getFreeLoop
  cases l with
  | nil =>
    have hhead := h.listed.nil_iff.mp rfl
    rw [if_pos hhead]
    exact ⟨_, pool, [], rfl, h, .inl ⟨hhead, rfl⟩⟩
  | cons id l =>
    have hhead := h.listed.head_eq
    obtain ⟨hpos, hlt⟩ := h.listed.inArray id List.mem_cons_self
    have hne : id ≠ freeListEnd := by unfold freeListEnd; omega
    rw [hhead] at hok
    rw [hhead, if_neg hne, if_pos ⟨hpos.le, hlt⟩]
    dsimp only
    rw [popFreeList_refCnt, if_pos (hok.resolve_left hne)]
    refine ⟨id, _, l, rfl, h.popFreeList,
      .inr ⟨List.mem_cons_self, ?_, (List.erase_cons_head ..).symm⟩⟩
    rw [popFreeList_refCnt]
    exact hok.resolve_left hne

/-- With a pinned buffer first the loop takes off what it does not hand out. -/
theorem FreeListInv.ok_of_getFree (h : FreeListInv N pool l) {answer : Int}
    (hrun : pool.getFreeBufferId fuel = some (answer, pool'))
    (hright : FreeAnswer pool (FreeListCall.getFreeBufferId (N := N)) answer pool') :
    pool.freeList 0 = freeListEnd ∨ (pool.bufferDesc (pool.freeList 0)).refCnt = 0 := by
  by_contra hbad
  rw [not_or] at hbad
  obtain ⟨hhead, hpinned⟩ := hbad
  obtain ⟨l₁, l', hl₁, hl', hafter⟩ := hright
  obtain rfl := h.listed.unique hl₁
  obtain ⟨before, rest, rfl, hrest, hrefs⟩ := getFreeLoop_pops h.listed hhead hrun
  obtain rfl := hl'.unique hrest
  cases before with
  | nil =>
    rw [List.nil_append] at h
    exact hpinned (h.listed.head_eq ▸ hrefs)
  | cons first before =>
    have hnodup := h.listed.nodup
    rcases hafter with ⟨hend, -⟩ | ⟨-, -, herase⟩
    · exact h.listed.end_not_mem (hend ▸ by simp)
    · have hne : first ≠ answer := by
        rintro rfl
        exact hpinned (h.listed.head_eq ▸ hrefs)
      have hkept : first ∈ (first :: before ++ answer :: l').erase answer :=
        (List.mem_erase_of_ne hne).mpr (by simp)
      rw [← herase] at hkept
      exact List.disjoint_of_nodup_append hnodup List.mem_cons_self
        (List.mem_cons_of_mem _ hkept)

theorem FreeListInv.invalidateBuffer (h : FreeListInv N pool l) (id : Fin N)
    (hok : (pool.bufferDesc id.val).isInFreeList = true ∨ (id.val : Int) ∉ l) :
    ∃ l', FreeListInv N (pool.invalidateBuffer id.val) l' ∧ ∀ x, x ∈ l' ↔
      x ∈ l ∨ (x = id.val ∧ 0 < x) := by
  have hset :
      FreeListInv N (pool.setDesc id.val { pool.bufferDesc id.val with isValid := .invalid })
        l := h.setDesc rfl
  have hflag :
      ((pool.setDesc id.val { pool.bufferDesc id.val with isValid := .invalid }).bufferDesc
        id.val).isInFreeList
      = (pool.bufferDesc id.val).isInFreeList := by
    show (Function.update pool.bufferDesc _ _ _).isInFreeList = _
    rw [Function.update_self]
  unfold BufferPoolContext.invalidateBuffer insertFreeList
  rw [hflag]
  split
  · rename_i hnew
    have hout : (id.val : Int) ∉ l :=
      hok.resolve_left (by rw [hnew.2]; exact Bool.false_ne_true)
    have hlt : (id.val : Int) < pool.bufferNum := by
      rw [h.bufferNum]
      exact Int.ofNat_lt.mpr id.isLt
    refine ⟨_, hset.pushFreeList ⟨hnew.1, hlt⟩ hout, fun x => ?_⟩
    rw [List.mem_cons, or_comm]
    constructor
    · rintro (hx | rfl)
      · exact .inl hx
      · exact .inr ⟨rfl, hnew.1⟩
    · rintro (hx | ⟨hx, -⟩)
      · exact .inl hx
      · exact .inr hx
  · rename_i hold
    refine ⟨l, hset, fun x => ⟨.inl, ?_⟩⟩
    rintro (hx | ⟨rfl, hpos⟩)
    · exact hx
    · rw [not_and, Bool.not_eq_false] at hold
      exact h.flagged _ (hold hpos)

theorem FreeListInv.ok_of_invalidate (h : FreeListInv N pool l) {id : Fin N}
    (hlisted : ∃ l', Listed (pool.invalidateBuffer id.val) l') :
    (pool.bufferDesc id.val).isInFreeList = true ∨ (id.val : Int) ∉ l := by
  obtain ⟨l', hl'⟩ := hlisted
  by_contra hbad
  rw [not_or, not_not, Bool.not_eq_true] at hbad
  obtain ⟨hflag, hmem⟩ := hbad
  have hset :
      FreeListInv N (pool.setDesc id.val { pool.bufferDesc id.val with isValid := .invalid })
        l := h.setDesc rfl
  have hpos := (h.listed.inArray _ hmem).1
  unfold BufferPoolContext.invalidateBuffer insertFreeList at hl'
  have hclear :
      ((pool.setDesc id.val { pool.bufferDesc id.val with isValid := .invalid }).bufferDesc
        id.val).isInFreeList
      = false := by
    show (Function.update pool.bufferDesc _ _ _).isInFreeList = _
    rw [Function.update_self]
    exact hflag
  rw [if_pos ⟨hpos, hclear⟩] at hl'
  exact hset.listed.pushFreeList_cycle hmem hl'

/-! ## The result -/

/-- The pool after the first `InitBufferPool`. -/
def createdPool (N : Nat) : BufferPoolContext := (BufferPoolContext.zeroed.initBufferPool N).2

theorem createdPool_inv (hN : bufferMinNum ≤ N) :
    FreeListInv N (createdPool N) ((List.range' 1 (N - 1)).map fun k : Nat => (k : Int)) :=
  initBufferPool_inv hN fun _ hset => absurd hset Bool.false_ne_true

/-- No flag is set, and there are buffers on the list. -/
theorem createdPool_flags (hN : bufferMinNum ≤ N) : ¬ FlagsAgree (createdPool N) := by
  rintro ⟨l, hlisted, hagree⟩
  have hmin : 8 ≤ N := hN
  have hinv := createdPool_inv hN
  obtain rfl := hinv.listed.unique hlisted
  have hlt : (1 : Int) < (createdPool N).bufferNum := by
    rw [hinv.bufferNum]
    omega
  have hset := (hagree 1 (by omega) hlt).mpr ((mem_range_ids 1).mpr ⟨by omega, by omega⟩)
  rw [createdPool, initBufferPool_isInFreeList] at hset
  exact Bool.false_ne_true hset

/-- A call that may be made does what it is to do. -/
theorem FreeListInv.step (h : FreeListInv N pool l) (hN : bufferMinNum ≤ N) (hfuel : 0 < fuel)
    {call : FreeListCall N} (hok : FreeListOk pool call) :
    ∃ answer pool', freeListStep fuel pool call = some (answer, pool') ∧
      FreeAnswer pool call answer pool' ∧
      ∃ l', FreeListInv N pool' l' := by
  cases call with
  | initBufferPool =>
    have hinit : FreeListInv N (pool.initBufferPool N).2 _ :=
      initBufferPool_inv hN fun _ hset => h.lt_of_flag hset
    exact ⟨_, _, rfl, ⟨l, _, h.listed, hinit.listed, mem_range_ids⟩, _, hinit⟩
  | getFreeBufferId =>
    obtain ⟨answer, pool', l', hrun, hinv, hafter⟩ := h.getFreeBufferId hfuel hok
    exact ⟨answer, pool', hrun, ⟨l, l', h.listed, hinv.listed, hafter⟩, l', hinv⟩
  | pinBuffer id =>
    have hpin : FreeListInv N (pool.pinBuffer id.val) l := h.setDesc rfl
    exact ⟨_, _, rfl, ⟨l, l, h.listed, hpin.listed, rfl⟩, l, hpin⟩
  | unPinBuffer id =>
    have hunpin := h.unPinBuffer id.val
    exact ⟨_, _, rfl, ⟨l, l, h.listed, hunpin.listed, rfl⟩, l, hunpin⟩
  | invalidateBuffer id =>
    obtain ⟨l', hinv, hafter⟩ :=
      h.invalidateBuffer id (hok.imp_right fun hout => hout l h.listed)
    exact ⟨_, _, rfl, ⟨l, l', h.listed, hinv.listed, hafter⟩, l', hinv⟩

/-- A call that does what it is to do may be made. -/
theorem FreeListInv.ok_of_answer (h : FreeListInv N pool l)
    {call : FreeListCall N} {answer : Int}
    (hstep : freeListStep fuel pool call = some (answer, pool'))
    (hright : FreeAnswer pool call answer pool') :
    FreeListOk pool call := by
  cases call with
  | getFreeBufferId => exact h.ok_of_getFree hstep hright
  | invalidateBuffer id =>
    obtain ⟨rfl, rfl⟩ := Prod.mk.inj (Option.some.inj hstep)
    obtain ⟨l₁, l', -, hl', -⟩ := hright
    refine (h.ok_of_invalidate ⟨l', hl'⟩).imp_right fun hout l₂ hl₂ => ?_
    exact h.listed.unique hl₂ ▸ hout
  | _ => trivial

/-- What is asked of the free list of a pool of `N` buffers, along the calls after
`InitBufferPool`. -/
def FreeListRight (fuel : Nat) (calls : List (FreeListCall N)) : Prop :=
  FlagsAgree (createdPool N) ∧
    Right (freeListStep fuel)
      (fun pool call answer pool' => FreeAnswer pool call answer pool' ∧ FlagsAgree pool')
      (createdPool N) calls

/-- The flags do not agree with the list from the start on. All the rest holds along the calls
exactly when the list is empty or its first buffer not pinned at every `GetFreeBufferId`, and
no buffer is invalidated that is on the list without the flag. -/
theorem freeList_right_iff (hN : bufferMinNum ≤ N) (hfuel : 0 < fuel)
    (calls : List (FreeListCall N)) :
    ¬ FreeListRight fuel calls ∧
      (Right (freeListStep fuel) FreeAnswer (createdPool N) calls ↔
        Along (freeListStep fuel) FreeListOk (createdPool N) calls) := by
  refine ⟨fun hall => createdPool_flags hN hall.1, ?_⟩
  refine right_iff_along (I := fun pool => ∃ l, FreeListInv N pool l) ?_ ?_ calls
    ⟨_, createdPool_inv hN⟩
  · rintro pool call ⟨l, h⟩ hok
    exact h.step hN hfuel hok
  · rintro pool call answer pool' ⟨l, h⟩ hstep hright
    exact h.ok_of_answer hstep hright

theorem one_lt_eight : 1 < 8 := by omega

/-- Buffer 1 of a pool of eight. -/
def bufferOne : Fin 8 := ⟨1, one_lt_eight⟩

/-- A buffer is taken off the list and pinned, and another one is taken. -/
theorem freeList_right_eight :
    Right (freeListStep 8) FreeAnswer (createdPool 8)
      [.getFreeBufferId, .pinBuffer bufferOne, .getFreeBufferId] := by
  refine (freeList_right_iff (by decide) (by decide) _).2.mpr ?_
  have hfirst : freeListStep 8 (createdPool 8) (FreeListCall.getFreeBufferId (N := 8))
      = some (1, (createdPool 8).popFreeList 1) := rfl
  rw [Refinement.along_cons hfirst, Refinement.along_cons rfl]
  refine ⟨.inr (by decide), trivial, .inr (by decide), fun _ _ _ => trivial⟩

/-- The pool of eight with all buffers pinned. -/
def pinnedPool : BufferPoolContext :=
  (List.range 8).foldl (fun pool id => pool.pinBuffer id) (createdPool 8)

/-- No flag is set at the start; the first buffer of the list is put on it a second time; and
with all buffers pinned the loop goes on at the cell before the first one. -/
theorem freeList_fails :
    ¬ FreeListRight (N := 8) 8 [] ∧
      ¬ Right (freeListStep 8) FreeAnswer (createdPool 8) [.invalidateBuffer bufferOne] ∧
      pinnedPool.getFreeBufferId 100 = none := by
  refine ⟨fun hall => createdPool_flags (by decide) hall.1, ?_, ?_⟩
  · rintro ⟨answer, pool', hstep, hright, -⟩
    have hinv := createdPool_inv (N := 8) (by decide)
    rcases hinv.ok_of_answer hstep hright with hset | hout
    · rw [createdPool, initBufferPool_isInFreeList] at hset
      exact Bool.false_ne_true hset
    · exact hout _ hinv.listed (by decide)
  · exact Option.isNone_iff_eq_none.mp (by decide)

end Toadb
