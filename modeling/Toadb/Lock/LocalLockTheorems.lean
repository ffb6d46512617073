/-
Toadb.Lock.LocalLockTheorems — the table of local locks lists what the thread has.

The table refines that of `Lib/HeldLocks` (`Lists`): an acquire that succeeds and a release of
a listed lock do what `acquireEntry` and `releaseEntry` do. A release of a lock that is not
listed returns early only when the table is empty; otherwise the lock is unlocked without
being held. That is the one thing that breaks the law (`local_locks_iff`): a full table
refuses an acquire, also of a lock it has, its callers do not look, and their release is such
a stray one.

`InitializeLocalLock` goes through the table by index while `RemoveLocalLock` moves the cells
down, and clears the cell at the index afterwards, which is then the next one. It gives all
locks back only when there is at most one, with a count of one (`release_local_lock_iff`).
-/
import Toadb.Lock.LocalLock

namespace Toadb

open HeldLocks

variable {L : Type} {table : LocalLockTable L} {t : List (Entry L)} {l : L}

/-! ## The abstract table -/

/-- A mode that a lock can have. -/
def lockModeOf : Mode → RWLockMode
  | .read => .read
  | .write => .write

/-- A cell with an entry. -/
structure CellOf (info : LocalLockInfo L) (e : Entry L) : Prop where
  lock : info.lock = some e.lock
  mode : info.lockMode = lockModeOf e.mode
  cnt : info.lockCnt = e.cnt

/-- The cells of the table are the entries. -/
def Lists (table : LocalLockTable L) (t : List (Entry L)) : Prop :=
  List.Forall₂ CellOf table t

theorem Lists.mem_iff (h : Lists table t) :
    some l ∈ table.map (·.lock) ↔ l ∈ t.map (·.lock) := by
  induction h with
  | nil => simp
  | cons hcell _ ih =>
    simp only [List.map_cons, List.mem_cons, hcell.lock, Option.some.injEq, ih]

theorem Lists.locks_eq (h : Lists table t) :
    table.map (·.lock) = t.map fun e => some e.lock := by
  induction h with
  | nil => rfl
  | cons hcell _ ih => simp only [List.map_cons, hcell.lock, ih]

theorem Lists.exists_entry {info : LocalLockInfo L} (h : Lists table t)
    (hinfo : info ∈ table) :
    ∃ e ∈ t, CellOf info e := by
  induction h with
  | nil => cases hinfo
  | cons hcell _ ih =>
    rcases List.mem_cons.mp hinfo with rfl | hinfo
    · exact ⟨_, List.mem_cons_self .., hcell⟩
    · obtain ⟨e, he, hcell'⟩ := ih hinfo
      exact ⟨e, List.mem_cons_of_mem _ he, hcell'⟩

/-- One cell is replaced. -/
theorem Lists.replace {pre post : LocalLockTable L} {pre' post' : List (Entry L)}
    {info : LocalLockInfo L}
    {e : Entry L} (hpre : Lists pre pre') (hcell : CellOf info e) (hpost : Lists post post') :
    Lists (pre ++ info :: post) (pre' ++ e :: post') :=
  List.rel_append hpre (.cons hcell hpost)

variable [DecidableEq L] {s : LockThread L}

/-- A lock that is not listed. -/
theorem Lists.search_none (h : Lists table t) (hl : l ∉ t.map (·.lock)) :
    searchLocalLockTable table l = none := by
  rw [searchLocalLockTable, List.findIdx?_eq_none_iff]
  intro info hinfo
  rw [beq_eq_false_iff_ne]
  intro heq
  exact hl (h.mem_iff.mp (List.mem_map.mpr ⟨info, hinfo, heq⟩))

/-- A lock that is listed, and its cell. -/
theorem Lists.search_some (h : Lists table t) (hl : l ∈ t.map (·.lock)) :
    ∃ pre info post pre' e post', table = pre ++ info :: post ∧
      t = pre' ++ e :: post' ∧ Lists pre pre' ∧
      CellOf info e ∧ Lists post post' ∧ e.lock = l ∧ l ∉ pre'.map (·.lock) ∧
      searchLocalLockTable table l = some pre.length := by
  induction h with
  | nil => simp at hl
  | @cons info e table t hcell htail ih =>
    by_cases hlock : e.lock = l
    · refine ⟨[], info, table, [], e, t, rfl, rfl, .nil, hcell, htail, hlock, by simp, ?_⟩
      simp [searchLocalLockTable, List.findIdx?_cons, hcell.lock, hlock]
    · have hl' : l ∈ t.map (·.lock) := by
        rcases List.mem_cons.mp hl with heq | hl
        · exact absurd heq.symm hlock
        · exact hl
      obtain ⟨pre, info', post, pre', e', post', rfl, rfl, hpre, hcell', hpost, he,
          hnot, hsearch⟩ := ih hl'
      refine ⟨info :: pre, info', post, e :: pre', e', post', rfl, rfl, .cons hcell hpre,
        hcell', hpost, he, ?_, ?_⟩
      · rw [List.map_cons, List.mem_cons, not_or]
        exact ⟨Ne.symm hlock, hnot⟩
      · rw [searchLocalLockTable] at hsearch ⊢
        rw [List.findIdx?_cons, hsearch]
        simp [hcell.lock, hlock]

/-! ## The calls -/

/-- An acquire is refused and nothing changes, or it does what `acquireEntry` does. -/
theorem acquireLocal_spec (l : L) {done ret : Int} {mode : RWLockMode} (hdone : 0 ≤ done)
    (hret : ret = done → mode ≠ .null) (h : Lists table t) :
    let result := acquireLocal done ret table (some l) mode
    (result.ret ≠ done ∧ result.table = table ∧ result.event = none ∧
        (maxLocalLockNum ≤ table.length ∨
          (∀ m, mode = lockModeOf m → acquireEntry l m t = none) ∨ ret ≠ done)) ∨
      (result.ret = done ∧ table.length < maxLocalLockNum ∧ ∃ m t', mode = lockModeOf m ∧
        acquireEntry l m t = some t' ∧ Lists result.table t' ∧
        result.event = if l ∈ t.map (·.lock) then none else some (.locked l)) := by
  simp only [acquireLocal]
  split
  · rename_i hfull
    exact .inl ⟨by dsimp only; omega, rfl, rfl, .inl hfull⟩
  · rename_i hroom
    have hroom := Nat.lt_of_not_le hroom
    by_cases hl : l ∈ t.map (·.lock)
    · obtain ⟨pre, info, post, pre', e, post', rfl, rfl, hpre, hcell, hpost,
          he, hnot, hsearch⟩ :=
        h.search_some hl
      have hget : (pre ++ info :: post)[pre.length]? = some info := by simp
      rw [hsearch]
      dsimp only
      rw [hget]
      dsimp only
      split
      · rename_i hmode
        have hset : (pre ++ info :: post).set pre.length
            { info with lockCnt := info.lockCnt + 1 } =
            pre ++ { info with lockCnt := info.lockCnt + 1 } :: post := by simp
        have hentry : acquireEntry l e.mode (pre' ++ e :: post') =
            some (pre' ++ ⟨l, e.mode, e.cnt + 1, e.cnt.succ_pos⟩ :: post') := by
          rw [acquireEntry_append e.mode hnot]
          simp [acquireEntry, he]
        refine .inr ⟨rfl, hroom, e.mode, _, hmode.symm.trans hcell.mode, hentry, ?_, rfl⟩
        rw [hset]
        exact hpre.replace ⟨by rw [hcell.lock, he], hcell.mode,
          congrArg (· + 1) hcell.cnt⟩ hpost
      · rename_i hmode
        refine .inl ⟨by dsimp only; omega, rfl, rfl, .inr (.inl fun m hm => ?_)⟩
        have hne : e.mode ≠ m := by
          rintro rfl
          exact hmode (hcell.mode.trans hm.symm)
        rw [acquireEntry_append m hnot]
        simp [acquireEntry, he, hne]
    · rw [h.search_none hl]
      dsimp only
      split
      · rename_i hgot
        obtain ⟨m, hm⟩ : ∃ m, mode = lockModeOf m := by
          cases mode with
          | null => exact absurd rfl (hret hgot)
          | read => exact ⟨.read, rfl⟩
          | write => exact ⟨.write, rfl⟩
        have hentry : acquireEntry l m t = some (t ++ [⟨l, m, 1, Nat.one_pos⟩]) := by
          have := acquireEntry_append m hl []
          simpa [acquireEntry] using this
        exact .inr ⟨hgot, hroom, m, _, hm, hentry,
          List.rel_append h (.cons ⟨rfl, hm, rfl⟩ .nil), rfl⟩
      · rename_i hgot
        exact .inl ⟨hgot, rfl, rfl, .inr (.inr hgot)⟩

/-- A release is refused and nothing changes, or it does what `releaseEntry` does, or it
unlocks a lock that is not listed. -/
theorem releaseRWLockLocal_spec (l : L) (mode : RWLockMode)
    (unlocks : Bool) (h : Lists table t) (hnodup : (t.map (·.lock)).Nodup) :
    let result := releaseRWLockLocal table (some l) mode unlocks
    (result.ret ≠ 0 ∧ result.table = table ∧ result.event = none ∧
        (t = [] ∨ unlocks = false)) ∨
      (l ∈ t.map (·.lock) ∧ result.ret = 0 ∧ ∃ t',
        releaseEntry l t = some t' ∧ Lists result.table t' ∧
        result.event = if l ∈ t'.map (·.lock) then none else some (.unlocked l)) ∨
      (l ∉ t.map (·.lock) ∧ t ≠ [] ∧ unlocks = true ∧
        result = ⟨0, table, some (.unlocked l)⟩) := by
  simp only [releaseRWLockLocal]
  split
  · rename_i hempty
    have ht : t = [] := List.length_eq_zero_iff.mp (h.length_eq ▸ hempty)
    exact .inl ⟨show (-1 : Int) ≠ 0 by decide, rfl, rfl, .inl ht⟩
  · rename_i hempty
    have ht : t ≠ [] := fun ht => hempty (h.length_eq.trans (List.length_eq_zero_iff.mpr ht))
    by_cases hl : l ∈ t.map (·.lock)
    · obtain ⟨pre, info, post, pre', e, post', rfl, rfl, hpre, hcell, hpost,
          he, hnot, hsearch⟩ :=
        h.search_some hl
      have hget : (pre ++ info :: post)[pre.length]? = some info := by simp
      rw [hsearch]
      dsimp only
      rw [hget]
      dsimp only
      split
      · rename_i hcnt
        have hset : (pre ++ info :: post).set pre.length
            { info with lockCnt := info.lockCnt - 1 } =
            pre ++ { info with lockCnt := info.lockCnt - 1 } :: post := by simp
        have hcnt' : 1 < e.cnt := hcell.cnt ▸ hcnt
        have hentry : releaseEntry l (pre' ++ e :: post') =
            some (pre' ++ ⟨e.lock, e.mode, e.cnt - 1, Nat.sub_pos_of_lt hcnt'⟩ :: post') := by
          rw [releaseEntry_append hnot]
          simp [releaseEntry, he, hcnt']
        refine .inr (.inl ⟨hl, rfl, _, hentry, ?_, by simp [he]⟩)
        rw [hset]
        exact hpre.replace ⟨hcell.lock, hcell.mode, congrArg (· - 1) hcell.cnt⟩ hpost
      · rename_i hcnt
        have hcnt' : ¬ 1 < e.cnt := hcell.cnt ▸ hcnt
        cases unlocks with
        | false => exact .inl ⟨show releaseRWLockEx false ≠ 0 by decide, rfl, rfl, .inr rfl⟩
        | true =>
          have herase : removeLocalLock (pre ++ info :: post) pre.length = pre ++ post := by
            simp [removeLocalLock, List.eraseIdx_append_of_length_le]
          have hentry : releaseEntry l (pre' ++ e :: post') = some (pre' ++ post') := by
            rw [releaseEntry_append hnot]
            simp [releaseEntry, he, hcnt']
          have hgone : l ∉ (pre' ++ post').map (·.lock) := by
            rw [List.map_append, List.map_cons, he] at hnodup
            rw [List.map_append]
            exact (List.nodup_cons.mp (List.nodup_middle.mp hnodup)).1
          refine .inr (.inl ⟨hl, rfl, _, hentry, ?_, (if_neg hgone).symm⟩)
          rw [if_pos (by decide), herase]
          exact List.rel_append hpre hpost
    · rw [h.search_none hl]
      cases unlocks with
      | false => exact .inl ⟨show releaseRWLockEx false ≠ 0 by decide, rfl, rfl, .inr rfl⟩
      | true => exact .inr (.inr ⟨hl, ht, rfl, rfl⟩)

section Refines

variable {P : Type} [DecidableEq P]

/-- An acquire that is granted does the step of the abstract table. -/
theorem acquire_refines (h : Lists table t) (l : L) (m : Mode)
    (pins : Multiset P) (faults : Nat) :
    Lists (acquireRWLockLocal table (some l) (lockModeOf m) true).table
      (step maxLocalLockNum ⟨t, pins, faults⟩ (.acquire l m)).table := by
  have hmode : lockModeOf m ≠ .null := by
    cases m <;> simp [lockModeOf]
  have hret : acquireRWLockEx (lockModeOf m) true = 0 := by
    simp [acquireRWLockEx, hmode]
  rw [acquireRWLockLocal]
  rcases acquireLocal_spec l le_rfl (fun _ => hmode) h with
    ⟨-, htable, -, hwhy⟩ | ⟨-, hroom, m', t', hm, ht', hlists, -⟩
  · rw [htable]
    simp only [step]
    split
    · exact h
    · rename_i hroom
      rcases hwhy with hfull | hnone | hnot
      · exact absurd (h.length_eq ▸ hfull) hroom
      · rw [hnone m rfl]
        exact h
      · exact absurd hret hnot
  · obtain rfl : m = m' := by
      cases m <;> cases m' <;> simp_all [lockModeOf]
    simp only [step]
    rw [if_neg (Nat.not_le.mpr (h.length_eq ▸ hroom)), ht']
    exact hlists

/-- So does a release, and it is a fault if and only if the lock is not listed. -/
theorem release_refines (h : Lists table t) (hnodup : (t.map (·.lock)).Nodup)
    (l : L) (mode : RWLockMode) (pins : Multiset P) (faults : Nat) :
    Lists (releaseRWLockLocal table (some l) mode true).table
        (step maxLocalLockNum ⟨t, pins, faults⟩ (.release l)).table ∧
      ((step maxLocalLockNum ⟨t, pins, faults⟩ (.release l)).faults = faults ↔
        l ∈ t.map (·.lock)) := by
  have hstray : l ∉ t.map (·.lock) → releaseEntry l t = none := by
    intro hl
    simpa [releaseEntry] using releaseEntry_append hl []
  rcases releaseRWLockLocal_spec l mode true h hnodup with
    ⟨-, htable, -, hempty | hfalse⟩ | ⟨hl, -, t', ht', hlists, -⟩ | ⟨hl, -, -, hresult⟩
  · subst hempty
    rw [htable]
    simpa [step, releaseEntry] using h
  · cases hfalse
  · simp only [step, ht']
    exact ⟨hlists, by simp [hl]⟩
  · simp only [step, hstray hl, hresult]
    exact ⟨h, by simp [hl]⟩

end Refines

/-! ## The law -/

/-- The table lists the locks the thread has, each once and with the number of its acquires
that are not matched by a release; a lock is held as long as there are such, and no other lock
was unlocked. -/
structure LockLaw (s : LockThread L) : Prop where
  listed : ∀ l, some l ∈ s.table.map (·.lock) ↔ 0 < s.holds l
  once : (s.table.map (·.lock)).Nodup ∧ ∀ l, s.holds l ≤ 1
  count : ∀ info ∈ s.table, ∃ l, info.lock = some l ∧
    s.acquires l = s.releases l + info.lockCnt
  matched : ∀ l, s.holds l = 0 ↔ s.acquires l = s.releases l
  own : s.strays = []

/-- The table is the abstract one, which has what was acquired and not released. -/
structure LockInv (s : LockThread L) (t : List (Entry L)) : Prop where
  lists : Lists s.table t
  nodup : (t.map (·.lock)).Nodup
  count : ∀ l, s.acquires l = s.releases l + heldCount l t
  holds : ∀ l, s.holds l = if l ∈ t.map (·.lock) then 1 else 0

theorem lockInv_init : LockInv (LockThread.init : LockThread L) [] :=
  ⟨.nil, List.nodup_nil, fun _ => rfl, fun _ => rfl⟩

/-- A lock that is listed once is held as often as its entry says. -/
theorem heldCount_of_mem {e : Entry L} (hnodup : (t.map (·.lock)).Nodup) (he : e ∈ t) :
    heldCount e.lock t = e.cnt := by
  induction t with
  | nil => cases he
  | cons e' t ih =>
    rw [List.map_cons, List.nodup_cons] at hnodup
    have hzero : ∀ l, l ∉ t.map (·.lock) → heldCount l t = 0 := fun l hl =>
      Nat.eq_zero_of_not_pos fun hpos => hl (heldCount_pos.mp hpos)
    rcases List.mem_cons.mp he with rfl | he
    · simp [heldCount, hzero _ hnodup.1]
    · have hne : e'.lock ≠ e.lock := fun heq =>
        hnodup.1 (List.mem_map.mpr ⟨e, he, heq.symm⟩)
      simp [heldCount, hne, ih hnodup.2 he]

/-- The invariant is the law. -/
theorem LockInv.law (h : LockInv s t) (hown : s.strays = []) : LockLaw s where
  listed l := by
    rw [h.lists.mem_iff, h.holds]
    split <;> simp_all
  once := by
    refine ⟨?_, fun l => ?_⟩
    · have hmap : t.map (fun e => some e.lock) = (t.map (·.lock)).map some := by simp
      rw [h.lists.locks_eq, hmap]
      exact h.nodup.map (Option.some_injective L)
    · rw [h.holds]
      split <;> omega
  count info hinfo := by
    obtain ⟨e, he, hcell⟩ := h.lists.exists_entry hinfo
    exact ⟨e.lock, hcell.lock, by rw [h.count, heldCount_of_mem h.nodup he, hcell.cnt]⟩
  matched l := by
    have hpos : 0 < heldCount l t ↔ l ∈ t.map (·.lock) := heldCount_pos
    rw [h.holds, h.count]
    split
    · have := hpos.mpr ‹_›
      omega
    · have := hpos.not.mpr ‹_›
      omega
  own := hown

/-! ## The steps -/

/-- A release is of a lock that is listed, or the table is empty. -/
def OwnRelease (s : LockThread L) : LocalLockCall L → Prop
  | .release (some l) _ true => some l ∈ s.table.map (·.lock) ∨ s.table = []
  | _ => True

instance (s : LockThread L) (c : LocalLockCall L) : Decidable (OwnRelease s c) := by
  unfold OwnRelease
  split <;> infer_instance

theorem countCall_of_not (f : L → Nat) (lock : Option L) {succeeded : Bool}
    (h : succeeded = false) :
    countCall f lock succeeded = f := by
  funext l
  simp [countCall, h]

theorem countCall_some (f : L → Nat) (l l' : L) {succeeded : Bool} (h : succeeded = true) :
    countCall f (some l) succeeded l' = f l' + if l' = l then 1 else 0 := by
  by_cases hl : l' = l
  · simp [countCall, h, hl]
  · simp [countCall, h, hl, Ne.symm hl]

/-- An acquire that is refused or counted. -/
theorem LockInv.acquire {done ret : Int} {mode : RWLockMode}
    (h : LockInv s t) (hdone : 0 ≤ done) (hret : ret = done → mode ≠ .null) :
    let result := acquireLocal done ret s.table (some l) mode
    ∃ t', LockInv { s.apply result.event with
        table := result.table
        acquires := countCall s.acquires (some l) (result.ret == done) } t' ∧
      (s.apply result.event).strays = s.strays := by
  intro result
  rcases acquireLocal_spec l hdone hret h.lists with
    ⟨hret, htable, hevent, -⟩ | ⟨hret, -, m, t', -, ht', hlists, hevent⟩
  · have hcount : countCall s.acquires (some l) (result.ret == done) = s.acquires :=
      countCall_of_not _ _ (beq_false_of_ne hret)
    rw [hevent, htable, hcount]
    exact ⟨t, h, rfl⟩
  · have hkeys := keys_acquireEntry ht'
    have hcount : ∀ l', countCall s.acquires (some l) (result.ret == done) l' =
        s.releases l' + heldCount l' t' := by
      intro l'
      rw [countCall_some _ _ _ (beq_iff_eq.mpr hret), heldCount_acquireEntry ht',
        h.count, Nat.add_assoc]
    rw [hevent]
    by_cases hl : l ∈ t.map (·.lock)
    · rw [if_pos hl] at hkeys
      simp only [if_pos hl]
      exact ⟨t', ⟨hlists, hkeys ▸ h.nodup, hcount, fun l' => by rw [hkeys]; exact h.holds l'⟩,
        rfl⟩
    · rw [if_neg hl] at hkeys
      simp only [if_neg hl]
      refine ⟨t', ⟨hlists, ?_, hcount, fun l' => ?_⟩, rfl⟩
      · rw [hkeys]
        exact List.nodup_append.mpr ⟨h.nodup, List.nodup_singleton l, fun a ha b hb heq =>
          hl (List.mem_singleton.mp hb ▸ heq ▸ ha)⟩
      · have hold := h.holds l'
        simp only [hkeys, List.mem_append, List.mem_singleton, LockThread.apply]
        by_cases hl' : l' = l
        · subst hl'
          simp [h.holds, hl]
        · rw [Function.update_of_ne hl', hold]
          simp [hl']

/-- A release that is refused, or of a listed lock. -/
theorem LockInv.release {result : LocalLockResult L} (h : LockInv s t)
    (hspec : (result.ret ≠ 0 ∧ result.table = s.table ∧ result.event = none) ∨
      (l ∈ t.map (·.lock) ∧ result.ret = 0 ∧ ∃ t',
        releaseEntry l t = some t' ∧ Lists result.table t' ∧
        result.event = if l ∈ t'.map (·.lock) then none else some (.unlocked l))) :
    ∃ t', LockInv { s.apply result.event with
        table := result.table
        releases := countCall s.releases (some l) (result.ret == 0) } t' ∧
      (s.apply result.event).strays = s.strays := by
  rcases hspec with ⟨hret, htable, hevent⟩ | ⟨hl, hret, t', ht', hlists, hevent⟩
  · have hcount : countCall s.releases (some l) (result.ret == 0) = s.releases :=
      countCall_of_not _ _ (beq_false_of_ne hret)
    rw [hevent, htable, hcount]
    exact ⟨t, h, rfl⟩
  · have hkeys := keys_releaseEntry ht'
    obtain ⟨t₁, ht₁, hheld⟩ := releaseEntry_of_held (heldCount_pos.mpr hl)
    obtain rfl : t₁ = t' := Option.some.inj (ht₁.symm.trans ht')
    have hcount : ∀ l', s.acquires l' =
        countCall s.releases (some l) (result.ret == 0) l' + heldCount l' t₁ := by
      intro l'
      have := hheld l'
      rw [countCall_some _ _ _ (beq_iff_eq.mpr hret), h.count]
      omega
    -- The other locks of the table stay.
    have hother : ∀ l', l' ≠ l → (l' ∈ t₁.map (·.lock) ↔ l' ∈ t.map (·.lock)) := by
      intro l' hl'
      have := hheld l'
      rw [if_neg hl'] at this
      rw [← heldCount_pos, ← heldCount_pos, ← this]
      exact Iff.rfl
    have hone : s.holds l = 1 := by
      rw [h.holds, if_pos hl]
    rw [hevent]
    by_cases hstays : l ∈ t₁.map (·.lock)
    · simp only [if_pos hstays]
      refine ⟨t₁, ⟨hlists, hkeys.nodup h.nodup, hcount, fun l' => ?_⟩, rfl⟩
      by_cases hl' : l' = l
      · subst hl'
        rw [if_pos hstays]
        exact hone
      · simp only [LockThread.apply, h.holds l', hother l' hl']
    · simp only [if_neg hstays, LockThread.apply, hone]
      refine ⟨t₁, ⟨hlists, hkeys.nodup h.nodup, hcount, fun l' => ?_⟩, rfl⟩
      by_cases hl' : l' = l
      · subst hl'
        simp [hstays]
      · rw [if_neg (by decide)]
        dsimp only
        rw [Function.update_of_ne hl', h.holds l']
        simp only [hother l' hl']

/-- One call keeps the invariant, unless it unlocks a lock that the thread does not have. -/
theorem LockInv.call (h : LockInv s t) (c : LocalLockCall L) :
    (OwnRelease s c → (∃ t', LockInv (s.call c) t') ∧ (s.call c).strays = s.strays) ∧
      (¬ OwnRelease s c → (s.call c).strays ≠ []) := by
  cases c with
  | acquire lock mode granted =>
    refine ⟨fun _ => ?_, fun hnot => absurd trivial hnot⟩
    cases lock with
    | none =>
      exact ⟨⟨t, by
        simpa [LockThread.call, acquireRWLockLocal, acquireLocal, LockThread.apply,
        countCall_of_not] using h⟩, rfl⟩
    | some l =>
      have hmode : acquireRWLockEx mode granted = 0 → mode ≠ .null := by
        rintro hret rfl
        cases hret
      obtain ⟨t', hinv, hstrays⟩ := h.acquire le_rfl hmode
      exact ⟨⟨t', hinv⟩, hstrays⟩
  | tryAcquire lock mode answer =>
    refine ⟨fun _ => ?_, fun hnot => absurd trivial hnot⟩
    cases lock with
    | none =>
      exact ⟨⟨t, by
        simpa [LockThread.call, tryAcquireRWLockLocal, acquireLocal, LockThread.apply,
        countCall_of_not] using h⟩, rfl⟩
    | some l =>
      have hmode : tryAcquireRWLockEx mode answer = 1 → mode ≠ .null := by
        rintro hret rfl
        cases hret
      obtain ⟨t', hinv, hstrays⟩ := h.acquire Int.one_nonneg hmode
      exact ⟨⟨t', hinv⟩, hstrays⟩
  | release lock mode unlocks =>
    cases lock with
    | none =>
      refine ⟨fun _ => ⟨⟨t, ?_⟩, rfl⟩, fun hnot => absurd trivial hnot⟩
      simpa [LockThread.call, releaseRWLockLocal, LockThread.apply, countCall_of_not] using h
    | some l =>
      rcases releaseRWLockLocal_spec l mode unlocks h.lists h.nodup with
        ⟨hret, htable, hevent, hwhy⟩ | hheld | ⟨hl, hne, rfl, hresult⟩
      · refine ⟨fun _ => ?_, fun hnot => absurd ?_ hnot⟩
        · obtain ⟨t', hinv, hstrays⟩ := h.release (l := l) (.inl ⟨hret, htable, hevent⟩)
          exact ⟨⟨t', hinv⟩, hstrays⟩
        · cases unlocks with
          | false => trivial
          | true =>
            rcases hwhy with rfl | hfalse
            · exact .inr (List.forall₂_nil_right_iff.mp h.lists)
            · cases hfalse
      · refine ⟨fun _ => ?_, fun hnot => absurd ?_ hnot⟩
        · obtain ⟨t', hinv, hstrays⟩ := h.release (.inr hheld)
          exact ⟨⟨t', hinv⟩, hstrays⟩
        · cases unlocks with
          | false => trivial
          | true => exact .inl (h.lists.mem_iff.mpr hheld.1)
      · -- The lock is not listed, and there are others.
        have hnone : s.holds l = 0 := by
          rw [h.holds, if_neg hl]
        refine ⟨fun hown => ?_, fun _ => ?_⟩
        · rcases hown with hmem | hempty
          · exact absurd (h.lists.mem_iff.mp hmem) hl
          · have hlists := h.lists
            rw [hempty] at hlists
            exact absurd (List.forall₂_nil_left_iff.mp hlists) hne
        · simp [LockThread.call, hresult, LockThread.apply, hnone]

/-- A stray unlock stays on record. -/
theorem strays_call {c : LocalLockCall L} (h : s.strays ≠ []) : (s.call c).strays ≠ [] := by
  have happly : ∀ event, (s.apply event).strays ≠ [] := by
    intro event
    unfold LockThread.apply
    split
    · exact h
    · exact h
    · split
      · exact List.cons_ne_nil _ _
      · exact h
  cases c with
  | acquire | tryAcquire | release => exact happly _

theorem strays_calls (cs : List (LocalLockCall L)) (h : s.strays ≠ []) :
    (s.calls cs).strays ≠ [] := by
  induction cs generalizing s with
  | nil => exact h
  | cons c cs ih => exact ih (strays_call h)

/-- Every release of the sequence is of a lock that is listed then, or the table is empty
then. -/
def OwnReleases (s : LockThread L) : List (LocalLockCall L) → Prop
  | [] => True
  | c :: cs => OwnRelease s c ∧ OwnReleases (s.call c) cs

theorem LockInv.calls_iff (h : LockInv s t) (hown : s.strays = [])
    (cs : List (LocalLockCall L)) :
    LockLaw (s.calls cs) ↔ OwnReleases s cs := by
  induction cs generalizing s t with
  | nil => exact ⟨fun _ => trivial, fun _ => h.law hown⟩
  | cons c cs ih =>
    obtain ⟨hkeeps, hstray⟩ := h.call c
    by_cases hc : OwnRelease s c
    · obtain ⟨⟨t', hinv⟩, hstrays⟩ := hkeeps hc
      exact (ih hinv (hstrays.trans hown)).trans (and_iff_right hc).symm
    · refine ⟨fun hlaw => ?_, fun hreleases => absurd hreleases.1 hc⟩
      exact absurd hlaw.own (strays_calls cs (hstray hc))

/-- After a sequence of calls the law holds if and only if no release was of a lock that is
not listed in a table with other locks. -/
theorem local_locks_iff (calls : List (LocalLockCall L)) :
    LockLaw ((LockThread.init : LockThread L).calls calls) ↔
      OwnReleases LockThread.init calls :=
  lockInv_init.calls_iff rfl calls

/-- A row of eight columns: their pages are locked, and `TableWrite` takes and gives back a
lock more. -/
def insertEightColumns : List (LocalLockCall Nat) :=
  (List.range 8).map (fun page => .acquire (some page) .write true) ++
    [.acquire (some 8) .read true, .release (some 8) .null true]

/-- The lock of `TableWrite` is refused, and then unlocked all the same. -/
theorem insertEightColumns_strays :
    ¬ ∀ calls : List (LocalLockCall Nat),
      LockLaw ((LockThread.init : LockThread Nat).calls calls) := by
  intro h
  exact absurd (h insertEightColumns).own (by decide)

/-! ## The end of a session -/

/-- A table that a thread can have: each lock is there once, with a mode and a count. -/
structure TableOk (table : LocalLockTable L) : Prop where
  room : table.length ≤ maxLocalLockNum
  locks : ∀ info ∈ table, info.lock ≠ none ∧ info.lockMode ≠ .null ∧ 0 < info.lockCnt
  once : (table.map (·.lock)).Nodup

omit [DecidableEq L] in
theorem Lists.tableOk (h : Lists table t) (hnodup : (t.map (·.lock)).Nodup)
    (hroom : table.length ≤ maxLocalLockNum) : TableOk table where
  room := hroom
  locks info hinfo := by
    obtain ⟨e, -, hcell⟩ := h.exists_entry hinfo
    refine ⟨by simp [hcell.lock], ?_, hcell.cnt ▸ e.pos⟩
    rw [hcell.mode]
    cases e.mode <;> simp [lockModeOf]
  once := by
    have hmap : t.map (fun e => some e.lock) = (t.map (·.lock)).map some := by simp
    rw [h.locks_eq, hmap]
    exact hnodup.map (Option.some_injective L)

/-- What a call leaves in the table. -/
theorem tableOk_call (h : Lists s.table t) (hnodup : (t.map (·.lock)).Nodup)
    (hroom : s.table.length ≤ maxLocalLockNum) (c : LocalLockCall L) :
    ∃ t', Lists (s.call c).table t' ∧ (t'.map (·.lock)).Nodup ∧
      (s.call c).table.length ≤ maxLocalLockNum := by
  have hacquire : ∀ (l : L) {done ret : Int} {mode : RWLockMode}, 0 ≤ done →
      (ret = done → mode ≠ .null) →
      ∃ t', Lists (acquireLocal done ret s.table (some l) mode).table t' ∧
        (t'.map (·.lock)).Nodup ∧
        (acquireLocal done ret s.table (some l) mode).table.length ≤ maxLocalLockNum := by
    intro l done ret mode hdone hret
    rcases acquireLocal_spec l hdone hret h with ⟨-, htable, -⟩ | ⟨-, hlt, m,
      t', -, ht', hlists, -⟩
    · rw [htable]
      exact ⟨t, h, hnodup, hroom⟩
    · refine ⟨t', hlists, ?_, ?_⟩
      · rw [keys_acquireEntry ht']
        split
        · exact hnodup
        · rename_i hl
          exact List.nodup_append.mpr ⟨hnodup, List.nodup_singleton l, fun a ha b hb heq =>
            hl (List.mem_singleton.mp hb ▸ heq ▸ ha)⟩
      · have hlen := acquireEntry_length ht'
        rw [hlists.length_eq]
        rw [h.length_eq] at hlt
        omega
  cases c with
  | acquire lock mode granted =>
    cases lock with
    | none => exact ⟨t, h, hnodup, hroom⟩
    | some l =>
      refine hacquire l le_rfl ?_
      rintro hret rfl
      cases hret
  | tryAcquire lock mode answer =>
    cases lock with
    | none => exact ⟨t, h, hnodup, hroom⟩
    | some l =>
      refine hacquire l Int.one_nonneg ?_
      rintro hret rfl
      cases hret
  | release lock mode unlocks =>
    cases lock with
    | none => exact ⟨t, h, hnodup, hroom⟩
    | some l =>
      simp only [LockThread.call]
      rcases releaseRWLockLocal_spec l mode unlocks h hnodup with
        ⟨-, htable, -⟩ | ⟨-, -, t', ht', hlists, -⟩ | ⟨-, -, -, hresult⟩
      · rw [htable]
        exact ⟨t, h, hnodup, hroom⟩
      · have hkeys := keys_releaseEntry ht'
        have hlen := hkeys.length_le
        rw [List.length_map, List.length_map] at hlen
        refine ⟨t', hlists, hkeys.nodup hnodup, ?_⟩
        rw [hlists.length_eq]
        exact hlen.trans (h.length_eq ▸ hroom)
      · rw [hresult]
        exact ⟨t, h, hnodup, hroom⟩

/-- The table is in order after every sequence of calls. -/
theorem tableOk_calls (calls : List (LocalLockCall L)) :
    TableOk ((LockThread.init : LockThread L).calls calls).table := by
  have hrun : ∀ (calls : List (LocalLockCall L)) (s : LockThread L) (t : List (Entry L)),
      Lists s.table t →
      (t.map (·.lock)).Nodup → s.table.length ≤ maxLocalLockNum →
        TableOk (s.calls calls).table := by
    intro calls
    induction calls with
    | nil => exact fun s t h hnodup hroom => h.tableOk hnodup hroom
    | cons c calls ih =>
      intro s t h hnodup hroom
      obtain ⟨t', h', hnodup', hroom'⟩ := tableOk_call h hnodup hroom c
      exact ih (s.call c) t' h' hnodup' hroom'
  exact hrun calls LockThread.init [] .nil List.nodup_nil (Nat.zero_le _)

/-- A release adds no cell and no lock. -/
theorem release_table_subset (table : LocalLockTable L) (lock : L)
    (mode : RWLockMode) (unlocks : Bool) :
    (releaseRWLockLocal table (some lock) mode unlocks).table.length ≤ table.length ∧
      ∀ x ∈ (releaseRWLockLocal table (some lock) mode unlocks).table.map (·.lock),
        x ∈ table.map (·.lock) := by
  have hset : ∀ (pos : Nat) (info : LocalLockInfo L) (cnt : Nat), table[pos]? = some info →
      ∀ x ∈ (table.set pos { info with lockCnt := cnt }).map (·.lock),
        x ∈ table.map (·.lock) := by
    intro pos info cnt hinfo x hx
    obtain ⟨info', hinfo', rfl⟩ := List.mem_map.mp hx
    rcases List.mem_or_eq_of_mem_set hinfo' with hold | rfl
    · exact List.mem_map.mpr ⟨info', hold, rfl⟩
    · exact List.mem_map.mpr ⟨info, List.mem_of_getElem? hinfo, rfl⟩
  have herase : ∀ (pos : Nat), ∀ x ∈ (removeLocalLock table pos).map (·.lock),
      x ∈ table.map (·.lock) := by
    intro pos x hx
    obtain ⟨info, hinfo, rfl⟩ := List.mem_map.mp hx
    exact List.mem_map.mpr ⟨info, List.mem_of_mem_eraseIdx hinfo, rfl⟩
  have hlen : ∀ pos, (removeLocalLock table pos).length ≤ table.length := fun pos =>
    List.length_eraseIdx_le table pos
  unfold releaseRWLockLocal
  dsimp only
  split
  · exact ⟨le_rfl, fun x hx => hx⟩
  · split
    · rename_i pos hpos
      split
      · rename_i info hinfo
        split
        · exact ⟨by simp, hset pos info _ hinfo⟩
        · dsimp only
          split
          · exact ⟨hlen pos, herase pos⟩
          · exact ⟨le_rfl, fun x hx => hx⟩
      · exact ⟨le_rfl, fun x hx => hx⟩
    · exact ⟨le_rfl, fun x hx => hx⟩

/-- The loop ends within as many rounds as there are cells, so `releaseLocalLock` runs it to
its end. -/
theorem initializeLoop_fuel (unlocks : L → Bool) (more : Nat) {fuel pos : Nat}
    {table : LocalLockTable L} (h : table.length ≤ pos + fuel) :
    initializeLoop unlocks (fuel + more) pos table =
      initializeLoop unlocks fuel pos table := by
  induction fuel generalizing pos table with
  | zero =>
    have hnone : table[pos]? = none := List.getElem?_eq_none (by simpa using h)
    cases more with
    | zero => rfl
    | succ more => simp [initializeLoop, hnone]
  | succ fuel ih =>
    rw [Nat.succ_add]
    simp only [initializeLoop]
    split
    · rfl
    · split
      · exact ih (by omega)
      · rename_i lock _
        have hlen := (release_table_subset table lock .null (unlocks lock)).1
        rw [ih (by rw [List.length_set]; omega)]

/-- The loop unlocks only what is in the table. -/
theorem mem_of_mem_initializeLoop {unlocks : L → Bool} {fuel pos : Nat}
    {table : LocalLockTable L} {l : L}
    (h : l ∈ (initializeLoop unlocks fuel pos table).1) : some l ∈ table.map (·.lock) := by
  induction fuel generalizing pos table with
  | zero => cases h
  | succ fuel ih =>
    simp only [initializeLoop] at h
    split at h
    · cases h
    · rename_i info hinfo
      split at h
      · exact ih h
      · rename_i lock hlock
        -- A later round has a table with fewer locks.
        have hlater : l ∈ (initializeLoop unlocks fuel (pos + 1)
            ((releaseRWLockLocal table (some lock) .null (unlocks lock)).table.set pos
              ⟨none, .null, 0⟩)).1 →
            some l ∈ table.map (·.lock) := by
          intro hl
          obtain ⟨info', hinfo', heq⟩ := List.mem_map.mp (ih hl)
          rcases List.mem_or_eq_of_mem_set hinfo' with hold | rfl
          · exact (release_table_subset table lock .null (unlocks lock)).2 _
              (List.mem_map.mpr ⟨info', hold, heq⟩)
          · cases heq
        dsimp only at h
        split at h
        · exact hlater h
        · rcases List.mem_cons.mp h with rfl | h
          · exact List.mem_map.mpr ⟨info, List.mem_of_getElem? hinfo, hlock⟩
          · exact hlater h

/-- All locks of the table are unlocked, each once, and no other; the table is empty. -/
structure ReleasesAll (unlocks : L → Bool) (table : LocalLockTable L) : Prop where
  released : ∀ l, some l ∈ table.map (·.lock) → l ∈ (releaseLocalLock unlocks table).1
  only : ∀ l ∈ (releaseLocalLock unlocks table).1, some l ∈ table.map (·.lock)
  once : (releaseLocalLock unlocks table).1.Nodup
  empty : (releaseLocalLock unlocks table).2 = []

/-- There is at most one lock, it was acquired once and `pthread_rwlock_unlock` succeeds. -/
def AtMostOne (unlocks : L → Bool) : LocalLockTable L → Prop
  | [] => True
  | [info] => info.lockCnt = 1 ∧ ∀ l, info.lock = some l → unlocks l = true
  | _ => False

/-- The first round: the release of the lock in the first cell. -/
theorem initializeLoop_first (unlocks : L → Bool) {info : LocalLockInfo L} {l : L}
    (hlock : info.lock = some l) (rest : LocalLockTable L) (fuel : Nat) :
    let table := if 1 < info.lockCnt ∨ unlocks l = false then ⟨none, .null, 0⟩ :: rest
      else rest.set 0 ⟨none, .null, 0⟩
    (initializeLoop unlocks (fuel + 1) 0 (info :: rest)).1 =
      if 1 < info.lockCnt ∨ unlocks l = false then (initializeLoop unlocks fuel 1 table).1
      else l :: (initializeLoop unlocks fuel 1 table).1 := by
  have hsearch : searchLocalLockTable (info :: rest) l = some 0 := by
    simp [searchLocalLockTable, List.findIdx?_cons, hlock]
  simp only [initializeLoop, List.getElem?_cons_zero, hlock, releaseRWLockLocal,
    List.length_cons, hsearch]
  by_cases hcnt : 1 < info.lockCnt
  · simp [hcnt]
  · cases hunlocks : unlocks l with
    | false => simp [hcnt, releaseRWLockEx]
    | true => simp [hcnt, releaseRWLockEx, removeLocalLock]

/-- `ReleaseLocalLock` gives all locks back if and only if there is at most one, acquired
once. -/
theorem release_local_lock_iff (unlocks : L → Bool) (table : LocalLockTable L)
    (h : TableOk table) :
    ReleasesAll unlocks table ↔ AtMostOne unlocks table := by
  cases table with
  | nil =>
    exact ⟨fun _ => trivial, fun _ =>
      ⟨by simp, by simp [releaseLocalLock, initializeLocalLock,
      initializeLoop], List.nodup_nil, rfl⟩⟩
  | cons info rest =>
    obtain ⟨hsome, -, hpos⟩ := h.locks info (List.mem_cons_self ..)
    obtain ⟨l, hlock⟩ := Option.ne_none_iff_exists'.mp hsome
    have hnodup := h.once
    rw [List.map_cons, hlock, List.nodup_cons] at hnodup
    have hfirst := initializeLoop_first unlocks hlock rest rest.length
    have hmem : some l ∈ (info :: rest).map (·.lock) := by simp [hlock]
    have hlist : (releaseLocalLock unlocks (info :: rest)).1 =
        (initializeLoop unlocks (rest.length + 1) 0 (info :: rest)).1 := rfl
    by_cases hkept : 1 < info.lockCnt ∨ unlocks l = false
    · -- The first lock is not unlocked, and its cell is cleared.
      simp only [if_pos hkept] at hfirst
      constructor
      · intro hall
        have hl := hall.released l hmem
        rw [hlist, hfirst] at hl
        have hrest := mem_of_mem_initializeLoop hl
        rw [List.map_cons, List.mem_cons] at hrest
        exact absurd (hrest.resolve_left (by simp)) hnodup.1
      · intro hone
        cases rest with
        | nil =>
          obtain ⟨hcnt, hunlocks⟩ := hone
          rcases hkept with hkept | hkept
          · omega
          · rw [hunlocks l hlock] at hkept
            cases hkept
        | cons info' rest => exact hone.elim
    · simp only [if_neg hkept] at hfirst
      obtain ⟨hcnt, hunlocks⟩ := not_or.mp hkept
      cases rest with
      | nil =>
        have hnone : (initializeLoop unlocks 0 1 ([] : LocalLockTable L)).1 = [] := rfl
        rw [List.set_nil, List.length_nil, hnone] at hfirst
        refine ⟨fun _ => ⟨by omega, fun l' hl' => ?_⟩,
          fun _ => ⟨fun l' hl' => ?_, fun l' hl' => ?_, ?_, rfl⟩⟩
        · obtain rfl : l = l' := Option.some.inj (hlock.symm.trans hl')
          simpa using hunlocks
        · rw [hlist, List.length_nil, hfirst]
          simpa [hlock] using hl'
        · rw [hlist, List.length_nil, hfirst, List.mem_singleton] at hl'
          rw [hl']
          exact hmem
        · rw [hlist, List.length_nil, hfirst]
          exact List.nodup_singleton l
      | cons info' rest =>
        -- The second lock moves to the first cell, which is cleared.
        refine ⟨fun hall => ?_, fun hone => hone.elim⟩
        obtain ⟨hsome', -, -⟩ := h.locks info' (by simp)
        obtain ⟨l', hlock'⟩ := Option.ne_none_iff_exists'.mp hsome'
        have hl := hall.released l' (by simp [hlock'])
        rw [hlist, hfirst, List.set_cons_zero, List.mem_cons] at hl
        rw [List.map_cons, hlock', List.nodup_cons, List.mem_cons, not_or] at hnodup
        rcases hl with rfl | hl
        · exact hnodup.1.1 rfl
        · have hrest := mem_of_mem_initializeLoop hl
          rw [List.map_cons, List.mem_cons] at hrest
          exact hnodup.2.1 (hrest.resolve_left (by simp))

/-- A thread with one lock. -/
theorem release_one_lock :
    ReleasesAll (fun _ => true)
      ((LockThread.init : LockThread Nat).calls [.acquire (some 0) .write true]).table :=
  (release_local_lock_iff _ _ (tableOk_calls _)).mpr ⟨rfl, fun _ _ => rfl⟩

/-- A thread with two locks: the second one is not unlocked. -/
theorem release_two_locks :
    ¬ ∀ (unlocks : Nat → Bool) (table : LocalLockTable Nat), TableOk table →
      (∀ l, unlocks l = true) →
      ReleasesAll unlocks table := by
  intro h
  have hall := h (fun _ => true) _
      (tableOk_calls [.acquire (some 0) .write true, .acquire (some 1) .write true])
    fun _ => rfl
  exact absurd (hall.released 1 (by decide)) (by decide)

end Toadb
