/-
Toadb.Buffer.AllocBufferTheorems — when the allocation of a buffer ends.

`ClockSweep` has no way out but a victim: a buffer that is invalid or has no pin, whose read
lock the worker gets (`CanRead`). Its own write lock keeps a buffer from it, and a full table
of local locks keeps every buffer from it. With a victim the sweep ends, since its usage count
runs down (`clockSweep_returns`); without one it goes round for ever (`clockSweep_none`).
`AllocBuffer` sweeps when the page is in no buffer and no buffer is free, and it never gives
up: it returns NULL on no input (`allocBuffer_iff`).
-/
import Toadb.Buffer.AllocBuffer
import Toadb.Buffer.PoolTheorems
import Toadb.Lib.Transition
import Toadb.Lock.LocalLockTheorems
import Mathlib.Data.Fintype.EquivFin

namespace Toadb

open Cursor (Returns)
open Transition (run exec run_exec run_invariant Along)

/-! ## The local locks -/

section Locks

variable {L : Type} [DecidableEq L] {table : LocalLockTable L} {l : L}

/-- `TryLockBufDesc` in read mode gets the lock: there is a cell left, and the lock is not had
in another mode. -/
def CanRead (table : LocalLockTable L) (l : L) : Prop :=
  table.length < maxLocalLockNum ∧ ∀ info ∈ table, info.lock = some l → info.lockMode = .read

instance (table : LocalLockTable L) (l : L) : Decidable (CanRead table l) :=
  inferInstanceAs (Decidable (_ ∧ _))

theorem search_set {pos : Nat} (info : LocalLockInfo L)
    (hsearch : searchLocalLockTable table l = some pos) (hlock : info.lock = some l) :
    searchLocalLockTable (table.set pos info) l = some pos := by
  rw [searchLocalLockTable, List.findIdx?_eq_some_iff_getElem] at hsearch ⊢
  obtain ⟨hpos, -, hbefore⟩ := hsearch
  refine ⟨by rwa [List.length_set], by simp [hlock], fun j hj => ?_⟩
  rw [List.getElem_set_of_ne (by omega)]
  exact hbefore j hj

theorem search_append (info : LocalLockInfo L) (hsearch : searchLocalLockTable table l = none)
    (hlock : info.lock = some l) :
    searchLocalLockTable (table ++ [info]) l = some table.length := by
  rw [searchLocalLockTable] at hsearch ⊢
  rw [List.findIdx?_append, hsearch]
  simp [List.findIdx?_cons, hlock]

/-- The read lock is tried: it is refused and the table stays, or it is there and giving it
back gives the table back. -/
theorem tryAcquire_cases (hok : TableOk table) (l : L) :
    let result := tryAcquireRWLockLocal table (some l) .read .acquired
    (CanRead table l ∧ result.ret = 1 ∧ ∀ mode,
      (releaseRWLockLocal result.table (some l) mode true).table = table) ∨
      (¬ CanRead table l ∧ result.ret ≤ 0 ∧ result.table = table) := by
  simp only [tryAcquireRWLockLocal, acquireLocal]
  split
  · rename_i hfull
    exact .inr ⟨fun h => absurd h.1 (Nat.not_lt.mpr hfull),
      show (-1 : Int) ≤ 0 by decide, rfl⟩
  · rename_i hroom
    have hroom := Nat.lt_of_not_le hroom
    cases hsearch : searchLocalLockTable table l with
    | none =>
      refine .inl ⟨⟨hroom, fun info hinfo hlock => ?_⟩, rfl, fun mode => ?_⟩
      · rw [searchLocalLockTable, List.findIdx?_eq_none_iff] at hsearch
        exact absurd (hsearch info hinfo) (by simp [hlock])
      · have hfound := search_append ⟨some l, .read, 1⟩ hsearch rfl
        simp [releaseRWLockLocal, tryAcquireRWLockEx, hfound,
          releaseRWLockEx, removeLocalLock,
          List.eraseIdx_append_of_length_le]
    | some pos =>
      have hcell := List.findIdx?_eq_some_iff_getElem.mp hsearch
      obtain ⟨hpos, hlock, -⟩ := hcell
      have hlock : table[pos].lock = some l := by simpa using hlock
      have hget : table[pos]? = some table[pos] := List.getElem?_eq_getElem hpos
      dsimp only
      rw [hget]
      dsimp only
      split
      · rename_i hmode
        refine .inl ⟨⟨hroom, fun info hinfo hinfol => ?_⟩, rfl, fun mode => ?_⟩
        · obtain ⟨i, hi, rfl⟩ := List.getElem_of_mem hinfo
          have hsame : i = pos := by
            have hlen : (table.map fun x => x.lock).length = table.length := List.length_map _
            have hsame : (table.map fun x => x.lock).get ⟨i, hlen ▸ hi⟩
                = (table.map fun x => x.lock).get ⟨pos, hlen ▸ hpos⟩ := by
              rw [List.get_eq_getElem, List.get_eq_getElem, List.getElem_map,
                List.getElem_map, hinfol, hlock]
            exact (List.Nodup.getElem_inj_iff hok.once).mp hsame
          subst hsame
          exact hmode
        · have hcnt := (hok.locks _ (List.getElem_mem hpos)).2.2
          have hne : table.length ≠ 0 := by omega
          have hfound :=
            search_set { table[pos] with lockCnt := table[pos].lockCnt + 1 } hsearch hlock
          simp [releaseRWLockLocal, hfound, hpos, hcnt, hne]
          exact List.set_getElem_self hpos
      · rename_i hmode
        exact .inr ⟨fun h => hmode (h.2 _ (List.getElem_mem hpos) hlock),
          show (-2 : Int) ≤ 0 by decide, rfl⟩

end Locks

variable {N m : Nat} {s : AllocState N m}

/-- `tryAcquire_cases` for a state. -/
theorem tryLockBufDesc_cases (hok : TableOk s.localLocks) (id : Fin N)
    (pool : PoolState N m) :
    (CanRead s.localLocks id ∧ ∃ localLocks,
      { s with pool := pool }.tryLockBufDesc id .read = (1, ⟨pool, localLocks⟩) ∧
        ∀ mode, (releaseRWLockLocal localLocks (some id) mode true).table = s.localLocks) ∨
      (¬ CanRead s.localLocks id ∧ ({ s with pool := pool }.tryLockBufDesc id .read).1 ≤ 0 ∧
        ({ s with pool := pool }.tryLockBufDesc id .read).2 = { s with pool := pool }) := by
  rcases tryAcquire_cases hok id with ⟨hcan, hret, hback⟩ | ⟨hcan, hret, htable⟩
  · exact .inl ⟨hcan, _, Prod.ext hret rfl, hback⟩
  · exact .inr ⟨hcan, hret, congrArg (AllocState.mk pool) htable⟩

/-! ## ClockSweep -/

/-- The pool with other usage counts. -/
def AllocState.withUsed (s : AllocState N m) (used : Fin N → Nat) : AllocState N m :=
  { s with pool := { s.pool with bufferDesc := fun b =>
                                   { s.pool.bufferDesc b with usedCnt := used b } } }

@[simp] theorem withUsed_isValid (used : Fin N → Nat) (b : Fin N) :
    ((s.withUsed used).pool.bufferDesc b).isValid = (s.pool.bufferDesc b).isValid := rfl

@[simp] theorem withUsed_refCnt (used : Fin N → Nat) (b : Fin N) :
    ((s.withUsed used).pool.bufferDesc b).refCnt = (s.pool.bufferDesc b).refCnt := rfl

@[simp] theorem withUsed_usedCnt (used : Fin N → Nat) (b : Fin N) :
    ((s.withUsed used).pool.bufferDesc b).usedCnt = used b := rfl

/-- `ClockSweep` can take the page of this buffer away. -/
def Evictable (s : AllocState N m) (id : Fin N) : Prop :=
  (s.pool.bufferDesc id).isValid = .invalid ∨ (s.pool.bufferDesc id).refCnt = 0

/-- A buffer that can be evicted and whose read lock the worker gets. -/
def Victim (s : AllocState N m) (id : Fin N) : Prop :=
  Evictable s id ∧ CanRead s.localLocks id

instance (s : AllocState N m) (id : Fin N) : Decidable (Evictable s id) :=
  inferInstanceAs (Decidable (_ ∨ _))

instance (s : AllocState N m) (id : Fin N) : Decidable (Victim s id) :=
  inferInstanceAs (Decidable (_ ∧ _))

theorem withUsed_setDesc (used : Fin N → Nat) (id : Fin N) (n : Nat) :
    (s.withUsed used).setDesc id { (s.withUsed used).pool.bufferDesc id with usedCnt := n } =
      s.withUsed (Function.update used id n) := by
  have hdesc : Function.update (s.withUsed used).pool.bufferDesc id
      { (s.withUsed used).pool.bufferDesc id with usedCnt := n } =
        (s.withUsed (Function.update used id n)).pool.bufferDesc := by
    funext b
    by_cases hb : b = id
    · subst hb
      simp [AllocState.withUsed]
    · simp [AllocState.withUsed, hb]
  simp only [AllocState.setDesc, PoolState.setDesc, hdesc]
  rfl

/-- What a round of the sweep does to the usage counts, and where the sweep stops. -/
theorem clockRound_cases (hok : TableOk s.localLocks) (id : Fin N) (used : Fin N → Nat) :
    (∃ used', clockRound id (s.withUsed used) = .goOn (s.withUsed used') ∧
      (∀ b, used' b ≤ used b) ∧
        (Victim s id → used' id < used id)) ∨
      (Victim s id ∧ ∃ used' localLocks,
        clockRound id (s.withUsed used) =
          .stop { s.withUsed used' with localLocks := localLocks } ∧
        ((s.pool.bufferDesc id).isValid = .invalid ∨
          (s.pool.bufferDesc id).refCnt = 0 ∧ used' id = 0) ∧
        ∀ mode, (releaseRWLockLocal localLocks (some id) mode true).table =
          s.localLocks) := by
  have hless : ∀ b, Function.update used id (used id - 1) b ≤ used b := by
    intro b
    by_cases hb : b = id
    · subst hb
      simp
    · simp [hb]
  rcases tryLockBufDesc_cases hok id (s.withUsed used).pool with
    ⟨hcan, localLocks, htry, hback⟩ | ⟨hcan, hret, hsame⟩
  · have htry : (s.withUsed used).tryLockBufDesc id .read =
        (1, ⟨(s.withUsed used).pool, localLocks⟩) := htry
    have hset :=
      withUsed_setDesc (s := { s with localLocks := localLocks }) used id (used id - 1)
    simp only [clockRound, htry, withUsed_isValid, withUsed_refCnt, withUsed_usedCnt]
    rw [if_neg (by decide)]
    by_cases hinvalid : (s.pool.bufferDesc id).isValid = .invalid
    · rw [if_pos hinvalid]
      exact .inr ⟨⟨.inl hinvalid, hcan⟩, used, localLocks, rfl, .inl hinvalid, hback⟩
    · rw [if_neg hinvalid]
      by_cases hunused : (s.pool.bufferDesc id).refCnt = 0 ∧ used id - 1 = 0
      · rw [if_pos hunused]
        refine .inr ⟨⟨.inr hunused.1, hcan⟩, _, localLocks, congrArg Clock.Round.stop hset,
          .inr ⟨hunused.1, ?_⟩, hback⟩
        simpa using hunused.2
      · rw [if_neg hunused]
        refine .inl ⟨_, congrArg Clock.Round.goOn ?_, hless, fun hvictim => ?_⟩
        · exact (congrArg (AllocState.unLockBufDesc · id .read) hset).trans
            (congrArg (AllocState.mk
              (s.withUsed (Function.update used id (used id - 1))).pool) (hback .read))
        · have hfree := hvictim.1.resolve_left hinvalid
          have hused : used id - 1 ≠ 0 := fun h => hunused ⟨hfree, h⟩
          rw [Function.update_self]
          omega
  · have hret : ((s.withUsed used).tryLockBufDesc id .read).1 ≤ 0 := hret
    have hsame : ((s.withUsed used).tryLockBufDesc id .read).2 = s.withUsed used := hsame
    refine .inl ⟨used, ?_, fun b => Nat.le_refl _, fun h => absurd h.2 hcan⟩
    simp only [clockRound, if_pos hret, hsame]

/-- The states a sweep goes through. -/
def AllocState.Sweeping (s x : AllocState N m) : Prop := ∃ used, x = s.withUsed used

theorem sweeping_self (s : AllocState N m) : s.Sweeping s :=
  ⟨fun b => (s.pool.bufferDesc b).usedCnt, rfl⟩

/-- The state after the sweep: the usage counts have run down, and the victim is locked. -/
def AllocState.swept [NeZero N] (s : AllocState N m) (used : Fin N → Nat)
    (id : Fin N) : AllocState N m :=
  { s with pool := { (s.withUsed used).pool with start := id + 1 } }.lockBufDesc id .write

/-- The rounds change usage counts only. -/
theorem clockRound_keeps (hok : TableOk s.localLocks) (id : Fin N) (s₁ s₂ : AllocState N m)
    (h : s.Sweeping s₁) (hround : clockRound id s₁ = .goOn s₂) : s.Sweeping s₂ := by
  obtain ⟨used, rfl⟩ := h
  rcases clockRound_cases hok id used with ⟨used', hgo, -⟩ | ⟨-, used', localLocks, hstop, -⟩
  · rw [hgo] at hround
    cases hround
    exact ⟨used', rfl⟩
  · rw [hstop] at hround
    cases hround

/-- They use up the count of a victim, and raise none. -/
theorem clockRound_pays (hok : TableOk s.localLocks) (id : Fin N)
    (s₁ s₂ : AllocState N m) (h : s.Sweeping s₁) (hround : clockRound id s₁ = .goOn s₂) :
    (∀ b, (s₂.pool.bufferDesc b).usedCnt ≤ (s₁.pool.bufferDesc b).usedCnt) ∧
      (Victim s id → (s₂.pool.bufferDesc id).usedCnt < (s₁.pool.bufferDesc id).usedCnt) := by
  obtain ⟨used, rfl⟩ := h
  rcases clockRound_cases hok id used with ⟨used', hgo, hless, hpays⟩ | ⟨-, used',
    localLocks, hstop, -⟩
  · rw [hgo] at hround
    cases hround
    exact ⟨hless, hpays⟩
  · rw [hstop] at hround
    cases hround

variable [NeZero N]

/-- With a victim the sweep ends, at a victim. -/
theorem clockSweep_returns (hok : TableOk s.localLocks) {place : Fin N}
    (hplace : Victim s place) :
    ∃ id used, Victim s id ∧
      Returns (fun fuel => clockSweep fuel s) (some id, s.swept used id) := by
  obtain ⟨⟨id, s'⟩, k, hk⟩ :=
    Clock.returns_sweep s.Sweeping place (fun x => (x.pool.bufferDesc place).usedCnt)
      (fun id s₁ s₂ h hround => ⟨clockRound_keeps hok id s₁ s₂ h hround,
        (clockRound_pays hok id s₁ s₂ h hround).1 place⟩)
      (fun s₁ s₂ h hround => (clockRound_pays hok place s₁ s₂ h hround).2 hplace) s.pool.start
        (sweeping_self s)
  obtain ⟨s₀, ⟨used, rfl⟩, hstop⟩ :=
    Clock.sweep_some s.Sweeping (clockRound_keeps hok) (sweeping_self s)
      (hk k (Nat.le_refl k))
  rcases clockRound_cases hok id used with ⟨used', hgo, -⟩ | ⟨hvictim, used', localLocks,
    hstop', hout, hback⟩
  · rw [hgo] at hstop
    cases hstop
  · rw [hstop'] at hstop
    cases hstop
    refine ⟨id, used', hvictim, .of_succ (k := k) fun fuel hfuel => ?_⟩
    have hunlock : AllocState.unLockBufDesc
        { s.withUsed used' with localLocks := localLocks } id .read =
        s.withUsed used' := congrArg (AllocState.mk _) (hback .read)
    have hsweep := hk fuel hfuel
    dsimp only at hsweep
    rw [clockSweep, clockSweepFrom, hsweep]
    dsimp only
    rw [hunlock]
    exact if_pos hout

/-- Without one it does not end. -/
theorem clockSweep_none (hok : TableOk s.localLocks)
    (hnone : ∀ id, ¬ Victim s id) (fuel : Nat) :
    clockSweep fuel s = none := by
  cases fuel with
  | zero => rfl
  | succ fuel =>
    have hnever : ∀ id x, s.Sweeping x → ∃ x',
        clockRound id x = .goOn x' ∧ s.Sweeping x' := by
      rintro id x ⟨used, rfl⟩
      rcases clockRound_cases hok id used with ⟨used', hgo, -⟩ | ⟨hvictim, -⟩
      · exact ⟨_, hgo, used', rfl⟩
      · exact absurd hvictim (hnone id)
    rw [clockSweep, clockSweepFrom,
      Clock.sweep_none s.Sweeping hnever fuel s.pool.start (sweeping_self s)]

/-! ## The hash table -/

omit [NeZero N] in
/-- A buffer that no entry names leaves an element free. -/
theorem freeHashElementList_ne_nil {table : HashTableInfo BufferTag (Fin N)}
    (h : HashTableOk table fun _ => False) (hsize : table.maxNum = N)
    (honce : ∀ t t' b, table.lookup t = some b → table.lookup t' = some b → t = t')
    {id : Fin N}
    (hid : ∀ t, table.lookup t ≠ some id) : table.freeHashElementList ≠ [] := by
  intro hnil
  have hplaced : ∀ e : Fin N, ∃ p c, e.val ∈ table.segBuckets p c := by
    intro e
    rcases (h.cover e).mp (by rw [hsize]; exact e.isLt) with hfree | hheld | hchain
    · rw [hnil] at hfree
      cases hfree
    · exact hheld.elim
    · exact hchain
  have hlookup : ∀ e : Fin N, table.lookup (table.element e).tag =
      some (table.element e).value := by
    intro e
    obtain ⟨p, c, he⟩ := hplaced e
    exact (h.lookup_eq_some_iff _ _).mpr ⟨p, c, e, he, rfl, rfl⟩
  -- Every element has a buffer of its own, so some element has this one.
  have hinj : Function.Injective fun e : Fin N => (table.element e).value := by
    intro e e' heq
    obtain ⟨p, c, he⟩ := hplaced e
    obtain ⟨p', c', he'⟩ := hplaced e'
    have htag : (table.element e).tag = (table.element e').tag :=
      honce _ _ _ (hlookup e) ((hlookup e').trans (congrArg some heq.symm))
    have hchain := h.mem_chain he
    rw [htag] at hchain
    exact Fin.ext (h.unique _ _ _ _ hchain (h.mem_chain he') htag)
  obtain ⟨e, he⟩ := Finite.injective_iff_surjective.mp hinj id
  exact hid _ ((hlookup e).trans (congrArg some he))

omit [NeZero N] in
/-- `HashDeleteEntry` makes its key absent; the other keys answer as before. -/
theorem hashDeleteEntry_spec {table : HashTableInfo BufferTag (Fin N)}
    (h : HashTableOk table fun _ => False) (tag : BufferTag) :
    let table' := (hashDeleteEntry table (table.getHashKey tag) tag).2
    (HashTableOk table' fun _ => False) ∧ table'.maxNum = table.maxNum ∧
      ∀ k, table'.lookup k = if k = tag then none else table.lookup k := by
  rcases hashUnlinkEntry_cases table tag with ⟨entry, hfind, heq⟩ | ⟨hnone, heq⟩
  · obtain ⟨hok, hlookup⟩ := h.lookup_removeEntry hfind
    have hput := hok.putFreeList (.inr rfl)
    have hheld : (fun e => (False ∨ e = entry) ∧ e ≠ entry) = fun _ => False := by
      funext e
      simp
    rw [hheld] at hput
    have hdelete : hashDeleteEntry table (table.getHashKey tag) tag =
        (true, putFreeList (table.removeEntry tag
        ((table.chain tag).eraseP (hashMatches table (table.getHashKey tag) tag)))
          entry) := by
      simp only [hashDeleteEntry, heq]
    dsimp only
    rw [hdelete]
    exact ⟨hput, rfl, hlookup⟩
  · have hdelete : hashDeleteEntry table (table.getHashKey tag) tag = (false, table) := by
      simp only [hashDeleteEntry, heq]
    dsimp only
    rw [hdelete]
    refine ⟨h, rfl, fun k => ?_⟩
    split
    · rename_i hk
      rw [hk]
      exact hnone
    · rfl

/-! ## The pool -/

/-- A pool between two calls. -/
structure PoolOk (s : PoolState N m) : Prop where
  table : HashTableOk s.hashTable fun _ => False
  size : s.hashTable.maxNum = N
  /-- A table entry names the buffer of its tag. -/
  named : ∀ t b, s.hashTable.lookup t = some b →
    (s.bufferDesc b).bufferTag = t ∧ (s.bufferDesc b).isValid ≠ .invalid
  /-- A buffer on the free list has no page and no pin. -/
  free : ∀ b ∈ s.freeList, (s.bufferDesc b).isValid = .invalid ∧ (s.bufferDesc b).refCnt = 0
  free_nodup : s.freeList.Nodup

theorem createBufferPool_ok (N m : Nat) [NeZero N] (getHashKey : BufferTag → Nat) :
    PoolOk (createBufferPool N m getHashKey) where
  table := hashTableCreate_ok (Nat.pos_of_neZero N) 4 getHashKey _
  size := rfl
  named t b h := by
    have hnone : (createBufferPool N m getHashKey).hashTable.lookup t = none :=
      hashTableCreate_lookup 4 N getHashKey _ t
    rw [hnone] at h
    cases h
  free b _ := ⟨rfl, rfl⟩
  free_nodup := (List.nodup_finRange N).sublist (List.tail_sublist _)

omit [NeZero N] in
/-- A pool of several workers is in order when it is full and no call is in progress. -/
theorem PoolInv.poolOk {s : PoolState N m} (h : PoolInv s) (hidle : ∀ w, s.phase w = .idle)
    (hfull : s.freeList = []) : PoolOk s where
  table := by
    have hheld : (fun e => ∃ j t id, s.phase j = .putFree t id e) = fun _ => False := by
      funext e
      simp [hidle]
    exact hheld ▸ h.table
  size := h.size
  named := h.named
  free b hb := by
    rw [hfull] at hb
    cases hb
  free_nodup := by
    rw [hfull]
    exact List.nodup_nil

omit [NeZero N] in
/-- A buffer that is not free keeps its page. -/
theorem PoolOk.setDesc {s : PoolState N m} (h : PoolOk s) {id : Fin N} {d : BufferDesc m}
    (hoff : id ∉ s.freeList) (htag : d.bufferTag = (s.bufferDesc id).bufferTag)
    (hvalid : d.isValid = (s.bufferDesc id).isValid) :
    PoolOk (s.setDesc id d) where
  table := h.table
  size := h.size
  named t b hb := by
    have hnamed := h.named t b hb
    by_cases hid : b = id
    · subst hid
      simpa [PoolState.setDesc, htag, hvalid] using hnamed
    · simpa [PoolState.setDesc, hid] using hnamed
  free b hb := by
    have hid : b ≠ id := fun heq => hoff (heq ▸ hb)
    simpa [PoolState.setDesc, hid] using h.free b hb
  free_nodup := h.free_nodup

omit [NeZero N] in
theorem PoolOk.withUsed (h : PoolOk s.pool) (used : Fin N → Nat) (start : Fin N) :
    PoolOk { (s.withUsed used).pool with start := start } :=
  ⟨h.table, h.size, h.named, h.free, h.free_nodup⟩

omit [NeZero N] in
/-- `CleanPageBuffer` leaves a buffer without a page. -/
theorem cleanPageBuffer_ok (h : PoolOk s.pool) {id : Fin N} (hoff : id ∉ s.pool.freeList) :
    PoolOk (s.cleanPageBuffer id).pool ∧
      (s.cleanPageBuffer id).pool.bufferDesc = Function.update s.pool.bufferDesc id
      (s.pool.bufferDesc id).clean ∧
      ∀ t, s.pool.hashTable.lookup t = none →
        (s.cleanPageBuffer id).pool.hashTable.lookup t = none := by
  obtain ⟨hok, hsize, hlookup⟩ :=
    hashDeleteEntry_spec h.table (s.pool.bufferDesc id).bufferTag
  refine ⟨⟨hok, hsize.trans h.size, fun t b hb => ?_, fun b hb => ?_, h.free_nodup⟩,
    rfl, fun t ht => ?_⟩
  · have hb := (hlookup t).symm.trans hb
    split at hb
    · cases hb
    · rename_i htag
      have hnamed := h.named t b hb
      have hid : b ≠ id := by
        rintro rfl
        exact htag hnamed.1.symm
      simpa [AllocState.cleanPageBuffer, AllocState.setDesc, PoolState.setDesc, hid] using
        hnamed
  · have hid : b ≠ id := fun heq => hoff (heq ▸ hb)
    simpa [AllocState.cleanPageBuffer, AllocState.setDesc, PoolState.setDesc, hid] using
      h.free b hb
  · refine (hlookup t).trans ?_
    split
    · rfl
    · exact ht

omit [NeZero N] in
/-- `INIT_TAG` on a buffer without a page, for a page that is in no buffer. -/
theorem initTag_ok (h : PoolOk s.pool) {id : Fin N} {t : BufferTag}
    (hoff : id ∉ s.pool.freeList) (hinvalid : (s.pool.bufferDesc id).isValid = .invalid)
    (habsent : s.pool.hashTable.lookup t = none) :
    ∃ s', s.initTag t id = (.retBuf ⟨some id, some .empty⟩, s') ∧ PoolOk s'.pool ∧
      s'.pool.bufferDesc = Function.update s.pool.bufferDesc id
        ((s.pool.bufferDesc id).initTag t) := by
  have hunnamed : ∀ t', s.pool.hashTable.lookup t' ≠ some id :=
    fun t' ht' => (h.named t' id ht').2 hinvalid
  have honce : ∀ t₁ t₂ b, s.pool.hashTable.lookup t₁ = some b →
      s.pool.hashTable.lookup t₂ = some b → t₁ = t₂ :=
    fun t₁ t₂ b h₁ h₂ => (h.named t₁ b h₁).1.symm.trans (h.named t₂ b h₂).1
  obtain ⟨entry, rest, hfree⟩ := List.exists_cons_of_ne_nil
    (freeHashElementList_ne_nil h.table h.size honce hunnamed)
  have hinserted :
      (HashTableOk (s.pool.hashTable.insertEntry t id entry rest) fun _ => False) ∧
      ∀ k, (s.pool.hashTable.insertEntry t id entry rest).lookup k =
        if k = t then some id else s.pool.hashTable.lookup k :=
          h.table.lookup_insertEntry hfree habsent
  obtain ⟨hok, hlookup⟩ := hinserted
  have hinsert : hashGetFreeEntry s.pool.hashTable (s.pool.hashTable.getHashKey t) t id =
      (.insert, some entry, s.pool.hashTable.insertEntry t id entry rest) := by
    rcases hashGetFreeEntry_cases s.pool.hashTable t id with ⟨entry', -,
      hfound⟩ | ⟨-, hnil, -⟩ |
      ⟨entry', rest', -, hfree', heq⟩
    · rw [habsent] at hfound
      cases hfound
    · rw [hfree] at hnil
      cases hnil
    · rw [hfree] at hfree'
      cases hfree'
      exact heq
  refine ⟨{ s with pool := { s.pool.setDesc id ((s.pool.bufferDesc id).initTag t) with
      hashTable := s.pool.hashTable.insertEntry t id entry rest } }, ?_,
    ⟨hok, h.size, fun t' b hb => ?_, fun b hb => ?_, h.free_nodup⟩, rfl⟩
  · rw [AllocState.initTag]
    dsimp only
    rw [if_pos hinvalid]
    simp only [AllocState.setDesc, PoolState.setDesc, hinsert]
  · have hold := (hlookup t').symm.trans hb
    split at hold
    · rename_i ht
      cases hold
      simp [PoolState.setDesc, BufferDesc.initTag, ht]
    · have hnamed := h.named t' b hold
      have hid : b ≠ id := fun heq => hunnamed t' (heq ▸ hold)
      simpa [PoolState.setDesc, hid] using hnamed
  · have hid : b ≠ id := fun heq => hoff (heq ▸ hb)
    simpa [PoolState.setDesc, hid] using h.free b hb

/-- The worker gets buffer `id` for the page `t`. -/
structure HandedOut (s s' : PoolState N m) (t : BufferTag) (id : Fin N) : Prop where
  pinned : (s'.bufferDesc id).refCnt = (s.bufferDesc id).refCnt + 1
  page : (s'.bufferDesc id).bufferTag = t ∧ (s'.bufferDesc id).isValid ≠ .invalid
  /-- A page that was replaced had no pin. -/
  replaced : (s.bufferDesc id).isValid ≠ .invalid → (s.bufferDesc id).bufferTag ≠ t →
    (s.bufferDesc id).refCnt = 0

/-- `AllocBuffer` ends; it fails when the page is not cached and every buffer is pinned, and
only then; the buffer it returns is pinned, and a page that was replaced for it had no pin. -/
def AllocBufferOk (s : AllocState N m) (t : BufferTag) : Prop :=
  ∃ result s', Returns (fun fuel => allocBuffer fuel s t) (result, s') ∧
    (result.bufferId = none ↔ searchBuffer s.pool t = none ∧ ∀ b,
      0 < (s.pool.bufferDesc b).refCnt) ∧
    ∀ id, result.bufferId = some id → HandedOut s.pool s'.pool t id

/-! ## AllocBuffer -/

omit [NeZero N] in
theorem findRecheck_ok (h : PoolOk s.pool) {t : BufferTag} {id : Fin N}
    (hfound : searchBuffer s.pool t = some id) :
    ∃ answer s', s.findRecheck t id = (some ⟨some id, some answer⟩, s') ∧
      s'.pool = s.pool.setDesc id (s.pool.bufferDesc id).pin := by
  obtain ⟨htag, hvalid⟩ := h.named t id hfound
  have hdesc : (((s.lockBufDesc id .write).pinBuffer id).pool.bufferDesc id) =
      (s.pool.bufferDesc id).pin :=
    Function.update_self ..
  have hsame : t = (s.pool.bufferDesc id).pin.bufferTag ∧
      (s.pool.bufferDesc id).pin.isValid ≠ .invalid :=
    ⟨htag.symm, hvalid⟩
  simp only [AllocState.findRecheck]
  rw [hdesc, if_pos hsame]
  split
  · exact ⟨.empty, _, rfl, rfl⟩
  · exact ⟨.found, _, rfl, rfl⟩

/-- A page that is in a buffer is found there. -/
theorem allocBuffer_found (h : PoolOk s.pool) {t : BufferTag} {id : Fin N}
    (hfound : searchBuffer s.pool t = some id) :
    ∃ answer s', Returns (fun fuel => allocBuffer fuel s t) (⟨some id, some answer⟩, s') ∧
      HandedOut s.pool s'.pool t id ∧ PoolOk s'.pool := by
  obtain ⟨htag, hvalid⟩ := h.named t id hfound
  have hoff : id ∉ s.pool.freeList := fun hmem => hvalid (h.free id hmem).1
  obtain ⟨answer, s', hrecheck, hpool⟩ := findRecheck_ok h hfound
  refine ⟨answer, s', .of_succ (k := 0) fun fuel _ => ?_, ?_, ?_⟩
  · rw [allocBuffer, hfound, allocBufferFrom]
    simp only [hrecheck]
  · rw [hpool]
    exact ⟨by simp [PoolState.setDesc, BufferDesc.pin], by
      simp [PoolState.setDesc, BufferDesc.pin, htag, hvalid],
      fun _ hne => absurd htag hne⟩
  · rw [hpool]
    exact h.setDesc hoff rfl rfl

/-- `AllocBuffer` when the page is in no buffer. -/
theorem allocBuffer_of_take {t : BufferTag} {result : AllocResult N}
    {s' : AllocState N m} {fuel : Nat} (hnone : searchBuffer s.pool t = none)
    (htake : s.takeBuffer fuel t = some (.retBuf result, s')) :
    allocBuffer (fuel + 1) s t = some (result, s') := by
  rw [allocBuffer, hnone, allocBufferFrom]
  simp only [htake]

omit [NeZero N] in
/-- `INIT_TAG` on a buffer that was pinned and has no page. -/
theorem initTag_handsOut (h : PoolOk s.pool) {before : PoolState N m}
    {id : Fin N} {t : BufferTag}
    (hoff : id ∉ s.pool.freeList) (hinvalid : (s.pool.bufferDesc id).isValid = .invalid)
    (habsent : s.pool.hashTable.lookup t = none)
    (hpinned : (s.pool.bufferDesc id).refCnt = (before.bufferDesc id).refCnt + 1)
    (hreplaced : (before.bufferDesc id).isValid ≠ .invalid →
      (before.bufferDesc id).refCnt = 0) :
    ∃ s', s.initTag t id = (.retBuf ⟨some id, some .empty⟩, s') ∧
      HandedOut before s'.pool t id ∧ PoolOk s'.pool := by
  obtain ⟨s', hinit, hok, hdesc⟩ := initTag_ok h hoff hinvalid habsent
  have hself : s'.pool.bufferDesc id = (s.pool.bufferDesc id).initTag t := by
    rw [hdesc, Function.update_self]
  refine ⟨s', hinit, ⟨?_, ?_, fun hvalid _ => hreplaced hvalid⟩, hok⟩
  · rw [hself]
    exact hpinned
  · rw [hself]
    exact ⟨rfl, by simp [BufferDesc.initTag]⟩

/-- A free buffer is taken. -/
theorem allocBuffer_free (h : PoolOk s.pool) {t : BufferTag}
    (hnone : searchBuffer s.pool t = none) (hfree : s.pool.freeList ≠ []) : ∃ id s',
      Returns (fun fuel => allocBuffer fuel s t) (⟨some id, some .empty⟩, s') ∧
        HandedOut s.pool s'.pool t id ∧
      (s.pool.bufferDesc id).refCnt = 0 ∧ PoolOk s'.pool := by
  obtain ⟨id, rest, hlist⟩ := List.exists_cons_of_ne_nil hfree
  obtain ⟨hinvalid, hpins⟩ := h.free id (hlist ▸ List.mem_cons_self)
  have hnodup := h.free_nodup
  rw [hlist] at hnodup
  have hoff : id ∉ rest := (List.nodup_cons.mp hnodup).1
  have hget : s.getFreeBufferId =
      (some id, { s with pool := { s.pool with freeList := rest } }) := by
    simp [AllocState.getFreeBufferId, getFreeBufferId, hlist, hpins]
  have hrest : PoolOk { s.pool with freeList := rest } :=
    ⟨h.table, h.size, h.named, fun b hb => h.free b (hlist ▸ List.mem_cons_of_mem id hb),
      (List.nodup_cons.mp hnodup).2⟩
  have hpinned : PoolOk
      (PoolState.setDesc { s.pool with freeList := rest } id (s.pool.bufferDesc id).pin) :=
    hrest.setDesc hoff rfl rfl
  obtain ⟨s₁, hs₁⟩ : ∃ s₁, s₁ =
      (AllocState.lockBufDesc { s with pool := { s.pool with freeList := rest } } id
        .write).pinBuffer id := ⟨_, rfl⟩
  have hpool₁ : s₁.pool =
      PoolState.setDesc { s.pool with freeList := rest } id (s.pool.bufferDesc id).pin := by
    rw [hs₁]
    rfl
  have hdesc₁ : s₁.pool.bufferDesc id = (s.pool.bufferDesc id).pin := by
    rw [hpool₁]
    exact Function.update_self ..
  have hoff₁ : id ∉ s₁.pool.freeList := by
    rw [hpool₁]
    exact hoff
  have hinvalid₁ : (s₁.pool.bufferDesc id).isValid = .invalid := by
    rw [hdesc₁]
    exact hinvalid
  have hnone₁ : s₁.pool.hashTable.lookup t = none := by
    rw [hpool₁]
    exact hnone
  have hpins₁ : (s₁.pool.bufferDesc id).refCnt = (s.pool.bufferDesc id).refCnt + 1 := by
    rw [hdesc₁]
    rfl
  obtain ⟨s', hinit, hhanded, hok'⟩ :=
    initTag_handsOut (hpool₁ ▸ hpinned) hoff₁ hinvalid₁ hnone₁ hpins₁ fun _ => hpins
  refine ⟨id, s', .of_succ (k := 0) fun fuel _ => allocBuffer_of_take hnone ?_,
    hhanded, hpins, hok'⟩
  rw [hs₁] at hinit
  simp only [AllocState.takeBuffer, hget, hinit]

omit [NeZero N] in
theorem getFreeBufferId_none (hfree : s.pool.freeList = []) :
    s.getFreeBufferId = (none, s) := by
  simp only [AllocState.getFreeBufferId, getFreeBufferId, hfree, List.dropWhile_nil]
  exact congrArg (fun freeList =>
    (none, { s with pool := { s.pool with freeList := freeList } })) hfree.symm

/-- A victim is swept out. -/
theorem allocBuffer_swept (h : PoolOk s.pool) (hok : TableOk s.localLocks) {t : BufferTag}
    (hnone : searchBuffer s.pool t = none) (hfree : s.pool.freeList = []) {place : Fin N}
    (hplace : Victim s place) :
    ∃ id s', Returns (fun fuel => allocBuffer fuel s t) (⟨some id, some .empty⟩, s') ∧
      HandedOut s.pool s'.pool t id ∧ PoolOk s'.pool := by
  obtain ⟨id, used, hvictim, hsweep⟩ := clockSweep_returns hok hplace
  have hoff : id ∉ s.pool.freeList := by simp [hfree]
  have hswept : PoolOk (s.swept used id).pool := h.withUsed used (id + 1)
  have hpinned : PoolOk ((s.swept used id).pinBuffer id).pool := hswept.setDesc hoff rfl rfl
  obtain ⟨hcleaned, hdesc, hlookup⟩ := cleanPageBuffer_ok hpinned hoff
  have hself : (((s.swept used id).pinBuffer id).cleanPageBuffer id).pool.bufferDesc id =
      ((s.swept used id).pool.bufferDesc id).pin.clean := by
    rw [hdesc, Function.update_self]
    exact congrArg BufferDesc.clean (Function.update_self ..)
  obtain ⟨s', hinit, hhanded, hok'⟩ :=
    initTag_handsOut hcleaned hoff (by rw [hself]; rfl) (hlookup t hnone)
      (by rw [hself]; rfl) fun hvalid => hvictim.1.resolve_left hvalid
  obtain ⟨k, hk⟩ := hsweep
  refine ⟨id, s', .of_succ (k := k) fun fuel hfuel => allocBuffer_of_take hnone ?_,
    hhanded, hok'⟩
  have hsweep := hk fuel hfuel
  dsimp only at hsweep
  simp only [AllocState.takeBuffer, getFreeBufferId_none hfree, hsweep, hinit]

/-- Without a victim `AllocBuffer` does not come back. -/
theorem allocBuffer_none (hok : TableOk s.localLocks) {t : BufferTag}
    (hnone : searchBuffer s.pool t = none)
    (hfree : s.pool.freeList = []) (hvictim : ∀ id, ¬ Victim s id) (fuel : Nat) :
    allocBuffer fuel s t = none := by
  cases fuel with
  | zero => rfl
  | succ fuel =>
    rw [allocBuffer, hnone, allocBufferFrom]
    simp only [AllocState.takeBuffer, getFreeBufferId_none hfree, clockSweep_none hok hvictim]

/-- The page is in a buffer, or a buffer is free, or there is a victim for the sweep and a
buffer without a pin. -/
def Allocates (s : AllocState N m) (t : BufferTag) : Prop :=
  searchBuffer s.pool t ≠ none ∨ s.pool.freeList ≠ [] ∨
    ((∃ id, Victim s id) ∧ ∃ id, (s.pool.bufferDesc id).refCnt = 0)

theorem allocBufferOk_of_returns {t : BufferTag} {id : Fin N} {answer : Option BufferFound}
    {s' : AllocState N m}
    (hreturns : Returns (fun fuel => allocBuffer fuel s t) (⟨some id, answer⟩, s'))
    (hhanded : HandedOut s.pool s'.pool t id)
    (hroom : ¬ (searchBuffer s.pool t = none ∧ ∀ b, 0 < (s.pool.bufferDesc b).refCnt)) :
    AllocBufferOk s t := by
  refine ⟨_, s', hreturns, ⟨fun h => absurd h (by simp), fun h => absurd h hroom⟩,
    fun id' hid => ?_⟩
  cases hid
  exact hhanded

/-- The sweep ends when there is a victim for it, and only then. -/
theorem clockSweep_ends_iff (hlocks : TableOk s.localLocks) :
    (∃ r, Returns (fun fuel => clockSweep fuel s) r) ↔ ∃ id, Victim s id := by
  constructor
  · rintro ⟨r, k, hk⟩
    by_contra hvictim
    have hend := hk k (Nat.le_refl k)
    dsimp only at hend
    rw [clockSweep_none hlocks (fun id h => hvictim ⟨id, h⟩)] at hend
    cases hend
  · rintro ⟨place, hplace⟩
    obtain ⟨id, used, -, hreturns⟩ := clockSweep_returns hlocks hplace
    exact ⟨_, hreturns⟩

/-- The pool is in order afterwards. -/
theorem allocBuffer_keeps (hpool : PoolOk s.pool)
    (hlocks : TableOk s.localLocks) {t : BufferTag}
    {result : AllocResult N} {s' : AllocState N m}
    (h : Returns (fun fuel => allocBuffer fuel s t) (result, s')) :
    PoolOk s'.pool := by
  by_cases hnone : searchBuffer s.pool t = none
  · by_cases hfree : s.pool.freeList = []
    · by_cases hvictim : ∃ id, Victim s id
      · obtain ⟨place, hplace⟩ := hvictim
        obtain ⟨id, s'', hreturns, -, hok⟩ :=
          allocBuffer_swept hpool hlocks hnone hfree hplace
        cases hreturns.unique h
        exact hok
      · obtain ⟨k, hk⟩ := h
        have hend := hk k (Nat.le_refl k)
        dsimp only at hend
        rw [allocBuffer_none hlocks hnone hfree fun id h => hvictim ⟨id, h⟩] at hend
        cases hend
    · obtain ⟨id, s'', hreturns, -, -, hok⟩ := allocBuffer_free hpool hnone hfree
      cases hreturns.unique h
      exact hok
  · obtain ⟨id, hfound⟩ := Option.ne_none_iff_exists'.mp hnone
    obtain ⟨answer, s'', hreturns, -, hok⟩ := allocBuffer_found hpool hfound
    cases hreturns.unique h
    exact hok

theorem not_allocBufferOk (hlocks : TableOk s.localLocks) {t : BufferTag}
    (hnone : searchBuffer s.pool t = none)
    (hfree : s.pool.freeList = []) (hvictim : ∀ id, ¬ Victim s id) : ¬ AllocBufferOk s t := by
  rintro ⟨result, s', ⟨k, hk⟩, -⟩
  have hend := hk k (Nat.le_refl k)
  dsimp only at hend
  rw [allocBuffer_none hlocks hnone hfree hvictim] at hend
  cases hend

theorem allocBuffer_iff (s : AllocState N m) (t : BufferTag) (hpool : PoolOk s.pool)
    (hlocks : TableOk s.localLocks) :
    AllocBufferOk s t ↔ Allocates s t := by
  constructor
  · intro h
    by_cases hnone : searchBuffer s.pool t = none
    · by_cases hfree : s.pool.freeList = []
      · by_cases hvictim : ∃ id, Victim s id
        · obtain ⟨place, hplace⟩ := hvictim
          refine .inr (.inr ⟨⟨place, hplace⟩, ?_⟩)
          obtain ⟨result, s', hreturns, hfails, -⟩ := h
          obtain ⟨id, s'', hreturns', -⟩ := allocBuffer_swept hpool hlocks hnone hfree hplace
          cases hreturns'.unique hreturns
          by_contra hpinned
          have hall : ∀ b, 0 < (s.pool.bufferDesc b).refCnt :=
            fun b => Nat.pos_of_ne_zero fun hb => hpinned ⟨b, hb⟩
          cases hfails.mpr ⟨hnone, hall⟩
        · exact absurd h (not_allocBufferOk hlocks hnone hfree fun id h => hvictim ⟨id, h⟩)
      · exact .inr (.inl hfree)
    · exact .inl hnone
  · intro h
    by_cases hnone : searchBuffer s.pool t = none
    · rcases h with hfound | hfree | ⟨⟨place, hplace⟩, id, hid⟩
      · exact absurd hnone hfound
      · obtain ⟨id, s', hreturns, hhanded, hid, -⟩ := allocBuffer_free hpool hnone hfree
        exact allocBufferOk_of_returns hreturns hhanded fun h => (h.2 id).ne' hid
      · by_cases hfree : s.pool.freeList = []
        · obtain ⟨id', s', hreturns, hhanded, -⟩ :=
            allocBuffer_swept hpool hlocks hnone hfree hplace
          exact allocBufferOk_of_returns hreturns hhanded fun h => (h.2 id).ne' hid
        · obtain ⟨id', s', hreturns, hhanded, hid', -⟩ := allocBuffer_free hpool hnone hfree
          exact allocBufferOk_of_returns hreturns hhanded fun h => (h.2 id').ne' hid'
    · obtain ⟨id, hfound⟩ := Option.ne_none_iff_exists'.mp hnone
      obtain ⟨answer, s', hreturns, hhanded, -⟩ := allocBuffer_found hpool hfound
      exact allocBufferOk_of_returns hreturns hhanded fun h => hnone h.1

/-- A worker that reads the first pages of a table; each of them takes a free buffer. -/
def poolReads (N n : Nat) : List (Fin 1 × PoolCall N) :=
  (List.range n).flatMap fun i =>
    (0, .readPage 1 (i + 1) .main) :: List.replicate 5 (0, .next true)

/-- A worker that reads as many pages as there are buffers. -/
def fillPool : List (Fin 1 × PoolCall 8) :=
  poolReads 8 7 ++ (0, .readPage 1 8 .main) :: List.replicate 7 (0, .next true)

/-- The same with nine buffers, and the last page is given back. -/
def fillAndRelease : List (Fin 1 × PoolCall 9) :=
  poolReads 9 8 ++ (0, .readPage 1 9 .main) :: List.replicate 7 (0, .next true) ++
    [(0, .releasePage 0)]

/-- A full pool, with one page that has no pin. -/
def fullPool : PoolState 9 1 := exec poolStep (createBufferPool 9 1 fun _ => 0) fillAndRelease

theorem fullPool_ok : PoolOk fullPool := by
  have hrun : run poolStep (createBufferPool 9 1 fun _ => 0) fillAndRelease = some fullPool :=
    run_exec (by decide +kernel)
  have habsent : Along poolStep TagAbsent
      (createBufferPool 9 1 fun _ => 0) fillAndRelease := by decide +kernel
  have hinv : PoolInv fullPool :=
    run_invariant (fun hs ha hstep => hs.step ha hstep)
      (createBufferPool_inv fun _ => 0) habsent hrun
  exact hinv.poolOk (by decide +kernel) (List.isEmpty_iff.mp (by decide +kernel))

/-- The buffer of that page is swept out. -/
theorem allocBuffer_fullPool : AllocBufferOk ⟨fullPool, []⟩ (readPageTag 1 10 .main) := by
  have hvictim : ∃ id, Victim (m := 1) ⟨fullPool, []⟩ id := by decide +kernel
  have hunpinned : ∃ id, (fullPool.bufferDesc id).refCnt = 0 := by decide +kernel
  have hok := fullPool_ok
  have hlocks : TableOk ([] : LocalLockTable (Fin 9)) := ⟨by decide, by simp, by decide⟩
  -- the run behind the pool is not to be looked at any more
  generalize fullPool = pool at hvictim hunpinned hok ⊢
  exact (allocBuffer_iff ⟨pool, []⟩ _ hok hlocks).mpr (.inr (.inr ⟨hvictim, hunpinned⟩))

/-- The pages of a group of eight columns, locked by the worker. -/
def eightColumns : LocalLockTable (Fin 9) :=
  (List.finRange 8).map fun i => ⟨some i.succ, .write, 1⟩

/-- With every buffer pinned, and with a full table of local locks, the sweep goes round for
ever. -/
theorem allocBuffer_goesRound :
    ((run poolStep (createBufferPool 8 1 fun _ => 0) fillPool).isSome = true ∧
        ¬ AllocBufferOk ⟨exec poolStep (createBufferPool 8 1 fun _ => 0) fillPool, []⟩
          (readPageTag 1 9 .main)) ∧
      (run poolStep (createBufferPool 9 1 fun _ => 0) fillAndRelease).isSome = true ∧
        ¬ AllocBufferOk ⟨exec poolStep (createBufferPool 9 1 fun _ => 0) fillAndRelease,
          eightColumns⟩
          (readPageTag 1 10 .main) := by
  refine ⟨⟨by decide +kernel, not_allocBufferOk ⟨by decide, by simp, by decide⟩ ?_ ?_ ?_⟩, by
    decide +kernel,
    not_allocBufferOk ⟨by decide, by decide, by decide⟩ ?_ ?_ ?_⟩
  · exact Option.isNone_iff_eq_none.mp (by decide +kernel)
  · exact List.isEmpty_iff.mp (by decide +kernel)
  · decide +kernel
  · exact Option.isNone_iff_eq_none.mp (by decide +kernel)
  · exact List.isEmpty_iff.mp (by decide +kernel)
  · decide +kernel

end Toadb
