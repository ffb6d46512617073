/-
Toadb.Buffer.PinTheorems — a page that a worker has read stays in its buffer until the worker
gives it back.

A step of a worker writes one descriptor, and that one is not locked by another worker
(`PinStep`). From this the invariant `PinInv`: the pin count of a buffer is the number of pins
the workers have on it, and a page that is handed out is valid. `ClockSweep` takes a victim
that has no pins or is invalid, and no one else can pin it while it is locked; a buffer of the
free list is given up again unless it is invalid.

Whether the table keeps a tag twice (`PoolTheorems`) makes no difference to this.
-/
import Toadb.Buffer.PoolTheorems
import Mathlib.Algebra.BigOperators.Fin
import Mathlib.Algebra.Order.BigOperators.Group.Finset

namespace Toadb

open Transition

variable {N m : Nat}

/-! ## Pins -/

/-- The buffer that a worker inside `ReadPage` has pinned. -/
def PoolPhase.pinned : PoolPhase N → Option (Fin N)
  | .putFree _ id _ | .initTag _ id | .load _ id => some id
  | _ => none

/-- The pins on a buffer of a worker at place `p` with the pages `pages`. -/
def pinsAt (p : PoolPhase N) (pages : List (Fin N)) (b : Fin N) : Nat :=
  pages.count b + if p.pinned = some b then 1 else 0

/-- The pins a worker has on a buffer. -/
def PoolState.pins (s : PoolState N m) (w : Fin m) (b : Fin N) : Nat :=
  pinsAt (s.phase w) (s.pages w) b

/-- The invariant of the pins. -/
structure PinInv (s : PoolState N m) : Prop where
  locks : ∀ b j, (s.bufferDesc b).lock = some j ↔ (s.phase j).locked = some b
  refCnt : ∀ b, (s.bufferDesc b).refCnt = ∑ w, s.pins w b
  /-- A page that is handed out is valid. -/
  held : ∀ w, ∀ b ∈ s.pages w, (s.bufferDesc b).isValid = .vlid
  victim : ∀ w t b, s.phase w = .clean t b →
    (s.bufferDesc b).isValid = .invalid ∨ (s.bufferDesc b).refCnt = 0
  cleaned : ∀ w t b e, s.phase w = .putFree t b e → (s.bufferDesc b).isValid = .invalid
  loading : ∀ w t b, s.phase w = .load t b →
    (s.bufferDesc b).bufferTag = t ∧ (s.bufferDesc b).isValid = .tag

variable {s s' : PoolState N m} {w : Fin m}

theorem createBufferPool_pinInv [NeZero N] (getHashKey : BufferTag → Nat) :
    PinInv (createBufferPool N m getHashKey) where
  locks b j := by simp [createBufferPool, PoolPhase.locked]
  refCnt b := by simp [createBufferPool, PoolState.pins, pinsAt, PoolPhase.pinned]
  held w b hb := by cases hb
  victim w t b hw := by cases hw
  cleaned w t b e hw := by cases hw
  loading w t b hw := by cases hw

theorem PinInv.pins_le (h : PinInv s) (w : Fin m) (b : Fin N) :
    s.pins w b ≤ (s.bufferDesc b).refCnt := by
  rw [h.refCnt b]
  exact Finset.single_le_sum (f := fun w => s.pins w b)
    (fun _ _ => Nat.zero_le _) (Finset.mem_univ w)

theorem PinInv.pos_of_mem (h : PinInv s) {b : Fin N} (hb : b ∈ s.pages w) :
    0 < (s.bufferDesc b).refCnt := by
  have hcount : 0 < (s.pages w).count b := List.count_pos_iff.mpr hb
  have hpins := h.pins_le w b
  simp only [PoolState.pins, pinsAt] at hpins
  omega

theorem PinInv.pos_of_pinned (h : PinInv s) {b : Fin N} (hb : (s.phase w).pinned = some b) :
    0 < (s.bufferDesc b).refCnt := by
  have hpins := h.pins_le w b
  simp only [PoolState.pins, pinsAt, hb, if_true] at hpins
  omega

/-! ## What one step does -/

/-- How the pages of a worker change. -/
inductive PagesStep (s : PoolState N m) (a : Fin m × PoolCall N) (id : Fin N)
    (d : BufferDesc m) (p : PoolPhase N) :
    List (Fin N) → Prop where
  | same (hread : ∀ tableId index forkNum, a.2 = .readPage tableId index forkNum → p = .idle ∨
        p = .search (readPageTag tableId index forkNum))
      (hnext : ∀ readOk, a.2 = .next readOk →
        p = .idle ∨ p.requested = (s.phase a.1).requested) :
      PagesStep s a id d p (s.pages a.1)
  | got (readOk : Bool) (hcall : a.2 = .next readOk) (hidle : p = .idle)
      (hvalid : d.isValid = .vlid)
      (htag : (s.phase a.1).requested = some d.bufferTag) :
        PagesStep s a id d p (id :: s.pages a.1)
  | released (hcall : a.2 = .releasePage id) (hidle : p = .idle) :
      PagesStep s a id d p ((s.pages a.1).erase id)

/-- A step writes the descriptor of `id`, and takes the worker to `p` with the pages `ps`. -/
structure PinStep (s : PoolState N m) (a : Fin m × PoolCall N) (s' : PoolState N m)
    (id : Fin N) (d : BufferDesc m) (p : PoolPhase N) (ps : List (Fin N)) : Prop where
  desc : s'.bufferDesc = Function.update s.bufferDesc id d
  phase : s'.phase = Function.update s.phase a.1 p
  pages : s'.pages = Function.update s.pages a.1 ps
  alone : d = s.bufferDesc id ∨ (s.bufferDesc id).lock = none ∨
    (s.bufferDesc id).lock = some a.1
  lock : (d.lock = (s.bufferDesc id).lock ∧ p.locked = (s.phase a.1).locked) ∨
    ((s.bufferDesc id).lock = none ∧ d.lock = some a.1 ∧ (s.phase a.1).locked = none ∧
      p.locked = some id) ∨
    ((s.phase a.1).locked = some id ∧ d.lock = none ∧ p.locked = none)
  refCnt : d.refCnt + s.pins a.1 id = (s.bufferDesc id).refCnt + pinsAt p ps id
  others : ∀ b, b ≠ id → pinsAt p ps b = s.pins a.1 b
  /-- A valid buffer that is pinned stays what it is. -/
  keeps : (s.bufferDesc id).isValid = .vlid → 0 < (s.bufferDesc id).refCnt →
    d.isValid = .vlid ∧ d.bufferTag = (s.bufferDesc id).bufferTag
  change : PagesStep s a id d p ps
  victim : ∀ t b, p = .clean t b → b = id ∧ (d.isValid = .invalid ∨ d.refCnt = 0)
  cleaned : ∀ t b e, p = .putFree t b e → b = id ∧ d.isValid = .invalid
  loading : ∀ t b, p = .load t b → b = id ∧ d.bufferTag = t ∧ d.isValid = .tag

variable {a : Fin m × PoolCall N}

/-- A step that touches no descriptor and has no pin. -/
theorem PinStep.move {p : PoolPhase N} (hdesc : s'.bufferDesc = s.bufferDesc)
    (hphase : s'.phase = Function.update s.phase a.1 p) (hpages : s'.pages = s.pages)
    (hlocked : p.locked = (s.phase a.1).locked) (hpinned : p.pinned = (s.phase a.1).pinned)
    (hchange : PagesStep s a s.start (s.bufferDesc s.start) p (s.pages a.1))
    (hvictim : ∀ t b, p ≠ .clean t b)
    (hcleaned : ∀ t b e, p ≠ .putFree t b e) (hloading : ∀ t b, p ≠ .load t b) :
    PinStep s a s' s.start (s.bufferDesc s.start) p (s.pages a.1) where
  desc := by rw [hdesc, Function.update_eq_self]
  phase := hphase
  pages := by rw [hpages, Function.update_eq_self]
  alone := .inl rfl
  lock := .inl ⟨rfl, hlocked⟩
  refCnt := by rw [PoolState.pins, pinsAt, pinsAt, hpinned]
  others b _ := by rw [PoolState.pins, pinsAt, pinsAt, hpinned]
  keeps hvalid _ := ⟨hvalid, rfl⟩
  change := hchange
  victim t b hp := absurd hp (hvictim t b)
  cleaned t b e hp := absurd hp (hcleaned t b e)
  loading t b hp := absurd hp (hloading t b)

/-- Some step of the kind. -/
def PinStepped (s : PoolState N m) (a : Fin m × PoolCall N) (s' : PoolState N m) : Prop :=
  ∃ id d p ps, PinStep s a s' id d p ps

section Next

variable {readOk : Bool}

theorem findRecheck_pinStep {t : BufferTag} {id : Fin N} (hat : s.phase w = .recheck t id)
    (hstep : findRecheck s w t id = some s') : PinStepped s (w, .next readOk) s' := by
  simp only [findRecheck] at hstep
  split at hstep
  · rename_i hfree
    split at hstep
    · rename_i hsame
      split at hstep
      · rename_i htag
        cases hstep
        refine ⟨id, (s.bufferDesc id).pin.setLock (some w), .load t id, s.pages w, rfl, rfl,
          ?_, .inr (.inl hfree),
          .inr (.inl ⟨hfree, rfl, ?_, rfl⟩), ?_, ?_, ?_,
            .same (by simp) ?_, by simp, by simp, ?_⟩
        · rw [Function.update_eq_self]; rfl
        · simp [hat, PoolPhase.locked]
        · simp [PoolState.pins, pinsAt, hat, PoolPhase.pinned,
            BufferDesc.pin, BufferDesc.setLock]
          omega
        · intro b hb
          simp [PoolState.pins, pinsAt, hat, PoolPhase.pinned, Ne.symm hb]
        · intro hvalid
          simp [htag] at hvalid
        · intro _ _
          exact .inr (by simp [hat, PoolPhase.requested])
        · intro t' b hp
          cases hp
          exact ⟨rfl, hsame.1.symm, htag⟩
      · rename_i htag
        cases hstep
        have hvalid : (s.bufferDesc id).isValid = .vlid := by
          cases hv : (s.bufferDesc id).isValid with
          | vlid => rfl
          | invalid => exact absurd hv hsame.2
          | tag => exact absurd hv htag
        refine ⟨id, (s.bufferDesc id).pin, .idle, id :: s.pages w, rfl, rfl,
          rfl, .inr (.inl hfree),
          .inl ⟨rfl, ?_⟩, ?_, ?_, fun _ _ => ⟨hvalid, rfl⟩, .got readOk rfl rfl hvalid ?_, by
            simp, by simp, by simp⟩
        · simp [hat, PoolPhase.locked]
        · simp [PoolState.pins, pinsAt, hat, PoolPhase.pinned, BufferDesc.pin]
          omega
        · intro b hb
          simp [PoolState.pins, pinsAt, hat, PoolPhase.pinned, Ne.symm hb]
        · simp [hat, PoolPhase.requested, ← hsame.1, BufferDesc.pin]
    · cases hstep
      refine ⟨id, (s.bufferDesc id).pin.unPin, .freeList t, s.pages w, rfl, rfl,
        ?_, .inr (.inl hfree),
        .inl ⟨rfl, ?_⟩, ?_, ?_, fun hvalid _ => ⟨hvalid, rfl⟩, .same (by simp) ?_, by
          simp, by simp, by simp⟩
      · rw [Function.update_eq_self]; rfl
      · simp [hat, PoolPhase.locked]
      · simp [PoolState.pins, pinsAt, hat, PoolPhase.pinned, BufferDesc.pin, BufferDesc.unPin]
      · intro b _
        simp [PoolState.pins, pinsAt, hat, PoolPhase.pinned]
      · intro _ _
        exact .inr (by simp [hat, PoolPhase.requested])
  · cases hstep

theorem clockSweepRound_pinStep [NeZero N] {t : BufferTag} {id : Fin N}
    (hat : s.phase w = .sweep t id) :
    PinStepped s (w, .next readOk) (clockSweepRound s w t id) := by
  simp only [clockSweepRound]
  split
  · rename_i hfree
    split
    · exact ⟨_, _, _, _,
        .move rfl rfl rfl (by simp [hat, PoolPhase.locked]) (by simp [hat, PoolPhase.pinned])
        (.same (by simp) fun _ _ => .inr (by simp [hat, PoolPhase.requested])) (by simp)
          (by simp) (by simp)⟩
    · refine ⟨id, { s.bufferDesc id with usedCnt := (s.bufferDesc id).usedCnt - 1 }, _,
        s.pages w, rfl, rfl, ?_,
        .inr (.inl hfree), .inl ⟨rfl, ?_⟩, ?_, ?_, fun hvalid _ => ⟨hvalid, rfl⟩,
          .same (by simp) ?_, ?_, ?_, ?_⟩
      · rw [Function.update_eq_self]; rfl
      · split <;> simp [hat, PoolPhase.locked]
      · split <;> simp [PoolState.pins, pinsAt, hat, PoolPhase.pinned]
      · intro b _
        split <;> simp [PoolState.pins, pinsAt, hat, PoolPhase.pinned]
      · intro _ _
        exact .inr (by split <;> simp [hat, PoolPhase.requested])
      all_goals split <;> simp
  · exact ⟨_, _, _, _,
      .move rfl rfl rfl (by simp [hat, PoolPhase.locked]) (by simp [hat, PoolPhase.pinned])
      (.same (by simp) fun _ _ => .inr (by simp [hat, PoolPhase.requested])) (by simp)
        (by simp) (by simp)⟩

theorem clockSweepEnd_pinStep [NeZero N] {t : BufferTag} {id : Fin N}
    (hat : s.phase w = .sweepLock t id)
    (hstep : clockSweepEnd s w t id = some s') : PinStepped s (w, .next readOk) s' := by
  simp only [clockSweepEnd] at hstep
  split at hstep
  · rename_i hfree
    split at hstep
    · rename_i hvictim
      cases hstep
      refine ⟨id, (s.bufferDesc id).setLock (some w), .clean t id, s.pages w, rfl, rfl,
        ?_, .inr (.inl hfree),
        .inr (.inl ⟨hfree, rfl, ?_, rfl⟩), ?_, ?_, fun hvalid _ => ⟨hvalid, rfl⟩,
          .same (by simp) ?_, ?_, by simp, by simp⟩
      · rw [Function.update_eq_self]; rfl
      · simp [hat, PoolPhase.locked]
      · simp [PoolState.pins, pinsAt, hat, PoolPhase.pinned, BufferDesc.setLock]
      · intro b _
        simp [PoolState.pins, pinsAt, hat, PoolPhase.pinned]
      · intro _ _
        exact .inr (by simp [hat, PoolPhase.requested])
      · intro t' b hp
        cases hp
        exact ⟨rfl, hvictim.imp_right And.left⟩
    · cases hstep
      exact ⟨_, _, _, _,
        .move rfl rfl rfl (by simp [hat, PoolPhase.locked]) (by simp [hat, PoolPhase.pinned])
        (.same (by simp) fun _ _ => .inr (by simp [hat, PoolPhase.requested])) (by simp)
          (by simp) (by simp)⟩
  · cases hstep

theorem cleanPageBuffer_pinStep (h : PinInv s) {t : BufferTag} {id : Fin N}
    (hat : s.phase w = .clean t id) :
    PinStepped s (w, .next readOk) (cleanPageBuffer s w t id) := by
  have hlocked : (s.phase w).locked = some id := by simp [hat, PoolPhase.locked]
  generalize hentry :
    (hashUnlinkEntry s.hashTable (s.hashTable.getHashKey (s.bufferDesc id).bufferTag)
    (s.bufferDesc id).bufferTag).1 = entry
  have hp : (afterUnlink t id entry).locked = some id ∧
      (afterUnlink t id entry).pinned = some id ∧
      (afterUnlink t id entry).requested = some t := by
    cases entry <;> exact ⟨rfl, rfl, rfl⟩
  refine ⟨id, (s.bufferDesc id).pin.clean, afterUnlink t id entry, s.pages w, rfl, ?_, ?_,
    .inr (.inr ((h.locks id w).mpr hlocked)), .inl ⟨rfl, by rw [hp.1, hlocked]⟩, ?_, ?_, ?_,
      .same (by simp) ?_, ?_, ?_, ?_⟩
  · rw [← hentry]; rfl
  · rw [Function.update_eq_self]; rfl
  · simp only [PoolState.pins, pinsAt, hat, hp.2.1]
    simp [PoolPhase.pinned, BufferDesc.pin, BufferDesc.clean]
    omega
  · intro b hb
    simp only [PoolState.pins, pinsAt, hat, hp.2.1]
    simp [PoolPhase.pinned, Ne.symm hb]
  · intro hvalid hpos
    rcases h.victim w t id hat with hinvalid | hnone
    · simp [hvalid] at hinvalid
    · omega
  · intro _ _
    exact .inr (by rw [hp.2.2, hat, PoolPhase.requested])
  · intro t' b hclean
    cases entry <;> cases hclean
  · intro t' b e hput
    cases entry with
    | none => cases hput
    | some entry => cases hput; exact ⟨rfl, rfl⟩
  · intro t' b hload
    cases entry <;> cases hload

/-- `INIT_TAG` gives the buffer up. -/
theorem leave_pinStep (h : PinInv s) {t : BufferTag} {id : Fin N}
    {d : BufferDesc m} {p : PoolPhase N} (hat : s.phase w = .initTag t id)
    (hdesc : s'.bufferDesc = Function.update s.bufferDesc id d.leave)
    (hphase : s'.phase = Function.update s.phase w p) (hpages : s'.pages = s.pages)
    (hcnt : d.refCnt = (s.bufferDesc id).refCnt)
    (hkeeps : (s.bufferDesc id).isValid = .vlid →
      d.isValid = .vlid ∧ d.bufferTag = (s.bufferDesc id).bufferTag)
    (hplace : p = .search t ∨ ∃ entry, p = .readEntry t entry) :
    PinStepped s (w, .next readOk) s' := by
  have hlocked : (s.phase w).locked = some id := by simp [hat, PoolPhase.locked]
  have hpos := h.pos_of_pinned (w := w) (b := id) (by simp [hat, PoolPhase.pinned])
  have hp : p.locked = none ∧ p.pinned = none ∧ p.requested = some t := by
    rcases hplace with rfl | ⟨entry, rfl⟩ <;> exact ⟨rfl, rfl, rfl⟩
  refine ⟨id, d.leave, p, s.pages w, hdesc, hphase, ?_,
    .inr (.inr ((h.locks id w).mpr hlocked)),
    .inr (.inr ⟨hlocked, rfl, hp.1⟩), ?_, ?_, fun hvalid _ => hkeeps hvalid,
      .same (by simp) ?_, ?_, ?_, ?_⟩
  · rw [hpages, Function.update_eq_self]
  · simp only [PoolState.pins, pinsAt, hat, hp.2.1]
    simp [PoolPhase.pinned, BufferDesc.leave, BufferDesc.unPin, BufferDesc.setLock, hcnt]
    omega
  · intro b hb
    simp only [PoolState.pins, pinsAt, hat, hp.2.1]
    simp [PoolPhase.pinned, Ne.symm hb]
  · intro _ _
    exact .inr (by rw [hp.2.2, hat, PoolPhase.requested])
  all_goals rcases hplace with rfl | ⟨entry, rfl⟩ <;> simp

theorem initTag_pinStep (h : PinInv s) {t : BufferTag} {id : Fin N}
    (hat : s.phase w = .initTag t id) :
    PinStepped s (w, .next readOk) (initTag s w t id) := by
  have hlocked : (s.phase w).locked = some id := by simp [hat, PoolPhase.locked]
  simp only [initTag]
  split
  · rename_i hinvalid
    have hnotValid : (s.bufferDesc id).isValid ≠ .vlid := by simp [hinvalid]
    split
    · refine ⟨id, (s.bufferDesc id).initTag t, .load t id, s.pages w, rfl, rfl, ?_,
        .inr (.inr ((h.locks id w).mpr hlocked)), .inl ⟨rfl, by rw [hlocked]; rfl⟩, ?_, ?_,
        fun hvalid => absurd hvalid hnotValid, .same (by simp) ?_, by simp, by simp, ?_⟩
      · rw [Function.update_eq_self]; rfl
      · simp [PoolState.pins, pinsAt, hat, PoolPhase.pinned, BufferDesc.initTag]
      · intro b hb
        simp [PoolState.pins, pinsAt, hat, PoolPhase.pinned]
      · intro _ _
        exact .inr (by simp [hat, PoolPhase.requested])
      · intro t' b hp
        cases hp
        exact ⟨rfl, rfl, rfl⟩
    · exact leave_pinStep h hat rfl rfl rfl rfl
        (fun hvalid => absurd hvalid hnotValid) (.inr ⟨_, rfl⟩)
    · exact leave_pinStep h hat rfl rfl rfl rfl
        (fun hvalid => absurd hvalid hnotValid) (.inl rfl)
  · exact leave_pinStep h hat rfl rfl rfl rfl (fun hvalid => ⟨hvalid, rfl⟩) (.inl rfl)

theorem finishRead_pinStep (h : PinInv s) {t : BufferTag} {id : Fin N}
    (hat : s.phase w = .load t id) :
    PinStepped s (w, .next readOk) (finishRead s w id readOk) := by
  have hlocked : (s.phase w).locked = some id := by simp [hat, PoolPhase.locked]
  have hpos := h.pos_of_pinned (w := w) (b := id) (by simp [hat, PoolPhase.pinned])
  obtain ⟨htag, htagged⟩ := h.loading w t id hat
  have hnotValid : (s.bufferDesc id).isValid ≠ .vlid := by simp [htagged]
  simp only [finishRead]
  split
  · refine ⟨id, { s.bufferDesc id with isValid := .vlid }.setLock none, .idle,
      id :: s.pages w, rfl, rfl, rfl,
      .inr (.inr ((h.locks id w).mpr hlocked)), .inr (.inr ⟨hlocked, rfl, rfl⟩), ?_, ?_,
      fun hvalid => absurd hvalid hnotValid, .got readOk rfl rfl rfl ?_, by
        simp, by simp, by simp⟩
    · simp [PoolState.pins, pinsAt, hat, PoolPhase.pinned, BufferDesc.setLock]
    · intro b hb
      simp [PoolState.pins, pinsAt, hat, PoolPhase.pinned, Ne.symm hb]
    · simp [hat, PoolPhase.requested, BufferDesc.setLock, htag]
  · refine ⟨id, (s.bufferDesc id).leave, .idle, s.pages w, rfl, rfl, ?_,
      .inr (.inr ((h.locks id w).mpr hlocked)), .inr (.inr ⟨hlocked, rfl, rfl⟩), ?_, ?_,
      fun hvalid => absurd hvalid hnotValid, .same (by simp) fun _ _ => .inl rfl, by
        simp, by simp, by simp⟩
    · rw [Function.update_eq_self]; rfl
    · simp [PoolState.pins, pinsAt, hat, PoolPhase.pinned, BufferDesc.leave,
        BufferDesc.unPin, BufferDesc.setLock]
      omega
    · intro b hb
      simp [PoolState.pins, pinsAt, hat, PoolPhase.pinned, Ne.symm hb]

end Next

/-- The step inversion. -/
theorem pinStepped [NeZero N] (h : PinInv s) (hstep : poolStep s a = some s') :
    PinStepped s a s' := by
  obtain ⟨w, call⟩ := a
  cases call with
  | readPage tableId index forkNum =>
    simp only [poolStep] at hstep
    split at hstep
    · rename_i hidle
      split at hstep
      · cases hstep
        refine ⟨_, _, .idle, _, .move rfl ?_ rfl ?_ ?_
          (.same (fun _ _ _ _ => .inl rfl) (by simp)) (by simp) (by simp) (by simp)⟩
        · rw [← hidle, Function.update_eq_self]
        all_goals rw [hidle]
      · cases hstep
        refine ⟨_, _, _, _,
          .move rfl rfl rfl ?_ ?_ (.same ?_ (by simp)) (by simp) (by simp) (by simp)⟩
        · simp [hidle, PoolPhase.locked]
        · simp [hidle, PoolPhase.pinned]
        · intro _ _ _ hcall
          cases hcall
          exact .inr rfl
    · cases hstep
  | releasePage id =>
    simp only [poolStep] at hstep
    split at hstep
    · rename_i hready
      obtain ⟨hidle, hmem, hfree⟩ := hready
      cases hstep
      have hpos := h.pos_of_mem hmem
      have hcount : 0 < (s.pages w).count id := List.count_pos_iff.mpr hmem
      refine ⟨id, (s.bufferDesc id).unPin, .idle, (s.pages w).erase id, rfl, ?_, rfl,
        .inr (.inl hfree), .inl ⟨rfl, ?_⟩, ?_, ?_,
        fun hvalid _ => ⟨hvalid, rfl⟩, .released rfl rfl, by simp, by simp, by simp⟩
      · rw [← hidle, Function.update_eq_self]; rfl
      · rw [hidle]
      · simp [PoolState.pins, pinsAt, hidle, PoolPhase.pinned, BufferDesc.unPin]
        omega
      · intro b hb
        simp [PoolState.pins, pinsAt, hidle, PoolPhase.pinned, List.count_erase_of_ne hb]
    · cases hstep
  | next readOk =>
    simp only [poolStep, readNext] at hstep
    cases hat : s.phase w with
    | idle => simp [hat] at hstep
    | search t =>
      simp only [hat, Option.some.injEq] at hstep
      subst hstep
      refine ⟨_, _, _, _,
        .move rfl rfl rfl ?_ ?_ (.same (by simp) fun _ _ => .inr ?_) ?_ ?_ ?_⟩
      all_goals split <;> simp [hat, PoolPhase.locked, PoolPhase.pinned, PoolPhase.requested]
    | recheck t id =>
      simp only [hat] at hstep
      exact findRecheck_pinStep hat hstep
    | freeList t =>
      simp only [hat, Option.some.injEq] at hstep
      subst hstep
      refine ⟨_, _, _, _,
        .move rfl rfl rfl ?_ ?_ (.same (by simp) fun _ _ => .inr ?_) ?_ ?_ ?_⟩
      all_goals split <;> simp [hat, PoolPhase.locked, PoolPhase.pinned, PoolPhase.requested]
    | lockFree t id =>
      simp only [hat] at hstep
      split at hstep
      · rename_i hfree
        cases hstep
        refine ⟨id, (s.bufferDesc id).pin.setLock (some w), .initTag t id, s.pages w, rfl,
          rfl, ?_, .inr (.inl hfree),
          .inr (.inl ⟨hfree, rfl, ?_, rfl⟩), ?_, ?_, fun hvalid _ => ⟨hvalid, rfl⟩,
            .same (by simp) ?_, by simp, by simp, by simp⟩
        · rw [Function.update_eq_self]; rfl
        · simp [hat, PoolPhase.locked]
        · simp [PoolState.pins, pinsAt, hat, PoolPhase.pinned,
            BufferDesc.pin, BufferDesc.setLock]
          omega
        · intro b hb
          simp [PoolState.pins, pinsAt, hat, PoolPhase.pinned, Ne.symm hb]
        · intro _ _
          exact .inr (by simp [hat, PoolPhase.requested])
      · cases hstep
    | sweep t id =>
      simp only [hat, Option.some.injEq] at hstep
      subst hstep
      exact clockSweepRound_pinStep hat
    | sweepLock t id =>
      simp only [hat] at hstep
      exact clockSweepEnd_pinStep hat hstep
    | clean t id =>
      simp only [hat, Option.some.injEq] at hstep
      subst hstep
      exact cleanPageBuffer_pinStep h hat
    | putFree t id entry =>
      simp only [hat, Option.some.injEq] at hstep
      subst hstep
      refine ⟨_, _, _, _, .move rfl rfl rfl ?_ ?_ (.same (by simp) fun _ _ => .inr ?_)
        (by simp) (by simp) (by simp)⟩
      all_goals simp [hat, PoolPhase.locked, PoolPhase.pinned, PoolPhase.requested]
    | initTag t id =>
      simp only [hat, Option.some.injEq] at hstep
      subst hstep
      exact initTag_pinStep h hat
    | readEntry t entry =>
      simp only [hat, Option.some.injEq] at hstep
      subst hstep
      refine ⟨_, _, _, _, .move rfl rfl rfl ?_ ?_ (.same (by simp) fun _ _ => .inr ?_)
        (by simp) (by simp) (by simp)⟩
      all_goals simp [hat, PoolPhase.locked, PoolPhase.pinned, PoolPhase.requested]
    | load t id =>
      simp only [hat, Option.some.injEq] at hstep
      subst hstep
      exact finishRead_pinStep h hat

/-! ## The invariant along a run -/

section Step

variable {id : Fin N} {d : BufferDesc m} {p : PoolPhase N} {ps : List (Fin N)}

/-- The descriptor of a buffer that another worker has locked stays. -/
theorem PinStep.desc_of_locked (h : PinInv s) (hs : PinStep s a s' id d p ps) {j : Fin m}
    {b : Fin N} (hj : j ≠ a.1)
    (hlocked : (s.phase j).locked = some b) : s'.bufferDesc b = s.bufferDesc b := by
  have hlock := (h.locks b j).mpr hlocked
  rw [hs.desc]
  by_cases hb : b = id
  · subst hb
    rcases hs.alone with hsame | hnone | hmine
    · rw [Function.update_self, hsame]
    · rw [hlock] at hnone; cases hnone
    · rw [hlock] at hmine; exact absurd (Option.some.inj hmine) hj
  · rw [Function.update_of_ne hb]

theorem PinStep.refCnt_eq (h : PinInv s) (hs : PinStep s a s' id d p ps) (b : Fin N) :
    (s'.bufferDesc b).refCnt = ∑ w, s'.pins w b := by
  have hrest : ∑ w ∈ Finset.univ.erase a.1,
      s'.pins w b = ∑ w ∈ Finset.univ.erase a.1, s.pins w b := by
    refine Finset.sum_congr rfl fun w hw => ?_
    have hne := Finset.ne_of_mem_erase hw
    rw [PoolState.pins, PoolState.pins, hs.phase, hs.pages, Function.update_of_ne hne,
      Function.update_of_ne hne]
  have hmine : s'.pins a.1 b = pinsAt p ps b := by
    rw [PoolState.pins, hs.phase, hs.pages, Function.update_self, Function.update_self]
  have hbefore := h.refCnt b
  rw [← Finset.add_sum_erase _ _ (Finset.mem_univ a.1)] at hbefore ⊢
  rw [hmine, hrest, hs.desc]
  by_cases hb : b = id
  · subst hb
    have hcnt := hs.refCnt
    rw [Function.update_self]
    omega
  · have hothers := hs.others b hb
    rw [Function.update_of_ne hb]
    omega

/-- A page that is handed out stays what it is. -/
theorem PinStep.keeps_held (h : PinInv s) (hs : PinStep s a s' id d p ps) {j : Fin m}
    {b : Fin N} (hb : b ∈ s.pages j) :
    (s'.bufferDesc b).isValid = .vlid ∧
      (s'.bufferDesc b).bufferTag = (s.bufferDesc b).bufferTag := by
  rw [hs.desc]
  by_cases hid : b = id
  · subst hid
    rw [Function.update_self]
    exact hs.keeps (h.held j b hb) (h.pos_of_mem hb)
  · rw [Function.update_of_ne hid]
    exact ⟨h.held j b hb, rfl⟩

theorem PinInv.pinStep (h : PinInv s) (hs : PinStep s a s' id d p ps) : PinInv s' where
  locks b j := by
    rw [hs.desc, hs.phase]
    exact locks_update h.locks hs.lock b j
  refCnt := hs.refCnt_eq h
  held w b hb := by
    by_cases hold : b ∈ s.pages w
    · exact (hs.keeps_held h hold).1
    · rw [hs.pages] at hb
      by_cases hw : w = a.1
      · subst hw
        rw [Function.update_self] at hb
        cases hs.change with
        | same hread hnext => exact absurd hb hold
        | got readOk hcall hidle hvalid htag =>
          obtain rfl : b = id := (List.mem_cons.mp hb).resolve_right hold
          rw [hs.desc, Function.update_self, hvalid]
        | released hcall hidle => exact absurd (List.mem_of_mem_erase hb) hold
      · rw [Function.update_of_ne hw] at hb
        exact absurd hb hold
  victim w t b hw := by
    rw [hs.phase] at hw
    by_cases hj : w = a.1
    · subst hj
      rw [Function.update_self] at hw
      obtain ⟨rfl, hvictim⟩ := hs.victim t b hw
      rwa [hs.desc, Function.update_self]
    · rw [Function.update_of_ne hj] at hw
      rw [hs.desc_of_locked h hj (b := b) (by rw [hw]; rfl)]
      exact h.victim w t b hw
  cleaned w t b e hw := by
    rw [hs.phase] at hw
    by_cases hj : w = a.1
    · subst hj
      rw [Function.update_self] at hw
      obtain ⟨rfl, hcleaned⟩ := hs.cleaned t b e hw
      rwa [hs.desc, Function.update_self]
    · rw [Function.update_of_ne hj] at hw
      rw [hs.desc_of_locked h hj (b := b) (by rw [hw]; rfl)]
      exact h.cleaned w t b e hw
  loading w t b hw := by
    rw [hs.phase] at hw
    by_cases hj : w = a.1
    · subst hj
      rw [Function.update_self] at hw
      obtain ⟨rfl, hloading⟩ := hs.loading t b hw
      rwa [hs.desc, Function.update_self]
    · rw [Function.update_of_ne hj] at hw
      rw [hs.desc_of_locked h hj (b := b) (by rw [hw]; rfl)]
      exact h.loading w t b hw

end Step

theorem PinInv.step [NeZero N] (h : PinInv s)
    (hstep : poolStep s a = some s') : PinInv s' := by
  obtain ⟨id, d, p, ps, hs⟩ := pinStepped h hstep
  exact h.pinStep hs

/-- The states that a new pool comes to. -/
def PoolReaches [NeZero N] (getHashKey : BufferTag → Nat) (s : PoolState N m) : Prop :=
  ∃ acts, run poolStep (createBufferPool N m getHashKey) acts = some s

theorem PoolReaches.pinInv [NeZero N] {getHashKey : BufferTag → Nat}
    (h : PoolReaches getHashKey s) : PinInv s := by
  obtain ⟨acts, hrun⟩ := h
  exact run_invariant_of_step (fun h hstep => h.step hstep)
    (createBufferPool_pinInv getHashKey) hrun

/-! ## Pages that are held -/

/-- The step of another worker. -/
theorem PinStep.other {id : Fin N} {d : BufferDesc m} {p : PoolPhase N} {ps : List (Fin N)}
    (hs : PinStep s a s' id d p ps) {j : Fin m} (hj : j ≠ a.1) :
    s'.phase j = s.phase j ∧ s'.pages j = s.pages j := by
  rw [hs.phase, hs.pages, Function.update_of_ne hj, Function.update_of_ne hj]
  exact ⟨rfl, rfl⟩

/-- A worker keeps the pages it does not release. -/
theorem PinStep.mem_pages {id : Fin N} {d : BufferDesc m}
    {p : PoolPhase N} {ps : List (Fin N)}
    (hs : PinStep s a s' id d p ps) {j : Fin m} {b : Fin N} (hb : b ∈ s.pages j)
    (hkeep : a ≠ (j, .releasePage b)) :
    b ∈ s'.pages j := by
  by_cases hj : j = a.1
  · subst hj
    rw [hs.pages, Function.update_self]
    cases hs.change with
    | same hread hnext => exact hb
    | got readOk hcall hidle hvalid htag => exact List.mem_cons_of_mem _ hb
    | released hcall hidle =>
      have hne : b ≠ id := fun hid => hkeep (Prod.ext rfl (by rw [hcall, hid]))
      exact (List.mem_erase_of_ne hne).mpr hb
  · rwa [(hs.other hj).2]

/-- While a worker holds a page, the page is in its buffer: whatever the others do, the buffer
is not taken for another page and not loaded again. -/
theorem heldPage_stays [NeZero N] {getHashKey : BufferTag → Nat} {u : PoolState N m}
    {acts : List (Fin m × PoolCall N)}
    {b : Fin N} (h : PoolReaches getHashKey s) (hb : b ∈ s.pages w)
    (hkeep : (w, PoolCall.releasePage b) ∉ acts) (hrun : run poolStep s acts = some u) :
    b ∈ u.pages w ∧ (u.bufferDesc b).isValid = .vlid ∧
      (u.bufferDesc b).bufferTag = (s.bufferDesc b).bufferTag ∧
      0 < (u.bufferDesc b).refCnt := by
  have hkept : Along poolStep (fun _ a => a ≠ (w, PoolCall.releasePage b)) s acts :=
    (along_iff_forall_mem hrun).mpr fun a ha heq => hkeep (heq ▸ ha)
  have hstays : PinInv u ∧ b ∈ u.pages w ∧
      (u.bufferDesc b).bufferTag = (s.bufferDesc b).bufferTag := by
    refine run_invariant (I := fun v => PinInv v ∧ b ∈ v.pages w ∧
      (v.bufferDesc b).bufferTag =
        (s.bufferDesc b).bufferTag) ?_ ⟨h.pinInv, hb, rfl⟩ hkept hrun
    rintro v a v' ⟨hinv, hmem, htag⟩ hok hstep
    obtain ⟨id, d, p, ps, hs⟩ := pinStepped hinv hstep
    exact ⟨hinv.pinStep hs, hs.mem_pages hmem hok, (hs.keeps_held hinv hmem).2.trans htag⟩
  obtain ⟨hinv, hmem, htag⟩ := hstays
  exact ⟨hmem, hinv.held w b hmem, htag, hinv.pos_of_mem hmem⟩

/-- Worker 0 has read page 1 into buffer 1. -/
def onePage : PoolState 8 2 :=
  exec poolStep (createBufferPool 8 2 fun _ => 0)
    ((0, .readPage 1 1 .main) :: List.replicate 5 (0, .next true))

theorem onePage_reaches : PoolReaches (fun _ => 0) onePage := ⟨_, run_exec (by decide)⟩

/-- Worker 1 reads the same page and then another one. -/
def readMore : List (Fin 2 × PoolCall 8) :=
  (1, .readPage 1 1 .main) :: List.replicate 2 (1, .next true) ++
    (1, .readPage 1 2 .main) :: List.replicate 5 (1, .next true)

theorem heldPage_stays_readMore :
    1 ∈ (exec poolStep onePage readMore).pages 0 ∧
      ((exec poolStep onePage readMore).bufferDesc 1).isValid = .vlid ∧
      ((exec poolStep onePage readMore).bufferDesc 1).bufferTag =
        (onePage.bufferDesc 1).bufferTag ∧
      0 < ((exec poolStep onePage readMore).bufferDesc 1).refCnt :=
  heldPage_stays onePage_reaches (by decide) (by decide) (run_exec (by decide))

/-- The pin count of a buffer is the number of times it is handed out, and one more while a
worker that is inside `ReadPage` has locked and pinned it. -/
theorem refCnt_eq_pins [NeZero N] {getHashKey : BufferTag → Nat}
    (h : PoolReaches getHashKey s) (b : Fin N) :
    (s.bufferDesc b).refCnt = (∑ w, (s.pages w).count b) +
      (Finset.univ.filter fun w => (s.phase w).pinned = some b).card ∧
      (Finset.univ.filter fun w => (s.phase w).pinned = some b).card ≤ 1 := by
  have hinv := h.pinInv
  have hlocked : ∀ j, (s.phase j).pinned = some b → (s.phase j).locked = some b := by
    intro j hj
    cases hat : s.phase j <;> simp_all [PoolPhase.pinned, PoolPhase.locked]
  constructor
  · rw [hinv.refCnt b, Finset.card_filter, ← Finset.sum_add_distrib]
    rfl
  · rw [Finset.card_le_one]
    intro i hi j hj
    have hi := (hinv.locks b i).mpr (hlocked i (Finset.mem_filter.mp hi).2)
    have hj := (hinv.locks b j).mpr (hlocked j (Finset.mem_filter.mp hj).2)
    exact Option.some.inj (hi.symm.trans hj)

theorem refCnt_eq_pins_readMore :
    ((exec poolStep onePage readMore).bufferDesc 1).refCnt =
        (∑ w, ((exec poolStep onePage readMore).pages w).count 1) +
          (Finset.univ.filter fun w => ((exec poolStep onePage readMore).phase w).pinned =
            some 1).card ∧
      (Finset.univ.filter fun w => ((exec poolStep onePage readMore).phase w).pinned =
        some 1).card ≤ 1 :=
  refCnt_eq_pins ⟨((0, .readPage 1 1 .main) :: List.replicate 5 (0, .next true)) ++
    readMore, by
    rw [run_append]
    exact ⟨onePage, run_exec (by decide), run_exec (by decide)⟩⟩ 1

/-- When `ReadPage` returns, whatever the others did meanwhile, it has got no page, or one
that is the page asked for and that is pinned. -/
theorem readPage_returns [NeZero N] {getHashKey : BufferTag → Nat} {s₁ u : PoolState N m}
    {acts : List (Fin m × PoolCall N)} {tableId index : Int} {forkNum : ForkType}
    (h : PoolReaches getHashKey s)
    (hcall : poolStep s (w, .readPage tableId index forkNum) = some s₁)
    (hnext : ∀ a ∈ acts, a.1 = w → ∃ readOk, a.2 = .next readOk)
    (hrun : run poolStep s₁ acts = some u) (hidle : u.phase w = .idle) :
    u.pages w = s.pages w ∨ ∃ b, u.pages w = b :: s.pages w ∧
      (u.bufferDesc b).isValid = .vlid ∧
      (u.bufferDesc b).bufferTag = readPageTag tableId index forkNum ∧
        0 < (u.bufferDesc b).refCnt := by
  -- what holds of the worker from the call on
  let Reading (v : PoolState N m) : Prop := PinInv v ∧
    ((v.pages w = s.pages w ∧ (v.phase w = .idle ∨
      (v.phase w).requested = some (readPageTag tableId index forkNum))) ∨
      (v.phase w = .idle ∧ ∃ b, v.pages w = b :: s.pages w ∧
        (v.bufferDesc b).bufferTag = readPageTag tableId index forkNum))
  have hstart : Reading s₁ := by
    obtain ⟨id, d, p, ps, hs⟩ := pinStepped h.pinInv hcall
    refine ⟨h.pinInv.pinStep hs, .inl ?_⟩
    rw [hs.pages, hs.phase, Function.update_self, Function.update_self]
    cases hs.change with
    | same hread _ =>
      refine ⟨rfl, (hread tableId index forkNum rfl).imp_right fun hp => ?_⟩
      rw [hp, PoolPhase.requested]
    | got readOk hgot => cases hgot
    | released hreleased => cases hreleased
  have halong : Along poolStep (fun _ a => a.1 = w → ∃ readOk, a.2 = .next readOk) s₁ acts :=
    (along_iff_forall_mem hrun).mpr hnext
  have hreading : Reading u := by
    refine run_invariant (I := Reading) ?_ hstart halong hrun
    rintro v a v' ⟨hinv, hv⟩ hok hstep
    obtain ⟨id, d, p, ps, hs⟩ := pinStepped hinv hstep
    refine ⟨hinv.pinStep hs, ?_⟩
    by_cases hj : w = a.1
    · obtain ⟨readOk, hread⟩ := hok hj.symm
      subst hj
      -- an idle worker has no next step
      have hbusy : v.phase a.1 ≠ .idle := by
        intro hat
        simp [poolStep, hread, readNext, hat] at hstep
      obtain ⟨hpages, hreq⟩ := hv.resolve_right fun hdone => hbusy hdone.1
      have hreq := hreq.resolve_left hbusy
      rw [hs.pages, hs.phase, Function.update_self, Function.update_self]
      cases hs.change with
      | same _ hsame =>
        exact .inl ⟨hpages, (hsame readOk hread).imp_right fun hp => hp.trans hreq⟩
      | got _ _ hp _ htag =>
        refine .inr ⟨hp, id, by rw [hpages], ?_⟩
        rw [hs.desc, Function.update_self]
        exact Option.some.inj (htag.symm.trans hreq)
      | released hreleased => rw [hread] at hreleased; cases hreleased
    · obtain ⟨hphase, hpages⟩ := hs.other hj
      rw [hphase, hpages]
      refine hv.imp_right ?_
      rintro ⟨hat, b, hb, htag⟩
      refine ⟨hat, b, hb, ?_⟩
      rw [(hs.keeps_held hinv (j := w) (by rw [hb]; exact List.mem_cons_self)).2, htag]
  obtain ⟨hinv, hpages | ⟨-, b, hb, htag⟩⟩ := hreading
  · exact .inl hpages.1
  · have hmem : b ∈ u.pages w := by rw [hb]; exact List.mem_cons_self
    exact .inr ⟨b, hb, hinv.held w b hmem, htag, hinv.pos_of_mem hmem⟩

/-- Worker 1 after its call. -/
def secondCall : PoolState 8 2 := exec poolStep onePage [(1, .readPage 1 2 .main)]

/-- Worker 0 gives its page back in between. -/
def readBeside : List (Fin 2 × PoolCall 8) :=
  List.replicate 2 (1, .next true) ++ [(0, .releasePage 1)] ++
    List.replicate 3 (1, .next true)

theorem readPage_returns_readBeside :
    (exec poolStep secondCall readBeside).pages 1 = onePage.pages 1 ∨
      ∃ b, (exec poolStep secondCall readBeside).pages 1 = b :: onePage.pages 1 ∧
        ((exec poolStep secondCall readBeside).bufferDesc b).isValid = .vlid ∧
        ((exec poolStep secondCall readBeside).bufferDesc b).bufferTag =
          readPageTag 1 2 .main ∧
        0 < ((exec poolStep secondCall readBeside).bufferDesc b).refCnt :=
  readPage_returns onePage_reaches
    (show poolStep onePage (1, .readPage 1 2 .main) = some secondCall from rfl)
    (by
      intro a ha
      simp only [readBeside, List.replicate, List.cons_append, List.nil_append, List.mem_cons,
        List.not_mem_nil, or_false] at ha
      rcases ha with rfl | rfl | rfl | rfl | rfl | rfl <;> simp)
    (run_exec (by decide)) (by decide)

end Toadb
