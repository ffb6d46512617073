/-
Toadb.Lock.SpinLockTheorems — is one thread at most past a spin lock?

As long as no thread gives up, yes (`exclusive`): a thread gets past by the exchange that has
set the flag, and the flag stays set until it releases the lock. A thread that has waited for
long enough goes on all the same (`run_waits`), and then there are two of them.
-/
import Toadb.Lock.SpinLock

namespace Toadb

open Transition

namespace SpinSys

variable {n : Nat} {L : Type} [DecidableEq L] {s s' : SpinSys n L} {t u : Fin n}
  {lock : L} {point : SpinPoint}

theorem points_setPoint (s : SpinSys n L) (t u : Fin n) (lock l : L) (point : SpinPoint) :
    (s.setPoint t lock point).points u l = if u = t ∧ l = lock then point
      else s.points u l := by
  by_cases hu : u = t
  · subst hu
    by_cases hl : l = lock
    · simp [setPoint, hl]
    · simp [setPoint, hl]
  · simp [setPoint, hu]

theorem points_self (s : SpinSys n L) (t : Fin n) (lock : L) (point : SpinPoint) :
    (s.setPoint t lock point).points t lock = point := by
  rw [points_setPoint, if_pos ⟨rfl, rfl⟩]

/-- The attempt that fails now is the last one. -/
def givesUp (s : SpinSys n L) : SpinAct n L → Bool
  | .proceed t lock =>
      match s.points t lock with
      | .delay delays cur => decide (spinDelayMax ≤ delays) && decide (spinDelayMax ≤ cur)
      | _ => false
  | _ => false

/-! ## One thread at most -/

/-- The invariant: the flag of a lock that a thread is past is set, and there is no other
one. -/
structure Ok (s : SpinSys n L) : Prop where
  set : ∀ {lock t}, s.points t lock = .inside → s.stom lock = true
  one : ∀ {lock t u}, s.points t lock = .inside → s.points u lock = .inside → t = u

theorem ok_init (n : Nat) (L : Type) : (init n L).Ok where
  set := nofun
  one := nofun

/-- A thread moves, and not past the lock. The flag stays set. -/
theorem Ok.move {stom : L → Bool} (h : s.Ok) (hpoint : point ≠ .inside)
    (hstom : ∀ l, s.stom l = true → stom l = true) :
    ({ s with stom := stom }.setPoint t lock point).Ok where
  set := by
    intro l u hu
    rw [points_setPoint] at hu
    split at hu
    next => exact absurd hu hpoint
    next => exact hstom l (h.set hu)
  one := by
    intro l u v hu hv
    rw [points_setPoint] at hu hv
    split at hu
    next => exact absurd hu hpoint
    next =>
      split at hv
      next => exact absurd hv hpoint
      next => exact h.one hu hv

/-- A thread has set the flag, which was not set: nobody is past the lock. -/
theorem Ok.enter (h : s.Ok) (hstom : s.stom lock = false) :
    ((s.setStom lock true).setPoint t lock .inside).Ok := by
  have hnobody (u : Fin n) : s.points u lock ≠ .inside :=
    fun hu => by simp [h.set hu] at hstom
  have hinside {l : L} {u : Fin n}
      (hu : ((s.setStom lock true).setPoint t lock .inside).points u l = .inside) :
      (u = t ∧ l = lock) ∨ (l ≠ lock ∧ s.points u l = .inside) := by
    rw [points_setPoint] at hu
    split at hu
    next hself => exact .inl hself
    next =>
      refine .inr ⟨?_, hu⟩
      rintro rfl
      exact hnobody u hu
  refine ⟨fun {l u} hu => ?_, fun {l u v} hu hv => ?_⟩
  · rcases hinside hu with ⟨-, rfl⟩ | ⟨hne, hold⟩
    · exact Function.update_self ..
    · exact (Function.update_of_ne hne _ _).trans (h.set hold)
  · rcases hinside hu with ⟨rfl, rfl⟩ | ⟨hne, hold⟩
    · exact ((hinside hv).resolve_right fun hother => hother.1 rfl).1.symm
    · exact h.one hold ((hinside hv).resolve_left fun hself => hne hself.2).2

/-- The thread that is past the lock clears the flag. -/
theorem Ok.leave (h : s.Ok) (hpoint : s.points t lock = .inside) :
    ((s.setStom lock false).setPoint t lock .outside).Ok := by
  have hinside {l : L} {u : Fin n}
      (hu : ((s.setStom lock false).setPoint t lock .outside).points u l = .inside) :
      l ≠ lock ∧ s.points u l = .inside := by
    rw [points_setPoint] at hu
    split at hu
    next => cases hu
    next hother =>
      refine ⟨?_, hu⟩
      rintro rfl
      exact hother ⟨h.one hu hpoint, rfl⟩
  refine ⟨fun {l u} hu => ?_, fun {l u v} hu hv => h.one (hinside hu).2 (hinside hv).2⟩
  exact (Function.update_of_ne (hinside hu).1 _ _).trans (h.set (hinside hu).2)

theorem countDelay_ne_inside {delays cur : Nat}
    (h : ¬ (spinDelayMax ≤ delays ∧ spinDelayMax ≤ cur)) :
    countDelay delays cur ≠ .inside := by
  rw [countDelay]
  split
  next hcur =>
    rw [if_neg (by omega)]
    exact nofun
  next => exact nofun

theorem Ok.step {a : SpinAct n L} (h : s.Ok) (hok : s.givesUp a = false)
    (hstep : s.step a = some s') : s'.Ok := by
  cases a with
  | acquire t lock =>
    simp only [SpinSys.step, Option.ite_none_right_eq_some, Option.some.injEq] at hstep
    obtain ⟨-, rfl⟩ := hstep
    exact h.move nofun fun _ => id
  | release t lock =>
    simp only [SpinSys.step, Option.ite_none_right_eq_some, Option.some.injEq] at hstep
    obtain ⟨hpoint, rfl⟩ := hstep
    exact h.leave hpoint
  | proceed t lock =>
    cases hpoint : s.points t lock with
    | outside | inside => simp [SpinSys.step, proceed, hpoint] at hstep
    | test delays cur =>
      simp only [SpinSys.step, proceed, hpoint, Option.some.injEq] at hstep
      subst hstep
      refine h.move ?_ fun _ => id
      split <;> exact nofun
    | tas delays cur =>
      simp only [SpinSys.step, proceed, hpoint, Option.some.injEq] at hstep
      subst hstep
      cases hstom : s.stom lock with
      | false => exact h.enter hstom
      | true =>
        refine h.move nofun fun l hl => ?_
        by_cases heq : l = lock
        · rw [heq, Function.update_self]
        · rwa [Function.update_of_ne heq]
    | delay delays cur =>
      simp only [SpinSys.step, proceed, hpoint, Option.some.injEq] at hstep
      subst hstep
      simp only [givesUp, hpoint, Bool.and_eq_false_iff, decide_eq_false_iff_not] at hok
      exact h.move (countDelay_ne_inside (by omega)) fun _ => id

/-! ## Waiting -/

theorem setPoint_setPoint (s : SpinSys n L) (t : Fin n) (lock : L)
    (point point' : SpinPoint) :
    (s.setPoint t lock point).setPoint t lock point' = s.setPoint t lock point' := by
  simp [setPoint]

/-- An attempt, while the flag is set. -/
theorem run_attempt (hstom : s.stom lock = true) (delays cur : Nat) :
    run step (s.setPoint t lock (.test delays cur)) (List.replicate 2 (.proceed t lock)) =
      some (s.setPoint t lock (countDelay delays cur)) := by
  have hset (point : SpinPoint) : (s.setPoint t lock point).stom lock = true := hstom
  simp [List.replicate, run, step, proceed, points_self, hset, setPoint_setPoint]

/-- Attempts that are not yet `SPIN_DELAY_MAX`. -/
theorem run_attempts (hstom : s.stom lock = true) (delays : Nat) {k : Nat}
    (hk : k ≤ spinDelayMax) :
    run step (s.setPoint t lock (.test delays 0)) (List.replicate (2 * k) (.proceed t lock)) =
      some (s.setPoint t lock (.test delays k)) := by
  induction k with
  | zero => rfl
  | succ k ih =>
    rw [Nat.mul_succ, ← List.replicate_append_replicate, run_append]
    refine ⟨_, ih (Nat.le_of_succ_le hk), ?_⟩
    rw [run_attempt hstom, countDelay, if_neg (Nat.not_lt.mpr hk)]

/-- The attempts of one delay. -/
theorem run_delay (hstom : s.stom lock = true) (delays : Nat) :
    run step (s.setPoint t lock (.test delays 0))
      (List.replicate (2 * (spinDelayMax + 1)) (.proceed t lock)) =
      some (s.setPoint t lock (countDelay delays spinDelayMax)) := by
  rw [Nat.mul_succ, ← List.replicate_append_replicate, run_append]
  exact ⟨_, run_attempts hstom delays le_rfl, run_attempt hstom delays spinDelayMax⟩

/-- Delays that are not yet `SPIN_DELAY_MAX`. -/
theorem run_delays (hstom : s.stom lock = true) {k : Nat} (hk : k ≤ spinDelayMax) :
    run step (s.setPoint t lock (.test 0 0))
      (List.replicate (2 * (spinDelayMax + 1) * k) (.proceed t lock)) =
      some (s.setPoint t lock (.test k 0)) := by
  induction k with
  | zero => rfl
  | succ k ih =>
    rw [Nat.mul_succ, ← List.replicate_append_replicate, run_append]
    refine ⟨_, ih (Nat.le_of_succ_le hk), ?_⟩
    rw [run_delay hstom, countDelay, if_pos (Nat.lt_succ_self _), if_neg (Nat.not_lt.mpr hk)]

/-- A thread that waits for long enough goes on without the lock. -/
theorem run_waits (hstom : s.stom lock = true) :
    run step (s.setPoint t lock (.test 0 0))
        (List.replicate (2 * (spinDelayMax + 1) * (spinDelayMax + 1)) (.proceed t lock)) =
      some (s.setPoint t lock .inside) := by
  rw [Nat.mul_succ (2 * (spinDelayMax + 1)), ← List.replicate_append_replicate, run_append]
  refine ⟨_, run_delays hstom le_rfl, ?_⟩
  rw [run_delay hstom, countDelay, if_pos (Nat.lt_succ_self _), if_pos (Nat.lt_succ_self _)]

end SpinSys

/-! ## The hash table -/

namespace SpinSys

variable {n : Nat} {s : SpinSys n HashLock} {as : List (SpinAct n HashLock)}

/-- The thread is past the lock of this part. It says where the thread is, not that it writes
there. -/
def Edits (s : SpinSys n HashLock) (t : Fin n) (part : HashPart) : Prop :=
  s.points t part.lock = .inside

instance (s : SpinSys n HashLock) (t : Fin n)
    (part : HashPart) : Decidable (s.Edits t part) :=
  inferInstanceAs (Decidable (s.points t part.lock = .inside))

/-- In a run in which no thread gives up, one thread at most is past a lock, so no two threads
edit the free list, or the same chain, at once. -/
theorem exclusive (hrun : run step (init n HashLock) as = some s)
    (hok : Along step (fun s a => s.givesUp a = false) (init n HashLock) as) :
    (∀ lock t u, s.points t lock = .inside → s.points u lock = .inside → t = u) ∧
      ∀ part t u, s.Edits t part → s.Edits u part → t = u := by
  have h : s.Ok := run_invariant Ok.step (ok_init n HashLock) hok hrun
  exact ⟨fun _ _ _ => h.one, fun _ _ _ => h.one⟩

/-- The first thread takes a free entry for partition 3, and the second one has failed once
before it gets to the chains of the partition. Then the first one is at the free list
again. -/
def contended : List (SpinAct 2 HashLock) :=
  [hashLockPartition 0 3, .proceed 0 (.partition 3), .proceed 0 (.partition 3),
    hashLockFreeList 0, .proceed 0 .freeList, .proceed 0 .freeList,
    hashLockPartition 1 3, .proceed 1 (.partition 3), .proceed 1 (.partition 3),
    hashLockReleaseFreeList 0, hashLockPartitionRelease 0 3, .proceed 1 (.partition 3),
      .proceed 1 (.partition 3),
    hashLockFreeList 0, .proceed 0 .freeList, .proceed 0 .freeList]

theorem contended_exclusive :
    (exec step (init 2 HashLock) contended).Edits 0 .freeEntries ∧
      ¬ (exec step (init 2 HashLock) contended).Edits 1 .freeEntries ∧
      (exec step (init 2 HashLock) contended).Edits 1 (.chain 3 0) ∧
      ¬ (exec step (init 2 HashLock) contended).Edits 0 (.chain 3 0) := by
  have hrun : run step (init 2 HashLock) contended =
      some (exec step (init 2 HashLock) contended) := run_exec rfl
  have hexclusive := (exclusive hrun (by decide)).2
  refine ⟨by decide, fun h => ?_, by decide, fun h => ?_⟩
  · exact absurd (hexclusive .freeEntries 0 1 (by decide) h) (by decide)
  · exact absurd (hexclusive (.chain 3 0) 0 1 h (by decide)) (by decide)

/-- The first thread is past the lock. -/
def heldList : SpinSys 2 HashLock :=
  exec step (init 2 HashLock) [hashLockFreeList 0, .proceed 0 .freeList, .proceed 0 .freeList]

/-- With a lock that is held for long enough, a second thread edits the free list, too. -/
theorem two_edit : ∃ as, ∃ s : SpinSys 2 HashLock, run step (init 2 HashLock) as = some s ∧
    s.Edits 0 .freeEntries ∧ s.Edits 1 .freeEntries := by
  have hheld : run step (init 2 HashLock)
      [hashLockFreeList 0, .proceed 0 .freeList, .proceed 0 .freeList] =
    some heldList := run_exec rfl
  have hbegin : heldList.step (hashLockFreeList 1) =
      some (heldList.setPoint 1 .freeList (.test 0 0)) := rfl
  have hwaits :=
    run_waits (s := heldList) (t := 1) (show heldList.stom HashLock.freeList = true from rfl)
  refine ⟨_, _, run_append.mpr ⟨_, hheld, run_cons.mpr ⟨_, hbegin, hwaits⟩⟩, ?_, ?_⟩
  · rw [Edits, points_setPoint]
    rfl
  · exact points_self ..

end SpinSys

end Toadb
