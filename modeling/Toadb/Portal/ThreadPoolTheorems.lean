/-
Toadb.Portal.ThreadPoolTheorems — what becomes of the clients that were given to a worker.

  * `ThreadPool.HandsOver` — every task that was pushed is still the task of its worker, which
    is about to take it, or was taken by it, once; and what was taken is what was pushed;
  * `ThreadPool.PicksFree` — the idle worker that `GetIdleWorker` comes to has no task that it
    is about to take;
  * `ThreadPool.Inv`       — the invariant: a worker that is about to take a task has one that
    nobody has taken, and the worker that the listener writes to is at rest.

A worker stays idle until it is woken and says that it is running. So two clients that come
soon after one another get the same worker, and the second task overwrites the first
(`pushTask_overwrites`).
-/
import Toadb.Portal.ThreadPool
import Mathlib.Algebra.BigOperators.Group.Finset.Basic
import Mathlib.Algebra.Order.BigOperators.Group.Finset

namespace Toadb

open Transition

variable {n : Nat}

/-! ## What the pool is for -/

/-- The worker was posted and has not read its task yet. -/
def PoolWorker.Posted (k : PoolWorker) : Prop :=
  match k.point with
  | .waiting | .exiting => 0 < k.taskIdleLock
  | .woken | .begun => True
  | .serving _ _ | .finished => False

instance : ∀ k : PoolWorker, Decidable k.Posted
  | ⟨_, lock, _, _, .waiting⟩ | ⟨_, lock, _, _, .exiting⟩ =>
    inferInstanceAs (Decidable (0 < lock))
  | ⟨_, _, _, _, .woken⟩ | ⟨_, _, _, _, .begun⟩ => isTrue trivial
  | ⟨_, _, _, _, .serving _ _⟩ | ⟨_, _, _, _, .finished⟩ => isFalse id

namespace ThreadPool

/-- The worker has the task in its context and is about to take it. -/
structure AboutToTake (s : ThreadPool n) (push : Nat) (w : Fin n)
    (clientfd : Int) : Prop where
  posted : (s.workers w).Posted
  taskEntry : (s.workers w).taskEntry = true
  push : (s.workers w).taskContext.push = some push
  clientfd : (s.workers w).taskContext.clientfd = clientfd

/-- No task is lost, overwritten or taken twice. -/
structure HandsOver (s : ThreadPool n) : Prop where
  pushed : ∀ {push w clientfd}, s.pushed[push]? = some (w, clientfd) →
    ⟨w, clientfd, some push⟩ ∈ s.taken ∨ s.AboutToTake push w clientfd
  taken : ∀ t ∈ s.taken, ∃ push, t.push = some push ∧
    s.pushed[push]? = some (t.worker, t.clientfd)
  taken_once : (s.taken.map TakenTask.push).Nodup
  served : ∀ t ∈ s.taken, t ∈ s.served ∨
    (s.workers t.worker).point = .serving t.clientfd t.push
  served_taken : ∀ t ∈ s.served, t ∈ s.taken
  served_once : (s.served.map TakenTask.push).Nodup

/-- The idle worker that the search comes to has no task that it has still to take. -/
def PicksFree (s : ThreadPool n) (act : PoolAct n) : Prop :=
  match act, s.listener with
  | .pushTask, .scanning _ (index + 1) => ∀ h : index < n,
      (s.workers ⟨index, h⟩).twState = .idle → ¬ (s.workers ⟨index, h⟩).Posted
  | _, _ => True

instance : ∀ (s : ThreadPool n) (act : PoolAct n), Decidable (s.PicksFree act)
  | ⟨workers, .scanning _ (index + 1), _, _, _, _⟩, .pushTask =>
    inferInstanceAs (Decidable (∀ h : index < n,
      (workers ⟨index, h⟩).twState = .idle → ¬ (workers ⟨index, h⟩).Posted))
  | ⟨_, .scanning _ 0, _, _, _, _⟩, .pushTask | ⟨_, .accepting, _, _, _, _⟩, .pushTask
  | ⟨_, .setTaskId _ _, _, _, _, _⟩, .pushTask | ⟨_, .setClientfd _ _, _, _, _, _⟩, .pushTask
  | ⟨_, .setTaskEntry _ _, _, _, _, _⟩, .pushTask | ⟨_, .posting _ _, _, _, _, _⟩, .pushTask
  | _, .accept _ | _, .threadEntry _ => isTrue trivial

end ThreadPool

/-! ## The invariant -/

/-- What a worker says of itself and its semaphore, from point to point. -/
def PoolWorker.Shape (k : PoolWorker) : Prop :=
  match k.point with
  | .waiting | .exiting => k.twState = .idle ∧ k.taskIdleLock ≤ 1
  | .woken => k.twState = .idle ∧ k.taskIdleLock = 0
  | .begun | .serving _ _ | .finished => k.twState = .running ∧ k.taskIdleLock = 0

/-- The worker has no task, and waits for one or soon will. -/
def PoolWorker.Rests (k : PoolWorker) : Prop :=
  k.taskIdleLock = 0 ∧ (k.point = .waiting ∨ k.point = .exiting)

theorem PoolWorker.Shape.rests {k : PoolWorker} (h : k.Shape) (hidle : k.twState = .idle)
    (hposted : ¬ k.Posted) : k.Rests := by
  obtain ⟨twState, lock, entry, task, point⟩ := k
  cases point with
  | waiting => exact ⟨Nat.eq_zero_of_not_pos hposted, .inl rfl⟩
  | exiting => exact ⟨Nat.eq_zero_of_not_pos hposted, .inr rfl⟩
  | woken => exact absurd trivial hposted
  | begun => exact absurd (hidle.symm.trans h.1) (by decide)
  | serving => exact absurd (hidle.symm.trans h.1) (by decide)
  | finished => exact absurd (hidle.symm.trans h.1) (by decide)

theorem PoolWorker.Rests.not_posted {k : PoolWorker} (h : k.Rests) : ¬ k.Posted := by
  obtain ⟨twState, lock, entry, task, point⟩ := k
  obtain ⟨rfl, rfl | rfl⟩ := h
  · exact Nat.lt_irrefl 0
  · exact Nat.lt_irrefl 0

/-- The steps that a worker has still to take. -/
def PoolWorker.work (k : PoolWorker) : Nat :=
  6 * k.taskIdleLock +
    match k.point with
    | .waiting => 0
    | .exiting => 1
    | .finished => 2
    | .serving _ _ => 3
    | .begun => 4
    | .woken => 5

namespace ThreadPool

/-- A worker that was posted has a task that nobody has taken; one that serves a client has
taken it and has not served it before. -/
structure WorkerInv (s : ThreadPool n) (w : Fin n) : Prop where
  shape : (s.workers w).Shape
  posted : (s.workers w).Posted → ∃ push clientfd, s.AboutToTake push w clientfd ∧
    s.pushed[push]? = some (w, clientfd) ∧ ∀ t ∈ s.taken, t.push ≠ some push
  serving : ∀ {servfd push}, (s.workers w).point = .serving servfd push →
    ⟨w, servfd, push⟩ ∈ s.taken ∧ ⟨w, servfd, push⟩ ∉ s.served

/-- The worker that the listener writes to rests, and has what was written so far. -/
def ListenerInv (s : ThreadPool n) : Prop :=
  match s.listener with
  | .accepting | .scanning _ _ => True
  | .setTaskId _ w => (s.workers w).Rests
  | .setClientfd _ w =>
    (s.workers w).Rests ∧ (s.workers w).taskContext.push = some s.pushed.length
  | .setTaskEntry clientfd w => (s.workers w).Rests ∧
      (s.workers w).taskContext.push = some s.pushed.length ∧
      (s.workers w).taskContext.clientfd = clientfd
  | .posting clientfd w => (s.workers w).Rests ∧
      (s.workers w).taskContext.push = some s.pushed.length ∧
      (s.workers w).taskContext.clientfd = clientfd ∧ (s.workers w).taskEntry = true

structure Inv (s : ThreadPool n) : Prop where
  worker : ∀ w, s.WorkerInv w
  listener : s.ListenerInv
  handsOver : s.HandsOver

theorem inv_init : (init n).Inv where
  worker _ := ⟨⟨rfl, Nat.zero_le 1⟩, fun h => absurd h (Nat.lt_irrefl 0), nofun⟩
  listener := trivial
  handsOver := ⟨nofun, nofun, List.nodup_nil, nofun, nofun, List.nodup_nil⟩

/-! ## Frames -/

variable {s s' : ThreadPool n} {w w' : Fin n} {k : PoolWorker}

theorem AboutToTake.other {push : Nat} {clientfd : Int} (h : s.AboutToTake push w clientfd)
    (hk : s'.workers w = s.workers w) : s'.AboutToTake push w clientfd :=
  ⟨hk ▸ h.posted, hk ▸ h.taskEntry, hk ▸ h.push, hk ▸ h.clientfd⟩

/-- What others do leaves a worker as it is. -/
theorem WorkerInv.other (h : s.WorkerInv w) (hk : s'.workers w = s.workers w)
    (hpushed : ∀ {i : Nat} {e : Fin n × Int}, s.pushed[i]? = some e → s'.pushed[i]? = some e)
    (htaken : s.taken ⊆ s'.taken) (hnew : ∀ t ∈ s'.taken, t ∈ s.taken ∨ t.worker ≠ w ∧
      ∃ push, t.push = some push ∧ s.pushed[push]? = some (t.worker, t.clientfd))
    (hserved : ∀ t ∈ s'.served, t ∈ s.served ∨ t.worker ≠ w) : s'.WorkerInv w where
  shape := hk ▸ h.shape
  posted hposted := by
    rw [hk] at hposted
    obtain ⟨push, clientfd, habout, hpush, hnone⟩ := h.posted hposted
    refine ⟨push, clientfd, habout.other hk, hpushed hpush, ?_⟩
    intro t ht heq
    obtain hold | ⟨hne, push', hpush', hother⟩ := hnew t ht
    · exact hnone t hold heq
    · obtain rfl : push' = push := Option.some.inj (hpush'.symm.trans heq)
      rw [hpush, Option.some.injEq, Prod.mk.injEq] at hother
      exact hne hother.1.symm
  serving hpoint := by
    rw [hk] at hpoint
    obtain ⟨hmem, hnot⟩ := h.serving hpoint
    refine ⟨htaken hmem, fun hmem' => ?_⟩
    obtain hold | hne := hserved _ hmem'
    · exact hnot hold
    · exact hne rfl

/-- A step of a worker that only rests does not concern the listener. -/
theorem ListenerInv.threadEntry (h : s.ListenerInv)
    (hworkers : s'.workers = Function.update s.workers w k)
    (hlistener : s'.listener = s.listener)
    (hpushed : s'.pushed = s.pushed) (hrests : (s.workers w).Rests →
      k.Rests ∧ k.taskContext = (s.workers w).taskContext ∧
        k.taskEntry = (s.workers w).taskEntry) :
    s'.ListenerInv := by
  have hkept : ∀ w', (s.workers w').Rests → (s'.workers w').Rests ∧
      (s'.workers w').taskContext = (s.workers w').taskContext ∧
      (s'.workers w').taskEntry = (s.workers w').taskEntry := by
    intro w' hr
    rw [hworkers]
    by_cases hw : w' = w
    · subst hw
      rw [Function.update_self]
      exact hrests hr
    · rw [Function.update_of_ne hw]
      exact ⟨hr, rfl, rfl⟩
  rw [ListenerInv] at h ⊢
  rw [hlistener, hpushed]
  cases hpoint : s.listener with
  | accepting => trivial
  | scanning => trivial
  | setTaskId clientfd w' =>
    rw [hpoint] at h
    exact (hkept w' h).1
  | setClientfd clientfd w' =>
    rw [hpoint] at h
    obtain ⟨hr, htask, -⟩ := hkept w' h.1
    exact ⟨hr, htask ▸ h.2⟩
  | setTaskEntry clientfd w' =>
    rw [hpoint] at h
    obtain ⟨hr, htask, -⟩ := hkept w' h.1
    exact ⟨hr, htask ▸ h.2⟩
  | posting clientfd w' =>
    rw [hpoint] at h
    obtain ⟨hr, htask, hentry⟩ := hkept w' h.1
    exact ⟨hr, htask ▸ h.2.1, htask ▸ h.2.2.1, hentry ▸ h.2.2.2⟩

/-! ## Steps that move no task -/

/-- The worker keeps the task that it is about to take, and serves no client. -/
structure SameTask (k k' : PoolWorker) : Prop where
  posted : k'.Posted ↔ k.Posted
  task : k.Posted → k'.taskContext = k.taskContext ∧ k'.taskEntry = k.taskEntry
  idle : ∀ servfd push, k.point ≠ .serving servfd push ∧ k'.point ≠ .serving servfd push

theorem AboutToTake.sameTask {push : Nat} {clientfd : Int} (h : s.AboutToTake push w clientfd)
    (hk : s'.workers w = k) (hsame : SameTask (s.workers w) k) :
    s'.AboutToTake push w clientfd := by
  obtain ⟨htask, hentry⟩ := hsame.task h.posted
  refine ⟨hk ▸ hsame.posted.mpr h.posted, ?_, ?_, ?_⟩
  · rw [hk, hentry, h.taskEntry]
  · rw [hk, htask, h.push]
  · rw [hk, htask, h.clientfd]

theorem HandsOver.sameTask (h : s.HandsOver)
    (hworkers : s'.workers = Function.update s.workers w k)
    (hsame : SameTask (s.workers w) k) (hpushed : s'.pushed = s.pushed)
    (htaken : s'.taken = s.taken) (hserved : s'.served = s.served) : s'.HandsOver where
  pushed {push w' clientfd} hpush := by
    rw [hpushed] at hpush
    rw [htaken]
    refine (h.pushed hpush).imp_right fun habout => ?_
    by_cases hw : w' = w
    · subst hw
      exact habout.sameTask (by rw [hworkers, Function.update_self]) hsame
    · exact habout.other (by rw [hworkers, Function.update_of_ne hw])
  taken := by
    rw [htaken, hpushed]
    exact h.taken
  taken_once := htaken ▸ h.taken_once
  served t ht := by
    rw [htaken] at ht
    rw [hserved, hworkers]
    refine (h.served t ht).imp_right fun hpoint => ?_
    have hne : t.worker ≠ w := by
      rintro rfl
      exact (hsame.idle _ _).1 hpoint
    rw [Function.update_of_ne hne, hpoint]
  served_taken := by
    rw [htaken, hserved]
    exact h.served_taken
  served_once := hserved ▸ h.served_once

/-- A step of one worker that moves no task. -/
theorem Inv.sameTask (h : s.Inv) (hworkers : s'.workers = Function.update s.workers w k)
    (hsame : SameTask (s.workers w) k) (hshape : k.Shape) (hpushed : s'.pushed = s.pushed)
    (htaken : s'.taken = s.taken) (hserved : s'.served = s.served)
    (hlistener : s'.ListenerInv) :
    s'.Inv where
  worker w' := by
    by_cases hw : w' = w
    · subst hw
      have hself : s'.workers w' = k := by rw [hworkers, Function.update_self]
      refine ⟨hself ▸ hshape, ?_, fun hpoint => absurd (hself ▸ hpoint) (hsame.idle _ _).2⟩
      rw [hself, hsame.posted]
      intro hposted
      obtain ⟨push, clientfd, habout, hpush, hnone⟩ := (h.worker w').posted hposted
      refine ⟨push, clientfd, habout.sameTask hself hsame, hpushed ▸ hpush, ?_⟩
      rw [htaken]
      exact hnone
    · refine (h.worker w').other (by rw [hworkers, Function.update_of_ne hw]) (hpushed ▸ id)
        (htaken ▸ List.Subset.refl _) ?_ ?_
      · rw [htaken]
        exact fun t ht => .inl ht
      · rw [hserved]
        exact fun t ht => .inl ht
  listener := hlistener
  handsOver := h.handsOver.sameTask hworkers hsame hpushed htaken hserved

/-! ## Steps that move a task -/

theorem nodup_map_snoc {α β : Type} {f : α → β} {as : List α} {a : α} (h : (as.map f).Nodup)
    (hnot : ∀ b ∈ as, f b ≠ f a) : ((as ++ [a]).map f).Nodup := by
  rw [List.map_append, List.map_singleton]
  refine List.nodup_append.mpr ⟨h, List.nodup_singleton _, ?_⟩
  intro x hx y hy
  obtain ⟨b, hb, rfl⟩ := List.mem_map.mp hx
  rw [List.mem_singleton.mp hy]
  exact hnot b hb

/-- The worker takes its task. -/
theorem Inv.beginTask (h : s.Inv) (hpoint : (s.workers w).point = .begun)
    (hworkers : s'.workers = Function.update s.workers w { s.workers w with
      point := .serving (s.workers w).taskContext.clientfd (s.workers w).taskContext.push })
    (hpushed : s'.pushed = s.pushed)
    (htaken : s'.taken = s.taken ++
      [⟨w, (s.workers w).taskContext.clientfd, (s.workers w).taskContext.push⟩])
    (hserved : s'.served = s.served) (hlistener : s'.ListenerInv) : s'.Inv := by
  have hposted : (s.workers w).Posted := by rw [PoolWorker.Posted, hpoint]; trivial
  obtain ⟨push, clientfd, habout, hpush, hnone⟩ := (h.worker w).posted hposted
  rw [habout.push, habout.clientfd] at hworkers htaken
  have hself : s'.workers w =
      { s.workers w with point := .serving clientfd (some push) } := by
    rw [hworkers, Function.update_self]
  have hother : ∀ w', w' ≠ w → s'.workers w' = s.workers w' := by
    intro w' hw
    rw [hworkers, Function.update_of_ne hw]
  have hmem : ∀ t, t ∈ s'.taken ↔ t ∈ s.taken ∨ t = ⟨w, clientfd, some push⟩ := by
    simp [htaken]
  refine ⟨fun w' => ?_, hlistener, ?_⟩
  · by_cases hw : w' = w
    · subst hw
      refine ⟨?_, ?_, ?_⟩
      · rw [hself]
        have hshape := (h.worker w').shape
        rw [PoolWorker.Shape, hpoint] at hshape
        exact hshape
      · rw [hself]
        exact False.elim
      · intro servfd push' hserving
        rw [hself] at hserving
        cases hserving
        refine ⟨(hmem _).mpr (.inr rfl), fun hmem' => ?_⟩
        rw [hserved] at hmem'
        exact hnone _ (h.handsOver.served_taken _ hmem') rfl
    · refine (h.worker w').other (hother w' hw) (hpushed ▸ id) ?_ ?_ ?_
      · exact fun t ht => (hmem t).mpr (.inl ht)
      · intro t ht
        refine ((hmem t).mp ht).imp_right ?_
        rintro rfl
        exact ⟨Ne.symm hw, push, rfl, hpush⟩
      · rw [hserved]
        exact fun t ht => .inl ht
  · refine ⟨?_, ?_, ?_, ?_, ?_, hserved ▸ h.handsOver.served_once⟩
    · intro push' w' clientfd' hpush'
      rw [hpushed] at hpush'
      by_cases hw : w' = w
      · subst hw
        obtain hold | habout' := h.handsOver.pushed hpush'
        · exact .inl ((hmem _).mpr (.inl hold))
        · refine .inl ((hmem _).mpr (.inr ?_))
          rw [← habout'.clientfd, ← habout'.push, habout.clientfd, habout.push]
      · exact (h.handsOver.pushed hpush').imp (fun hold => (hmem _).mpr (.inl hold))
          fun habout' => habout'.other (hother w' hw)
    · intro t ht
      rw [hpushed]
      obtain hold | rfl := (hmem t).mp ht
      · exact h.handsOver.taken t hold
      · exact ⟨push, rfl, hpush⟩
    · rw [htaken]
      exact nodup_map_snoc h.handsOver.taken_once hnone
    · intro t ht
      rw [hserved]
      obtain hold | rfl := (hmem t).mp ht
      · refine (h.handsOver.served t hold).imp_right fun hserving => ?_
        have hne : t.worker ≠ w := by
          rintro rfl
          rw [hpoint] at hserving
          cases hserving
        rw [hother _ hne, hserving]
      · exact .inr (by rw [hself])
    · rw [hserved]
      exact fun t ht => (hmem t).mpr (.inl (h.handsOver.served_taken t ht))

/-- The worker ends its session. -/
theorem Inv.finishTask (h : s.Inv) {servfd : Int} {push : Option Nat}
    (hpoint : (s.workers w).point = .serving servfd push)
    (hworkers : s'.workers = Function.update s.workers w { s.workers w with
      taskContext := (s.workers w).taskContext.finishTask, point := .finished })
    (hpushed : s'.pushed = s.pushed) (htaken : s'.taken = s.taken)
    (hserved : s'.served = s.served ++ [⟨w, servfd, push⟩]) (hlistener : s'.ListenerInv) :
    s'.Inv := by
  obtain ⟨htask, hnew⟩ := (h.worker w).serving hpoint
  have hpoint' : (s'.workers w).point = .finished := by rw [hworkers, Function.update_self]
  have hother : ∀ w', w' ≠ w → s'.workers w' = s.workers w' := by
    intro w' hw
    rw [hworkers, Function.update_of_ne hw]
  have hmem : ∀ t, t ∈ s'.served ↔ t ∈ s.served ∨ t = ⟨w, servfd, push⟩ := by
    simp [hserved]
  have hnotPosted : ¬ (s.workers w).Posted := by
    rw [PoolWorker.Posted, hpoint]
    exact id
  refine ⟨fun w' => ?_, hlistener, ?_⟩
  · by_cases hw : w' = w
    · subst hw
      refine ⟨?_, ?_, fun hserving => ?_⟩
      · have hshape := (h.worker w').shape
        rw [PoolWorker.Shape, hpoint] at hshape
        rw [hworkers, Function.update_self]
        exact hshape
      · rw [PoolWorker.Posted, hpoint']
        exact False.elim
      · rw [hpoint'] at hserving
        cases hserving
    · refine (h.worker w').other (hother w' hw) (hpushed ▸ id)
        (htaken ▸ List.Subset.refl _) ?_ ?_
      · rw [htaken]
        exact fun t ht => .inl ht
      · intro t ht
        refine ((hmem t).mp ht).imp_right ?_
        rintro rfl
        exact Ne.symm hw
  · refine ⟨?_, ?_, htaken ▸ h.handsOver.taken_once, ?_, ?_, ?_⟩
    · intro push' w' clientfd' hpush'
      rw [hpushed] at hpush'
      rw [htaken]
      refine (h.handsOver.pushed hpush').imp_right fun habout => ?_
      refine habout.other (hother w' ?_)
      rintro rfl
      exact hnotPosted habout.posted
    · rw [htaken, hpushed]
      exact h.handsOver.taken
    · intro t ht
      rw [htaken] at ht
      by_cases hw : t.worker = w
      · refine .inl ((hmem t).mpr ?_)
        refine (h.handsOver.served t ht).imp_right fun hserving => ?_
        rw [hw, hpoint] at hserving
        obtain ⟨hfd, hp⟩ := WorkerPoint.serving.inj hserving
        rw [hfd, hp, ← hw]
      · exact (h.handsOver.served t ht).imp (fun hold => (hmem t).mpr (.inl hold))
          fun hserving => by rw [hother _ hw, hserving]
    · intro t ht
      rw [htaken]
      obtain hold | rfl := (hmem t).mp ht
      · exact h.handsOver.served_taken t hold
      · exact htask
    · rw [hserved]
      refine nodup_map_snoc h.handsOver.served_once fun t ht heq => hnew ?_
      have hsame :=
        List.inj_on_of_nodup_map h.handsOver.taken_once (h.handsOver.served_taken t ht)
          htask heq
      exact hsame ▸ ht

/-- `PushTask` returns success. -/
theorem Inv.postSem (h : s.Inv) {clientfd : Int} (hpoint : s.listener = .posting clientfd w)
    (hworkers : s'.workers = Function.update s.workers w { s.workers w with
      taskIdleLock := (s.workers w).taskIdleLock + 1 })
    (hpushed : s'.pushed = s.pushed ++ [(w, clientfd)]) (htaken : s'.taken = s.taken)
    (hserved : s'.served = s.served) (hlistener : s'.listener = .accepting) : s'.Inv := by
  have hwritten := h.listener
  rw [ListenerInv, hpoint] at hwritten
  obtain ⟨hrests, hpush, hfd, hentry⟩ := hwritten
  have hself : s'.workers w =
      { s.workers w with taskIdleLock := (s.workers w).taskIdleLock + 1 } := by
    rw [hworkers, Function.update_self]
  have hother : ∀ w', w' ≠ w → s'.workers w' = s.workers w' := by
    intro w' hw
    rw [hworkers, Function.update_of_ne hw]
  have hkept : ∀ {i : Nat} {e : Fin n × Int}, s.pushed[i]? = some e →
      s'.pushed[i]? = some e := by
    intro i e he
    rw [hpushed, List.getElem?_append_left (List.getElem?_eq_some_iff.mp he).1, he]
  have hlast : s'.pushed[s.pushed.length]? = some (w, clientfd) := by
    rw [hpushed, List.getElem?_concat_length]
  have habout : s'.AboutToTake s.pushed.length w clientfd := by
    refine ⟨?_, by rw [hself, hentry], by rw [hself, hpush], by rw [hself, hfd]⟩
    rw [hself]
    obtain ⟨hlock, hat | hat⟩ := hrests
    all_goals
      rw [PoolWorker.Posted, hat]
      exact Nat.succ_pos _
  refine ⟨fun w' => ?_, ?_, ?_⟩
  · by_cases hw : w' = w
    · subst hw
      refine ⟨?_, fun _ => ⟨_, clientfd, habout, hlast, ?_⟩, fun hserving => ?_⟩
      · have hshape := (h.worker w').shape
        rw [hself]
        obtain ⟨hlock, hat | hat⟩ := hrests
        all_goals
          rw [PoolWorker.Shape, hat] at hshape ⊢
          exact ⟨hshape.1, by simp [hlock]⟩
      · intro t ht heq
        rw [htaken] at ht
        obtain ⟨push, hpush', hplace⟩ := h.handsOver.taken t ht
        rw [hpush', Option.some.injEq] at heq
        rw [heq, List.getElem?_eq_none (Nat.le_refl _)] at hplace
        cases hplace
      · rw [hself] at hserving
        obtain ⟨-, hat | hat⟩ := hrests
        all_goals
          rw [hat] at hserving
          cases hserving
    · refine (h.worker w').other (hother w' hw) hkept (htaken ▸ List.Subset.refl _) ?_ ?_
      · rw [htaken]
        exact fun t ht => .inl ht
      · rw [hserved]
        exact fun t ht => .inl ht
  · rw [ListenerInv, hlistener]
    trivial
  · refine ⟨?_, ?_, htaken ▸ h.handsOver.taken_once, ?_, ?_,
      hserved ▸ h.handsOver.served_once⟩
    · intro push' w' clientfd' hpush'
      rw [htaken]
      obtain hold | hnew := lt_or_ge push' s.pushed.length
      · rw [hpushed, List.getElem?_append_left hold] at hpush'
        refine (h.handsOver.pushed hpush').imp_right fun habout' =>
          habout'.other (hother w' ?_)
        rintro rfl
        exact hrests.not_posted habout'.posted
      · rw [hpushed, List.getElem?_append_right hnew, List.getElem?_singleton] at hpush'
        by_cases hzero : push' - s.pushed.length = 0
        · rw [if_pos hzero, Option.some.injEq, Prod.mk.injEq] at hpush'
          obtain rfl : push' = s.pushed.length := by omega
          obtain ⟨rfl, rfl⟩ := hpush'
          exact .inr habout
        · rw [if_neg hzero] at hpush'
          cases hpush'
    · intro t ht
      rw [htaken] at ht
      obtain ⟨push, hp, hplace⟩ := h.handsOver.taken t ht
      exact ⟨push, hp, hkept hplace⟩
    · intro t ht
      rw [htaken] at ht
      rw [hserved]
      refine (h.handsOver.served t ht).imp_right fun hserving => ?_
      have hne : t.worker ≠ w := by
        rintro rfl
        obtain ⟨-, hat | hat⟩ := hrests
        all_goals
          rw [hat] at hserving
          cases hserving
      rw [hother _ hne, hserving]
    · rw [htaken, hserved]
      exact h.handsOver.served_taken

/-- A step of the listener by itself. -/
theorem Inv.listening (h : s.Inv) {listener : ListenerPoint n}
    (hlistener : ({ s with listener } : ThreadPool n).ListenerInv) :
    ({ s with listener } : ThreadPool n).Inv where
  worker w :=
    (h.worker w).other rfl id (List.Subset.refl _) (fun _ ht => .inl ht) fun _ ht => .inl ht
  listener := hlistener
  handsOver :=
    { h.handsOver with pushed := fun hpush =>
                         (h.handsOver.pushed hpush).imp_right (·.other rfl) }

/-! ## Steps -/

/-- What the listener writes to a worker that rests is nobody's task yet. -/
theorem sameTask_of_rests {k k' : PoolWorker} (h : k.Rests)
    (hlock : k'.taskIdleLock = k.taskIdleLock)
    (hpoint : k'.point = k.point) : SameTask k k' := by
  have hrests : k'.Rests := ⟨hlock.trans h.1, hpoint ▸ h.2⟩
  refine ⟨iff_of_false hrests.not_posted h.not_posted,
    fun hposted => absurd hposted h.not_posted, ?_⟩
  intro servfd push
  rw [hpoint]
  obtain ⟨-, hat | hat⟩ := h
  all_goals
    rw [hat]
    exact ⟨nofun, nofun⟩

theorem Inv.pushTask (h : s.Inv) (hok : s.PicksFree .pushTask)
    (hstep : s.pushTask = some s') :
    s'.Inv := by
  have hlistener := h.listener
  rw [ListenerInv] at hlistener
  rw [ThreadPool.pushTask] at hstep
  cases hpoint : s.listener with
  | accepting =>
    rw [hpoint] at hstep
    cases hstep
  | scanning clientfd index =>
    rw [hpoint] at hstep
    cases index with
    | zero =>
      cases hstep
      exact h.listening trivial
    | succ index =>
      dsimp only at hstep
      by_cases hlt : index < n
      · rw [dif_pos hlt] at hstep
        by_cases hidle : (s.workers ⟨index, hlt⟩).twState = .idle
        · rw [if_pos hidle, Option.some.injEq] at hstep
          subst hstep
          refine h.listening ((h.worker ⟨index, hlt⟩).shape.rests hidle ?_)
          simp only [PicksFree, hpoint] at hok
          exact hok hlt hidle
        · rw [if_neg hidle, Option.some.injEq] at hstep
          subst hstep
          exact h.listening trivial
      · rw [dif_neg hlt] at hstep
        cases hstep
  | setTaskId clientfd w =>
    rw [hpoint] at hstep hlistener
    cases hstep
    refine h.sameTask rfl (sameTask_of_rests hlistener rfl rfl)
      (h.worker w).shape rfl rfl rfl ?_
    simp only [ListenerInv, setTask, setWorker, Function.update_self]
    exact ⟨hlistener, trivial⟩
  | setClientfd clientfd w =>
    rw [hpoint] at hstep hlistener
    cases hstep
    refine h.sameTask rfl (sameTask_of_rests hlistener.1 rfl rfl)
      (h.worker w).shape rfl rfl rfl ?_
    simp only [ListenerInv, setTask, setWorker, Function.update_self]
    exact ⟨hlistener.1, hlistener.2, trivial⟩
  | setTaskEntry clientfd w =>
    rw [hpoint] at hstep hlistener
    cases hstep
    refine h.sameTask rfl (sameTask_of_rests hlistener.1 rfl rfl)
      (h.worker w).shape rfl rfl rfl ?_
    simp only [ListenerInv, setWorker, Function.update_self]
    exact ⟨hlistener.1, hlistener.2.1, hlistener.2.2, trivial⟩
  | posting clientfd w =>
    rw [hpoint] at hstep
    cases hstep
    exact h.postSem hpoint rfl rfl rfl rfl rfl

theorem Inv.threadEntry (h : s.Inv) (hstep : s.threadEntry w = some s') : s'.Inv := by
  have hshape := (h.worker w).shape
  rw [PoolWorker.Shape] at hshape
  rw [ThreadPool.threadEntry] at hstep
  dsimp only at hstep
  cases hpoint : (s.workers w).point with
  | waiting =>
    rw [hpoint] at hstep hshape
    dsimp only at hstep
    by_cases hlock : (s.workers w).taskIdleLock = 0
    · rw [if_pos hlock] at hstep
      cases hstep
    · rw [if_neg hlock, Option.some.injEq] at hstep
      subst hstep
      have hposted : (s.workers w).Posted := by
        rw [PoolWorker.Posted, hpoint]
        exact Nat.pos_of_ne_zero hlock
      exact h.sameTask rfl ⟨iff_of_true trivial hposted,
        fun _ => ⟨rfl, rfl⟩, by simp [hpoint]⟩
        ⟨hshape.1, Nat.sub_eq_zero_of_le hshape.2⟩ rfl rfl rfl
        (h.listener.threadEntry rfl rfl rfl fun hrests => absurd hrests.1 hlock)
  | woken =>
    rw [hpoint] at hstep hshape
    cases hstep
    have hposted : (s.workers w).Posted := by
      rw [PoolWorker.Posted, hpoint]
      trivial
    exact h.sameTask rfl ⟨iff_of_true trivial hposted, fun _ => ⟨rfl, rfl⟩, by simp [hpoint]⟩
      ⟨rfl, hshape.2⟩ rfl rfl rfl
      (h.listener.threadEntry rfl rfl rfl fun hrests => by
        simp [PoolWorker.Rests, hpoint] at hrests)
  | begun =>
    have hposted : (s.workers w).Posted := by
      rw [PoolWorker.Posted, hpoint]
      trivial
    obtain ⟨push, clientfd, habout, -⟩ := (h.worker w).posted hposted
    rw [hpoint] at hstep
    dsimp only at hstep
    rw [if_pos habout.taskEntry, Option.some.injEq] at hstep
    subst hstep
    exact h.beginTask hpoint rfl rfl rfl rfl
      (h.listener.threadEntry rfl rfl rfl fun hrests => by
        simp [PoolWorker.Rests, hpoint] at hrests)
  | serving servfd push =>
    rw [hpoint] at hstep
    cases hstep
    exact h.finishTask hpoint rfl rfl rfl rfl
      (h.listener.threadEntry rfl rfl rfl fun hrests => by
        simp [PoolWorker.Rests, hpoint] at hrests)
  | finished =>
    rw [hpoint] at hstep hshape
    cases hstep
    have hnot : ¬ (s.workers w).Posted := by
      rw [PoolWorker.Posted, hpoint]
      exact id
    have hnot' : ¬ 0 < (s.workers w).taskIdleLock := by omega
    exact h.sameTask rfl ⟨iff_of_false hnot' hnot, fun _ => ⟨rfl, rfl⟩, by simp [hpoint]⟩
      ⟨rfl, hshape.2.trans_le (Nat.zero_le 1)⟩ rfl rfl rfl
      (h.listener.threadEntry rfl rfl rfl fun hrests => by
        simp [PoolWorker.Rests, hpoint] at hrests)
  | exiting =>
    rw [hpoint] at hstep hshape
    cases hstep
    refine h.sameTask rfl ⟨?_, fun _ => ⟨rfl, rfl⟩, by simp [hpoint]⟩ hshape rfl rfl rfl
      (h.listener.threadEntry rfl rfl rfl fun hrests => ⟨⟨hrests.1, .inl rfl⟩, rfl, rfl⟩)
    rw [PoolWorker.Posted, PoolWorker.Posted, hpoint]

theorem Inv.step {act : PoolAct n} (h : s.Inv) (hok : s.PicksFree act)
    (hstep : s.step act = some s') :
    s'.Inv := by
  cases act with
  | accept clientfd =>
    rw [ThreadPool.step] at hstep
    by_cases haccept : s.listener = .accepting ∧ 0 ≤ clientfd
    · rw [if_pos haccept, Option.some.injEq] at hstep
      subst hstep
      exact h.listening trivial
    · rw [if_neg haccept] at hstep
      cases hstep
  | pushTask => exact h.pushTask hok hstep
  | threadEntry w => exact h.threadEntry hstep

/-! ## Runs -/

/-- How many steps the workers have still to take. -/
def work (s : ThreadPool n) : Nat := ∑ w, (s.workers w).work

theorem work_lt (hk : k.work < (s.workers w).work)
    (hworkers : s'.workers = Function.update s.workers w k) : s'.work < s.work := by
  refine Finset.sum_lt_sum (fun w' _ => ?_) ⟨w, Finset.mem_univ w, ?_⟩
  · rw [hworkers]
    by_cases hw : w' = w
    · subst hw
      rw [Function.update_self]
      exact hk.le
    · rw [Function.update_of_ne hw]
  · rw [hworkers, Function.update_self]
    exact hk

/-- Every step of a worker brings it nearer to its wait. -/
theorem threadEntry_work (hstep : s.threadEntry w = some s') : s'.work < s.work := by
  rw [ThreadPool.threadEntry] at hstep
  dsimp only at hstep
  cases hpoint : (s.workers w).point with
  | waiting =>
    rw [hpoint] at hstep
    dsimp only at hstep
    by_cases hlock : (s.workers w).taskIdleLock = 0
    · rw [if_pos hlock] at hstep
      cases hstep
    · rw [if_neg hlock, Option.some.injEq] at hstep
      subst hstep
      refine work_lt ?_ rfl
      simp only [PoolWorker.work, hpoint]
      omega
  | begun =>
    rw [hpoint] at hstep
    dsimp only at hstep
    cases hentry : (s.workers w).taskEntry with
    | true =>
      rw [hentry, if_pos rfl, Option.some.injEq] at hstep
      subst hstep
      exact work_lt (by simp [PoolWorker.work, hpoint]) rfl
    | false =>
      rw [hentry, if_neg Bool.false_ne_true, Option.some.injEq] at hstep
      subst hstep
      exact work_lt (by simp [PoolWorker.work, hpoint]) rfl
  | woken =>
    rw [hpoint] at hstep
    cases hstep
    exact work_lt (by simp [PoolWorker.work, hpoint]) rfl
  | serving =>
    rw [hpoint] at hstep
    cases hstep
    exact work_lt (by simp [PoolWorker.work, hpoint]) rfl
  | finished =>
    rw [hpoint] at hstep
    cases hstep
    exact work_lt (by simp [PoolWorker.work, hpoint]) rfl
  | exiting =>
    rw [hpoint] at hstep
    cases hstep
    exact work_lt (by simp [PoolWorker.work, hpoint]) rfl

/-- Without the listener the workers come to wait. -/
theorem run_threadEntry_length {ws : List (Fin n)}
    (hrun : run step s (ws.map .threadEntry) = some s') :
    s'.work + ws.length ≤ s.work := by
  induction ws generalizing s with
  | nil =>
    cases hrun
    exact Nat.le_refl _
  | cons w ws ih =>
    obtain ⟨t, ht, hrest⟩ := run_cons.mp hrun
    have hlt := threadEntry_work ht
    have hle := ih hrest
    rw [List.length_cons]
    omega

theorem threadEntry_none (h : s.threadEntry w = none) :
    (s.workers w).point = .waiting ∧ (s.workers w).taskIdleLock = 0 := by
  rw [ThreadPool.threadEntry] at h
  dsimp only at h
  cases hpoint : (s.workers w).point with
  | waiting =>
    rw [hpoint] at h
    exact ⟨rfl, by simpa using h⟩
  | begun =>
    rw [hpoint] at h
    dsimp only at h
    split at h
    · cases h
    · cases h
  | woken | serving | finished | exiting =>
    rw [hpoint] at h
    cases h

/-- Where all workers wait, every task that was pushed was taken once and served once, by its
worker. -/
theorem HandsOver.served_all (h : s.HandsOver)
    (hwait : ∀ w, (s.workers w).point = .waiting ∧ (s.workers w).taskIdleLock = 0)
    {push : Nat} {clientfd : Int} (hpush : s.pushed[push]? = some (w, clientfd)) :
    (s.taken.map TakenTask.push).count (some push) = 1 ∧
      (s.served.map TakenTask.push).count (some push) = 1 ∧
      ⟨w, clientfd, some push⟩ ∈ s.taken ∧ ⟨w, clientfd, some push⟩ ∈ s.served := by
  have hnot : ¬ s.AboutToTake push w clientfd := by
    intro habout
    have hposted := habout.posted
    rw [PoolWorker.Posted, (hwait w).1] at hposted
    exact absurd (hwait w).2 (Nat.pos_iff_ne_zero.mp hposted)
  have htaken := (h.pushed hpush).resolve_right hnot
  have hserved : ⟨w, clientfd, some push⟩ ∈ s.served := by
    refine (h.served _ htaken).resolve_right fun hserving => ?_
    rw [(hwait w).1] at hserving
    cases hserving
  exact ⟨List.count_eq_one_of_mem h.taken_once (List.mem_map_of_mem htaken),
    List.count_eq_one_of_mem h.served_once (List.mem_map_of_mem hserved), htaken, hserved⟩

/-- While no worker is picked that has still to take a task, no task is lost, overwritten or
taken twice. Without the listener the workers take a bounded number of steps, and where none
can take one, every task that was pushed was taken and served once. -/
theorem pushTask_handsOver {acts : List (PoolAct n)} (hrun : run step (init n) acts = some s)
    (hok : Along step PicksFree (init n) acts) :
    s.HandsOver ∧
      (∀ (ws : List (Fin n)) s', run step s (ws.map .threadEntry) = some s' →
        ws.length ≤ s.work) ∧
      ((∀ w, s.threadEntry w = none) → ∀ {push : Nat} {w clientfd},
        s.pushed[push]? = some (w, clientfd) →
          (s.taken.map TakenTask.push).count (some push) = 1 ∧
            (s.served.map TakenTask.push).count (some push) = 1 ∧
            ⟨w, clientfd, some push⟩ ∈ s.taken ∧ ⟨w, clientfd, some push⟩ ∈ s.served) := by
  have hinv : s.Inv := run_invariant (fun h hok hstep => h.step hok hstep) inv_init hok hrun
  refine ⟨hinv.handsOver, fun ws s' hws => ?_, fun hnone _ _ _ hpush => ?_⟩
  · have hle := run_threadEntry_length hws
    omega
  · exact hinv.handsOver.served_all (fun w => threadEntry_none (hnone w)) hpush

/-! ## Three clients and two workers -/

/-- The second client comes while the first one is served, and the third one while the second
is: it is given to the worker that has finished with the first. -/
def threeClients : List (PoolAct 2) :=
  List.flatten [
    .accept 5 :: List.replicate 5 .pushTask,
    List.replicate 3 (.threadEntry 1),
    .accept 6 :: List.replicate 6 .pushTask,
    [.threadEntry 0, .threadEntry 1, .threadEntry 0, .threadEntry 1, .threadEntry 0,
      .threadEntry 1],
    [.accept 7, .pushTask, .pushTask, .threadEntry 0, .pushTask, .threadEntry 0,
      .pushTask, .pushTask],
    List.replicate 6 (.threadEntry 1),
    [.threadEntry 0]]

theorem threeClients_handsOver :
    (exec step (init 2) threeClients).HandsOver ∧
      (∀ w, (exec step (init 2) threeClients).threadEntry w = none) ∧
      (exec step (init 2) threeClients).served =
        [⟨1, 5, some 0⟩, ⟨0, 6, some 1⟩, ⟨1, 7, some 2⟩] := by
  have hrun := run_exec (show (run step (init 2) threeClients).isSome = true by decide)
  have hwait : ∀ w, ((exec step (init 2) threeClients).threadEntry w).isNone := by decide
  exact ⟨(pushTask_handsOver hrun (by decide)).1,
    fun w => Option.isNone_iff_eq_none.mp (hwait w), by decide⟩

/-! ## Two clients and one worker -/

/-- The worker takes its task and serves the client. -/
def serveOne : List (PoolAct 1) := List.replicate 6 (.threadEntry 0)

/-- A client is accepted and given to a worker. -/
def pushOne (clientfd : Int) : List (PoolAct 1) :=
  .accept clientfd :: List.replicate 5 .pushTask

/-- Two clients before the worker wakes up. -/
def twoAtOnce : List (PoolAct 1) := pushOne 5 ++ pushOne 6 ++ (serveOne ++ serveOne)

/-- Both are given to the worker with success. The first one is never taken, and the worker
serves a client that there is not. -/
theorem pushTask_overwrites :
    (run step (init 1) twoAtOnce).isSome = true ∧
      (exec step (init 1) twoAtOnce).pushed = [(0, 5), (0, 6)] ∧
      (exec step (init 1) twoAtOnce).threadEntry 0 = none ∧
      (exec step (init 1) twoAtOnce).taken = [⟨0, 6, some 1⟩, ⟨0, -1, none⟩] ∧
      ¬ (exec step (init 1) twoAtOnce).HandsOver := by
  refine ⟨by decide, by decide, Option.isNone_iff_eq_none.mp (by decide),
    by decide, fun hands => ?_⟩
  have hpush : (exec step (init 1) twoAtOnce).pushed[0]? = some (0, 5) := by decide
  obtain htaken | habout := hands.pushed hpush
  · revert htaken
    decide
  · have hposted := habout.posted
    revert hposted
    decide

end ThreadPool

end Toadb
