/-
Toadb.Transaction.RollbackTheorems — what a rolled back transaction leaves
behind.

Nothing on the pages is undone by `AbortTransaction`, and
`GetTransactionState` answers committed for every id. What is left to decide
about a version is the snapshot test, and for a snapshot taken after the
rollback that test has one way to call the transaction running: its id is in
the array. An id gets there after its transaction has finished only when
the snapshot read its worker's slot between the `TS_START` of the next
transaction and the store of the new id.

`RollbackInv` is the invariant of a run: a rolled back id is never held
again and is at most the highest finished id, so every upper bound read
afterwards exceeds it.
-/
import Toadb.Transaction.IsolationTheorems

namespace Toadb

open Transition

variable {n : Nat}

/-! ## Rolled back ids in a run -/

/-- Rolled back ids are over: held by nobody and covered by the high level. -/
structure RollbackInv (s : TransSys n) : Prop where
  ids : IdsOk s
  finished : ∀ x ∈ s.rolledBack, x ≤ s.info.highLevelXtid ∧ ¬ s.Unfinished x
  /-- The same for the id a `FinishTransaction` is about to report. -/
  finishing : ∀ j aborted, (s.workers j).phase = .finishHigh aborted →
    ¬ s.Unfinished (s.workers j).context.transactionID
  low : ∀ j i acc max, (s.workers j).phase = .snapshotSlot i acc max →
    ∀ y ∈ acc.xtids.take acc.count, acc.min ≤ y

theorem TransInit.rollbackInv {s : TransSys n} (h : TransInit s) : RollbackInv s where
  ids := h.idsOk
  finished := by simp [h.rolledBack]
  finishing := by
    intro j aborted hphase
    rw [(h.detached j).2.2.1] at hphase
    cases hphase
  low := by
    intro j i acc max hphase
    rw [(h.detached j).2.2.1] at hphase
    cases hphase

/-- A worker that has given up its id holds nothing unfinished. -/
theorem not_unfinished_of_finish {s s' : TransSys n} {a : Fin n × Call} (h : IdsOk s)
    (hc : CounterOk s a) (hstep : transStep s a = some s') {x : Nat}
    (hold : (s.workers a.1).current = some x) (hnew : (s'.workers a.1).current = none) :
    ¬ s'.Unfinished x := by
  rintro (hle | ⟨j, hj⟩)
  · have hlt := h.lt_next a.1 x hold
    have hnext := (step_current h hc hstep).1
    omega
  · by_cases hja : j = a.1
    · rw [hja, hnew] at hj; cases hj
    · rw [step_other h hstep hja] at hj
      exact hja (h.unique j a.1 x hj hold)

theorem mem_take_set {xs : List Nat} {c x y : Nat} (h : y ∈ (xs.set c x).take (c + 1)) :
    y = x ∨ y ∈ xs.take c := by
  obtain ⟨i, hi⟩ := List.mem_iff_getElem?.mp h
  rw [List.getElem?_take] at hi
  split at hi
  · rename_i hlt
    rw [List.getElem?_set] at hi
    split at hi
    · split at hi
      · exact .inl (Option.some.inj hi).symm
      · cases hi
    · rename_i hne
      refine .inr (List.mem_iff_getElem?.mpr ⟨i, ?_⟩)
      rw [List.getElem?_take, if_pos (by omega)]
      exact hi
  · cases hi

/-- The minimum stays below the recorded ids, whatever the slot shows. -/
theorem activeXtidsSlot_low {own : Option Nat} {max : Nat} {acc : ActiveXtids}
    {slot : TransactionContext} (h : ∀ y ∈ acc.xtids.take acc.count, acc.min ≤ y) :
    let acc' := activeXtidsSlot own max acc slot
    ∀ y ∈ acc'.xtids.take acc'.count, acc'.min ≤ y := by
  intro acc' y hy
  by_cases hstay : acc' = acc
  · rw [hstay] at hy ⊢; exact h y hy
  · have hwrite : acc' = { xtids := acc.xtids.set acc.count slot.transactionID
                           count := acc.count + 1
                           min := if slot.transactionID < acc.min then slot.transactionID
                             else acc.min
                           full := decide (acc.xtids.length ≤ acc.count + 1) } := by
      have hdef : acc' = activeXtidsSlot own max acc slot := rfl
      unfold activeXtidsSlot at hdef
      split at hdef
      · exact absurd hdef hstay
      · split at hdef
        · exact absurd hdef hstay
        · split at hdef
          · exact absurd hdef hstay
          · exact hdef
    rw [hwrite] at hy ⊢
    show (if _ then _ else _) ≤ y
    rcases mem_take_set hy with rfl | hy
    · split <;> omega
    · have := h y hy
      split <;> omega

/-- One step keeps the rolled back ids over. -/
theorem RollbackInv.step {s s' : TransSys n} {a : Fin n × Call} (h : RollbackInv s)
    (hc : CounterOk s a) (hstep : transStep s a = some s') : RollbackInv s' := by
  have hids := h.ids.step hc hstep
  have hover : ∀ x, ¬ s.Unfinished x → ¬ s'.Unfinished x :=
    fun x hx hx' => hx (step_unfinished h.ids hc hstep hx')
  have hother : ∀ j, j ≠ a.1 → s'.workers j = s.workers j :=
    fun j hj => step_other h.ids hstep hj
  refine ⟨hids, ?_, ?_, ?_⟩
  · intro x hx
    have hkeep : x ∈ s.rolledBack → s.info.highLevelXtid ≤ s'.info.highLevelXtid →
        x ≤ s'.info.highLevelXtid ∧ ¬ s'.Unfinished x := fun hx hle =>
      ⟨Nat.le_trans (h.finished x hx).1 hle, hover x (h.finished x hx).2⟩
    cases stepEffect (h.ids.ok a.1) hstep with
    | stay | own | finish | fetch | append | stamp | scanStart | scanSlot | scanStore =>
      exact hkeep hx (Nat.le_refl _)
    | raise k rolledBack aborted hphase hok hquiet hnone hcur hid hsnap hscanned hback =>
      have hge := setHighLevelTransaction_ge s.info (s.workers a.1).context.transactionID
      have hvalid : (s.workers a.1).context.transactionID ≠ invalidXtid := by
        have hlt := h.ids.slot_lt a.1
        unfold CounterOk xtidModulus at hc
        unfold invalidXtid
        omega
      rcases hback with rfl | rfl
      · exact hkeep hx hge.1
      · rcases List.mem_cons.mp hx with rfl | hx
        · exact ⟨hge.2 hvalid, hover _ (h.finishing a.1 aborted hphase)⟩
        · exact hkeep hx hge.1
  · intro j aborted hphase
    by_cases hj : j = a.1
    · subst hj
      cases stepEffect (h.ids.ok a.1) hstep with
      | stay => exact h.finishing a.1 aborted hphase
      | append => exact hover _ (h.finishing a.1 aborted hphase)
      | own k _ hquiet | fetch k _ hquiet | raise k _ _ _ _ hquiet =>
        rw [setWorker_self] at hphase
        exact absurd hphase (hquiet.notFinishing aborted)
      | finish aborted' hmine hcur =>
        refine not_unfinished_of_finish h.ids hc hstep ?_ ?_
        · rw [setWorker_self]; exact hcur
        · rw [setWorker_self]; rfl
      | stamp v copy extra hcall hready =>
        rw [setWorker_self] at hphase
        rw [hready] at hphase
        cases hphase
      | scanStart | scanSlot | scanStore => rw [setWorker_self] at hphase; cases hphase
    · rw [hother j hj] at hphase ⊢
      exact hover _ (h.finishing j aborted hphase)
  · intro j i acc max hphase
    rcases scanning_step h.ids hstep hphase with hold | ⟨rfl, -, -, -, -, rfl⟩ |
        ⟨rfl, i', acc₀, hold, -, rfl⟩
    · exact h.low j i acc max hold
    · simp [activeXtidsInit]
    · exact activeXtidsSlot_low (h.low a.1 i' acc₀ max hold)

/-! ## A snapshot taken afterwards -/

/-- Every scan of worker `w` in progress has an upper bound above `x`. -/
def ScanAbove (x : Nat) (w : Fin n) (s : TransSys n) : Prop :=
  ∀ i acc max, (s.workers w).phase = .snapshotSlot i acc max → x < max

/-- Once `x` is rolled back, the upper bounds read from then on exceed it. -/
theorem ScanAbove.step {s s' : TransSys n} {w : Fin n} {x : Nat} {a : Fin n × Call}
    (h : ScanAbove x w s) (hinv : RollbackInv s) (hx : x ∈ s.rolledBack) (hc : CounterOk s a)
    (hstep : transStep s a = some s') : ScanAbove x w s' := by
  intro i acc max hphase
  rcases scanning_step hinv.ids hstep hphase with hold | ⟨rfl, -, -, -, rfl, -⟩ |
      ⟨rfl, j, acc₀, hold, -, -⟩
  · exact h i acc max hold
  · have hle := (hinv.finished x hx).1
    have hmax := snapshotMax_eq hinv.ids hc
    omega
  · exact h j acc₀ max hold

theorem step_rolledBack {s s' : TransSys n} {a : Fin n × Call} {x : Nat} (h : IdsOk s)
    (hx : x ∈ s.rolledBack) (hstep : transStep s a = some s') : x ∈ s'.rolledBack := by
  cases stepEffect (h.ok a.1) hstep with
  | stay | own | finish | fetch | append | stamp | scanStart | scanSlot | scanStore =>
    exact hx
  | raise k rolledBack aborted hphase hok hquiet hnone hcur hid hsnap hscanned hback =>
    rcases hback with rfl | rfl
    · exact hx
    · exact List.mem_cons_of_mem _ hx

theorem RollbackInv.run {s t : TransSys n} {acts : List (Fin n × Call)} (h : RollbackInv s)
    (hok : Along transStep CounterOk s acts) (hrun : run transStep s acts = some t) :
    RollbackInv t :=
  run_invariant (fun h hok hstep => h.step hok hstep) h hok hrun

/-- A snapshot that worker `w` begins after `x` was rolled back has an upper
bound above `x`, and belongs to another transaction. -/
theorem snapshot_above {s s₁ s₂ : TransSys n} {w : Fin n} {x : Nat}
    {acts : List (Fin n × Call)} (h : RollbackInv s) (hx : x ∈ s.rolledBack)
    (hfree : (s.workers w).Quiet)
    (hok : Along transStep CounterOk s (acts ++ [(w, .proceed)]))
    (hrun : run transStep s acts = some s₁) (hdone : SnapshotCompleted s₁ w s₂) :
    ∃ own snapshot, SnapshotHeld (s₂.workers w) own snapshot ∧ x ≠ own ∧ x ≠ invalidXtid ∧
      x < snapshot.highLevel ∧ ∀ y ∈ snapshot.runningXids, snapshot.lowLevel ≤ y := by
  obtain ⟨hok, hlast⟩ := (along_append hrun).mp hok
  have hstart : RollbackInv s ∧ x ∈ s.rolledBack ∧ ScanAbove x w s :=
    ⟨h, hx, fun i acc max hphase => absurd hphase (hfree.notScanning i acc max)⟩
  obtain ⟨hinv, hx₁, habove⟩ : RollbackInv s₁ ∧ x ∈ s₁.rolledBack ∧ ScanAbove x w s₁ :=
    run_invariant (I := fun t => RollbackInv t ∧ x ∈ t.rolledBack ∧ ScanAbove x w t)
      (fun ⟨hinv, hx, habove⟩ hc hstep => ⟨hinv.step hc hstep,
        step_rolledBack hinv.ids hx hstep, habove.step hinv hx hc hstep⟩) hstart hok hrun
  obtain ⟨i, acc, max, hphase, -, -, hheld⟩ := snapshot_stored hinv.ids hdone
  have hinv₂ : RollbackInv s₂ := hinv.step hlast.1 hdone.2
  have hover : ¬ s₂.Unfinished x :=
    (hinv₂.finished x (step_rolledBack hinv.ids hx₁ hdone.2)).2
  refine ⟨_, _, hheld, ?_, ?_, habove i acc max hphase, hinv.low w i acc max hphase⟩
  · rintro rfl
    exact hover (.inr ⟨w, hheld.current⟩)
  · rintro rfl
    have hc := hlast.1
    exact (hinv.finished _ hx₁).2
      (.inl (by unfold CounterOk xtidModulus at hc; unfold invalidXtid; omega))

/-! ## What a rollback hides -/

/-- What a rollback promises worker `w`: no version created by `x` is visible,
and versions stamped by `x` as superseded are judged as if they were not. -/
def RolledBackHidden (s : TransSys n) (w : Fin n) (x : Nat) : Prop :=
  ∀ h ∈ s.versions, (h.tmin = x → s.visibility w h = .tupleInvisible) ∧
    (h.tmax = x → s.visibility w h = s.visibility w { h with tmax := invalidXtid })

/-- What hides `x` from worker `w` in this code: the snapshot recorded `x` from
a stale slot, or else every version created by `x` was deleted again by a
transaction that counts as over, and every version `x` superseded was created
by one that does not. -/
def RolledBackShielded (s : TransSys n) (w : Fin n) (x : Nat) : Prop :=
  x ∈ (s.workers w).snapshot.runningXids ∨
    ∀ h ∈ s.versions,
      (h.tmin = x → h.tmax ≠ invalidXtid ∧ (s.workers w).snapshot.CountsAsOver
        (s.workers w).currentTransactionID h.tmax) ∧
      (h.tmax = x → ¬ (h.tmin ≠ invalidXtid ∧ (s.workers w).snapshot.CountsAsOver
        (s.workers w).currentTransactionID h.tmin))

/-- The two stamps of one version, for a transaction that does not count as over. -/
theorem hidden_of_running {own x : Nat} {snapshot : SnapShotInfo} {h : TupleHeader}
    (hx : ¬ snapshot.CountsAsOver own x) :
    (h.tmin = x → tupleVisibilitySatisfy own h (some snapshot) = .tupleInvisible) ∧
      (h.tmax = x → tupleVisibilitySatisfy own h (some snapshot)
        = tupleVisibilitySatisfy own { h with tmax := invalidXtid } (some snapshot)) := by
  constructor
  · rintro rfl
    simp [tupleVisibilitySatisfy_eq, hx]
  · rintro rfl
    simp [tupleVisibilitySatisfy_eq, hx]

/-- The same for a transaction that counts as over. -/
theorem hidden_iff_of_over {own x : Nat} {snapshot : SnapShotInfo} {h : TupleHeader}
    (hvalid : x ≠ invalidXtid) (hx : snapshot.CountsAsOver own x) :
    ((h.tmin = x → tupleVisibilitySatisfy own h (some snapshot) = .tupleInvisible) ∧
      (h.tmax = x → tupleVisibilitySatisfy own h (some snapshot)
        = tupleVisibilitySatisfy own { h with tmax := invalidXtid } (some snapshot))) ↔
    (h.tmin = x → h.tmax ≠ invalidXtid ∧ snapshot.CountsAsOver own h.tmax) ∧
      (h.tmax = x → ¬ (h.tmin ≠ invalidXtid ∧ snapshot.CountsAsOver own h.tmin)) := by
  refine and_congr (imp_congr_right ?_) (imp_congr_right ?_)
  · rintro rfl
    by_cases hdeleted : h.tmax ≠ invalidXtid ∧ snapshot.CountsAsOver own h.tmax <;>
      simp [tupleVisibilitySatisfy_eq, hvalid, hx, hdeleted]
  · rintro rfl
    by_cases hcreated : h.tmin ≠ invalidXtid ∧ snapshot.CountsAsOver own h.tmin <;>
      simp [tupleVisibilitySatisfy_eq, hvalid, hx, hcreated]

/-- In every run: once `x` was rolled back, a snapshot that another worker
begins afterwards hides it exactly when it is shielded. -/
theorem rolledBack_hidden_iff {s₀ s s₁ s₂ s₃ : TransSys n} {w : Fin n} {x : Nat}
    {acts acts₁ acts₂ : List (Fin n × Call)} (hinit : TransInit s₀)
    (hok : Along transStep CounterOk s₀ acts) (hrun : run transStep s₀ acts = some s)
    (hx : x ∈ s.rolledBack) (hfree : (s.workers w).Quiet)
    (hok₁ : Along transStep CounterOk s (acts₁ ++ [(w, .proceed)]))
    (hrun₁ : run transStep s acts₁ = some s₁) (hdone : SnapshotCompleted s₁ w s₂)
    (hok₂ : Along transStep (fun t a => CounterOk t a ∧ KeepsSnapshot w t a) s₂ acts₂)
    (hrun₂ : run transStep s₂ acts₂ = some s₃) :
    RolledBackHidden s₃ w x ↔ RolledBackShielded s₃ w x := by
  have hinv : RollbackInv s := hinit.rollbackInv.run hok hrun
  obtain ⟨own, snapshot, hheld, hne, hvalid, hhigh, hlow⟩ :=
    snapshot_above hinv hx hfree hok₁ hrun₁ hdone
  obtain ⟨hok₁, hlast⟩ := (along_append hrun₁).mp hok₁
  have hinv₂ : RollbackInv s₂ := (hinv.run hok₁ hrun₁).step hlast.1 hdone.2
  obtain ⟨-, hheld₃⟩ : RollbackInv s₃ ∧ SnapshotHeld (s₃.workers w) own snapshot :=
    run_invariant (I := fun t => RollbackInv t ∧ SnapshotHeld (t.workers w) own snapshot)
      (fun ⟨hinv, hheld⟩ hok hstep =>
        ⟨hinv.step hok.1 hstep, hheld.step hinv.ids hok.2 hstep⟩) ⟨hinv₂, hheld⟩ hok₂ hrun₂
  unfold RolledBackHidden RolledBackShielded
  simp only [hheld₃.visibility, hheld₃.snapshot, hheld₃.currentTransactionID]
  by_cases hmem : x ∈ snapshot.runningXids
  · have hin : ¬ snapshot.CountsAsOver own x := by
      simp [countsAsOver_iff_not_running, hne, visibilitySnapshot_of_mem (hlow x hmem) hmem]
    exact ⟨fun _ => .inl hmem, fun _ h _ => hidden_of_running hin⟩
  · have hover : snapshot.CountsAsOver own x :=
      .inr (visibilitySnapshot_of_not_mem hhigh hmem)
    simp only [hmem, false_or]
    exact forall₂_congr fun h _ => hidden_iff_of_over hvalid hover

/-! ## Concrete schedules -/

/-- `BEGIN; INSERT; ROLLBACK` by worker 1: transaction 1 is rolled back. -/
def insertRollbackSchedule : List (Fin 2 × Call) :=
  startCalls 1 ++ [(1, .beginTransaction), (1, .insertTuple), (1, .abortTransaction),
    (1, .finishTransaction), (1, .proceed)]

/-- Worker 0 starts a transaction and reads both slots for its snapshot. -/
def readSlotsSchedule : List (Fin 2 × Call) :=
  startCalls 0 ++ [(0, .generateSnapshot), (0, .proceed), (0, .proceed)]

/-- The inserted row is visible to the snapshot taken after the rollback. -/
theorem rolledBack_not_hidden :
    ∃ s s₁ s₂ : TransSys 2, TransInit (freshServer 2) ∧
      run transStep (freshServer 2) insertRollbackSchedule = some s ∧ 1 ∈ s.rolledBack ∧
      run transStep s readSlotsSchedule = some s₁ ∧ SnapshotCompleted s₁ 0 s₂ ∧
      (s₂.versions.map fun h => (h.tmin, s₂.visibility 0 h)) = [(1, .tupleVisible)] ∧
      ¬ RolledBackHidden s₂ 0 1 := by
  have hrun : run transStep (freshServer 2) insertRollbackSchedule
      = some (exec transStep (freshServer 2) insertRollbackSchedule) := run_exec (by decide)
  obtain ⟨hrun₁, hstep⟩ := exec_snoc transStep
    (exec transStep (freshServer 2) insertRollbackSchedule) readSlotsSchedule (0, .proceed)
    (by decide)
  refine ⟨_, _, _, freshServer_init 2, hrun, by decide, hrun₁, ⟨by decide, hstep⟩,
    by decide, fun hhidden => ?_⟩
  have hvisible := (hhidden (computeXminTupleHeader 1 TupleHeader.blank) (by decide)).1 rfl
  revert hvisible
  decide

/-- After the rollback, transaction 2 deletes the left row and commits. -/
def cleanUpSchedule : List (Fin 2 × Call) :=
  startCalls 1 ++ [(1, .scanTuple 0), (1, .deleteTuple), (1, .endTransaction),
    (1, .finishTransaction), (1, .proceed)]

/-- Once transaction 2 has deleted the left row, the rollback is hidden. -/
theorem rolledBack_hidden_deleted :
    RolledBackHidden (exec transStep (exec transStep (freshServer 2) insertRollbackSchedule)
      (cleanUpSchedule ++ readSlotsSchedule ++ [(0, .proceed)])) 0 1 := by
  have hrun : run transStep (freshServer 2) insertRollbackSchedule
      = some (exec transStep (freshServer 2) insertRollbackSchedule) := run_exec (by decide)
  obtain ⟨hrun₁, hstep⟩ := exec_snoc transStep
    (exec transStep (freshServer 2) insertRollbackSchedule)
    (cleanUpSchedule ++ readSlotsSchedule) (0, .proceed) (by decide)
  refine (rolledBack_hidden_iff (x := 1) (w := 0) (freshServer_init 2) (by decide) hrun
    (by decide) (quiet_ready (by decide)) (by decide) hrun₁ ⟨by decide, hstep⟩
    (along_nil _) (run_nil _)).mpr (.inr ?_)
  decide

end Toadb
