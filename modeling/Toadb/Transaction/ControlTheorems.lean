/-
Toadb.Transaction.ControlTheorems — what one step of the transaction system
can do, and the invariant of the ids.

`stepEffect` is the only place that looks inside the step function: it
sorts the steps of a worker into seven effects. Every invariant is a case
analysis over these effects.

`IdsOk` is the invariant: an allocated id belongs to one worker until that
worker's `FinishTransaction` sets its slot idle, allocated ids stay below
the next counter, and the highest finished id stays below it too as soon as
some transaction exists. It needs no assumption on the schedule beyond the
64-bit counter not wrapping.
-/
import Toadb.Transaction.Control
import Toadb.Transaction.SnapshotTheorems

namespace Toadb

variable {n : Nat}

/-! ## The transaction of a worker -/

/-- The id a worker's unfinished transaction holds, stored in the slot or not. -/
def Worker.current (k : Worker) : Option Nat :=
  match k.phase with
  | .startFetch => none
  | .startStore xid => some xid
  | .beginStore xid => some xid
  | .beginState => some k.context.transactionID
  | .finishHigh _ => none
  | .ready | .snapshotSlot _ _ _ =>
      if k.context.ts = .idle then none else some k.context.transactionID

/-- No transaction with this id has finished: it is not allocated yet, or a
worker holds it. -/
def TransSys.Unfinished (s : TransSys n) (xid : Nat) : Prop :=
  s.info.nextTransactionId ≤ xid ∨ ∃ j, (s.workers j).current = some xid

/-- The slot state and the thread-local pointer agree with the phase. -/
def Worker.Ok (k : Worker) : Prop :=
  match k.phase with
  | .ready => (k.mine = true ↔ k.context.ts ≠ .idle)
  | .startFetch | .startStore _ => k.mine = true ∧ k.context.ts = .start
  | .beginStore _ | .beginState | .finishHigh _ => k.mine = true ∧ k.context.ts = .idle
  | .snapshotSlot _ _ _ => k.mine = true ∧ k.context.ts ≠ .idle

/-- The worker is neither in the middle of `GetActiveXtids` nor of
`FinishTransaction`. -/
structure Worker.Quiet (k : Worker) : Prop where
  notScanning : ∀ i acc max, k.phase ≠ .snapshotSlot i acc max
  notFinishing : ∀ aborted, k.phase ≠ .finishHigh aborted

@[simp] theorem setWorker_self (s : TransSys n) (w : Fin n) (k : Worker) :
    (s.setWorker w k).workers w = k := by
  simp [TransSys.setWorker]

theorem setWorker_of_ne (s : TransSys n) {w j : Fin n} (k : Worker) (h : j ≠ w) :
    (s.setWorker w k).workers j = s.workers j := by
  simp [TransSys.setWorker, h]

@[simp] theorem setWorker_info (s : TransSys n) (w : Fin n) (k : Worker) :
    (s.setWorker w k).info = s.info := rfl

@[simp] theorem setWorker_versions (s : TransSys n) (w : Fin n) (k : Worker) :
    (s.setWorker w k).versions = s.versions := rfl

@[simp] theorem setWorker_rolledBack (s : TransSys n) (w : Fin n) (k : Worker) :
    (s.setWorker w k).rolledBack = s.rolledBack := rfl

theorem current_ready {k : Worker} (h : k.phase = .ready) :
    k.current = if k.context.ts = .idle then none else some k.context.transactionID := by
  simp [Worker.current, h]

/-! ## What one step does -/

/-- The effects of one step of worker `w`. -/
inductive StepEffect (s : TransSys n) (w : Fin n) (c : Call) : TransSys n → Prop where
  | stay : StepEffect s w c s
  /-- Only the worker itself changes; it keeps its id or gives it up. -/
  | own (k : Worker)
      (hok : k.Ok) (hquiet : k.Quiet)
      (hcur : k.current = none ∨ k.current = (s.workers w).current)
      (hid : k.context.transactionID = (s.workers w).context.transactionID ∨
        (s.workers w).current = some k.context.transactionID)
      (hsnap : k.snapshot = (s.workers w).snapshot)
      (hscanned : k.scanned = none ∨ k.scanned = (s.workers w).scanned ∨
        ∃ v h, k.scanned = some (v, h) ∧ s.versions[v]? = some h) :
      StepEffect s w c (s.setWorker w k)
  /-- `FinishTransaction` sets the slot idle. -/
  | finish (aborted : Bool)
      (hmine : (s.workers w).mine = true)
      (hcur : (s.workers w).current = some (s.workers w).context.transactionID) :
      StepEffect s w c (s.setWorker w
        { (s.workers w).setState .idle with phase := .finishHigh aborted })
  /-- A new id is fetched by a worker that holds none. -/
  | fetch (k : Worker)
      (hok : k.Ok) (hquiet : k.Quiet)
      (hnone : (s.workers w).current = none)
        (hcur : k.current = some s.info.nextTransactionId)
      (hid : k.context.transactionID = (s.workers w).context.transactionID)
      (hsnap : k.snapshot = (s.workers w).snapshot)
      (hscanned : k.scanned = (s.workers w).scanned) :
      StepEffect s w c ({ s with info := (getNewTransactionID s.info).2 }.setWorker w k)
  /-- The highest finished id is raised to the worker's last id. -/
  | raise (k : Worker) (rolledBack : List Nat) (aborted : Bool)
      (hphase : (s.workers w).phase = .finishHigh aborted)
      (hok : k.Ok) (hquiet : k.Quiet)
      (hnone : (s.workers w).current = none) (hcur : k.current = none)
      (hid : k.context.transactionID = (s.workers w).context.transactionID)
      (hsnap : k.snapshot = (s.workers w).snapshot)
      (hscanned : k.scanned = (s.workers w).scanned)
      (hback : rolledBack = s.rolledBack ∨
        rolledBack = (s.workers w).context.transactionID :: s.rolledBack) :
      StepEffect s w c ({ s with
        info := setHighLevelTransaction s.info (s.workers w).context.transactionID
        rolledBack := rolledBack }.setWorker w k)
  /-- A version is added. -/
  | append (tupHeader : TupleHeader) :
      StepEffect s w c { s with versions := s.versions ++ [tupHeader] }
  /-- The scanned version is written back under the worker's own `tmax`. -/
  | stamp (v : Nat) (copy : TupleHeader) (extra : List TupleHeader)
      (hcall : c = .updateTuple ∨ c = .deleteTuple)
      (hready : (s.workers w).phase = .ready) (hmine : (s.workers w).mine = true)
      (hcopy : (s.workers w).scanned = some (v, copy))
      (hok : tupleUpdateSatisfy (s.workers w).context.transactionID copy = .ok)
      (hcur : (s.workers w).current = some (s.workers w).context.transactionID) :
      StepEffect s w c ({ s with
        versions := s.versions.set v
          { copy with cid := 0, tmax := (s.workers w).context.transactionID } ++ extra
        }.setWorker w { s.workers w with scanned := none })
  /-- The upper bound of a snapshot is read. -/
  | scanStart (hphase : (s.workers w).phase = .ready) (hmine : (s.workers w).mine = true) :
      StepEffect s w c (s.setWorker w { s.workers w with
        phase := .snapshotSlot 0
          (activeXtidsInit (some (s.workers w).context.transactionID) (snapshotMax s.info)
            (s.workers w).snapshot.runningXidArr) (snapshotMax s.info) })
  /-- One slot is read for the snapshot. -/
  | scanSlot (i : Fin n) (acc : ActiveXtids) (max : Nat)
      (hphase : (s.workers w).phase = .snapshotSlot i acc max) (hfull : acc.full = false) :
      StepEffect s w c (s.setWorker w { s.workers w with
        phase := .snapshotSlot (i + 1)
          (activeXtidsSlot (some (s.workers w).context.transactionID) max acc
            (s.workers i).context) max })
  /-- The snapshot is complete. -/
  | scanStore (i : Nat) (acc : ActiveXtids) (max : Nat)
      (hphase : (s.workers w).phase = .snapshotSlot i acc max)
      (hdone : n ≤ i ∨ acc.full = true) :
      StepEffect s w c (s.setWorker w { s.workers w with
        snapshot := acc.toSnapshot max
        context := { (s.workers w).context with snapshot := true }
        phase := .ready })

theorem quiet_ready {k : Worker} (h : k.phase = .ready) : k.Quiet := by
  constructor <;> simp [h]

section Calls

variable {s s' : TransSys n} {w : Fin n} {c : Call}

theorem startTransaction_effect (hok : (s.workers w).Ok)
    (hready : (s.workers w).phase = .ready) :
    StepEffect s w c (startTransaction s w) := by
  have hmine : (s.workers w).mine = true ↔ (s.workers w).context.ts ≠ .idle := by
    simpa [Worker.Ok, hready] using hok
  unfold startTransaction
  split
  · exact .stay
  · rename_i hdetached
    have hidle : (s.workers w).context.ts = .idle := by
      by_contra h
      exact hdetached (hmine.mpr h)
    have hts : (s.workers w).attach.context.ts = .idle := by
      simp [Worker.attach, hdetached, hidle]
    rw [if_pos hts]
    refine .own _ ?_ ?_ (.inl rfl) (.inl ?_) ?_ (.inr (.inl ?_))
    · simp [Worker.Ok, Worker.setState, Worker.attach, hdetached]
    · constructor <;> simp
    all_goals simp [Worker.setState, Worker.attach, hdetached]

theorem beginTransaction_effect (hok : (s.workers w).Ok)
    (hready : (s.workers w).phase = .ready) :
    StepEffect s w c (beginTransaction s w) := by
  have hmine : (s.workers w).mine = true ↔ (s.workers w).context.ts ≠ .idle := by
    simpa [Worker.Ok, hready] using hok
  have hattach : (s.workers w).attach.mine = true ∧ (s.workers w).attach.phase = .ready ∧
      (s.workers w).attach.context.ts = (s.workers w).context.ts ∧
      (s.workers w).attach.context.transactionID = (s.workers w).context.transactionID ∧
      (s.workers w).attach.snapshot = (s.workers w).snapshot ∧
      (s.workers w).attach.scanned = (s.workers w).scanned := by
    unfold Worker.attach
    split <;> simp_all
  obtain ⟨hm, hp, hts, hid, hsnap, hcopy⟩ := hattach
  unfold beginTransaction
  simp only [hts]
  -- Outside TS_IDLE and TS_START the slot's state and id are left alone.
  have hkeep : (s.workers w).context.ts ≠ .idle →
      StepEffect s w c (s.setWorker w (s.workers w).attach) := by
    intro hne
    refine .own _ ?_ (quiet_ready hp) (.inr ?_) (.inl hid) hsnap (.inr (.inl hcopy))
    · simp [Worker.Ok, hp, hm, hts, hne]
    · rw [current_ready hp, current_ready hready, hts, hid]
  split
  · rename_i hidle
    refine .fetch _ ?_ ?_ ?_ rfl hid hsnap hcopy
    · simp [Worker.Ok, hm, hts, hidle]
    · constructor <;> simp
    · simp [current_ready hready, hidle]
  · rename_i hstart
    refine .own _ ?_ (quiet_ready hp) (.inr ?_) (.inl hid) hsnap (.inr (.inl hcopy))
    · simp [Worker.Ok, Worker.setState, hp, hm]
    · rw [current_ready (k := (s.workers w).attach.setState .begin) hp, current_ready hready,
        hstart, ← hid]
      simp [Worker.setState]
  · rename_i hne _
    exact hkeep hne

theorem leaveTransaction_effect (ts : TransactionFSMState) (hts : ts ≠ .idle)
    (hready : (s.workers w).phase = .ready) :
    StepEffect s w c (leaveTransaction ts s w) := by
  unfold leaveTransaction
  split
  · exact .stay
  · split
    · exact .stay
    · rename_i hmine hidle
      refine .own _ ?_ (quiet_ready hready) (.inr ?_) (.inl rfl) rfl (.inr (.inl rfl))
      · simpa [Worker.Ok, Worker.setState, hready, hts] using hmine
      · rw [current_ready hready, current_ready (k := (s.workers w).setState ts) hready]
        simp [Worker.setState, hts, hidle]

theorem finishTransaction_effect (hready : (s.workers w).phase = .ready) :
    StepEffect s w c (finishTransaction s w) := by
  unfold finishTransaction
  dsimp only
  split
  · exact .stay
  · rename_i hmine
    have hmine : (s.workers w).mine = true := by simpa using hmine
    split
    · rename_i hts
      exact .finish false hmine (by simp [current_ready hready, hts])
    · rename_i hts
      exact .finish false hmine (by simp [current_ready hready, hts])
    · rename_i hts
      exact .finish true hmine (by simp [current_ready hready, hts])
    · exact .stay

theorem generateSnapshot_effect (hready : (s.workers w).phase = .ready) :
    StepEffect s w c (generateSnapshot s w) := by
  unfold generateSnapshot
  dsimp only
  split
  · exact .stay
  · rename_i hmine
    split
    · exact .stay
    · exact .scanStart hready (by simpa using hmine)

/-- A worker that executes statements holds its stored id. -/
theorem current_of_inStatement {k : Worker} (hready : k.phase = .ready)
    (h : inStatement k = true) :
    k.mine = true ∧ k.context.ts ≠ .idle ∧ k.current = some k.context.transactionID := by
  have hk : k.mine = true ∧ k.context.ts ≠ .idle := by
    simp only [inStatement, Bool.and_eq_true, Bool.or_eq_true, beq_iff_eq] at h
    refine ⟨h.1, ?_⟩
    rcases h.2 with (h | h) | h <;> simp [h]
  exact ⟨hk.1, hk.2, by simp [current_ready hready, hk.2]⟩

theorem insertTuple_effect (h : insertTuple s w = some s') : StepEffect s w c s' := by
  unfold insertTuple at h
  split at h
  · obtain rfl := Option.some.inj h
    exact .append _
  · cases h

theorem scanTuple_effect {v : Nat} (hok : (s.workers w).Ok)
    (hready : (s.workers w).phase = .ready)
    (h : scanTuple v s w = some s') : StepEffect s w c s' := by
  unfold scanTuple at h
  split at h
  · split at h
    · rename_i tupHeader hv
      obtain rfl := Option.some.inj h
      exact .own _ (by simpa [Worker.Ok, hready] using hok) (quiet_ready hready)
        (.inr rfl) (.inl rfl) rfl (.inr (.inr ⟨v, tupHeader, rfl, hv⟩))
    · cases h
  · cases h

theorem stampTuple_effect {update : Bool} (hcall : c = .updateTuple ∨ c = .deleteTuple)
    (hok : (s.workers w).Ok) (hready : (s.workers w).phase = .ready)
    (h : stampTuple update s w = some s') : StepEffect s w c s' := by
  unfold stampTuple at h
  split at h
  · rename_i hin
    obtain ⟨hmine, -, hcur⟩ := current_of_inStatement hready hin
    have hid : (s.workers w).currentTransactionID = (s.workers w).context.transactionID := by
      simp [Worker.currentTransactionID, hmine]
    split at h
    · rename_i v copy hcopy
      dsimp only at h
      rw [hid] at h
      split at h
      · rename_i hsat
        obtain rfl := Option.some.inj h
        exact .stamp v copy _ hcall hready hmine hcopy hsat hcur
      · obtain rfl := Option.some.inj h
        exact .own _ (by simpa [Worker.Ok, hready] using hok) (quiet_ready hready)
          (.inr rfl) (.inl rfl) rfl (.inl rfl)
    · cases h
  · cases h

theorem proceed_effect (hok : (s.workers w).Ok) (h : proceed s w = some s') :
    StepEffect s w c s' := by
  unfold proceed at h
  dsimp only at h
  split at h
  case h_1 => cases h
  case h_2 hphase =>
    obtain rfl := Option.some.inj h
    have hok : (s.workers w).mine = true ∧ (s.workers w).context.ts = .start := by
      simpa [Worker.Ok, hphase] using hok
    exact .fetch _ hok (by constructor <;> simp) (by simp [Worker.current, hphase])
      rfl rfl rfl rfl
  case h_3 xid hphase =>
    obtain rfl := Option.some.inj h
    have hok : (s.workers w).mine = true ∧ (s.workers w).context.ts = .start := by
      simpa [Worker.Ok, hphase] using hok
    have hcur : (s.workers w).current = some xid := by simp [Worker.current, hphase]
    refine .own _ ?_ (by constructor <;> simp) (.inr ?_) (.inr hcur) rfl (.inr (.inl rfl))
    · simp [Worker.Ok, Worker.setXid, hok]
    · rw [hcur, current_ready rfl]
      simp [Worker.setXid, hok.2]
  case h_4 xid hphase =>
    obtain rfl := Option.some.inj h
    have hok : (s.workers w).mine = true ∧ (s.workers w).context.ts = .idle := by
      simpa [Worker.Ok, hphase] using hok
    have hcur : (s.workers w).current = some xid := by simp [Worker.current, hphase]
    exact .own _ hok (by constructor <;> simp) (.inr hcur.symm) (.inr hcur) rfl
      (.inr (.inl rfl))
  case h_5 hphase =>
    obtain rfl := Option.some.inj h
    have hok : (s.workers w).mine = true ∧ (s.workers w).context.ts = .idle := by
      simpa [Worker.Ok, hphase] using hok
    refine .own _ ?_ (by constructor <;> simp) (.inr ?_) (.inl rfl) rfl (.inr (.inl rfl))
    · simp [Worker.Ok, Worker.setState, hok]
    · rw [current_ready rfl]
      simp [Worker.setState, Worker.current, hphase]
  case h_6 aborted hphase =>
    obtain rfl := Option.some.inj h
    have hok : (s.workers w).mine = true ∧ (s.workers w).context.ts = .idle := by
      simpa [Worker.Ok, hphase] using hok
    refine .raise _ _ aborted hphase ?_ (by constructor <;> simp) ?_ ?_ rfl rfl rfl ?_
    · simp [Worker.Ok, hok]
    · simp [Worker.current, hphase]
    · rw [current_ready rfl]
      simp [hok.2]
    · cases aborted
      · exact .inl rfl
      · exact .inr rfl
  case h_7 i acc max hphase =>
    split at h
    · rename_i hi
      obtain rfl := Option.some.inj h
      exact .scanSlot ⟨i, hi.1⟩ acc max hphase hi.2
    · rename_i hi
      obtain rfl := Option.some.inj h
      refine .scanStore i acc max hphase ?_
      by_cases hlt : i < n
      · exact .inr (by simpa [hlt] using hi)
      · exact .inl (by omega)

/-- Every step has one of the effects. -/
theorem stepEffect (hok : (s.workers w).Ok) (h : transStep s (w, c) = some s') :
    StepEffect s w c s' := by
  cases c with
  | proceed => exact proceed_effect hok h
  | startTransaction | beginTransaction | endTransaction | abortTransaction
  | finishTransaction | generateSnapshot | insertTuple | scanTuple | updateTuple
  | deleteTuple =>
    simp only [transStep] at h
    split at h
    case isFalse => cases h
    case isTrue hready =>
      first
      | obtain rfl := Option.some.inj h
        first
        | exact startTransaction_effect hok hready
        | exact beginTransaction_effect hok hready
        | exact leaveTransaction_effect .commit (by simp) hready
        | exact leaveTransaction_effect .abort (by simp) hready
        | exact finishTransaction_effect hready
        | exact generateSnapshot_effect hready
      | exact insertTuple_effect h
      | exact scanTuple_effect hok hready h
      | exact stampTuple_effect (.inl rfl) hok hready h
      | exact stampTuple_effect (.inr rfl) hok hready h

end Calls

/-! ## The ids -/

/-- The invariant of the allocated ids. -/
structure IdsOk (s : TransSys n) : Prop where
  ok : ∀ j, (s.workers j).Ok
  lt_next : ∀ j x, (s.workers j).current = some x → x < s.info.nextTransactionId
  unique : ∀ i j x, (s.workers i).current = some x → (s.workers j).current = some x → i = j
  slot_lt : ∀ j, (s.workers j).context.transactionID < s.info.nextTransactionId
  /-- Right after a restart the two counters may be equal; from the first
  allocated id on the high level is strictly smaller. -/
  high : s.info.highLevelXtid < s.info.nextTransactionId ∨
    (s.info.highLevelXtid = s.info.nextTransactionId ∧ ∀ j, (s.workers j).current = none)

/-- The counter does not wrap around at this step. -/
def CounterOk (s : TransSys n) (_a : Fin n × Call) : Prop :=
  s.info.nextTransactionId + 1 < xtidModulus

instance (s : TransSys n) (a : Fin n × Call) : Decidable (CounterOk s a) := by
  unfold CounterOk; infer_instance

theorem getNewTransactionID_next {s : TransSys n} {a : Fin n × Call} (h : CounterOk s a) :
    (getNewTransactionID s.info).2.nextTransactionId = s.info.nextTransactionId + 1 := by
  simpa [getNewTransactionID] using Nat.mod_eq_of_lt h

theorem setHighLevelTransaction_high (info : TransactionIDInfo) (xid : Nat) :
    (setHighLevelTransaction info xid).highLevelXtid = info.highLevelXtid ∨
      (setHighLevelTransaction info xid).highLevelXtid = xid := by
  unfold setHighLevelTransaction
  split
  · exact .inl rfl
  · split
    · exact .inl rfl
    · exact .inr rfl

theorem setHighLevelTransaction_next (info : TransactionIDInfo) (xid : Nat) :
    (setHighLevelTransaction info xid).nextTransactionId = info.nextTransactionId := by
  unfold setHighLevelTransaction
  split
  · rfl
  · split <;> rfl

theorem setHighLevelTransaction_ge (info : TransactionIDInfo) (xid : Nat) :
    info.highLevelXtid ≤ (setHighLevelTransaction info xid).highLevelXtid ∧
      (xid ≠ invalidXtid → xid ≤ (setHighLevelTransaction info xid).highLevelXtid) := by
  unfold setHighLevelTransaction
  split
  · rename_i h
    exact ⟨Nat.le_refl _, fun hne => absurd ((xtidIsInvalid_iff xid).mp h) hne⟩
  · split
    · rename_i h
      exact ⟨Nat.le_refl _, fun _ => h⟩
    · rename_i h
      exact ⟨by simp only; omega, fun _ => Nat.le_refl _⟩

/-- A worker's update keeps the ids in order when the worker keeps its id,
gives it up, or takes the next one. -/
theorem IdsOk.update {s s' : TransSys n} {w : Fin n} {k : Worker} (h : IdsOk s)
    (hworkers : s'.workers = Function.update s.workers w k) (hok : k.Ok)
    (hnext : s.info.nextTransactionId ≤ s'.info.nextTransactionId)
    (hcur : k.current = none ∨ k.current = (s.workers w).current ∨
      (k.current = some s.info.nextTransactionId ∧
        s.info.nextTransactionId < s'.info.nextTransactionId))
    (hid : k.context.transactionID < s'.info.nextTransactionId)
    (hhigh : s'.info.highLevelXtid < s'.info.nextTransactionId ∨
      (s'.info.highLevelXtid = s'.info.nextTransactionId ∧
        ∀ j, (s'.workers j).current = none)) : IdsOk s' := by
  have hself : s'.workers w = k := by simp [hworkers]
  have hother : ∀ j, j ≠ w → s'.workers j = s.workers j := by
    intro j hj; simp [hworkers, hj]
  -- The worker's new id is fresh, or it was already its own.
  have hnew : ∀ x, k.current = some x → x < s'.info.nextTransactionId ∧
      ∀ j, j ≠ w → (s.workers j).current ≠ some x := by
    intro x hx
    rcases hcur with hcur | hcur | ⟨hcur, hlt⟩
    · rw [hcur] at hx; cases hx
    · rw [hcur] at hx
      exact ⟨Nat.lt_of_lt_of_le (h.lt_next w x hx) hnext,
        fun j hj hjx => hj (h.unique j w x hjx hx)⟩
    · obtain rfl : s.info.nextTransactionId = x := by simpa [hcur] using hx
      exact ⟨hlt, fun j _ hjx => Nat.lt_irrefl _ (h.lt_next j _ hjx)⟩
  refine ⟨?_, ?_, ?_, ?_, hhigh⟩
  · intro j
    by_cases hj : j = w
    · rw [hj, hself]; exact hok
    · rw [hother j hj]; exact h.ok j
  · intro j x hx
    by_cases hj : j = w
    · rw [hj, hself] at hx; exact (hnew x hx).1
    · rw [hother j hj] at hx; exact Nat.lt_of_lt_of_le (h.lt_next j x hx) hnext
  · intro i j x hi hj
    by_cases hiw : i = w
    · by_cases hjw : j = w
      · rw [hiw, hjw]
      · rw [hiw, hself] at hi
        rw [hother j hjw] at hj
        exact absurd hj ((hnew x hi).2 j hjw)
    · rw [hother i hiw] at hi
      by_cases hjw : j = w
      · rw [hjw, hself] at hj
        exact absurd hi ((hnew x hj).2 i hiw)
      · rw [hother j hjw] at hj
        exact h.unique i j x hi hj
  · intro j
    by_cases hj : j = w
    · rw [hj, hself]; exact hid
    · rw [hother j hj]; exact Nat.lt_of_lt_of_le (h.slot_lt j) hnext

/-- The high-level clause survives an update that fetches no id. -/
theorem IdsOk.high_update {s : TransSys n} {w : Fin n} {k : Worker} (h : IdsOk s)
    (hcur : k.current = none ∨ k.current = (s.workers w).current) :
    s.info.highLevelXtid < s.info.nextTransactionId ∨
      (s.info.highLevelXtid = s.info.nextTransactionId ∧
        ∀ j, ((s.setWorker w k).workers j).current = none) := by
  rcases h.high with hlt | ⟨heq, hnone⟩
  · exact .inl hlt
  · refine .inr ⟨heq, fun j => ?_⟩
    by_cases hj : j = w
    · rw [hj, setWorker_self]
      rcases hcur with hcur | hcur
      · exact hcur
      · rw [hcur, hnone w]
    · rw [setWorker_of_ne s k hj, hnone j]

/-- One step keeps the ids in order. -/
theorem IdsOk.step {s s' : TransSys n} {a : Fin n × Call} (h : IdsOk s) (hc : CounterOk s a)
    (hstep : transStep s a = some s') : IdsOk s' := by
  have hnext := getNewTransactionID_next hc
  -- A worker overwritten by one with the same id, counters untouched.
  have hsame : ∀ k : Worker, k.Ok →
      (k.current = none ∨ k.current = (s.workers a.1).current) →
      k.context.transactionID < s.info.nextTransactionId → IdsOk (s.setWorker a.1 k) :=
    fun k hok hcur hid => h.update rfl hok (Nat.le_refl _)
      (hcur.imp_right .inl) hid (h.high_update hcur)
  cases stepEffect (h.ok a.1) hstep with
  | stay => exact h
  | own k hok hquiet hcur hid hsnap hscanned =>
    refine hsame k hok hcur ?_
    rcases hid with hid | hid
    · rw [hid]; exact h.slot_lt a.1
    · exact h.lt_next a.1 _ hid
  | finish aborted hmine hcur =>
    exact hsame _ ⟨hmine, rfl⟩ (.inl rfl) (h.slot_lt a.1)
  | fetch k hok hquiet hnone hcur hid hsnap hscanned =>
    refine h.update rfl hok ?_ (.inr (.inr ⟨hcur, ?_⟩)) ?_ (.inl ?_)
    · simp only [setWorker_info, hnext]; omega
    · simp only [setWorker_info, hnext]; omega
    · simp only [setWorker_info, hnext, hid]
      have := h.slot_lt a.1
      omega
    · have hle : s.info.highLevelXtid ≤ s.info.nextTransactionId := by
        rcases h.high with hlt | ⟨heq, -⟩ <;> omega
      simp only [setWorker_info, hnext]
      exact Nat.lt_succ_of_le hle
  | raise k rolledBack aborted hphase hok hquiet hnone hcur hid hsnap hscanned hback =>
    have hslot := h.slot_lt a.1
    refine h.update rfl hok ?_ (.inl hcur) ?_ ?_
    · simp [setHighLevelTransaction_next]
    · simpa [setHighLevelTransaction_next, hid] using hslot
    · have hhigh := setHighLevelTransaction_high s.info (s.workers a.1).context.transactionID
      have hge := (setHighLevelTransaction_ge s.info (s.workers a.1).context.transactionID).1
      simp only [setWorker_info, setHighLevelTransaction_next]
      rcases h.high_update (k := k) (.inl hcur) with hlt | ⟨heq, hnone⟩
      · exact .inl (by omega)
      · by_cases hsame : (setHighLevelTransaction s.info
            (s.workers a.1).context.transactionID).highLevelXtid = s.info.highLevelXtid
        · exact .inr ⟨hsame.trans heq, hnone⟩
        · exact .inl (by omega)
  | append => exact ⟨h.ok, h.lt_next, h.unique, h.slot_lt, h.high⟩
  | stamp v copy extra hcall hready hmine hcopy hok hcur =>
    exact h.update rfl (h.ok a.1) (Nat.le_refl _) (.inr (.inl rfl)) (h.slot_lt a.1)
      (h.high_update (.inr rfl))
  | scanStart hphase hmine =>
    have hok := h.ok a.1
    have hne : (s.workers a.1).context.ts ≠ .idle := by
      simpa [Worker.Ok, hphase, hmine] using hok
    refine hsame _ ⟨hmine, hne⟩ (.inr ?_) (h.slot_lt a.1)
    rw [current_ready hphase]; rfl
  | scanSlot i acc max hphase hfull =>
    have hok := h.ok a.1
    simp only [Worker.Ok, hphase] at hok
    refine hsame _ hok (.inr ?_) (h.slot_lt a.1)
    simp [Worker.current, hphase]
  | scanStore i acc max hphase hdone =>
    have hok := h.ok a.1
    simp only [Worker.Ok, hphase] at hok
    refine hsame _ ?_ (.inr ?_) (h.slot_lt a.1)
    · simp [Worker.Ok, hok]
    · simp [Worker.current, hphase]

/-- Other workers are untouched by a step of a worker whose slot and phase agree. -/
theorem transStep_other {s s' : TransSys n} {w : Fin n} {c : Call} (hok : (s.workers w).Ok)
    (hstep : transStep s (w, c) = some s') {j : Fin n} (hj : j ≠ w) :
    s'.workers j = s.workers j := by
  cases stepEffect hok hstep with
  | stay | append => rfl
  | own | finish | fetch | raise | stamp | scanStart | scanSlot | scanStore =>
    exact setWorker_of_ne _ _ hj

theorem step_other {s s' : TransSys n} {a : Fin n × Call} (h : IdsOk s)
    (hstep : transStep s a = some s') {j : Fin n} (hj : j ≠ a.1) :
    s'.workers j = s.workers j :=
  transStep_other (h.ok a.1) hstep hj

/-- How a worker can come to be inside `GetActiveXtids`: it was there already,
it has just read the upper bound, or it has read one more slot. -/
theorem scanning_step {s s' : TransSys n} {a : Fin n × Call} (h : IdsOk s)
    (hstep : transStep s a = some s') {w : Fin n} {i : Nat} {acc : ActiveXtids} {max : Nat}
    (hphase : (s'.workers w).phase = .snapshotSlot i acc max) :
    (s.workers w).phase = .snapshotSlot i acc max ∨
    (w = a.1 ∧ (s.workers w).phase = .ready ∧ (s.workers w).mine = true ∧ i = 0 ∧
      max = snapshotMax s.info ∧ acc = activeXtidsInit
        (some (s.workers w).context.transactionID) max (s.workers w).snapshot.runningXidArr) ∨
    (w = a.1 ∧ ∃ (j : Fin n) (acc₀ : ActiveXtids),
      (s.workers w).phase = .snapshotSlot j acc₀ max ∧ i = j + 1 ∧
      acc = activeXtidsSlot (some (s.workers w).context.transactionID) max acc₀
        (s.workers j).context) := by
  by_cases hw : w = a.1
  case neg =>
    rw [step_other h hstep hw] at hphase
    exact .inl hphase
  subst hw
  cases stepEffect (h.ok a.1) hstep with
  | stay | append => exact .inl hphase
  | own k _ hquiet | fetch k _ hquiet | raise k _ _ _ _ hquiet =>
    rw [setWorker_self] at hphase
    exact absurd hphase (hquiet.notScanning i acc max)
  | finish => rw [setWorker_self] at hphase; cases hphase
  | stamp v copy extra hcall hready =>
    rw [setWorker_self] at hphase
    rw [hready] at hphase
    cases hphase
  | scanStart hready hmine =>
    rw [setWorker_self] at hphase
    obtain ⟨rfl, rfl, rfl⟩ := Phase.snapshotSlot.inj hphase
    exact .inr (.inl ⟨rfl, hready, hmine, rfl, rfl, rfl⟩)
  | scanSlot j acc₀ max₀ hold =>
    rw [setWorker_self] at hphase
    obtain ⟨rfl, rfl, rfl⟩ := Phase.snapshotSlot.inj hphase
    exact .inr (.inr ⟨rfl, j, acc₀, hold, rfl, rfl⟩)
  | scanStore => rw [setWorker_self] at hphase; cases hphase

/-- Without wrap-around the upper bound of a snapshot is one above the high level. -/
theorem snapshotMax_eq {s : TransSys n} {a : Fin n × Call} (h : IdsOk s)
    (hc : CounterOk s a) :
    snapshotMax s.info = s.info.highLevelXtid + 1 := by
  have hle : s.info.highLevelXtid ≤ s.info.nextTransactionId := by
    rcases h.high with hlt | ⟨heq, -⟩ <;> omega
  exact Nat.mod_eq_of_lt (by unfold CounterOk at hc; omega)

/-- The upper bound of a snapshot is at most the next id, once the worker has
an id of its own. -/
theorem snapshotMax_le {s : TransSys n} {a : Fin n × Call} (h : IdsOk s) (hc : CounterOk s a)
    {w : Fin n} {x : Nat} (hx : (s.workers w).current = some x) :
    snapshotMax s.info ≤ s.info.nextTransactionId := by
  rw [snapshotMax_eq h hc]
  rcases h.high with hlt | ⟨-, hnone⟩
  · exact hlt
  · rw [hnone w] at hx
    cases hx

/-- A step makes no id current but its own or one at least the next counter,
and the counter never goes down. -/
theorem step_current {s s' : TransSys n} {a : Fin n × Call} (h : IdsOk s) (hc : CounterOk s a)
    (hstep : transStep s a = some s') :
    s.info.nextTransactionId ≤ s'.info.nextTransactionId ∧
      ∀ j x, (s'.workers j).current = some x →
        (s.workers j).current = some x ∨ s.info.nextTransactionId ≤ x := by
  have hnext := getNewTransactionID_next hc
  have hself : ∀ j x, (s'.workers j).current = some x → j ≠ a.1 →
      (s.workers j).current = some x := fun j x hx hj => by
    rwa [step_other h hstep hj] at hx
  have hlocal : (∀ x, (s'.workers a.1).current = some x →
        (s.workers a.1).current = some x ∨ s.info.nextTransactionId ≤ x) →
      ∀ j x, (s'.workers j).current = some x →
        (s.workers j).current = some x ∨ s.info.nextTransactionId ≤ x := by
    intro hw j x hx
    by_cases hj : j = a.1
    · rw [hj] at hx ⊢; exact hw x hx
    · exact .inl (hself j x hx hj)
  cases stepEffect (h.ok a.1) hstep with
  | stay => exact ⟨Nat.le_refl _, fun j x hx => .inl hx⟩
  | own k hok hquiet hcur hid hsnap hscanned =>
    refine ⟨Nat.le_refl _, hlocal fun x hx => ?_⟩
    rw [setWorker_self] at hx
    rcases hcur with hcur | hcur
    · rw [hcur] at hx; cases hx
    · exact .inl (hcur ▸ hx)
  | finish aborted hmine hcur =>
    refine ⟨Nat.le_refl _, hlocal fun x hx => ?_⟩
    rw [setWorker_self] at hx
    cases hx
  | fetch k hok hquiet hnone hcur hid hsnap hscanned =>
    refine ⟨by simp only [setWorker_info, hnext]; omega, hlocal fun x hx => .inr ?_⟩
    rw [setWorker_self, hcur] at hx
    exact Nat.le_of_eq (Option.some.inj hx)
  | raise k rolledBack aborted hphase hok hquiet hnone hcur hid hsnap hscanned hback =>
    refine ⟨by simp [setHighLevelTransaction_next], hlocal fun x hx => ?_⟩
    rw [setWorker_self, hcur] at hx
    cases hx
  | append => exact ⟨Nat.le_refl _, fun j x hx => .inl hx⟩
  | stamp v copy extra hcall hready hmine hcopy hok hcur =>
    refine ⟨Nat.le_refl _, hlocal fun x hx => .inl ?_⟩
    rw [setWorker_self] at hx
    exact hx
  | scanStart hphase hmine =>
    refine ⟨Nat.le_refl _, hlocal fun x hx => .inl ?_⟩
    rw [setWorker_self] at hx
    rwa [current_ready hphase]
  | scanSlot i acc max hphase hfull =>
    refine ⟨Nat.le_refl _, hlocal fun x hx => .inl ?_⟩
    rw [setWorker_self] at hx
    simpa [Worker.current, hphase] using hx
  | scanStore i acc max hphase hdone =>
    refine ⟨Nat.le_refl _, hlocal fun x hx => .inl ?_⟩
    rw [setWorker_self] at hx
    simpa [Worker.current, hphase] using hx

/-- A transaction that is unfinished after a step was unfinished before it. -/
theorem step_unfinished {s s' : TransSys n} {a : Fin n × Call} (h : IdsOk s)
    (hc : CounterOk s a) (hstep : transStep s a = some s') {x : Nat}
    (hx : s'.Unfinished x) : s.Unfinished x := by
  obtain ⟨hnext, hcur⟩ := step_current h hc hstep
  rcases hx with hx | ⟨j, hj⟩
  · exact .inl (Nat.le_trans hnext hx)
  · rcases hcur j x hj with hj | hx
    · exact .inr ⟨j, hj⟩
    · exact .inl hx

/-- What a step does to the counters: an id is fetched, or the high level is raised, but not
to the next id. -/
theorem step_counters {s s' : TransSys n} {a : Fin n × Call} (h : IdsOk s)
    (hc : CounterOk s a) (hstep : transStep s a = some s') :
    (s'.info.nextTransactionId = s.info.nextTransactionId + 1 ∧
        s'.info.highLevelXtid = s.info.highLevelXtid) ∨
      (s'.info.nextTransactionId = s.info.nextTransactionId ∧
        (s'.info.highLevelXtid = s.info.highLevelXtid ∨
          (s.info.highLevelXtid < s'.info.highLevelXtid ∧
            s'.info.highLevelXtid < s'.info.nextTransactionId))) := by
  cases stepEffect (h.ok a.1) hstep with
  | fetch => exact .inl ⟨getNewTransactionID_next hc, rfl⟩
  | raise k =>
    have hslot := h.slot_lt a.1
    have hge := (setHighLevelTransaction_ge s.info (s.workers a.1).context.transactionID).1
    refine .inr ⟨setHighLevelTransaction_next .., ?_⟩
    simp only [setWorker_info, setHighLevelTransaction_next]
    rcases setHighLevelTransaction_high s.info
      (s.workers a.1).context.transactionID with heq | heq
    · exact .inl heq
    · omega
  | stay | own | finish | append | stamp | scanStart | scanSlot | scanStore =>
    exact .inr ⟨rfl, .inl rfl⟩

/-- Workers without a transaction. -/
theorem idsOk_of_idle {s : TransSys n} (hidle : ∀ w, (s.workers w).mine = false ∧
      (s.workers w).context = ⟨.idle, 0, false⟩ ∧ (s.workers w).phase = .ready)
    (hpos : 0 < s.info.nextTransactionId)
    (hhigh : s.info.highLevelXtid ≤ s.info.nextTransactionId) :
    IdsOk s := by
  have hcur : ∀ j, (s.workers j).current = none := by
    intro j
    obtain ⟨-, hctx, hphase⟩ := hidle j
    simp [current_ready hphase, hctx]
  refine ⟨?_, ?_, ?_, ?_, ?_⟩
  · intro j
    obtain ⟨hmine, hctx, hphase⟩ := hidle j
    simp [Worker.Ok, hphase, hmine, hctx]
  · intro j x hx
    rw [hcur j] at hx
    cases hx
  · intro i j x hx
    rw [hcur i] at hx
    cases hx
  · intro j
    rw [(hidle j).2.1]
    exact hpos
  · rcases Nat.lt_or_eq_of_le hhigh with hlt | heq
    · exact .inl hlt
    · exact .inr ⟨heq, hcur⟩

theorem TransInit.idsOk {s : TransSys n} (h : TransInit s) : IdsOk s := by
  refine idsOk_of_idle (fun w => ?_) h.next_pos h.high_le
  obtain ⟨hmine, hctx, hphase, -⟩ := h.detached w
  exact ⟨hmine, hctx, hphase⟩

end Toadb
