/-
Toadb.Portal.SessionTheorems — the transaction of a worker through the
commands of its sessions.

`TransStatus` says what the transaction of a worker is for the rest of its
script: there is none, it is started for the next statement, its snapshot is
taken, an explicit one is open, it ends at the next `FinishTransaction`. A
script that `Ends` from a status executes every statement under an id and a
snapshot, and leaves the worker without a transaction or inside an explicit
one (`toadMainEntry_ends`).

`Serves` ties the status to the worker. It is kept by every step
(`serves_step`), up to the sessions of the id and the snapshot of an
explicit transaction (`strict`), which a client takes over that comes after
one gone without COMMIT or ROLLBACK. `sessions_isolated_iff` says so for
whole runs.
-/
import Toadb.Portal.ToadMain
import Toadb.Transaction.ControlTheorems

namespace Toadb

open Transition

variable {n : Nat}

/-! ## The status of a script -/

/-- What the transaction of a worker is for the rest of its command. -/
inductive TransStatus where
  | closed | started | ready | opened | ending
  deriving DecidableEq, Repr

/-- The status after a step, none where the step has no transaction to work on. -/
def TransStatus.after : TransStatus → EntryStep → Option TransStatus
  | .closed, .startTransaction | .started, .startTransaction => some .started
  | .opened, .startTransaction => some .opened
  | .started, .generateSnapshot => some .ready
  | .opened, .generateSnapshot => some .opened
  | .ready, .execute .begin => some .opened
  | .ready, .execute _ => some .ending
  | .opened, .execute .commit | .opened, .execute .rollback => some .ending
  | .opened, .execute _ => some .opened
  | .opened, .finishTransaction => some .opened
  | .closed, .finishTransaction | .started, .finishTransaction | .ending,
      .finishTransaction =>
      some .closed
  | _, .startTransaction | _, .generateSnapshot | _, .execute _ | _, .finishTransaction =>
    none
  | status, _ => some status

/-- The script can be followed from the status, and ends without a transaction or inside an
explicit one. -/
def TransStatus.Ends : TransStatus → List EntryStep → Prop
  | status, [] => status = .closed ∨ status = .opened
  | status, step :: rest => ∃ next, status.after step = some next ∧ next.Ends rest

theorem ends_cons {status next : TransStatus} {step : EntryStep} {rest : List EntryStep}
    (h : status.after step = some next) (hrest : next.Ends rest) :
    status.Ends (step :: rest) :=
  ⟨next, h, hrest⟩

/-- One statement, from any status in which the loop over the query trees starts a turn. -/
theorem executorMain_ends {status : TransStatus} {kind : StatementKind}
    {rest : List EntryStep} (h : status = .closed ∨ status = .started ∨ status = .opened)
    (hclosed : TransStatus.closed.Ends rest) (hopened : TransStatus.opened.Ends rest) :
    status.Ends (queryPlan ++ [.startTransaction] ++ executorMain kind ++
      [.finishTransaction] ++ rest) := by
  have hready : TransStatus.ready.Ends
      (.execute kind :: .switchContext :: .finishTransaction :: rest) := by
    cases kind with
    | begin => exact ends_cons rfl (ends_cons rfl (ends_cons rfl hopened))
    | commit | rollback | other => exact ends_cons rfl (ends_cons rfl (ends_cons rfl hclosed))
  have hstarted : TransStatus.started.Ends
      (executorMain kind ++ [.finishTransaction] ++ rest) :=
    ends_cons rfl (ends_cons rfl hready)
  have hexplicit : TransStatus.opened.Ends
      (executorMain kind ++ [.finishTransaction] ++ rest) := by
    refine ends_cons rfl (ends_cons rfl ?_)
    cases kind with
    | commit | rollback => exact ends_cons rfl (ends_cons rfl (ends_cons rfl hclosed))
    | begin | other => exact ends_cons rfl (ends_cons rfl (ends_cons rfl hopened))
  obtain rfl | rfl | rfl := h
  · exact ends_cons rfl (ends_cons rfl (ends_cons rfl hstarted))
  · exact ends_cons rfl (ends_cons rfl (ends_cons rfl hstarted))
  · exact ends_cons rfl (ends_cons rfl (ends_cons rfl hexplicit))

/-- `ENDRET`. -/
theorem endret_ends {status : TransStatus}
    (h : status = .closed ∨ status = .started ∨ status = .opened) :
    status.Ends [.deleteContext, .finishTransaction] := by
  obtain rfl | rfl | rfl := h
  · exact ends_cons rfl (ends_cons rfl (.inl rfl))
  · exact ends_cons rfl (ends_cons rfl (.inl rfl))
  · exact ends_cons rfl (ends_cons rfl (.inr rfl))

/-- The loop over the query trees, with what `ToadMainEntry` does after it. -/
theorem executeQueries_ends (trees : List SubParserTree) :
    ∀ {status : TransStatus}, status = .closed ∨ status = .started ∨ status = .opened →
      status.Ends (executeQueries trees ++ [.deleteContext, .finishTransaction]) := by
  induction trees with
  | nil => exact endret_ends
  | cons node rest ih =>
    intro status h
    unfold executeQueries
    split
    case isTrue =>
      rw [List.append_assoc]
      exact executorMain_ends h (ih (.inl rfl)) (ih (.inr (.inr rfl)))
    case isFalse =>
      obtain rfl | rfl | rfl := h
      · exact ends_cons rfl (ends_cons rfl (endret_ends (.inl rfl)))
      · exact ends_cons rfl (ends_cons rfl (endret_ends (.inr (.inl rfl))))
      · exact ends_cons rfl (ends_cons rfl (endret_ends (.inr (.inr rfl))))

/-- Every command can be followed, whatever its outcome. -/
theorem toadMainEntry_ends (query : ParserTree) {status : TransStatus}
    (h : status = .closed ∨ status = .opened) : status.Ends (toadMainEntry query) := by
  have hphases : ∀ {status : TransStatus}, status = .started ∨ status = .opened →
      status.Ends (queryPhases query ++ [.deleteContext, .finishTransaction]) := by
    intro status h
    have hend := endret_ends (.inr h)
    cases query with
    | none => exact hend
    | some trees =>
      have hloop := executeQueries_ends trees (.inr h)
      simp only [queryPhases, queryAnalyzeAndRewrite]
      by_cases hall : trees.all (·.transformed) = true
      · rw [if_pos hall, if_pos hall]
        obtain rfl | rfl := h
        · exact ends_cons rfl (ends_cons rfl hloop)
        · exact ends_cons rfl (ends_cons rfl hloop)
      · rw [if_neg hall, if_neg hall]
        obtain rfl | rfl := h
        · exact ends_cons rfl hend
        · exact ends_cons rfl hend
  unfold toadMainEntry
  rw [List.append_assoc]
  obtain rfl | rfl := h
  · exact ends_cons rfl (ends_cons rfl (hphases (.inl rfl)))
  · exact ends_cons rfl (ends_cons rfl (hphases (.inr rfl)))

/-! ## The worker in a status -/

/-- The worker is inside `GetActiveXtids`. -/
def Worker.Scanning (k : Worker) : Prop := ∃ i acc max, k.phase = .snapshotSlot i acc max

/-- The id last fetched is of this session, and no statement has run under it. -/
def ServTask.FreshXid (x : ServTask) : Prop :=
  x.xidSession = x.session ∧ ∀ r ∈ x.executed, r.xid < x.xids

/-- The same for the snapshot last taken. -/
def ServTask.FreshSnapshot (x : ServTask) : Prop :=
  x.snapshotSession = some x.session ∧ ∀ r ∈ x.executed, r.snapshot < x.snapshots

/-- Only statements of an explicit transaction have run under the id and the snapshot at
hand. -/
def ServTask.ExplicitOnly (x : ServTask) : Prop :=
  ∀ r ∈ x.executed, r.explicit = false → r.xid < x.xids ∧ r.snapshot < x.snapshots

/-- The worker has the transaction that its status says. An explicit one is, when `strict`, of
the session served. -/
def Fits (strict : Prop) (k : Worker) (x : ServTask) : TransStatus → Prop
  | .closed => k.context.ts = .idle ∧
      (k.phase = .ready ∧ k.mine = false ∨ k.mine = true ∧ ∃ aborted,
        k.phase = .finishHigh aborted)
  | .started => k.mine = true ∧ k.context.ts = .start ∧ k.context.snapshot = false ∧
      (k.phase = .startFetch ∨ (k.phase = .ready ∨ ∃ xid, k.phase = .startStore xid) ∧
        x.FreshXid)
  | .ready => k.mine = true ∧ k.context.ts = .start ∧ x.FreshXid ∧
      (k.Scanning ∨ k.phase = .ready ∧ k.context.snapshot = true ∧ x.FreshSnapshot)
  | .opened => k.mine = true ∧ k.context.ts = .begin ∧ x.ExplicitOnly ∧
      (strict → x.xidSession = x.session) ∧
      (k.Scanning ∨ k.phase = .ready ∧ k.context.snapshot = true ∧
        (strict → x.snapshotSession = some x.session))
  | .ending => k.mine = true ∧ k.phase = .ready ∧
      (k.context.ts = .start ∨ k.context.ts = .commit ∨ k.context.ts = .abort)

/-- What a status says of the thread is about its history alone. -/
theorem fits_thread {strict : Prop} {k : Worker} {x : ServTask} {status : TransStatus}
    (h : Fits strict k x status) (connected : Bool) (todo : List EntryStep)
    (frame : EntryFrame) :
    Fits strict k { x with connected := connected, todo := todo, frame := frame } status := by
  cases status <;> exact h

theorem not_scanning_of_ready {k : Worker} (h : k.phase = .ready) : ¬ k.Scanning := by
  rintro ⟨i, acc, max, hphase⟩
  rw [h] at hphase
  cases hphase

/-- In every status the slot and the phase agree. -/
theorem fits_ok {strict : Prop} {k : Worker} {x : ServTask} {status : TransStatus}
    (h : Fits strict k x status) : k.Ok := by
  unfold Worker.Ok
  cases status with
  | closed =>
    obtain ⟨hidle, ⟨hphase, hmine⟩ | ⟨hmine, aborted, hphase⟩⟩ := h
    · simp [hphase, hmine, hidle]
    · simp [hphase, hmine, hidle]
  | started =>
    obtain ⟨hmine, hts, -, hphase | ⟨hphase | ⟨xid, hphase⟩, -⟩⟩ := h
    all_goals simp [hphase, hmine, hts]
  | ready =>
    obtain ⟨hmine, hts, -, ⟨i, acc, max, hphase⟩ | ⟨hphase, -⟩⟩ := h
    all_goals simp [hphase, hmine, hts]
  | opened =>
    obtain ⟨hmine, hts, -, -, ⟨i, acc, max, hphase⟩ | ⟨hphase, -⟩⟩ := h
    all_goals simp [hphase, hmine, hts]
  | ending =>
    obtain ⟨hmine, hphase, hts | hts | hts⟩ := h
    all_goals simp [hphase, hmine, hts]

section Entering

variable {strict : Prop} {s t : TransSys n} {w : Fin n} {x : ServTask}
  {status next : TransStatus}

theorem startTransaction_fits (hfits : Fits strict (s.workers w) x status)
    (hready : (s.workers w).phase = .ready)
    (hafter : status.after .startTransaction = some next) :
    Fits strict ((startTransaction s w).workers w) x next ∧
      ∀ xid, ((startTransaction s w).workers w).phase ≠ .beginStore xid := by
  cases status with
  | closed =>
    obtain rfl := Option.some.inj hafter
    obtain ⟨hidle, hphase⟩ := hfits
    have hmine : (s.workers w).mine = false := by simpa [hready] using hphase
    have hworker : (startTransaction s w).workers w = { s.workers w with
        mine := true, context := ⟨.start, (s.workers w).context.transactionID, false⟩
        phase := .startFetch } := by
      simp [startTransaction, Worker.attach, Worker.setState, hmine, hidle]
    rw [hworker]
    exact ⟨⟨rfl, rfl, rfl, .inl rfl⟩, by simp⟩
  | started | opened =>
    obtain rfl := Option.some.inj hafter
    have hsame : startTransaction s w = s := by simp [startTransaction, hfits.1]
    rw [hsame]
    exact ⟨hfits, by simp [hready]⟩
  | ready | ending => cases hafter

theorem generateSnapshot_fits (hfits : Fits strict (s.workers w) x status)
    (hready : (s.workers w).phase = .ready)
    (hafter : status.after .generateSnapshot = some next) :
    Fits strict ((generateSnapshot s w).workers w) x next ∧
      ∀ xid, ((generateSnapshot s w).workers w).phase ≠ .beginStore xid := by
  cases status with
  | started =>
    obtain rfl := Option.some.inj hafter
    obtain ⟨hmine, hts, hflag, hphase⟩ := hfits
    have hfresh : x.FreshXid := by simpa [hready] using hphase
    have hworker : (generateSnapshot s w).workers w = { s.workers w with
        phase := .snapshotSlot 0 (activeXtidsInit (some (s.workers w).context.transactionID)
          (snapshotMax s.info) (s.workers w).snapshot.runningXidArr)
            (snapshotMax s.info) } := by
      simp [generateSnapshot, hmine, hflag]
    rw [hworker]
    exact ⟨⟨hmine, hts, hfresh, .inl ⟨_, _, _, rfl⟩⟩, nofun⟩
  | opened =>
    obtain rfl := Option.some.inj hafter
    obtain ⟨hmine, hts, hold, hsession, -⟩ := id hfits
    -- In a repeatable read the snapshot of the transaction stays.
    by_cases hkeep : s.isolationLevel = .readRepeatable ∧
      (s.workers w).context.snapshot = true
    · have hsame : generateSnapshot s w = s := by simp [generateSnapshot, hmine, hkeep]
      rw [hsame]
      exact ⟨hfits, by simp [hready]⟩
    · have hworker : (generateSnapshot s w).workers w = { s.workers w with
          phase := .snapshotSlot 0 (activeXtidsInit (some (s.workers w).context.transactionID)
            (snapshotMax s.info) (s.workers w).snapshot.runningXidArr)
              (snapshotMax s.info) } := by
        simp only [generateSnapshot, hmine, if_neg hkeep, Bool.true_eq_false,
          if_false, setWorker_self]
      rw [hworker]
      exact ⟨⟨hmine, hts, hold, hsession, .inl ⟨_, _, _, rfl⟩⟩, nofun⟩
  | closed | ready | ending => cases hafter

theorem finishTransaction_fits (hfits : Fits strict (s.workers w) x status)
    (hready : (s.workers w).phase = .ready)
    (hafter : status.after .finishTransaction = some next) :
    Fits strict ((finishTransaction s w).workers w) x next ∧
      ∀ xid, ((finishTransaction s w).workers w).phase ≠ .beginStore xid := by
  have hleave : ∀ aborted, (finishTransaction s w).workers w =
      { (s.workers w).setState .idle with phase := .finishHigh aborted } →
        (s.workers w).mine = true →
      Fits strict ((finishTransaction s w).workers w) x .closed ∧
        ∀ xid, ((finishTransaction s w).workers w).phase ≠ .beginStore xid := by
    intro aborted hworker hmine
    rw [hworker]
    exact ⟨⟨rfl, .inr ⟨hmine, aborted, rfl⟩⟩, nofun⟩
  cases status with
  | closed =>
    obtain rfl := Option.some.inj hafter
    have hmine : (s.workers w).mine = false := by simpa [hready] using hfits.2
    have hsame : finishTransaction s w = s := by simp [finishTransaction, hmine]
    rw [hsame]
    exact ⟨hfits, by simp [hready]⟩
  | opened =>
    obtain rfl := Option.some.inj hafter
    have hsame : finishTransaction s w = s := by simp [finishTransaction, hfits.1, hfits.2.1]
    rw [hsame]
    exact ⟨hfits, by simp [hready]⟩
  | started =>
    obtain rfl := Option.some.inj hafter
    exact hleave false (by simp [finishTransaction, hfits.1, hfits.2.1]) hfits.1
  | ending =>
    obtain rfl := Option.some.inj hafter
    obtain ⟨hmine, -, hts | hts | hts⟩ := hfits
    · exact hleave false (by simp [finishTransaction, hmine, hts]) hmine
    · exact hleave false (by simp [finishTransaction, hmine, hts]) hmine
    · exact hleave true (by simp [finishTransaction, hmine, hts]) hmine
  | ready => cases hafter

/-- The transaction system after a worker has entered a step of its script. -/
def Enters (s : TransSys n) (w : Fin n) (step : EntryStep) (t : TransSys n) : Prop :=
  match step.call (s.workers w) with
  | some call => transStep s (w, call) = some t
  | none => t = s

/-- COMMIT takes effect in a started transaction and in an explicit one. -/
theorem worker_of_commit (hmine : (s.workers w).mine = true)
    (hts : (s.workers w).context.ts = .start ∨ (s.workers w).context.ts = .begin)
    (hready : (s.workers w).phase = .ready) (h : Enters s w (.execute .commit) t) :
    t.workers w = (s.workers w).setState .commit := by
  cases hts with
  | inl hts | inr hts =>
    obtain rfl : endTransaction s w = t := by
      simpa [Enters, EntryStep.call, execTransaction,
        getCurrentTransactionState, transStep, hready,
        hmine, hts] using h
    simp [endTransaction, leaveTransaction, hmine, hts]

/-- And so does ROLLBACK. -/
theorem worker_of_rollback (hmine : (s.workers w).mine = true)
    (hts : (s.workers w).context.ts = .start ∨ (s.workers w).context.ts = .begin)
    (hready : (s.workers w).phase = .ready) (h : Enters s w (.execute .rollback) t) :
    t.workers w = (s.workers w).setState .abort := by
  cases hts with
  | inl hts | inr hts =>
    obtain rfl : abortTransaction s w = t := by
      simpa [Enters, EntryStep.call, execTransaction,
        getCurrentTransactionState, transStep, hready,
        hmine, hts] using h
    simp [abortTransaction, leaveTransaction, hmine, hts]

/-- A statement executed in a started transaction with its snapshot: BEGIN opens an explicit
one, any other statement is the last one under its id. -/
theorem execute_ready_fits {kind : StatementKind} {rest : List EntryStep}
    (hfits : Fits strict (s.workers w) x .ready) (hready : (s.workers w).phase = .ready)
    (hafter : TransStatus.ready.after (.execute kind) = some next)
    (h : Enters s w (.execute kind) t) :
    Fits strict (t.workers w) (x.enter (s.workers w) (.execute kind) rest) next ∧
      ∀ xid, (t.workers w).phase ≠ .beginStore xid := by
  obtain ⟨hmine, hts, hxid, hscan | ⟨-, hflag, hsnapshot⟩⟩ := hfits
  case inl => exact absurd hscan (not_scanning_of_ready hready)
  cases kind with
  | begin =>
    obtain rfl := Option.some.inj hafter
    have hworker : t.workers w = (s.workers w).setState .begin := by
      obtain rfl : beginTransaction s w = t := by
        simpa [Enters, EntryStep.call, execTransaction, transStep, hready] using h
      simp [beginTransaction, Worker.attach, hmine, hts]
    rw [hworker]
    refine ⟨⟨hmine, rfl, ?_, fun _ => hxid.1, .inr ⟨hready, hflag, fun _ => hsnapshot.1⟩⟩,
      by simp [Worker.setState, hready]⟩
    intro r hr hplain
    obtain hr | hr := List.mem_append.mp hr
    · exact ⟨hxid.2 r hr, hsnapshot.2 r hr⟩
    · obtain rfl := List.mem_singleton.mp hr
      simp at hplain
  | commit =>
    obtain rfl := Option.some.inj hafter
    rw [worker_of_commit hmine (.inl hts) hready h]
    exact ⟨⟨hmine, hready, .inr (.inl rfl)⟩, by simp [Worker.setState, hready]⟩
  | rollback =>
    obtain rfl := Option.some.inj hafter
    rw [worker_of_rollback hmine (.inl hts) hready h]
    exact ⟨⟨hmine, hready, .inr (.inr rfl)⟩, by simp [Worker.setState, hready]⟩
  | other =>
    obtain rfl := Option.some.inj hafter
    obtain rfl : t = s := h
    exact ⟨⟨hmine, hready, .inl hts⟩, by simp [hready]⟩

/-- A statement executed inside an explicit transaction. -/
theorem execute_opened_fits {kind : StatementKind} {rest : List EntryStep}
    (hfits : Fits strict (s.workers w) x .opened) (hready : (s.workers w).phase = .ready)
    (hafter : TransStatus.opened.after (.execute kind) = some next)
    (h : Enters s w (.execute kind) t) :
    Fits strict (t.workers w) (x.enter (s.workers w) (.execute kind) rest) next ∧
      ∀ xid, (t.workers w).phase ≠ .beginStore xid := by
  obtain ⟨hmine, hts, hold, hxid, hscan | ⟨-, hflag, hsnapshot⟩⟩ := hfits
  case inl => exact absurd hscan (not_scanning_of_ready hready)
  have hstay : Fits strict (s.workers w)
      (x.enter (s.workers w) (.execute kind) rest) .opened := by
    refine ⟨hmine, hts, ?_, hxid, .inr ⟨hready, hflag, hsnapshot⟩⟩
    intro r hr hplain
    obtain hr | hr := List.mem_append.mp hr
    · exact hold r hr hplain
    · obtain rfl := List.mem_singleton.mp hr
      simp [hts] at hplain
  cases kind with
  | begin =>
    obtain rfl := Option.some.inj hafter
    have hworker : t.workers w = s.workers w := by
      obtain rfl : beginTransaction s w = t := by
        simpa [Enters, EntryStep.call, execTransaction, transStep, hready] using h
      simp [beginTransaction, Worker.attach, hmine, hts]
    rw [hworker]
    exact ⟨hstay, by simp [hready]⟩
  | commit =>
    obtain rfl := Option.some.inj hafter
    rw [worker_of_commit hmine (.inr hts) hready h]
    exact ⟨⟨hmine, hready, .inr (.inl rfl)⟩, by simp [Worker.setState, hready]⟩
  | rollback =>
    obtain rfl := Option.some.inj hafter
    rw [worker_of_rollback hmine (.inr hts) hready h]
    exact ⟨⟨hmine, hready, .inr (.inr rfl)⟩, by simp [Worker.setState, hready]⟩
  | other =>
    obtain rfl := Option.some.inj hafter
    obtain rfl : t = s := h
    exact ⟨hstay, by simp [hready]⟩

/-- The status follows the script. -/
theorem enters_fits {step : EntryStep} (rest : List EntryStep)
    (hfits : Fits strict (s.workers w) x status)
    (hready : (s.workers w).phase = .ready) (hafter : status.after step = some next)
    (h : Enters s w step t) :
    Fits strict (t.workers w) (x.enter (s.workers w) step rest) next ∧
      ∀ xid, (t.workers w).phase ≠ .beginStore xid := by
  cases step with
  | startTransaction =>
    obtain rfl : startTransaction s w = t := by
      simpa [Enters, EntryStep.call, transStep, hready] using h
    obtain ⟨hfits, hphase⟩ := startTransaction_fits hfits hready hafter
    exact ⟨fits_thread hfits .., hphase⟩
  | generateSnapshot =>
    obtain rfl : generateSnapshot s w = t := by
      simpa [Enters, EntryStep.call, transStep, hready] using h
    obtain ⟨hfits, hphase⟩ := generateSnapshot_fits hfits hready hafter
    exact ⟨fits_thread hfits .., hphase⟩
  | finishTransaction =>
    obtain rfl : finishTransaction s w = t := by
      simpa [Enters, EntryStep.call, transStep, hready] using h
    obtain ⟨hfits, hphase⟩ := finishTransaction_fits hfits hready hafter
    exact ⟨fits_thread hfits .., hphase⟩
  | execute kind =>
    cases status with
    | ready => exact execute_ready_fits hfits hready hafter h
    | opened => exact execute_opened_fits hfits hready hafter h
    | closed | started | ending => cases kind <;> cases hafter
  | newQueryExcutor | newContext | switchContext | deleteContext =>
    obtain rfl : t = s := h
    obtain rfl : status = next := by cases status <;> simpa [TransStatus.after] using hafter
    exact ⟨fits_thread hfits .., by simp [hready]⟩

/-! ## The statements executed -/

/-- Two statements, one of them outside every explicit transaction, share neither id nor
snapshot. -/
def ExecutedStatement.Apart (r r' : ExecutedStatement) : Prop :=
  r.explicit = false ∨ r'.explicit = false → r.xid ≠ r'.xid ∧ r.snapshot ≠ r'.snapshot

/-- The history of the statements a worker has executed. -/
structure ServTask.HistoryOk (x : ServTask) : Prop where
  le : ∀ r ∈ x.executed, r.xid ≤ x.xids ∧ r.snapshot ≤ x.snapshots
  apart : x.executed.Pairwise ExecutedStatement.Apart

theorem enter_historyOk {step : EntryStep} {rest : List EntryStep} (h : x.HistoryOk)
    (hfits : Fits strict (s.workers w) x status) (hready : (s.workers w).phase = .ready)
    (hafter : status.after step = some next) :
    (x.enter (s.workers w) step rest).HistoryOk := by
  cases step with
  | execute kind =>
    refine ⟨?_, ?_⟩
    · intro r hr
      obtain hr | hr := List.mem_append.mp hr
      · exact h.le r hr
      · obtain rfl := List.mem_singleton.mp hr
        exact ⟨le_rfl, le_rfl⟩
    · refine List.pairwise_append.mpr ⟨h.apart, List.pairwise_singleton .., ?_⟩
      intro r hr r' hr' hplain
      obtain rfl := List.mem_singleton.mp hr'
      cases status with
      | ready =>
        obtain ⟨-, -, hxid, hscan | ⟨-, -, hsnapshot⟩⟩ := hfits
        · exact absurd hscan (not_scanning_of_ready hready)
        · exact ⟨(hxid.2 r hr).ne, (hsnapshot.2 r hr).ne⟩
      | opened =>
        obtain ⟨-, hts, hold, -⟩ := hfits
        have hold := hold r hr (by simpa [hts] using hplain)
        exact ⟨hold.1.ne, hold.2.ne⟩
      | closed | started | ending => cases kind <;> cases hafter
  | _ => exact ⟨h.le, h.apart⟩

/-! ## The accesses of a call -/

/-- A worker that leaves neither `ready` nor `GetActiveXtids` fetches and stores nothing. -/
theorem observe_of_ready {k k' : Worker} (hready : k.phase = .ready)
    (hphase : ∀ xid, k'.phase ≠ .beginStore xid) : x.observe k k' = x := by
  have hfetch : fetchesXid k k' = false := by
    unfold fetchesXid
    rw [hready]
    split
    case h_2 xid _ hbegin => exact absurd hbegin (hphase xid)
    all_goals first | rfl | contradiction
  have hscan : leavesScan k k' = false := by simp [leavesScan, hready]
  simp [ServTask.observe, hfetch, hscan]

/-- `GetActiveXtids` reads one more slot, or the snapshot is stored. -/
theorem proceed_scanning (hscan : (s.workers w).Scanning)
    (h : transStep s (w, .proceed) = some t) :
    (∃ i acc max, t.workers w = { s.workers w with phase := .snapshotSlot i acc max }) ∨
    ∃ snapshot, t.workers w = { s.workers w with
      snapshot := snapshot, context := { (s.workers w).context with snapshot := true }
      phase := .ready } := by
  obtain ⟨i, acc, max, hphase⟩ := hscan
  simp only [transStep, proceed, hphase] at h
  split at h
  · obtain rfl := Option.some.inj h
    exact .inl ⟨_, _, _, setWorker_self ..⟩
  · obtain rfl := Option.some.inj h
    exact .inr ⟨_, setWorker_self ..⟩

theorem observe_scanSlot {k : Worker} (hscan : k.Scanning) {i max : Nat} {acc : ActiveXtids} :
    x.observe k { k with phase := .snapshotSlot i acc max } = x := by
  obtain ⟨i, acc, max, hphase⟩ := hscan
  simp [ServTask.observe, fetchesXid, leavesScan, hphase]

theorem observe_scanStore {k k' : Worker} (hscan : k.Scanning) (hready : k'.phase = .ready) :
    x.observe k k' = { x with snapshots := x.snapshots + 1,
                              snapshotSession := some x.session } := by
  obtain ⟨i, acc, max, hphase⟩ := hscan
  simp [ServTask.observe, fetchesXid, leavesScan, hphase, hready]

theorem proceed_fits (hfits : Fits strict (s.workers w) x status) (hist : x.HistoryOk)
    (h : transStep s (w, .proceed) = some t) :
    Fits strict (t.workers w) (x.observe (s.workers w) (t.workers w)) status := by
  have hnot : (s.workers w).phase ≠ .ready := by
    intro hready
    simp [transStep, proceed, hready] at h
  cases status with
  | closed =>
    obtain ⟨hidle, ⟨hready, -⟩ | ⟨hmine, aborted, hphase⟩⟩ := hfits
    · exact absurd hready hnot
    · obtain rfl := Option.some.inj (by simpa only [transStep, proceed, hphase] using h)
      exact ⟨by simpa using hidle, .inl (by simp)⟩
  | started =>
    obtain ⟨hmine, hts, hflag, hphase | ⟨hready | ⟨xid, hphase⟩, hfresh⟩⟩ := hfits
    case inr.inl => exact absurd hready hnot
    · obtain rfl := Option.some.inj (by simpa only [transStep, proceed, hphase] using h)
      rw [setWorker_self]
      refine ⟨hmine, hts, hflag, .inr ⟨.inr ⟨_, rfl⟩, ?_⟩⟩
      have hseen : x.observe (s.workers w) { s.workers w with
            phase := .startStore (getNewTransactionID s.info).1 } =
          { x with xids := x.xids + 1, xidSession := x.session } := by
        simp [ServTask.observe, fetchesXid, leavesScan, hphase]
      rw [hseen]
      exact ⟨rfl, fun r hr => Nat.lt_succ_of_le (hist.le r hr).1⟩
    · obtain rfl := Option.some.inj (by simpa only [transStep, proceed, hphase] using h)
      rw [setWorker_self]
      have hseen : x.observe (s.workers w) { (s.workers w).setXid xid with phase := .ready } =
          x := by
        simp [ServTask.observe, fetchesXid, leavesScan, hphase]
      rw [hseen]
      exact ⟨hmine, hts, hflag, .inr ⟨.inl rfl, hfresh⟩⟩
  | ready =>
    obtain ⟨hmine, hts, hxid, hscan | ⟨hready, -⟩⟩ := hfits
    case inr => exact absurd hready hnot
    obtain ⟨i, acc, max, hworker⟩ | ⟨snapshot, hworker⟩ := proceed_scanning hscan h
    · rw [hworker, observe_scanSlot hscan]
      exact ⟨hmine, hts, hxid, .inl ⟨i, acc, max, rfl⟩⟩
    · rw [hworker, observe_scanStore hscan rfl]
      exact ⟨hmine, hts, hxid,
        .inr ⟨rfl, rfl, rfl, fun r hr => Nat.lt_succ_of_le (hist.le r hr).2⟩⟩
  | opened =>
    obtain ⟨hmine, hts, hold, hxid, hscan | ⟨hready, -⟩⟩ := hfits
    case inr => exact absurd hready hnot
    obtain ⟨i, acc, max, hworker⟩ | ⟨snapshot, hworker⟩ := proceed_scanning hscan h
    · rw [hworker, observe_scanSlot hscan]
      exact ⟨hmine, hts, hold, hxid, .inl ⟨i, acc, max, rfl⟩⟩
    · rw [hworker, observe_scanStore hscan rfl]
      refine ⟨hmine, hts, ?_, hxid, .inr ⟨rfl, rfl, fun _ => rfl⟩⟩
      intro r hr hplain
      exact ⟨(hold r hr hplain).1, Nat.lt_succ_of_lt (hold r hr hplain).2⟩
  | ending => exact absurd hfits.2.1 hnot

theorem observe_historyOk {k k' : Worker} (h : x.HistoryOk) : (x.observe k k').HistoryOk := by
  refine ⟨?_, h.apart⟩
  intro r hr
  obtain ⟨hxid, hsnapshot⟩ := h.le r hr
  constructor
  · simp only [ServTask.observe]
    split
    · exact Nat.le_succ_of_le hxid
    · exact hxid
  · simp only [ServTask.observe]
    split
    · exact Nat.le_succ_of_le hsnapshot
    · exact hsnapshot

/-- A row access leaves the worker as it is, but for the header it has scanned. -/
theorem accessesRow_worker {call : Call} (hcall : call.accessesRow = true)
    (h : transStep s (w, call) = some t) :
    (s.workers w).phase = .ready ∧ ∃ scanned,
      t.workers w = { s.workers w with scanned := scanned } := by
  cases call with
  | insertTuple =>
    simp only [transStep, insertTuple, Option.ite_none_right_eq_some, Option.some.injEq] at h
    obtain ⟨hready, -, rfl⟩ := h
    exact ⟨hready, _, rfl⟩
  | scanTuple v =>
    simp only [transStep, scanTuple, Option.ite_none_right_eq_some] at h
    obtain ⟨hready, -, h⟩ := h
    split at h
    · obtain rfl := Option.some.inj h
      exact ⟨hready, _, setWorker_self ..⟩
    · cases h
  | updateTuple | deleteTuple =>
    simp only [transStep, updateTuple, deleteTuple, stampTuple,
      Option.ite_none_right_eq_some] at h
    obtain ⟨hready, -, h⟩ := h
    split at h
    case h_2 => cases h
    split at h
    all_goals
      obtain rfl := Option.some.inj h
      exact ⟨hready, _, setWorker_self ..⟩
  | _ => cases hcall

end Entering

/-! ## The steps of a session -/

/-- The effects of one step of worker `w`. -/
inductive SessionEffect (s : SessionSys n)
    (w : Fin n) : SessionCall → SessionSys n → Prop where
  | beginTask (memory : SnapShotInfo) (hconnected : (s.tasks w).connected = false) :
      SessionEffect s w (.beginTask memory) (s.beginTask w memory)
  | command (query : ParserTree) (hconnected : (s.tasks w).connected = true)
      (htodo : (s.tasks w).todo = []) (hready : (s.trans.workers w).phase = .ready) :
      SessionEffect s w (.command query)
        { s with tasks := Function.update s.tasks w
                   { s.tasks w with todo := toadMainEntry query } }
  | next (step : EntryStep) (rest : List EntryStep) (trans : TransSys n)
      (htodo : (s.tasks w).todo = step :: rest) (hready : (s.trans.workers w).phase = .ready)
      (henters : Enters s.trans w step trans) :
      SessionEffect s w .next
        (s.advance w ((s.tasks w).enter (s.trans.workers w) step rest) trans)
  | row (call : Call) (rest : List EntryStep) (trans : TransSys n)
      (htodo : (s.tasks w).todo = .execute .other :: rest) (hcall : call.accessesRow = true)
      (htrans : transStep s.trans (w, call) = some trans) :
      SessionEffect s w (.row call) (s.advance w (s.tasks w) trans)
  | proceed (trans : TransSys n) (htrans : transStep s.trans (w, .proceed) = some trans) :
      SessionEffect s w .proceed (s.advance w (s.tasks w) trans)
  | finishTask (hconnected : (s.tasks w).connected = true) (htodo : (s.tasks w).todo = [])
      (hready : (s.trans.workers w).phase = .ready) :
      SessionEffect s w .finishTask (s.finishTask w)

theorem sessionEffect {s t : SessionSys n} {w : Fin n} {call : SessionCall}
    (hstep : sessionStep s (w, call) = some t) : SessionEffect s w call t := by
  cases call with
  | beginTask memory =>
    simp only [sessionStep, Option.ite_none_left_eq_some, Option.some.injEq] at hstep
    obtain ⟨hconnected, rfl⟩ := hstep
    exact .beginTask memory (by simpa using hconnected)
  | command query =>
    simp only [sessionStep, Option.ite_none_right_eq_some, Option.some.injEq] at hstep
    obtain ⟨⟨hconnected, htodo, hready⟩, rfl⟩ := hstep
    exact .command query hconnected htodo hready
  | next =>
    simp only [sessionStep] at hstep
    split at hstep
    case h_1 => cases hstep
    case h_2 step rest htodo =>
      obtain ⟨hready, hstep⟩ := Option.ite_none_right_eq_some.mp hstep
      split at hstep
      case h_1 call hcall =>
        obtain ⟨trans, htrans, rfl⟩ := Option.map_eq_some_iff.mp hstep
        exact .next step rest trans htodo hready (by simpa only [Enters, hcall] using htrans)
      case h_2 hcall =>
        obtain rfl := Option.some.inj hstep
        exact .next step rest s.trans htodo hready (by simp only [Enters, hcall])
  | row call =>
    simp only [sessionStep] at hstep
    split at hstep
    case h_2 => cases hstep
    case h_1 rest htodo =>
      obtain ⟨hcall, hstep⟩ := Option.ite_none_right_eq_some.mp hstep
      obtain ⟨trans, htrans, rfl⟩ := Option.map_eq_some_iff.mp hstep
      exact .row call rest trans htodo hcall htrans
  | proceed =>
    obtain ⟨trans, htrans, rfl⟩ := Option.map_eq_some_iff.mp hstep
    exact .proceed trans htrans
  | finishTask =>
    simp only [sessionStep, Option.ite_none_right_eq_some, Option.some.injEq] at hstep
    obtain ⟨⟨hconnected, htodo, hready⟩, rfl⟩ := hstep
    exact .finishTask hconnected htodo hready

/-- The invariant of a worker. -/
structure Serves (strict : Prop) (k : Worker) (x : ServTask) : Prop where
  waiting : x.connected = false → x.todo = [] ∧ k.phase = .ready ∧
    (strict → k.context.ts = .idle)
  status : ∃ status, Fits strict k x status ∧ status.Ends x.todo
  history : x.HistoryOk

/-- The invariant of the workers. -/
def SessionOk (strict : Prop) (s : SessionSys n) : Prop :=
  ∀ w, Serves strict (s.trans.workers w) (s.tasks w)

/-- No client leaves inside an explicit transaction. -/
def LeavesNoTransaction (s : SessionSys n) (a : Fin n × SessionCall) : Prop :=
  a.2 = .finishTask → (s.trans.workers a.1).context.ts ≠ .begin

instance (s : SessionSys n) (a : Fin n × SessionCall) :
    Decidable (LeavesNoTransaction s a) := by
  unfold LeavesNoTransaction; infer_instance

section Steps

variable {strict : Prop} {s t : SessionSys n} {w : Fin n}

theorem sessionOk_init (h : SessionInit s) : SessionOk strict s := by
  intro w
  obtain ⟨hmine, hcontext, hphase, -⟩ := h.trans.detached w
  obtain ⟨hconnected, htodo, hexecuted⟩ := h.waiting w
  have hidle : (s.trans.workers w).context.ts = .idle := by rw [hcontext]
  refine ⟨fun _ => ⟨htodo, hphase, fun _ => hidle⟩, ?_, ?_⟩
  · rw [htodo]
    exact ⟨.closed, ⟨hidle, .inl ⟨hphase, hmine⟩⟩, .inl rfl⟩
  · constructor
    · simp [hexecuted]
    · simp [hexecuted]

/-- A step that changes one worker only has to be looked at there. -/
theorem sessionOk_update (h : SessionOk strict s) {x : ServTask}
    {trans : TransSys n} (hw : Serves strict (trans.workers w) x)
    (hother : ∀ j, j ≠ w → trans.workers j = s.trans.workers j) :
    SessionOk strict ⟨trans, Function.update s.tasks w x⟩ := by
  intro j
  by_cases hj : j = w
  · subst hj
    simpa using hw
  · have htask : Function.update s.tasks w x j = s.tasks j := Function.update_of_ne hj ..
    dsimp only
    rw [htask, hother j hj]
    exact h j

/-- The status at the end of a command. -/
theorem status_of_rest {k : Worker} {x : ServTask} (h : Serves strict k x)
    (htodo : x.todo = []) :
    Fits strict k x .closed ∨ Fits strict k x .opened := by
  obtain ⟨status, hfits, hends⟩ := h.status
  obtain rfl | rfl : status = .closed ∨ status = .opened := by
    simpa [htodo, TransStatus.Ends] using hends
  · exact .inl hfits
  · exact .inr hfits

theorem sessionOk_beginTask {memory : SnapShotInfo} (h : SessionOk strict s)
    (hconnected : (s.tasks w).connected = false) :
    SessionOk strict (s.beginTask w memory) := by
  refine sessionOk_update h ?_ (fun j hj => setWorker_of_ne _ _ hj)
  obtain ⟨htodo, hready, hidle⟩ := (h w).waiting hconnected
  rw [setWorker_self]
  refine ⟨nofun, ?_, ⟨(h w).history.le, (h w).history.apart⟩⟩
  dsimp only
  rw [htodo]
  obtain hfits | ⟨hmine, hts, hold, -, hscan | ⟨-, hflag, -⟩⟩ := status_of_rest (h w) htodo
  · exact ⟨.closed, hfits, .inl rfl⟩
  · exact absurd hscan (not_scanning_of_ready hready)
  · -- An explicit transaction that is still open is not of the new session.
    have hlost : ¬ strict := fun hstrict => by simp [hidle hstrict] at hts
    exact ⟨.opened, ⟨hmine, hts, hold, fun hstrict => absurd hstrict hlost,
      .inr ⟨hready, hflag, fun hstrict => absurd hstrict hlost⟩⟩, .inr rfl⟩

theorem sessionOk_command {query : ParserTree} (h : SessionOk strict s)
    (hconnected : (s.tasks w).connected = true) (htodo : (s.tasks w).todo = []) :
    SessionOk strict { s with
      tasks := Function.update s.tasks w
        { s.tasks w with todo := toadMainEntry query } } := by
  refine sessionOk_update h ⟨by simp [hconnected], ?_,
    ⟨(h w).history.le, (h w).history.apart⟩⟩
    (fun _ _ => rfl)
  obtain hfits | hfits := status_of_rest (h w) htodo
  · exact ⟨.closed, fits_thread hfits .., toadMainEntry_ends query (.inl rfl)⟩
  · exact ⟨.opened, fits_thread hfits .., toadMainEntry_ends query (.inr rfl)⟩

theorem sessionOk_finishTask (h : SessionOk strict s) (htodo : (s.tasks w).todo = [])
    (hready : (s.trans.workers w).phase = .ready)
    (hleaves : strict → (s.trans.workers w).context.ts ≠ .begin) :
    SessionOk strict (s.finishTask w) := by
  obtain ⟨status, hfits, hends⟩ := (h w).status
  refine sessionOk_update h ⟨fun _ => ⟨htodo, hready, ?_⟩,
    ⟨status, fits_thread hfits .., hends⟩,
    ⟨(h w).history.le, (h w).history.apart⟩⟩ (fun _ _ => rfl)
  intro hstrict
  obtain hfits | hfits := status_of_rest (h w) htodo
  · exact hfits.1
  · exact absurd hfits.2.1 (hleaves hstrict)

theorem sessionOk_next {step : EntryStep} {rest : List EntryStep} {trans : TransSys n}
    (h : SessionOk strict s) (htodo : (s.tasks w).todo = step :: rest)
    (hready : (s.trans.workers w).phase = .ready) (henters : Enters s.trans w step trans) :
    SessionOk strict
      (s.advance w ((s.tasks w).enter (s.trans.workers w) step rest) trans) := by
  obtain ⟨status, hfits, hends⟩ := (h w).status
  rw [htodo] at hends
  obtain ⟨next, hafter, hends⟩ := hends
  obtain ⟨hnext, hphase⟩ := enters_fits rest hfits hready hafter henters
  refine sessionOk_update h ?_ ?_
  · rw [observe_of_ready hready hphase]
    refine ⟨?_, ⟨next, hnext, hends⟩, enter_historyOk (h w).history hfits hready hafter⟩
    intro hconnected
    have hnil := ((h w).waiting hconnected).1
    rw [htodo] at hnil
    cases hnil
  · intro j hj
    unfold Enters at henters
    split at henters
    · exact transStep_other (fits_ok hfits) henters hj
    · rw [henters]

theorem sessionOk_row {call : Call} {kind : StatementKind} {rest : List EntryStep}
    {trans : TransSys n}
    (h : SessionOk strict s) (htodo : (s.tasks w).todo = .execute kind :: rest)
    (hcall : call.accessesRow = true) (hstep : transStep s.trans (w, call) = some trans) :
    SessionOk strict (s.advance w (s.tasks w) trans) := by
  obtain ⟨hready, scanned, hworker⟩ := accessesRow_worker hcall hstep
  obtain ⟨status, hfits, hends⟩ := (h w).status
  refine sessionOk_update h ?_ (fun j hj => transStep_other (fits_ok hfits) hstep hj)
  rw [hworker, observe_of_ready hready (by simp [hready])]
  refine ⟨?_, ⟨status, ?_, hends⟩, (h w).history⟩
  · intro hconnected
    have hnil := ((h w).waiting hconnected).1
    rw [htodo] at hnil
    cases hnil
  · cases status <;> exact hfits

theorem sessionOk_proceed {trans : TransSys n} (h : SessionOk strict s)
    (hstep : transStep s.trans (w, .proceed) = some trans) :
    SessionOk strict (s.advance w (s.tasks w) trans) := by
  obtain ⟨status, hfits, hends⟩ := (h w).status
  refine sessionOk_update h ?_ (fun j hj => transStep_other (fits_ok hfits) hstep hj)
  refine ⟨?_, ⟨status, proceed_fits hfits (h w).history hstep, hends⟩,
    observe_historyOk (h w).history⟩
  intro hconnected
  have hready := ((h w).waiting hconnected).2.1
  simp [transStep, proceed, hready] at hstep

/-- Every step keeps the invariant; with `strict` the client that leaves has no explicit
transaction open. -/
theorem sessionOk_step {a : Fin n × SessionCall} (h : SessionOk strict s)
    (hleaves : strict → LeavesNoTransaction s a) (hstep : sessionStep s a = some t) :
    SessionOk strict t := by
  obtain ⟨w, call⟩ := a
  cases sessionEffect hstep with
  | beginTask memory hconnected => exact sessionOk_beginTask h hconnected
  | command query hconnected htodo => exact sessionOk_command h hconnected htodo
  | next step rest trans htodo hready henters => exact sessionOk_next h htodo hready henters
  | row call rest trans htodo hcall htrans => exact sessionOk_row h htodo hcall htrans
  | proceed trans htrans => exact sessionOk_proceed h htrans
  | finishTask hconnected htodo hready =>
    exact sessionOk_finishTask h htodo hready (fun hstrict => hleaves hstrict rfl)

end Steps

/-! ## The sessions of a worker -/

/-- A worker that serves no client has no transaction and its slot does not count as running,
and every statement runs under an id fetched and a snapshot taken in its own session. -/
structure SessionIsolated (s : SessionSys n) : Prop where
  unserved : ∀ w, (s.tasks w).connected = false →
    (s.trans.workers w).mine = false ∧ (s.trans.workers w).context.ts = .idle
  own : ∀ w kind rest, (s.tasks w).todo = .execute kind :: rest →
    (s.trans.workers w).phase = .ready →
    (s.trans.workers w).mine = true ∧ (s.tasks w).xidSession = (s.tasks w).session ∧
      (s.tasks w).snapshotSession = some (s.tasks w).session

theorem sessionIsolated_of_ok {s : SessionSys n} (h : SessionOk True s) :
    SessionIsolated s := by
  constructor
  · intro w hconnected
    obtain ⟨htodo, hready, hidle⟩ := (h w).waiting hconnected
    obtain hfits | hfits := status_of_rest (h w) htodo
    · exact ⟨by simpa [hready] using hfits.2, hidle trivial⟩
    · exact absurd (hidle trivial) (by simp [hfits.2.1])
  · intro w kind rest htodo hready
    obtain ⟨status, hfits, hends⟩ := (h w).status
    rw [htodo] at hends
    obtain ⟨next, hafter, -⟩ := hends
    cases status with
    | ready =>
      obtain ⟨hmine, -, hxid, hscan | ⟨-, -, hsnapshot⟩⟩ := hfits
      · exact absurd hscan (not_scanning_of_ready hready)
      · exact ⟨hmine, hxid.1, hsnapshot.1⟩
    | opened =>
      obtain ⟨hmine, -, -, hxid, hscan | ⟨-, -, hsnapshot⟩⟩ := hfits
      · exact absurd hscan (not_scanning_of_ready hready)
      · exact ⟨hmine, hxid trivial, hsnapshot trivial⟩
    | closed | started | ending => cases kind <;> cases hafter

/-- In every run of the sessions, whatever the interleaving of the workers and whatever the
commands, the sessions of every worker are isolated from each other exactly when no client
leaves inside an explicit transaction. -/
theorem sessions_isolated_iff {s u : SessionSys n} {as : List (Fin n × SessionCall)}
    (hinit : SessionInit s) (hrun : run sessionStep s as = some u) :
    (∀ bs cs t, as = bs ++ cs → run sessionStep s bs = some t → SessionIsolated t) ↔
      Along sessionStep LeavesNoTransaction s as := by
  refine run_property_iff sessionIsolated_of_ok ?_ (sessionOk_init hinit) hrun
  intro s a t h hstep
  refine ⟨fun hleaves => sessionOk_step h (fun _ => hleaves) hstep, ?_⟩
  intro hisolated hfinish
  obtain ⟨w, call⟩ := a
  obtain rfl : call = .finishTask := hfinish
  cases sessionEffect hstep
  have hidle := (hisolated.unserved w (by simp [SessionSys.finishTask])).2
  rw [show (s.finishTask w).trans = s.trans from rfl] at hidle
  rw [hidle]
  exact nofun

/-- A started server with one worker. -/
def oneWorker : SessionSys 1 where
  trans :=
    { info := TransactionIDInfo.init
      workers := fun _ => ⟨false, ⟨.idle, 0, false⟩, .ready, ⟨0, 0, 0, [0]⟩, none⟩
      versions := []
      isolationLevel := .readCommited
      rolledBack := [] }
  tasks := fun _ => ⟨false, [], ⟨⟨[], 0, 1⟩, 0, 0⟩, 0, 0, 0, 0, none, []⟩

theorem oneWorker_init : SessionInit oneWorker where
  trans :=
    { next_lt := by decide
      next_pos := by decide
      high_le := by decide
      detached := fun _ => ⟨rfl, rfl, rfl, rfl⟩
      room := fun _ => le_rfl
      rolledBack := rfl }
  waiting := fun _ => ⟨rfl, rfl, rfl⟩
  fresh := fun _ => ⟨Nat.one_pos, nofun⟩

/-- A command of one statement, up to the step that executes it. `starts` says whether it has
to start a transaction. -/
def oneStatement (kind : StatementKind) (starts : Bool) : List (Fin 1 × SessionCall) :=
  let begins : List SessionCall := if starts then [.proceed, .proceed] else []
  (.command (some [⟨kind, true, true⟩]) :: .next :: (begins ++
    [.next, .next, .next, .next, .next, .next, .next, .next, .proceed, .proceed])).map (0, ·)

/-- The rest of the command. `ends` says whether the transaction ends with it. -/
def restOfStatement (ends : Bool) : List (Fin 1 × SessionCall) :=
  let finishes : List SessionCall := if ends then [.proceed] else []
  (.next :: .next :: .next :: (finishes ++ [.next, .next])).map (0, ·)

def newClient : Fin 1 × SessionCall := (0, .beginTask ⟨0, 0, 0, [0]⟩)

/-- A session with a transaction of its own, and another one after it. -/
def twoSessions : List (Fin 1 × SessionCall) :=
  [newClient] ++ oneStatement .begin true ++ restOfStatement false ++
    oneStatement .commit false ++
    restOfStatement true ++ [(0, .finishTask), newClient] ++ oneStatement .other true ++
    [(0, .row .insertTuple)] ++ restOfStatement true ++ [(0, .finishTask)]

theorem twoSessions_isolated :
    SessionInit oneWorker ∧
      ∀ bs cs t, twoSessions = bs ++ cs → run sessionStep oneWorker bs = some t →
        SessionIsolated t :=
  ⟨oneWorker_init, (sessions_isolated_iff oneWorker_init (run_exec (by decide +kernel))).mpr
    (by decide +kernel)⟩

/-- A session that begins a transaction and is gone, and the first statement of the next. -/
def abandonedTransaction : List (Fin 1 × SessionCall) :=
  [newClient] ++ oneStatement .begin true ++ restOfStatement false ++
    [(0, .finishTask), newClient] ++
    oneStatement .other false ++ [(0, .next)]

/-- The first statement of the second session runs under the id of the first session's
transaction. -/
theorem abandonedTransaction_taken_over :
    SessionInit oneWorker ∧ ∃ t, run sessionStep oneWorker abandonedTransaction = some t ∧
      ((t.tasks 0).session = 2 ∧ (t.tasks 0).xidSession = 1 ∧
        (t.tasks 0).executed = [⟨1, 1, true⟩, ⟨1, 2, true⟩]) ∧
      ¬ ∀ bs cs t, abandonedTransaction = bs ++ cs → run sessionStep oneWorker bs = some t →
        SessionIsolated t := by
  refine ⟨oneWorker_init, _, run_exec (by decide), by decide, ?_⟩
  intro hall
  have hgone :=
    (hall ([newClient] ++ oneStatement .begin true ++
      restOfStatement false ++ [(0, .finishTask)])
    ([newClient] ++ oneStatement .other false ++ [(0, .next)]) _ (by decide)
    (run_exec (by decide))).unserved 0 (by decide)
  revert hgone
  decide

end Toadb
