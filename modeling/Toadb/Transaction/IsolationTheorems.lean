/-
Toadb.Transaction.IsolationTheorems — which schedules keep a snapshot
isolated.

While a worker reads the slots for its snapshot, `ScanOk` holds: every
transaction below the upper bound that is still unfinished and whose slot
was read is in the array. A slot read breaks it in three ways, all of which
`SlotReadOk` rules out:

  * `StartTransaction` has fetched the id and not stored it, so the slot
    still shows the id of the worker's previous transaction;
  * `BeginTransaction` has fetched the id and not left `TS_IDLE`;
  * the reused array cell exceeds the upper bound and the slot is skipped.

Ids fetched after the upper bound was read are at or above it, so they need
no entry. From the completed snapshot on, every transaction that was
unfinished at its completion counts as running (`snapshot_running`), which
gives both halves of the isolation theorem: its versions are invisible, and
a `tmax` it stamps later changes nothing.
-/
import Toadb.Transaction.ControlTheorems

namespace Toadb

open Transition

variable {n : Nat}

/-! ## The steps that keep the isolation -/

/-- A slot read of `GetActiveXtids` finds the transaction of the slot's worker
in the slot, and the cell it stores it into is within the bound. -/
def SlotReadOk (s : TransSys n) (a : Fin n × Call) : Prop :=
  match a.2, (s.workers a.1).phase with
  | .proceed, .snapshotSlot i acc max =>
      ∀ j : Fin n, j.val = i → j ≠ a.1 → ∀ x ∈ (s.workers j).current, x < max →
        (s.workers j).context.ts ≠ .idle ∧ (s.workers j).context.transactionID = x ∧
          acc.xtids.getD acc.count 0 ≤ max
  | _, _ => True

/-- The header that an update or delete tests is not older than the version it
writes: the version carries no `tmax` yet. -/
def StampFresh (s : TransSys n) (a : Fin n × Call) : Prop :=
  match a.2, (s.workers a.1).scanned with
  | .updateTuple, some (v, copy) | .deleteTuple, some (v, copy) =>
      tupleUpdateSatisfy (s.workers a.1).context.transactionID copy = .ok →
        ∀ h ∈ s.versions[v]?, h.tmax = invalidXtid
  | _, _ => True

/-- The steps the isolation theorem allows. -/
def IsolationStep (s : TransSys n) (a : Fin n × Call) : Prop :=
  CounterOk s a ∧ SlotReadOk s a ∧ StampFresh s a

instance (s : TransSys n) (a : Fin n × Call) : Decidable (SlotReadOk s a) := by
  unfold SlotReadOk; split <;> infer_instance

instance (s : TransSys n) (a : Fin n × Call) : Decidable (StampFresh s a) := by
  unfold StampFresh; split <;> infer_instance

instance (s : TransSys n) (a : Fin n × Call) : Decidable (IsolationStep s a) := by
  unfold IsolationStep; infer_instance

/-! ## Reading the slots -/

/-- What a worker in the middle of `GetActiveXtids` knows: the slots below `i`
are read. -/
structure ScanOk (s : TransSys n) (w : Fin n) (i : Nat) (acc : ActiveXtids) (max : Nat) :
    Prop where
  max_le : max ≤ s.info.nextTransactionId
  room : n ≤ acc.xtids.length
  full : acc.full = false
  /-- The worker's own slot is skipped, so there is always a free cell left. -/
  count : acc.count + (if w.val < i then 1 else 0) ≤ i
  min_le : acc.min ≤ max
  low : ∀ x ∈ acc.xtids.take acc.count, acc.min ≤ x
  seen : ∀ j : Fin n, j.val < i → j ≠ w → ∀ x, (s.workers j).current = some x → x < max →
    x ∈ acc.xtids.take acc.count

theorem take_set_succ (xs : List Nat) (c x : Nat) (hc : c < xs.length) :
    (xs.set c x).take (c + 1) = xs.take c ++ [x] := by
  rw [List.take_add_one, List.take_set_of_le (Nat.le_refl c)]
  simp [hc]

theorem snapshotMin_le (own : Option Nat) (max : Nat) : snapshotMin own max ≤ max := by
  cases own with
  | none => exact Nat.le_refl max
  | some xid => simp only [snapshotMin]; split <;> omega

/-- Steps that only add ids from the counter on keep another worker's scan. -/
theorem ScanOk.mono {s s' : TransSys n} {w : Fin n} {i : Nat} {acc : ActiveXtids} {max : Nat}
    (h : ScanOk s w i acc max) (hnext : s.info.nextTransactionId ≤ s'.info.nextTransactionId)
    (hcur : ∀ j x, (s'.workers j).current = some x →
      (s.workers j).current = some x ∨ s.info.nextTransactionId ≤ x) :
    ScanOk s' w i acc max := by
  refine ⟨Nat.le_trans h.max_le hnext, h.room, h.full, h.count, h.min_le, h.low, ?_⟩
  intro j hj hne x hx hlt
  rcases hcur j x hx with hx | hge
  · exact h.seen j hj hne x hx hlt
  · exact absurd (Nat.le_trans h.max_le hge) (Nat.not_le.mpr hlt)

/-- The scan of a fresh snapshot. -/
theorem ScanOk.start {s : TransSys n} {w : Fin n} (own : Option Nat) {max : Nat}
    {xtids : List Nat} (hmax : max ≤ s.info.nextTransactionId) (hroom : n ≤ xtids.length) :
    ScanOk s w 0 (activeXtidsInit own max xtids) max where
  max_le := hmax
  room := hroom
  full := rfl
  count := by simp [activeXtidsInit]
  min_le := snapshotMin_le own max
  low := by simp [activeXtidsInit]
  seen := fun j hj => absurd hj (Nat.not_lt_zero _)

/-- One slot read keeps the scan in order. -/
theorem ScanOk.slot {s : TransSys n} {w i : Fin n} {acc : ActiveXtids} {max : Nat}
    (h : ScanOk s w i acc max) (hids : IdsOk s) {own : Nat}
    (hown : (s.workers w).current = some own)
    (hid : (s.workers w).context.transactionID = own)
    (hread : i ≠ w → ∀ x ∈ (s.workers i).current, x < max →
      (s.workers i).context.ts ≠ .idle ∧ (s.workers i).context.transactionID = x ∧
        acc.xtids.getD acc.count 0 ≤ max) :
    ScanOk s w (i + 1) (activeXtidsSlot (some own) max acc (s.workers i).context) max := by
  have hcount := h.count
  have hi := i.isLt
  have hw := w.isLt
  have hcount' : acc.count + (if w.val < i.val + 1 then 1 else 0) ≤ i.val + 1 := by
    split at hcount <;> split <;> omega
  have hkeep : (∀ x, i ≠ w → (s.workers i).current = some x → x < max → False) →
      ScanOk s w (i + 1) acc max := by
    intro hnone
    refine ⟨h.max_le, h.room, h.full, hcount', h.min_le, h.low, ?_⟩
    intro j hj hne x hx hlt
    by_cases hji : j = i
    · subst hji
      exact (hnone x hne hx hlt).elim
    · exact h.seen j (by have : j.val ≠ i.val := fun e => hji (Fin.ext e); omega) hne x hx hlt
  unfold activeXtidsSlot
  rw [if_neg (by simp [h.full])]
  split
  · -- Skipped: the worker's own slot, or an idle one.
    rename_i hskip
    refine hkeep fun x hne hx hlt => ?_
    obtain ⟨hts, hslot, -⟩ := hread hne x hx hlt
    simp only [slotSkipped, Bool.or_eq_true, beq_iff_eq, hts, false_or] at hskip
    have hxown : own = x := by rw [← hslot]; exact Option.some.inj hskip
    exact hne (hids.unique i w x hx (hxown ▸ hown))
  · rename_i hskip
    have hiw : i ≠ w := by
      intro hiw
      subst hiw
      exact hskip (by simp [slotSkipped, hid])
    have hne : i.val ≠ w.val := fun e => hiw (Fin.ext e)
    split
    · -- The cell exceeds the bound: allowed only when no entry is due.
      rename_i hstale
      refine hkeep fun x hne hx hlt => ?_
      have := (hread hne x hx hlt).2.2
      omega
    · have hlt : acc.count < acc.xtids.length := by
        have := h.room
        split at hcount <;> omega
      have hmore : acc.count + 1 < acc.xtids.length := by
        have := h.room
        split at hcount <;> omega
      have htake := take_set_succ acc.xtids acc.count (s.workers i).context.transactionID hlt
      refine ⟨h.max_le, by simpa using h.room, by simpa using hmore, ?_, ?_, ?_, ?_⟩
      · show acc.count + 1 + _ ≤ _
        split at hcount <;> split <;> omega
      · have := h.min_le
        show (if _ then _ else _) ≤ max
        split <;> omega
      · intro x hx
        show (if _ then _ else _) ≤ x
        rw [htake, List.mem_append, List.mem_singleton] at hx
        rcases hx with hx | rfl
        · have := h.low x hx
          split <;> omega
        · split <;> omega
      · intro j hj hjw x hx hlt
        show x ∈ List.take _ _
        rw [htake, List.mem_append, List.mem_singleton]
        by_cases hji : j = i
        · subst hji
          exact .inr (hread hjw x hx hlt).2.1.symm
        · exact .inl (h.seen j (by have : j.val ≠ i.val := fun e => hji (Fin.ext e); omega)
            hjw x hx hlt)

/-! ## The invariant of a run -/

/-- The ids are in order, every scan in progress is, the snapshot arrays have
room for all slots, and a header copy is a copy of a version. -/
structure IsolationInv (s : TransSys n) : Prop where
  ids : IdsOk s
  room : ∀ w, n ≤ (s.workers w).snapshot.xidArrMax
  scan : ∀ w i acc max, (s.workers w).phase = .snapshotSlot i acc max → ScanOk s w i acc max
  /-- A version keeps its index and its `tmin`. -/
  scanned : ∀ w v copy, (s.workers w).scanned = some (v, copy) →
    ∃ h, s.versions[v]? = some h ∧ h.tmin = copy.tmin

theorem TransInit.isolationInv {s : TransSys n} (h : TransInit s) : IsolationInv s where
  ids := h.idsOk
  room := h.room
  scan := by
    intro w i acc max hphase
    rw [(h.detached w).2.2.1] at hphase
    cases hphase
  scanned := by
    intro w v copy hcopy
    rw [(h.detached w).2.2.2] at hcopy
    cases hcopy

/-- A step keeps the versions at their indices, with their `tmin`. -/
theorem step_versions {s s' : TransSys n} {a : Fin n × Call} (h : IsolationInv s)
    (hstep : transStep s a = some s') {v : Nat} {old : TupleHeader}
    (hv : s.versions[v]? = some old) :
    ∃ new, s'.versions[v]? = some new ∧ new.tmin = old.tmin := by
  have hlt : v < s.versions.length := (List.getElem?_eq_some_iff.mp hv).1
  cases stepEffect (h.ids.ok a.1) hstep with
  | stay | own | finish | fetch | raise | scanStart | scanSlot | scanStore =>
    exact ⟨old, hv, rfl⟩
  | append tupHeader => exact ⟨old, by simpa [List.getElem?_append_left hlt] using hv, rfl⟩
  | stamp v' copy extra hcall hready hmine hcopy hok hcur =>
    simp only [setWorker_versions]
    rw [List.getElem?_append_left (by simpa using hlt)]
    by_cases hvv : v' = v
    · subst hvv
      obtain ⟨old', hold, htmin⟩ := h.scanned a.1 v' copy hcopy
      obtain rfl : old' = old := Option.some.inj (hold.symm.trans hv)
      exact ⟨_, List.getElem?_set_self hlt, htmin.symm⟩
    · exact ⟨old, by rw [List.getElem?_set_ne hvv]; exact hv, rfl⟩

/-- One allowed step keeps the invariant. -/
theorem IsolationInv.step {s s' : TransSys n} {a : Fin n × Call} (h : IsolationInv s)
    (hok : IsolationStep s a) (hstep : transStep s a = some s') : IsolationInv s' := by
  obtain ⟨hc, hread, -⟩ := hok
  obtain ⟨hnext, hcurrent⟩ := step_current h.ids hc hstep
  refine ⟨h.ids.step hc hstep, ?_, ?_, ?_⟩
  · intro w
    by_cases hw : w = a.1
    · subst hw
      have hroom := h.room a.1
      cases stepEffect (h.ids.ok a.1) hstep with
      | stay | append => exact hroom
      | own k _ _ _ _ hsnap => rwa [setWorker_self, hsnap]
      | fetch k _ _ _ _ _ hsnap => rwa [setWorker_self, hsnap]
      | raise k _ _ _ _ _ _ _ _ hsnap => rwa [setWorker_self, hsnap]
      | finish | stamp | scanStart | scanSlot => rwa [setWorker_self]
      | scanStore i acc max hphase hdone =>
        rw [setWorker_self]
        exact (h.scan a.1 i acc max hphase).room
    · rw [step_other h.ids hstep hw]
      exact h.room w
  · intro w i acc max hphase
    rcases scanning_step h.ids hstep hphase with hold | ⟨rfl, hready, hmine, rfl, rfl, rfl⟩ |
        ⟨rfl, j, acc₀, hold, rfl, rfl⟩
    · exact (h.scan w i acc max hold).mono hnext hcurrent
    · have hw := h.ids.ok a.1
      have hcur : (s.workers a.1).current = some (s.workers a.1).context.transactionID := by
        rw [current_ready hready, if_neg]
        simpa [Worker.Ok, hready, hmine] using hw
      exact (ScanOk.start _ (snapshotMax_le h.ids hc hcur) (h.room a.1)).mono hnext hcurrent
    · have hw := h.ids.ok a.1
      simp only [Worker.Ok, hold] at hw
      refine ((h.scan a.1 j acc₀ max hold).slot h.ids ?_ rfl ?_).mono hnext hcurrent
      · simp [Worker.current, hold, hw.2]
      · intro hne x hx hlt
        have hcall : a.2 = .proceed := by
          by_contra hcall
          have hnot : transStep s a = none := by
            unfold transStep
            split
            · contradiction
            · rw [if_neg (by simp [hold])]
          rw [hnot] at hstep
          cases hstep
        simp only [SlotReadOk, hcall, hold] at hread
        exact hread j rfl hne x hx hlt
  · intro w v copy hcopy
    have hkeep : (s.workers w).scanned = some (v, copy) →
        ∃ h, s'.versions[v]? = some h ∧ h.tmin = copy.tmin := by
      intro hcopy
      obtain ⟨old, hv, htmin⟩ := h.scanned w v copy hcopy
      obtain ⟨new, hv', htmin'⟩ := step_versions h hstep hv
      exact ⟨new, hv', htmin'.trans htmin⟩
    by_cases hw : w = a.1
    · subst hw
      have hfresh : s.versions[v]? = some copy →
          ∃ h, s'.versions[v]? = some h ∧ h.tmin = copy.tmin := step_versions h hstep
      cases stepEffect (h.ids.ok a.1) hstep with
      | stay | append => exact hkeep hcopy
      | own k _ _ _ _ _ hscanned =>
        rw [setWorker_self] at hcopy
        rcases hscanned with hs | hs | ⟨v', h', hs, hv⟩
        · rw [hs] at hcopy; cases hcopy
        · exact hkeep (hs ▸ hcopy)
        · rw [hs] at hcopy
          obtain ⟨rfl, rfl⟩ := Prod.mk.inj (Option.some.inj hcopy)
          exact hfresh hv
      | fetch k _ _ _ _ _ _ hscanned =>
        rw [setWorker_self, hscanned] at hcopy; exact hkeep hcopy
      | raise k _ _ _ _ _ _ _ _ _ hscanned =>
        rw [setWorker_self, hscanned] at hcopy; exact hkeep hcopy
      | stamp => rw [setWorker_self] at hcopy; cases hcopy
      | finish | scanStart | scanSlot | scanStore =>
        rw [setWorker_self] at hcopy; exact hkeep hcopy
    · rw [step_other h.ids hstep hw] at hcopy
      exact hkeep hcopy

theorem IsolationInv.run {s t : TransSys n} {acts : List (Fin n × Call)} (h : IsolationInv s)
    (hok : Along transStep IsolationStep s acts) (hrun : run transStep s acts = some t) :
    IsolationInv t :=
  run_invariant (fun h hok hstep => h.step hok hstep) h hok hrun

/-! ## The completed snapshot -/

/-- The loop of `GetActiveXtids` over `n` slots is over. -/
def Worker.SlotsRead (n : Nat) (k : Worker) : Prop :=
  match k.phase with
  | .snapshotSlot i acc _ => n ≤ i ∨ acc.full = true
  | _ => False

instance (n : Nat) (k : Worker) : Decidable (k.SlotsRead n) := by
  unfold Worker.SlotsRead; split <;> infer_instance

/-- Worker `w` has read the slots and stores its snapshot. -/
def SnapshotCompleted (s : TransSys n) (w : Fin n) (s' : TransSys n) : Prop :=
  (s.workers w).SlotsRead n ∧ transStep s (w, .proceed) = some s'

/-- `TupleVisibilitySatisfy` as worker `w` evaluates it. -/
def TransSys.visibility (s : TransSys n) (w : Fin n) (tupHeader : TupleHeader) :
    TupleVisibility :=
  tupleVisibilitySatisfy (s.workers w).currentTransactionID tupHeader
    (some (s.workers w).snapshot)

/-- The worker has a transaction `own` whose snapshot `snapshot` is complete. -/
structure SnapshotHeld (k : Worker) (own : Nat) (snapshot : SnapShotInfo) : Prop where
  mine : k.mine = true
  active : k.context.ts ≠ .idle
  ready : k.phase = .ready
  id : k.context.transactionID = own
  snapshot : k.snapshot = snapshot
  taken : k.context.snapshot = true

section Held

variable {k : Worker} {own : Nat} {snapshot : SnapShotInfo}

theorem SnapshotHeld.currentTransactionID (h : SnapshotHeld k own snapshot) :
    k.currentTransactionID = own := by
  simp [Worker.currentTransactionID, h.mine, h.id]

theorem SnapshotHeld.current (h : SnapshotHeld k own snapshot) : k.current = some own := by
  simp [current_ready h.ready, h.active, h.id]

theorem SnapshotHeld.visibility {s : TransSys n} {w : Fin n}
    (h : SnapshotHeld (s.workers w) own snapshot) (tupHeader : TupleHeader) :
    s.visibility w tupHeader = tupleVisibilitySatisfy own tupHeader (some snapshot) := by
  rw [TransSys.visibility, h.currentTransactionID, h.snapshot]

/-- The state of the slot may change under a held snapshot. -/
theorem SnapshotHeld.setState (h : SnapshotHeld k own snapshot) {ts : TransactionFSMState}
    (hts : ts ≠ .idle) : SnapshotHeld (k.setState ts) own snapshot :=
  ⟨h.mine, hts, h.ready, h.id, h.snapshot, h.taken⟩

/-- So may the header copy. -/
theorem SnapshotHeld.setScanned (h : SnapshotHeld k own snapshot)
    (scanned : Option (Nat × TupleHeader)) :
    SnapshotHeld { k with scanned := scanned } own snapshot :=
  ⟨h.mine, h.active, h.ready, h.id, h.snapshot, h.taken⟩

end Held

/-- The completed snapshot is the one the loop variables describe. -/
theorem snapshot_stored {s s' : TransSys n} {w : Fin n} (h : IdsOk s)
    (hdone : SnapshotCompleted s w s') :
    ∃ i acc max, (s.workers w).phase = .snapshotSlot i acc max ∧
      (n ≤ i ∨ acc.full = true) ∧ (s.workers w).context.ts ≠ .idle ∧
      SnapshotHeld (s'.workers w) (s.workers w).context.transactionID
        (acc.toSnapshot max) := by
  obtain ⟨hread, hstep⟩ := hdone
  unfold Worker.SlotsRead at hread
  split at hread
  case h_2 => exact hread.elim
  case h_1 i acc max hphase =>
  have hw := h.ok w
  simp only [Worker.Ok, hphase] at hw
  have hover : ¬ (i < n ∧ acc.full = false) := by
    rintro ⟨hlt, hfull⟩
    rcases hread with hn | hread
    · omega
    · rw [hfull] at hread; cases hread
  simp only [transStep, proceed, hphase] at hstep
  rw [dif_neg hover] at hstep
  obtain rfl := Option.some.inj hstep
  exact ⟨i, acc, max, hphase, hread, hw.2, by constructor <;> simp [hw]⟩

/-- In the state after its completion, the snapshot calls every unfinished
transaction but the worker's own running. -/
theorem snapshot_running {s s' : TransSys n} {w : Fin n} (h : IsolationInv s)
    (hok : IsolationStep s (w, .proceed)) (hdone : SnapshotCompleted s w s') :
    ∃ own snapshot, SnapshotHeld (s'.workers w) own snapshot ∧
      ∀ x, s'.Unfinished x → x ≠ own →
        tupleVisibililtySnapshot x snapshot = .inSnapshot := by
  obtain ⟨i, acc, max, hphase, hread, hts, hheld⟩ := snapshot_stored h.ids hdone
  have hscan := h.scan w i acc max hphase
  have hn : n ≤ i := by
    rcases hread with hn | hfull
    · exact hn
    · rw [hscan.full] at hfull; cases hfull
  refine ⟨_, _, hheld, ?_⟩
  intro x hx hne
  have habove : max ≤ x → tupleVisibililtySnapshot x (acc.toSnapshot max) = .inSnapshot :=
    fun hmax => visibilitySnapshot_of_high_le (Nat.le_trans hscan.min_le hmax) hmax
  rcases step_unfinished h.ids hok.1 hdone.2 hx with hx | ⟨j, hj⟩
  · exact habove (Nat.le_trans hscan.max_le hx)
  · have hjw : j ≠ w := by
      rintro rfl
      apply hne
      simpa [Worker.current, hphase, hts, eq_comm] using hj
    by_cases hlt : x < max
    · have hmem : x ∈ acc.xtids.take acc.count :=
        hscan.seen j (Nat.lt_of_lt_of_le j.isLt hn) hjw x hj hlt
      exact visibilitySnapshot_of_mem (hscan.low x hmem) hmem
    · exact habove (Nat.not_lt.mp hlt)

/-! ## Keeping the snapshot -/

/-- Worker `w` neither ends its transaction nor takes another snapshot. Under
repeatable read `GenerateSnapshot` takes none. -/
def KeepsSnapshot (w : Fin n) (s : TransSys n) (a : Fin n × Call) : Prop :=
  a.1 = w → a.2 ≠ .finishTransaction ∧
    (a.2 = .generateSnapshot → s.isolationLevel = .readRepeatable)

instance (w : Fin n) (s : TransSys n)
    (a : Fin n × Call) : Decidable (KeepsSnapshot w s a) := by
  unfold KeepsSnapshot; infer_instance

/-- Statements change nothing of their worker but the header copy. -/
theorem statement_worker {s s' : TransSys n} {w : Fin n} {c : Call}
    (hc : c = .insertTuple ∨ (∃ v, c = .scanTuple v) ∨ c = .updateTuple ∨ c = .deleteTuple)
    (h : transStep s (w, c) = some s') :
    ∃ scanned, s'.workers w = { s.workers w with scanned := scanned } := by
  have hstamp : ∀ update, stampTuple update s w = some s' →
      ∃ scanned, s'.workers w = { s.workers w with scanned := scanned } := by
    intro update h
    simp only [stampTuple] at h
    split at h
    · split at h
      · split at h
        · obtain rfl := Option.some.inj h; exact ⟨none, setWorker_self _ _ _⟩
        · obtain rfl := Option.some.inj h; exact ⟨none, setWorker_self _ _ _⟩
      · cases h
    · cases h
  rcases hc with rfl | ⟨v, rfl⟩ | rfl | rfl
  all_goals
    simp only [transStep] at h
    split at h
  case inl.isTrue =>
    unfold insertTuple at h
    split at h
    · obtain rfl := Option.some.inj h; exact ⟨(s.workers w).scanned, rfl⟩
    · cases h
  case inr.inl.isTrue =>
    unfold scanTuple at h
    split at h
    · split at h
      · obtain rfl := Option.some.inj h; exact ⟨_, setWorker_self _ _ _⟩
      · cases h
    · cases h
  case inr.inr.inl.isTrue => exact hstamp true h
  case inr.inr.inr.isTrue => exact hstamp false h
  all_goals cases h

/-- A step that keeps the snapshot keeps it held. -/
theorem SnapshotHeld.step {s s' : TransSys n} {w : Fin n} {own : Nat}
    {snapshot : SnapShotInfo}
    {a : Fin n × Call} (h : SnapshotHeld (s.workers w) own snapshot) (hids : IdsOk s)
    (hkeep : KeepsSnapshot w s a) (hstep : transStep s a = some s') :
    SnapshotHeld (s'.workers w) own snapshot := by
  by_cases ha : a.1 = w
  case neg => rwa [step_other hids hstep (Ne.symm ha)]
  obtain ⟨v, c⟩ := a
  obtain rfl : v = w := ha
  obtain ⟨hfinish, hgen⟩ := hkeep rfl
  have hattach : (s.workers v).attach = s.workers v := by simp [Worker.attach, h.mine]
  have hstatement : (c = .insertTuple ∨ (∃ v, c = .scanTuple v) ∨ c = .updateTuple ∨
      c = .deleteTuple) → SnapshotHeld (s'.workers v) own snapshot := by
    intro hc
    obtain ⟨scanned, hw⟩ := statement_worker hc hstep
    exact hw ▸ h.setScanned scanned
  cases c with
  | finishTransaction => exact absurd rfl hfinish
  | proceed => simp [transStep, proceed, h.ready] at hstep
  | startTransaction =>
    simp only [transStep, h.ready, if_true, startTransaction, h.mine,
      Option.some.injEq] at hstep
    exact hstep ▸ h
  | beginTransaction =>
    simp only [transStep, h.ready, if_true, beginTransaction, hattach,
      Option.some.injEq] at hstep
    split at hstep
    · rename_i hidle; exact absurd hidle h.active
    · obtain rfl := hstep
      rw [setWorker_self]
      exact h.setState (by simp)
    · obtain rfl := hstep
      rwa [setWorker_self]
  | endTransaction | abortTransaction =>
    simp only [transStep, h.ready, if_true, endTransaction,
      abortTransaction, leaveTransaction,
      h.mine, h.active, if_false, Option.some.injEq, Bool.true_eq_false] at hstep
    obtain rfl := hstep
    rw [setWorker_self]
    exact h.setState (by simp)
  | generateSnapshot =>
    simp only [transStep, h.ready, if_true, generateSnapshot, h.mine, hgen rfl, h.taken,
      if_false, Option.some.injEq, Bool.true_eq_false, and_self] at hstep
    exact hstep ▸ h
  | insertTuple => exact hstatement (.inl rfl)
  | scanTuple v => exact hstatement (.inr (.inl ⟨v, rfl⟩))
  | updateTuple => exact hstatement (.inr (.inr (.inl rfl)))
  | deleteTuple => exact hstatement (.inr (.inr (.inr rfl)))

/-! ## The verdicts -/

/-- A version created by a transaction the snapshot calls running is invisible
to every other transaction. -/
theorem visibility_of_creator_running {own : Nat} {tupHeader : TupleHeader}
    {snapshot : SnapShotInfo} (hne : tupHeader.tmin ≠ own)
    (hin : tupleVisibililtySnapshot tupHeader.tmin snapshot = .inSnapshot) :
    tupleVisibilitySatisfy own tupHeader (some snapshot) = .tupleInvisible := by
  have hnot : ¬ snapshot.CountsAsOver own tupHeader.tmin := by
    simp [countsAsOver_iff_not_running, hne, hin]
  simp [tupleVisibilitySatisfy_eq, hnot]

/-- A `tmax` of another transaction that the snapshot calls running has no
effect on the verdict. -/
theorem visibility_of_deleter_running {own : Nat} {old new : TupleHeader}
    {snapshot : SnapShotInfo} (htmin : new.tmin = old.tmin) (hold : old.tmax = invalidXtid)
    (hne : new.tmax ≠ own)
    (hin : tupleVisibililtySnapshot new.tmax snapshot = .inSnapshot) :
    tupleVisibilitySatisfy own new (some snapshot)
      = tupleVisibilitySatisfy own old (some snapshot) := by
  have hnot : ¬ snapshot.CountsAsOver own new.tmax := by
    simp [countsAsOver_iff_not_running, hne, hin]
  simp [tupleVisibilitySatisfy_eq, htmin, hold, hnot]

/-- A step of another worker leaves the verdict on every version as it is. -/
theorem step_visibility {s s' : TransSys n} {w : Fin n} {own : Nat} {snapshot : SnapShotInfo}
    {a : Fin n × Call} (h : IsolationInv s) (hheld : SnapshotHeld (s.workers w) own snapshot)
    (hrunning : ∀ x, s.Unfinished x → x ≠ own →
      tupleVisibililtySnapshot x snapshot = .inSnapshot)
    (hok : IsolationStep s a) (ha : a.1 ≠ w) (hstep : transStep s a = some s')
    {v : Nat} {old : TupleHeader} (hv : s.versions[v]? = some old) :
    ∃ new, s'.versions[v]? = some new ∧
      tupleVisibilitySatisfy own new (some snapshot)
        = tupleVisibilitySatisfy own old (some snapshot) := by
  have hlt : v < s.versions.length := (List.getElem?_eq_some_iff.mp hv).1
  cases stepEffect (h.ids.ok a.1) hstep with
  | stay | own | finish | fetch | raise | scanStart | scanSlot | scanStore =>
    exact ⟨old, hv, rfl⟩
  | append tupHeader => exact ⟨old, by simpa [List.getElem?_append_left hlt] using hv, rfl⟩
  | stamp v' copy extra hcall hready hmine hcopy hsat hcur =>
    simp only [setWorker_versions]
    rw [List.getElem?_append_left (by simpa using hlt)]
    by_cases hvv : v' = v
    · subst hvv
      obtain ⟨old', hold', htmin⟩ := h.scanned a.1 v' copy hcopy
      obtain rfl : old' = old := Option.some.inj (hold'.symm.trans hv)
      have hfresh : old'.tmax = invalidXtid := by
        have hstamp := hok.2.2
        rcases hcall with hcall | hcall <;>
          simp only [StampFresh, hcall, hcopy] at hstamp <;> exact hstamp hsat old' hv
      have hne : (s.workers a.1).context.transactionID ≠ own := by
        intro heq
        exact ha (h.ids.unique a.1 w own (heq ▸ hcur) hheld.current)
      exact ⟨_, List.getElem?_set_self hlt,
        visibility_of_deleter_running htmin.symm hfresh hne
        (hrunning _ (.inr ⟨a.1, hcur⟩) hne)⟩
    · exact ⟨old, by rw [List.getElem?_set_ne hvv]; exact hv, rfl⟩

/-! ## Isolation -/

/-- Isolation of a completed snapshot, in runs of allowed steps. As long as
worker `w` keeps the snapshot it completed in `s₁`, no version created by
another transaction that was unfinished in `s₁` is visible to it, and no steps
of the other workers change its verdict on a version. -/
theorem snapshot_isolation {s₀ s s₁ s₂ : TransSys n} {w : Fin n}
    {acts acts₂ : List (Fin n × Call)} (hinit : TransInit s₀)
    (hok : Along transStep IsolationStep s₀ (acts ++ [(w, .proceed)]))
    (hrun : run transStep s₀ acts = some s) (hdone : SnapshotCompleted s w s₁)
    (hok₂ : Along transStep (fun t a => IsolationStep t a ∧ KeepsSnapshot w t a) s₁ acts₂)
    (hrun₂ : run transStep s₁ acts₂ = some s₂) :
    (∀ tupHeader : TupleHeader, s₁.Unfinished tupHeader.tmin →
      tupHeader.tmin ≠ (s₁.workers w).currentTransactionID →
      s₂.visibility w tupHeader = .tupleInvisible) ∧
    ∀ (acts₃ : List (Fin n × Call)) (s₃ : TransSys n),
      Along transStep (fun t a => IsolationStep t a ∧ a.1 ≠ w) s₂ acts₃ →
      run transStep s₂ acts₃ = some s₃ →
      ∀ (v : Nat) (old : TupleHeader), s₂.versions[v]? = some old →
        ∃ new, s₃.versions[v]? = some new ∧ s₃.visibility w new = s₂.visibility w old := by
  obtain ⟨hok, hlast⟩ := (along_append hrun).mp hok
  have hinv : IsolationInv s := hinit.isolationInv.run hok hrun
  obtain ⟨own, snapshot, hheld, hrunning⟩ := snapshot_running hinv hlast.1 hdone
  have hinv₁ : IsolationInv s₁ := hinv.step hlast.1 hdone.2
  -- What holds from the completion on: nobody unfinished is called over.
  let I : TransSys n → Prop := fun t => IsolationInv t ∧
    SnapshotHeld (t.workers w) own snapshot ∧ ∀ x, t.Unfinished x → x ≠ own →
      tupleVisibililtySnapshot x snapshot = .inSnapshot
  have hI : ∀ {t t' : TransSys n} {a : Fin n × Call}, I t →
      (IsolationStep t a ∧ KeepsSnapshot w t a) → transStep t a = some t' → I t' := by
    rintro t t' a ⟨hinv, hheld, hrunning⟩ ⟨hok, hkeep⟩ hstep
    exact ⟨hinv.step hok hstep, hheld.step hinv.ids hkeep hstep, fun x hx hne =>
      hrunning x (step_unfinished hinv.ids hok.1 hstep hx) hne⟩
  have hI₂ : I s₂ := run_invariant hI ⟨hinv₁, hheld, hrunning⟩ hok₂ hrun₂
  constructor
  · intro tupHeader hunfinished hne
    rw [hheld.currentTransactionID] at hne
    rw [hI₂.2.1.visibility]
    exact visibility_of_creator_running hne (hrunning _ hunfinished hne)
  · intro acts₃ s₃ hok₃ hrun₃ v old hv
    have hI' : ∀ {t t' : TransSys n} {a : Fin n × Call}, I t →
        (IsolationStep t a ∧ a.1 ≠ w) → transStep t a = some t' → I t' :=
      fun hIt hok hstep => hI hIt ⟨hok.1, fun ha => absurd ha hok.2⟩ hstep
    let R : TransSys n → TransSys n → Prop := fun t t' =>
      ∀ (v : Nat) (old : TupleHeader), t.versions[v]? = some old → ∃ new,
        t'.versions[v]? = some new ∧ tupleVisibilitySatisfy own new (some snapshot)
        = tupleVisibilitySatisfy own old (some snapshot)
    have hR : R s₂ s₃ := by
      refine run_relation (I := I) (R := R) (fun t v old hv => ⟨old, hv, rfl⟩) ?_ hI' ?_
        hI₂ hok₃ hrun₃
      · intro t t' t'' h h' v old hv
        obtain ⟨new, hnew, hvis⟩ := h v old hv
        obtain ⟨new', hnew', hvis'⟩ := h' v new hnew
        exact ⟨new', hnew', hvis'.trans hvis⟩
      · rintro t a t' ⟨hinv, hheld, hrunning⟩ ⟨hok, ha⟩ hstep v old hv
        exact step_visibility hinv hheld hrunning hok ha hstep hv
    have hI₃ : I s₃ := run_invariant hI' hI₂ hok₃ hrun₃
    obtain ⟨new, hnew, hvis⟩ := hR v old hv
    exact ⟨new, hnew, by rw [hI₃.2.1.visibility, hI₂.2.1.visibility, hvis]⟩

/-! ## Concrete schedules -/

/-- A fresh server with `n` workers and no data. -/
def freshServer (n : Nat) : TransSys n where
  info := TransactionIDInfo.init
  workers := fun _ =>
    { mine := false, context := ⟨.idle, 0, false⟩, phase := .ready
      snapshot := ⟨0, 0, 0, List.replicate n 0⟩, scanned := none }
  versions := []
  isolationLevel := .readRepeatable
  rolledBack := []

theorem freshServer_init (n : Nat) : TransInit (freshServer n) := by
  constructor <;>
    simp [freshServer, TransactionIDInfo.init, xtidModulus, SnapShotInfo.xidArrMax]

/-- `StartTransaction`, from its call to the stored id. -/
def startCalls (w : Fin n) : List (Fin n × Call) :=
  [(w, .startTransaction), (w, .proceed), (w, .proceed)]

/-- Worker 0 takes its snapshot while worker 1 has inserted a row. -/
def twoWorkersSchedule : List (Fin 2 × Call) :=
  startCalls 1 ++ [(1, .insertTuple)] ++ startCalls 0 ++
    [(0, .generateSnapshot), (0, .proceed), (0, .proceed)]

/-- The row of worker 1 stays invisible, also after worker 1 has finished. -/
theorem snapshot_isolation_two_workers :
    let s₁ := exec transStep (freshServer 2) (twoWorkersSchedule ++ [(0, .proceed)])
    let s₂ := exec transStep s₁ [(1, .finishTransaction), (1, .proceed)]
    s₂.visibility 0 (computeXminTupleHeader 1 TupleHeader.blank) = .tupleInvisible := by
  intro s₁ s₂
  obtain ⟨hrun, hstep⟩ := exec_snoc transStep (freshServer 2) twoWorkersSchedule
    (0, .proceed) (by decide)
  have hrun₂ : run transStep s₁ [(1, .finishTransaction), (1, .proceed)] = some s₂ :=
    run_exec (by decide)
  exact (snapshot_isolation (freshServer_init 2) (by decide) hrun ⟨by decide, hstep⟩
    (by decide) hrun₂).1 (computeXminTupleHeader 1 TupleHeader.blank)
      (.inr ⟨1, by decide⟩) (by decide)

/-- Worker 1 has fetched id 1 and not stored it; worker 2 starts and finishes
transaction 2; worker 0 takes its snapshot with upper bound 3. -/
def startWindowSchedule : List (Fin 3 × Call) :=
  [(1, .startTransaction), (1, .proceed)] ++ startCalls 2 ++
    [(2, .finishTransaction), (2, .proceed)] ++ startCalls 0 ++
    [(0, .generateSnapshot), (0, .proceed), (0, .proceed), (0, .proceed)]

/-- In that schedule the array holds the stale id of slot 1, transaction 1
counts as over, and the row it then inserts is visible to worker 0 although
transaction 1 was unfinished at the snapshot's completion and still is. -/
theorem snapshot_not_isolated :
    ∃ (s s₁ s₂ : TransSys 3) (tupHeader : TupleHeader),
      TransInit (freshServer 3) ∧ run transStep (freshServer 3) startWindowSchedule = some s ∧
      SnapshotCompleted s 0 s₁ ∧
      run transStep s₁ [(1, .proceed), (1, .insertTuple)] = some s₂ ∧
      s₂.versions[0]? = some tupHeader ∧
      s₁.Unfinished tupHeader.tmin ∧ s₂.Unfinished tupHeader.tmin ∧
      tupHeader.tmin ≠ (s₁.workers 0).currentTransactionID ∧
      s₂.visibility 0 tupHeader = .tupleVisible := by
  obtain ⟨hrun, hstep⟩ := exec_snoc transStep (freshServer 3) startWindowSchedule
    (0, .proceed) (by decide)
  exact ⟨_, _, _, computeXminTupleHeader 1 TupleHeader.blank, freshServer_init 3, hrun,
    ⟨by decide, hstep⟩, run_exec (by decide), by decide, .inr ⟨1, by decide⟩,
    .inr ⟨1, by decide⟩, by decide, by decide⟩

end Toadb
