/-
Toadb.Transaction.SnapshotTheorems — what `GetActiveXtids` records and what
the snapshot test answers.

The loop of `GetActiveXtids` is solved once and for all: started on the old
array `A`, it records the first `k` ids of the other non-idle slots, where
`k` is the number of leading cells of `A` that do not exceed the new upper
bound (`activeXtidsLoop_eq`). The reason is that the filter of the loop
reads the cell about to be overwritten. Once that cell exceeds the bound
nothing is stored any more and every later slot meets the same cell.

`getSnapshot_content_iff` turns this into the exact condition under which a
snapshot lists the running transactions.
-/
import Toadb.Transaction.Snapshot

namespace Toadb

/-! ## The snapshot test -/

theorem mem_runningXids_iff (x : Nat) (snapshot : SnapShotInfo) :
    xtidIsInSnapshot x snapshot = true ↔ x ∈ snapshot.runningXids := by
  simp [xtidIsInSnapshot]

/-- Ids from the upper bound on count as running. -/
theorem visibilitySnapshot_of_high_le {x : Nat} {snapshot : SnapShotInfo}
    (hlow : snapshot.lowLevel ≤ x) (hhigh : snapshot.highLevel ≤ x) :
    tupleVisibililtySnapshot x snapshot = .inSnapshot := by
  simp [tupleVisibililtySnapshot, Nat.not_lt.mpr hlow, Nat.not_lt.mpr hhigh]

/-- Recorded ids that respect the low water mark count as running. -/
theorem visibilitySnapshot_of_mem {x : Nat} {snapshot : SnapShotInfo}
    (hlow : snapshot.lowLevel ≤ x) (hmem : x ∈ snapshot.runningXids) :
    tupleVisibililtySnapshot x snapshot = .inSnapshot := by
  have hin : xtidIsInSnapshot x snapshot = true := (mem_runningXids_iff x snapshot).mpr hmem
  simp [tupleVisibililtySnapshot, Nat.not_lt.mpr hlow, hin]

/-- Below the upper bound and not recorded: the transaction counts as over. -/
theorem visibilitySnapshot_of_not_mem {x : Nat} {snapshot : SnapShotInfo}
    (hhigh : x < snapshot.highLevel) (hmem : x ∉ snapshot.runningXids) :
    tupleVisibililtySnapshot x snapshot = .outSnapshot := by
  have hin : xtidIsInSnapshot x snapshot = false := by
    simpa [xtidIsInSnapshot] using hmem
  simp [tupleVisibililtySnapshot, hhigh, hin]

/-- The test has two answers. -/
theorem visibilitySnapshot_in_or_out (x : Nat) (snapshot : SnapShotInfo) :
    tupleVisibililtySnapshot x snapshot = .inSnapshot ∨
      tupleVisibililtySnapshot x snapshot = .outSnapshot := by
  unfold tupleVisibililtySnapshot
  split
  · exact .inr rfl
  · split
    · split
      · exact .inl rfl
      · exact .inr rfl
    · exact .inl rfl

/-- The snapshot of transaction `own` counts `x` as over, or `x` is `own`. -/
def SnapShotInfo.CountsAsOver (snapshot : SnapShotInfo) (own x : Nat) : Prop :=
  x = own ∨ tupleVisibililtySnapshot x snapshot = .outSnapshot

instance (snapshot : SnapShotInfo) (own x : Nat) :
    Decidable (snapshot.CountsAsOver own x) := by
  unfold SnapShotInfo.CountsAsOver; infer_instance

theorem countsAsOver_iff_not_running (snapshot : SnapShotInfo) (own x : Nat) :
    snapshot.CountsAsOver own x ↔
      ¬ (x ≠ own ∧ tupleVisibililtySnapshot x snapshot = .inSnapshot) := by
  rcases visibilitySnapshot_in_or_out x snapshot with h | h <;>
    simp [SnapShotInfo.CountsAsOver, h]

/-- The verdict on a version: visible exactly when its creator counts as over
and its deleter, if any, does not. -/
theorem tupleVisibilitySatisfy_eq (own : Nat) (tupHeader : TupleHeader)
    (snapshot : SnapShotInfo) :
    tupleVisibilitySatisfy own tupHeader (some snapshot) =
      if (tupHeader.tmin ≠ invalidXtid ∧ snapshot.CountsAsOver own tupHeader.tmin) ∧
        ¬ (tupHeader.tmax ≠ invalidXtid ∧ snapshot.CountsAsOver own tupHeader.tmax)
      then .tupleVisible else .tupleInvisible := by
  simp only [countsAsOver_iff_not_running, tupleVisibilitySatisfy, getTransactionState,
    xtidIsInvalid_iff]
  by_cases hmin : tupHeader.tmin = invalidXtid
  · simp [hmin]
  · by_cases hcreator : tupHeader.tmin ≠ own ∧
        tupleVisibililtySnapshot tupHeader.tmin snapshot = .inSnapshot
    · simp [hmin, hcreator]
    · by_cases hmax : tupHeader.tmax = invalidXtid
      · simp [hmin, hcreator, hmax]
      · by_cases hdeleter : tupHeader.tmax ≠ own ∧
            tupleVisibililtySnapshot tupHeader.tmax snapshot = .inSnapshot
        · simp [hmin, hcreator, hmax, hdeleter]
        · simp [hmin, hcreator, hmax, hdeleter]

/-! ## The loop -/

/-- The ids `GetActiveXtids` should look at: those of the non-idle slots of
the other transactions, in slot order. -/
def runningIds (own : Option Nat) (slots : List TransactionContext) : List Nat :=
  (slots.filter fun slot => !slotSkipped own slot).map (·.transactionID)

theorem runningIds_cons_skipped {own : Option Nat} {slot : TransactionContext}
    {slots : List TransactionContext} (h : slotSkipped own slot = true) :
    runningIds own (slot :: slots) = runningIds own slots := by
  simp [runningIds, h]

theorem runningIds_cons_running {own : Option Nat} {slot : TransactionContext}
    {slots : List TransactionContext} (h : slotSkipped own slot = false) :
    runningIds own (slot :: slots) = slot.transactionID :: runningIds own slots := by
  simp [runningIds, h]

theorem runningIds_length_le (own : Option Nat) (slots : List TransactionContext) :
    (runningIds own slots).length ≤ slots.length := by
  simpa [runningIds] using List.length_filter_le _ slots

/-- The number of leading cells that do not exceed the bound: the loop stops
recording there. -/
def staleCut (max : Nat) (cells : List Nat) : Nat := cells.findIdx fun x => decide (max < x)

/-- After its `break` the loop changes nothing. -/
theorem activeXtidsLoop_full {own : Option Nat} {max : Nat} {acc : ActiveXtids}
    (h : acc.full = true) (slots : List TransactionContext) :
    activeXtidsLoop own max slots acc = acc := by
  induction slots with
  | nil => rfl
  | cons slot slots ih => simpa [activeXtidsLoop, activeXtidsSlot, h] using ih

theorem activeXtidsLoop_cons (own : Option Nat) (max : Nat) (slot : TransactionContext)
    (slots : List TransactionContext) (acc : ActiveXtids) :
    activeXtidsLoop own max (slot :: slots) acc
      = activeXtidsLoop own max slots (activeXtidsSlot own max acc slot) := rfl

/-- The slot is skipped, or the cell it would be stored into exceeds the bound. -/
theorem activeXtidsSlot_stay {own : Option Nat} {max : Nat} {acc : ActiveXtids}
    {slot : TransactionContext}
    (h : slotSkipped own slot = true ∨ max < acc.xtids.getD acc.count 0) :
    activeXtidsSlot own max acc slot = acc := by
  unfold activeXtidsSlot
  split
  · rfl
  · split
    · rfl
    · rcases h with h | h
      · contradiction
      · rw [if_pos h]

/-- The slot's id is stored into the next cell. -/
theorem activeXtidsSlot_write {own : Option Nat} {max : Nat} {slot : TransactionContext}
    (done rest : List Nat) (r m : Nat) (hrun : slotSkipped own slot = false) (hr : r ≤ max) :
    activeXtidsSlot own max ⟨done ++ r :: rest, done.length, m, false⟩ slot
      = ⟨(done ++ [slot.transactionID]) ++ rest, (done ++ [slot.transactionID]).length,
          if slot.transactionID < m then slot.transactionID else m,
          decide (rest.length = 0)⟩ := by
  have hset : (done ++ r :: rest).set done.length slot.transactionID
      = (done ++ [slot.transactionID]) ++ rest := by simp
  simp [activeXtidsSlot, hrun, Nat.not_lt.mpr hr, hset]

/-- The loop, solved: with the cells `done` already written and the old cells
`rest` ahead, the first `staleCut max rest` running ids are recorded, and the
minimum ends below every one of them. -/
theorem activeXtidsLoop_eq (own : Option Nat) (max : Nat) :
    ∀ (slots : List TransactionContext) (done rest : List Nat) (m : Nat),
      (runningIds own slots).length ≤ rest.length →
      ∃ m' full,
        activeXtidsLoop own max slots ⟨done ++ rest, done.length, m, false⟩ =
          ⟨done ++ (runningIds own slots).take (staleCut max rest) ++
              rest.drop ((runningIds own slots).take (staleCut max rest)).length,
            done.length + ((runningIds own slots).take (staleCut max rest)).length,
              m', full⟩ ∧
        m' ≤ m ∧ ∀ x ∈ (runningIds own slots).take (staleCut max rest), m' ≤ x := by
  intro slots
  induction slots with
  | nil =>
    intro done rest m _
    exact ⟨m, false, by simp [runningIds, activeXtidsLoop],
      Nat.le_refl m, by simp [runningIds]⟩
  | cons slot slots ih =>
    intro done rest m hroom
    rw [activeXtidsLoop_cons]
    cases hskip : slotSkipped own slot with
    | true =>
      rw [runningIds_cons_skipped hskip] at hroom ⊢
      rw [activeXtidsSlot_stay (.inl hskip)]
      exact ih done rest m hroom
    | false =>
      rw [runningIds_cons_running hskip] at hroom ⊢
      cases rest with
      | nil => simp at hroom
      | cons r rest =>
        simp only [List.length_cons, Nat.add_le_add_iff_right] at hroom
        by_cases hstale : max < r
        · -- The stale cell stays where it is, so every later slot meets it too.
          have hcut : staleCut max (r :: rest) = 0 := by
            simp [staleCut, List.findIdx_cons, hstale]
          obtain ⟨m', full, hloop, hm, -⟩ := ih done (r :: rest) m (by simp; omega)
          rw [activeXtidsSlot_stay (.inr (by simpa using hstale)), hcut]
          rw [hcut] at hloop
          exact ⟨m', full, by simpa using hloop, hm, by simp⟩
        · have hcut : staleCut max (r :: rest) = staleCut max rest + 1 := by
            simp [staleCut, List.findIdx_cons, hstale]
          rw [activeXtidsSlot_write done rest r m hskip (Nat.not_lt.mp hstale), hcut,
            List.take_succ_cons]
          cases rest with
          | nil =>
            have hnil : runningIds own slots = [] := by simpa using hroom
            refine ⟨if slot.transactionID < m then slot.transactionID
              else m, true, ?_, ?_, ?_⟩
            · rw [activeXtidsLoop_full (by simp), hnil]; simp
            · split <;> omega
            · simp only [hnil, List.take_nil, List.mem_singleton, forall_eq]
              split <;> omega
          | cons r' rest =>
            obtain ⟨m', full, hloop, hm, hmem⟩ :=
              ih (done ++ [slot.transactionID]) (r' :: rest)
                (if slot.transactionID < m then slot.transactionID else m) hroom
            refine ⟨m', full, ?_, ?_, ?_⟩
            · have hmore : decide ((r' :: rest).length = 0) = false := by simp
              rw [hmore, hloop]
              simp [Nat.add_assoc, Nat.add_comm 1]
            · split at hm <;> omega
            · intro x hx
              rcases List.mem_cons.mp hx with rfl | hx
              · split at hm <;> omega
              · exact hmem x hx

/-! ## The content of a snapshot -/

/-- The snapshot `GetSnapshot` builds, solved. -/
theorem getSnapshot_spec (info : TransactionIDInfo) (own : Option Nat)
    (slots : List TransactionContext) (snapshot : SnapShotInfo)
    (hroom : slots.length ≤ snapshot.xidArrMax) :
    let new := getSnapshot info own slots snapshot
    new.runningXids
        = (runningIds own slots).take (staleCut (snapshotMax info) snapshot.runningXidArr) ∧
      new.highLevel = snapshotMax info ∧ ∀ x ∈ new.runningXids, new.lowLevel ≤ x := by
  obtain ⟨m', full, hloop, -, hmin⟩ := activeXtidsLoop_eq own (snapshotMax info) slots []
    snapshot.runningXidArr (snapshotMin own (snapshotMax info))
    (Nat.le_trans (runningIds_length_le own slots) hroom)
  simp only [List.nil_append, List.length_nil, Nat.zero_add] at hloop
  simp only [getSnapshot, getActiveXtids, activeXtidsInit, hloop, ActiveXtids.toSnapshot,
    SnapShotInfo.runningXids, List.take_left, true_and]
  exact hmin

/-- What a snapshot of a slot table must be: its array holds exactly the ids
of the other running transactions up to its upper bound, its low water mark
is below all of them, and the snapshot test calls each of them running. -/
structure SnapshotContent (own : Option Nat) (slots : List TransactionContext)
    (snapshot : SnapShotInfo) : Prop where
  exact : ∀ x, x ∈ snapshot.runningXids ↔ x ∈ runningIds own slots ∧ x ≤ snapshot.highLevel
  low : ∀ x ∈ snapshot.runningXids, snapshot.lowLevel ≤ x
  running : ∀ x ∈ runningIds own slots, x ≤ snapshot.highLevel →
    tupleVisibililtySnapshot x snapshot = .inSnapshot

/-- The old array cuts the running ids exactly where they pass the bound: the
ids before the cut are within it, and no id within it is lost behind the cut. -/
def StaleCutAligned (max : Nat) (ids old : List Nat) : Prop :=
  (∀ x ∈ ids.take (staleCut max old), x ≤ max) ∧
    ∀ x ∈ ids.drop (staleCut max old), x ≤ max → x ∈ ids.take (staleCut max old)

instance (max : Nat) (ids old : List Nat) : Decidable (StaleCutAligned max ids old) := by
  unfold StaleCutAligned; infer_instance

/-- A refilled snapshot has the right content exactly when the old array cuts
the running ids at the bound. -/
theorem getSnapshot_content_iff (info : TransactionIDInfo) (own : Option Nat)
    (slots : List TransactionContext) (snapshot : SnapShotInfo)
    (hroom : slots.length ≤ snapshot.xidArrMax) :
    SnapshotContent own slots (getSnapshot info own slots snapshot) ↔
      StaleCutAligned (snapshotMax info) (runningIds own slots) snapshot.runningXidArr := by
  obtain ⟨hxids, hhigh, hlow⟩ := getSnapshot_spec info own slots snapshot hroom
  generalize getSnapshot info own slots snapshot = new at hxids hhigh hlow ⊢
  have hsplit : ∀ x, x ∈ runningIds own slots ↔ x ∈ new.runningXids ∨
      x ∈ (runningIds own slots).drop
        (staleCut (snapshotMax info) snapshot.runningXidArr) := by
    intro x
    rw [hxids, ← List.mem_append, List.take_append_drop]
  unfold StaleCutAligned
  rw [← hxids, ← hhigh] at *
  constructor
  · intro hcontent
    refine ⟨fun x hx => ((hcontent.exact x).mp hx).2, fun x hx hle => ?_⟩
    exact (hcontent.exact x).mpr ⟨(hsplit x).mpr (.inr hx), hle⟩
  · rintro ⟨hbound, hlost⟩
    have hexact : ∀ x, x ∈ new.runningXids ↔
        x ∈ runningIds own slots ∧ x ≤ new.highLevel := by
      intro x
      constructor
      · exact fun hx => ⟨(hsplit x).mpr (.inl hx), hbound x hx⟩
      · rintro ⟨hx, hle⟩
        rcases (hsplit x).mp hx with hx | hx
        · exact hx
        · exact hlost x hx hle
    exact ⟨hexact, hlow, fun x hx hle =>
      have hmem := (hexact x).mpr ⟨hx, hle⟩
      visibilitySnapshot_of_mem (hlow x hmem) hmem⟩

/-- Slots 7 (the caller), 3 and 6 under bound 6, on an array left by an earlier
snapshot whose cells are all within the bound. -/
theorem getSnapshot_content_reused :
    SnapshotContent (some 7) [⟨.begin, 7, true⟩, ⟨.begin, 3, true⟩, ⟨.start, 6, false⟩]
      (getSnapshot ⟨11, 0, 5⟩ (some 7)
        [⟨.begin, 7, true⟩, ⟨.begin, 3, true⟩, ⟨.start, 6, false⟩] ⟨4, 2, 2, [2, 3, 0]⟩) :=
  (getSnapshot_content_iff ⟨11, 0, 5⟩ (some 7) _ ⟨4, 2, 2, [2, 3, 0]⟩ (by decide)).mpr
    (by decide)

/-- The old cell 10 exceeds the new bound 6, so the running transaction 3 is
left out of the array and counts as over. -/
theorem getSnapshot_omits_running :
    ¬ SnapshotContent (some 7) [⟨.begin, 7, true⟩, ⟨.begin, 3, true⟩]
      (getSnapshot ⟨11, 0, 5⟩ (some 7) [⟨.begin, 7, true⟩, ⟨.begin, 3, true⟩]
        ⟨9, 7, 1, [10, 0]⟩) := by
  intro h
  have hout := h.running 3 (by decide) (by decide)
  revert hout
  decide

end Toadb
