/-
Toadb.Transaction.SysGlobalTheorems — the transaction counters over restarts.

`ReadSysGlobalData` sets the highest finished id to the next id, one more than there is: an
initial `transactionInfo` has it one below. So right after a restart the two counters
are equal, and they stay so until an id is handed out (`counters_ok_iff`). The rest holds
all the time: no id is handed out twice, and an id that is handed out after a snapshot is
at or above its upper bound, since a worker that takes a snapshot has an id.

`ServerInv` is the invariant. Between a stop and the next start the counters are in the
file, and it needs the two records to be written and read whole: nobody looks at what
`WriteSysGlobalData` and `ReadSysGlobalData` return.
-/
import Toadb.Transaction.SysGlobal
import Toadb.Transaction.IsolationTheorems

namespace Toadb

open Bytes Transition

variable {n : Nat} {s s' : ServerSys n}

/-! ## The file -/

theorem length_sysGlobalDataBytes (objectId : Nat) :
    (sysGlobalDataBytes objectId).length = sysGlobalDataSize := length_ofNat ..

theorem TransactionIDInfo.length_bytes (info : TransactionIDInfo) :
    info.bytes.length = transactionInfoSize := by
  simp [TransactionIDInfo.bytes, transactionInfoSize]

theorem TransactionIDInfo.next_ofBytes {info : TransactionIDInfo}
    (h : info.nextTransactionId < xtidModulus) :
    (ofBytes info.bytes).nextTransactionId = info.nextTransactionId := by
  have hnext : info.nextTransactionId < 256 ^ 8 := by
    simpa [xtidModulus] using h
  rw [ofBytes, bytes, splitNat_ofNat hnext]

theorem fileWrite_zero (file bs : List UInt8) :
    fileWrite file 0 bs = bs ++ file.drop bs.length := by
  simp [fileWrite]

theorem fileWrite_append {front : List UInt8} {pos : Nat} (h : front.length = pos)
    (rest bs : List UInt8) :
    fileWrite (front ++ rest) pos bs = front ++ bs ++ rest.drop bs.length := by
  subst h
  have hgap : front.length - (front ++ rest).length = 0 := by
    rw [List.length_append]
    omega
  rw [fileWrite, hgap, List.take_left, List.drop_append]
  simp

theorem fileRead_append {front bs : List UInt8} {pos size : Nat} (hpos : front.length = pos)
    (hsize : bs.length = size) (rest : List UInt8) :
    fileRead (front ++ bs ++ rest) pos size = bs := by
  rw [fileRead, List.append_assoc, List.drop_left' hpos, List.take_left' hsize]

/-- Both records are written whole. -/
theorem writeSysGlobalData_whole (sysContext : SysGlobalContext)
    {written : Nat × Nat} (file : List UInt8)
    (hopened : sysContext.opened = true) (hdata : sysGlobalDataSize ≤ written.1)
    (hinfo : transactionInfoSize ≤ written.2) :
    ∃ rest, (writeSysGlobalData sysContext written file).2 =
      sysGlobalDataBytes sysContext.objectId ++ sysContext.transInfo.bytes ++ rest := by
  have hlen := length_sysGlobalDataBytes sysContext.objectId
  have hlen' := sysContext.transInfo.length_bytes
  have htake : (sysGlobalDataBytes sysContext.objectId).take written.1 =
      sysGlobalDataBytes sysContext.objectId := List.take_of_length_le (hlen ▸ hdata)
  have htake' : sysContext.transInfo.bytes.take written.2 = sysContext.transInfo.bytes :=
    List.take_of_length_le (hlen' ▸ hinfo)
  simp only [writeSysGlobalData, hopened, htake, htake', hlen, hlen', fileWrite_zero]
  exact ⟨_, fileWrite_append hlen _ _⟩

/-- Both records are read whole: the counters are all the next id. -/
theorem readSysGlobalData_whole (sysContext : SysGlobalContext) (objectId : Nat)
    {delivered : Nat × Nat}
    {info : TransactionIDInfo} (rest : List UInt8) (hopened : sysContext.opened = true)
    (hdata : sysGlobalDataSize ≤ delivered.1) (hinfo : transactionInfoSize ≤ delivered.2)
    (hnext : info.nextTransactionId < xtidModulus) :
    let result :=
      readSysGlobalData sysContext delivered
        (sysGlobalDataBytes objectId ++ info.bytes ++ rest)
    result.1 = 0 ∧ result.2.transInfo =
      ⟨info.nextTransactionId, info.nextTransactionId, info.nextTransactionId⟩ := by
  have hlen := length_sysGlobalDataBytes objectId
  have hlen' := info.length_bytes
  have hread :
      fileRead (sysGlobalDataBytes objectId ++ info.bytes ++ rest) 0 sysGlobalDataSize =
      sysGlobalDataBytes objectId := by
    rw [List.append_assoc, fileRead, List.drop_zero, List.take_left' hlen]
  have hread' := fileRead_append hlen hlen' rest
  have htake : (sysGlobalDataBytes objectId).take delivered.1 = sysGlobalDataBytes objectId :=
    List.take_of_length_le (hlen ▸ hdata)
  have htake' : info.bytes.take delivered.2 = info.bytes :=
    List.take_of_length_le (hlen' ▸ hinfo)
  have hdrop : sysContext.transInfo.bytes.drop transactionInfoSize = [] :=
    List.drop_eq_nil_of_le (by rw [TransactionIDInfo.length_bytes])
  generalize sysGlobalDataBytes objectId ++ info.bytes ++ rest = file at hread hread' ⊢
  simp [readSysGlobalData, hopened, hread, hread', htake, htake', hlen, hlen', hdrop,
    TransactionIDInfo.next_ofBytes hnext]

/-- There is no record yet. -/
theorem readSysGlobalData_nil (sysContext : SysGlobalContext) (delivered : Nat × Nat) :
    (readSysGlobalData sysContext delivered []).1 = -1 ∧
      (readSysGlobalData sysContext delivered []).2.transInfo = sysContext.transInfo := by
  unfold readSysGlobalData
  split
  · simp
  · simp [fileRead, sysGlobalDataSize]

/-! ## The invariant -/

/-- A bound that is at most the next id, and that no id handed out later is below. -/
structure BoundOk (s : ServerSys n) (bound count : Nat) : Prop where
  le_next : bound ≤ s.trans.info.nextTransactionId
  later : ∀ xid ∈ s.allocated.drop count, bound ≤ xid

/-- The counters are in the file. -/
def Stored (s : ServerSys n) : Prop :=
  (s.file = [] ∧ s.trans.info = TransactionIDInfo.init) ∨
    ∃ objectId rest, s.file = sysGlobalDataBytes objectId ++ s.trans.info.bytes ++ rest

/-- The invariant of the server. -/
structure ServerInv (s : ServerSys n) : Prop where
  ids : IdsOk s.trans
  next_pos : 0 < s.trans.info.nextTransactionId
  next_lt : s.trans.info.nextTransactionId < xtidModulus
  handed : ∀ xid ∈ s.allocated, xid < s.trans.info.nextTransactionId
  once : s.allocated.Nodup
  restored : s.restored = true → s.trans.info.highLevelXtid = s.trans.info.nextTransactionId
  used : s.restored = false → s.trans.info.highLevelXtid < s.trans.info.nextTransactionId
  scanning : ∀ w i acc max, (s.trans.workers w).phase = .snapshotSlot i acc max →
    acc.min ≤ max ∧ BoundOk s max (s.boundAt w)
  taken : ∀ p ∈ s.taken, p.1.lowLevel ≤ p.1.highLevel ∧ BoundOk s p.1.highLevel p.2
  stored : s.running = false → Stored s

theorem serverInv_init (isolationLevel : TransactionIsolationLevel) :
    ServerInv (serverInit n isolationLevel) where
  ids := idsOk_of_idle (fun _ => ⟨rfl, rfl, rfl⟩) Nat.one_pos (Nat.zero_le 1)
  next_pos := Nat.one_pos
  next_lt := show 1 < xtidModulus by decide
  handed := by simp [serverInit]
  once := List.nodup_nil
  restored := by simp [serverInit]
  used _ := Nat.one_pos
  scanning := by simp [serverInit]
  taken := by simp [serverInit]
  stored _ := .inl ⟨rfl, rfl⟩

/-! ## The steps -/

/-- The steps the theorem allows: the counter does not wrap around, and the records are
written and read whole. -/
def ServerStepOk (s : ServerSys n) : ServerCall n → Prop
  | .work w call => CounterOk s.trans (w, call)
  | .getAndIncObjectId => True
  | .stop opens written =>
      (s.opened = true ∨ opens = true) ∧ sysGlobalDataSize ≤ written.1 ∧
        transactionInfoSize ≤ written.2
  | .start opens delivered _ =>
      opens = true ∧ sysGlobalDataSize ≤ delivered.1 ∧ transactionInfoSize ≤ delivered.2

instance (s : ServerSys n) (a : ServerCall n) : Decidable (ServerStepOk s a) := by
  unfold ServerStepOk
  split <;> infer_instance

/-- A step of a worker hands out the next id, or none. -/
theorem handedOut_cases {trans trans' : TransSys n} {a : Fin n × Call} (h : IdsOk trans)
    (hc : CounterOk trans a) (hstep : transStep trans a = some trans') :
    (handedOut trans.info trans'.info = [trans.info.nextTransactionId] ∧
        trans'.info.nextTransactionId = trans.info.nextTransactionId + 1) ∨
      (handedOut trans.info trans'.info = [] ∧
        trans'.info.nextTransactionId = trans.info.nextTransactionId) := by
  unfold handedOut
  rcases step_counters h hc hstep with ⟨hnext, -⟩ | ⟨hnext, -⟩
  · refine .inl ⟨if_neg ?_, hnext⟩
    omega
  · exact .inr ⟨if_pos hnext, hnext⟩

/-- What a step of a worker hands out is the next id. -/
theorem eq_next_of_mem_handedOut {info info' : TransactionIDInfo} {xid : Nat}
    (h : xid ∈ handedOut info info') : xid = info.nextTransactionId := by
  unfold handedOut at h
  split at h
  · cases h
  · simpa using h

/-- A bound stays in order when a worker takes a step. -/
theorem BoundOk.work {trans : TransSys n} {w : Fin n} {bound count : Nat}
    (h : BoundOk s bound count)
    (hnext : s.trans.info.nextTransactionId ≤ trans.info.nextTransactionId) :
    BoundOk (s.work w trans) bound count where
  le_next := h.le_next.trans hnext
  later xid hxid := by
    simp only [ServerSys.work, List.drop_append] at hxid
    rcases List.mem_append.mp hxid with hxid | hxid
    · exact h.later xid hxid
    · rw [eq_next_of_mem_handedOut (List.mem_of_mem_drop hxid)]
      exact h.le_next

theorem activeXtidsSlot_min_le (own : Option Nat) (max : Nat) (acc : ActiveXtids)
    (slot : TransactionContext) :
    (activeXtidsSlot own max acc slot).min ≤ acc.min := by
  unfold activeXtidsSlot
  split
  · exact le_rfl
  · split
    · exact le_rfl
    · split
      · exact le_rfl
      · dsimp only
        split <;> omega

/-- A worker inside `GetActiveXtids` keeps its count. -/
theorem work_boundAt {trans : TransSys n} {w w' : Fin n}
    (h : w' ≠ w ∨ (s.trans.workers w).phase ≠ .ready) :
    (s.work w trans).boundAt w' = s.boundAt w' := by
  simp only [ServerSys.work]
  split
  · rename_i henters
    rcases h with hne | hphase
    · exact Function.update_of_ne hne _ _
    · unfold entersScan at henters
      split at henters
      · rename_i hready _
        exact absurd hready hphase
      · cases henters
  · rfl

/-- A step of a worker keeps what is known of the workers inside `GetActiveXtids`. -/
theorem ServerInv.work_scanning {trans : TransSys n} {w : Fin n}
    {call : Call} (h : ServerInv s) (hc : CounterOk s.trans (w, call))
    (hstep : transStep s.trans (w, call) = some trans) {w' : Fin n}
    {i : Nat} {acc : ActiveXtids} {max : Nat}
    (hphase : (trans.workers w').phase = .snapshotSlot i acc max) :
    acc.min ≤ max ∧ BoundOk (s.work w trans) max ((s.work w trans).boundAt w') := by
  have hnext := (step_current h.ids hc hstep).1
  rcases scanning_step h.ids hstep hphase with hold | ⟨rfl, hready, hmine, -, hmax, hacc⟩ |
    ⟨rfl, j, acc₀, hold, -, hacc⟩
  · have hkept : (s.work w trans).boundAt w' = s.boundAt w' := by
      refine work_boundAt ?_
      by_cases hw : w' = w
      · subst hw
        exact .inr (by simp [hold])
      · exact .inl hw
    obtain ⟨hmin, hbound⟩ := h.scanning w' i acc max hold
    exact ⟨hmin, hkept ▸ hbound.work hnext⟩
  · -- The bound has just been read.
    have henters : entersScan (s.trans.workers w') (trans.workers w') = true := by
      simp [entersScan, hready, hphase]
    have hcount : (s.work w' trans).boundAt w' = s.allocated.length := by
      simp [ServerSys.work, henters]
    have hcur : ∃ x, (s.trans.workers w').current = some x := by
      have hok := h.ids.ok w'
      simp only [Worker.Ok, hready, hmine, true_iff] at hok
      exact ⟨_, by rw [current_ready hready, if_neg hok]⟩
    obtain ⟨x, hx⟩ := hcur
    have hle := snapshotMax_le h.ids hc hx
    rw [hcount]
    refine ⟨?_, BoundOk.work ⟨hmax ▸ hle, by simp⟩ hnext⟩
    subst hacc
    simp only [activeXtidsInit]
    exact snapshotMin_le _ _
  · obtain ⟨hmin, hbound⟩ := h.scanning w' j acc₀ max hold
    have hkept : (s.work w' trans).boundAt w' = s.boundAt w' :=
      work_boundAt (.inr (by simp [hold]))
    refine ⟨?_, hkept ▸ hbound.work hnext⟩
    subst hacc
    exact (activeXtidsSlot_min_le ..).trans hmin

/-- The snapshot of a worker that leaves `GetActiveXtids`. -/
theorem snapshot_of_leavesScan {trans trans' : TransSys n} {w : Fin n} {call : Call}
    (hstep : transStep trans (w, call) = some trans') {i : Nat}
    {acc : ActiveXtids} {max : Nat}
    (hphase : (trans.workers w).phase = .snapshotSlot i acc max)
    (hready : (trans'.workers w).phase = .ready) :
    (trans'.workers w).snapshot = acc.toSnapshot max := by
  cases call with
  | proceed =>
    by_cases hover : i < n ∧ acc.full = false
    · simp only [transStep, proceed, hphase, dif_pos hover, Option.some.injEq] at hstep
      rw [← hstep, setWorker_self] at hready
      cases hready
    · simp only [transStep, proceed, hphase, dif_neg hover, Option.some.injEq] at hstep
      rw [← hstep, setWorker_self]
  | startTransaction | beginTransaction | endTransaction | abortTransaction
  | finishTransaction
  | generateSnapshot | insertTuple | scanTuple | updateTuple | deleteTuple =>
    simp [transStep, hphase] at hstep

/-- A step of a worker keeps what is known of the snapshots. -/
theorem ServerInv.work_taken {trans : TransSys n} {w : Fin n} {call : Call} (h : ServerInv s)
    (hc : CounterOk s.trans (w, call)) (hstep : transStep s.trans (w, call) = some trans)
    {p : SnapShotInfo × Nat} (hp : p ∈ (s.work w trans).taken) :
    p.1.lowLevel ≤ p.1.highLevel ∧ BoundOk (s.work w trans) p.1.highLevel p.2 := by
  have hnext := (step_current h.ids hc hstep).1
  have hold : p ∈ s.taken → p.1.lowLevel ≤ p.1.highLevel ∧
      BoundOk (s.work w trans) p.1.highLevel p.2 := by
    intro hp
    obtain ⟨hlow, hbound⟩ := h.taken p hp
    exact ⟨hlow, hbound.work hnext⟩
  simp only [ServerSys.work] at hp
  split at hp
  · rename_i hleaves
    rcases List.mem_cons.mp hp with rfl | hp
    · -- The snapshot that is stored is the one of the loop variables.
      unfold leavesScan at hleaves
      split at hleaves
      · rename_i i acc max hphase hready
        obtain ⟨hmin, hbound⟩ := h.scanning w i acc max hphase
        have hsnapshot := snapshot_of_leavesScan hstep hphase hready
        rw [hsnapshot]
        exact ⟨hmin, hbound.work hnext⟩
      · cases hleaves
    · exact hold hp
  · exact hold hp

/-- A step of a worker keeps the invariant. -/
theorem ServerInv.work {trans : TransSys n} {w : Fin n} {call : Call} (h : ServerInv s)
    (hrunning : s.running = true) (hc : CounterOk s.trans (w, call))
    (hstep : transStep s.trans (w, call) = some trans) : ServerInv (s.work w trans) := by
  have hnext := (step_current h.ids hc hstep).1
  have hcounters := step_counters h.ids hc hstep
  have hids := handedOut_cases h.ids hc hstep
  have hlt := h.next_lt
  refine ⟨h.ids.step hc hstep, h.next_pos.trans_le hnext, ?_, ?_, ?_, ?_, ?_,
    fun w' i acc max => h.work_scanning hc hstep, fun p => h.work_taken hc hstep, ?_⟩
  · show trans.info.nextTransactionId < xtidModulus
    unfold CounterOk at hc
    omega
  · intro xid hxid
    show xid < trans.info.nextTransactionId
    rcases List.mem_append.mp hxid with hxid | hxid
    · exact (h.handed xid hxid).trans_le hnext
    · rcases hids with ⟨hhanded, hsucc⟩ | ⟨hhanded, -⟩
      · rw [eq_next_of_mem_handedOut hxid, hsucc]
        exact Nat.lt_succ_self _
      · rw [hhanded] at hxid
        cases hxid
  · refine List.nodup_append.mpr ⟨h.once, ?_, fun xid hxid xid' hxid' heq => ?_⟩
    · rcases hids with ⟨hhanded, -⟩ | ⟨hhanded, -⟩ <;> simp [hhanded]
    · have hlt' := h.handed xid hxid
      rw [heq, eq_next_of_mem_handedOut hxid'] at hlt'
      exact lt_irrefl _ hlt'
  · -- Nothing was handed out, so the high level has not moved either.
    intro hrestored
    simp only [ServerSys.work, Bool.and_eq_true, List.isEmpty_iff] at hrestored ⊢
    have hhigh := h.restored hrestored.1
    rcases hids with ⟨hhanded, -⟩ | ⟨-, hsame⟩
    · rw [hhanded] at hrestored
      cases hrestored.2
    · omega
  · intro hused
    simp only [ServerSys.work, Bool.and_eq_false_iff] at hused ⊢
    have hle : s.trans.info.highLevelXtid ≤ s.trans.info.nextTransactionId := by
      cases hr : s.restored with
      | true => exact le_of_eq (h.restored hr)
      | false => exact le_of_lt (h.used hr)
    rcases hids with ⟨-, hsucc⟩ | ⟨hhanded, hsame⟩
    · omega
    · have hr := hused.resolve_right (by simp [hhanded])
      have hhigh := h.used hr
      omega
  · intro hstopped
    exact absurd (hrunning.symm.trans hstopped) (by decide)

/-- The end of the server: the counters are in the file. -/
theorem ServerInv.stop {opens : Bool} {written : Nat × Nat} (h : ServerInv s)
    (hopened : s.opened = true ∨ opens = true) (hdata : sysGlobalDataSize ≤ written.1)
    (hinfo : transactionInfoSize ≤ written.2) : ServerInv (s.stop opens written) where
  ids := h.ids
  next_pos := h.next_pos
  next_lt := h.next_lt
  handed := h.handed
  once := h.once
  restored := h.restored
  used := h.used
  scanning w i acc max hphase := by
    obtain ⟨hmin, hbound⟩ := h.scanning w i acc max hphase
    exact ⟨hmin, hbound.le_next, hbound.later⟩
  taken p hp := by
    obtain ⟨hlow, hbound⟩ := h.taken p hp
    exact ⟨hlow, hbound.le_next, hbound.later⟩
  stored _ := by
    have hopen : (s.opened || opens) = true := by simpa using hopened
    obtain ⟨rest, hfile⟩ :=
      writeSysGlobalData_whole ⟨s.opened || opens, s.objectId, s.trans.info⟩ s.file hopen
        hdata hinfo
    exact .inr ⟨s.objectId, rest, hfile⟩

/-- What the start reads: the counters as they were, with the highest finished id one too
high, if there is a record. -/
theorem start_counters {opens : Bool} {delivered : Nat × Nat} (h : ServerInv s)
    (hstored : Stored s) (hopens : opens = true) (hdata : sysGlobalDataSize ≤ delivered.1)
    (hinfo : transactionInfoSize ≤ delivered.2) :
    let result := readSysGlobalData ⟨opens, 0, TransactionIDInfo.init⟩ delivered s.file
    result.2.transInfo.nextTransactionId = s.trans.info.nextTransactionId ∧
      (result.1 = 0 → result.2.transInfo.highLevelXtid = s.trans.info.nextTransactionId) ∧
      (result.1 ≠ 0 → result.2.transInfo.highLevelXtid < s.trans.info.nextTransactionId) := by
  rcases hstored with ⟨hfile, hinit⟩ | ⟨objectId, rest, hfile⟩
  · obtain ⟨hret, hcounters⟩ :=
      readSysGlobalData_nil ⟨opens, 0, TransactionIDInfo.init⟩ delivered
    dsimp only
    rw [hfile, hinit, hret, hcounters]
    exact ⟨rfl, fun hret => absurd hret (by decide), fun _ => Nat.one_pos⟩
  · obtain ⟨hret, hcounters⟩ :=
      readSysGlobalData_whole ⟨opens, 0, TransactionIDInfo.init⟩ objectId rest
        hopens hdata hinfo h.next_lt
    dsimp only
    rw [hfile, hret, hcounters]
    exact ⟨rfl, fun _ => rfl, fun hret => absurd rfl hret⟩

theorem ServerInv.start {opens : Bool} {delivered : Nat × Nat} (h : ServerInv s)
    (hrunning : s.running = false)
    (hopens : opens = true) (hdata : sysGlobalDataSize ≤ delivered.1)
    (hinfo : transactionInfoSize ≤ delivered.2)
    (snapshots : Fin n → SnapShotInfo) : ServerInv (s.start opens delivered snapshots) := by
  obtain ⟨hnext, hrecord, hnone⟩ := start_counters h (h.stored hrunning) hopens hdata hinfo
  unfold ServerSys.start
  generalize readSysGlobalData ⟨opens, 0, TransactionIDInfo.init⟩ delivered s.file = result
    at hnext hrecord hnone ⊢
  obtain ⟨ret, sysContext⟩ := result
  dsimp only at hnext hrecord hnone ⊢
  have hle : sysContext.transInfo.highLevelXtid ≤ sysContext.transInfo.nextTransactionId := by
    by_cases hret : ret = 0
    · rw [hrecord hret, hnext]
    · exact le_of_lt ((hnone hret).trans_eq hnext.symm)
  refine ⟨idsOk_of_idle (fun _ => ⟨rfl, rfl, rfl⟩) (hnext ▸ h.next_pos) hle,
    hnext ▸ h.next_pos,
    hnext ▸ h.next_lt, hnext ▸ h.handed, h.once, ?_, ?_, ?_, ?_, ?_⟩
  · intro hrestored
    exact (hrecord (by simpa using hrestored)).trans hnext.symm
  · intro hused
    exact (hnone (by simpa using hused)).trans_eq hnext.symm
  · intro w i acc max hphase
    cases hphase
  · intro p hp
    obtain ⟨hlow, hbound⟩ := h.taken p hp
    exact ⟨hlow, hnext ▸ hbound.le_next, hbound.later⟩
  · intro hstopped
    cases hstopped

/-- One step keeps the invariant. -/
theorem ServerInv.step {a : ServerCall n} (h : ServerInv s) (hok : ServerStepOk s a)
    (hstep : serverStep s a = some s') : ServerInv s' := by
  cases a with
  | work w call =>
    simp only [serverStep, Option.ite_none_right_eq_some, Option.map_eq_some_iff] at hstep
    obtain ⟨hrunning, trans, htrans, rfl⟩ := hstep
    exact h.work hrunning hok htrans
  | getAndIncObjectId =>
    simp only [serverStep, Option.ite_none_right_eq_some, Option.some.injEq] at hstep
    obtain ⟨hrunning, rfl⟩ := hstep
    refine ⟨h.ids, h.next_pos, h.next_lt, h.handed, h.once, h.restored, h.used, ?_, ?_, ?_⟩
    · intro w i acc max hphase
      obtain ⟨hmin, hbound⟩ := h.scanning w i acc max hphase
      exact ⟨hmin, hbound.le_next, hbound.later⟩
    · intro p hp
      obtain ⟨hlow, hbound⟩ := h.taken p hp
      exact ⟨hlow, hbound.le_next, hbound.later⟩
    · exact h.stored
  | stop opens written =>
    simp only [serverStep, Option.ite_none_right_eq_some, Option.some.injEq] at hstep
    obtain ⟨-, rfl⟩ := hstep
    exact h.stop hok.1 hok.2.1 hok.2.2
  | start opens delivered snapshots =>
    simp only [serverStep, Option.ite_none_left_eq_some, Option.some.injEq,
      Bool.not_eq_true] at hstep
    obtain ⟨hrunning, rfl⟩ := hstep
    exact h.start hrunning hok.1 hok.2.1 hok.2.2 snapshots

/-! ## The counters -/

/-- The highest finished id is below the next id, no id is handed out twice, and what is
handed out after a snapshot counts as running for it. -/
structure CountersOk (s : ServerSys n) : Prop where
  high : s.trans.info.highLevelXtid < s.trans.info.nextTransactionId
  once : s.allocated.Nodup
  later : ∀ snapshot count, (snapshot, count) ∈ s.taken → ∀ xid ∈ s.allocated.drop count,
    snapshot.highLevel ≤ xid ∧ tupleVisibililtySnapshot xid snapshot = .inSnapshot

/-- In every run the counters are in order if and only if an id has been handed out since the
last start that read a record. -/
theorem counters_ok_iff (n : Nat) (isolationLevel : TransactionIsolationLevel)
    (as : List (ServerCall n)) (s : ServerSys n)
    (hsteps : Along serverStep ServerStepOk (serverInit n isolationLevel) as)
    (hrun : run serverStep (serverInit n isolationLevel) as = some s) :
    CountersOk s ↔ s.restored = false := by
  have h : ServerInv s := run_invariant (I := ServerInv) (fun h hok hstep => h.step hok hstep)
    (serverInv_init isolationLevel) hsteps hrun
  constructor
  · intro hcounters
    by_contra hrestored
    have hhigh := h.restored (by simpa using hrestored)
    exact absurd hcounters.high (by omega)
  · intro hused
    refine ⟨h.used hused, h.once, fun snapshot count hp xid hxid => ?_⟩
    obtain ⟨hlow, hbound⟩ := h.taken (snapshot, count) hp
    have hhigh := hbound.later xid hxid
    exact ⟨hhigh, visibilitySnapshot_of_high_le (hlow.trans hhigh) hhigh⟩

/-- The first start, a transaction that takes its snapshot and finishes, the end and a
restart. -/
def restartSchedule : List (ServerCall 1) :=
  [.start true (28, 28) fun _ => ⟨0, 0, 0, [0]⟩] ++
    ([.startTransaction, .proceed, .proceed, .generateSnapshot, .proceed,
      .proceed, .finishTransaction,
      .proceed] : List Call).map (.work 0) ++
    [.stop true (28, 28), .start true (28, 28) fun _ => ⟨0, 0, 0, [0]⟩]

/-- With the first transaction after the restart the counters are in order. -/
theorem counters_ok_after_restart :
    CountersOk (exec serverStep (serverInit 1 .readRepeatable)
      (restartSchedule ++ [.work 0 .startTransaction, .work 0 .proceed])) :=
  (counters_ok_iff 1 .readRepeatable _ _ (by decide) (run_exec (by decide))).mpr (by decide)

/-- After the restart the highest finished id is the next id, 2. -/
theorem counters_equal_after_restart :
    ¬ ∀ (n : Nat) (isolationLevel : TransactionIsolationLevel)
      (as : List (ServerCall n)) (s : ServerSys n),
      run serverStep (serverInit n isolationLevel) as = some s → CountersOk s := by
  intro h
  have hcounters := h 1 .readRepeatable restartSchedule _ (run_exec (by decide))
  exact absurd hcounters.high (by decide)

end Toadb
