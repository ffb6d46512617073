/-
Toadb.Lock.RWLockTheorems — do the mode and the count say who has the lock?

  * `RWLockInfo.Mirrors` — they do;
  * `RWLockInfo.Ok`      — the invariant: what the point of a thread says about the
                           mode and the lock, and which readers the count misses.

An attempt that is refused sets the mode and adds to the count all the same (`refusedWrites`).
In a run without such steps the mode and the count are right while somebody has the lock, and
after a writer. The last reader leaves its mode behind, as the count that `ReleaseRWLock`
compares with 0 is the one before the subtraction (`mirrors_iff`).
-/
import Toadb.Lock.RWLock
import Mathlib.Data.List.Perm.Subperm
import Mathlib.Data.List.Nodup

namespace Toadb

open Transition

/-! ## The points of a thread -/

namespace RWLockPoint

variable {m m' : RWLockMode} {R R' W W' : Prop} {point : RWLockPoint}

/-- The thread is a reader that the count does not have. -/
def uncounted : RWLockPoint → Bool
  | .compareMode .read true | .setMode .read true | .testRead .read true | .addCnt .read
      true | .unlock true => true
  | _ => false

/-- The mode or the count is about to be written for an attempt that was refused. -/
def refused : RWLockPoint → Bool
  | .setMode _ false | .addCnt _ false => true
  | _ => false

/-- What a point says about the mode `m`, and about the thread as a reader and as a writer. -/
def Ok (m : RWLockMode) (R W : Prop) : RWLockPoint → Prop
  | .compareMode .read true | .setMode .read true | .subCnt => R
  | .testRead .read true | .addCnt .read true | .unlock true => R ∧ m = .read
  | .compareMode .write true | .setMode .write true | .clearMode false => W
  | .testRead .write true => W ∧ m = .write
  | .unlock false => W ∧ m = .null
  | .testWrite => (W → m = .write) ∧ (W ∨ R)
  | .addCnt .write true | .clearMode true => False
  | .compareMode .null true | .setMode .null true | .testRead .null
      true | .addCnt .null true => False
  | .outside | .compareMode _ false | .setMode _ false | .testRead _ false | .addCnt _
      false => W → m = .write

theorem Ok.reader (h : point.Ok m R W) (hpoint : point.uncounted = true) : R := by
  unfold uncounted at hpoint
  split at hpoint
  case h_6 => cases hpoint
  case h_1 | h_2 => exact h
  all_goals exact h.1

/-- The steps of the other threads. -/
theorem Ok.frame (h : point.Ok m R W) (hreader : R → R') (hwriter : W' ↔ W)
    (hmode : m' = m ∨ ¬ W ∧ (R → m' = .read)) : point.Ok m' R' W' := by
  obtain rfl : W' = W := propext hwriter
  unfold Ok at h
  rcases hmode with rfl | ⟨hnot, hread⟩
  · split at h <;> simp only [Ok] <;> tauto
  · split at h <;> simp only [Ok] <;> tauto

/-- The mode is compared. -/
theorem Ok.compare {mode : RWLockMode} {acquired : Bool}
    (h : (compareMode mode acquired).Ok m R W) :
    (if m = mode then testRead mode acquired else setMode mode acquired).Ok m R W := by
  split
  next heq => cases acquired <;> cases mode <;> first | exact h | exact ⟨h, heq⟩
  next => cases acquired <;> cases mode <;> exact h

theorem uncounted_compare {mode : RWLockMode} {acquired : Bool} :
    (if m = mode then testRead mode acquired else setMode mode acquired).uncounted =
      (compareMode mode acquired).uncounted := by
  split <;> cases acquired <;> cases mode <;> rfl

/-- A reader finds its mode, and a writer another one. -/
theorem Ok.test {mode : RWLockMode} {acquired : Bool}
    (h : (testRead mode acquired).Ok m R W) :
    (if m = .read then addCnt mode acquired else outside).Ok m R W ∧
      (if m = .read then addCnt mode acquired else outside).uncounted =
        (testRead mode acquired).uncounted := by
  cases acquired with
  | false =>
    split
    next => cases mode <;> exact ⟨h, rfl⟩
    next => cases mode <;> exact ⟨h, rfl⟩
  | true =>
    cases mode with
    | null => exact h.elim
    | read =>
      rw [if_pos h.2]
      exact ⟨h, rfl⟩
    | write =>
      rw [if_neg (by rw [h.2]; exact nofun)]
      exact ⟨fun _ => h.2, rfl⟩

end RWLockPoint

/-! ## The lock -/

namespace RWLockInfo

variable {n maxReaders : Nat} {s s' : RWLockInfo n} {t u : Fin n}
  {point : RWLockPoint} {l : List (Fin n)}

/-- The mode and the count say who has the lock. -/
structure Mirrors (s : RWLockInfo n) : Prop where
  count : s.rlockCnt = s.readers.length
  write : s.lockMode = .write ↔ s.writer.isSome = true
  null : s.lockMode = .null ↔ s.writer = none ∧ s.readers = []

/-- No call is in progress. -/
def Idle (s : RWLockInfo n) : Prop := ∀ t, s.points t = .outside

instance (s : RWLockInfo n) : Decidable s.Idle :=
  inferInstanceAs (Decidable (∀ t, s.points t = .outside))

/-- The step writes the mode or the count for an attempt that was refused. -/
def refusedWrites (s : RWLockInfo n) : Act n → Bool
  | .proceed t => (s.points t).refused
  | _ => false

/-- Nobody has the lock, and the last to have it was a reader. -/
structure LeftByReader (s : RWLockInfo n) : Prop where
  writer : s.writer = none
  readers : s.readers = []
  freedBy : s.freedBy = .read

/-- The readers that the count does not have. -/
structure Misses (points : Fin n → RWLockPoint) (l : List (Fin n)) : Prop where
  nodup : l.Nodup
  mem : ∀ t, t ∈ l ↔ (points t).uncounted = true

/-- The invariant. -/
structure Ok (maxReaders : Nat) (s : RWLockInfo n) : Prop where
  points : ∀ t, (s.points t).Ok s.lockMode (t ∈ s.readers) (s.writer = some t)
  exclusive : s.writer.isSome = true → s.readers = []
  count : ∃ l, Misses s.points l ∧ s.rlockCnt + l.length = s.readers.length
  bounded : s.readers.length ≤ maxReaders
  read : 0 < s.rlockCnt → s.lockMode = .read
  free : s.writer = none → s.readers = [] →
    s.lockMode = if s.freedBy = .read then .read else .null

/-! ### The readers that are not counted -/

theorem Misses.same {points : Fin n → RWLockPoint} (h : Misses points l)
    (hpoint : point.uncounted = (points t).uncounted) :
    Misses (Function.update points t point) l where
  nodup := h.nodup
  mem u := by
    rw [h.mem]
    by_cases hu : u = t
    · rw [hu, Function.update_self, hpoint]
    · rw [Function.update_of_ne hu]

theorem Misses.cons {points : Fin n → RWLockPoint} (h : Misses points l)
    (hold : (points t).uncounted = false)
    (hnew : point.uncounted = true) : Misses (Function.update points t point) (t :: l) where
  nodup := List.nodup_cons.mpr ⟨fun hmem => by simp [(h.mem t).mp hmem] at hold, h.nodup⟩
  mem u := by
    by_cases hu : u = t
    · simp [hu, hnew]
    · simp [hu, h.mem]

theorem Misses.erase {points : Fin n → RWLockPoint} (h : Misses points l)
    (hold : (points t).uncounted = true) (hnew : point.uncounted = false) :
    Misses (Function.update points t point) (l.erase t) ∧
      (l.erase t).length + 1 = l.length := by
  have hmem : t ∈ l := (h.mem t).mpr hold
  refine ⟨⟨h.nodup.erase t, fun u => ?_⟩, ?_⟩
  · rw [h.nodup.mem_erase_iff]
    by_cases hu : u = t
    · simp [hu, hnew]
    · simp [hu, h.mem]
  · have hpos := List.length_pos_of_mem hmem
    rw [List.length_erase_of_mem hmem]
    omega

/-- A reader that is not missing is counted. -/
theorem Ok.cnt_pos (h : s.Ok maxReaders) (hreader : t ∈ s.readers)
    (hpoint : (s.points t).uncounted = false) :
    0 < s.rlockCnt := by
  obtain ⟨l, hl, hcount⟩ := h.count
  have hnodup : (t :: l).Nodup :=
    List.nodup_cons.mpr ⟨fun hmem => by simp [(hl.mem t).mp hmem] at hpoint, hl.nodup⟩
  have hsub : t :: l ⊆ s.readers :=
    List.cons_subset.mpr ⟨hreader, fun u hu => (h.points u).reader ((hl.mem u).mp hu)⟩
  have hle := (List.subperm_of_subset hnodup hsub).length_le
  rw [List.length_cons] at hle
  omega

/-! ### Steps -/

/-- A step of one thread, and what it leaves to the others. -/
theorem Ok.update {readers : List (Fin n)} {writer : Option (Fin n)} {m : RWLockMode}
    (h : s.Ok maxReaders) (hown : point.Ok m (t ∈ readers) (writer = some t))
    (hreader : ∀ u, u ≠ t → u ∈ s.readers → u ∈ readers)
    (hwriter : ∀ u, u ≠ t → (writer = some u ↔ s.writer = some u))
    (hmode : ∀ u, u ≠ t → m = s.lockMode ∨ s.writer ≠ some u ∧ (u ∈ s.readers → m = .read))
    (u : Fin n) :
    (Function.update s.points t point u).Ok m (u ∈ readers) (writer = some u) := by
  by_cases hu : u = t
  · rw [hu, Function.update_self]
    exact hown
  · rw [Function.update_of_ne hu]
    exact (h.points u).frame (hreader u hu) (hwriter u hu) (hmode u hu)

/-- A step that only moves a thread. -/
theorem Ok.setPoint (h : s.Ok maxReaders)
    (hown : point.Ok s.lockMode (t ∈ s.readers) (s.writer = some t))
    (hsame : point.uncounted = (s.points t).uncounted) :
    (s.setPoint t point).Ok maxReaders where
  points := h.update hown (fun _ _ => id) (fun _ _ => Iff.rfl) fun _ _ => .inl rfl
  exclusive := h.exclusive
  count := by
    obtain ⟨l, hl, hcount⟩ := h.count
    exact ⟨l, hl.same hsame, hcount⟩
  bounded := h.bounded
  read := h.read
  free := h.free

/-- A writer excludes readers. -/
theorem Ok.readers_nil (h : s.Ok maxReaders) (hwriter : s.writer = some t) :
    s.readers = [] ∧ s.rlockCnt = 0 := by
  have hreaders := h.exclusive (by rw [hwriter]; rfl)
  obtain ⟨l, -, hcount⟩ := h.count
  rw [hreaders, List.length_nil] at hcount
  exact ⟨hreaders, by omega⟩

theorem Ok.writer_none (h : s.Ok maxReaders) (hreader : t ∈ s.readers) : s.writer = none := by
  cases hwriter : s.writer with
  | none => rfl
  | some w =>
    rw [(h.readers_nil hwriter).1] at hreader
    cases hreader

/-- The lock is given to a thread. -/
theorem Ok.enter {mode : RWLockMode} (h : s.Ok maxReaders) (hpoint : s.points t = .outside)
    (hstep : s.enter maxReaders t mode = some s') : s'.Ok maxReaders := by
  obtain ⟨l, hl, hcount⟩ := h.count
  have hold : (s.points t).uncounted = false := by rw [hpoint]; rfl
  simp only [RWLockInfo.enter, Option.ite_none_right_eq_some, Option.some.injEq] at hstep
  obtain ⟨havailable, rfl⟩ := hstep
  cases mode with
  | null => cases havailable
  | read =>
    simp only [available, Bool.and_eq_true, Option.isNone_iff_eq_none,
      decide_eq_true_eq] at havailable
    obtain ⟨hwriter, hroom⟩ := havailable
    exact {
      points := h.update List.mem_cons_self (fun _ _ => List.mem_cons_of_mem t)
        (fun _ _ => Iff.rfl) fun _ _ => .inl rfl
      exclusive := fun hsome => by simp [RWLockInfo.setPoint, take, hwriter] at hsome
      count := ⟨t :: l, hl.cons hold rfl, congrArg Nat.succ hcount⟩
      bounded := hroom
      read := h.read
      free := nofun }
  | write =>
    simp only [available, Bool.and_eq_true, Option.isNone_iff_eq_none,
      List.isEmpty_iff] at havailable
    obtain ⟨hwriter, hreaders⟩ := havailable
    have hothers (u : Fin n) (hu : u ≠ t) : some t = some u ↔ s.writer = some u := by
      simp [hwriter, Ne.symm hu]
    exact {
      points := h.update rfl (fun _ _ => id) hothers fun _ _ => .inl rfl
      exclusive := fun _ => hreaders
      count := ⟨l, hl.same hold.symm, hcount⟩
      bounded := h.bounded
      read := h.read
      free := nofun }

/-- A thread that has the lock sets its mode. -/
theorem Ok.setMode {mode : RWLockMode} (h : s.Ok maxReaders)
    (hpoint : s.points t = .setMode mode true) :
    ({ s with lockMode := mode }.setPoint t (.testRead mode true)).Ok maxReaders := by
  obtain ⟨l, hl, hcount⟩ := h.count
  have hown := h.points t
  rw [hpoint] at hown
  cases mode with
  | null => exact hown.elim
  | read =>
    have hreader : t ∈ s.readers := hown
    have hwriter := h.writer_none hreader
    exact {
      points := h.update ⟨hreader, rfl⟩ (fun _ _ => id) (fun _ _ => Iff.rfl) fun u _ =>
        .inr ⟨by simp [hwriter], fun _ => rfl⟩
      exclusive := h.exclusive
      count := ⟨l, hl.same (by rw [hpoint]; rfl), hcount⟩
      bounded := h.bounded
      read := fun _ => rfl
      free := fun _ hnil => absurd hreader (hnil ▸ List.not_mem_nil) }
  | write =>
    have hwriter : s.writer = some t := hown
    obtain ⟨hreaders, hcnt⟩ := h.readers_nil hwriter
    exact {
      points := h.update ⟨hwriter, rfl⟩ (fun _ _ => id) (fun _ _ => Iff.rfl) fun u hu =>
        .inr ⟨by simp [hwriter, Ne.symm hu], by simp [hreaders]⟩
      exclusive := h.exclusive
      count := ⟨l, hl.same (by rw [hpoint]; rfl), hcount⟩
      bounded := h.bounded
      read := fun hpos => absurd hpos (hcnt ▸ Nat.lt_irrefl 0)
      free := fun hnone => absurd (hwriter.symm.trans hnone) (Option.some_ne_none t) }

/-- A reader adds itself to the count, which has room. -/
theorem Ok.addCnt {mode : RWLockMode} (h : s.Ok maxReaders) (hmax : maxReaders < 2 ^ 32)
    (hpoint : s.points t = .addCnt mode true) :
    ({ s with rlockCnt := (s.rlockCnt + 1) % 2 ^ 32 }.setPoint t .outside).Ok maxReaders := by
  obtain ⟨l, hl, hcount⟩ := h.count
  have hown := h.points t
  rw [hpoint] at hown
  cases mode with
  | null | write => exact hown.elim
  | read =>
    obtain ⟨hreader, hmode⟩ := hown
    have hwriter := h.writer_none hreader
    have hout : RWLockPoint.outside.uncounted = false := rfl
    obtain ⟨herase, hlen⟩ := hl.erase (by rw [hpoint]; rfl) hout
    have hmod : (s.rlockCnt + 1) % 2 ^ 32 = s.rlockCnt + 1 := by
      have hle := h.bounded
      exact Nat.mod_eq_of_lt (by omega)
    rw [hmod]
    exact {
      points := h.update (fun heq => absurd (hwriter.symm.trans heq) nofun) (fun _ _ => id)
        (fun _ _ => Iff.rfl)
        fun _ _ => .inl rfl
      exclusive := h.exclusive
      count := ⟨l.erase t, herase, by change s.rlockCnt + 1 + _ = s.readers.length; omega⟩
      bounded := h.bounded
      read := fun _ => hmode
      free := h.free }

/-- A reader subtracts itself from the count, where it was. -/
theorem Ok.subCnt (h : s.Ok maxReaders) (hmax : maxReaders < 2 ^ 32)
    (hpoint : s.points t = .subCnt) :
    s.rlockCnt ≠ 0 ∧
      ({ s with rlockCnt := (s.rlockCnt + (2 ^ 32 - 1)) % 2 ^ 32 }.setPoint t
        (.unlock true)).Ok maxReaders := by
  obtain ⟨l, hl, hcount⟩ := h.count
  have hreader := h.points t
  rw [hpoint] at hreader
  have hold : (s.points t).uncounted = false := by rw [hpoint]; rfl
  have hpos := h.cnt_pos hreader hold
  have hmod : (s.rlockCnt + (2 ^ 32 - 1)) % 2 ^ 32 = s.rlockCnt - 1 := by
    have hle := h.bounded
    omega
  rw [hmod]
  exact ⟨Nat.pos_iff_ne_zero.mp hpos, {
    points := h.update ⟨hreader, h.read hpos⟩ (fun _ _ => id) (fun _ _ => Iff.rfl) fun _ _ =>
      .inl rfl
    exclusive := h.exclusive
    count := ⟨t :: l, hl.cons hold rfl, by
      change s.rlockCnt - 1 + (l.length + 1) = s.readers.length
      omega⟩
    bounded := h.bounded
    read := fun hlt => h.read (Nat.lt_of_lt_of_le hlt (Nat.sub_le _ 1))
    free := h.free }⟩

/-- A writer clears the mode. -/
theorem Ok.clearMode (h : s.Ok maxReaders) (hpoint : s.points t = .clearMode false) :
    ({ s with lockMode := .null }.setPoint t (.unlock false)).Ok maxReaders := by
  obtain ⟨l, hl, hcount⟩ := h.count
  have hwriter := h.points t
  rw [hpoint] at hwriter
  have hwriter : s.writer = some t := hwriter
  obtain ⟨hreaders, hcnt⟩ := h.readers_nil hwriter
  exact {
    points := h.update ⟨hwriter, rfl⟩ (fun _ _ => id) (fun _ _ => Iff.rfl) fun u hu =>
      .inr ⟨by simp [hwriter, Ne.symm hu], by simp [hreaders]⟩
    exclusive := h.exclusive
    count := ⟨l, hl.same (by rw [hpoint]; rfl), hcount⟩
    bounded := h.bounded
    read := fun hpos => absurd hpos (hcnt ▸ Nat.lt_irrefl 0)
    free := fun hnone => absurd (hwriter.symm.trans hnone) (Option.some_ne_none t) }

/-- The lock is given back. -/
theorem Ok.unlock {subtracted : Bool} (h : s.Ok maxReaders)
    (hpoint : s.points t = .unlock subtracted) :
    ((s.giveBack t).setPoint t .outside).Ok maxReaders := by
  obtain ⟨l, hl, hcount⟩ := h.count
  have hown := h.points t
  rw [hpoint] at hown
  cases subtracted with
  | false =>
    obtain ⟨hwriter, hmode⟩ : s.writer = some t ∧ s.lockMode = .null := hown
    have hothers (u : Fin n) (hu : u ≠ t) : none = some u ↔ s.writer = some u := by
      simp [hwriter, Ne.symm hu]
    rw [giveBack, if_pos hwriter]
    exact {
      points := h.update nofun (fun _ _ => id) hothers fun _ _ => .inl rfl
      exclusive := nofun
      count := ⟨l, hl.same (by rw [hpoint]; rfl), hcount⟩
      bounded := h.bounded
      read := h.read
      free := fun _ _ => hmode }
  | true =>
    obtain ⟨hreader, hmode⟩ : t ∈ s.readers ∧ s.lockMode = .read := hown
    have hwriter := h.writer_none hreader
    have hout : RWLockPoint.outside.uncounted = false := rfl
    obtain ⟨herase, hlen⟩ := hl.erase (by rw [hpoint]; rfl) hout
    have hpos := List.length_pos_of_mem hreader
    have hlength : (s.readers.erase t).length = s.readers.length - 1 :=
      List.length_erase_of_mem hreader
    rw [giveBack, if_neg (by simp [hwriter])]
    exact {
      points := h.update (fun heq => absurd (hwriter.symm.trans heq) nofun)
        (fun _ hu => (List.mem_erase_of_ne hu).mpr)
        (fun _ _ => Iff.rfl) fun _ _ => .inl rfl
      exclusive := fun hsome => by simp [RWLockInfo.setPoint, hwriter] at hsome
      count := ⟨l.erase t, herase, by
        change s.rlockCnt + _ = (s.readers.erase t).length
        omega⟩
      bounded := by
        change (s.readers.erase t).length ≤ maxReaders
        have hle := h.bounded
        omega
      read := h.read
      free := fun _ _ => hmode }

theorem Ok.proceed (h : s.Ok maxReaders) (hmax : maxReaders < 2 ^ 32)
    (hok : s.refusedWrites (.proceed t) = false)
    (hstep : s.proceed t = some s') : s'.Ok maxReaders := by
  have hown := h.points t
  cases hpoint : s.points t with
  | outside => simp [RWLockInfo.proceed, hpoint] at hstep
  | compareMode mode acquired =>
    simp only [RWLockInfo.proceed, hpoint, Option.some.injEq] at hstep
    subst hstep
    rw [hpoint] at hown
    exact h.setPoint hown.compare (by rw [hpoint, RWLockPoint.uncounted_compare])
  | setMode mode acquired =>
    simp only [RWLockInfo.proceed, hpoint, Option.some.injEq] at hstep
    subst hstep
    cases acquired with
    | false => simp [refusedWrites, hpoint, RWLockPoint.refused] at hok
    | true => exact h.setMode hpoint
  | testRead mode acquired =>
    simp only [RWLockInfo.proceed, hpoint, Option.some.injEq] at hstep
    subst hstep
    rw [hpoint] at hown
    exact h.setPoint hown.test.1 (by rw [hpoint]; exact hown.test.2)
  | addCnt mode acquired =>
    simp only [RWLockInfo.proceed, hpoint, Option.some.injEq] at hstep
    subst hstep
    cases acquired with
    | false => simp [refusedWrites, hpoint, RWLockPoint.refused] at hok
    | true => exact h.addCnt hmax hpoint
  | testWrite =>
    simp only [RWLockInfo.proceed, hpoint, Option.some.injEq] at hstep
    subst hstep
    have hold : (s.points t).uncounted = false := by rw [hpoint]; rfl
    rw [hpoint] at hown
    obtain ⟨hwrite, hholds⟩ : (s.writer = some t → s.lockMode = .write) ∧
        (s.writer = some t ∨ t ∈ s.readers) := hown
    refine h.setPoint ?_ ?_
    · split
      next heq =>
        -- a reader is counted, and then the mode is another one
        rcases hholds with hwriter | hreader
        · exact hwriter
        · exact absurd (heq.symm.trans (h.read (h.cnt_pos hreader hold))) nofun
      next hne => exact hholds.resolve_left fun hwriter => hne (hwrite hwriter)
    · rw [hold]
      split <;> rfl
  | subCnt =>
    obtain ⟨hne, hsub⟩ := h.subCnt hmax hpoint
    simp only [RWLockInfo.proceed, hpoint, if_neg hne, Option.some.injEq] at hstep
    subst hstep
    exact hsub
  | clearMode subtracted =>
    simp only [RWLockInfo.proceed, hpoint, Option.some.injEq] at hstep
    subst hstep
    rw [hpoint] at hown
    cases subtracted with
    | false => exact h.clearMode hpoint
    | true => exact hown.elim
  | unlock subtracted =>
    simp only [RWLockInfo.proceed, hpoint, Option.some.injEq] at hstep
    subst hstep
    exact h.unlock hpoint

theorem Ok.step (hmax : maxReaders < 2 ^ 32) {a : Act n} (h : s.Ok maxReaders)
    (hok : s.refusedWrites a = false)
    (hstep : s.step maxReaders a = some s') : s'.Ok maxReaders := by
  cases a with
  | acquire t mode granted =>
    simp only [RWLockInfo.step, Option.ite_none_left_eq_some, not_not] at hstep
    obtain ⟨hpoint, hstep⟩ := hstep
    split at hstep
    next =>
      cases hstep
      exact h
    next => exact h.enter hpoint hstep
  | tryAcquire t mode answer =>
    simp only [RWLockInfo.step, Option.ite_none_left_eq_some, not_not] at hstep
    obtain ⟨hpoint, hstep⟩ := hstep
    split at hstep
    next =>
      cases hstep
      exact h
    next =>
      split at hstep
      next => exact h.enter hpoint hstep
      next =>
        cases hstep
        have hown := h.points t
        rw [hpoint] at hown
        refine h.setPoint ?_ ?_
        · cases mode <;> exact hown
        · rw [hpoint]
          cases mode <;> rfl
  | release t mode =>
    simp only [RWLockInfo.step, Option.ite_none_right_eq_some, Option.some.injEq] at hstep
    obtain ⟨⟨hpoint, hholds⟩, rfl⟩ := hstep
    have hown := h.points t
    rw [hpoint] at hown
    simp only [holds, Bool.or_eq_true, beq_iff_eq, List.contains_iff_mem] at hholds
    exact h.setPoint ⟨hown, hholds⟩ (by rw [hpoint]; rfl)
  | proceed t => exact h.proceed hmax hok hstep

theorem ok_init (n maxReaders : Nat) : (init n).Ok maxReaders where
  points _ := nofun
  exclusive _ := rfl
  count := ⟨[], ⟨List.nodup_nil, fun _ => by simp [init, RWLockPoint.uncounted]⟩, rfl⟩
  bounded := Nat.zero_le _
  read := nofun
  free _ _ := rfl

/-! ## Runs -/

/-- With no call in progress, the mode and the count are right, but for the mode that a reader
has left. -/
theorem Ok.mirrors_of_idle (h : s.Ok maxReaders) (hidle : s.Idle) :
    s.Mirrors ↔ ¬ s.LeftByReader := by
  have hcount : s.rlockCnt = s.readers.length := by
    obtain ⟨l, hl, hcount⟩ := h.count
    have hnil : l = [] := List.eq_nil_iff_forall_not_mem.mpr fun t hmem => by
      have hpoint := (hl.mem t).mp hmem
      rw [hidle t] at hpoint
      cases hpoint
    rwa [hnil] at hcount
  constructor
  · rintro hmirrors ⟨hwriter, hreaders, hfreed⟩
    have hnull := hmirrors.null.mpr ⟨hwriter, hreaders⟩
    rw [h.free hwriter hreaders, if_pos hfreed] at hnull
    cases hnull
  · intro hleft
    cases hwriter : s.writer with
    | some t =>
      have hmode : s.lockMode = .write := by
        have hown := h.points t
        rw [hidle t] at hown
        exact hown hwriter
      exact ⟨hcount, by simp [hmode, hwriter], by simp [hmode, hwriter]⟩
    | none =>
      by_cases hreaders : s.readers = []
      · have hmode : s.lockMode = .null := by
          rw [h.free hwriter hreaders]
          exact if_neg fun hfreed => hleft ⟨hwriter, hreaders, hfreed⟩
        exact ⟨hcount, by simp [hmode, hwriter], by simp [hmode, hwriter, hreaders]⟩
      · have hmode : s.lockMode = .read := h.read (hcount ▸ List.length_pos_iff.mpr hreaders)
        exact ⟨hcount, by simp [hmode, hwriter], by simp [hmode, hreaders]⟩

/-- In a run in which no refused attempt writes, the mode and the count say who has the lock
whenever no call is in progress, unless a reader was the last to have it. -/
theorem mirrors_iff {as : List (Act n)} (hmax : maxReaders < 2 ^ 32)
    (hrun : run (step maxReaders) (init n) as = some s)
    (hok : Along (step maxReaders) (fun s a => s.refusedWrites a = false) (init n) as)
    (hidle : s.Idle) :
    s.Mirrors ↔ ¬ s.LeftByReader :=
  (run_invariant (Ok.step hmax) (ok_init n maxReaders) hok hrun).mirrors_of_idle hidle

/-- A thread writes, two threads read at the same time, and the first one of them leaves. -/
def writtenThenRead : List (Act 2) :=
  .acquire 0 .write true :: List.replicate 3 (.proceed 0) ++
    .release 0 .write :: List.replicate 3 (.proceed 0) ++
    .acquire 0 .read true :: .tryAcquire 1 .read .acquired ::
      (List.replicate 4 [Act.proceed 0, .proceed 1]).flatten ++
        .release 0 .read :: List.replicate 3 (.proceed 0)

/-- One reader is left. -/
theorem writtenThenRead_mirrors : (exec (step 2) (init 2) writtenThenRead).Mirrors := by
  have hmax : 2 < 2 ^ 32 := by decide
  exact (mirrors_iff hmax (run_exec rfl) (by decide) (by decide)).mpr fun h =>
    absurd h.readers (by decide)

/-- A reader comes and goes. -/
def readReleased : List (Act 1) :=
  .acquire 0 .read true :: List.replicate 4 (.proceed 0) ++
    .release 0 .read :: List.replicate 3 (.proceed 0)

/-- A writer has the lock, and an attempt to read is refused. -/
def readRefused : List (Act 2) :=
  .acquire 0 .write true :: List.replicate 3 (.proceed 0) ++
    .tryAcquire 1 .read .busy :: List.replicate 4 (.proceed 1)

/-- The reader leaves its mode, and the refused attempt has its mode and its count written. -/
theorem mode_notMirrored :
    (∃ s, run (step 1) (init 1) readReleased = some s ∧ s.Idle ∧ ¬ s.Mirrors) ∧
      ∃ s, run (step 1) (init 2) readRefused = some s ∧ s.Idle ∧ ¬ s.Mirrors := by
  refine ⟨⟨_, run_exec rfl, by decide, fun h => ?_⟩,
    ⟨_, run_exec rfl, by decide, fun h => ?_⟩⟩
  · exact absurd (h.null.mpr ⟨by decide, by decide⟩) (by decide)
  · exact absurd h.count (by decide)

end RWLockInfo

end Toadb
