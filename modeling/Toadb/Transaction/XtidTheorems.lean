/-
Toadb.Transaction.XtidTheorems — is the level the greatest id that was passed?

The highest level and the calls that change it are seen as a register of `Lib/FetchMax`
(`highReg`). A step of a worker is one of the register, or is not seen there at all
(`hasReg_high`).

  * `highLevelXtid_isGreatest` — the highest finished id never goes down, and with no call in
                                 progress it is the greatest of the ids passed and the first;
  * `highLevelXtid_eq_foldl`   — it is what `setHighLevelTransaction` of
                                 `Transaction/Snapshot`, one step for a call, makes of it in
                                 any order of the calls.

`INVALID_XTID` is the greatest id there is, and calls with it do nothing.
-/
import Toadb.Lib.FetchMax
import Toadb.Transaction.Xtid
import Mathlib.Order.Bounds.Basic

namespace Toadb

open FetchMax (Reg HasReg)
open Transition

/-! ## The level as a register -/

/-- The id and the copy of a call for the highest level. -/
def XtidPoint.inHigh : XtidPoint → Option (Nat × Nat)
  | .high xid copy => some (xid, copy)
  | _ => none

/-- The ids that are looked at. -/
def validIds (xids : List Nat) : List Nat := xids.filter fun xid => !xtidIsInvalid xid

theorem mem_validIds {x : Nat} {xids : List Nat} :
    x ∈ validIds xids ↔ x ∈ xids ∧ xtidIsInvalid x = false := by
  simp [validIds]

theorem validIds_cons {xid : Nat} {xids : List Nat} :
    validIds (xid :: xids) = if xtidIsInvalid xid then validIds xids
      else xid :: validIds xids := by
  cases h : xtidIsInvalid xid <;> simp [validIds, h]

section Register

variable {n : Nat} {level xid copy : Nat} {passed : List Nat}
  {points : Fin n → XtidPoint} {w : Fin n}
  {point : XtidPoint}

/-- The highest level with the ids passed for it and the calls that change it. -/
def levelReg (level : Nat) (passed : List Nat)
    (points : Fin n → XtidPoint) : Reg (Fin n) Nat where
  value := level
  calls := XtidPoint.inHigh ∘ points
  passed := validIds passed

theorem levelReg_update :
    levelReg level passed (Function.update points w point) =
      { levelReg level passed points with
        calls := Function.update (levelReg level passed points).calls w point.inHigh } := by
  rw [levelReg, Function.comp_update]
  rfl

/-- A worker that is in no call for this level. -/
theorem levelReg_unseen (hold : (points w).inHigh = none) (hnew : point.inHigh = none) :
    levelReg level passed (Function.update points w point) =
      levelReg level passed points := by
  have hnone : (levelReg level passed points).calls w = none := hold
  rw [levelReg_update, hnew, Function.update_eq_self_iff.mpr hnone.symm]

/-- A call with `INVALID_XTID`. -/
theorem levelReg_invalid (h : xtidIsInvalid xid = true) :
    levelReg level (xid :: passed) points = levelReg level passed points := by
  rw [levelReg, validIds_cons, if_pos h]
  rfl

/-- A call begins. -/
theorem levelReg_call (hold : (points w).inHigh = none) (hvalid : xtidIsInvalid xid = false)
    (hnew : point.inHigh = some (xid, level)) :
    FetchMax.Step (levelReg level passed points)
      (levelReg level (xid :: passed) (Function.update points w point)) := by
  have hnone : (levelReg level passed points).calls w = none := hold
  have hpassed : (levelReg level (xid :: passed) points).passed =
      xid :: (levelReg level passed points).passed := by
    simp [levelReg, validIds_cons, hvalid]
  have hstep := FetchMax.Step.call w xid hnone
  rw [← hpassed] at hstep
  rw [levelReg_update, hnew]
  exact hstep

/-- A round of the loop. -/
theorem levelReg_round {reached : Bool} (hold : (points w).inHigh = some (xid, copy))
    (hreached : reached = true ↔ xid ≤ copy)
    (hnew : point.inHigh = (levelRound reached level copy xid).2.map (xid, ·)) :
    FetchMax.Step (levelReg level passed points)
      (levelReg (levelRound reached level copy xid).1 passed
        (Function.update points w point)) := by
  have hcall : (levelReg level passed points).calls w = some (xid, copy) := hold
  rw [levelReg_update, hnew]
  cases hdone : reached with
  | true => exact FetchMax.Step.reached hcall (hreached.mp hdone)
  | false =>
    have hlt : copy < xid := lt_of_not_ge fun hle => by simp [hreached.mpr hle] at hdone
    by_cases heq : level = copy
    · subst heq
      have hround : levelRound false level level xid = (xid, none) := by
        simp [levelRound, atomicCompareExchange64]
      rw [hround]
      exact FetchMax.Step.swap hcall hlt
    · have hround : levelRound false level copy xid = (level, some level) := by
        simp [levelRound, atomicCompareExchange64, heq]
      rw [hround]
      exact FetchMax.Step.retry hcall

end Register

namespace XtidSys

variable {n : Nat} {s t u : XtidSys n} {a : XtidAct n} {as bs : List (XtidAct n)}
  {info : TransactionIDInfo}

/-- The highest level. -/
def highReg (s : XtidSys n) : Reg (Fin n) Nat :=
  levelReg s.info.highLevelXtid s.passedHigh s.points

theorem hasReg_high : HasReg (step (n := n)) highReg := by
  intro s a t h
  cases a with
  | setHighLevel w xid =>
    simp only [step, Option.ite_none_right_eq_some, Option.some.injEq] at h
    obtain ⟨hpoint, rfl⟩ := h
    have hold : (s.points w).inHigh = none := by rw [hpoint]; rfl
    cases hvalid : xtidIsInvalid xid with
    | true => exact .inl ((levelReg_unseen hold rfl).trans (levelReg_invalid hvalid))
    | false => exact .inr (levelReg_call hold hvalid rfl)
  | setLowLevel w xid =>
    simp only [step, Option.ite_none_right_eq_some, Option.some.injEq] at h
    obtain ⟨hpoint, rfl⟩ := h
    have hnew : (if xtidIsInvalid xid then XtidPoint.outside
        else .low xid s.info.lowLevelXtid).inHigh = none := by
      split <;> rfl
    exact .inl (levelReg_unseen (by rw [hpoint]; rfl) hnew)
  | proceed w =>
    cases hpoint : s.points w with
    | outside => simp [step, proceed, hpoint] at h
    | high xid copy =>
      simp only [step, proceed, hpoint, Option.some.injEq] at h
      subst h
      have hnew (copy' : Option Nat) : (copy'.elim XtidPoint.outside (.high xid)).inHigh =
          copy'.map (xid, ·) := by
        cases copy' <;> rfl
      exact .inr (levelReg_round (by rw [hpoint]; rfl) decide_eq_true_iff (hnew _))
    | low xid copy =>
      simp only [step, proceed, hpoint, Option.some.injEq] at h
      subst h
      have hnew (copy' : Option Nat) : (copy'.elim XtidPoint.outside (.low xid)).inHigh =
          none := by cases copy' <;> rfl
      exact .inl (levelReg_unseen (by rw [hpoint]; rfl) (hnew _))

/-! ## Runs -/

/-- No call is in progress. -/
def Idle (s : XtidSys n) : Prop := ∀ w, s.points w = .outside

instance (s : XtidSys n) : Decidable s.Idle :=
  inferInstanceAs (Decidable (∀ w, s.points w = .outside))

theorem highReg_ok (h : run step (start n info) as = some s) :
    FetchMax.Ok info.highLevelXtid s.highReg :=
  hasReg_high.run_ok (FetchMax.ok_start info.highLevelXtid) h

theorem isGreatest_of_idle (h : run step (start n info) as = some s) (hidle : s.Idle) :
    IsGreatest {x | x = info.highLevelXtid ∨ x ∈ s.passedHigh ∧ x ≠ invalidXtid}
      s.info.highLevelXtid := by
  have hgreatest := (highReg_ok h).isGreatest fun w => by
    simp [highReg, levelReg, hidle w, XtidPoint.inHigh]
  simpa [highReg, levelReg, mem_validIds, xtidIsInvalid] using hgreatest

/-- The highest finished id never goes down. With no call in progress it is the greatest of
the first one and of the ids that were passed, but for `INVALID_XTID`. -/
theorem highLevelXtid_isGreatest (hs : run step (start n info) as = some s)
    (ht : run step s bs = some t) :
    s.info.highLevelXtid ≤ t.info.highLevelXtid ∧
      (t.Idle → IsGreatest {x | x = info.highLevelXtid ∨ x ∈ t.passedHigh ∧ x ≠ invalidXtid}
        t.info.highLevelXtid) :=
  ⟨hasReg_high.run_le ht, isGreatest_of_idle (run_append.mpr ⟨s, hs, ht⟩)⟩

/-- Two workers have read 0; the first one swaps its 5 in, and the second one tries again. -/
def twoRaise : List (XtidAct 2) :=
  [.setHighLevel 0 5, .setHighLevel 1 7, .proceed 0, .proceed 1, .proceed 1]

theorem twoRaise_isGreatest : IsGreatest {x | x = 0 ∨ x ∈ [7, 5] ∧ x ≠ invalidXtid} 7 := by
  have hstart : run step (start 2 .init) [] = some (start 2 .init) := rfl
  have hrun : run step (start 2 .init) twoRaise = some (exec step (start 2 .init) twoRaise) :=
    run_exec rfl
  exact (highLevelXtid_isGreatest hstart hrun).2 (by decide)

/-- A call with `INVALID_XTID` passes an id that is not reached. -/
theorem invalidXtid_notReached :
    ∃ s : XtidSys 1, run step (start 1 .init) [.setHighLevel 0 invalidXtid] = some s ∧
    s.Idle ∧ ¬ IsGreatest {x | x = 0 ∨ x ∈ s.passedHigh} s.info.highLevelXtid := by
  refine ⟨_, rfl, by decide, fun h => ?_⟩
  have hle : invalidXtid ≤ 0 := h.2 (.inr List.mem_cons_self)
  exact absurd hle (by decide)

/-! ## The calls as single steps -/

theorem highLevelXtid_set (info : TransactionIDInfo) (xid : Nat) :
    (setHighLevelTransaction info xid).highLevelXtid =
      if xid = invalidXtid then info.highLevelXtid else max info.highLevelXtid xid := by
  simp only [setHighLevelTransaction, xtidIsInvalid_iff]
  split
  next => rfl
  next =>
    split
    next hle => exact (max_eq_left hle).symm
    next hlt => exact (max_eq_right (Nat.le_of_not_le hlt)).symm

/-- What the calls make of the level one after the other. -/
theorem isGreatest_foldl (xids : List Nat) (info : TransactionIDInfo) :
    IsGreatest {x | x = info.highLevelXtid ∨ x ∈ xids ∧ x ≠ invalidXtid}
      (xids.foldl setHighLevelTransaction info).highLevelXtid := by
  induction xids generalizing info with
  | nil => simp [IsGreatest, upperBounds]
  | cons xid xids ih =>
    obtain ⟨hmem, hbound⟩ := ih (setHighLevelTransaction info xid)
    have hlevel := highLevelXtid_set info xid
    refine ⟨?_, ?_⟩
    · rcases hmem with hfirst | ⟨hx, hne⟩
      · rw [hlevel] at hfirst
        split at hfirst
        next => exact .inl hfirst
        next hne =>
          rcases max_choice info.highLevelXtid xid with hmax | hmax
          · exact .inl (hfirst.trans hmax)
          · have hxid := hfirst.trans hmax
            exact .inr ⟨List.mem_cons.mpr (.inl hxid), fun heq => hne (hxid.symm.trans heq)⟩
      · exact .inr ⟨List.mem_cons_of_mem xid hx, hne⟩
    · have hfirst := hbound (.inl rfl)
      rw [hlevel] at hfirst
      rintro x (rfl | ⟨hx, hne⟩)
      · refine le_trans ?_ hfirst
        split
        next => exact le_rfl
        next => exact le_max_left _ _
      · rcases List.mem_cons.mp hx with rfl | hx
        · rw [if_neg hne] at hfirst
          exact (le_max_right _ _).trans hfirst
        · exact hbound (.inr ⟨hx, hne⟩)

/-- The level is that of the calls one after the other, in any order. -/
theorem highLevelXtid_eq_foldl {xids : List Nat}
    (h : run step (start n info) as = some s) (hidle : s.Idle)
    (hxids : xids.Perm s.passedHigh) :
    s.info.highLevelXtid = (xids.foldl setHighLevelTransaction info).highLevelXtid := by
  have hfold := isGreatest_foldl xids info
  simp only [hxids.mem_iff] at hfold
  exact (isGreatest_of_idle h hidle).unique hfold

end XtidSys

end Toadb
