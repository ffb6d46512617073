/-
Toadb.Storage.HistoryTheorems — the versions behind the rows and behind the copies of them.

The chain behind a version ends (`HasChain`). A step keeps it, however old the copies are that
a worker writes from: an update puts the copy it has behind the new version, and a delete
leaves the undo position alone. So it is an invariant, of the rows of all pages and of the
copies in the hands of the workers (`ChainsOk.step`).
-/
import Toadb.Storage.VersionTheorems

namespace Toadb

open Transition

variable {f f' : TableFile} {rooms : Nat → Int → Nat}
  {P Q : RowColumnData → Prop} {r : RowColumnData}

/-! ## Chains -/

/-- The chain behind a version ends. -/
def HasChain (f : TableFile) (r : RowColumnData) : Prop :=
  ∃ rs, UndoChain f r.headerData.undo rs

theorem FileStep.hasChain (h : FileStep f rooms f' P)
    (hr : HasChain f r) : HasChain f' r := by
  obtain ⟨rs, hchain⟩ := hr
  exact ⟨rs, h.undoChain hchain⟩

/-- A version without an undo position. -/
theorem hasChain_none (hundo : r.headerData.undo = RowPosition.none) : HasChain f r :=
  ⟨[], .last (by rw [hundo]; rfl)⟩

/-- The new version of an update, in front of the copy of the old one. -/
theorem HasChain.newRow {u : ColumnUpdate} {curr : Nat} {pos : RowPosition}
    (h : HasChain f u.old)
    (hpos : UndoRow f pos (u.undoRow curr)) : HasChain f (u.newRow curr pos) := by
  obtain ⟨rs, hchain⟩ := h
  exact ⟨u.undoRow curr :: rs, .next hpos hchain⟩

/-! ## Copies -/

/-- The row copies of a worker. -/
structure RowWorker.Copies (Q : RowColumnData → Prop) (k : RowWorker) : Prop where
  rows : ∀ row ∈ k.rows, Q row.old
  cols : ∀ col ∈ k.cols, Q col.old
  update : ∀ u undono, k.phase = .update u undono → Q u.old

theorem RowWorker.Copies.mono {k : RowWorker} (h : k.Copies P)
    (himp : ∀ r, P r → Q r) : k.Copies Q :=
  ⟨fun row hrow => himp _ (h.rows row hrow), fun col hcol => himp _ (h.cols col hcol),
    fun u undono hphase => himp _ (h.update u undono hphase)⟩

variable {n : Nat} {s t : TableSys n} {w : Fin n} {call : RowCall}

/-- The copies of all workers. -/
def CopiesIn (Q : RowColumnData → Prop) (s : TableSys n) : Prop := ∀ w, (s.workers w).Copies Q

theorem CopiesIn.setWorker {k : RowWorker} (h : CopiesIn Q s) (hk : k.Copies Q) :
    CopiesIn Q (s.setWorker w k) := by
  intro w'
  by_cases hw : w' = w
  · subst hw
    rw [TableSys.setWorker_self]
    exact hk
  · rw [TableSys.setWorker_of_ne _ _ hw]
    exact h w'

theorem CopiesIn.judge {no : Nat} {o : Int} {row : RowColumnData}
    (h : CopiesIn Q s) (hrow : Q row) :
    CopiesIn Q (judge s w no o row) := by
  have hk := h w
  unfold Toadb.judge
  dsimp only
  split
  · refine h.setWorker ⟨fun row' hmem => ?_, hk.cols, nofun⟩
    rcases List.mem_append.mp hmem with hold | hnew
    · exact hk.rows row' hold
    · rw [List.mem_singleton.mp hnew]
      exact hrow
  · exact h.setWorker ⟨hk.rows, hk.cols, nofun⟩

/-- The version a worker walks to is a row of the table. -/
theorem TableInv.rowAt_of_walk (h : TableInv s) {no : Nat} {o : Int} {pos : RowPosition}
    {row : RowColumnData} (hphase : (s.workers w).phase = .walk no o pos)
    (hrow : readUndoVersion s.file pos = some row) :
    RowAt s.file pos.pageIndex.pageno (itemOffsetOfIndex pos.itemIndex) row := by
  have hok := (h.workers w).phase
  rw [hphase] at hok
  obtain ⟨-, -, hnone | ⟨r, -, hat⟩⟩ := hok
  · rw [readUndoVersion, getPageByIndex, if_pos hnone] at hrow
    cases hrow
  · rw [hat.readUndoVersion h.file, Option.some.injEq] at hrow
    exact hrow ▸ hat

section Copies

variable (h : TableInv s) (hrows : ∀ no o r, RowAt s.file no o r → Q r)
  (hcopies : CopiesIn Q s)
include hcopies

section Reads

include h hrows

theorem walkVersion_copies (hstep : walkVersion s w = some t) : CopiesIn Q t := by
  have hk := hcopies w
  unfold walkVersion at hstep
  split at hstep
  · rename_i no o pos hphase
    split at hstep
    · rename_i row hrow
      cases hstep
      exact hcopies.judge (hrows _ _ _ (h.rowAt_of_walk hphase hrow))
    · cases hstep
      exact hcopies.setWorker ⟨nofun, hk.cols, nofun⟩
  · cases hstep

theorem scanRow_copies {no index : Nat}
    (hstep : scanRow no index s w = some t) : CopiesIn Q t := by
  unfold scanRow at hstep
  split at hstep
  · rename_i hcond
    rw [Bool.and_eq_true, isDataPage_iff h.file] at hcond
    split at hstep
    · rename_i row hrow
      cases hstep
      exact hcopies.judge (hrows _ _ _ (h.file.rowAt_of_rowByIndex hcond.1 hrow))
    · cases hstep
      exact hcopies
  · cases hstep

theorem fetchRow_copies {no index : Nat}
    (hstep : fetchRow no index s w = some t) : CopiesIn Q t := by
  have hk := hcopies w
  unfold fetchRow at hstep
  split at hstep
  · rename_i hcond
    rw [Bool.and_eq_true, isDataPage_iff h.file] at hcond
    split at hstep
    · rename_i row hrow
      cases hstep
      refine hcopies.setWorker ⟨fun row' hmem => ?_, hk.cols, hk.update⟩
      rcases List.mem_append.mp hmem with hold | hnew
      · exact hk.rows row' hold
      · rw [List.mem_singleton.mp hnew]
        exact hrows _ _ _ (h.file.rowAt_of_rowByIndex hcond.1 hrow)
    · cases hstep
      exact hcopies
  · cases hstep

end Reads

theorem copyItem_copies (hstep : copyItem s w = some t) : CopiesIn Q t := by
  have hk := hcopies w
  unfold copyItem at hstep
  dsimp only at hstep
  split at hstep
  · cases hstep
  · rename_i row rows hrows
    have hmem : ∀ row' ∈ row :: rows, Q row'.old :=
      fun row' hrow' => hk.rows row' (hrows ▸ hrow')
    split at hstep
    · cases hstep
      refine hcopies.setWorker ⟨fun row' hrow' => hmem row' (List.mem_cons_of_mem _ hrow'),
        fun col hcol => ?_,
        hk.update⟩
      rcases List.mem_append.mp hcol with hold | hnew
      · exact hk.cols col hold
      · rw [List.mem_singleton.mp hnew]
        exact hmem row List.mem_cons_self
    · cases hstep

theorem findUndoPage_copies {row : NewRow} {others : Nat}
    (hstep : findUndoPage row others s w = some t) :
    CopiesIn Q t := by
  have hk := hcopies w
  unfold findUndoPage at hstep
  dsimp only at hstep
  split at hstep
  · cases hstep
  · rename_i col cols hcols
    have hmem : ∀ col' ∈ col :: cols, Q col'.old :=
      fun col' hcol' => hk.cols col' (hcols ▸ hcol')
    split at hstep
    · split at hstep
      · cases hstep
        exact CopiesIn.setWorker hcopies ⟨hk.rows, nofun, hk.update⟩
      · cases hstep
        refine CopiesIn.setWorker hcopies
          ⟨hk.rows, fun col' hcol' => hmem col' (List.mem_cons_of_mem _ hcol'), ?_⟩
        rintro u undono ⟨⟩
        exact hmem col List.mem_cons_self
    · cases hstep

theorem updateRows_copies (hstep : updateRows s w = some t) : CopiesIn Q t := by
  have hk := hcopies w
  unfold updateRows at hstep
  dsimp only at hstep
  split at hstep
  · split at hstep
    · split at hstep
      · cases hstep
        exact CopiesIn.setWorker hcopies ⟨hk.rows, nofun, nofun⟩
      · cases hstep
        exact CopiesIn.setWorker hcopies ⟨hk.rows, hk.cols, nofun⟩
    · cases hstep
  · cases hstep

theorem deleteRow_copies (hstep : deleteRow s w = some t) : CopiesIn Q t := by
  have hk := hcopies w
  unfold deleteRow at hstep
  dsimp only at hstep
  split at hstep
  · cases hstep
  · rename_i col cols hcols
    split at hstep
    · split at hstep
      · cases hstep
        exact CopiesIn.setWorker hcopies ⟨hk.rows, nofun, hk.update⟩
      · cases hstep
        exact CopiesIn.setWorker hcopies ⟨hk.rows, fun col' hcol' =>
          hk.cols col' (hcols ▸ List.mem_cons_of_mem _ hcol'), hk.update⟩
    · cases hstep

theorem insertRow_copies {cols : List (Nat × NewRow)}
    (hstep : insertRow cols s w = some t) : CopiesIn Q t := by
  have hk := hcopies w
  unfold insertRow at hstep
  dsimp only at hstep
  split at hstep
  · split at hstep
    · cases hstep
      split
      · exact hcopies
      · exact CopiesIn.setWorker hcopies ⟨hk.rows, hk.cols, nofun⟩
    · cases hstep
      exact hcopies
  · cases hstep

theorem insertNext_copies (hstep : insertNext s w = some t) : CopiesIn Q t := by
  have hk := hcopies w
  unfold insertNext at hstep
  dsimp only at hstep
  split at hstep
  · cases hstep
    refine CopiesIn.setWorker hcopies ⟨hk.rows, hk.cols, fun u undono hphase => ?_⟩
    dsimp only at hphase
    split at hphase <;> cases hphase
  · cases hstep

include h hrows in
/-- What a worker copies is a row of the table, or a copy it had. -/
theorem tableStep_copies (hstep : tableStep s (w, call) = some t) : CopiesIn Q t := by
  unfold tableStep at hstep
  split at hstep
  · exact walkVersion_copies h hrows hcopies hstep
  · exact updateRows_copies hcopies hstep
  · exact insertNext_copies hcopies hstep
  · cases hstep
    exact hcopies.setWorker ⟨nofun, nofun, (hcopies w).update⟩
  · exact scanRow_copies h hrows hcopies hstep
  · exact fetchRow_copies h hrows hcopies hstep
  · exact copyItem_copies hcopies hstep
  · exact findUndoPage_copies hcopies hstep
  · exact deleteRow_copies hcopies hstep
  · exact insertRow_copies hcopies hstep
  · cases hstep
    exact hcopies
  · cases hstep

end Copies

/-! ## The invariant -/

/-- Every version in the table and in the hands of the workers has its chain. -/
structure ChainsOk (s : TableSys n) : Prop where
  rows : ∀ no o r, RowAt s.file no o r → HasChain s.file r
  copies : CopiesIn (HasChain s.file) s

/-- A step is a section of the file, and the rows it writes have their chains. -/
theorem TableInv.fileStep_chains (h : TableInv s) (hchains : ChainsOk s)
    (hroom : StepRoom s (w, call)) (hstep : tableStep s (w, call) = some t) :
    FileStep s.file s.rooms t.file fun r => HasChain t.file r := by
  have hnone : ∀ {f : TableFile} {r : RowColumnData}, False → HasChain f r :=
    fun hfalse => hfalse.elim
  cases tableStep_effect hroom hstep with
  | none hfile =>
    rw [hfile]
    exact .refl h.file
  | searched u hfile =>
    rw [hfile]
    exact (h.file.stepUndoSpace (P := fun _ => False) u).1.mono fun _ => hnone
  | updated u undono hcall hphase hfile =>
    subst hcall
    simp only [StepRoom, hphase] at hroom
    rw [hfile]
    have hsection := h.updateStep hphase hroom
    have hold := hsection.hasChain ((hchains.copies w).update u undono hphase)
    refine hsection.mono ?_
    rintro r (rfl | ⟨pos, rfl, hpos⟩)
    · exact hold
    · exact hold.newRow hpos
  | deleted col cols hcall hcols hfile =>
    subst hcall
    simp only [StepRoom, hcols] at hroom
    have hcopy := (h.workers w).cols col (hcols ▸ List.mem_cons_self)
    obtain ⟨page, hpage, htype⟩ := hcopy.page
    have hsection := h.file.stepDelete hpage htype hcopy.fits (s.workers w).curr.lt hroom
    have hold := hsection.hasChain ((hchains.copies w).cols col (hcols ▸ List.mem_cons_self))
    rw [hfile]
    refine hsection.mono ?_
    rintro r rfl
    exact hold
  | inserted cols hnodup hfits hfile =>
    rw [hfile]
    exact (FileOk.stepInsert (s.workers w).curr.lt h.file hnodup hfits).1.mono fun _ =>
      hasChain_none
  | extended num hfile =>
    obtain ⟨hok, hkept, hend⟩ := h.file.extensionTbl num
    rw [hfile]
    exact .ofKept hok hkept hend

/-- Every step that has the room it needs keeps the chains. -/
theorem ChainsOk.step {a : Fin n × RowCall} (hchains : ChainsOk s) (h : TableInv s)
    (hroom : StepRoom s a) (hstep : tableStep s a = some t) : ChainsOk t := by
  obtain ⟨w, call⟩ := a
  have hfile := h.fileStep_chains hchains hroom hstep
  refine ⟨fun no o r hr => ?_, fun w' => ?_⟩
  · rcases hfile.rows no o r hr with hold | hnew
    · exact hfile.hasChain (hchains.rows no o r hold)
    · exact hnew
  · have hcopies := tableStep_copies h hchains.rows hchains.copies hstep
    exact (hcopies w').mono fun _ => hfile.hasChain

/-- In every run whose steps have the room they need, the chains end. -/
theorem chains_run {s₀ : TableSys n} {acts : List (Fin n × RowCall)} (h₀ : TableInit s₀)
    (hrows : ∀ no o r, RowAt s₀.file no o r → HasChain s₀.file r)
    (hroom : Along tableStep StepRoom s₀ acts)
    (hrun : run tableStep s₀ acts = some s) : TableInv s ∧ ChainsOk s := by
  have hstart : ChainsOk s₀ := by
    refine ⟨hrows, fun w => ?_⟩
    obtain ⟨hphase, hfound, hcols⟩ := h₀.idle w
    exact ⟨by simp [hfound], by simp [hcols], by simp [hphase]⟩
  exact run_invariant (I := fun s => TableInv s ∧ ChainsOk s)
    (fun h hok hstep => ⟨h.1.step hok hstep, h.2.step h.1 hok hstep⟩)
      ⟨h₀.inv, hstart⟩ hroom hrun

end Toadb
