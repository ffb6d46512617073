/-
Toadb.Storage.LayoutTheorems — the page layout under any number of workers.

`TableInv` is the invariant of the system: every page has its layout, every
undo position leads to a version, every copy in a worker's hand is the copy of
a row. Three writes are made under another lock than the one their space was
tested under, or without a lock, and `StepRoom` is what they need:

    update       the undo page still has room for the old version
    update,      a row written in place is no larger than the space that was
    delete       set aside at the address in the item copy
    insertNext   the page of an unlocked column still has room

`pages_layout` is the result. `pages_overlap` is a run in which two updates
of different rows consume the same free space of one undo page.
-/
import Toadb.Storage.WorkersTheorems

namespace Toadb

open Bytes Transition

variable {f f' : TableFile} {rooms : Nat → Int → Nat} {no : Nat} {o : Int}
  {page : PageDataHeader} {r : RowColumnData} {P : RowColumnData → Prop}

/-! ## The invariant -/

/-- Page `no` of the file is a data page. -/
def IsDataPage (f : TableFile) (no : Nat) : Prop :=
  ∃ page, f.page no = some page ∧ page.pageType = .data

/-- A row copy a worker has in hand. -/
structure CopyOk (f : TableFile) (no : Nat) (o : Int) (old : RowColumnData) : Prop where
  page : IsDataPage f no
  item : ∃ i, o = itemOffsetOfIndex i
  fits : old.Fits
  link : UndoLink f old.headerData.undo

/-- What a worker has in hand between two sections. -/
def RowPhase.Ok (f : TableFile) : RowPhase → Prop
  | .ready => True
  | .walk no o pos => IsDataPage f no ∧ (∃ i, o = itemOffsetOfIndex i) ∧ UndoLink f pos
  | .update u undono => CopyOk f u.headItem.pageno u.headItem.itemOffset u.old ∧ u.row.Fits ∧
      ∃ page, f.page undono = some page ∧ page.pageType = .undo
  | .insertRest _ _ => True

/-- A worker's copies are copies of rows. -/
structure RowWorker.Ok (f : TableFile) (k : RowWorker) : Prop where
  phase : k.phase.Ok f
  rows : ∀ row ∈ k.rows, CopyOk f row.pageno row.itemOffset row.old
  cols : ∀ col ∈ k.cols, CopyOk f col.headItem.pageno col.headItem.itemOffset col.old

/-- The invariant of the system. -/
structure TableInv {n : Nat} (s : TableSys n) : Prop where
  file : FileOk s.file s.rooms
  links : ∀ no o r, RowAt s.file no o r → UndoLink s.file r.headerData.undo
  workers : ∀ w, (s.workers w).Ok s.file

/-- A table with its layout, and workers between two statements. -/
structure TableInit {n : Nat} (s : TableSys n) : Prop where
  file : FileOk s.file s.rooms
  links : ∀ no o r, RowAt s.file no o r → UndoLink s.file r.headerData.undo
  idle : ∀ w, (s.workers w).phase = .ready ∧ (s.workers w).rows = [] ∧ (s.workers w).cols = []

theorem RowWorker.ok_idle {f : TableFile} {k : RowWorker}
    (h : k.phase = .ready ∧ k.rows = [] ∧ k.cols = []) : k.Ok f := by
  obtain ⟨hphase, hrows, hcols⟩ := h
  exact ⟨by rw [hphase]; trivial, by simp [hrows], by simp [hcols]⟩

theorem TableInit.inv {n : Nat} {s : TableSys n} (h : TableInit s) : TableInv s :=
  ⟨h.file, h.links, fun w => RowWorker.ok_idle (h.idle w)⟩

theorem FileStep.isDataPage (h : FileStep f rooms f' P) (hd : IsDataPage f no) :
    IsDataPage f' no := by
  obtain ⟨page, hpage, htype⟩ := hd
  obtain ⟨page', hpage', htype'⟩ := h.types no page hpage
  exact ⟨page', hpage', htype'.trans htype⟩

theorem FileStep.copyOk (h : FileStep f rooms f' P)
    (hc : CopyOk f no o r) : CopyOk f' no o r :=
  ⟨h.isDataPage hc.page, hc.item, hc.fits, h.undoLink hc.link⟩

theorem FileStep.phaseOk (h : FileStep f rooms f' P) {phase : RowPhase} (hp : phase.Ok f) :
    phase.Ok f' := by
  cases phase with
  | ready => trivial
  | walk no o pos => exact ⟨h.isDataPage hp.1, hp.2.1, h.undoLink hp.2.2⟩
  | update u undono =>
    obtain ⟨page, hpage, htype⟩ := hp.2.2
    obtain ⟨page', hpage', htype'⟩ := h.types undono page hpage
    exact ⟨h.copyOk hp.1, hp.2.1, page', hpage', htype'.trans htype⟩
  | insertRest locked cols => trivial

theorem FileStep.workerOk (h : FileStep f rooms f' P) {k : RowWorker}
    (hk : k.Ok f) : k.Ok f' :=
  ⟨h.phaseOk hk.phase, fun row hrow => h.copyOk (hk.rows row hrow),
    fun col hcol => h.copyOk (hk.cols col hcol)⟩

variable {n : Nat} {s t : TableSys n} {w : Fin n}

/-- A worker changes, the file does not. -/
theorem TableInv.setWorker (h : TableInv s) {k : RowWorker} (hk : k.Ok s.file) :
    TableInv (s.setWorker w k) := by
  refine ⟨h.file, h.links, fun w' => ?_⟩
  by_cases hw : w' = w
  · subst hw
    rw [TableSys.setWorker_self]
    exact hk
  · rw [TableSys.setWorker_of_ne _ _ hw]
    exact h.workers w'

/-- The file changes. -/
theorem TableInv.setFile (h : TableInv s) (hf : FileStep s.file s.rooms f P)
    (hlinks : ∀ r, P r → UndoLink f r.headerData.undo) : TableInv (s.setFile f) := by
  refine ⟨hf.ok, fun no o r hr => ?_, fun w => hf.workerOk (h.workers w)⟩
  rcases hf.rows no o r hr with hold | hp
  · exact hf.undoLink (h.links no o r hold)
  · exact hlinks r hp

theorem TableInv.writeVersion (h : TableInv s) (no : Nat) (o : Int) (v : RowVersion) :
    TableInv (s.writeVersion no o v) := ⟨h.file, h.links, h.workers⟩

/-! ## Fetching -/

theorem isDataPage_iff (hf : FileOk f rooms) : isDataPage f no = true ↔ IsDataPage f no := by
  unfold isDataPage IsDataPage
  rw [hf.getPageByIndex]
  cases f.page no with
  | none => simp
  | some page => simp

/-- What the row readers find on a data page is a row of the page. -/
theorem FileOk.rowAt_of_rowByIndex (hf : FileOk f rooms) (hd : IsDataPage f no) {i : Nat}
    (h : rowByIndex f no (itemOffsetOfIndex i) = some r) :
    RowAt f no (itemOffsetOfIndex i) r := by
  obtain ⟨page, hpage, htype⟩ := hd
  rw [Toadb.rowByIndex, hf.getPageByIndex, hpage, Option.bind_some,
    getRowDataFromPageByIndexEx] at h
  split at h
  · rename_i hcond
    simp only [Bool.and_eq_true, decide_eq_true_eq, Bool.not_eq_true', itemEndCheck,
      decide_eq_false_iff_not, not_le] at hcond
    obtain ⟨⟨-, hlt⟩, hvalid⟩ := hcond
    rw [rowOfItem] at h
    split at h
    · rw [getRowDataFromExtPageEx, if_pos (by rw [htype]; decide)] at h
      cases h
    · rename_i hredirect
      have hitem : IsRowItem page (itemOffsetOfIndex i) :=
        ⟨⟨i, rfl, hlt⟩, hvalid, by simpa using hredirect⟩
      obtain ⟨r', hr', -⟩ := (hf.layout no page hpage).row hitem
      rw [hr'.readRowData, Option.some.injEq] at h
      exact ⟨page, hpage, hitem, h ▸ hr'⟩
  · cases h

theorem TableInv.copyOk (h : TableInv s) (hd : IsDataPage s.file no) {i : Nat}
    (hr : rowByIndex s.file no (itemOffsetOfIndex i) = some r) :
    CopyOk s.file no (itemOffsetOfIndex i) r := by
  have hat := h.file.rowAt_of_rowByIndex hd hr
  exact ⟨hd, ⟨i, rfl⟩, hat.fits, h.links _ _ _ hat⟩

theorem TableInv.judge (h : TableInv s) (hc : CopyOk s.file no o r) :
    TableInv (judge s w no o r) := by
  have hk := h.workers w
  unfold Toadb.judge
  dsimp only
  split
  · refine h.setWorker ⟨trivial, fun row hrow => ?_, hk.cols⟩
    rcases List.mem_append.mp hrow with hold | hnew
    · exact hk.rows row hold
    · rw [List.mem_singleton.mp hnew]
      exact hc
  · exact h.setWorker ⟨⟨hc.page, hc.item, hc.link⟩, hk.rows, hk.cols⟩

theorem TableInv.scanRow (h : TableInv s) {index : Nat}
    (hstep : scanRow no index s w = some t) :
    TableInv t := by
  unfold Toadb.scanRow at hstep
  split at hstep
  · rename_i hcond
    rw [Bool.and_eq_true, isDataPage_iff h.file] at hcond
    split at hstep
    · rename_i row hrow
      cases hstep
      exact h.judge (h.copyOk hcond.1 hrow)
    · cases hstep
      exact h
  · cases hstep

theorem TableInv.walkVersion (h : TableInv s) (hstep : walkVersion s w = some t) :
    TableInv t := by
  have hk := h.workers w
  unfold Toadb.walkVersion at hstep
  split at hstep
  · rename_i no o pos hphase
    have hok := hk.phase
    rw [hphase] at hok
    obtain ⟨hd, hitem, hlink⟩ := hok
    split at hstep
    · rename_i row hrow
      cases hstep
      rcases hlink with hnone | ⟨r, -, hat⟩
      · rw [readUndoVersion, getPageByIndex, if_pos hnone] at hrow
        cases hrow
      · rw [hat.readUndoVersion h.file, Option.some.injEq] at hrow
        subst hrow
        exact h.judge ⟨hd, hitem, hat.fits, h.links _ _ _ hat⟩
    · cases hstep
      exact h.setWorker ⟨trivial, by simp, hk.cols⟩
  · cases hstep

theorem TableInv.fetchRow (h : TableInv s) {index : Nat}
    (hstep : fetchRow no index s w = some t) : TableInv t := by
  have hk := h.workers w
  unfold Toadb.fetchRow at hstep
  split at hstep
  · rename_i hcond
    rw [Bool.and_eq_true, isDataPage_iff h.file] at hcond
    split at hstep
    · rename_i found hfound
      cases hstep
      refine h.setWorker ⟨hk.phase, fun row hrow => ?_, hk.cols⟩
      rcases List.mem_append.mp hrow with hold | hnew
      · exact hk.rows row hold
      · rw [List.mem_singleton.mp hnew]
        exact h.copyOk hcond.1 hfound
    · cases hstep
      exact h
  · cases hstep

theorem TableInv.copyItem (h : TableInv s) (hstep : copyItem s w = some t) : TableInv t := by
  have hk := h.workers w
  unfold Toadb.copyItem at hstep
  dsimp only at hstep
  split at hstep
  · cases hstep
  · rename_i row rows hrows
    have hrow : ∀ row' ∈ row :: rows, CopyOk s.file row'.pageno row'.itemOffset row'.old :=
      fun row' hmem => hk.rows row' (hrows ▸ hmem)
    split at hstep
    · cases hstep
      refine h.setWorker ⟨hk.phase, fun row' hmem => hrow row' (List.mem_cons_of_mem _ hmem),
        fun col hcol => ?_⟩
      rcases List.mem_append.mp hcol with hold | hnew
      · exact hk.cols col hold
      · rw [List.mem_singleton.mp hnew]
        exact hrow row List.mem_cons_self
    · cases hstep

/-! ## Writing -/

/-- The update of worker `w` fits. -/
def UpdateFits (s : TableSys n) (w : Fin n) (u : ColumnUpdate) (undono : Nat) : Prop :=
  tupleUpdateSatisfy (s.workers w).curr u.old.headerData = .ok → s.file.pageCnt < 2 ^ 32 ∧
    SpaceFor s.file undono u.old.size ∧
    (u.row.size ≤ u.old.size → u.row.size ≤
      s.rooms u.headItem.pageno u.headItem.itemData.offset)

/-- The delete of worker `w` fits. -/
def DeleteFits (s : TableSys n) (w : Fin n) (col : FetchedColumn) : Prop :=
  tupleUpdateSatisfy (s.workers w).curr col.old.headerData = .ok →
    col.old.size ≤ s.rooms col.headItem.pageno col.headItem.itemData.offset

instance (s : TableSys n) (w : Fin n) (u : ColumnUpdate) (undono : Nat) :
    Decidable (UpdateFits s w u undono) := by unfold UpdateFits; infer_instance

instance (s : TableSys n) (w : Fin n)
    (col : FetchedColumn) : Decidable (DeleteFits s w col) := by
  unfold DeleteFits; infer_instance

/-- What a step needs that it does not test. -/
def StepRoom (s : TableSys n) (a : Fin n × RowCall) : Prop :=
  match a.2, (s.workers a.1).phase, (s.workers a.1).cols with
  | .update, .update u undono, _ => UpdateFits s a.1 u undono
  | .delete, _, col :: _ => DeleteFits s a.1 col
  | .insertNext, .insertRest _ (col :: _), _ => SpaceFor s.file col.1 col.2.1.size
  | _, _, _ => True

instance (s : TableSys n) (a : Fin n × RowCall) : Decidable (StepRoom s a) := by
  unfold StepRoom
  split <;> infer_instance

theorem Xtid.lt (curr : Xtid) : curr.1 < 2 ^ 64 := by
  have hlt : curr.1 < 2 ^ 64 - 1 := curr.2
  omega

theorem TableInv.findUndoPage (h : TableInv s) {row : NewRow} {others : Nat}
    (hstep : findUndoPage row others s w = some t) : TableInv t := by
  have hk := h.workers w
  unfold Toadb.findUndoPage at hstep
  dsimp only at hstep
  split at hstep
  · cases hstep
  · rename_i col cols hcols
    split at hstep
    · obtain ⟨hfile, hundo⟩ := h.file.stepUndoSpace (P := fun _ => False)
        ⟨col.old, col.old.size + others, col.headItem, row.1⟩
      split at hstep
      · rename_i f hspace
        rw [hspace] at hfile
        cases hstep
        refine (h.setFile hfile fun r hr => hr.elim).setWorker ?_
        exact hfile.workerOk ⟨hk.phase, hk.rows, by simp⟩
      · rename_i undono f hspace
        rw [hspace] at hfile hundo
        cases hstep
        refine (h.setFile hfile fun r hr => hr.elim).setWorker ?_
        have hcol := hk.cols col (hcols ▸ List.mem_cons_self)
        refine ⟨⟨hfile.copyOk hcol, row.2, hundo undono rfl⟩,
          fun row' hrow => hfile.copyOk (hk.rows row' hrow), fun col' hcol' => ?_⟩
        exact hfile.copyOk (hk.cols col' (hcols ▸ List.mem_cons_of_mem _ hcol'))
    · cases hstep

theorem TableInv.updateStep (h : TableInv s) {u : ColumnUpdate} {undono : Nat}
    (hphase : (s.workers w).phase = .update u undono) (hfits : UpdateFits s w u undono) :
    FileStep s.file s.rooms (updateLocked (s.workers w).curr u undono s.file).2
      fun r => r = u.undoRow (s.workers w).curr ∨ ∃ pos, r = u.newRow (s.workers w).curr pos ∧
        UndoRow (updateLocked (s.workers w).curr u undono s.file).2 pos
          (u.undoRow (s.workers w).curr) := by
  have hok := (h.workers w).phase
  rw [hphase] at hok
  obtain ⟨⟨⟨page, hpage, htype⟩, -, hfit, -⟩, hrow, undoPage, hundo, hundotype⟩ := hok
  refine h.file.stepUpdate hpage htype hundo hundotype rfl hfit hrow
    (s.workers w).curr.lt fun htest => ?_
  obtain ⟨hbound, hspace, hroom⟩ := hfits htest
  exact ⟨hbound, hspace.of_page hundo, hroom⟩

theorem TableInv.updateRows (h : TableInv s) (hroom : StepRoom s (w, .update))
    (hstep : updateRows s w = some t) : TableInv t := by
  have hk := h.workers w
  unfold Toadb.updateRows at hstep
  dsimp only at hstep
  split at hstep
  · rename_i u undono hphase
    have hfits : UpdateFits s w u undono := by simpa [StepRoom, hphase] using hroom
    have hfile := h.updateStep hphase hfits
    have hok := hk.phase
    rw [hphase] at hok
    have hlinks : ∀ r, (r = u.undoRow (s.workers w).curr ∨ ∃ pos,
        r = u.newRow (s.workers w).curr pos ∧
          UndoRow (updateLocked (s.workers w).curr u undono s.file).2 pos
            (u.undoRow (s.workers w).curr)) →
        UndoLink (updateLocked (s.workers w).curr u undono s.file).2 r.headerData.undo := by
      rintro r (rfl | ⟨pos, rfl, hcopied⟩)
      · exact hfile.undoLink hok.1.link
      · exact .inr ⟨_, hcopied⟩
    have hrows : ∀ row ∈ (s.workers w).rows, CopyOk (updateLocked (s.workers w).curr u undono
        s.file).2 row.pageno row.itemOffset row.old :=
          fun row hrow => hfile.copyOk (hk.rows row hrow)
    split at hstep
    · split at hstep
      · rename_i f hdone
        rw [hdone] at hfile hlinks hrows
        cases hstep
        exact (h.setFile hfile hlinks).setWorker ⟨trivial, hrows, by simp⟩
      · rename_i f hdone
        rw [hdone] at hfile hlinks hrows
        cases hstep
        exact ((h.setFile hfile hlinks).writeVersion _ _ _).setWorker ⟨trivial, hrows,
          fun col hcol => hfile.copyOk (hk.cols col hcol)⟩
    · cases hstep
  · cases hstep

theorem TableInv.deleteRow (h : TableInv s) (hroom : StepRoom s (w, .delete))
    (hstep : deleteRow s w = some t) : TableInv t := by
  have hk := h.workers w
  unfold Toadb.deleteRow at hstep
  dsimp only at hstep
  split at hstep
  · cases hstep
  · rename_i col cols hcols
    have hcol := hk.cols col (hcols ▸ List.mem_cons_self)
    obtain ⟨page, hpage, htype⟩ := hcol.page
    have hfits : DeleteFits s w col := by simpa [StepRoom, hcols] using hroom
    have hfile := h.file.stepDelete hpage htype hcol.fits (s.workers w).curr.lt hfits
    have hlinks : ∀ r, r = deletedRow (s.workers w).curr col.old →
        UndoLink (paxExecDelete (s.workers w).curr col s.file).2 r.headerData.undo := by
      rintro r rfl
      exact hfile.undoLink hcol.link
    split at hstep
    · split at hstep
      · rename_i f hdone
        rw [hdone] at hfile hlinks
        cases hstep
        refine (h.setFile hfile hlinks).setWorker ?_
        exact hfile.workerOk ⟨hk.phase, hk.rows, by simp⟩
      · rename_i f hdone
        rw [hdone] at hfile hlinks
        cases hstep
        refine (h.setFile hfile hlinks).setWorker ?_
        exact hfile.workerOk ⟨hk.phase, hk.rows, fun col' hcol' =>
          hk.cols col' (hcols ▸ List.mem_cons_of_mem _ hcol')⟩
    · cases hstep

theorem undoLink_none (f : TableFile) : UndoLink f RowPosition.none := .inl rfl

theorem spaceFor_of_freeSpaceCheck {cols : List (Nat × NewRow)}
    (h : freeSpaceCheck f cols = true)
    {col : Nat × NewRow} (hcol : col ∈ cols) : SpaceFor f col.1 col.2.1.size := by
  have hcheck := List.all_eq_true.mp h col hcol
  rw [spaceFor_iff]
  cases hpage : f.page col.1 with
  | none => simp [hpage] at hcheck
  | some page =>
    have hspace : hasFreeSpace page (col.2.1.size + columnRowHeaderSize) = true := by
      simpa only [hpage] using hcheck
    rw [hasFreeSpace, decide_eq_true_eq, columnRowHeaderSize, itemSize] at hspace
    exact ⟨page, rfl, by omega⟩

theorem TableInv.insertRow (h : TableInv s) {cols : List (Nat × NewRow)}
    (hstep : insertRow cols s w = some t) : TableInv t := by
  have hk := h.workers w
  unfold Toadb.insertRow at hstep
  dsimp only at hstep
  split at hstep
  · rename_i hcond
    split at hstep
    · rename_i hspace
      rw [List.splitAt_eq] at hstep
      dsimp only at hstep
      have hsub : (cols.take maxLocalLockNum).Sublist cols := List.take_sublist ..
      obtain ⟨hfile, -⟩ := FileOk.stepInsert (s.workers w).curr.lt h.file
        (hcond.1.sublist (hsub.map Prod.fst))
        (fun col hcol => spaceFor_of_freeSpaceCheck hspace (hsub.subset hcol))
      have hfile' := h.setFile hfile fun r hr => hr ▸ undoLink_none _
      cases hstep
      split
      · exact hfile'
      · refine hfile'.setWorker ?_
        exact hfile.workerOk ⟨trivial, hk.rows, hk.cols⟩
    · cases hstep
      exact h
  · cases hstep

theorem TableInv.insertNext (h : TableInv s) (hroom : StepRoom s (w, .insertNext))
    (hstep : insertNext s w = some t) : TableInv t := by
  have hk := h.workers w
  unfold Toadb.insertNext at hstep
  dsimp only at hstep
  split at hstep
  · rename_i locked col rest hphase
    have hspace : SpaceFor s.file col.1 col.2.1.size := by
      simpa [StepRoom, hphase] using hroom
    have hfile := h.file.stepInsertColumn (s.workers w).curr.lt hspace
    cases hstep
    refine (h.setFile hfile fun r hr => hr ▸ undoLink_none _).setWorker ?_
    refine hfile.workerOk ⟨?_, hk.rows, hk.cols⟩
    dsimp only
    split <;> trivial
  · cases hstep

theorem TableInv.extend (h : TableInv s) (num : Nat) :
    TableInv (s.setFile (extensionTbl num s.file)) := by
  obtain ⟨hok, hkept, hend⟩ := h.file.extensionTbl num
  exact h.setFile (P := fun _ => False) (.ofKept hok hkept hend) fun _ hr => hr.elim

/-- Every step that has the room it needs keeps the invariant. -/
theorem TableInv.step {a : Fin n × RowCall} (h : TableInv s) (hroom : StepRoom s a)
    (hstep : tableStep s a = some t) : TableInv t := by
  obtain ⟨w, call⟩ := a
  have hk := h.workers w
  unfold tableStep at hstep
  split at hstep
  · exact h.walkVersion hstep
  · rename_i heq
    simp only at heq
    subst heq
    exact h.updateRows hroom hstep
  · rename_i heq
    simp only at heq
    subst heq
    exact h.insertNext hroom hstep
  · cases hstep
    exact h.setWorker ⟨hk.phase, by simp, by simp⟩
  · exact h.scanRow hstep
  · exact h.fetchRow hstep
  · exact h.copyItem hstep
  · exact h.findUndoPage hstep
  · rename_i heq _
    simp only at heq
    subst heq
    exact h.deleteRow hroom hstep
  · exact h.insertRow hstep
  · cases hstep
    exact h.extend _
  · cases hstep

/-! ## The layout of a page -/

/-- What a page has to look like: items between the header and `dataOffset`, rows
between `dataEndOffset` and the end of the page, no two of them overlapping. -/
structure PageLayout (page : PageDataHeader) : Prop where
  header : (pageDataHeaderSize : Int) ≤ page.dataOffset
  ends : page.dataOffset ≤ page.dataEndOffset
  top : page.dataEndOffset ≤ pageMaxSize
  items : ∀ o, IsItem page o → (pageDataHeaderSize : Int) ≤ o ∧ o + itemSize ≤ page.dataOffset
  rows : ∀ o, IsRowItem page o → ∃ r, StoredAt page.bytes (page.item o).offset r ∧
    page.dataEndOffset ≤ (page.item o).offset ∧ (page.item o).offset + r.size ≤ pageMaxSize
  apart : ∀ o o' r r', IsRowItem page o → IsRowItem page o' → o ≠ o' →
    StoredAt page.bytes (page.item o).offset r →
      StoredAt page.bytes (page.item o').offset r' →
    (page.item o).offset + r.size ≤ (page.item o').offset ∨
      (page.item o').offset + r'.size ≤ (page.item o).offset

theorem Layout.pageLayout {room : Int → Nat} (h : Layout page room) : PageLayout page where
  header := h.dataOffset_ge
  ends := h.ends
  top := h.top
  items := by
    rintro o ⟨i, rfl, hlt⟩
    obtain ⟨k, hk⟩ := h.items
    rw [itemOffsetOfIndex_eq] at *
    rw [pageDataHeaderSize, itemSize]
    omega
  rows := by
    intro o ho
    obtain ⟨r, hr, -, hlow, hhigh⟩ := h.row ho
    exact ⟨r, hr, hlow, hhigh⟩
  apart := by
    intro o o' r r' ho ho' hne hr hr'
    obtain ⟨r₁, hr₁, hle₁, -⟩ := h.row ho
    obtain ⟨r₂, hr₂, hle₂, -⟩ := h.row ho'
    rw [← hr₁.unique hr, ← hr₂.unique hr']
    have hpos₁ := hr₁.fits.pos
    have hpos₂ := hr₂.fits.pos
    have happart := h.apart _ _ (by omega) (by omega) fun heq =>
        hne (h.distinct o o' ho ho' heq)
    omega

/-! ## Two runs -/

/-- A table with one data page behind the head page, no row and workers that have not
started. -/
def newTable (n : Nat) : TableSys n :=
  { file := extensionTbl 2 ⟨0, fun _ => none⟩
    workers := fun _ => ⟨⟨0, by decide⟩, none, .ready, [], []⟩
    rooms := fun _ _ => 0
    written := fun _ _ => [] }

/-- A file of new pages has no row. -/
theorem fileOk_newPages (num : Nat) :
    FileOk (extensionTbl num ⟨0, fun _ => none⟩) (fun _ _ => 0) ∧
    ∀ no o r, ¬ RowAt (extensionTbl num ⟨0, fun _ => none⟩) no o r := by
  have hempty : FileOk ⟨0, fun _ => none⟩ fun _ _ => 0 := by
    refine ⟨?_, ?_, ?_, fun _ _ => rfl⟩
    all_goals
      intro no page hpage
      cases hpage
  obtain ⟨hok, hkept, hend⟩ := hempty.extensionTbl num
  refine ⟨hok, fun no o r hr => ?_⟩
  obtain ⟨page, hpage, -⟩ := hok.rowAt_of_kept hkept hend hr
  cases hpage

/-- A table of new pages, and workers that have not started. -/
theorem tableInit_newPages {num : Nat} (hfile : s.file = extensionTbl num ⟨0, fun _ => none⟩)
    (hrooms : s.rooms = fun _ _ => 0)
    (hidle : ∀ w, (s.workers w).phase = .ready ∧ (s.workers w).rows = [] ∧
      (s.workers w).cols = []) :
    TableInit s := by
  obtain ⟨hok, hnone⟩ := fileOk_newPages num
  rw [← hfile] at hok hnone
  exact ⟨hrooms ▸ hok, fun no o r hr => absurd hr (hnone no o r), hidle⟩

theorem tableInit_newTable (n : Nat) : TableInit (newTable n) :=
  tableInit_newPages (show _ = extensionTbl 2 _ from rfl) rfl fun _ => ⟨rfl, rfl, rfl⟩

/-- A column of `n` equal bytes, as far as a page has room for them. -/
def newColumn (c : Fin 2) (byte : UInt8) (n : Nat) : NewRow :=
  ⟨RowColumnData.new c (List.replicate (min n 3992) byte), by
    have hc := c.isLt
    refine ⟨rfl, ?_, ?_, ?_, ?_, ?_, ?_, ?_, ?_, ?_⟩
    · rw [RowColumnData.new, List.length_replicate]
      show 48 + min n 3992 ≤ 4040
      omega
    all_goals norm_num [RowColumnData.new, RowPosition.none]
    omega⟩

/-- A value of `n` bytes. -/
def newValue (n : Nat) : NewRow := newColumn 0 7 n

/-- Row `index` of page 2 is fetched and an undo page is looked for. -/
def fetchUndo (w : Fin n) (index : Nat) (row : NewRow) : List (Fin n × RowCall) :=
  [(w, .scan 2 index), (w, .copyItem), (w, .undoSpace row 0)]

/-- A worker begins its transaction and inserts a row of two columns. -/
def insertPair (w : Fin n) (curr : Xtid) : List (Fin n × RowCall) :=
  [(w, .statement curr (some ⟨7, 7, 0, []⟩)),
    (w, .insert [(2, newValue 9), (3, newColumn 1 7 20)])]

/-- Two transactions insert a row each. Then the first column of both rows is updated at the
same time, of one to a shorter value and of the other to a longer one, and the second column
of a row is deleted. -/
def twoRowsRun : List (Fin 2 × RowCall) :=
  (0, .extend 1) :: insertPair 0 ⟨5, by decide⟩ ++ insertPair 1 ⟨6, by decide⟩ ++
    fetchUndo 0 0 (newValue 5) ++ fetchUndo 1 1 (newValue 200) ++
    [(1, .update), (0, .update), (0, .scan 3 0), (0, .copyItem), (0, .delete)]

/-- A column is there from the start. -/
def withColumn (s : TableSys n) (col : Nat × NewRow) : TableSys n :=
  s.setFile (insertColumn 0 s.file col)

theorem TableInv.withColumn (h : TableInv s) (col : Nat × NewRow)
    (hspace : SpaceFor s.file col.1 col.2.1.size) : TableInv (withColumn s col) :=
  h.setFile (h.file.stepInsertColumn (by norm_num) hspace) fun _ hr => hr ▸ undoLink_none _

/-- A table with a data page and its undo page. -/
def undoTable (n : Nat) : TableSys n :=
  { newTable n with
    file :=
      ((extensionTbl 3 ⟨0, fun _ => none⟩).set 2 { initPage 2 with undoPage := 3 }).set 3
        { initPage 3 with pageType := .undo } }

theorem tableInv_undoTable (n : Nat) : TableInv (undoTable n) := by
  have hpages : ∀ no page, (undoTable n).file.page no = some page →
      (1 ≤ no ∧ no ≤ 3) ∧ page.pageNum = no ∧ IsEmptyPage page := by
    intro no page hpage
    by_cases h3 : no = 3
    · subst h3
      cases hpage
      exact ⟨⟨by decide, le_rfl⟩, rfl, rfl, rfl, fun _ => rfl⟩
    · rw [undoTable, set_page_of_ne _ _ h3] at hpage
      by_cases h2 : no = 2
      · subst h2
        cases hpage
        exact ⟨⟨by decide, by decide⟩, rfl, rfl, rfl, fun _ => rfl⟩
      · rw [set_page_of_ne _ _ h2, extensionTbl_page] at hpage
        split at hpage
        · rename_i hmem
          cases hpage
          have hno : 0 + 1 ≤ no ∧ no < 0 + 1 + 3 := List.mem_range'_1.mp hmem
          exact ⟨by omega, rfl, rfl, rfl, fun _ => rfl⟩
        · cases hpage
  refine ⟨⟨?_, ?_, ?_, fun _ _ => rfl⟩, ?_, fun _ => RowWorker.ok_idle ⟨rfl, rfl, rfl⟩⟩
  · intro no page hpage
    have hpageCnt : (undoTable n).file.pageCnt = 3 := rfl
    obtain ⟨hno, -⟩ := hpages no page hpage
    omega
  · exact fun no page hpage => (hpages no page hpage).2.1
  · exact fun no page hpage => (hpages no page hpage).2.2.layout
  · rintro no o r ⟨page, hpage, hitem, -⟩
    exact absurd hitem.valid (by simp [(hpages no page hpage).2.2.item])

/-- Two rows on the data page, and an undo page with room for one of them. -/
def nearlyFull : TableSys 2 :=
  withColumn (withColumn (withColumn (undoTable 2) (2, newValue 5))
    (2, newValue 5)) (3, newValue 3900)

theorem tableInit_nearlyFull : TableInit nearlyFull := by
  have hfirst := (tableInv_undoTable 2).withColumn (2, newValue 5) (by decide)
  have hsecond := hfirst.withColumn (2, newValue 5) (by decide)
  have hthird := hsecond.withColumn (3, newValue 3900) (by decide +kernel)
  exact ⟨hthird.file, hthird.links, fun _ => ⟨rfl, rfl, rfl⟩⟩

/-- Two updates of different rows, which look for an undo page before either
writes. -/
def twoUpdates : List (Fin 2 × RowCall) :=
  fetchUndo 0 0 (newValue 5) ++ fetchUndo 1 1 (newValue 5) ++
    [(0, .update), (1, .update)]

/-! ## The result -/

/-- In every run whose steps have the room they need, every page of the table has
its layout. -/
theorem pages_layout {s₀ s : TableSys n} {acts : List (Fin n × RowCall)} (h₀ : TableInit s₀)
    (hroom : Along tableStep StepRoom s₀ acts) (hrun : run tableStep s₀ acts = some s)
    (hpage : s.file.page no = some page) : PageLayout page := by
  have hinv : TableInv s :=
    run_invariant (fun h hok hstep => h.step hok hstep) h₀.inv hroom hrun
  exact (hinv.file.layout no page hpage).pageLayout

/-- The data pages and the undo page of the two rows. -/
theorem pages_layout_two_rows : ∃ s, run tableStep (newTable 2) twoRowsRun = some s ∧
    ∀ no ∈ [2, 3, 4], ∃ page, s.file.page no = some page ∧ PageLayout page := by
  have hrun : run tableStep (newTable 2) twoRowsRun =
      some (exec tableStep (newTable 2) twoRowsRun) :=
    run_exec (by decide +kernel)
  have hsome : ∀ no ∈ [2, 3, 4],
      ((exec tableStep (newTable 2) twoRowsRun).file.page no).isSome = true := by
    decide +kernel
  refine ⟨_, hrun, fun no hno => ?_⟩
  obtain ⟨page, hpage⟩ := Option.isSome_iff_exists.mp (hsome no hno)
  exact ⟨page, hpage, pages_layout (tableInit_newTable 2) (by decide +kernel) hrun hpage⟩

/-- Both updates find the undo page with room for one old version, and the second
copy runs into the items. -/
theorem pages_overlap : ∃ s page, TableInit nearlyFull ∧
    run tableStep nearlyFull twoUpdates = some s ∧ s.file.page 3 = some page ∧
    page.dataEndOffset < page.dataOffset ∧ ¬ PageLayout page := by
  have hrun : run tableStep nearlyFull twoUpdates =
      some (exec tableStep nearlyFull twoUpdates) :=
    run_exec (by decide +kernel)
  have hsome : ((exec tableStep nearlyFull twoUpdates).file.page 3).isSome = true := by
    decide +kernel
  have hends : ∀ page ∈ (exec tableStep nearlyFull twoUpdates).file.page 3,
      page.dataEndOffset < page.dataOffset := by decide +kernel
  obtain ⟨page, hpage⟩ := Option.isSome_iff_exists.mp hsome
  have hlt := hends page hpage
  refine ⟨_, page, tableInit_nearlyFull, hrun, hpage, hlt, fun hlayout => ?_⟩
  have := hlayout.ends
  omega

end Toadb
