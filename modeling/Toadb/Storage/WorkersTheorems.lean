/-
Toadb.Storage.WorkersTheorems — what the locked sections do to the file.

`FileStep` is the answer: the layout holds with the space the section took
recorded, pages keep their types, the rows of undo pages stay, and the other
rows were there before or are the ones written. Each write is one
(`FileOk.stepAppend` and its siblings); the sections of an update, a delete
and an insert are compositions of them. Nothing is assumed about how old the
copies are that a section works from.
-/
import Toadb.Storage.UpdateTheorems
import Toadb.Storage.Workers

namespace Toadb

open Bytes Transition

variable {f f' f₁ f₂ : TableFile} {rooms : Nat → Int → Nat} {no : Nat} {o : Int}
  {page new : PageDataHeader} {r : RowColumnData}

/-! ## Allocations -/

theorem setAside_of_same (h : ∀ no, f'.dataEnd no = f.dataEnd no) :
    setAside rooms f f' = rooms := by
  funext no a
  simp only [setAside, h no, lt_irrefl, false_and, if_false]

/-- Two sections that take space on different pages. -/
theorem setAside_trans
    (h : ∀ no, f₁.dataEnd no = f.dataEnd no ∨ f₂.dataEnd no = f₁.dataEnd no) :
    setAside (setAside rooms f f₁) f₁ f₂ = setAside rooms f f₂ := by
  funext no a
  rcases h no with heq | heq
  · simp only [setAside, heq, lt_irrefl, false_and, if_false]
  · simp only [setAside, heq, lt_irrefl, false_and, if_false]

theorem setAside_set (hpage : f.page no = some page) {n : Nat} (hn : 0 < n)
    (hend : new.dataEndOffset = page.dataEndOffset - n) :
    setAside rooms f (f.set no new)
      = Function.update rooms no (allocate page (rooms no) n) := by
  funext no' a
  by_cases hno : no' = no
  · subst hno
    rw [Function.update_self, setAside, dataEnd_set_self, dataEnd_eq hpage, hend]
    by_cases ha : a = page.dataEndOffset - n
    · rw [if_pos ⟨by omega, ha⟩, ha, allocate_new]
      omega
    · rw [if_neg (fun h => ha h.2), allocate, Function.update_of_ne ha]
  · rw [Function.update_of_ne hno]
    simp only [setAside, dataEnd_set_of_ne f new hno, lt_irrefl, false_and, if_false]

/-! ## Locked sections -/

/-- What a locked section that writes rows `P` does to the file. -/
structure FileStep (f : TableFile) (rooms : Nat → Int → Nat) (f' : TableFile)
    (P : RowColumnData → Prop) : Prop where
  ok : FileOk f' (setAside rooms f f')
  types : ∀ no page, f.page no = some page →
    ∃ page', f'.page no = some page' ∧ page'.pageType = page.pageType
  undo : ∀ no page o r, f.page no = some page → page.pageType = .undo → RowAt f no o r →
    RowAt f' no o r
  rows : ∀ no o r, RowAt f' no o r → RowAt f no o r ∨ P r

variable {P Q : RowColumnData → Prop}

/-- Pages that are added without taking space hold no row. -/
theorem FileOk.rowAt_of_kept (hf' : FileOk f' rooms) (hkept : RowsKept f f')
    (hend : ∀ no, f'.dataEnd no = f.dataEnd no) (hr : RowAt f' no o r) : RowAt f no o r := by
  obtain ⟨page', hpage', hitem, hstored⟩ := hr
  cases hpage : f.page no with
  | none =>
    obtain ⟨r', hr', -, hlow, hhigh⟩ := (hf'.layout no page' hpage').row hitem
    have htop := hend no
    rw [dataEnd_eq hpage', dataEnd_none hpage] at htop
    have := hr'.fits.pos
    omega
  | some page =>
    obtain ⟨page₁, hpage₁, hsame⟩ := hkept no page hpage
    rw [hpage', Option.some.injEq] at hpage₁
    subst hpage₁
    rw [hsame.bytes, hsame.item] at hstored
    exact ⟨page, hpage, hsame.isRowItem.mp hitem, hstored⟩

/-- A section that moves no row. -/
theorem FileStep.ofKept (hf' : FileOk f' rooms) (hkept : RowsKept f f')
    (hend : ∀ no, f'.dataEnd no = f.dataEnd no) : FileStep f rooms f' P := by
  refine ⟨?_, ?_, ?_, fun no o r h => .inl (hf'.rowAt_of_kept hkept hend h)⟩
  · rwa [setAside_of_same hend]
  · intro no page hpage
    obtain ⟨page', hpage', hsame⟩ := hkept no page hpage
    exact ⟨page', hpage', hsame.pageType⟩
  · intro no page o r _ _ h
    exact h.rowsKept hkept

theorem FileStep.refl (hf : FileOk f rooms) : FileStep f rooms f P :=
  .ofKept hf (.refl f) fun _ => rfl

theorem FileStep.trans (h : FileStep f rooms f₁ P)
    (h' : FileStep f₁ (setAside rooms f f₁) f₂ Q)
    (hend : ∀ no, f₁.dataEnd no = f.dataEnd no ∨ f₂.dataEnd no = f₁.dataEnd no) :
    FileStep f rooms f₂ (fun r => P r ∨ Q r) := by
  refine ⟨?_, ?_, ?_, ?_⟩
  · rw [← setAside_trans hend]
    exact h'.ok
  · intro no page hpage
    obtain ⟨page₁, hpage₁, htype₁⟩ := h.types no page hpage
    obtain ⟨page₂, hpage₂, htype₂⟩ := h'.types no page₁ hpage₁
    exact ⟨page₂, hpage₂, htype₂.trans htype₁⟩
  · intro no page o r hpage htype hr
    obtain ⟨page₁, hpage₁, htype₁⟩ := h.types no page hpage
    exact h'.undo no page₁ o r hpage₁ (htype₁.trans htype) (h.undo no page o r hpage htype hr)
  · intro no o r hr
    rcases h'.rows no o r hr with hr₁ | hq
    · rcases h.rows no o r hr₁ with hr₀ | hp
      · exact .inl hr₀
      · exact .inr (.inl hp)
    · exact .inr (.inr hq)

theorem FileStep.mono (h : FileStep f rooms f' P) (himp : ∀ r, P r → Q r) :
    FileStep f rooms f' Q :=
  ⟨h.ok, h.types, h.undo, fun no o r hr => (h.rows no o r hr).imp_right (himp r)⟩

/-- A section after one that takes no space. -/
theorem FileStep.after (h : FileStep f₁ rooms f₂ P) (hfirst : FileStep f rooms f₁ P)
    (hend : ∀ no, f₁.dataEnd no = f.dataEnd no) : FileStep f rooms f₂ P := by
  have hsecond : FileStep f₁ (setAside rooms f f₁) f₂ P := by rwa [setAside_of_same hend]
  exact (hfirst.trans hsecond fun no => .inl (hend no)).mono fun r hr => hr.elim id id

/-- A section before one that takes no space. -/
theorem FileStep.before (h : FileStep f rooms f₁ P)
    (hsecond : FileStep f₁ (setAside rooms f f₁) f₂ P)
    (hend : ∀ no, f₂.dataEnd no = f₁.dataEnd no) : FileStep f rooms f₂ P :=
  (h.trans hsecond fun no => .inr (hend no)).mono fun _ hr => hr.elim id id

/-- Overwriting one page is a locked section. -/
theorem FileOk.stepSet (hf : FileOk f rooms)
    (hpage : f.page no = some page) {room : Int → Nat}
    (hlayout : Layout new room) (hnum : new.pageNum = page.pageNum)
    (htype : new.pageType = page.pageType)
    (hrooms : setAside rooms f (f.set no new) = Function.update rooms no room)
    (hkeep : page.pageType = .undo → ∀ o r, RowAt f no o r → RowAt (f.set no new) no o r)
    (hnew : ∀ o r, IsRowItem new o → StoredAt new.bytes (new.item o).offset r →
      (IsRowItem page o ∧ StoredAt page.bytes (page.item o).offset r) ∨ P r) :
    FileStep f rooms (f.set no new) P := by
  refine ⟨?_, ?_, ?_, ?_⟩
  · rw [hrooms]
    exact hf.set hpage hlayout hnum
  · intro no' page' hpage'
    by_cases hno : no' = no
    · subst hno
      rw [hpage, Option.some.injEq] at hpage'
      exact ⟨new, set_page_self .., hpage' ▸ htype⟩
    · exact ⟨page', by rw [set_page_of_ne f new hno, hpage'], rfl⟩
  · intro no' page' o r hpage' htype' hr
    by_cases hno : no' = no
    · subst hno
      rw [hpage, Option.some.injEq] at hpage'
      exact hkeep (hpage' ▸ htype') o r hr
    · exact hr.set_of_ne hno
  · intro no' o r hr
    by_cases hno : no' = no
    · subst hno
      obtain ⟨hitem, hstored⟩ := hr.stored (set_page_self ..)
      refine (hnew o r hitem hstored).imp_left ?_
      rintro ⟨hitem', hstored'⟩
      exact ⟨page, hpage, hitem', hstored'⟩
    · obtain ⟨page', hpage', hitem, hstored⟩ := hr
      rw [set_page_of_ne f new hno] at hpage'
      exact .inl ⟨page', hpage', hitem, hstored⟩

/-- A row is appended. -/
theorem FileOk.stepAppend (hf : FileOk f rooms) (hpage : f.page no = some page)
    {row : RowColumnData} (hrow : row.Fits)
    (hspace : page.dataOffset + 16 + row.size ≤ page.dataEndOffset) :
    FileStep f rooms (f.set no (writeRowOnePage page row).1) (· = row) := by
  have hl := hf.layout no page hpage
  refine hf.stepSet hpage (hl.writeRowOnePage hrow hspace) rfl rfl
    (setAside_set hpage hrow.pos rfl) ?_ ?_
  · intro _ o r hr
    exact (hf.appendRow hpage hrow hspace).2.2 no o r hr
  · intro o r hitem hstored
    rcases (hl.isRowItem_writeRowOnePage row).mp hitem with rfl | hold
    · rw [writeRowOnePage_item_new] at hstored
      exact .inr (hstored.unique (storedAt_new page hrow))
    · obtain ⟨r', hr', -, hend, -⟩ := hl.row hold
      rw [hold.isItem.writeRowOnePage_item] at hstored
      have heq := hstored.unique (storedAt_writeRowOnePage hrow hend hr')
      exact .inl ⟨hold, heq ▸ hr'⟩

theorem dataEnd_replaceRowData (hpage : f.page no = some page) (row : RowColumnData) (a : Int)
    (no' : Nat) : (f.set no (replaceRowData page row a)).dataEnd no' = f.dataEnd no' := by
  refine dataEnd_set_same no ?_ no'
  exact (dataEnd_eq hpage).symm

theorem dataEnd_redirectItem (hpage : f.page no = some page) (o : Int) (rowPos : RowPosition)
    (no' : Nat) : (f.set no (redirectItem page o rowPos)).dataEnd no' = f.dataEnd no' := by
  refine dataEnd_set_same no ?_ no'
  exact (dataEnd_eq hpage).symm

/-- A row is written over the allocation at `a` of a data page. -/
theorem FileOk.stepReplace (hf : FileOk f rooms) (hpage : f.page no = some page)
    (htype : page.pageType = .data) {row : RowColumnData} (hrow : row.Fits) {a : Int}
    (hroom : row.size ≤ rooms no a) :
    FileStep f rooms (f.set no (replaceRowData page row a)) (· = row) := by
  have hl := hf.layout no page hpage
  refine hf.stepSet hpage (hl.replaceRowData hrow hroom) rfl rfl ?_ ?_ ?_
  · rw [setAside_of_same (dataEnd_replaceRowData hpage row a), Function.update_eq_self]
  · intro hundo
    rw [htype] at hundo
    cases hundo
  · intro o r hitem hstored
    have hold := isRowItem_replaceRowData.mp hitem
    obtain ⟨r', hr', hle⟩ := hl.stored o hold
    have hoff : ((replaceRowData page row a).item o).offset = (page.item o).offset := rfl
    rw [hoff] at hstored
    by_cases hoa : (page.item o).offset = a
    · rw [hoa] at hstored
      exact .inr (hstored.unique (storedAt_replaceRowData page hrow a))
    · have heq := hstored.unique (hl.storedAt_replaceRowData_of_ne hrow hroom hle hoa hr')
      exact .inl ⟨hold, heq ▸ hr'⟩

/-- A row of a data page is moved to its free space. -/
theorem FileOk.stepMove (hf : FileOk f rooms) (hpage : f.page no = some page)
    (htype : page.pageType = .data) {row : RowColumnData} (hrow : row.Fits) (o : Int)
    {rowSize : Nat} (hle : row.size ≤ rowSize)
    (hspace : page.dataOffset + rowSize ≤ page.dataEndOffset) :
    FileStep f rooms (f.set no (relocateRow page o row rowSize)) (· = row) := by
  have hl := hf.layout no page hpage
  have hpos : 0 < rowSize := Nat.lt_of_lt_of_le hrow.pos hle
  refine hf.stepSet hpage (hl.relocateRow hrow hle hspace) rfl rfl
    (setAside_set hpage hpos rfl) ?_ ?_
  · intro hundo
    rw [htype] at hundo
    cases hundo
  · intro o' r hitem hstored
    have hold := isRowItem_relocateRow.mp hitem
    by_cases hoo : o' = o
    · subst hoo
      rw [relocateRow_item_self] at hstored
      exact .inr (hstored.unique (storedAt_relocateRow_new page o' hrow rowSize))
    · obtain ⟨r', hr', -, hend, -⟩ := hl.row hold
      rw [relocateRow_item_of_ne page row rowSize hoo] at hstored
      have heq := hstored.unique (storedAt_relocateRow hrow hle hend hr')
      exact .inl ⟨hold, heq ▸ hr'⟩

/-- An item of a data page becomes a redirect item. -/
theorem FileOk.stepRedirect (hf : FileOk f rooms) (hpage : f.page no = some page)
    (htype : page.pageType = .data) (o : Int) (rowPos : RowPosition) :
    FileStep f rooms (f.set no (redirectItem page o rowPos)) P := by
  have hl := hf.layout no page hpage
  refine hf.stepSet hpage (hl.redirectItem o rowPos) rfl rfl ?_ ?_ ?_
  · rw [setAside_of_same (dataEnd_redirectItem hpage o rowPos), Function.update_eq_self]
  · intro hundo
    rw [htype] at hundo
    cases hundo
  · intro o' r hitem hstored
    obtain ⟨hoo, hold⟩ := isRowItem_redirectItem.mp hitem
    have hitem' : (redirectItem page o rowPos).item o' = page.item o' :=
      Function.update_of_ne hoo ..
    rw [hitem'] at hstored
    exact .inl ⟨hold, hstored⟩

/-! ## The sections of an update -/

/-- The version at an undo position. -/
def UndoRow (f : TableFile) (pos : RowPosition) (r : RowColumnData) : Prop :=
  (∃ page, f.page pos.pageIndex.pageno = some page ∧ page.pageType = .undo) ∧
    RowAt f pos.pageIndex.pageno (itemOffsetOfIndex pos.itemIndex) r

/-- An undo position leads nowhere or to a version on an undo page. -/
def UndoLink (f : TableFile) (pos : RowPosition) : Prop :=
  pos.pageIndex.pageno = invalidPageNum ∨ ∃ r, UndoRow f pos r

theorem FileStep.undoRow (h : FileStep f rooms f' P) {pos : RowPosition}
    (hr : UndoRow f pos r) :
    UndoRow f' pos r := by
  obtain ⟨⟨page, hpage, htype⟩, hat⟩ := hr
  obtain ⟨page', hpage', htype'⟩ := h.types _ page hpage
  exact ⟨⟨page', hpage', htype'.trans htype⟩, h.undo _ page _ r hpage htype hat⟩

theorem FileStep.undoLink (h : FileStep f rooms f' P) {pos : RowPosition}
    (hl : UndoLink f pos) :
    UndoLink f' pos := by
  rcases hl with hnone | ⟨r, hr⟩
  · exact .inl hnone
  · exact .inr ⟨r, h.undoRow hr⟩

theorem SpaceFound.fileStep {size : Nat} {pageType : PageType}
    (h : SpaceFound f rooms size no pageType f') : FileStep f rooms f' P :=
  .ofKept h.ok h.kept h.dataEnd

/-- The new version goes to an extension page, and its item is redirected there. -/
theorem SpaceFound.stepAway {newno : Nat} {row : RowColumnData} {ext : PageDataHeader}
    (h : SpaceFound f rooms (row.size + itemSize) newno .extData f₁)
    (hpage : f₁.page no = some page) (htype : page.pageType = .data)
    (hext : f₁.page newno = some ext) (hfree : hasFreeSpace ext (row.size + itemSize) = true)
    (hrow : row.Fits) (hne : no ≠ newno) (o : Int) (rowPos : RowPosition) :
    FileStep f rooms ((f₁.set newno (writeRowOnePage ext row).1).set no
      (redirectItem page o rowPos)) (· = row) := by
  have hpage₂ : (f₁.set newno (writeRowOnePage ext row).1).page no = some page := by
    rw [set_page_of_ne _ _ hne, hpage]
  have happend := h.ok.stepAppend hext hrow (space_of_hasFreeSpace hfree)
  have hwritten := happend.after h.fileStep h.dataEnd
  exact hwritten.before (hwritten.ok.stepRedirect hpage₂ htype o rowPos)
    (dataEnd_redirectItem hpage₂ o rowPos)

/-- The new version is written to the data page, or to an extension page. -/
theorem FileOk.stepNewRow (hf : FileOk f rooms) (hpage : f.page no = some page)
    (htype : page.pageType = .data) {u : ColumnUpdate} (hno : u.headItem.pageno = no)
    {row : RowColumnData} (hrow : row.Fits)
    (hroom : row.size ≤ u.old.size → row.size ≤ rooms no u.headItem.itemData.offset) :
    FileStep f rooms (Toadb.writeNewRow f u row).2 (· = row) ∧
      ∀ no' page', f.page no' = some page' → page'.pageType = .undo →
        (Toadb.writeNewRow f u row).2.dataEnd no' = f.dataEnd no' := by
  unfold Toadb.writeNewRow
  rw [hno]
  simp only [hpage]
  split
  · rename_i hsize
    exact ⟨hf.stepReplace hpage htype hrow (hroom hsize), fun no' _ _ _ =>
      dataEnd_replaceRowData hpage row _ no'⟩
  · rw [hf.num no page hpage]
    split
    · rename_i f₁ hspace
      obtain rfl := getSpaceSpecifyPage_none hspace
      exact ⟨.refl hf, fun _ _ _ _ => rfl⟩
    · rename_i newno f₁ hspace
      rcases hf.dataSpace hpage hspace with ⟨hfree, rfl, rfl⟩ | ⟨-, -, hfound⟩
      · simp only [hpage, if_true]
        have hsp := space_of_hasFreeSpace hfree
        refine ⟨hf.stepMove hpage htype hrow _ (Nat.le_add_right ..) ?_, ?_⟩
        · rw [itemSize]
          omega
        · intro no' page' hpage' htype'
          exact dataEnd_set_of_ne _ _ (ne_of_pageType hpage' hpage (by simp [htype, htype']))
      · obtain ⟨page₁, hpage₁, hsame⟩ := hfound.kept no page hpage
        obtain ⟨ext, hext, hfree, hexttype⟩ := hfound.found
        have hne : no ≠ newno :=
          ne_of_pageType hpage₁ hext (by simp [hsame.pageType, htype, hexttype])
        have hpage₂ : (f₁.set newno (writeRowOnePage ext row).1).page no = some page₁ := by
          rw [set_page_of_ne _ _ hne, hpage₁]
        simp only [hpage₁, hext]
        rw [hfound.ok.num _ _ hext, hfound.ok.num _ _ hpage₁, if_neg (Ne.symm hne)]
        refine ⟨hfound.stepAway hpage₁ (hsame.pageType.trans htype) hext hfree hrow hne _ _,
          ?_⟩
        intro no' page' hpage' htype'
        obtain ⟨q, hq, hqsame⟩ := hfound.kept no' page' hpage'
        have hne' : no' ≠ newno :=
          ne_of_pageType hq hext (by simp [hqsame.pageType, htype', hexttype])
        exact (dataEnd_redirectItem hpage₂ _ _ no').trans
          ((dataEnd_set_of_ne f₁ _ hne').trans (hfound.dataEnd no'))

/-- `pax_ExecUpdate` under its locks: the undo page has room for the copy, and a
new version in place is no larger than the allocation it is written over. -/
theorem FileOk.stepUpdate (hf : FileOk f rooms) (hpage : f.page no = some page)
    (htype : page.pageType = .data) {undono : Nat} {undoPage : PageDataHeader}
    (hundo : f.page undono = some undoPage) (hundotype : undoPage.pageType = .undo)
    {u : ColumnUpdate} (hno : u.headItem.pageno = no) (hold : u.old.Fits) (hrow : u.row.Fits)
    {curr : Nat} (hcurr : curr < 2 ^ 64)
    (hfits : tupleUpdateSatisfy curr u.old.headerData = .ok → f.pageCnt < 2 ^ 32 ∧
      undoPage.dataOffset + 16 + u.old.size ≤ undoPage.dataEndOffset ∧
      (u.row.size ≤ u.old.size → u.row.size ≤ rooms no u.headItem.itemData.offset)) :
    FileStep f rooms (Toadb.updateLocked curr u undono f).2 fun r => r = u.undoRow curr ∨
      ∃ pos, r = u.newRow curr pos ∧
        UndoRow (Toadb.updateLocked curr u undono f).2 pos (u.undoRow curr) := by
  unfold Toadb.updateLocked
  simp only [hundo]
  split
  · exact .refl hf
  · rename_i htest
    obtain ⟨hbound, hspace, hroom⟩ := hfits (not_not.mp htest)
    have hne : no ≠ undono := ne_of_pageType hpage hundo (by simp [htype, hundotype])
    have hcopyfits := ColumnUpdate.undoRow_fits (u := u) hold hcurr
    have hcopy := hf.stepAppend hundo hcopyfits hspace
    obtain ⟨-, hat, -⟩ := hf.appendRow hundo hcopyfits hspace
    have hpage' : (f.set undono (writeRowOnePage undoPage (u.undoRow curr)).1).page no
        = some page := by
      rw [set_page_of_ne _ _ hne, hpage]
    have hnewfits := ColumnUpdate.newRow_fits (u := u) hrow hcurr
      (hf.fits_newPosition hbound hundo (u.undoRow curr))
    have hrooms :
        setAside rooms f (f.set undono (writeRowOnePage undoPage (u.undoRow curr)).1) no
        = rooms no := by
      rw [setAside_set hundo hcopyfits.pos rfl, Function.update_of_ne hne]
    obtain ⟨hnew, hends⟩ := hcopy.ok.stepNewRow hpage' htype hno hnewfits
      (fun hsize => by rw [hrooms]; exact hroom hsize)
    -- The copy takes space on the undo page only, the new version elsewhere.
    refine (hcopy.trans hnew fun no' => ?_).mono ?_
    · by_cases hno' : no' = undono
      · subst hno'
        exact .inr (hends no' _ (set_page_self ..) hundotype)
      · exact .inl (dataEnd_set_of_ne f _ hno')
    · rintro r (rfl | rfl)
      · exact .inl rfl
      · have hundotype' : (writeRowOnePage undoPage (u.undoRow curr)).1.pageType = .undo :=
          hundotype
        refine .inr ⟨_, rfl, hnew.undoRow ⟨⟨_, ?_, hundotype'⟩, ?_⟩⟩
        · rw [writeRowOnePage_pageno, hf.num _ _ hundo]
          exact set_page_self ..
        · rw [writeRowOnePage_pageno, hf.num _ _ hundo]
          exact hat

/-- The search for an undo page. -/
theorem FileOk.stepUndoSpace (hf : FileOk f rooms) (u : ColumnUpdate) :
    FileStep f rooms (Toadb.undoSpace u f).2 P ∧
      ∀ undono, (Toadb.undoSpace u f).1 = some undono →
        ∃ page, (Toadb.undoSpace u f).2.page undono = some page ∧ page.pageType = .undo := by
  unfold Toadb.undoSpace
  rw [hf.getPageByIndex]
  split
  · exact ⟨.refl hf, fun _ h => by cases h⟩
  · rename_i originPage hpage
    rw [hf.num _ _ hpage]
    cases hspace : getSpaceSpecifyPage f
      (itemSize + u.oldRowSize) u.headItem.pageno .undo with
    | mk found f₁ =>
      cases found with
      | none =>
        obtain rfl := getSpaceSpecifyPage_none hspace
        exact ⟨.refl hf, fun _ h => by cases h⟩
      | some undono =>
        have hfound := hf.undoSpace hpage hspace
        refine ⟨hfound.fileStep, fun _ h => ?_⟩
        obtain ⟨undoPage, hundo, -, htype⟩ := hfound.found
        cases h
        exact ⟨undoPage, hundo, htype⟩

/-! ## Deleting and inserting -/

theorem deletedRow_fits {curr : Nat} {old : RowColumnData} (h : old.Fits)
    (hcurr : curr < 2 ^ 64) :
    (deletedRow curr old).Fits :=
  ⟨h.size_eq, h.size_le, h.attrindex, h.header.tmin, hcurr, h.header.tinfo,
    by norm_num [deletedRow, computeXmaxTupleHeader], h.header.segno, h.header.pageno,
    h.header.itemIndex⟩

/-- `pax_ExecDelete` on one column. -/
theorem FileOk.stepDelete (hf : FileOk f rooms) {col : FetchedColumn}
    (hpage : f.page col.headItem.pageno = some page) (htype : page.pageType = .data)
    (hold : col.old.Fits) {curr : Nat} (hcurr : curr < 2 ^ 64)
    (hfits : tupleUpdateSatisfy curr col.old.headerData = .ok →
      col.old.size ≤ rooms col.headItem.pageno col.headItem.itemData.offset) :
    FileStep f rooms (paxExecDelete curr col f).2 (· = deletedRow curr col.old) := by
  unfold paxExecDelete
  rw [hf.getPageByIndex, hpage]
  dsimp only
  split
  · exact .refl hf
  · rename_i htest
    exact hf.stepReplace hpage htype (deletedRow_fits hold hcurr) (hfits (not_not.mp htest))

theorem insertedRow_fits {curr : Nat} (hcurr : curr < 2 ^ 64) (row : NewRow) :
    (insertedRow curr row.1).Fits := by
  obtain ⟨row, hrow⟩ := row
  refine ⟨hrow.size_eq, hrow.size_le, hrow.attrindex, hcurr, ?_, ?_, ?_, ?_, ?_, ?_⟩
  all_goals norm_num [insertedRow, computeXminTupleHeader,
    TupleHeader.blank, RowPosition.none,
    invalidXtid, cleanXtid]

/-- Page `no` has room for an item and a row of `size` bytes. -/
def SpaceFor (f : TableFile) (no size : Nat) : Prop :=
  match f.page no with
  | some page => page.dataOffset + itemSize + size ≤ page.dataEndOffset
  | none => False

instance (f : TableFile) (no size : Nat) : Decidable (SpaceFor f no size) := by
  unfold SpaceFor
  split <;> infer_instance

theorem spaceFor_iff {size : Nat} : SpaceFor f no size ↔
    ∃ page, f.page no = some page ∧ page.dataOffset + 16 + size ≤ page.dataEndOffset := by
  unfold SpaceFor
  cases f.page no with
  | none => simp
  | some page => simp [itemSize]

theorem SpaceFor.of_page {size : Nat} (h : SpaceFor f no size)
    (hpage : f.page no = some page) :
    page.dataOffset + 16 + size ≤ page.dataEndOffset := by
  obtain ⟨page', hpage', hspace⟩ := spaceFor_iff.mp h
  rwa [Option.some.inj (hpage.symm.trans hpage')]

theorem insertColumn_page_of_ne {curr no : Nat} {col : Nat × NewRow} (h : no ≠ col.1) :
    (insertColumn curr f col).page no = f.page no := by
  unfold insertColumn
  split
  · exact set_page_of_ne _ _ h
  · rfl

/-- One column is inserted. -/
theorem FileOk.stepInsertColumn (hf : FileOk f rooms) {curr : Nat} (hcurr : curr < 2 ^ 64)
    {col : Nat × NewRow} (hfits : SpaceFor f col.1 col.2.1.size) :
    FileStep f rooms (insertColumn curr f col) fun r => r.headerData.undo =
      RowPosition.none := by
  obtain ⟨page, hpage, hspace⟩ := spaceFor_iff.mp hfits
  unfold insertColumn
  rw [hpage]
  refine (hf.stepAppend hpage (insertedRow_fits hcurr col.2) hspace).mono ?_
  rintro r rfl
  rfl

/-- Columns that go to different pages are inserted. -/
theorem FileOk.stepInsert {curr : Nat} (hcurr : curr < 2 ^ 64) :
    ∀ {f : TableFile} {rooms : Nat → Int → Nat} {cols : List (Nat × NewRow)}, FileOk f rooms →
      (cols.map Prod.fst).Nodup → (∀ col ∈ cols, SpaceFor f col.1 col.2.1.size) →
      FileStep f rooms (cols.foldl (insertColumn curr) f)
        (fun r => r.headerData.undo = RowPosition.none) ∧
      ∀ no, no ∉ cols.map Prod.fst → (cols.foldl (insertColumn curr) f).page no = f.page no
  | _, _, [], hf, _, _ => ⟨.refl hf, fun _ _ => rfl⟩
  | f, rooms, col :: cols, hf, hnodup, hfits => by
    rw [List.map_cons, List.nodup_cons] at hnodup
    have hfirst := hf.stepInsertColumn hcurr (hfits col List.mem_cons_self)
    have hothers : ∀ col' ∈ cols,
        SpaceFor (insertColumn curr f col) col'.1 col'.2.1.size := by
      intro col' hmem
      have hne : col'.1 ≠ col.1 := fun heq => hnodup.1 (heq ▸ List.mem_map_of_mem hmem)
      rw [SpaceFor, insertColumn_page_of_ne hne]
      exact hfits col' (List.mem_cons_of_mem _ hmem)
    obtain ⟨hrest, hkeep⟩ := FileOk.stepInsert hcurr hfirst.ok hnodup.2 hothers
    refine ⟨(hfirst.trans hrest fun no => ?_).mono fun r h => h.elim id id, fun no hno => ?_⟩
    · by_cases hno : no = col.1
      · subst hno
        right
        rw [TableFile.dataEnd, TableFile.dataEnd, hkeep _ hnodup.1]
      · left
        rw [TableFile.dataEnd, TableFile.dataEnd, insertColumn_page_of_ne hno]
    · rw [List.map_cons, List.mem_cons, not_or] at hno
      exact (hkeep no hno.2).trans (insertColumn_page_of_ne hno.1)

end Toadb
