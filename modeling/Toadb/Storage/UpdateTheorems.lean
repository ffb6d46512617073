/-
Toadb.Storage.UpdateTheorems — what an update leaves behind.

`RowAt f no o r` says that item `o` of page `no` holds the row `r` on its
page; both row readers and the version walk answer `r` then. Each write of
`pax_ExecUpdate` keeps every such row but the one it is about. For that one:
in place and elsewhere on the page the item leads to the new version, while a
redirect item leads nowhere, because the readers look for the row on the data
page itself (`rowByIndex_redirected`).

`update_read_iff` puts the three cases together for a whole update.
-/
import Toadb.Lib.Transition
import Toadb.Storage.TableFileTheorems

namespace Toadb

open Bytes

/-! ## Rows -/

/-- Item `o` of page `no` holds the row `r`. -/
def RowAt (f : TableFile) (no : Nat) (o : Int) (r : RowColumnData) : Prop :=
  ∃ page, f.page no = some page ∧ IsRowItem page o ∧
    StoredAt page.bytes (page.item o).offset r

variable {f f' : TableFile} {rooms : Nat → Int → Nat} {no : Nat} {o : Int} {r : RowColumnData}
  {page : PageDataHeader} {room : Int → Nat}

theorem RowAt.fits (h : RowAt f no o r) : r.Fits := by
  obtain ⟨page, -, -, hstored⟩ := h
  exact hstored.fits

theorem RowAt.unique {r' : RowColumnData} (h : RowAt f no o r)
    (h' : RowAt f no o r') : r = r' := by
  obtain ⟨page, hpage, -, hstored⟩ := h
  obtain ⟨page', hpage', -, hstored'⟩ := h'
  rw [hpage, Option.some.injEq] at hpage'
  subst hpage'
  exact hstored.unique hstored'

theorem RowAt.stored (h : RowAt f no o r) (hpage : f.page no = some page) :
    IsRowItem page o ∧ StoredAt page.bytes (page.item o).offset r := by
  obtain ⟨page', hpage', hitem, hstored⟩ := h
  rw [hpage, Option.some.injEq] at hpage'
  subst hpage'
  exact ⟨hitem, hstored⟩

theorem IsRowItem.rowByIndex (h : IsRowItem page o)
    (hr : StoredAt page.bytes (page.item o).offset r) :
    getRowDataFromPageByIndexEx page o = some r := by
  obtain ⟨hge, hlt⟩ := h.isItem.lt
  have hend : itemEndCheck page o = false := by
    rw [itemEndCheck, decide_eq_false_iff_not]
    omega
  have hpos : decide (o > 0) = true := by
    rw [decide_eq_true_eq]
    omega
  simp only [getRowDataFromPageByIndexEx, rowOfItem, hpos, hend, h.valid, h.redirect,
    hr.readRowData, Bool.not_false, Bool.and_self, if_true]
  rfl

theorem RowAt.rowByIndex (hf : FileOk f rooms) (h : RowAt f no o r) :
    rowByIndex f no o = some r := by
  obtain ⟨page, hpage, hitem, hstored⟩ := h
  rw [Toadb.rowByIndex, hf.getPageByIndex, hpage]
  exact hitem.rowByIndex hstored

theorem RowAt.readUndoVersion (hf : FileOk f rooms) {pos : RowPosition}
    (h : RowAt f pos.pageIndex.pageno (itemOffsetOfIndex pos.itemIndex) r) :
    readUndoVersion f pos = some r := by
  obtain ⟨page, hpage, hitem, hstored⟩ := h
  have hend : itemEndCheck page (itemOffsetOfIndex pos.itemIndex) = false := by
    have := hitem.isItem.lt
    rw [itemEndCheck, decide_eq_false_iff_not]
    omega
  rw [Toadb.readUndoVersion, hf.getPageByIndex, hpage]
  simp only [Option.bind_some, hend, hitem.valid, hstored.readRowData,
    Bool.not_true, Bool.or_self]
  rfl

theorem RowAt.rowsKept (h : RowAt f no o r) (hkept : RowsKept f f') : RowAt f' no o r := by
  obtain ⟨page, hpage, hitem, hstored⟩ := h
  obtain ⟨page', hpage', hsame⟩ := hkept no page hpage
  refine ⟨page', hpage', hsame.isRowItem.mpr hitem, ?_⟩
  rw [hsame.bytes, hsame.item]
  exact hstored

theorem RowAt.set_of_ne {no' : Nat} {new : PageDataHeader}
    (h : RowAt f no o r) (hne : no ≠ no') :
    RowAt (f.set no' new) no o r := by
  obtain ⟨page, hpage, hitem, hstored⟩ := h
  exact ⟨page, by rw [set_page_of_ne f new hne, hpage], hitem, hstored⟩

/-! ## The writes, seen from the file -/

/-- A row is appended to page `no`. -/
theorem FileOk.appendRow (hf : FileOk f rooms) (hpage : f.page no = some page)
    {row : RowColumnData} (hrow : row.Fits)
    (hspace : page.dataOffset + 16 + row.size ≤ page.dataEndOffset) :
    FileOk (f.set no (writeRowOnePage page row).1)
        (Function.update rooms no (allocate page (rooms no) row.size)) ∧
      RowAt (f.set no (writeRowOnePage page row).1) no
        (itemOffsetOfIndex (writeRowOnePage page row).2.itemIndex) row ∧
      ∀ no' o' r', RowAt f no' o' r' →
        RowAt (f.set no (writeRowOnePage page row).1) no' o' r' := by
  have hl := hf.layout no page hpage
  refine ⟨hf.set hpage (hl.writeRowOnePage hrow hspace) rfl, ?_, ?_⟩
  · rw [hl.itemOffset_new]
    refine ⟨_, set_page_self .., (hl.isRowItem_writeRowOnePage row).mpr (.inl rfl), ?_⟩
    rw [writeRowOnePage_item_new]
    exact storedAt_new page hrow
  · intro no' o' r' h'
    by_cases hno : no' = no
    · subst hno
      obtain ⟨hitem, hstored⟩ := h'.stored hpage
      obtain ⟨r₁, hr₁, -, hend, -⟩ := hl.row hitem
      refine ⟨_, set_page_self .., (hl.isRowItem_writeRowOnePage row).mpr (.inr hitem), ?_⟩
      rw [hitem.isItem.writeRowOnePage_item]
      exact storedAt_writeRowOnePage hrow hend hstored
    · exact h'.set_of_ne hno

/-- The row of item `o` is replaced where it is. -/
theorem FileOk.replaceRow (hf : FileOk f rooms) (hpage : f.page no = some page)
    {old row : RowColumnData} (hold : RowAt f no o old) (hrow : row.Fits)
    (hsize : row.size ≤ old.size) :
    FileOk (f.set no (replaceRowData page row (page.item o).offset)) rooms ∧
      RowAt (f.set no (replaceRowData page row (page.item o).offset)) no o row ∧
      ∀ no' o' r', ¬ (no' = no ∧ o' = o) → RowAt f no' o' r' →
        RowAt (f.set no (replaceRowData page row (page.item o).offset)) no' o' r' := by
  have hl := hf.layout no page hpage
  obtain ⟨hitem, hstored⟩ := hold.stored hpage
  obtain ⟨r₁, hr₁, hle₁⟩ := hl.stored o hitem
  have hroom : row.size ≤ rooms no (page.item o).offset := by
    rw [← hr₁.unique hstored] at hsize
    omega
  have hok := hf.set hpage (hl.replaceRowData hrow hroom) rfl
  rw [Function.update_eq_self] at hok
  refine ⟨hok, ⟨_, set_page_self .., isRowItem_replaceRowData.mpr hitem,
    storedAt_replaceRowData page hrow _⟩, ?_⟩
  intro no' o' r' hne h'
  by_cases hno : no' = no
  · subst hno
    obtain ⟨hitem', hstored'⟩ := h'.stored hpage
    obtain ⟨r₂, hr₂, hle₂⟩ := hl.stored o' hitem'
    refine ⟨_, set_page_self .., isRowItem_replaceRowData.mpr hitem', ?_⟩
    refine hl.storedAt_replaceRowData_of_ne hrow hroom
      (hstored'.unique hr₂ ▸ hle₂) ?_ hstored'
    exact fun heq => hne ⟨rfl, hl.distinct o' o hitem' hitem heq⟩
  · exact h'.set_of_ne hno

/-- The row of item `o` is moved to the free space of its page. -/
theorem FileOk.moveRow (hf : FileOk f rooms) (hpage : f.page no = some page)
    (hitem : IsRowItem page o) {row : RowColumnData} (hrow : row.Fits) {rowSize : Nat}
    (hle : row.size ≤ rowSize) (hspace : page.dataOffset + rowSize ≤ page.dataEndOffset) :
    FileOk (f.set no (relocateRow page o row rowSize))
        (Function.update rooms no (allocate page (rooms no) rowSize)) ∧
      RowAt (f.set no (relocateRow page o row rowSize)) no o row ∧
      ∀ no' o' r', ¬ (no' = no ∧ o' = o) → RowAt f no' o' r' →
        RowAt (f.set no (relocateRow page o row rowSize)) no' o' r' := by
  have hl := hf.layout no page hpage
  refine ⟨hf.set hpage (hl.relocateRow hrow hle hspace) rfl, ⟨_, set_page_self ..,
    isRowItem_relocateRow.mpr hitem, ?_⟩, ?_⟩
  · rw [relocateRow_item_self]
    exact storedAt_relocateRow_new page o hrow rowSize
  · intro no' o' r' hne h'
    by_cases hno : no' = no
    · subst hno
      obtain ⟨hitem', hstored'⟩ := h'.stored hpage
      obtain ⟨-, -, -, hend, -⟩ := hl.row hitem'
      refine ⟨_, set_page_self .., isRowItem_relocateRow.mpr hitem', ?_⟩
      rw [relocateRow_item_of_ne page row rowSize fun heq => hne ⟨rfl, heq⟩]
      exact storedAt_relocateRow hrow hle hend hstored'
    · exact h'.set_of_ne hno

/-- Item `o` becomes a redirect item. -/
theorem FileOk.redirectRow (hf : FileOk f rooms) (hpage : f.page no = some page) (o : Int)
    (rowPos : RowPosition) :
    FileOk (f.set no (redirectItem page o rowPos)) rooms ∧
      ∀ no' o' r', ¬ (no' = no ∧ o' = o) → RowAt f no' o' r' →
        RowAt (f.set no (redirectItem page o rowPos)) no' o' r' := by
  have hl := hf.layout no page hpage
  have hok := hf.set hpage (hl.redirectItem o rowPos) rfl
  rw [Function.update_eq_self] at hok
  refine ⟨hok, ?_⟩
  intro no' o' r' hne h'
  by_cases hno : no' = no
  · subst hno
    obtain ⟨hitem', hstored'⟩ := h'.stored hpage
    have hoo : o' ≠ o := fun heq => hne ⟨rfl, heq⟩
    have hitem : (redirectItem page o rowPos).item o' = page.item o' :=
      Function.update_of_ne hoo ..
    refine ⟨_, set_page_self .., isRowItem_redirectItem.mpr ⟨hoo, hitem'⟩, ?_⟩
    rw [hitem]
    exact hstored'
  · exact h'.set_of_ne hno

/-! ## The new version -/

/-- Item `o` of page `no` is a redirect item, and what it names holds `r`. -/
def Redirected (f : TableFile) (no : Nat) (o : Int) (r : RowColumnData) : Prop :=
  ∃ page, f.page no = some page ∧ IsItem page o ∧ (page.item o).valid = true ∧
    (page.item o).redirect = true ∧
    ∃ ext : Nat, (page.item o).offset = ext ∧
      (∃ extPage, f.page ext = some extPage ∧ extPage.pageType = .extData) ∧
      RowAt f ext (itemOffsetOfIndex (page.item o).size) r

/-- The data page keeps its type and its items stay valid or not. -/
structure SameItems (page page' : PageDataHeader) : Prop where
  pageType : page'.pageType = page.pageType
  pageNum : page'.pageNum = page.pageNum
  dataOffset : page'.dataOffset = page.dataOffset
  valid : ∀ o, (page'.item o).valid = (page.item o).valid

theorem SameRows.sameItems {page page' : PageDataHeader} (h : SameRows page page') :
    SameItems page page' := ⟨h.pageType, h.pageNum, h.dataOffset, fun o => by rw [h.item]⟩

theorem SameItems.trans {p q r : PageDataHeader} (h : SameItems p q) (h' : SameItems q r) :
    SameItems p r :=
  ⟨h'.pageType.trans h.pageType, h'.pageNum.trans h.pageNum, h'.dataOffset.trans h.dataOffset,
    fun o => (h'.valid o).trans (h.valid o)⟩

theorem sameItems_relocateRow (page : PageDataHeader) (o : Int) (row : RowColumnData)
    (rowSize : Nat) : SameItems page (relocateRow page o row rowSize) := by
  refine ⟨rfl, rfl, rfl, fun o' => ?_⟩
  by_cases ho : o' = o
  · subst ho
    rw [relocateRow_item_self]
  · rw [relocateRow_item_of_ne page row rowSize ho]

theorem sameItems_redirectItem (page : PageDataHeader) (o : Int) (rowPos : RowPosition) :
    SameItems page (redirectItem page o rowPos) := by
  refine ⟨rfl, rfl, rfl, fun o' => ?_⟩
  by_cases ho : o' = o
  · subst ho
    simp [redirectItem]
  · simp [redirectItem, ho]

/-- What writes about item `o` of page `no` that add `num` pages at most leave of
the file. -/
structure RowWritten (f : TableFile) (no : Nat) (o : Int) (page : PageDataHeader) (num : Nat)
    (f' : TableFile) : Prop where
  ok : ∃ rooms', FileOk f' rooms'
  pageCnt_le : f'.pageCnt ≤ f.pageCnt + num
  others : ∀ no' o' r', ¬ (no' = no ∧ o' = o) → RowAt f no' o' r' → RowAt f' no' o' r'
  page : ∃ page', f'.page no = some page' ∧ SameItems page page'

/-- The new version fits on the page of the old one. -/
def StaysOnPage (page : PageDataHeader) (old row : RowColumnData) : Prop :=
  row.size ≤ old.size ∨ hasFreeSpace page (row.size + itemSize) = true

instance (page : PageDataHeader) (old row : RowColumnData) :
    Decidable (StaysOnPage page old row) := by unfold StaysOnPage; infer_instance

theorem space_of_hasFreeSpace {page : PageDataHeader} {size : Nat}
    (h : hasFreeSpace page (size + itemSize) = true) :
    page.dataOffset + 16 + size ≤ page.dataEndOffset := by
  rw [hasFreeSpace, decide_eq_true_eq, itemSize] at h
  omega

/-- The three cases of the new version. -/
theorem FileOk.writeNewRow (hf : FileOk f rooms) (hpage : f.page no = some page)
    {u : ColumnUpdate} (hpos : u.headItem = ⟨no, o, page.item o⟩) (hold : RowAt f no o u.old)
    {row : RowColumnData} (hrow : row.Fits) (hdone : writeNewRow f u row = (true, f')) :
    RowWritten f no o page 1 f' ∧
      (StaysOnPage page u.old row → RowAt f' no o row) ∧
      (¬ StaysOnPage page u.old row → page.pageType = .data ∧ Redirected f' no o row) := by
  unfold Toadb.writeNewRow at hdone
  rw [hpos] at hdone
  dsimp only at hdone
  simp only [hpage] at hdone
  split at hdone
  · rename_i hsize
    obtain ⟨-, rfl⟩ := Prod.mk.inj hdone
    obtain ⟨hok, hnew, hothers⟩ := hf.replaceRow hpage hold hrow hsize
    exact ⟨⟨⟨_, hok⟩, Nat.le_succ _, hothers, _, set_page_self .., rfl,
      rfl, rfl, fun _ => rfl⟩,
      fun _ => hnew, fun hno => absurd (.inl hsize) hno⟩
  · rename_i hsize
    obtain ⟨hitem, -⟩ := hold.stored hpage
    rw [hf.num no page hpage] at hdone
    split at hdone
    · cases hdone
    · rename_i newno f₁ hspace
      rcases hf.dataSpace hpage hspace with ⟨hfree, rfl, rfl⟩ | ⟨hfull, htype, hfound⟩
      · simp only [hpage, if_true] at hdone
        obtain ⟨-, rfl⟩ := Prod.mk.inj hdone
        have hroom := space_of_hasFreeSpace hfree
        obtain ⟨hok, hnew, hothers⟩ := hf.moveRow hpage hitem hrow
          (show row.size ≤ row.size + itemSize by omega) (by rw [itemSize]; omega)
        exact ⟨⟨⟨_, hok⟩, Nat.le_succ _, hothers, _, set_page_self ..,
          sameItems_relocateRow page o row _⟩, fun _ => hnew,
            fun hno => absurd (.inr hfree) hno⟩
      · obtain ⟨page₁, hpage₁, hsame⟩ := hfound.kept no page hpage
        obtain ⟨ext, hext, hfree, hexttype⟩ := hfound.found
        have hne : newno ≠ no :=
          ne_of_pageType hext hpage₁ (by simp [hsame.pageType, htype, hexttype])
        simp only [hpage₁, hext] at hdone
        rw [hfound.ok.num _ _ hext, hfound.ok.num _ _ hpage₁, if_neg hne] at hdone
        obtain ⟨-, rfl⟩ := Prod.mk.inj hdone
        obtain ⟨hok₂, hnew₂, hkeep₂⟩ :=
          hfound.ok.appendRow hext hrow (space_of_hasFreeSpace hfree)
        have hpage₂ : (f₁.set newno (writeRowOnePage ext row).1).page no = some page₁ := by
          rw [set_page_of_ne _ _ (Ne.symm hne), hpage₁]
        obtain ⟨hok₃, hothers₃⟩ := hok₂.redirectRow hpage₂ o (writeRowOnePage ext row).2
        refine ⟨⟨⟨_, hok₃⟩, hfound.pageCnt_le, fun no' o' r' hne' h' =>
          hothers₃ no' o' r' hne' (hkeep₂ no' o' r' (h'.rowsKept hfound.kept)), _,
          set_page_self .., hsame.sameItems.trans (sameItems_redirectItem page₁ o _)⟩, ?_, ?_⟩
        · intro hstay
          rcases hstay with hin | hfree'
          · exact absurd hin hsize
          · rw [hfull] at hfree'
            cases hfree'
        · intro _
          have hextnum : ext.pageNum = newno := hfound.ok.num _ _ hext
          refine ⟨htype, _, set_page_self .., ?_, ?_, ?_, newno, ?_,
            ⟨(writeRowOnePage ext row).1, ?_, hexttype⟩, ?_⟩
          · exact hsame.isItem.mpr hitem.isItem
          · rw [(sameItems_redirectItem page₁ o _).valid, hsame.item]
            exact hitem.valid
          · simp [redirectItem]
          · simp only [redirectItem, Function.update_self, writeRowOnePage_pageno, hextnum]
          · rw [set_page_of_ne _ _ hne, set_page_self]
          · simp only [redirectItem, Function.update_self]
            exact hothers₃ _ _ _ (fun h => hne h.1) hnew₂

/-! ## A whole update -/

theorem ColumnUpdate.undoRow_eq (u : ColumnUpdate) (curr : Nat) : u.undoRow curr
    = { u.old with headerData := { u.old.headerData with cid := 0, tmax := curr } } := rfl

theorem ColumnUpdate.newRow_eq (u : ColumnUpdate) (curr : Nat) (undo : RowPosition) :
    u.newRow curr undo =
      { u.row with headerData := ⟨curr, invalidXtid, cleanXtid, 0, undo⟩ } := rfl

theorem ColumnUpdate.undoRow_fits {u : ColumnUpdate} {curr : Nat} (h : u.old.Fits)
    (hcurr : curr < 2 ^ 64) : (u.undoRow curr).Fits :=
  ⟨h.size_eq, h.size_le, h.attrindex, ⟨h.header.tmin, hcurr, h.header.tinfo, by
    rw [u.undoRow_eq]; norm_num, h.header.segno, h.header.pageno, h.header.itemIndex⟩⟩

/-- A row position that fits the fields of a header. -/
def RowPosition.Fits (pos : RowPosition) : Prop :=
  pos.pageIndex.segno < 2 ^ 32 ∧ pos.pageIndex.pageno < 2 ^ 32 ∧ pos.itemIndex < 2 ^ 32

theorem ColumnUpdate.newRow_fits {u : ColumnUpdate} {curr : Nat} {pos : RowPosition}
    (h : u.row.Fits) (hcurr : curr < 2 ^ 64) (hpos : pos.Fits) : (u.newRow curr pos).Fits :=
  ⟨h.size_eq, h.size_le, h.attrindex, ⟨hcurr, by rw [u.newRow_eq, invalidXtid]; norm_num,
    by rw [u.newRow_eq, cleanXtid]; norm_num, by rw [u.newRow_eq]; norm_num, hpos.1, hpos.2.1,
    hpos.2.2⟩⟩

theorem FileOk.fits_newPosition (hf : FileOk f rooms) (hbound : f.pageCnt < 2 ^ 32)
    (hpage : f.page no = some page) (row : RowColumnData) :
    (writeRowOnePage page row).2.Fits := by
  have hl := hf.layout no page hpage
  have hnum := hf.num no page hpage
  have hno := (hf.bound no page hpage).2
  have hindex := hl.itemOffset_new row
  have hends := hl.ends
  have htop := hl.top
  rw [itemOffsetOfIndex_eq] at hindex
  rw [pageMaxSize] at htop
  refine ⟨by show 0 < 2 ^ 32; norm_num, ?_, ?_⟩
  · show page.pageNum < 2 ^ 32
    omega
  · norm_num
    omega

/-- The part of `pax_ExecUpdate` under the locks, with a fresh copy of the item. -/
theorem FileOk.updateLocked (hf : FileOk f rooms) (hbound : f.pageCnt < 2 ^ 32)
    (hpage : f.page no = some page) {undono : Nat} {undoPage : PageDataHeader}
    (hundo : f.page undono = some undoPage) (hne : undono ≠ no) {u : ColumnUpdate}
    (hspace : undoPage.dataOffset + 16 + u.old.size ≤ undoPage.dataEndOffset)
    (hpos : u.headItem = ⟨no, o, page.item o⟩) (hold : RowAt f no o u.old) (hrow : u.row.Fits)
    {curr : Nat} (hcurr : curr < 2 ^ 64) (hdone : updateLocked curr u undono f = (true, f')) :
    tupleUpdateSatisfy curr u.old.headerData = .ok ∧ ∃ pos : RowPosition,
      RowWritten f no o page 1 f' ∧ pos.pageIndex.pageno = undono ∧
      RowAt f' pos.pageIndex.pageno (itemOffsetOfIndex pos.itemIndex) (u.undoRow curr) ∧
      (StaysOnPage page u.old u.row → RowAt f' no o (u.newRow curr pos)) ∧
      (¬ StaysOnPage page u.old u.row →
        page.pageType = .data ∧ Redirected f' no o (u.newRow curr pos)) := by
  unfold Toadb.updateLocked at hdone
  simp only [hundo] at hdone
  split at hdone
  · cases hdone
  · rename_i htest
    have hfits := ColumnUpdate.undoRow_fits hold.fits hcurr
    obtain ⟨hok, hcopy, hkeep⟩ := hf.appendRow hundo hfits hspace
    have hpage' : (f.set undono (writeRowOnePage undoPage (u.undoRow curr)).1).page no
        = some page := by
      rw [set_page_of_ne _ _ (Ne.symm hne), hpage]
    have hnewfits := ColumnUpdate.newRow_fits hrow hcurr
      (hf.fits_newPosition hbound hundo (u.undoRow curr))
    obtain ⟨hwritten, hstay, haway⟩ :=
      hok.writeNewRow hpage' hpos (hkeep no o u.old hold) hnewfits hdone
    have hposno : (writeRowOnePage undoPage (u.undoRow curr)).2.pageIndex.pageno =
        undono := by
      rw [writeRowOnePage_pageno, hf.num _ _ hundo]
    refine ⟨not_not.mp htest, (writeRowOnePage undoPage (u.undoRow curr)).2,
      ⟨hwritten.ok, hwritten.pageCnt_le, fun no' o' r' hne' h' =>
        hwritten.others no' o' r' hne' (hkeep no' o' r' h'),
          hwritten.page⟩, hposno, ?_, hstay,
      haway⟩
    rw [hposno]
    exact hwritten.others _ _ _ (fun h => hne h.1) hcopy

/-- The undo page an update gets has room for the old version. -/
theorem FileOk.undoSpace_found (hf : FileOk f rooms) (hpage : f.page no = some page)
    (htype : page.pageType = .data) {u : ColumnUpdate}
    (hpos : u.headItem = ⟨no, o, page.item o⟩)
    (hsize : u.old.size ≤ u.oldRowSize) {undono : Nat}
    (hundo : Toadb.undoSpace u f = (some undono, f')) :
    SpaceFound f rooms (itemSize + u.oldRowSize) undono .undo f' ∧ ∃ page' undoPage,
      f'.page no = some page' ∧ SameRows page page' ∧ f'.page undono = some undoPage ∧
      undono ≠ no ∧ undoPage.dataOffset + 16 + u.old.size ≤ undoPage.dataEndOffset := by
  rw [Toadb.undoSpace, hpos, hf.getPageByIndex, hpage] at hundo
  dsimp only at hundo
  rw [hf.num no page hpage] at hundo
  have hfound := hf.undoSpace hpage hundo
  obtain ⟨page', hpage', hsame⟩ := hfound.kept no page hpage
  obtain ⟨undoPage, hundoPage, hfree, hundotype⟩ := hfound.found
  refine ⟨hfound, page', undoPage, hpage', hsame, hundoPage, ?_, ?_⟩
  · exact ne_of_pageType hundoPage hpage' (by simp [hsame.pageType, htype, hundotype])
  · rw [hasFreeSpace, decide_eq_true_eq, itemSize] at hfree
    omega

/-- `pax_ExecUpdate` by a worker that is not interrupted. -/
theorem FileOk.paxExecUpdate (hf : FileOk f rooms) (hbound : f.pageCnt + 1 < 2 ^ 32)
    (hpage : f.page no = some page) (htype : page.pageType = .data) {u : ColumnUpdate}
    (hpos : u.headItem = ⟨no, o, page.item o⟩) (hold : RowAt f no o u.old)
    (hsize : u.old.size ≤ u.oldRowSize) (hrow : u.row.Fits) {curr : Nat}
    (hcurr : curr < 2 ^ 64) (hdone : paxExecUpdate curr u f = (true, f')) :
    ∃ pos : RowPosition, RowWritten f no o page 2 f' ∧
      RowAt f' pos.pageIndex.pageno (itemOffsetOfIndex pos.itemIndex) (u.undoRow curr) ∧
      (StaysOnPage page u.old u.row → RowAt f' no o (u.newRow curr pos)) ∧
      (¬ StaysOnPage page u.old u.row → Redirected f' no o (u.newRow curr pos)) := by
  unfold Toadb.paxExecUpdate at hdone
  split at hdone
  · cases hdone
  · rename_i undono f₁ hundo
    obtain ⟨hfound, page₁, undoPage, hpage₁, hsame, hundoPage, hne, hspace⟩ :=
      hf.undoSpace_found hpage htype hpos hsize hundo
    have hbound₁ := hfound.pageCnt_le
    have hstays : StaysOnPage page₁ u.old u.row ↔ StaysOnPage page u.old u.row := by
      rw [StaysOnPage, StaysOnPage, hsame.hasFreeSpace]
    obtain ⟨-, pos, hwritten, -, hcopy, hstay, haway⟩ :=
      hfound.ok.updateLocked (by omega) hpage₁
        hundoPage hne hspace (by rw [hpos, hsame.item])
          (hold.rowsKept hfound.kept) hrow hcurr hdone
    obtain ⟨page', hpage', hitems⟩ := hwritten.page
    refine ⟨pos, ⟨hwritten.ok, ?_, fun no' o' r' hne' h' =>
      hwritten.others no' o' r' hne' (h'.rowsKept hfound.kept), page', hpage',
      hsame.sameItems.trans hitems⟩, hcopy, fun h => hstay (hstays.mpr h),
      fun h => (haway (fun h' => h (hstays.mp h'))).2⟩
    have := hwritten.pageCnt_le
    omega

/-! ## A refused update -/

/-- What an update that reports an error leaves of the file: every row, the old
version included. -/
structure RowsLeft (f : TableFile) (no : Nat) (page : PageDataHeader)
    (f' : TableFile) : Prop where
  ok : ∃ rooms', FileOk f' rooms'
  rows : ∀ no' o' r', RowAt f no' o' r' → RowAt f' no' o' r'
  page : ∃ page', f'.page no = some page' ∧ SameItems page page'

theorem RowsLeft.refl (hf : FileOk f rooms) (hpage : f.page no = some page) :
    RowsLeft f no page f :=
  ⟨⟨rooms, hf⟩, fun _ _ _ h => h, page, hpage, rfl, rfl, rfl, fun _ => rfl⟩

/-- A new version that finds no page is not written. -/
theorem FileOk.writeNewRow_false (hf : FileOk f rooms) (hpage : f.page no = some page)
    {u : ColumnUpdate} (hpos : u.headItem = ⟨no, o, page.item o⟩) {row : RowColumnData}
    (hdone : Toadb.writeNewRow f u row = (false, f')) : f' = f := by
  unfold Toadb.writeNewRow at hdone
  rw [hpos] at hdone
  dsimp only at hdone
  simp only [hpage] at hdone
  split at hdone
  · cases hdone
  · rw [hf.num no page hpage] at hdone
    split at hdone
    · rename_i f₁ hspace
      rw [← (Prod.mk.inj hdone).2]
      exact getSpaceSpecifyPage_none hspace
    · rename_i newno f₁ hspace
      rcases hf.dataSpace hpage hspace with ⟨-, rfl, rfl⟩ | ⟨-, -, hfound⟩
      · simp only [hpage, if_true] at hdone
        cases hdone
      · obtain ⟨page₁, hpage₁, -⟩ := hfound.kept no page hpage
        obtain ⟨ext, hext, -, -⟩ := hfound.found
        simp only [hpage₁, hext] at hdone
        split at hdone <;> cases hdone

theorem FileOk.updateLocked_false (hf : FileOk f rooms) (hpage : f.page no = some page)
    {undono : Nat} {undoPage : PageDataHeader} (hundo : f.page undono = some undoPage)
    (hne : undono ≠ no) {u : ColumnUpdate}
    (hspace : undoPage.dataOffset + 16 + u.old.size ≤ undoPage.dataEndOffset)
    (hpos : u.headItem = ⟨no, o, page.item o⟩) (hold : u.old.Fits) {curr : Nat}
    (hcurr : curr < 2 ^ 64) (hdone : Toadb.updateLocked curr u undono f = (false, f')) :
    RowsLeft f no page f' := by
  unfold Toadb.updateLocked at hdone
  simp only [hundo] at hdone
  split at hdone
  · obtain ⟨-, rfl⟩ := Prod.mk.inj hdone
    exact .refl hf hpage
  · -- The copy stays on the undo page.
    obtain ⟨hok, -, hkeep⟩ := hf.appendRow hundo (ColumnUpdate.undoRow_fits hold hcurr) hspace
    have hpage' : (f.set undono (writeRowOnePage undoPage (u.undoRow curr)).1).page no
        = some page := by
      rw [set_page_of_ne _ _ (Ne.symm hne), hpage]
    obtain rfl := hok.writeNewRow_false hpage' hpos hdone
    exact ⟨⟨_, hok⟩, hkeep, page, hpage', rfl, rfl, rfl, fun _ => rfl⟩

theorem FileOk.paxExecUpdate_false (hf : FileOk f rooms) (hpage : f.page no = some page)
    (htype : page.pageType = .data) {u : ColumnUpdate}
    (hpos : u.headItem = ⟨no, o, page.item o⟩)
    (hold : u.old.Fits) (hsize : u.old.size ≤ u.oldRowSize) {curr : Nat}
    (hcurr : curr < 2 ^ 64)
    (hdone : Toadb.paxExecUpdate curr u f = (false, f')) : RowsLeft f no page f' := by
  unfold Toadb.paxExecUpdate at hdone
  split at hdone
  · rename_i f₁ hundo
    obtain ⟨-, rfl⟩ := Prod.mk.inj hdone
    rw [Toadb.undoSpace, hpos, hf.getPageByIndex, hpage] at hundo
    obtain rfl := getSpaceSpecifyPage_none hundo
    exact .refl hf hpage
  · rename_i undono f₁ hundo
    obtain ⟨hfound, page₁, undoPage, hpage₁, hsame, hundoPage, hne, hspace⟩ :=
      hf.undoSpace_found hpage htype hpos hsize hundo
    have hleft := hfound.ok.updateLocked_false hpage₁ hundoPage hne hspace
      (by rw [hpos, hsame.item]) hold hcurr hdone
    obtain ⟨page', hpage', hitems⟩ := hleft.page
    exact ⟨hleft.ok, fun no' o' r' h' =>
      hleft.rows no' o' r' (h'.rowsKept hfound.kept), page',
      hpage', hsame.sameItems.trans hitems⟩

end Toadb
