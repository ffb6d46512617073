/-
Toadb.Executor.DeleteRowTheorems — does a DELETE hide the row?

`pax_ExecDelete` goes from column to column and writes the row copy it has over the address in
its item copy. While the item is still the one that was copied, that is the current version,
whatever an update in place has made of it meanwhile (`DeleteInv.deleted`); and nobody else
may write there until the last column is done. `TableInv.rowsStay_step` says what a step
reaches: the item it has a copy of, and what is at the address.

A version behind the copy is hidden by its deleter. No one tests whether he is over when the
column was not scanned, so this is part of the condition.
-/
import Toadb.Storage.AlignmentTheorems
import Toadb.Storage.HistoryTheorems
import Toadb.Storage.VersionReadTheorems

namespace Toadb

open Bytes Transition

variable {f f' : TableFile} {rooms : Nat → Int → Nat} {no : Nat} {o : Int}
  {page : PageDataHeader}
  {r : RowColumnData} {T T' : Nat → Int → Prop}

/-! ## What a step reaches -/

/-- What is written through a copy of an item: the item, and the row at the address. -/
def WrittenOver (f : TableFile) (headItem : HeapItemData) (no : Nat) (o : Int) : Prop :=
  no = headItem.pageno ∧
    (o = headItem.itemOffset ∨ ∃ page ∈ f.page no,
      (page.item o).offset = headItem.itemData.offset)

instance (f : TableFile) (headItem : HeapItemData) (no : Nat) (o : Int) :
    Decidable (WrittenOver f headItem no o) := by unfold WrittenOver; infer_instance

theorem RowsStay.mono (h : RowsStay f f' T)
    (himp : ∀ no o, T no o → T' no o) : RowsStay f f' T' :=
  ⟨fun no o r hT => h.rows no o r fun hT' => hT (himp no o hT'),
    fun no o page hT => h.items no o page fun hT' => hT (himp no o hT')⟩

/-- A row is written over an address of a data page. -/
theorem FileOk.rowsStay_replace (hf : FileOk f rooms) {headItem : HeapItemData}
    (hpage : f.page headItem.pageno = some page) {row : RowColumnData} (hrow : row.Fits)
    (hroom : row.size ≤ rooms headItem.pageno headItem.itemData.offset) :
    RowsStay f (f.set headItem.pageno (replaceRowData page row headItem.itemData.offset))
      (WrittenOver f headItem) := by
  have hl := hf.layout _ page hpage
  refine ⟨fun no o r hT hr => ?_, .set hpage fun _ _ hitem => ⟨hitem, rfl⟩⟩
  by_cases hno : no = headItem.pageno
  · subst hno
    obtain ⟨hitem, hstored⟩ := hr.stored hpage
    obtain ⟨r', hr', hle⟩ := hl.stored o hitem
    have hne : (page.item o).offset ≠ headItem.itemData.offset :=
      fun heq => hT ⟨rfl, .inr ⟨page, hpage, heq⟩⟩
    refine ⟨_, set_page_self .., isRowItem_replaceRowData.mpr hitem, ?_⟩
    exact hl.storedAt_replaceRowData_of_ne hrow hroom (hstored.unique hr' ▸ hle) hne hstored
  · exact hr.set_of_ne hno

/-- The new version is written over the address, to the free space of the page, or to an
extension page. -/
theorem FileOk.rowsStay_newRow (hf : FileOk f rooms) {u : ColumnUpdate}
    (hpage : f.page u.headItem.pageno = some page) (htype : page.pageType = .data)
    {row : RowColumnData} (hrow : row.Fits) (hroom : row.size ≤ u.old.size →
      row.size ≤ rooms u.headItem.pageno u.headItem.itemData.offset) :
    RowsStay f (Toadb.writeNewRow f u row).2 (WrittenOver f u.headItem) := by
  have hitems := hf.itemsStay_newRow hpage htype rfl row
  refine ⟨?_, fun no o page hT => hitems no o page fun hT' => hT ⟨hT'.1, .inl hT'.2⟩⟩
  unfold Toadb.writeNewRow
  rw [hpage]
  dsimp only
  split
  · rename_i hsize
    exact (hf.rowsStay_replace hpage hrow (hroom hsize)).rows
  · rw [hf.num _ page hpage]
    split
    · rename_i f₁ hspace
      obtain rfl := getSpaceSpecifyPage_none hspace
      exact fun no o r _ hr => hr
    · rename_i newno f₁ hspace
      rcases hf.dataSpace hpage hspace with ⟨hfree, rfl, rfl⟩ | ⟨-, -, hfound⟩
      · simp only [hpage, if_true]
        intro no o r hT hr
        by_cases hno : no = u.headItem.pageno
        · subst hno
          obtain ⟨hitem, hstored⟩ := hr.stored hpage
          obtain ⟨-, -, -, hend, -⟩ := (hf.layout _ page hpage).row hitem
          refine ⟨_, set_page_self .., isRowItem_relocateRow.mpr hitem, ?_⟩
          rw [relocateRow_item_of_ne page row _ fun heq => hT ⟨rfl, .inl heq⟩]
          exact storedAt_relocateRow hrow (Nat.le_add_right ..) hend hstored
        · exact hr.set_of_ne hno
      · obtain ⟨page₁, hpage₁, hsame⟩ := hfound.kept _ page hpage
        obtain ⟨ext, hext, hfree, hexttype⟩ := hfound.found
        have hne : u.headItem.pageno ≠ newno :=
          ne_of_pageType hpage₁ hext (by simp [hsame.pageType, htype, hexttype])
        have hpage₂ : (f₁.set newno (writeRowOnePage ext row).1).page u.headItem.pageno =
            some page₁ := by
          rw [set_page_of_ne _ _ hne, hpage₁]
        simp only [hpage₁, hext]
        rw [hfound.ok.num _ _ hext, hfound.ok.num _ _ hpage₁, if_neg (Ne.symm hne)]
        obtain ⟨hok, -, hkeep⟩ := hfound.ok.appendRow hext hrow (space_of_hasFreeSpace hfree)
        obtain ⟨-, hothers⟩ :=
          hok.redirectRow hpage₂ u.headItem.itemOffset (writeRowOnePage ext row).2
        intro no o r hT hr
        exact hothers no o r (fun heq => hT ⟨heq.1, .inl heq.2⟩)
          (hkeep no o r (hr.rowsKept hfound.kept))

variable {n : Nat} {s t : TableSys n} {w : Fin n} {call : RowCall}

theorem TableInv.rowsStay_update (h : TableInv s) {u : ColumnUpdate} {undono : Nat}
    (hphase : (s.workers w).phase = .update u undono) (hroom : UpdateFits s w u undono)
    (htest : tupleUpdateSatisfy (s.workers w).curr u.old.headerData = .ok) :
    RowsStay s.file (updateLocked (s.workers w).curr u undono s.file).2
      (WrittenOver s.file u.headItem) := by
  have hok := (h.workers w).phase
  rw [hphase] at hok
  obtain ⟨hcopy, hrow, undoPage, hundo, hundotype⟩ := hok
  obtain ⟨page, hpage, htype⟩ := hcopy.page
  obtain ⟨hbound, hspace, hfits⟩ := hroom htest
  have hspace := hspace.of_page hundo
  have hne : u.headItem.pageno ≠ undono :=
    ne_of_pageType hpage hundo (by simp [htype, hundotype])
  have hcurr := (s.workers w).curr.lt
  have hcopyfits := ColumnUpdate.undoRow_fits (u := u) hcopy.fits hcurr
  have hstep := h.file.stepAppend hundo hcopyfits hspace
  obtain ⟨-, -, hkeep⟩ := h.file.appendRow hundo hcopyfits hspace
  have hpage' :
      (s.file.set undono (writeRowOnePage undoPage (u.undoRow (s.workers w).curr)).1).page
      u.headItem.pageno = some page := by
    rw [set_page_of_ne _ _ hne, hpage]
  have hnewfits := ColumnUpdate.newRow_fits (u := u) hrow hcurr
    (h.file.fits_newPosition hbound hundo (u.undoRow (s.workers w).curr))
  have hrooms : setAside s.rooms s.file (s.file.set undono
      (writeRowOnePage undoPage (u.undoRow (s.workers w).curr)).1) u.headItem.pageno =
        s.rooms u.headItem.pageno := by
    rw [setAside_set hundo hcopyfits.pos rfl, Function.update_of_ne hne]
  have hnew := hstep.ok.rowsStay_newRow hpage' htype hnewfits
      (fun hsize => by rw [hrooms]; exact hfits hsize)
  have hfirst : RowsStay s.file
      (s.file.set undono (writeRowOnePage undoPage (u.undoRow (s.workers w).curr)).1)
      (WrittenOver s.file u.headItem) :=
    ⟨fun no o r _ hr => hkeep no o r hr, .append ⟨_, h.file.layout _ _ hundo⟩ hundo _⟩
  unfold Toadb.updateLocked
  simp only [hundo, htest, ne_eq, not_true_eq_false, if_false]
  refine hfirst.trans (hnew.mono ?_)
  rintro no o ⟨hno, hover⟩
  subst hno
  rw [hpage', ← hpage] at hover
  exact ⟨rfl, hover⟩

theorem TableInv.rowsStay_delete (h : TableInv s) {col : FetchedColumn}
    {cols : List FetchedColumn}
    (hcols : (s.workers w).cols = col :: cols) (hroom : DeleteFits s w col)
    (htest : tupleUpdateSatisfy (s.workers w).curr col.old.headerData = .ok) :
    RowsStay s.file (paxExecDelete (s.workers w).curr col s.file).2
      (WrittenOver s.file col.headItem) := by
  have hcopy := (h.workers w).cols col (hcols ▸ List.mem_cons_self)
  obtain ⟨page, hpage, -⟩ := hcopy.page
  unfold paxExecDelete
  rw [h.file.getPageByIndex, hpage]
  dsimp only
  rw [if_neg (not_not.mpr htest)]
  exact h.file.rowsStay_replace hpage
    (deletedRow_fits hcopy.fits (s.workers w).curr.lt) (hroom htest)

/-- The item copy a step writes through. -/
def writesThrough (s : TableSys n) (a : Fin n × RowCall) : Option HeapItemData :=
  let k := s.workers a.1
  match a.2, k.phase, k.cols with
  | .update, .update u _, _ =>
      if tupleUpdateSatisfy k.curr u.old.headerData = .ok then some u.headItem else none
  | .delete, _, col :: _ =>
      if tupleUpdateSatisfy k.curr col.old.headerData = .ok then some col.headItem else none
  | _, _, _ => none

/-- A step keeps every item and every row but those it writes over. -/
theorem TableInv.rowsStay_step (h : TableInv s) (hroom : StepRoom s (w, call))
    (hstep : tableStep s (w, call) = some t) :
    RowsStay s.file t.file fun no o => ∃ headItem ∈ writesThrough s (w, call),
      WrittenOver s.file headItem no o := by
  cases tableStep_effect hroom hstep with
  | none hfile =>
    rw [hfile]
    exact .refl _
  | searched u hfile =>
    rw [hfile]
    exact .ofKept (h.file.undoSpace_kept u)
  | updated u undono hcall hphase hfile =>
    subst hcall
    simp only [StepRoom, hphase] at hroom
    rw [hfile]
    by_cases htest : tupleUpdateSatisfy (s.workers w).curr u.old.headerData = .ok
    · refine (h.rowsStay_update hphase hroom htest).mono fun no o hover =>
        ⟨u.headItem, ?_, hover⟩
      simp [writesThrough, hphase, htest]
    · rw [updateLocked_refused htest]
      exact .refl _
  | deleted col cols hcall hcols hfile =>
    subst hcall
    simp only [StepRoom, hcols] at hroom
    rw [hfile]
    by_cases htest : tupleUpdateSatisfy (s.workers w).curr col.old.headerData = .ok
    · refine (h.rowsStay_delete hcols hroom htest).mono fun no o hover =>
        ⟨col.headItem, ?_, hover⟩
      simp [writesThrough, hcols, htest]
    · unfold paxExecDelete
      split
      · exact .refl _
      · rw [if_pos htest]
        exact .refl _
  | inserted cols hnodup hfits hfile =>
    rw [hfile]
    exact h.file.insert_stay (s.workers w).curr.lt hnodup hfits
  | extended num hfile =>
    obtain ⟨-, hkept, -⟩ := h.file.extensionTbl num
    rw [hfile]
    exact .ofKept hkept

/-! ## A DELETE among other steps -/

/-- The table, and the columns of its row that worker `d` has deleted. No step reads them. -/
structure DeleteSys (n : Nat) where
  table : TableSys n
  done : List FetchedColumn

/-- The column a step of worker `d` deletes. -/
def deletedBy (d : Fin n) (s : TableSys n) (a : Fin n × RowCall) : List FetchedColumn :=
  match a.2, (s.workers a.1).cols with
  | .delete, col :: _ =>
    if a.1 = d ∧ (paxExecDelete (s.workers a.1).curr col s.file).1 = true then [col] else []
  | _, _ => []

/-- A step of the workers, with the column it deletes. -/
def deleteStep (d : Fin n) (s : DeleteSys n) (a : Fin n × RowCall) : Option (DeleteSys n) :=
  (tableStep s.table a).map fun t => ⟨t, s.done ++ deletedBy d s.table a⟩

/-- The item is still the one that was copied, and leads to a row. -/
def ItemHome (f : TableFile) (headItem : HeapItemData) : Prop :=
  (rowByIndex f headItem.pageno headItem.itemOffset).isSome = true ∧
    ∃ page ∈ f.page headItem.pageno, page.item headItem.itemOffset = headItem.itemData

instance (f : TableFile) (headItem : HeapItemData) : Decidable (ItemHome f headItem) := by
  unfold ItemHome; infer_instance

/-- The condition on a step: the room it needs, the item of a column when worker `d` deletes
it, and no write of the others over a column that is deleted. -/
def DeleteOk (d : Fin n) (s : DeleteSys n) (a : Fin n × RowCall) : Prop :=
  StepRoom s.table a ∧ ∀ headItem ∈ writesThrough s.table a,
    if a.1 = d then ItemHome s.table.file headItem
    else ∀ col ∈ s.done,
      ¬ WrittenOver s.table.file headItem col.headItem.pageno col.headItem.itemOffset

instance (d : Fin n) (s : DeleteSys n)
    (a : Fin n × RowCall) : Decidable (DeleteOk d s a) := by
  unfold DeleteOk; infer_instance

/-- The column's item leads to the row copy with the deleter's id. -/
structure DeletedAt (f : TableFile) (curr : Nat) (col : FetchedColumn) : Prop where
  page : IsDataPage f col.headItem.pageno
  row : RowAt f col.headItem.pageno col.headItem.itemOffset (deletedRow curr col.old)

/-- Every version behind the copy was superseded by a transaction that the snapshot counts as
over. -/
def OlderOver (f : TableFile) (snapshot : SnapShotInfo) (curr : Nat)
    (col : FetchedColumn) : Prop :=
  ∃ rs, UndoChain f col.old.headerData.undo rs ∧
    ∀ v ∈ rs, v.headerData.tmax ≠ invalidXtid ∧ snapshot.CountsAsOver curr v.headerData.tmax

/-- A DELETE of `row` by worker `d` under way. -/
structure DeleteInv (d : Fin n) (curr : Xtid) (snapshot : SnapShotInfo)
    (row : List FetchedColumn) (s : DeleteSys n) : Prop where
  table : TableInv s.table
  chains : ChainsOk s.table
  worker : (s.table.workers d).curr = curr
  rest : ∃ rest, row = s.done ++ rest ∧
    ((s.table.workers d).cols = rest ∨ (s.table.workers d).cols = [])
  deleted : ∀ col ∈ s.done, DeletedAt s.table.file curr col
  older : ∀ col ∈ row, OlderOver s.table.file snapshot curr col

/-- Nothing but the bytes of the column's own version is changed. -/
structure OthersStay (f f' : TableFile) (col : FetchedColumn) : Prop where
  bytes : ∃ page bytes, f.page col.headItem.pageno = some page ∧
    f' = f.set col.headItem.pageno { page with bytes := bytes } ∧
    ∀ a, a < col.headItem.itemData.offset ∨ col.headItem.itemData.offset + col.old.size ≤ a →
      bytes a = page.bytes a
  rows : ∀ no o r, ¬ Only col.headItem.pageno col.headItem.itemOffset no o →
    RowAt f no o r → RowAt f' no o r

variable {d : Fin n} {curr : Xtid} {snapshot : SnapShotInfo} {row : List FetchedColumn}
  {col : FetchedColumn}

/-- The row item at the address of a copy that is at home is the item of the copy. -/
theorem TableInv.rowAt_of_home (h : TableInv s)
    (hcopy : CopyOk s.file col.headItem.pageno col.headItem.itemOffset col.old)
    (hhome : ItemHome s.file col.headItem) :
    ∃ page r, s.file.page col.headItem.pageno = some page ∧
      page.item col.headItem.itemOffset = col.headItem.itemData ∧
      RowAt s.file col.headItem.pageno col.headItem.itemOffset r := by
  obtain ⟨hsome, page, hpage, hitem⟩ := hhome
  obtain ⟨r, hr⟩ := Option.isSome_iff_exists.mp hsome
  obtain ⟨i, hi⟩ := hcopy.item
  rw [hi] at hr
  refine ⟨page, r, hpage, hitem, ?_⟩
  rw [hi]
  exact h.file.rowAt_of_rowByIndex hcopy.page hr

/-- A column that is deleted at home. -/
theorem TableInv.delete_home (h : TableInv s)
    (hcopy : CopyOk s.file col.headItem.pageno col.headItem.itemOffset col.old)
    (hhome : ItemHome s.file col.headItem)
    (htest : tupleUpdateSatisfy curr col.old.headerData = .ok)
    (hroom : col.old.size ≤ s.rooms col.headItem.pageno col.headItem.itemData.offset) :
    DeletedAt (paxExecDelete curr col s.file).2 curr col ∧
      OthersStay s.file (paxExecDelete curr col s.file).2 col := by
  obtain ⟨page, r, hpage, hitem, hat⟩ := h.rowAt_of_home hcopy hhome
  obtain ⟨page', hpage', htype⟩ := hcopy.page
  rw [hpage, Option.some.injEq] at hpage'
  subst hpage'
  obtain ⟨hrow, -⟩ := hat.stored hpage
  have hl := h.file.layout _ page hpage
  have hfits := deletedRow_fits hcopy.fits curr.lt
  have hstay := h.file.rowsStay_replace hpage hfits hroom
  unfold paxExecDelete
  rw [h.file.getPageByIndex, hpage]
  dsimp only
  rw [if_neg (not_not.mpr htest)]
  refine ⟨⟨⟨_, set_page_self .., htype⟩, _, set_page_self ..,
    isRowItem_replaceRowData.mpr hrow, ?_⟩,
    ⟨page, _, hpage, rfl, fun a ha => ?_⟩, fun no o r' hne hr' => ?_⟩
  · show StoredAt _ (page.item col.headItem.itemOffset).offset _
    rw [hitem]
    exact storedAt_replaceRowData page hfits _
  · refine Bytes.write_of_outside ?_
    rwa [hfits.length]
  · refine hstay.rows no o r' ?_ hr'
    rintro ⟨rfl, rfl | ⟨page', hpage', haddr⟩⟩
    · exact hne ⟨rfl, rfl⟩
    · rw [hpage, Option.mem_def, Option.some.injEq] at hpage'
      subst hpage'
      rw [← hitem] at haddr
      exact hne ⟨rfl, hl.distinct o _ (hr'.stored hpage).1 hrow haddr⟩

theorem DeletedAt.step {P : RowColumnData → Prop} {curr : Nat} (h : DeletedAt f curr col)
    (hfile : FileStep f rooms f' P) (hstay : RowsStay f f' T)
    (hno : ¬ T col.headItem.pageno col.headItem.itemOffset) : DeletedAt f' curr col :=
  ⟨hfile.isDataPage h.page, hstay.rows _ _ _ hno h.row⟩

/-- `pax_ExecDelete` goes by its test. -/
theorem FileOk.paxExecDelete_cases (hf : FileOk f rooms)
    (hd : IsDataPage f col.headItem.pageno) (curr : Nat) :
    (paxExecDelete curr col f).1 = true ∧ tupleUpdateSatisfy curr col.old.headerData = .ok ∨
      paxExecDelete curr col f = (false, f) := by
  obtain ⟨page, hpage, -⟩ := hd
  unfold paxExecDelete
  rw [hf.getPageByIndex, hpage]
  dsimp only
  split
  · exact .inr rfl
  · rename_i htest
    exact .inl ⟨rfl, not_not.mp htest⟩

/-- A step of `pax_ExecDelete`. -/
theorem deleteRow_cases (hstep : tableStep s (d, .delete) = some t) : ∃ col cols,
    (s.workers d).cols = col :: cols ∧
      t.file = (paxExecDelete (s.workers d).curr col s.file).2 ∧
      (t.workers d).curr = (s.workers d).curr ∧
      ((paxExecDelete (s.workers d).curr col s.file).1 = true ∧ (t.workers d).cols = cols ∨
        (paxExecDelete (s.workers d).curr col s.file).1 = false ∧
          (t.workers d).cols = []) := by
  have hdelete : deleteRow s d = some t := by
    cases hphase : (s.workers d).phase with
    | ready => simpa [tableStep, hphase] using hstep
    | walk | update | insertRest => simp [tableStep, hphase] at hstep
  unfold deleteRow at hdelete
  dsimp only at hdelete
  split at hdelete
  · cases hdelete
  · rename_i col cols hcols
    refine ⟨col, cols, hcols, ?_⟩
    split at hdelete
    · split at hdelete
      · rename_i f hdone
        cases hdelete
        rw [hdone]
        simp
      · rename_i f hdone
        cases hdelete
        rw [hdone]
        simp
    · cases hdelete

/-- A step of one worker leaves the others alone. -/
theorem tableStep_worker (hstep : tableStep s (w, call) = some t) (hne : d ≠ w) :
    t.workers d = s.workers d := by
  have hset : ∀ {s' : TableSys n} {k : RowWorker}, s'.workers = s.workers →
      (s'.setWorker w k).workers d = s.workers d :=
    fun hs => by rw [TableSys.setWorker_of_ne _ _ hne, hs]
  have hjudge : ∀ {no : Nat} {o : Int} {row : RowColumnData},
      (judge s w no o row).workers d = s.workers d := by
    intro no o row
    unfold judge
    dsimp only
    split <;> exact hset rfl
  unfold tableStep at hstep
  split at hstep
  · unfold walkVersion at hstep
    split at hstep
    · split at hstep <;> cases hstep
      · exact hjudge
      · exact hset rfl
    · cases hstep
  · unfold updateRows at hstep
    dsimp only at hstep
    split at hstep
    · split at hstep
      · split at hstep <;> cases hstep <;> exact hset rfl
      · cases hstep
    · cases hstep
  · unfold insertNext at hstep
    dsimp only at hstep
    split at hstep <;> cases hstep
    exact hset rfl
  · cases hstep
    exact hset rfl
  · unfold scanRow at hstep
    split at hstep
    · split at hstep <;> cases hstep
      · exact hjudge
      · rfl
    · cases hstep
  · unfold fetchRow at hstep
    split at hstep
    · split at hstep <;> cases hstep
      · exact hset rfl
      · rfl
    · cases hstep
  · unfold copyItem at hstep
    dsimp only at hstep
    split at hstep
    · cases hstep
    · split at hstep <;> cases hstep
      exact hset rfl
  · unfold findUndoPage at hstep
    dsimp only at hstep
    split at hstep
    · cases hstep
    · split at hstep
      · split at hstep <;> cases hstep <;> exact hset rfl
      · cases hstep
  · unfold deleteRow at hstep
    dsimp only at hstep
    split at hstep
    · cases hstep
    · split at hstep
      · split at hstep <;> cases hstep <;> exact hset rfl
      · cases hstep
  · unfold insertRow at hstep
    dsimp only at hstep
    split at hstep
    · split at hstep
      · cases hstep
        split
        · rfl
        · exact hset rfl
      · cases hstep
        rfl
    · cases hstep
  · cases hstep
    rfl
  · cases hstep

/-- Only worker `d` deletes columns of its row. -/
theorem deletedBy_of_ne (hne : d ≠ w) : deletedBy d s (w, call) = [] := by
  unfold deletedBy
  split
  · exact if_neg fun h => hne h.1.symm
  · rfl

theorem deletedBy_delete {cols : List FetchedColumn}
    (hcols : (s.workers d).cols = col :: cols) :
    deletedBy d s (d, .delete) =
      if (paxExecDelete (s.workers d).curr col s.file).1 = true then [col] else [] := by
  simp only [deletedBy, hcols, true_and]

theorem OlderOver.step {P : RowColumnData → Prop} {curr : Nat}
    (h : OlderOver f snapshot curr col)
    (hfile : FileStep f rooms f' P) : OlderOver f' snapshot curr col := by
  obtain ⟨rs, hchain, hover⟩ := h
  exact ⟨rs, hfile.undoChain hchain, hover⟩

variable {S S' : DeleteSys n}

/-- A step of another worker. -/
theorem DeleteInv.stepOther (h : DeleteInv d curr snapshot row S)
    (hok : DeleteOk d S (w, call)) (hne : d ≠ w)
    (hstep : deleteStep d S (w, call) = some S') : DeleteInv d curr snapshot row S' := by
  obtain ⟨t, htable, rfl⟩ := Option.map_eq_some_iff.mp hstep
  obtain ⟨hroom, hwrites⟩ := hok
  have hfile := h.table.fileStep_chains h.chains hroom htable
  have hstay := h.table.rowsStay_step hroom htable
  have hworker := tableStep_worker htable hne
  rw [deletedBy_of_ne hne, List.append_nil]
  refine ⟨h.table.step hroom htable, h.chains.step h.table hroom htable, ?_,
    ?_, fun col hcol => ?_,
    fun col hcol => (h.older col hcol).step hfile⟩
  · rw [hworker]
    exact h.worker
  · rw [hworker]
    exact h.rest
  · refine (h.deleted col hcol).step hfile hstay ?_
    rintro ⟨headItem, hmem, hover⟩
    have hnot := hwrites headItem hmem
    rw [if_neg (Ne.symm hne)] at hnot
    exact hnot col hcol hover

/-- The step deletes the column `col` of the row and leaves the rest of the table, or changes
nothing. -/
def DeletesOnly (S S' : DeleteSys n) : Prop :=
  S'.done = S.done ∧ S'.table.file = S.table.file ∨
    ∃ col, S'.done = S.done ++ [col] ∧ OthersStay S.table.file S'.table.file col

/-- A step of the DELETE. -/
theorem DeleteInv.stepDelete (h : DeleteInv d curr snapshot row S)
    (hok : DeleteOk d S (d, .delete))
    (hpages : (row.map fun col => col.headItem.pageno).Nodup)
    (hstep : deleteStep d S (d, .delete) = some S') :
    DeleteInv d curr snapshot row S' ∧ DeletesOnly S S' := by
  obtain ⟨t, htable, rfl⟩ := Option.map_eq_some_iff.mp hstep
  obtain ⟨hroom, hwrites⟩ := hok
  have hfile := h.table.fileStep_chains h.chains hroom htable
  have hstay := h.table.rowsStay_step hroom htable
  obtain ⟨col, cols, hcols, hfileEq, hcurr, hresult⟩ := deleteRow_cases htable
  have hcopy := (h.table.workers d).cols col (hcols ▸ List.mem_cons_self)
  have holder : ∀ col ∈ row, OlderOver t.file snapshot curr col :=
    fun col hcol => (h.older col hcol).step hfile
  obtain ⟨rest, hrow, hrest⟩ := h.rest
  rw [hcols] at hrest
  obtain rfl : col :: cols = rest := hrest.resolve_right (List.cons_ne_nil col cols)
  rw [deletedBy_delete hcols]
  rw [h.worker] at hfileEq hcurr hresult ⊢
  rcases h.table.file.paxExecDelete_cases hcopy.page curr with ⟨hdone, htest⟩ | hrefused
  · -- the column is written
    have hwritten : writesThrough S.table (d, .delete) = some col.headItem := by
      simp [writesThrough, hcols, h.worker, htest]
    have hhome := hwrites col.headItem hwritten
    rw [if_pos rfl] at hhome
    have hfits : DeleteFits S.table d col := by simpa [StepRoom, hcols] using hroom
    obtain ⟨hdeleted, hothers⟩ :=
      h.table.delete_home hcopy hhome htest (hfits (by rw [h.worker]; exact htest))
    rw [← hfileEq] at hdeleted hothers
    have hcols' : (t.workers d).cols = cols := by simpa [hdone] using hresult
    rw [if_pos hdone]
    refine ⟨⟨h.table.step hroom htable, h.chains.step h.table hroom htable, hcurr,
      ⟨cols, ?_, .inl hcols'⟩,
      fun col' hcol' => ?_, holder⟩, .inr ⟨col, rfl, hothers⟩⟩
    · rw [hrow, List.append_assoc]
      rfl
    · rcases List.mem_append.mp hcol' with hbefore | hnew
      · -- the columns before it are on other pages
        refine (h.deleted col' hbefore).step hfile hstay ?_
        rintro ⟨headItem, hmem, hpageno, -⟩
        rw [hwritten, Option.mem_def, Option.some.injEq] at hmem
        subst hmem
        rw [hrow, List.map_append] at hpages
        exact (List.nodup_append.mp hpages).2.2 _
          (List.mem_map_of_mem hbefore) _ List.mem_cons_self hpageno
      · rw [List.mem_singleton.mp hnew]
        exact hdeleted
  · -- the column is refused, and the others are left
    rw [hrefused] at hfileEq hresult ⊢
    have hcols' : (t.workers d).cols = [] := by simpa using hresult
    rw [if_neg Bool.false_ne_true, List.append_nil]
    refine ⟨⟨h.table.step hroom htable, h.chains.step h.table hroom htable, hcurr,
      ⟨_, hrow, .inr hcols'⟩, ?_,
      holder⟩, .inl ⟨rfl, hfileEq⟩⟩
    intro col' hcol'
    rw [hfileEq]
    exact h.deleted col' hcol'

/-! ## Hidden columns -/

/-- What transaction `curr` counts as over with its snapshot, and `curr` itself, the later
snapshot of `own` counts as over. -/
def SnapShotInfo.Later (later : SnapShotInfo) (own : Nat) (snapshot : SnapShotInfo)
    (curr : Nat) : Prop :=
  ∀ x, snapshot.CountsAsOver curr x → later.CountsAsOver own x

/-- The current version of the column has the deleter's id, and a later snapshot is shown none
of its versions. -/
def ColumnHidden (f : TableFile) (curr : Nat) (snapshot : SnapShotInfo)
    (col : FetchedColumn) : Prop :=
  ∃ r, headVersion f col.headItem.pageno col.headItem.itemOffset = some r ∧
    r.headerData.tmax = curr ∧
    ∀ own later, SnapShotInfo.Later later own snapshot curr →
      ∃ k pages, ∀ fuel, k ≤ fuel → readVersion f own later fuel r = some (none, pages)

theorem not_shows_of_deleted {own : Nat} {later : SnapShotInfo}
    (htmax : r.headerData.tmax ≠ invalidXtid)
    (hover : later.CountsAsOver own r.headerData.tmax) : ¬ later.Shows own r :=
  fun hshows => hshows.2 ⟨htmax, hover⟩

theorem DeletedAt.hidden (h : DeletedAt f curr col) (hf : FileOk f rooms)
    (holder : OlderOver f snapshot curr col) :
    ColumnHidden f curr snapshot col := by
  obtain ⟨rs, hchain, hover⟩ := holder
  have hcurr : (curr : Nat) ≠ invalidXtid := Nat.ne_of_lt curr.2
  refine ⟨deletedRow curr col.old, HeadAt.headVersion hf ⟨h.page, .inl h.row⟩, rfl,
    fun own later hlater => ?_⟩
  have hnone : later.newestShown own (deletedRow curr col.old :: rs) = none := by
    rw [newestShown_eq_none, List.forall_mem_cons]
    refine ⟨not_shows_of_deleted hcurr (hlater curr (.inl rfl)), fun v hv => ?_⟩
    obtain ⟨htmax, hdeleter⟩ := hover v hv
    exact not_shows_of_deleted htmax (hlater _ hdeleter)
  refine ⟨rs.length + 1, walkedPages later own (deletedRow curr col.old) rs,
    fun fuel hfuel => ?_⟩
  rw [readVersion_eq hf (r := deletedRow curr col.old) hchain fuel hfuel, hnone]

/-- The versions behind a copy as they are read, each superseded by a transaction that the
snapshot counts as over. -/
def SupersededOver (f : TableFile) (snapshot : SnapShotInfo) (curr : Nat)
    (old : RowColumnData) : Prop :=
  ∀ fuel, ∀ v ∈ undoVersions f fuel old.headerData.undo,
    v.headerData.tmax ≠ invalidXtid ∧ snapshot.CountsAsOver curr v.headerData.tmax

theorem SupersededOver.olderOver {curr : Nat} (h : SupersededOver f snapshot curr col.old)
    (hf : FileOk f rooms)
    (hchain : HasChain f col.old) : OlderOver f snapshot curr col := by
  obtain ⟨rs, hchain⟩ := hchain
  refine ⟨rs, hchain, fun v hv => h rs.length v ?_⟩
  rwa [hchain.undoVersions hf rs.length (Nat.le_refl _)]

/-! ## Two runs -/

/-- Worker 0 reads the first column of row 0, fetches the second, and copies the items. -/
def fetchTwo : List (Fin 2 × RowCall) :=
  [(0, .insert [(2, newValue 9), (3, newValue 9)]),
    (0, .statement ⟨1, one_lt_invalidXtid⟩ (some ⟨1, 1, 0, []⟩)), (0, .scan 2 0),
      (0, .fetch 3 0), (0, .copyItem),
    (0, .copyItem)]

/-- Worker 1 writes a shorter value in place, and then worker 0 deletes the row. -/
def deleteTwo : List (Fin 2 × RowCall) :=
  (1, .statement ⟨2, two_lt_invalidXtid⟩ (some ⟨2, 2, 0, []⟩)) ::
    updateColumn 1 2 (newValue 5) ++
    [(0, .delete), (0, .delete)]

/-- Worker 0 fetches the row of `rowTable`. -/
def fetchOne : List (Fin 2 × RowCall) :=
  [(0, .statement ⟨2, two_lt_invalidXtid⟩ (some ⟨2, 2, 0, []⟩)),
    (0, .scan 2 0), (0, .copyItem)]

/-- Worker 1 writes a longer value, which goes elsewhere on the page, and then worker 0
deletes the row. -/
def deleteMoved : List (Fin 2 × RowCall) :=
  fetchRowUpdate 1 ⟨1, one_lt_invalidXtid⟩ 1 (newValue 12) ++ [(1, .update), (0, .delete)]

theorem undoVersions_none (f : TableFile) (fuel : Nat) :
    undoVersions f fuel RowPosition.none = [] := by
  cases fuel with
  | zero => rfl
  | succ fuel =>
    simp [undoVersions, readUndoVersion, getPageByIndex, RowPosition.none, invalidPageNum]

/-- A copy without an undo position has no version behind it. -/
theorem supersededOver_none {curr : Nat} {old : RowColumnData}
    (h : old.headerData.undo = RowPosition.none) :
    SupersededOver f snapshot curr old := by
  intro fuel v hv
  rw [h, undoVersions_none] at hv
  cases hv

/-! ## The result -/

/-- The row that worker `d` has fetched, in a state of a table that started in order, to be
deleted under its snapshot. -/
structure FetchedRow (d : Fin n) (snapshot : SnapShotInfo) (row : List FetchedColumn)
    (s : TableSys n) : Prop where
  reached : ∃ s₀ acts, TableInit s₀ ∧ (∀ no o r, RowAt s₀.file no o r → HasChain s₀.file r) ∧
    Along tableStep StepRoom s₀ acts ∧ run tableStep s₀ acts = some s
  cols : (s.workers d).cols = row
  snapshot : (s.workers d).snapshot = some snapshot
  pages : (row.map fun col => col.headItem.pageno).Nodup

/-- In every run whose steps meet the condition, each step of a DELETE writes its column only;
and when all columns are deleted, whatever the other workers did meanwhile and do afterwards,
every column of the row is hidden. -/
theorem delete_hides {s : TableSys n} {acts : List (Fin n × RowCall)}
    (hfetched : FetchedRow d snapshot row s)
    (hover : ∀ col ∈ row, SupersededOver s.file snapshot (s.workers d).curr col.old)
    (hacts : ∀ a ∈ acts, a.1 = d → a.2 = .delete)
    (hok : Along (deleteStep d) (DeleteOk d) ⟨s, []⟩ acts)
    (hrun : run (deleteStep d) ⟨s, []⟩ acts = some S) :
    (∀ before after S₁ S₂, acts = before ++ (d, .delete) :: after →
      run (deleteStep d) ⟨s, []⟩ before = some S₁ →
      deleteStep d S₁ (d, .delete) = some S₂ → DeletesOnly S₁ S₂) ∧
    (S.done = row → ∀ col ∈ row,
      ColumnHidden S.table.file (s.workers d).curr snapshot col) := by
  obtain ⟨⟨s₀, before, h₀, hchains, hroom, hreach⟩, hcols, -, hpages⟩ := hfetched
  obtain ⟨htable, hchainsOk⟩ := chains_run h₀ hchains hroom hreach
  have hstart : DeleteInv d (s.workers d).curr snapshot row ⟨s, []⟩ :=
    ⟨htable, hchainsOk, rfl, ⟨row, rfl, .inl hcols⟩, nofun, fun col hcol =>
      (hover col hcol).olderOver htable.file ((hchainsOk.copies d).cols col (hcols ▸ hcol))⟩
  have hstep : ∀ {S₁ : DeleteSys n} {a : Fin n × RowCall} {S₂ : DeleteSys n},
      DeleteInv d (s.workers d).curr snapshot row S₁ →
        DeleteOk d S₁ a ∧ (a.1 = d → a.2 = .delete) →
      deleteStep d S₁ a = some S₂ → DeleteInv d (s.workers d).curr snapshot row S₂ := by
    rintro S₁ ⟨w, call⟩ S₂ h ⟨hok, hcall⟩ hstep
    by_cases hw : d = w
    · subst hw
      obtain rfl : call = .delete := hcall rfl
      exact (h.stepDelete hok hpages hstep).1
    · exact h.stepOther hok hw hstep
  have hall := hok.and ((along_iff_forall_mem hrun).mpr hacts)
  constructor
  · rintro bs cs S₁ S₂ rfl hbs hdelete
    rw [along_append hbs] at hall
    have hinv := run_invariant hstep hstart hall.1 hbs
    rw [along_cons hdelete] at hall
    exact (hinv.stepDelete hall.2.1.1 hpages hdelete).2
  · intro hdone col hcol
    have hinv := run_invariant hstep hstart hall hrun
    exact (hinv.deleted col (hdone ▸ hcol)).hidden hinv.table.file (hinv.older col hcol)

/-- Two columns are deleted, one of which was updated in place after it was fetched. -/
theorem delete_hides_two : ∃ S : DeleteSys 2,
    run (deleteStep 0) ⟨exec tableStep (newGroup 2 2).table fetchTwo, []⟩ deleteTwo = some S ∧
      S.done.length = 2 ∧ ∀ col ∈ S.done, ColumnHidden S.table.file 1 ⟨1, 1, 0, []⟩ col := by
  have hreach : run tableStep (newGroup 2 2).table fetchTwo
      = some (exec tableStep (newGroup 2 2).table fetchTwo) := run_exec (by decide)
  have hcols : ∀ col ∈ ((exec tableStep (newGroup 2 2).table fetchTwo).workers 0).cols,
      col.old.headerData.undo = RowPosition.none := by decide
  have hempty : ∀ no o r, RowAt (newGroup 2 2).table.file no o r →
      HasChain (newGroup 2 2).table.file r :=
    fun no o r hr => absurd hr ((fileOk_newPages 3).2 no o r)
  have hacts : ∀ a ∈ deleteTwo, a.1 = 0 → a.2 = .delete := by
    simp [deleteTwo, updateColumn]
  have hfetched : FetchedRow 0 ⟨1, 1, 0, []⟩
      ((exec tableStep (newGroup 2 2).table fetchTwo).workers 0).cols
      (exec tableStep (newGroup 2 2).table fetchTwo) :=
    ⟨⟨_, _, tableInit_newGroup 2 2, hempty, by decide, hreach⟩, rfl, by decide, by decide⟩
  have hrun : run (deleteStep 0) ⟨exec tableStep (newGroup 2 2).table fetchTwo, []⟩ deleteTwo
      = some
        (exec (deleteStep 0) ⟨exec tableStep (newGroup 2 2).table fetchTwo, []⟩ deleteTwo) :=
    run_exec (by decide)
  have hdone :
      (exec (deleteStep 0) ⟨exec tableStep (newGroup 2 2).table fetchTwo, []⟩ deleteTwo).done
      = ((exec tableStep (newGroup 2 2).table fetchTwo).workers 0).cols := by decide
  obtain ⟨-, hhidden⟩ :=
    delete_hides hfetched (fun col hcol => supersededOver_none (hcols col hcol))
      hacts (by decide) hrun
  refine ⟨_, hrun, by decide, ?_⟩
  rw [hdone]
  exact hhidden hdone

/-- The delete reports success and writes over the place the row has left. -/
theorem delete_misses : ∃ S : DeleteSys 2, TableInit rowTable ∧
    run (deleteStep 0) ⟨exec tableStep rowTable fetchOne, []⟩ deleteMoved = some S ∧
    S.done = ((exec tableStep rowTable fetchOne).workers 0).cols ∧ S.done.length = 1 ∧
    (headVersion S.table.file 2 40).map (·.headerData.tmax) = some invalidXtid ∧
    ∀ col ∈ S.done, ¬ ColumnHidden S.table.file 2 ⟨2, 2, 0, []⟩ col := by
  have hrun : run (deleteStep 0) ⟨exec tableStep rowTable fetchOne, []⟩ deleteMoved
      = some (exec (deleteStep 0) ⟨exec tableStep rowTable fetchOne, []⟩ deleteMoved) :=
    run_exec (by decide)
  have hdone : (exec (deleteStep 0) ⟨exec tableStep rowTable fetchOne, []⟩ deleteMoved).done
      = ((exec tableStep rowTable fetchOne).workers 0).cols := by decide
  have hitem : ∀ col ∈ ((exec tableStep rowTable fetchOne).workers 0).cols,
      col.headItem.pageno = 2 ∧ col.headItem.itemOffset = 40 := by decide
  have hhead :
      (headVersion
        (exec (deleteStep 0) ⟨exec tableStep rowTable fetchOne, []⟩ deleteMoved).table.file
      2 40).map (·.headerData.tmax) = some invalidXtid := by decide
  refine ⟨_, rowHistory_rowTable.1, hrun, hdone, by decide, hhead, ?_⟩
  rintro col hcol ⟨r, hr, htmax, -⟩
  rw [hdone] at hcol
  rw [(hitem col hcol).1, (hitem col hcol).2] at hr
  rw [hr, Option.map_some, htmax] at hhead
  exact absurd hhead (by decide)

end Toadb
