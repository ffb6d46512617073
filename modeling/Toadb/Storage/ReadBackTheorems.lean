/-
Toadb.Storage.ReadBackTheorems — reading a row after it was updated.

A run of `updateStep` is a sequence of updates of one row by one worker after
the other. `RowReadable` is its invariant. An update that succeeds is read
back, by position and by the page search, and its undo position leads to the
version before, exactly when the new version stays on the page of the old
one (`update_readsBack_iff`): behind a redirect item both readers ask
`GetRowDataFromExtPageEx` for the row on the data page, whose type is not
`PAGE_EXTDATA`, and get nothing.
-/
import Toadb.Storage.UpdateTheorems

namespace Toadb

open Bytes Transition

variable {f f' : TableFile} {rooms : Nat → Int → Nat} {no : Nat} {o : Int}
  {page page' : PageDataHeader}

/-! ## The page search -/

/-- `GetRowDataFromPageEx` on page `no`. -/
def scanPage (f : TableFile) (no : Nat) (stop : Int) : Option (Int × Option RowColumnData) :=
  (getPageByIndex f no).bind fun page => getRowDataFromPageEx page stop

theorem SameItems.nextValidItem (h : SameItems page page') (fuel : Nat) (o : Int) :
    nextValidItem page' fuel o = nextValidItem page fuel o := by
  induction fuel generalizing o with
  | zero => rfl
  | succ fuel ih =>
    rw [Toadb.nextValidItem, Toadb.nextValidItem, itemEndCheck, itemEndCheck, h.dataOffset,
      h.valid, ih]

/-- The search stops at the same items. -/
theorem SameItems.scan (h : SameItems page page') {stop : Int} {old : Option RowColumnData}
    (hscan : getRowDataFromPageEx page stop = some (o, old)) :
    getRowDataFromPageEx page' stop = some (o, rowOfItem page' o) := by
  rw [getRowDataFromPageEx, Option.map_eq_some_iff] at hscan
  obtain ⟨found, hfound, heq⟩ := hscan
  obtain ⟨rfl, -⟩ := Prod.mk.inj heq
  rw [getRowDataFromPageEx, h.dataOffset, h.nextValidItem, hfound, Option.map_some]

theorem IsRowItem.rowOfItem {r : RowColumnData} (h : IsRowItem page o)
    (hr : StoredAt page.bytes (page.item o).offset r) : rowOfItem page o = some r := by
  rw [Toadb.rowOfItem, h.redirect, if_neg (by decide), hr.readRowData]

/-- Neither reader follows the redirect item of a data page. -/
theorem rowOfItem_redirect (htype : page.pageType = .data)
    (hredirect : (page.item o).redirect = true) : rowOfItem page o = none := by
  have htype' : page.pageType ≠ .extData := by rw [htype]; decide
  rw [rowOfItem, hredirect, if_pos rfl, getRowDataFromExtPageEx, if_pos htype']

theorem rowByIndex_redirected (hf : FileOk f rooms) {r : RowColumnData}
    (h : Redirected f no o r) (hpage : f.page no = some page)
    (htype : page.pageType = .data) :
    rowByIndex f no o = none := by
  obtain ⟨page', hpage', -, -, hredirect, -⟩ := h
  rw [hpage, Option.some.injEq] at hpage'
  subst hpage'
  rw [rowByIndex, hf.getPageByIndex, hpage, Option.bind_some, getRowDataFromPageByIndexEx,
    rowOfItem_redirect htype hredirect]
  split <;> rfl

/-! ## Reading back -/

/-- After the update `u` by `curr`, the item leads to the new value stamped by
`curr`, and on to the old value. -/
def ReadsBack (f f' : TableFile) (no : Nat) (o : Int) (curr : Nat)
    (u : ColumnUpdate) : Prop :=
  ∃ r, rowByIndex f' no o = some r ∧
    (∀ stop, scanPage f no stop = some (o, some u.old) →
      scanPage f' no stop = some (o, some r)) ∧
    r.size = u.row.size ∧ r.data = u.row.data ∧ r.headerData.tmin = curr ∧
    readUndoVersion f' r.headerData.undo
      = some { u.old with headerData := { u.old.headerData with cid := 0, tmax := curr } }

/-- A new version on an extension page is not found. -/
theorem FileOk.rowByIndex_away (hf : FileOk f rooms) (hbound : f.pageCnt + 1 < 2 ^ 32)
    (hpage : f.page no = some page) (htype : page.pageType = .data) {u : ColumnUpdate}
    (hpos : u.headItem = ⟨no, o, page.item o⟩) (hold : RowAt f no o u.old)
    (hsize : u.old.size ≤ u.oldRowSize) (hrow : u.row.Fits) {curr : Nat}
    (hcurr : curr < 2 ^ 64) (hdone : Toadb.paxExecUpdate curr u f = (true, f'))
    (haway : ¬ StaysOnPage page u.old u.row) :
    rowByIndex f' no o = none := by
  obtain ⟨pos, hwritten, -, -, hredirected⟩ :=
    hf.paxExecUpdate hbound hpage htype hpos hold hsize hrow hcurr hdone
  obtain ⟨rooms', hf'⟩ := hwritten.ok
  obtain ⟨page', hpage', hitems⟩ := hwritten.page
  exact rowByIndex_redirected hf' (hredirected haway) hpage' (hitems.pageType.trans htype)

/-- A successful update is read back exactly when the new version stays on the
page. -/
theorem FileOk.readsBack_iff (hf : FileOk f rooms) (hbound : f.pageCnt + 1 < 2 ^ 32)
    (hpage : f.page no = some page) (htype : page.pageType = .data) {u : ColumnUpdate}
    (hpos : u.headItem = ⟨no, o, page.item o⟩) (hold : RowAt f no o u.old)
    (hsize : u.old.size ≤ u.oldRowSize) (hrow : u.row.Fits) {curr : Nat}
    (hcurr : curr < 2 ^ 64) (hdone : Toadb.paxExecUpdate curr u f = (true, f')) :
    ReadsBack f f' no o curr u ↔ StaysOnPage page u.old u.row := by
  constructor
  · rintro ⟨r, hr, -⟩
    by_contra haway
    rw [hf.rowByIndex_away hbound hpage htype hpos hold hsize hrow hcurr hdone haway] at hr
    cases hr
  · intro hon
    obtain ⟨pos, hwritten, hcopy, hstay, -⟩ :=
      hf.paxExecUpdate hbound hpage htype hpos hold hsize hrow hcurr hdone
    obtain ⟨rooms', hf'⟩ := hwritten.ok
    obtain ⟨page', hpage', hitems⟩ := hwritten.page
    have hnew := hstay hon
    obtain ⟨hitem, hstored⟩ := hnew.stored hpage'
    refine ⟨u.newRow curr pos, hnew.rowByIndex hf', ?_, rfl, rfl, rfl,
      hcopy.readUndoVersion hf'⟩
    intro stop hscan
    rw [scanPage, hf.getPageByIndex, hpage, Option.bind_some] at hscan
    rw [scanPage, hf'.getPageByIndex, hpage', Option.bind_some, hitems.scan hscan,
      hitem.rowOfItem hstored]

/-! ## A run of updates -/

/-- An update of one row: the transaction, the new value of the column, and the
size of the other columns of the row. -/
structure RowUpdate where
  curr : Nat
  row : RowColumnData
  others : Nat
  curr_lt : curr < 2 ^ 64
  fits : row.Fits

/-- What `pax_ExecUpdate` is called with once the row is read. -/
def RowUpdate.column (u : RowUpdate) (no : Nat) (o : Int)
    (f : TableFile) : Option ColumnUpdate :=
  match getPageByIndex f no, rowByIndex f no o with
  | some page, some old => some ⟨old, old.size + u.others, ⟨no, o, page.item o⟩, u.row⟩
  | _, _ => none

/-- One update of item `o` of page `no`, with its report. -/
def updateRow (no : Nat) (o : Int) (f : TableFile)
    (u : RowUpdate) : Option (Bool × TableFile) :=
  (u.column no o f).map fun c => paxExecUpdate u.curr c f

/-- One update of item `o` of page `no`, successful or not. -/
def updateStep (no : Nat) (o : Int) (f : TableFile) (u : RowUpdate) : Option TableFile :=
  (updateRow no o f u).map Prod.snd

/-- The new value fits on the page of the row. -/
def RowUpdate.StaysOnPage (u : RowUpdate) (no : Nat) (o : Int) (f : TableFile) : Prop :=
  match getPageByIndex f no, rowByIndex f no o with
  | some page, some old => Toadb.StaysOnPage page old u.row
  | _, _ => False

instance (u : RowUpdate) (no : Nat) (o : Int) (f : TableFile) :
    Decidable (u.StaysOnPage no o f) := by
  unfold RowUpdate.StaysOnPage
  split <;> infer_instance

/-- The condition on one update: page numbers fit their field, and the new value
fits on the page. -/
def StepStays (no : Nat) (o : Int) (f : TableFile) (u : RowUpdate) : Prop :=
  f.pageCnt + 1 < 2 ^ 32 ∧ u.StaysOnPage no o f

instance (no : Nat) (o : Int) (f : TableFile) (u : RowUpdate) :
    Decidable (StepStays no o f u) := by unfold StepStays; infer_instance

/-- The invariant: a table with its layout, whose item `o` of data page `no`
holds a row. -/
def RowReadable (no : Nat) (o : Int) (f : TableFile) : Prop :=
  ∃ rooms page old, FileOk f rooms ∧ f.page no = some page ∧ page.pageType = .data ∧
    RowAt f no o old

theorem RowUpdate.column_eq (hf : FileOk f rooms) (hpage : f.page no = some page)
    {old : RowColumnData} (hold : RowAt f no o old) (u : RowUpdate) :
    u.column no o f = some ⟨old, old.size + u.others, ⟨no, o, page.item o⟩, u.row⟩ := by
  rw [RowUpdate.column, hf.getPageByIndex, hpage, hold.rowByIndex hf]

theorem RowUpdate.staysOnPage_iff (hf : FileOk f rooms) (hpage : f.page no = some page)
    {old : RowColumnData} (hold : RowAt f no o old) (u : RowUpdate) :
    u.StaysOnPage no o f ↔ Toadb.StaysOnPage page old u.row := by
  rw [RowUpdate.StaysOnPage, hf.getPageByIndex, hpage, hold.rowByIndex hf]

/-- An update that stays on the page, and one that is refused, leave the row
readable. -/
theorem RowReadable.step {u : RowUpdate} (h : RowReadable no o f) (hok : StepStays no o f u)
    (hstep : updateStep no o f u = some f') : RowReadable no o f' := by
  obtain ⟨rooms, page, old, hf, hpage, htype, hold⟩ := h
  obtain ⟨hbound, hstays⟩ := hok
  rw [u.staysOnPage_iff hf hpage hold] at hstays
  rw [updateStep, updateRow, u.column_eq hf hpage hold, Option.map_some, Option.map_some,
    Option.some.injEq] at hstep
  have hsize : old.size ≤ old.size + u.others := Nat.le_add_right ..
  cases hdone : paxExecUpdate u.curr
    ⟨old, old.size + u.others, ⟨no, o, page.item o⟩, u.row⟩ f with
  | mk done f₁ =>
    rw [hdone] at hstep
    subst hstep
    cases done with
    | false =>
      obtain ⟨⟨rooms', hf'⟩, hrows, page', hpage', hitems⟩ :=
        hf.paxExecUpdate_false hpage htype rfl hold.fits hsize u.curr_lt hdone
      exact ⟨rooms', page', old, hf', hpage', hitems.pageType.trans htype, hrows _ _ _ hold⟩
    | true =>
      obtain ⟨pos, ⟨⟨rooms', hf'⟩, -, -, page', hpage', hitems⟩, -, hstay, -⟩ :=
        hf.paxExecUpdate hbound hpage htype rfl hold hsize u.fits u.curr_lt hdone
      exact ⟨rooms', page', _, hf', hpage', hitems.pageType.trans htype, hstay hstays⟩

/-! ## Tables with one row -/

/-- A table with one data page behind the head page, and no row. -/
def emptyTable : TableFile := extensionTbl 2 ⟨0, fun _ => none⟩

/-- A table with one row on its data page. -/
def oneRowTable (row : RowColumnData) : TableFile :=
  emptyTable.set 2 (writeRowOnePage (initPage 2) row).1

/-- A committed value of `n` bytes. -/
def plainRow (n : Nat) (byte : UInt8) : RowColumnData :=
  ⟨rowColumnDataSize + n, 0, ⟨1, invalidXtid, cleanXtid, 0, RowPosition.none⟩,
    List.replicate n byte⟩

theorem plainRow_fits {n : Nat} (hn : n ≤ 3992) (byte : UInt8) : (plainRow n byte).Fits := by
  refine ⟨?_, ?_, ?_, ⟨?_, ?_, ?_, ?_, ?_, ?_, ?_⟩⟩
  · rw [plainRow, List.length_replicate]
  · show 48 + n ≤ 4040
    omega
  all_goals norm_num [plainRow, invalidXtid, cleanXtid, RowPosition.none]

theorem fileOk_emptyTable : FileOk emptyTable fun _ _ => 0 := by
  refine (FileOk.extensionTbl (f := ⟨0, fun _ => none⟩) ⟨?_, ?_, ?_, fun _ _ => rfl⟩ 2).1
  all_goals
    intro no page h
    cases h

theorem oneRowTable_row {row : RowColumnData} (hrow : row.Fits) :
    ∃ rooms, FileOk (oneRowTable row) rooms ∧ RowAt (oneRowTable row) 2 40 row := by
  have hspace : (initPage 2).dataOffset + 16 + row.size ≤ (initPage 2).dataEndOffset := by
    have hle := hrow.le
    show (40 : Int) + 16 + row.size ≤ 4096
    omega
  have hpage : emptyTable.page 2 = some (initPage 2) := rfl
  obtain ⟨hok, hat, -⟩ := fileOk_emptyTable.appendRow hpage hrow hspace
  exact ⟨_, hok, hat⟩

theorem rowReadable_oneRowTable {row : RowColumnData} (hrow : row.Fits) :
    RowReadable 2 40 (oneRowTable row) := by
  obtain ⟨rooms, hok, hat⟩ := oneRowTable_row hrow
  exact ⟨rooms, _, row, hok, set_page_self .., rfl, hat⟩

/-- An update to a value of `n` bytes, as far as a page has room for them. -/
def plainUpdate (curr : UInt64) (n : Nat) (byte : UInt8) : RowUpdate :=
  ⟨curr.toNat, plainRow (min n 3992) byte, 0, curr.toNat_lt,
    plainRow_fits (Nat.min_le_right ..) byte⟩

/-! ## The result -/

/-- After any sequence of updates of a row that stayed on its page, the next
successful update is read back exactly when it stays on the page too. -/
theorem update_readsBack_iff {f₀ : TableFile} {us : List RowUpdate} {u : RowUpdate}
    {c : ColumnUpdate} (h₀ : RowReadable no o f₀)
    (hstays : Along (updateStep no o) (StepStays no o) f₀ us)
    (hrun : run (updateStep no o) f₀ us = some f) (hbound : f.pageCnt + 1 < 2 ^ 32)
    (hcolumn : u.column no o f = some c) (hdone : paxExecUpdate u.curr c f = (true, f')) :
    ReadsBack f f' no o u.curr c ↔ u.StaysOnPage no o f := by
  obtain ⟨rooms, page, old, hf, hpage, htype, hold⟩ :=
    run_invariant (fun h hok hstep => h.step hok hstep) h₀ hstays hrun
  rw [u.column_eq hf hpage hold, Option.some.injEq] at hcolumn
  subst hcolumn
  rw [u.staysOnPage_iff hf hpage hold]
  exact hf.readsBack_iff hbound hpage htype rfl hold
    (Nat.le_add_right ..) u.fits u.curr_lt hdone

/-- A value is replaced by a shorter and then by a longer one. -/
theorem update_readsBack_twice : ∃ f f' c,
    run (updateStep 2 40) (oneRowTable (plainRow 5 1))
      [plainUpdate 2 3 7] = some f ∧
    paxExecUpdate 3 c f = (true, f') ∧ ReadsBack f f' 2 40 3 c := by
  let f₀ := oneRowTable (plainRow 5 1)
  let u := plainUpdate 2 3 7
  let u' := plainUpdate 3 10 8
  have hrun : run (updateStep 2 40) f₀ [u] = some (exec (updateStep 2 40) f₀ [u]) :=
    run_exec (by decide)
  have hcolumn : (u'.column 2 40 (exec (updateStep 2 40) f₀ [u])).isSome = true := by decide
  obtain ⟨c, hc⟩ := Option.isSome_iff_exists.mp hcolumn
  have hreport : (updateRow 2 40 (exec (updateStep 2 40) f₀ [u]) u').map Prod.fst =
      some true := by
    decide
  rw [updateRow, hc, Option.map_some, Option.map_some, Option.some.injEq] at hreport
  have hdone := Prod.fst_eq_iff.mp hreport
  refine ⟨_, _, c, hrun, hdone, ?_⟩
  exact (update_readsBack_iff (rowReadable_oneRowTable (plainRow_fits (by norm_num) 1))
    (by decide) hrun (by decide) hc hdone).mpr (by decide)

/-- A value that no longer fits on its page: the update succeeds and the row is
gone. -/
theorem update_not_readsBack : ∃ f f' c,
    RowReadable 2 40 f ∧ rowByIndex f 2 40 = some c.old ∧ c.row.Fits ∧
    paxExecUpdate 2 c f = (true, f') ∧ rowByIndex f' 2 40 = none ∧
      ¬ ReadsBack f f' 2 40 2 c := by
  let f := oneRowTable (plainRow 2000 1)
  let c : ColumnUpdate := ⟨plainRow 2000 1, 2048, ⟨2, 40, ⟨2048, true, false, 2048⟩⟩,
    plainRow 2001 7⟩
  have hold : (plainRow 2000 1).Fits := plainRow_fits (by norm_num) 1
  have hnew : (plainRow 2001 7).Fits := plainRow_fits (by norm_num) 7
  obtain ⟨rooms, hf, hat⟩ := oneRowTable_row hold
  have hdone := Prod.fst_eq_iff.mp (show (paxExecUpdate 2 c f).1 = true by decide)
  have hnone : rowByIndex (paxExecUpdate 2 c f).2 2 40 = none :=
    hf.rowByIndex_away (by decide) (set_page_self ..) rfl (u := c) (by decide) hat
      (by decide) hnew (by norm_num) hdone (by decide)
  refine ⟨f, _, c, rowReadable_oneRowTable hold, hat.rowByIndex hf, hnew, hdone, hnone, ?_⟩
  rintro ⟨r, hr, -⟩
  rw [hnone] at hr
  cases hr

end Toadb
