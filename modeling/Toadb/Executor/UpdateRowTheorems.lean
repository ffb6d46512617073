/-
Toadb.Executor.UpdateRowTheorems — what an UPDATE that reports an error leaves
of the row.

A column that is refused changes nothing (`ColumnRead.refused`), and a column
that is written puts a version in front of its chain (`ColumnRead.written`).
`updateColumns` gives up at the first refused column and keeps the ones
before it, so an error leaves the table as it was exactly when the column
refused is the first of the list (`update_unchanged_iff`). `Refused` says of a
column, before the call, that it is refused (`refused_iff`).
-/
import Toadb.Storage.VersionReadTheorems

namespace Toadb

open Bytes

variable {f f' : TableFile} {rooms : Nat → Int → Nat} {no : Nat} {o : Int}
  {page : PageDataHeader} {r : RowColumnData} {rs : List RowColumnData} {curr : Nat}
  {u : ColumnUpdate} {us : List ColumnUpdate} {T : Nat → Int → Prop}
  {P : RowColumnData → Prop}

/-! ## One chain per item -/

/-- An item has one chain of versions. -/
theorem RowVersions.unique {r' : RowColumnData} {rs' : List RowColumnData}
    (h : RowVersions f no o r rs) (h' : RowVersions f no o r' rs') : r = r' ∧ rs = rs' := by
  obtain ⟨rooms, hf⟩ := h.file
  have hhead : r = r' := by
    have heq := (h.head.headVersion hf).symm.trans (h'.head.headVersion hf)
    exact Option.some.inj heq
  subst hhead
  have hle := Nat.le_max_left rs.length rs'.length
  have hle' := Nat.le_max_right rs.length rs'.length
  exact ⟨rfl, (h.chain.undoVersions hf _ hle).symm.trans (h'.chain.undoVersions hf _ hle')⟩

theorem RowsStay.rowVersions (h : RowsStay f f' T) (hstep : FileStep f rooms f' P)
    (hT : ∀ no o, T no o → IsDataPage f no) (hno : ¬ T no o) (hv : RowVersions f no o r rs) :
    RowVersions f' no o r rs :=
  ⟨⟨_, hstep.ok⟩, h.headAt hstep hT hno hv.head, hstep.undoChain hv.chain⟩

theorem UndoChain.fits {pos : RowPosition} (h : UndoChain f pos rs) : ∀ v ∈ rs, v.Fits := by
  induction h with
  | last hnone => simp
  | next hrow hchain ih => simpa [hrow.2.fits] using ih

/-! ## Columns -/

/-- A column as the executor hands it to `pax_ExecUpdate`: its item is no redirect
item, the item copy is fresh, and the old value is one of its versions; every
version but the newest has a deleter. -/
structure ColumnRead (f : TableFile) (u : ColumnUpdate) (page : PageDataHeader)
    (r : RowColumnData) (rs : List RowColumnData) : Prop where
  found : f.page u.headItem.pageno = some page
  row : (page.item u.headItem.itemOffset).redirect = false
  item : u.headItem.itemData = page.item u.headItem.itemOffset
  versions : RowVersions f u.headItem.pageno u.headItem.itemOffset r rs
  old : u.old = r ∨ u.old ∈ rs ∧ u.old.headerData.tmax ≠ invalidXtid
  size : u.old.size ≤ u.oldRowSize
  fits : u.row.Fits

/-- The item of a column. -/
def ColumnUpdate.Item (u : ColumnUpdate) : Nat → Int → Prop :=
  Only u.headItem.pageno u.headItem.itemOffset

theorem ColumnRead.rowAt (h : ColumnRead f u page r rs) :
    RowAt f u.headItem.pageno u.headItem.itemOffset r := by
  obtain ⟨-, hrow | ⟨page', hpage', -, -, hredirect, -⟩⟩ := h.versions.head
  · exact hrow
  · rw [h.found, Option.some.injEq] at hpage'
    rw [← hpage', h.row] at hredirect
    cases hredirect

theorem ColumnRead.pageType (h : ColumnRead f u page r rs) : page.pageType = .data := by
  obtain ⟨page', hpage', htype⟩ := h.versions.head.1
  rw [h.found, Option.some.injEq] at hpage'
  rw [hpage', htype]

theorem ColumnRead.headItem (h : ColumnRead f u page r rs) :
    u.headItem = ⟨u.headItem.pageno, u.headItem.itemOffset,
      page.item u.headItem.itemOffset⟩ := by
  rw [← h.item]

theorem ColumnRead.oldFits (h : ColumnRead f u page r rs) : u.old.Fits := by
  rcases h.old with hnewest | ⟨holder, -⟩
  · rw [hnewest]
    exact h.rowAt.fits
  · exact h.versions.chain.fits _ holder

theorem updateSatisfy_iff (curr : Nat) (header : TupleHeader) :
    tupleUpdateSatisfy curr header = .ok ↔
      header.tmin ≠ invalidXtid ∧ header.tmax = invalidXtid := by
  unfold tupleUpdateSatisfy
  simp only [xtidIsInvalid_iff, getTransactionState]
  by_cases hmin : header.tmin = invalidXtid <;> by_cases hmax : header.tmax = invalidXtid <;>
    simp [hmin, hmax]

/-- Only the newest version passes the test. -/
theorem ColumnRead.newest (h : ColumnRead f u page r rs)
    (htest : tupleUpdateSatisfy curr u.old.headerData = .ok) : u.old = r := by
  rcases h.old with hnewest | ⟨-, hdeleted⟩
  · exact hnewest
  · exact absurd ((updateSatisfy_iff curr _).mp htest).2 hdeleted

/-! ## One column -/

theorem updateLocked_test {undono : Nat} (h : updateLocked curr u undono f = (true, f')) :
    tupleUpdateSatisfy curr u.old.headerData = .ok := by
  unfold updateLocked at h
  split at h
  · cases h
  · split at h
    · cases h
    · rename_i htest
      exact not_not.mp htest

/-- A refused update leaves every item as it is. -/
theorem FileOk.itemsStay_refused (hf : FileOk f rooms)
    (hpage : f.page u.headItem.pageno = some page)
    {undono : Nat} {undoPage : PageDataHeader} (hundo : f.page undono = some undoPage)
    (hne : undono ≠ u.headItem.pageno)
    (hspace : undoPage.dataOffset + 16 + u.old.size ≤ undoPage.dataEndOffset)
    (hpos : u.headItem =
      ⟨u.headItem.pageno, u.headItem.itemOffset, page.item u.headItem.itemOffset⟩)
    (hold : u.old.Fits) (hcurr : curr < 2 ^ 64)
    (hdone : Toadb.updateLocked curr u undono f = (false, f')) : ItemsStay f f' T := by
  unfold Toadb.updateLocked at hdone
  simp only [hundo] at hdone
  split at hdone
  · obtain ⟨-, rfl⟩ := Prod.mk.inj hdone
    exact .refl f
  · obtain ⟨hok, -, -⟩ := hf.appendRow hundo (ColumnUpdate.undoRow_fits hold hcurr) hspace
    have hpage' : (f.set undono (writeRowOnePage undoPage (u.undoRow curr)).1).page
        u.headItem.pageno = some page := by
      rw [set_page_of_ne _ _ (Ne.symm hne), hpage]
    obtain rfl := hok.writeNewRow_false hpage' hpos hdone
    exact .append ⟨_, hf.layout _ _ hundo⟩ hundo _

/-- What `pax_ExecUpdate` on one column keeps: everything when the column is
refused, and everything but its item when it is written. -/
theorem ColumnRead.stays (h : ColumnRead f u page r rs) (hcurr : curr < 2 ^ 64)
    (hbound : f.pageCnt + 1 < 2 ^ 32) {done : Bool}
    (hdone : paxExecUpdate curr u f = (done, f')) :
    (∃ rooms, FileStep f rooms f' fun _ => True) ∧
      RowsStay f f' fun no o => done = true ∧ u.Item no o := by
  obtain ⟨rooms, hf⟩ := h.versions.file
  unfold Toadb.paxExecUpdate at hdone
  split at hdone
  · rename_i f₁ hundo
    obtain ⟨-, rfl⟩ := Prod.mk.inj hdone
    rw [undoSpace, hf.getPageByIndex, h.found] at hundo
    obtain rfl := getSpaceSpecifyPage_none hundo
    exact ⟨⟨rooms, .refl hf⟩, .refl _⟩
  · rename_i undono f₁ hundo
    obtain ⟨hfound, page₁, undoPage, hpage₁, hsame, hundoPage, hne, hspace⟩ :=
      hf.undoSpace_found h.found h.pageType h.headItem h.size hundo
    have htype₁ : page₁.pageType = .data := hsame.pageType.trans h.pageType
    have hundotype : undoPage.pageType = .undo := by
      obtain ⟨found, hfoundPage, -, hfoundType⟩ := hfound.found
      rw [hundoPage, Option.some.injEq] at hfoundPage
      rw [hfoundPage, hfoundType]
    have hpos₁ : u.headItem =
        ⟨u.headItem.pageno, u.headItem.itemOffset, page₁.item u.headItem.itemOffset⟩ := by
      rw [hsame.item, ← h.headItem]
    have hat₁ := h.rowAt.rowsKept hfound.kept
    have hbound₁ := hfound.pageCnt_le
    -- A new version in place is no larger than the row it replaces.
    have hroom : tupleUpdateSatisfy curr u.old.headerData = .ok → u.row.size ≤ u.old.size →
        u.row.size ≤ rooms u.headItem.pageno u.headItem.itemData.offset := by
      intro htest hsize
      obtain ⟨hitem, hstored⟩ := hat₁.stored hpage₁
      obtain ⟨r', hstored', hle, -⟩ := (hfound.ok.layout _ page₁ hpage₁).row hitem
      rw [h.newest htest, hstored.unique hstored'] at hsize
      rw [h.item, ← hsame.item]
      exact Nat.le_trans hsize hle
    have hstep :=
      hfound.ok.stepUpdate hpage₁ htype₁ hundoPage hundotype rfl h.oldFits h.fits hcurr
        fun htest => ⟨by omega, hspace, hroom htest⟩
    have hsecond : FileStep f₁ rooms f' fun _ => True := by
      rw [hdone] at hstep
      exact hstep.mono fun _ _ => trivial
    refine ⟨⟨rooms, hsecond.after hfound.fileStep hfound.dataEnd⟩,
      (RowsStay.ofKept hfound.kept).trans ?_⟩
    cases done with
    | false =>
      have hleft :=
        hfound.ok.updateLocked_false hpage₁ hundoPage hne hspace hpos₁ h.oldFits hcurr hdone
      exact ⟨fun no o r _ hr => hleft.rows no o r hr,
        hfound.ok.itemsStay_refused hpage₁ hundoPage hne hspace hpos₁ h.oldFits hcurr hdone⟩
    | true =>
      have hnewest := h.newest (updateLocked_test hdone)
      obtain ⟨-, -, hwritten, -⟩ :=
        hfound.ok.updateLocked (by omega) hpage₁ hundoPage hne hspace
          hpos₁ (hnewest ▸ hat₁) h.fits hcurr hdone
      have hitems := hfound.ok.itemsStay_update hpage₁ htype₁ hundoPage (Ne.symm hne) hspace
        h.oldFits hcurr rfl
      rw [hdone] at hitems
      exact ⟨fun no o r hno hr => hwritten.others no o r (fun heq => hno ⟨rfl, heq⟩) hr,
        fun no o page hno => hitems no o page fun heq => hno ⟨rfl, heq⟩⟩

theorem ColumnUpdate.item_isDataPage (h : IsDataPage f u.headItem.pageno) {done : Bool} :
    ∀ no o, done = true ∧ u.Item no o → IsDataPage f no := by
  rintro no o ⟨-, hitem⟩
  exact only_isDataPage h no o hitem

/-- The rows of other items keep their versions. -/
theorem ColumnRead.others {r' : RowColumnData} {rs' : List RowColumnData}
    (h : ColumnRead f u page r rs) (hcurr : curr < 2 ^ 64) (hbound : f.pageCnt + 1 < 2 ^ 32)
    (hother : ¬ u.Item no o) (hv : RowVersions f no o r' rs') :
    RowVersions (paxExecUpdate curr u f).2 no o r' rs' := by
  obtain ⟨⟨rooms, hstep⟩, hstay⟩ := h.stays hcurr hbound rfl
  exact hstay.rowVersions hstep (ColumnUpdate.item_isDataPage h.versions.head.1)
    (fun hno => hother hno.2) hv

/-- Another column is as it was read. -/
theorem ColumnRead.otherColumn {v : ColumnUpdate} {page' : PageDataHeader}
    {r' : RowColumnData}
    {rs' : List RowColumnData} (h : ColumnRead f u page r rs) (hcurr : curr < 2 ^ 64)
    (hbound : f.pageCnt + 1 < 2 ^ 32)
    (hother : ¬ u.Item v.headItem.pageno v.headItem.itemOffset)
    (hv : ColumnRead f v page' r' rs') :
    ∃ page', ColumnRead (paxExecUpdate curr u f).2 v page' r' rs' := by
  obtain ⟨-, hstay⟩ := h.stays hcurr hbound rfl
  obtain ⟨hitem, -⟩ := hv.rowAt.stored hv.found
  obtain ⟨page'', hpage, -, heq⟩ :=
    hstay.items _ _ _ (fun hno => hother hno.2) hv.found hitem.isItem
  exact ⟨page'', hpage, by rw [heq, hv.row], by rw [heq, hv.item],
    h.others hcurr hbound hother hv.versions, hv.old, hv.size, hv.fits⟩

/-- A column that is written has one version more. -/
theorem ColumnRead.written (h : ColumnRead f u page r rs) (hcurr : curr < 2 ^ 64)
    (hbound : f.pageCnt + 1 < 2 ^ 32) (hdone : paxExecUpdate curr u f = (true, f')) :
    (∃ pos, RowVersions f' u.headItem.pageno u.headItem.itemOffset (u.newRow curr pos)
      (u.undoRow curr :: rs)) ∧ f'.pageCnt ≤ f.pageCnt + 2 := by
  obtain ⟨rooms, hf⟩ := h.versions.file
  have htest : tupleUpdateSatisfy curr u.old.headerData = .ok := by
    unfold Toadb.paxExecUpdate at hdone
    split at hdone
    · cases hdone
    · exact updateLocked_test hdone
  have hnewest := h.newest htest
  have hversions := h.versions
  rw [← hnewest] at hversions
  obtain ⟨pos, hnew, -⟩ :=
    hversions.paxExecUpdate hbound h.found h.row h.headItem h.size h.fits hcurr hdone
  obtain ⟨-, hwritten, -⟩ := hf.paxExecUpdate hbound h.found h.pageType h.headItem
    (hnewest ▸ h.rowAt) h.size h.fits hcurr hdone
  exact ⟨⟨pos, hnew⟩, hwritten.pageCnt_le⟩

/-! ## A row -/

/-- The columns of a row that is updated: each as it was read, on an item of its own. -/
structure RowRead (f : TableFile) (us : List ColumnUpdate) : Prop where
  columns : ∀ u ∈ us, ∃ page r rs, ColumnRead f u page r rs
  distinct : us.Pairwise fun u v => ¬ u.Item v.headItem.pageno v.headItem.itemOffset
  bound : f.pageCnt + 2 * us.length < 2 ^ 32

theorem RowRead.tail (h : RowRead f (u :: us)) (hcurr : curr < 2 ^ 64)
    (hdone : paxExecUpdate curr u f = (true, f')) : RowRead f' us := by
  obtain ⟨page, r, rs, hu⟩ := h.columns u List.mem_cons_self
  have hbound := h.bound
  rw [List.length_cons] at hbound
  obtain ⟨hfirst, hrest⟩ := List.pairwise_cons.mp h.distinct
  obtain ⟨-, hcnt⟩ := hu.written hcurr (by omega) hdone
  refine ⟨fun v hv => ?_, hrest, by omega⟩
  obtain ⟨page', r', rs', hread⟩ := h.columns v (List.mem_cons_of_mem _ hv)
  obtain ⟨page'', hread'⟩ := hu.otherColumn hcurr (by omega) (hfirst v hv) hread
  rw [hdone] at hread'
  exact ⟨page'', r', rs', hread'⟩

/-- The loop keeps the versions of the items it is not about. -/
theorem RowRead.updateColumns (h : RowRead f us) (hcurr : curr < 2 ^ 64)
    (hother : ∀ u ∈ us, ¬ u.Item no o) (hv : RowVersions f no o r rs) :
    RowVersions (updateColumns curr us f).2 no o r rs := by
  induction us generalizing f with
  | nil => exact hv
  | cons u us ih =>
    obtain ⟨page, r', rs', hu⟩ := h.columns u List.mem_cons_self
    have hbound := h.bound
    rw [List.length_cons] at hbound
    have hkept := hu.others hcurr (by omega) (hother u List.mem_cons_self) hv
    rw [Toadb.updateColumns]
    cases hdone : paxExecUpdate curr u f with
    | mk done f' =>
      rw [hdone] at hkept
      cases done with
      | false => exact hkept
      | true =>
        exact ih (h.tail hcurr hdone) (fun v hv => hother v (List.mem_cons_of_mem _ hv)) hkept

/-! ## An unchanged table -/

/-- The scan reads item `o` of page `no`. -/
def readItem (f : TableFile) (own : Nat) (snapshot : SnapShotInfo)
    (fuel : Nat) (pool : PagePool)
    (no : Nat) (o : Int) : Option (Option RowColumnData × PagePool) :=
  (getPageByIndex f no).bind fun page => scanItem f own snapshot fuel pool page o

/-- Every row has the versions it had, and every snapshot reads what it read. -/
structure TableUnchanged (f f' : TableFile) : Prop where
  versions : ∀ no o r rs, RowVersions f no o r rs → RowVersions f' no o r rs
  reads : ∀ no o r rs, RowVersions f no o r rs → ∀ own snapshot pool fuel, rs.length < fuel →
    readItem f' own snapshot fuel pool no o = readItem f own snapshot fuel pool no o
  fetches : ∀ no o r rs, RowVersions f no o r rs → rowByIndex f' no o = rowByIndex f no o

theorem TableUnchanged.refl (f : TableFile) : TableUnchanged f f :=
  ⟨fun _ _ _ _ h => h, fun _ _ _ _ _ _ _ _ _ _ => rfl, fun _ _ _ _ _ => rfl⟩

/-- Two files with the same pages ask for the same buffers. -/
theorem readPages_congr {pages : List Nat} {pool : PagePool}
    (h : ∀ no ∈ pages, (f.page no).isNone = (f'.page no).isNone) :
    readPages f pool pages = readPages f' pool pages := by
  induction pages generalizing pool with
  | nil => rfl
  | cons no pages ih =>
    have hfirst : readPage f pool no = readPage f' pool no := by
      simp only [readPage, h no List.mem_cons_self]
    simp only [readPages] at ih ⊢
    rw [List.foldlM_cons, List.foldlM_cons, hfirst]
    congr 1
    funext pool
    exact ih fun no' hno' => h no' (List.mem_cons_of_mem _ hno')

/-- A row whose item is as it was is read as it was. -/
theorem RowVersions.readItem_eq {page' : PageDataHeader} (h : RowVersions f no o r rs)
    (h' : RowVersions f' no o r rs) (hpage : f.page no = some page)
    (hpage' : f'.page no = some page') (hitem : page'.item o = page.item o)
    (htypes : ∀ no page, f.page no = some page → (f'.page no).isSome = true) {own : Nat}
    {snapshot : SnapShotInfo} {pool : PagePool} {fuel : Nat} (hfuel : rs.length < fuel) :
    readItem f' own snapshot fuel pool no o = readItem f own snapshot fuel pool no o := by
  obtain ⟨rooms, hf⟩ := h.file
  obtain ⟨rooms', hf'⟩ := h'.file
  obtain ⟨p, hp, htype⟩ := h.head.1
  obtain ⟨p', hp', htype'⟩ := h'.head.1
  rw [hpage, Option.some.injEq] at hp
  rw [hpage', Option.some.injEq] at hp'
  rw [readItem, readItem, hf.getPageByIndex, hf'.getPageByIndex, hpage, hpage']
  simp only [Option.bind_some]
  cases hredirect : (page.item o).redirect with
  | true =>
    rw [scanItem_redirect (hp ▸ htype) hredirect,
      scanItem_redirect (hp' ▸ htype') (by rw [hitem, hredirect])]
  | false =>
    rw [h.scanItem hpage hredirect hfuel, h'.scanItem hpage' (by rw [hitem, hredirect]) hfuel]
    rw [readPages_congr fun no hno => ?_]
    have hsome := walkedPages_page h.chain no hno
    obtain ⟨q, hq⟩ := Option.isSome_iff_exists.mp hsome
    have hsome' := htypes no q hq
    rw [← Option.not_isSome, ← Option.not_isSome, hsome, hsome']

/-- A section that stays off every item leaves the table unchanged. -/
theorem RowsStay.unchanged (h : RowsStay f f' T) (hT : ∀ no o, ¬ T no o)
    (hstep : FileStep f rooms f' P) : TableUnchanged f f' := by
  have hversions : ∀ no o r rs, RowVersions f no o r rs → RowVersions f' no o r rs :=
    fun no o r rs hv => h.rowVersions hstep
      (fun no o hno => absurd hno (hT no o)) (hT no o) hv
  refine ⟨hversions, fun no o r rs hv own snapshot pool fuel hfuel => ?_,
    fun no o r rs hv => ?_⟩
  · have hitem : ∃ page, f.page no = some page ∧ IsItem page o := by
      obtain ⟨-, ⟨page, hpage, hitem, -⟩ | ⟨page, hpage, hitem, -⟩⟩ := hv.head
      · exact ⟨page, hpage, hitem.isItem⟩
      · exact ⟨page, hpage, hitem⟩
    obtain ⟨page, hpage, hitem⟩ := hitem
    obtain ⟨page', hpage', -, heq⟩ := h.items no o page (hT no o) hpage hitem
    refine hv.readItem_eq (hversions no o r rs hv) hpage hpage' heq
      (fun no page hp => ?_) hfuel
    obtain ⟨q, hq, -⟩ := hstep.types no page hp
    rw [hq]
    rfl
  · obtain ⟨rooms, hf⟩ := hv.file
    obtain ⟨page, hpage, htype⟩ := hv.head.1
    obtain ⟨page', hpage', htype'⟩ := hstep.isDataPage hv.head.1
    obtain ⟨-, hrow | hredirected⟩ := hv.head
    · rw [hrow.rowByIndex hf, (h.rows no o r (hT no o) hrow).rowByIndex hstep.ok]
    · obtain ⟨-, hrow' | hredirected'⟩ := (hversions no o r rs hv).head
      · obtain ⟨q, hq, hitem, -, hredirect, -⟩ := hredirected
        obtain ⟨q', hq', -, heq⟩ := h.items no o q (hT no o) hq hitem
        obtain ⟨hitem', -⟩ := hrow'.stored hq'
        rw [← heq, hitem'.redirect] at hredirect
        cases hredirect
      · rw [rowByIndex_redirected hf hredirected hpage htype,
          rowByIndex_redirected hstep.ok hredirected' hpage' htype']

/-! ## Refused columns -/

/-- The head of a chain is a page of another type. -/
def ChainBroken (f : TableFile) (page : PageDataHeader) (pageType : PageType) : Prop :=
  match getPageByIndex f (page.chain pageType) with
  | some p => p.pageType ≠ pageType
  | none => False

instance (f : TableFile) (page : PageDataHeader) (pageType : PageType) :
    Decidable (ChainBroken f page pageType) := by
  unfold ChainBroken
  split <;> infer_instance

/-- A request that no page can serve. -/
def TooLarge (size : Nat) : Prop := pageMaxSize ≤ size + pageDataHeaderSize

instance (size : Nat) : Decidable (TooLarge size) := by unfold TooLarge; infer_instance

/-- The column is refused: its page is missing, there is no page for the old
version, the version is not the newest, or there is no page for the new one. -/
def Refused (curr : Nat) (u : ColumnUpdate) (f : TableFile) : Prop :=
  match getPageByIndex f u.headItem.pageno with
  | none => True
  | some page =>
      TooLarge (itemSize + u.oldRowSize) ∨ ChainBroken f page .undo ∨
        tupleUpdateSatisfy curr u.old.headerData ≠ .ok ∨
        (u.old.size < u.row.size ∧ (TooLarge (u.row.size + itemSize) ∨
          hasFreeSpace page (u.row.size + itemSize) = false ∧ ChainBroken f page .extData))

instance (curr : Nat) (u : ColumnUpdate) (f : TableFile) : Decidable (Refused curr u f) := by
  unfold Refused
  split <;> infer_instance

theorem searchChain_refused {size firstno : Nat} {pageType : PageType} :
    (searchChain f size pageType firstno page).1 = none ↔ ChainBroken f page pageType := by
  rw [searchChain, ChainBroken]
  cases getPageByIndex f (page.chain pageType) with
  | none => simp
  | some p =>
    by_cases htype : p.pageType = pageType
    · by_cases hspace : hasFreeSpace p size = true <;> simp [htype, hspace]
    · simp [htype]

theorem undoSpace_refused {size : Nat} (hf : FileOk f rooms) (hpage : f.page no = some page) :
    (getSpaceSpecifyPage f size no .undo).1 = none ↔
      TooLarge size ∨ ChainBroken f page .undo := by
  unfold getSpaceSpecifyPage TooLarge
  rw [hf.getPageByIndex, hpage]
  by_cases hsize : pageMaxSize ≤ size + pageDataHeaderSize <;>
    simp [hsize, searchChain_refused]

theorem dataSpace_refused {size : Nat} (hf : FileOk f rooms) (hpage : f.page no = some page)
    (htype : page.pageType = .data) :
    (getSpaceSpecifyPage f size no .data).1 = none ↔
      TooLarge size ∨ hasFreeSpace page size = false ∧ ChainBroken f page .extData := by
  unfold getSpaceSpecifyPage TooLarge
  rw [hf.getPageByIndex, hpage]
  by_cases hsize : pageMaxSize ≤ size + pageDataHeaderSize
  · simp [hsize]
  · by_cases hspace : hasFreeSpace page size = true <;>
      simp [hsize, htype, hspace, searchChain_refused]

/-- The new version finds no page. -/
theorem writeNewRow_refused (hf : FileOk f rooms)
    (hpage : f.page u.headItem.pageno = some page)
    (htype : page.pageType = .data) (row : RowColumnData) :
    (writeNewRow f u row).1 = false ↔
      u.old.size < row.size ∧ (TooLarge (row.size + itemSize) ∨
      hasFreeSpace page (row.size + itemSize) = false ∧ ChainBroken f page .extData) := by
  rw [← dataSpace_refused hf hpage htype, writeNewRow]
  simp only [hpage, hf.num _ _ hpage]
  by_cases hsize : row.size ≤ u.old.size
  · simp [hsize, Nat.not_lt.mpr hsize]
  · rw [if_neg hsize]
    cases hspace : getSpaceSpecifyPage f (row.size + itemSize) u.headItem.pageno .data with
    | mk found f₁ =>
      cases found with
      | none => simp [Nat.lt_of_not_le hsize]
      | some newno =>
        obtain ⟨p, q, hp, hq⟩ : ∃ p q, f₁.page u.headItem.pageno = some p ∧
            f₁.page newno = some q := by
          rcases hf.dataSpace hpage hspace with ⟨-, rfl, rfl⟩ | ⟨-, -, hfound⟩
          · exact ⟨page, page, hpage, hpage⟩
          · obtain ⟨p, hp, -⟩ := hfound.kept _ _ hpage
            obtain ⟨q, hq, -⟩ := hfound.found
            exact ⟨p, q, hp, hq⟩
        simp only [hp, hq]
        split <;> simp

/-- The search for an undo page leaves the extension chain of the data page. -/
theorem undoSpace_extPage {size undono : Nat} (hf : FileOk f rooms)
    (hpage : f.page no = some page)
    (hfound : getSpaceSpecifyPage f size no .undo = (some undono, f'))
    {page' : PageDataHeader}
    (hpage' : f'.page no = some page') : page'.extPage = page.extPage := by
  have hextend : ∀ p, (extendChain f .undo no page).2.page no = some p →
      p.extPage = page.extPage := by
    intro p hp
    rw [extendChain, set_page_self, Option.some.injEq] at hp
    rw [← hp]
    rfl
  unfold getSpaceSpecifyPage at hfound
  rw [hf.getPageByIndex, hpage] at hfound
  split at hfound
  · cases hfound
  · dsimp only at hfound
    rw [if_pos rfl, searchChain] at hfound
    split at hfound
    · rw [← (Prod.mk.inj hfound).2] at hpage'
      exact hextend page' hpage'
    · split at hfound
      · cases hfound
      · split at hfound
        · obtain ⟨-, rfl⟩ := Prod.mk.inj hfound
          rw [hpage, Option.some.injEq] at hpage'
          rw [hpage']
        · rw [← (Prod.mk.inj hfound).2] at hpage'
          exact hextend page' hpage'

/-- The extension chain of a page is not broken by work on other pages. -/
theorem ChainBroken.extData_iff {page' : PageDataHeader} (hf : FileOk f rooms)
    (hstep : FileStep f rooms f' P)
    (hlink : page.extPage = invalidPageNum ∨ (f.page page.extPage).isSome = true)
    (hext : page'.extPage = page.extPage) :
    ChainBroken f' page' .extData ↔ ChainBroken f page .extData := by
  rw [ChainBroken, ChainBroken, PageDataHeader.chain, PageDataHeader.chain,
    if_pos rfl, if_pos rfl,
    hext]
  rcases hlink with hnone | hsome
  · rw [getPageByIndex, getPageByIndex, if_pos hnone, if_pos hnone]
  · obtain ⟨p, hp⟩ := Option.isSome_iff_exists.mp hsome
    obtain ⟨p', hp', htype⟩ := hstep.types _ p hp
    rw [hf.getPageByIndex, hstep.ok.getPageByIndex, hp, hp']
    simp only [htype]

/-- The extension links of the data pages lead to pages of the table. -/
def ExtLinksOk (f : TableFile) : Prop :=
  ∀ no page, f.page no = some page →
    page.extPage = invalidPageNum ∨ (f.page page.extPage).isSome = true

/-- `pax_ExecUpdate` reports an error on the columns that `Refused` names. -/
theorem ColumnRead.refused_iff (h : ColumnRead f u page r rs) (hlinks : ExtLinksOk f)
    (hcurr : curr < 2 ^ 64) : (paxExecUpdate curr u f).1 = false ↔ Refused curr u f := by
  obtain ⟨rooms, hf⟩ := h.versions.file
  have hundo_iff :
      (getSpaceSpecifyPage f (itemSize + u.oldRowSize) u.headItem.pageno .undo).1 = none
      ↔ TooLarge (itemSize + u.oldRowSize) ∨ ChainBroken f page .undo :=
    undoSpace_refused hf h.found
  have hspace_eq : undoSpace u f
      = getSpaceSpecifyPage f (itemSize + u.oldRowSize) u.headItem.pageno .undo := by
    rw [undoSpace, hf.getPageByIndex, h.found]
    dsimp only
    rw [hf.num _ _ h.found]
  rw [Refused, hf.getPageByIndex, h.found, paxExecUpdate]
  dsimp only
  rw [← or_assoc, ← hundo_iff, ← hspace_eq]
  cases hundo : undoSpace u f with
  | mk found f₁ =>
    cases found with
    | none => simp
    | some undono =>
      obtain ⟨hfound, page₁, undoPage, hpage₁, hsame, hundoPage, hne, hspace⟩ :=
        hf.undoSpace_found h.found h.pageType h.headItem h.size hundo
      have htype₁ : page₁.pageType = .data := hsame.pageType.trans h.pageType
      dsimp only
      rw [updateLocked, hundoPage]
      dsimp only
      by_cases htest : tupleUpdateSatisfy curr u.old.headerData = .ok
      · have hfits := ColumnUpdate.undoRow_fits (u := u) h.oldFits hcurr
        have hcopy := hfound.ok.stepAppend hundoPage hfits hspace
        have hpage₂ : (f₁.set undono (writeRowOnePage undoPage (u.undoRow curr)).1).page
            u.headItem.pageno = some page₁ := by
          rw [set_page_of_ne _ _ (Ne.symm hne), hpage₁]
        have hext := undoSpace_extPage hf h.found (hspace_eq ▸ hundo) hpage₁
        have hbroken :=
          ChainBroken.extData_iff hf (hcopy.after hfound.fileStep hfound.dataEnd)
            (hlinks _ _ h.found) hext
        have hnew := writeNewRow_refused hcopy.ok hpage₂ htype₁
          (u.newRow curr (writeRowOnePage undoPage (u.undoRow curr)).2)
        rw [hbroken, hsame.hasFreeSpace] at hnew
        simp only [htest, ne_eq, not_true_eq_false, if_false, false_or, reduceCtorEq]
        exact hnew
      · simp [htest]

/-! ## An error of the loop -/

/-- An update whose first column is written changes the row of that column. -/
theorem RowRead.changed (h : RowRead f (u :: us)) (hcurr : curr < 2 ^ 64) {done : Bool}
    {f₁ : TableFile} (hdone : paxExecUpdate curr u f = (true, f₁))
    (hrest : Toadb.updateColumns curr us f₁ = (done, f')) : ¬ TableUnchanged f f' := by
  intro hsame
  obtain ⟨page, r, rs, hu⟩ := h.columns u List.mem_cons_self
  have hbound := h.bound
  rw [List.length_cons] at hbound
  obtain ⟨⟨pos, hnew⟩, -⟩ := hu.written hcurr (by omega) hdone
  obtain ⟨hfirst, -⟩ := List.pairwise_cons.mp h.distinct
  have hother : ∀ v ∈ us, ¬ v.Item u.headItem.pageno u.headItem.itemOffset := by
    rintro v hv ⟨hno, ho⟩
    exact hfirst v hv ⟨hno.symm, ho.symm⟩
  have hkept := (h.tail hcurr hdone).updateColumns hcurr hother hnew
  rw [hrest] at hkept
  -- The item would have two chains, one longer than the other.
  obtain ⟨-, hchain⟩ := (hsame.versions _ _ _ _ hu.versions).unique hkept
  have hlength := congrArg List.length hchain
  simp at hlength

/-- A column that is refused changes no row. -/
theorem ColumnRead.refused (h : ColumnRead f u page r rs) (hcurr : curr < 2 ^ 64)
    (hbound : f.pageCnt + 1 < 2 ^ 32) (hdone : paxExecUpdate curr u f = (false, f')) :
    TableUnchanged f f' := by
  obtain ⟨⟨rooms, hstep⟩, hstay⟩ := h.stays hcurr hbound hdone
  exact hstay.unchanged (by simp) hstep

/-! ## Tables with two columns -/

/-- A table with a row of two columns, on the pages 2 and 3. -/
def twoPageTable (a b : RowColumnData) : TableFile :=
  ((extensionTbl 3 ⟨0, fun _ => none⟩).set 2 (writeRowOnePage (initPage 2) a).1).set 3
    (writeRowOnePage (initPage 3) b).1

/-- The update of the column on page `no` from `n` to `m` bytes. -/
def replaceColumn (no n m : Nat) : ColumnUpdate :=
  ⟨plainRow n 1, 200, ⟨no, 40, ⟨4048 - n, true, false, 48 + n⟩⟩, plainRow m 7⟩

theorem rowVersions_twoPageTable {n m : Nat} (hn : n ≤ 3992) (hm : m ≤ 3992) :
    RowVersions (twoPageTable (plainRow n 1) (plainRow m 1)) 2 40 (plainRow n 1) [] ∧
      RowVersions (twoPageTable (plainRow n 1) (plainRow m 1)) 3 40 (plainRow m 1) [] := by
  let f₀ : TableFile := extensionTbl 3 ⟨0, fun _ => none⟩
  have h₀ : FileOk f₀ fun _ _ => 0 := by
    refine (FileOk.extensionTbl ⟨?_, ?_, ?_, fun _ _ => rfl⟩ 3).1
    all_goals
      intro no page h
      cases h
  have hspace : ∀ {k : Nat} (no : Nat), k ≤ 3992 →
      (initPage no).dataOffset + 16 + (plainRow k 1).size ≤ (initPage no).dataEndOffset := by
    intro k no hk
    show (40 : Int) + 16 + (48 + k : Nat) ≤ 4096
    omega
  have hpage₁ : f₀.page 2 = some (initPage 2) := rfl
  have hpage₂ : (f₀.set 2 (writeRowOnePage (initPage 2) (plainRow n 1)).1).page 3
      = some (initPage 3) := rfl
  obtain ⟨h₁, hat₁, -⟩ := h₀.appendRow hpage₁ (plainRow_fits hn 1) (hspace 2 hn)
  obtain ⟨h₂, hat₂, hkept⟩ := h₁.appendRow hpage₂ (plainRow_fits hm 1) (hspace 3 hm)
  exact ⟨⟨⟨_, h₂⟩, ⟨⟨_, rfl, rfl⟩, .inl (hkept 2 40 _ hat₁)⟩, .last rfl⟩,
    ⟨⟨_, h₂⟩, ⟨⟨_, rfl, rfl⟩, .inl hat₂⟩, .last rfl⟩⟩

/-- Transaction 3 has updated the second column. -/
def conflictTable : TableFile :=
  (paxExecUpdate 3 (replaceColumn 3 6 4) (twoPageTable (plainRow 9 1) (plainRow 6 1))).2

/-- The update of the second column by a transaction that is shown its old value. -/
def conflictColumn : ColumnUpdate :=
  { replaceColumn 3 6 5 with old := (replaceColumn 3 6 4).undoRow 3 }

/-- Both columns of the row as transaction 2 reads them. -/
theorem conflictTable_read :
    (∃ page r rs, ColumnRead conflictTable (replaceColumn 2 9 5) page r rs) ∧
    ∃ page r rs, ColumnRead conflictTable conflictColumn page r rs := by
  obtain ⟨hfirst, hsecond⟩ :=
    rowVersions_twoPageTable (n := 9) (m := 6) (by norm_num) (by norm_num)
  have hfits : ∀ {k : Nat}, k ≤ 3992 → (plainRow k 7).Fits := fun hk => plainRow_fits hk 7
  have hread : ColumnRead (twoPageTable (plainRow 9 1) (plainRow 6 1)) (replaceColumn 3 6 4)
      _ (plainRow 6 1) [] :=
    ⟨set_page_self .., by decide, by decide, hsecond, .inl rfl, by decide,
      hfits (by norm_num)⟩
  have hdone := Prod.fst_eq_iff.mp (show (paxExecUpdate 3 (replaceColumn 3 6 4)
    (twoPageTable (plainRow 9 1) (plainRow 6 1))).1 = true by decide)
  obtain ⟨⟨pos, hversions⟩, -⟩ := hread.written (by norm_num) (by decide) hdone
  constructor
  · obtain ⟨page, hcolumn⟩ : ∃ page, ColumnRead conflictTable (replaceColumn 2 9 5) page
        (plainRow 9 1) [] := hread.otherColumn (by norm_num)
      (by decide) (by rintro ⟨hno, -⟩; cases hno)
      ⟨by rfl, by decide, by decide, hfirst, .inl rfl, by decide,
        hfits (by norm_num)⟩
    exact ⟨page, _, _, hcolumn⟩
  · obtain ⟨page, hpage⟩ : ∃ page, conflictTable.page 3 = some page :=
      hversions.head.1.imp fun _ h => h.1
    have hitem : (conflictTable.page 3).map (fun page => page.item 40)
        = some ⟨4042, true, false, 54⟩ := by decide
    rw [hpage, Option.map_some, Option.some.injEq] at hitem
    exact ⟨page, _, _, hpage, by
      rw [show conflictColumn.headItem.itemOffset = 40 from rfl, hitem],
      hitem.symm, hversions, .inr ⟨List.mem_cons_self, by decide⟩, by
        decide, hfits (by norm_num)⟩

theorem conflictTable_extLinks : ExtLinksOk conflictTable := by
  intro no page hpage
  obtain ⟨⟨p, r, rs, hread⟩, -⟩ := conflictTable_read
  obtain ⟨rooms, hf⟩ := hread.versions.file
  obtain ⟨hpos, hle⟩ := hf.bound no page hpage
  have hcnt : conflictTable.pageCnt = 4 := by decide
  have hnone : ∀ no ∈ [1, 2, 3, 4],
      (conflictTable.page no).map (·.extPage) = some 0 := by decide
  have hext := hnone no (by simp; omega)
  rw [hpage, Option.map_some, Option.some.injEq] at hext
  exact .inl hext

/-! ## The result -/

/-- The condition on the columns: the first one is refused. -/
def FirstRefused (curr : Nat) (us : List ColumnUpdate) (f : TableFile) : Prop :=
  match us with
  | [] => True
  | u :: _ => Refused curr u f

instance (curr : Nat) (us : List ColumnUpdate) (f : TableFile) :
    Decidable (FirstRefused curr us f) := by
  unfold FirstRefused
  split <;> infer_instance

/-- An UPDATE of a row that reports an error leaves every row as it was exactly when
its first column is refused. -/
theorem update_unchanged_iff (h : RowRead f us) (hlinks : ExtLinksOk f)
    (hcurr : curr < 2 ^ 64) (hfail : paxExecUpdateRow curr us f = (false, f')) :
    TableUnchanged f f' ↔ FirstRefused curr us f := by
  rw [paxExecUpdateRow] at hfail
  cases us with
  | nil =>
    obtain ⟨-, rfl⟩ := Prod.mk.inj hfail
    exact iff_of_true (.refl _) trivial
  | cons u us =>
    rw [if_neg (List.cons_ne_nil u us), updateColumns] at hfail
    obtain ⟨page, r, rs, hu⟩ := h.columns u List.mem_cons_self
    have hbound := h.bound
    rw [List.length_cons] at hbound
    rw [FirstRefused, ← hu.refused_iff hlinks hcurr]
    cases hdone : paxExecUpdate curr u f with
    | mk done f₁ =>
      rw [hdone] at hfail
      cases done with
      | false =>
        obtain ⟨-, rfl⟩ := Prod.mk.inj hfail
        exact iff_of_true (hu.refused hcurr (by omega) hdone) rfl
      | true => exact iff_of_false (h.changed hcurr hdone hfail) (by simp)

/-- The second column first: the update is refused and nothing has happened. -/
theorem update_unchanged_conflict : ∃ f',
    paxExecUpdateRow 2 [conflictColumn, replaceColumn 2 9 5] conflictTable = (false, f') ∧
      TableUnchanged conflictTable f' := by
  have hfail := Prod.fst_eq_iff.mp (show
    (paxExecUpdateRow 2 [conflictColumn, replaceColumn 2 9 5] conflictTable).1 = false by
      decide)
  obtain ⟨hfirst, hsecond⟩ := conflictTable_read
  have hread : RowRead conflictTable [conflictColumn, replaceColumn 2 9 5] :=
    ⟨by simpa using ⟨hsecond, hfirst⟩, by simp [ColumnUpdate.Item, Only, conflictColumn,
      replaceColumn], by decide⟩
  exact ⟨_, hfail, (update_unchanged_iff hread conflictTable_extLinks (by norm_num) hfail).mpr
    (by decide)⟩

/-- The first column is written, the second one is refused: the update reports an
error, and the first column has its new value. -/
theorem update_half_done : ∃ us f', RowRead conflictTable us ∧ ExtLinksOk conflictTable ∧
    paxExecUpdateRow 2 us conflictTable = (false, f') ∧
    (rowByIndex conflictTable 2 40).map (·.data) = some (List.replicate 9 1) ∧
    (rowByIndex f' 2 40).map (·.data) = some (List.replicate 5 7) ∧
    ¬ TableUnchanged conflictTable f' := by
  let us := [replaceColumn 2 9 5, conflictColumn]
  have hfail := Prod.fst_eq_iff.mp (show (paxExecUpdateRow 2 us conflictTable).1 = false by
    decide)
  obtain ⟨hfirst, hsecond⟩ := conflictTable_read
  have hread : RowRead conflictTable us :=
    ⟨by simpa [us] using ⟨hfirst, hsecond⟩, by
      simp [us, ColumnUpdate.Item, Only, conflictColumn,
      replaceColumn], by decide⟩
  have hdone := Prod.fst_eq_iff.mp (show
    (paxExecUpdate 2 (replaceColumn 2 9 5) conflictTable).1 = true by decide)
  have hrest := hfail
  rw [paxExecUpdateRow, if_neg (List.cons_ne_nil _ _), updateColumns, hdone] at hrest
  exact ⟨us, _, hread, conflictTable_extLinks, hfail, by decide, by decide,
    hread.changed (by norm_num) hdone hrest⟩

end Toadb
