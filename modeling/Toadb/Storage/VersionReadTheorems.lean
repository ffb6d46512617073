/-
Toadb.Storage.VersionReadTheorems — which version of a row a scan returns.

`currentReadVersion_eq` solves the walk over a chain of any length: it finds
the newest version the snapshot shows, after one round for each version on
the way. Two things keep the scan from it. An item that was redirected to an
extension page reads as no row at all, whatever its versions
(`scanItem_redirect`); and the walk keeps a buffer for every undo page it
comes to, so it returns only when the pool has one for each (`readPages_isSome`).
-/
import Toadb.Storage.VersionRead
import Toadb.Storage.VersionTheorems
import Toadb.Storage.ReadBackTheorems
import Toadb.Transaction.SnapshotTheorems
import Mathlib.Data.Finset.Card

namespace Toadb

/-! ## The version a snapshot shows -/

/-- The creator of the version counts as over, and its deleter, if it has one,
does not. -/
def SnapShotInfo.Shows (snapshot : SnapShotInfo) (own : Nat) (r : RowColumnData) : Prop :=
  (r.headerData.tmin ≠ invalidXtid ∧ snapshot.CountsAsOver own r.headerData.tmin) ∧
    ¬ (r.headerData.tmax ≠ invalidXtid ∧ snapshot.CountsAsOver own r.headerData.tmax)

instance (snapshot : SnapShotInfo) (own : Nat) (r : RowColumnData) :
    Decidable (snapshot.Shows own r) := by
  unfold SnapShotInfo.Shows; infer_instance

/-- The newest version of a chain that the snapshot shows. -/
def SnapShotInfo.newestShown (snapshot : SnapShotInfo) (own : Nat)
    (versions : List RowColumnData) :
    Option RowColumnData :=
  versions.find? fun r => decide (snapshot.Shows own r)

variable {f : TableFile} {rooms : Nat → Int → Nat} {no : Nat} {o : Int}
  {page : PageDataHeader}
  {r : RowColumnData} {rs : List RowColumnData} {own : Nat} {snapshot : SnapShotInfo}
  {pool : PagePool}

theorem visible_iff_shows (snapshot : SnapShotInfo) (own : Nat) (r : RowColumnData) :
    tupleVisibilitySatisfy own r.headerData (some snapshot) = .tupleVisible ↔
      snapshot.Shows own r := by
  rw [tupleVisibilitySatisfy_eq]
  split
  · rename_i h
    exact iff_of_true rfl h
  · rename_i h
    exact iff_of_false (by decide) h

@[simp] theorem newestShown_nil : snapshot.newestShown own [] = none := rfl

theorem newestShown_of_shows (h : snapshot.Shows own r) (rs : List RowColumnData) :
    snapshot.newestShown own (r :: rs) = some r := by
  simp [SnapShotInfo.newestShown, h]

theorem newestShown_of_not_shows (h : ¬ snapshot.Shows own r) (rs : List RowColumnData) :
    snapshot.newestShown own (r :: rs) = snapshot.newestShown own rs := by
  simp [SnapShotInfo.newestShown, h]

theorem newestShown_eq_none :
    snapshot.newestShown own rs = none ↔ ∀ r ∈ rs, ¬ snapshot.Shows own r := by
  simp [SnapShotInfo.newestShown]

/-! ## The walk -/

/-- The undo pages from a position on, up to the version the snapshot shows. -/
def undoPages (snapshot : SnapShotInfo)
    (own : Nat) : RowPosition → List RowColumnData → List Nat
  | _, [] => []
  | pos, r :: rs =>
      pos.pageIndex.pageno ::
        (if snapshot.Shows own r then [] else undoPages snapshot own r.headerData.undo rs)

theorem UndoRow.pageno_ne {pos : RowPosition} (hf : FileOk f rooms) (h : UndoRow f pos r) :
    pos.pageIndex.pageno ≠ invalidPageNum := by
  obtain ⟨⟨page, hpage, -⟩, -⟩ := h
  have := (hf.bound _ page hpage).1
  rw [invalidPageNum]
  omega

/-- Over a chain the walk ends, with the newest version that is shown. -/
theorem currentReadVersion_eq {pos : RowPosition} (hf : FileOk f rooms)
    (h : UndoChain f pos rs) :
    ∀ fuel, rs.length < fuel → currentReadVersion f own snapshot fuel pos
      = some (snapshot.newestShown own rs, undoPages snapshot own pos rs) := by
  induction h with
  | last hnone =>
    intro fuel hfuel
    obtain ⟨k, rfl⟩ := Nat.exists_eq_succ_of_ne_zero (Nat.ne_of_gt hfuel)
    simp [currentReadVersion, hnone, undoPages]
  | @next pos r rs hrow hchain ih =>
    intro fuel hfuel
    obtain ⟨k, rfl⟩ := Nat.exists_eq_succ_of_ne_zero (Nat.ne_zero_of_lt hfuel)
    rw [currentReadVersion]
    simp only [hrow.pageno_ne hf, hrow.2.readUndoVersion hf, if_false, visible_iff_shows]
    by_cases hshows : snapshot.Shows own r
    · simp [hshows, newestShown_of_shows, undoPages]
    · have hk : rs.length < k := by simpa using hfuel
      simp [hshows, ih k hk, newestShown_of_not_shows, undoPages]

/-- The undo pages the scan asks for on its way from the item. -/
def walkedPages (snapshot : SnapShotInfo) (own : Nat) (r : RowColumnData)
    (rs : List RowColumnData) : List Nat :=
  if snapshot.Shows own r then [] else undoPages snapshot own r.headerData.undo rs

theorem readVersion_eq (hf : FileOk f rooms) (h : UndoChain f r.headerData.undo rs) :
    ∀ fuel, rs.length < fuel → readVersion f own snapshot fuel r
      = some (snapshot.newestShown own (r :: rs), walkedPages snapshot own r rs) := by
  intro fuel hfuel
  rw [readVersion]
  simp only [visible_iff_shows]
  by_cases hshows : snapshot.Shows own r
  · simp [hshows, newestShown_of_shows, walkedPages]
  · simp [hshows, newestShown_of_not_shows, walkedPages,
      currentReadVersion_eq hf h fuel hfuel]

/-- The walk only asks for pages of the table. -/
theorem undoPages_page {pos : RowPosition} (h : UndoChain f pos rs) :
    ∀ no ∈ undoPages snapshot own pos rs, (f.page no).isSome = true := by
  induction h with
  | last hnone => simp [undoPages]
  | @next pos r rs hrow hchain ih =>
    obtain ⟨⟨page, hpage, -⟩, -⟩ := hrow
    rw [undoPages]
    split
    · simp [hpage]
    · simpa [hpage] using ih

theorem walkedPages_page (h : UndoChain f r.headerData.undo rs) :
    ∀ no ∈ walkedPages snapshot own r rs, (f.page no).isSome = true := by
  rw [walkedPages]
  split
  · simp
  · exact undoPages_page h

/-! ## Buffers -/

/-- The pool has a buffer for each of the pages that is not held yet. -/
def PagePool.Holds (pool : PagePool) (pages : List Nat) : Prop :=
  (pages.toFinset \ pool.pinned).card ≤ pool.room

instance (pool : PagePool) (pages : List Nat) : Decidable (pool.Holds pages) := by
  unfold PagePool.Holds; infer_instance

theorem PagePool.holds_cons_of_mem {pageno : Nat} (h : pageno ∈ pool.pinned)
    (pages : List Nat) :
    pool.Holds (pageno :: pages) ↔ pool.Holds pages := by
  simp only [PagePool.Holds, List.toFinset_cons, Finset.insert_sdiff_of_mem _ h]

/-- A page that is not held takes a buffer. -/
theorem PagePool.holds_cons {pageno : Nat} (h : pageno ∉ pool.pinned) (pages : List Nat) :
    pool.Holds (pageno :: pages) ↔
      pool.room ≠ 0 ∧ PagePool.Holds ⟨insert pageno pool.pinned, pool.room - 1⟩ pages := by
  have hsplit : (pageno :: pages).toFinset \ pool.pinned
      = insert pageno (pages.toFinset \ insert pageno pool.pinned) := by
    ext no
    by_cases hno : no = pageno <;> simp [hno, h]
  have hcard : ((pageno :: pages).toFinset \ pool.pinned).card
      = (pages.toFinset \ insert pageno pool.pinned).card + 1 := by
    rw [hsplit, Finset.card_insert_of_notMem (by simp)]
  simp only [PagePool.Holds, hcard]
  omega

theorem readPages_isSome {pages : List Nat} (h : ∀ no ∈ pages, (f.page no).isSome = true) :
    (readPages f pool pages).isSome = true ↔ pool.Holds pages := by
  induction pages generalizing pool with
  | nil => simp [readPages, PagePool.Holds]
  | cons pageno pages ih =>
    have hpage : (f.page pageno).isNone = false := by simpa using h pageno List.mem_cons_self
    have hpages : ∀ no ∈ pages, (f.page no).isSome = true :=
      fun no hno => h no (List.mem_cons_of_mem _ hno)
    rw [readPages, List.foldlM_cons]
    by_cases hpinned : pageno ∈ pool.pinned
    · rw [PagePool.holds_cons_of_mem hpinned, ← ih hpages]
      simp [readPage, hpinned, readPages]
    · rw [PagePool.holds_cons hpinned, ← ih hpages]
      by_cases hroom : pool.room = 0 <;> simp [readPage, hpinned, hroom, hpage, readPages]

/-! ## The scan at an item -/

/-- Item `o` of data page `no` leads to the versions `r :: rs`, the newest first. -/
structure RowVersions (f : TableFile) (no : Nat) (o : Int) (r : RowColumnData)
    (rs : List RowColumnData) : Prop where
  file : ∃ rooms, FileOk f rooms
  head : HeadAt f no o r
  chain : UndoChain f r.headerData.undo rs

/-- The version a chain goes on with is not on the data page. -/
theorem RowVersions.undo_ne {v : RowColumnData} (h : RowVersions f no o r (v :: rs)) :
    r.headerData.undo.pageIndex.pageno ≠ no := by
  obtain ⟨-, ⟨⟨page, hpage, htype⟩, -⟩, hchain⟩ := h
  cases hchain with
  | next hrow _ =>
    obtain ⟨⟨undoPage, hundo, hundotype⟩, -⟩ := hrow
    exact ne_of_pageType hundo hpage (by simp [htype, hundotype])

/-- The scan comes back from the item, with the newest version that is shown. -/
def ReadsNewest (f : TableFile) (own : Nat) (snapshot : SnapShotInfo) (pool : PagePool)
    (page : PageDataHeader) (o : Int) (versions : List RowColumnData) : Prop :=
  ∃ k pool', ∀ fuel, k ≤ fuel →
    scanItem f own snapshot fuel pool page o = some (snapshot.newestShown own versions, pool')

theorem scanItem_redirect (htype : page.pageType = .data)
    (hredirect : (page.item o).redirect = true) (fuel : Nat) :
    scanItem f own snapshot fuel pool page o = some (none, pool) := by
  rw [scanItem, rowOfItem_redirect htype hredirect]

/-- Where the item is a row, the scan is the walk and its buffers. -/
theorem RowVersions.scanItem (h : RowVersions f no o r rs) (hpage : f.page no = some page)
    (hredirect : (page.item o).redirect = false) {fuel : Nat} (hfuel : rs.length < fuel) :
    scanItem f own snapshot fuel pool page o
      = (readPages f pool (walkedPages snapshot own r rs)).map
          fun pool => (snapshot.newestShown own (r :: rs), pool) := by
  obtain ⟨⟨rooms, hf⟩, ⟨-, hrow | ⟨page', hpage', -, -, hredirect', -⟩⟩, hchain⟩ := h
  · obtain ⟨hitem, hstored⟩ := hrow.stored hpage
    rw [Toadb.scanItem, hitem.rowOfItem hstored]
    simp [readVersion_eq hf hchain fuel hfuel]
  · rw [hpage, Option.some.injEq] at hpage'
    rw [hpage', hredirect'] at hredirect
    cases hredirect

/-- A redirect item reads as no row. -/
theorem RowVersions.readsNewest_redirect (h : RowVersions f no o r rs)
    (hpage : f.page no = some page) (hredirect : (page.item o).redirect = true) :
    ReadsNewest f own snapshot pool page o (r :: rs) ↔
      ∀ v ∈ r :: rs, ¬ snapshot.Shows own v := by
  obtain ⟨page', hpage', htype⟩ := h.head.1
  rw [hpage, Option.some.injEq] at hpage'
  subst hpage'
  rw [← newestShown_eq_none]
  constructor
  · rintro ⟨k, pool', hread⟩
    have hnone := hread k (Nat.le_refl k)
    rw [scanItem_redirect htype hredirect, Option.some.injEq, Prod.mk.injEq] at hnone
    exact hnone.1.symm
  · intro hnone
    refine ⟨0, pool, fun fuel _ => ?_⟩
    rw [scanItem_redirect htype hredirect, hnone]

/-- The scan of a row comes back when the pool has the buffers it keeps. -/
theorem RowVersions.readsNewest_row (h : RowVersions f no o r rs)
    (hpage : f.page no = some page) (hredirect : (page.item o).redirect = false) :
    ReadsNewest f own snapshot pool page o (r :: rs) ↔
      pool.Holds (walkedPages snapshot own r rs) := by
  rw [← readPages_isSome (walkedPages_page h.chain)]
  have hscan : ∀ fuel, rs.length < fuel → Toadb.scanItem f own snapshot fuel pool page o
      = (readPages f pool (walkedPages snapshot own r rs)).map
          fun pool => (snapshot.newestShown own (r :: rs), pool) :=
    fun fuel hfuel => h.scanItem hpage hredirect hfuel
  constructor
  · rintro ⟨k, pool', hread⟩
    have hsome := hread (k + rs.length + 1) (by omega)
    rw [hscan _ (by omega), Option.map_eq_some_iff] at hsome
    obtain ⟨pool'', hpool, -⟩ := hsome
    simp [hpool]
  · intro hsome
    obtain ⟨pool', hpool⟩ := Option.isSome_iff_exists.mp hsome
    refine ⟨rs.length + 1, pool', fun fuel hfuel => ?_⟩
    rw [hscan fuel (by omega), hpool, Option.map_some]

/-! ## Chains of updates -/

/-- A successful update puts its version in front of the chain; the version it
supersedes is deleted by the transaction that created the new one. -/
theorem RowVersions.paxExecUpdate {f' : TableFile} {u : ColumnUpdate} {curr : Nat}
    (h : RowVersions f no o u.old rs) (hbound : f.pageCnt + 1 < 2 ^ 32)
    (hpage : f.page no = some page) (hredirect : (page.item o).redirect = false)
    (hpos : u.headItem = ⟨no, o, page.item o⟩) (hsize : u.old.size ≤ u.oldRowSize)
    (hrow : u.row.Fits) (hcurr : curr < 2 ^ 64)
    (hdone : paxExecUpdate curr u f = (true, f')) :
    ∃ pos, RowVersions f' no o (u.newRow curr pos) (u.undoRow curr :: rs) ∧
      (StaysOnPage page u.old u.row ↔ RowAt f' no o (u.newRow curr pos)) := by
  obtain ⟨⟨rooms, hf⟩, ⟨⟨page', hpage', htype⟩, hhead⟩, hchain⟩ := h
  rw [hpage, Option.some.injEq] at hpage'
  subst hpage'
  have hold : RowAt f no o u.old := by
    rcases hhead with hrow | ⟨page', hpage', -, -, hredirect', -⟩
    · exact hrow
    · rw [hpage, Option.some.injEq] at hpage'
      rw [hpage', hredirect'] at hredirect
      cases hredirect
  unfold Toadb.paxExecUpdate at hdone
  split at hdone
  · cases hdone
  · rename_i undono f₁ hundo
    obtain ⟨hfound, page₁, undoPage, hpage₁, hsame, hundoPage, hne, hspace⟩ :=
      hf.undoSpace_found hpage htype hpos hsize hundo
    have htype₁ : page₁.pageType = .data := hsame.pageType.trans htype
    have hundotype : undoPage.pageType = .undo := by
      obtain ⟨found, hfoundPage, -, hfoundType⟩ := hfound.found
      rw [hundoPage, Option.some.injEq] at hfoundPage
      rw [hfoundPage, hfoundType]
    have hbound₁ := hfound.pageCnt_le
    have hold₁ := hold.rowsKept hfound.kept
    have hpos₁ : u.headItem = ⟨no, o, page₁.item o⟩ := by rw [hpos, hsame.item]
    have hstays : StaysOnPage page₁ u.old u.row ↔ StaysOnPage page u.old u.row := by
      rw [StaysOnPage, StaysOnPage, hsame.hasFreeSpace]
    -- The room the old version was given is still there.
    have hroom : u.old.size ≤ rooms no u.headItem.itemData.offset := by
      obtain ⟨hitem, hstored⟩ := hold₁.stored hpage₁
      obtain ⟨r', hstored', hle, -⟩ := (hfound.ok.layout no page₁ hpage₁).row hitem
      have hr' : u.old = r' := hold₁.unique ⟨page₁, hpage₁, hitem, hstored'⟩
      rw [hpos₁, hr']
      exact hle
    have hstep := hfound.ok.stepUpdate hpage₁ htype₁ hundoPage hundotype
      (congrArg HeapItemData.pageno hpos) hold.fits hrow hcurr
      (fun _ => ⟨by omega, hspace, fun hle => Nat.le_trans hle hroom⟩)
    rw [hdone] at hstep
    obtain ⟨-, pos, -, hposno, hcopy, hstay, haway⟩ :=
      hfound.ok.updateLocked (by omega) hpage₁
        hundoPage hne hspace hpos₁ hold₁ hrow hcurr hdone
    obtain ⟨undoPage', hundoPage', hundotype'⟩ := hstep.types undono undoPage hundoPage
    have hundoRow : UndoRow f' pos (u.undoRow curr) :=
      ⟨⟨undoPage', hposno ▸ hundoPage', hundotype'.trans hundotype⟩, hcopy⟩
    have hfirst : FileStep f rooms f₁ fun _ => False := hfound.fileStep
    have hdata : IsDataPage f' no := hstep.isDataPage ⟨page₁, hpage₁, htype₁⟩
    refine ⟨pos, ⟨⟨_, hstep.ok⟩, ⟨hdata, ?_⟩,
      .next hundoRow (hstep.undoChain (hfirst.undoChain hchain))⟩, ?_⟩
    · by_cases hstaying : StaysOnPage page₁ u.old u.row
      · exact .inl (hstay hstaying)
      · exact .inr (haway hstaying).2
    · rw [← hstays]
      refine ⟨hstay, fun hat => ?_⟩
      by_contra hnot
      obtain ⟨page', hpage', -, -, hredirected, -⟩ := (haway hnot).2
      rw [(hat.stored hpage').1.redirect] at hredirected
      cases hredirected

/-- The row of `oneRowTable` has one version. -/
theorem rowVersions_oneRowTable {row : RowColumnData} (hrow : row.Fits)
    (hundo : row.headerData.undo = RowPosition.none) :
    RowVersions (oneRowTable row) 2 40 row [] := by
  obtain ⟨rooms, hf, hat⟩ := oneRowTable_row hrow
  refine ⟨⟨rooms, hf⟩, ⟨⟨_, set_page_self .., rfl⟩, .inl hat⟩, .last ?_⟩
  rw [hundo]
  rfl

/-- The update of the row of `oneRowTable` by transaction 2. -/
def replaceRow (n m : Nat) : ColumnUpdate :=
  ⟨plainRow n 1, 48 + n, ⟨2, 40, ⟨4048 - n, true, false, 48 + n⟩⟩, plainRow m 7⟩

/-- A row that was replaced in place. -/
theorem rowVersions_replaced : ∃ f page pos,
    RowVersions f 2 40 ((replaceRow 9 5).newRow 2 pos) [(replaceRow 9 5).undoRow 2] ∧
      f.page 2 = some page ∧ (page.item 40).redirect = false := by
  have hdone := Prod.fst_eq_iff.mp
    (show (paxExecUpdate 2 (replaceRow 9 5) (oneRowTable (plainRow 9 1))).1 = true by decide)
  obtain ⟨pos, hversions, hstays⟩ :=
    (rowVersions_oneRowTable (plainRow_fits (by norm_num) 1) rfl).paxExecUpdate
      (u := replaceRow 9 5) (by decide) (set_page_self ..) (by decide)
      (by decide) (by decide) (plainRow_fits (by norm_num) 7) (by norm_num) hdone
  obtain ⟨page, hpage, hitem, -⟩ := hstays.mp (by decide)
  exact ⟨_, page, pos, hversions, hpage, hitem.redirect⟩

/-- A row that was moved to an extension page. -/
theorem rowVersions_moved : ∃ f page pos,
    RowVersions f 2 40 ((replaceRow 2000 2001).newRow 2 pos)
      [(replaceRow 2000 2001).undoRow 2] ∧
      f.page 2 = some page ∧ page.pageType = .data ∧ (page.item 40).redirect = true := by
  have hdone := Prod.fst_eq_iff.mp (show
    (paxExecUpdate 2 (replaceRow 2000 2001) (oneRowTable (plainRow 2000 1))).1 = true by
      decide)
  obtain ⟨pos, hversions, hstays⟩ :=
    (rowVersions_oneRowTable (plainRow_fits (by norm_num) 1) rfl).paxExecUpdate
      (u := replaceRow 2000 2001) (by decide) (set_page_self ..) (by decide)
      (by decide) (by decide) (plainRow_fits (by norm_num) 7) (by norm_num) hdone
  have haway := mt hstays.mpr (by decide)
  obtain ⟨⟨page, hpage, htype⟩, hrow | ⟨page', hpage', -, -, hredirect, -⟩⟩ := hversions.head
  · exact absurd hrow haway
  · rw [hpage, Option.some.injEq] at hpage'
    subst hpage'
    exact ⟨_, page, pos, hversions, hpage, htype, hredirect⟩

/-! ## The result -/

/-- The condition on an item and its versions. -/
def ScanFinds (own : Nat) (snapshot : SnapShotInfo) (pool : PagePool) (page : PageDataHeader)
    (o : Int) (r : RowColumnData) (rs : List RowColumnData) : Prop :=
  if (page.item o).redirect then ∀ v ∈ r :: rs, ¬ snapshot.Shows own v
  else pool.Holds (walkedPages snapshot own r rs)

/-- The scan returns the newest version that is shown exactly when the item is
no redirect item, or no version is shown at all, and the pool has a buffer
for each undo page on the way. -/
theorem readsNewest_iff (h : RowVersions f no o r rs) (hpage : f.page no = some page) :
    ReadsNewest f own snapshot pool page o (r :: rs) ↔
      ScanFinds own snapshot pool page o r rs := by
  rw [ScanFinds]
  cases hredirect : (page.item o).redirect with
  | true => exact h.readsNewest_redirect hpage hredirect
  | false => exact h.readsNewest_row hpage hredirect

/-- A snapshot from before the update is shown the version on the undo page. -/
theorem readsNewest_older : ∃ f page r rs,
    RowVersions f 2 40 r rs ∧ f.page 2 = some page ∧
      SnapShotInfo.newestShown ⟨2, 2, 0, []⟩ 5 (r :: rs) = some ((replaceRow 9 5).undoRow 2) ∧
      ReadsNewest f 5 ⟨2, 2, 0, []⟩ ⟨{2}, 1⟩ page 40 (r :: rs) := by
  obtain ⟨f, page, pos, hversions, hpage, hredirect⟩ := rowVersions_replaced
  have hpages : walkedPages ⟨2, 2, 0, []⟩ 5 ((replaceRow 9 5).newRow 2 pos)
      [(replaceRow 9 5).undoRow 2] = [pos.pageIndex.pageno] := rfl
  refine ⟨f, page, _, _, hversions, hpage, rfl, (readsNewest_iff hversions hpage).mpr ?_⟩
  rw [ScanFinds, hredirect, if_neg (by decide), hpages]
  exact Nat.le_trans (Finset.card_le_card Finset.sdiff_subset) (by simp)

/-- A row that was moved by an update is not found by the scan; and the scan does not
come back from an older version when every buffer is held. -/
theorem scanItem_lost :
    (∃ f page r rs, RowVersions f 2 40 r rs ∧ f.page 2 = some page ∧
      SnapShotInfo.newestShown ⟨9, 9, 0, []⟩ 5 (r :: rs) = some r ∧
      (∀ fuel, scanItem f 5 ⟨9, 9, 0, []⟩ fuel ⟨{2}, 127⟩ page 40 = some (none, ⟨{2}, 127⟩)) ∧
      ¬ ReadsNewest f 5 ⟨9, 9, 0, []⟩ ⟨{2}, 127⟩ page 40 (r :: rs)) ∧
    ∃ f page r rs, RowVersions f 2 40 r rs ∧ f.page 2 = some page ∧
      ¬ ReadsNewest f 5 ⟨2, 2, 0, []⟩ ⟨{2}, 0⟩ page 40 (r :: rs) := by
  constructor
  · obtain ⟨f, page, pos, hversions, hpage, htype, hredirect⟩ := rowVersions_moved
    have hnewest : SnapShotInfo.newestShown ⟨9, 9, 0, []⟩ 5
        ((replaceRow 2000 2001).newRow 2 pos :: [(replaceRow 2000 2001).undoRow 2])
        = some ((replaceRow 2000 2001).newRow 2 pos) := rfl
    refine ⟨f, page, _, _, hversions, hpage, hnewest, scanItem_redirect htype hredirect, ?_⟩
    rw [hversions.readsNewest_redirect hpage hredirect, ← newestShown_eq_none, hnewest]
    exact Option.some_ne_none _
  · obtain ⟨f, page, pos, hversions, hpage, hredirect⟩ := rowVersions_replaced
    refine ⟨f, page, _, _, hversions, hpage, ?_⟩
    have hpages : walkedPages ⟨2, 2, 0, []⟩ 5 ((replaceRow 9 5).newRow 2 pos)
        [(replaceRow 9 5).undoRow 2] = [pos.pageIndex.pageno] := rfl
    have hne := hversions.undo_ne
    rw [ColumnUpdate.newRow] at hne
    rw [hversions.readsNewest_row hpage hredirect, hpages]
    simp [PagePool.Holds, hne]

end Toadb
