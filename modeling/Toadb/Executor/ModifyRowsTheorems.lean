/-
Toadb.Executor.ModifyRowsTheorems — what an UPDATE or a DELETE does to a row.

The columns of the row that the scan has handed out are found at their cells
(`PositionOn.fetched`), whether the scan reads them or not. Changing the cell of one
leaves the others as they were found, for they are on other pages, and it leaves the
rows that the scan has before it. So the columns are written one after the other, up
to the first that is refused (`GroupsStored.writeColumns`).
-/
import Toadb.Executor.ExecUpdateSelect
import Toadb.Executor.ScanRowTheorems
import Toadb.Executor.TableHistoryTheorems

namespace Toadb

open VersionedTable Cursor

variable {t : PaxTable} {groups : List (List VersionedRow)} {f f' : TableFile}
  {rooms : Nat → Int → Nat}
  {own : Nat} {snapshot : SnapShotInfo} {cols : List Nat}
  {cell : Cell (Nat × Int) Nat StoredValue} {col : FetchedColumn}
  {row : VersionedRow} {rows : List VersionedRow} {r : RowColumnData}
  {rs : List RowColumnData} {k i c : Nat}

/-! ## What was found -/

/-- Whose work is seen in a column: a scan is shown what the snapshot shows, and a fetch takes
the newest version. -/
def SeenIn (snapshot : SnapShotInfo) (own : Nat) (cols : List Nat) (c x : Nat) : Prop :=
  if c ∈ cols then snapshot.Sees own x else x ≠ invalidXtid

instance (snapshot : SnapShotInfo) (own : Nat) (cols : List Nat)
    (c : Nat) : DecidablePred (SeenIn snapshot own cols c) :=
  fun x => inferInstanceAs
    (Decidable (if c ∈ cols then snapshot.Sees own x else x ≠ invalidXtid))

/-- The value of a column of a row: a scan has the version that is shown, and a fetch the
newest. -/
def columnNow (snapshot : SnapShotInfo) (own : Nat) (cols : List Nat) (row : VersionedRow)
    (c : Nat) : Option StoredValue :=
  (row[c]?).bind fun cell =>
    if c ∈ cols then cell.read (snapshot.Sees own) else cell.versions.head?.map Version.value

/-- The version that `TupleUpdateSatisfy` lets through. -/
def Updatable (r : RowColumnData) : Prop :=
  r.headerData.tmin ≠ invalidXtid ∧ r.headerData.tmax = invalidXtid

/-- The column was found at the item of a cell, which is up to date. -/
structure CellFetched (t : PaxTable) (seen : Nat → Prop)
    (cell : Cell (Nat × Int) Nat StoredValue) (col : FetchedColumn) :
    Prop where
  member : ∃ item ∈ t.groupList, col.headItem.pageno ∈ item.member
  pos : col.headItem.pos = cell.pos
  copy : ∃ page, t.file.page col.headItem.pageno = some page ∧
    col.headItem.itemData = page.item col.headItem.itemOffset
  old : ∃ r rs, CellHas t.file cell r rs ∧
    (col.old = r ∨ ∃ own snapshot,
      SnapShotInfo.newestShown snapshot own (r :: rs) = some col.old)
  updatable : Updatable col.old ↔ cell.Current seen

theorem CellHas.current_iff (h : CellHas f cell r rs) (seen : Nat → Prop) :
    cell.Current seen ↔ seen r.headerData.tmin ∧ r.headerData.tmax = invalidXtid := by
  rw [Cell.Current, h.versions]
  simp [RowColumnData.toVersion]

/-- A version that the scan is shown passes the test when it is the newest. -/
theorem CellHas.updatable_shown (h : CellHas f cell r rs) {v : RowColumnData}
    (hv : snapshot.newestShown own (r :: rs) = some v) :
    Updatable v ↔ cell.Current (snapshot.Sees own) := by
  rw [h.current_iff]
  constructor
  · rintro ⟨-, htmax⟩
    obtain rfl : v = r := by
      rcases List.mem_cons.mp (List.mem_of_find?_eq_some hv) with heq | hmem
      · exact heq
      · exact absurd htmax (h.older v hmem)
    exact ⟨(shown_toVersion.mpr (shows_of_newestShown hv)).1, htmax⟩
  · rintro ⟨hseen, htmax⟩
    have hshows : snapshot.Shows own r := by
      refine shown_toVersion.mp ⟨hseen, ?_⟩
      simp [RowColumnData.toVersion, htmax]
    rw [newestShown_of_shows hshows, Option.some.injEq] at hv
    exact hv ▸ ⟨hseen.1, htmax⟩

theorem CellHas.updatable_newest (h : CellHas f cell r rs) :
    Updatable r ↔ cell.Current (· ≠ invalidXtid) := by
  rw [h.current_iff]
  rfl

/-- What was found is what a call is made with. -/
theorem CellFetched.fetchedFrom {seen : Nat → Prop} (h : CellFetched t seen cell col)
    (hf : FileOk t.file rooms) :
    FetchedFrom t col.headItem col.old := by
  obtain ⟨page, hpage, hcopy⟩ := h.copy
  obtain ⟨r, rs, hhas, hold⟩ := h.old
  have hat := hhas.row
  rw [← h.pos] at hat
  obtain ⟨hitem, hstored⟩ := hat.stored hpage
  refine ⟨h.member, page, r, hpage, hitem.isItem, hcopy,
    hitem.rowOfItem hstored, hold.imp_right ?_⟩
  rintro ⟨own, snapshot, hshown⟩
  refine ⟨own, snapshot, walkedPages snapshot own r rs, rs.length + 1, fun depth hdepth => ?_⟩
  rw [← hshown]
  exact readVersion_eq hf hhas.chain depth (by omega)

/-- What was found is a version of the cell. -/
theorem CellFetched.fits {seen : Nat → Prop}
    (h : CellFetched t seen cell col) : col.old.Fits := by
  obtain ⟨r, rs, hhas, rfl | ⟨own, snapshot, hshown⟩⟩ := h.old
  · exact hhas.row.fits
  · rcases List.mem_cons.mp (List.mem_of_find?_eq_some hshown) with heq | hmem
    · exact heq ▸ hhas.row.fits
    · exact hhas.chain.fits _ hmem

/-- The scan has handed out row `i` of group `k`, and stands at it. -/
structure PositionOn (t : PaxTable) (groups : List (List VersionedRow)) (own : Nat)
    (snapshot : SnapShotInfo)
    (cols : List Nat) (pos : TableRowPosition) (k i : Nat) (row : VersionedRow) : Prop where
  file : pos.node.file = t.file
  fork : pos.node.groups = t.groups
  on : ScanOn t cols pos.scanPostionInfo k i
  rows : ∃ rows, groups[k]? = some rows ∧ rows[i]? = some row
  shown : RowShown t.file own snapshot cols row pos.rowData

/-- A column of the row is found at its cell. -/
theorem PositionOn.fetched {pos : TableRowPosition}
    (h : PositionOn t groups own snapshot cols pos k i row)
    (hstored : GroupsStored t groups) (hcols : cols ≠ []) (hrange : ∀ c ∈ cols, c < t.colNum)
    (hc : c < t.colNum) :
    ∃ cell col, row[c]? = some cell ∧ getColRowDataPos pos c = some col ∧
      getColRowDataEx pos c = some col.old ∧
      columnNow snapshot own cols row c = some col.old.value ∧
        CellFetched t (SeenIn snapshot own cols c) cell col := by
  obtain ⟨rooms, hf⟩ := hstored.ok.file
  obtain ⟨⟨item, hscan⟩, -, hoffsets⟩ := h.on
  obtain ⟨rows, hrows, hrow⟩ := h.rows
  have hgroup := hstored.get hscan.listed hrows
  have hitem := List.mem_of_getElem? hscan.listed
  have hlt : c < item.member.length := hstored.ok.columns item hitem ▸ hc
  have hmember : memberPage item.member c = item.member[c] := by simp [memberPage, hlt]
  have hhead : pos.scanPostionInfo.searchPageList.head? = some (itemOffsetOfIndex i) := by
    obtain ⟨c', cols', rfl⟩ := List.exists_cons_of_ne_nil hcols
    rw [hoffsets]
    rfl
  obtain ⟨hi, rfl⟩ := List.getElem?_eq_some_iff.mp hrow
  have hcells := hgroup.rows i hi
  have hlen : c < rows[i].length := List.Forall₂.length_eq hcells ▸ hlt
  have hcell : CellStored t.file item.member[c] (itemOffsetOfIndex i) rows[i][c] :=
    hcells.get hlt hlen
  have hcellpos : rows[i][c].pos = (item.member[c], itemOffsetOfIndex i) := hcell.pos
  obtain ⟨page, hpage, -, -⟩ := hgroup.pages _ (List.getElem_mem hlt)
  have hnum := hf.num _ _ hpage
  by_cases hmem : c ∈ cols
  · obtain ⟨j, hj⟩ := Option.isSome_iff_exists.mp (List.isSome_idxOf?.mpr hmem)
    obtain ⟨hjlt, hjc, -⟩ := List.idxOf?_eq_some_iff.mp hj
    have hjlt' : j < pos.rowData.length := h.shown.length_eq ▸ hjlt
    obtain ⟨cell, r, rs, hget, hhas, hnewest⟩ := h.shown.get hjlt hjlt'
    rw [List.get_eq_getElem, hjc, List.getElem?_eq_getElem hlen, Option.some.injEq] at hget
    subst hget
    have hcol : getColRowDataPos pos c =
        some ⟨⟨item.member[c], itemOffsetOfIndex i, page.item (itemOffsetOfIndex i)⟩,
          pos.rowData[j]⟩ := by
      have hpageno : pos.scanPostionInfo.pageList[j]? = some item.member[c] := by
        rw [hscan.pages, List.getElem?_map, List.getElem?_eq_getElem hjlt, hjc,
          Option.map_some, hmember]
      simp [getColRowDataPos, hhead, hscan.colindexList, hj, hjlt', hpageno,
        h.file, hpage, hnum]
    refine ⟨rows[i][c], _, List.getElem?_eq_getElem hlen, hcol, ?_, ?_,
      ⟨item, hitem, List.getElem_mem hlt⟩, hcellpos.symm,
      ⟨page, hpage, rfl⟩, ⟨r, rs, hhas, .inr ⟨own, snapshot, hnewest⟩⟩, ?_⟩
    · simp [getColRowDataEx, hscan.colindexList, hj, hjlt']
    · have hfind := find_toVersion snapshot own (r :: rs)
      rw [← hhas.versions, hnewest] at hfind
      rw [columnNow, List.getElem?_eq_getElem hlen, Option.bind_some, if_pos hmem]
      exact hfind
    · have hseen : SeenIn snapshot own cols c = snapshot.Sees own :=
        funext fun x => if_pos hmem
      rw [hseen]
      exact hhas.updatable_shown hnewest
  · obtain ⟨r, rs, hhas⟩ := hcell.has
    have hat := hhas.row
    rw [hcellpos] at hat
    have hpageno := hscan.group.getPageNoFromGroupInfo hlt
    have hidx : pos.scanPostionInfo.colindexList.idxOf? c = none :=
      List.idxOf?_eq_none_iff.mpr (hscan.colindexList ▸ hmem)
    have hfetch := hat.rowByIndex hf
    rw [hmember] at hpageno
    have hcol : getColRowDataPos pos c =
        some ⟨⟨item.member[c], itemOffsetOfIndex i, page.item (itemOffsetOfIndex i)⟩, r⟩ := by
      simp [getColRowDataPos, hhead, hidx, h.fork, hpageno, h.file, hfetch, hpage]
    refine ⟨rows[i][c], _, List.getElem?_eq_getElem hlen, hcol, ?_, ?_,
      ⟨item, hitem, List.getElem_mem hlt⟩, hcellpos.symm,
      ⟨page, hpage, rfl⟩, ⟨r, rs, hhas, .inl rfl⟩, ?_⟩
    · simp [getColRowDataEx, hhead, hidx, h.fork, hpageno, h.file, hfetch]
    · rw [columnNow, List.getElem?_eq_getElem hlen, Option.bind_some,
        if_neg hmem, hhas.versions]
      rfl
    · have hseen : SeenIn snapshot own cols c = (· ≠ invalidXtid) :=
        funext fun x => if_neg hmem
      rw [hseen]
      exact hhas.updatable_newest

/-- A column of the row as it was found. -/
structure FoundColumn (t : PaxTable) (own : Nat) (snapshot : SnapShotInfo) (cols : List Nat)
    (pos : TableRowPosition)
    (row : VersionedRow) (c : Nat) (cell : Cell (Nat × Int) Nat StoredValue)
    (col : FetchedColumn) : Prop where
  inRow : row[c]? = some cell
  position : getColRowDataPos pos c = some col
  column : getColRowDataEx pos c = some col.old
  value : columnNow snapshot own cols row c = some col.old.value
  fetched : CellFetched t (SeenIn snapshot own cols c) cell col

/-- All the columns that are asked for are found. -/
theorem PositionOn.columns {pos : TableRowPosition}
    (h : PositionOn t groups own snapshot cols pos k i row)
    (hstored : GroupsStored t groups) (hcols : cols ≠ [])
    (hrange : ∀ c ∈ cols, c < t.colNum) (cs : List Nat) (hcs : ∀ c ∈ cs, c < t.colNum) :
    ∃ found, List.Forall₂ (fun c col => ∃ cell,
      FoundColumn t own snapshot cols pos row c cell col) cs found := by
  induction cs with
  | nil => exact ⟨[], .nil⟩
  | cons c cs ih =>
    rw [List.forall_mem_cons] at hcs
    obtain ⟨cell, col, hcell, hposition, hcolumn, hvalue, hfetched⟩ :=
      h.fetched hstored hcols hrange hcs.1
    obtain ⟨found, hfound⟩ := ih hcs.2
    exact ⟨col :: found, .cons ⟨cell, hcell, hposition, hcolumn, hvalue, hfetched⟩ hfound⟩

/-- Where the cells of the row are. -/
theorem PositionOn.cells {pos : TableRowPosition}
    (h : PositionOn t groups own snapshot cols pos k i row)
    (hstored : GroupsStored t groups) :
    ∃ item rows, t.groupList[k]? = some item ∧ groups[k]? = some rows ∧
      item.member.length = t.colNum ∧ row.length = t.colNum ∧ item.member.Nodup ∧
      ∀ (c : Nat) cell, row[c]? = some cell → ∃ no,
        item.member[c]? = some no ∧ cell.pos = (no, itemOffsetOfIndex i) := by
  obtain ⟨⟨item, hscan⟩, -, -⟩ := h.on
  obtain ⟨rows, hrows, hrow⟩ := h.rows
  obtain ⟨hi, rfl⟩ := List.getElem?_eq_some_iff.mp hrow
  have hitem := List.mem_of_getElem? hscan.listed
  have hcells := (hstored.get hscan.listed hrows).rows i hi
  have hmember := hstored.ok.columns item hitem
  refine ⟨item, rows, hscan.listed, hrows, hmember,
    (List.Forall₂.length_eq hcells).symm.trans hmember,
    (List.nodup_flatMap.mp hstored.ok.apart).1 item hitem, fun c cell hcell => ?_⟩
  obtain ⟨hc, rfl⟩ := List.getElem?_eq_some_iff.mp hcell
  have hlt : c < item.member.length := List.Forall₂.length_eq hcells ▸ hc
  exact ⟨item.member[c], List.getElem?_eq_getElem hlt, (hcells.get hlt hc).pos⟩

/-! ## What a write leaves -/

theorem CellHas.frame {T : Nat → Int → Prop} (h : CellHas f cell r rs)
    (hframe : RowsFrame f f' T) (hT : ¬ T cell.pos.1 cell.pos.2) : CellHas f' cell r rs :=
  ⟨hframe.isDataPage h.page, hframe.rows _ _ _ hT h.row, hframe.undoChain h.chain,
    h.older, h.versions⟩

/-- A column on another page is found as before. -/
theorem CellFetched.step {seen : Nat → Prop} {no : Nat} {o : Int}
    (h : CellFetched t seen cell col)
    (hstep : CellStep t.file f' no o) (hne : col.headItem.pageno ≠ no) :
    CellFetched { t with file := f' } seen cell col := by
  obtain ⟨page, hpage, hcopy⟩ := h.copy
  obtain ⟨r, rs, hhas, hold⟩ := h.old
  have hpos : cell.pos.1 = col.headItem.pageno := by rw [← h.pos, HeapItemData.pos]
  have htype : page.pageType = .data := by
    obtain ⟨page', hpage', htype⟩ := hhas.page
    rw [hpos, hpage, Option.some.injEq] at hpage'
    exact hpage' ▸ htype
  obtain ⟨page', hpage', -, hsame⟩ := hstep.pages _ page hpage htype
  refine ⟨h.member, h.pos, ⟨page', hpage', by rw [hcopy, (hsame hne).item]⟩,
    ⟨r, rs, hhas.frame hstep.frame fun hT => hne ?_, hold⟩, h.updatable⟩
  rw [← hpos, hT.1]

/-- The cells behind row `i` of group `k` are elsewhere. -/
theorem GroupsStored.pos_behind (h : GroupsStored t groups) {item : GroupItem}
    (hitem : t.groupList[k]? = some item)
    (hrows : groups[k]? = some rows) {no : Nat} (hno : no ∈ item.member) :
    ∀ row ∈ rowsFrom groups k (i + 1), ∀ cell ∈ row,
      cell.pos ≠ (no, itemOffsetOfIndex i) := by
  intro row hrow cell hcell hpos
  rw [rowsFrom_some hrows, List.mem_append] at hrow
  rcases hrow with hrow | hrow
  · obtain ⟨j, hj, rfl⟩ := List.getElem_of_mem hrow
    rw [List.getElem_drop] at hcell
    rw [List.length_drop] at hj
    have hstored := (h.get hitem hrows).rows (i + 1 + j) (by omega)
    obtain ⟨c, hc, rfl⟩ := List.getElem_of_mem hcell
    have hmember : c < item.member.length := List.Forall₂.length_eq hstored ▸ hc
    have hcellpos := (hstored.get hmember hc).pos
    simp only [List.get_eq_getElem] at hcellpos
    rw [hpos, Prod.mk.injEq] at hcellpos
    have hindex := itemOffsetOfIndex_inj hcellpos.2
    omega
  · obtain ⟨hk, hget⟩ := List.getElem?_eq_some_iff.mp hitem
    have hsplit : t.groupList = t.groupList.take k ++ item :: t.groupList.drop (k + 1) := by
      rw [← hget, ← List.drop_eq_getElem_cons hk, List.take_append_drop]
    obtain ⟨item', hitem', no', hno', index, hstored⟩ :=
      groupsStored_cell (List.forall₂_drop (k + 1) h.groups)
        (List.mem_flatten.mpr ⟨row, hrow, hcell⟩)
    have hcellpos := hstored.pos
    rw [hpos, Prod.mk.injEq] at hcellpos
    exact apart_split hsplit h.ok.apart item'
      (List.mem_append_right _ hitem') no' hno' (hcellpos.1 ▸ hno)

/-- Different columns of the row are on different pages, and no row behind it has a cell where
they are. -/
theorem PositionOn.apart {pos : TableRowPosition}
    (h : PositionOn t groups own snapshot cols pos k i row)
    (hstored : GroupsStored t groups) {cs : List Nat} (hnodup : cs.Nodup)
    {found : List FetchedColumn} (hfound : List.Forall₂ (fun c col => ∃ cell,
      FoundColumn t own snapshot cols pos row c cell col) cs found) :
    (found.map fun col => col.headItem.pageno).Nodup ∧
      ∀ col ∈ found, ∀ row ∈ rowsFrom groups k (i + 1), ∀ cell ∈ row,
        cell.pos ≠ col.headItem.pos := by
  obtain ⟨item, rows, hlisted, hrows, -, -, hmember, hcells⟩ := h.cells hstored
  have hplace :
      List.Forall₂ (fun c col => item.member[c]? = some (FetchedColumn.headItem col).pageno ∧
      col.headItem.pos = (col.headItem.pageno, itemOffsetOfIndex i)) cs found := by
    refine hfound.imp fun c col ⟨cell, hcol⟩ => ?_
    obtain ⟨no, hno, hpos⟩ := hcells c cell hcol.inRow
    have heq := hcol.fetched.pos.trans hpos
    obtain rfl : col.headItem.pageno = no := congrArg Prod.fst heq
    exact ⟨hno, heq⟩
  clear hfound
  induction hplace with
  | nil => exact ⟨List.nodup_nil, fun _ hmem => absurd hmem List.not_mem_nil⟩
  | @cons c col cs found hfirst hrest ih =>
    rw [List.nodup_cons] at hnodup
    obtain ⟨hpages, hbehind⟩ := ih hnodup.2
    have hno := List.mem_of_getElem? hfirst.1
    refine ⟨?_, List.forall_mem_cons.mpr ⟨?_, hbehind⟩⟩
    · rw [List.map_cons, List.nodup_cons]
      refine ⟨fun hmem => hnodup.1 ?_, hpages⟩
      obtain ⟨col', hcol', hsame⟩ := List.mem_map.mp hmem
      obtain ⟨c', hc', hplaced, -⟩ :=
        forall₂_exists_right ((List.forall₂_and_left _ _).mpr ⟨fun _ hc => hc, hrest⟩)
          col' hcol'
      have heq : item.member[c]? = item.member[c']? := by rw [hfirst.1, hplaced, hsame]
      have hlt := (List.getElem?_eq_some_iff.mp hfirst.1).1
      exact (List.getElem?_inj hlt hmember).mp heq ▸ hc'
    · rw [hfirst.2]
      exact hstored.pos_behind hlisted hrows hno

theorem rowsFrom_modifyCell {pos : Nat × Int} {n : Nat}
    (h : ∀ row ∈ rowsFrom groups k n, ∀ cell ∈ row, cell.pos ≠ pos)
    (F : Cell (Nat × Int) Nat StoredValue → Cell (Nat × Int) Nat StoredValue) :
    rowsFrom (groups.map (Table.modifyCell pos F)) k n = rowsFrom groups k n := by
  refine Eq.trans ?_ (Table.modifyCell_eq h F)
  have hmap : Table.modifyCell pos F =
      List.map (List.map fun cell => if cell.pos = pos then F cell else cell) := rfl
  rw [hmap, rowsFrom, rowsFrom, List.getElem?_map, List.map_append, List.map_drop,
    List.map_flatten, List.map_drop]
  cases groups[k]? <;> rfl

/-! ## Column after column -/

/-- A call for the change, as it went. -/
def Attempts (change : StoredChange) (s : TableStore) (done : Bool)
    (s' : TableStore) : Prop :=
  ∃ call, StoreCall.change s' call = some change ∧ CallOk s call ∧
    Returns (fun fuel => storeStep fuel s call) (done, s')

/-- The attempts up to the first that is refused are a history. -/
theorem feeds_storeRuns {ι : Type*} {R : ι → TableStore → Bool → TableStore → Prop}
    {change : ι → StoredChange}
    (hR : ∀ i s done s', R i s done s' → Attempts (change i) s done s')
    {is : List ι} {s s' : TableStore} {ok : Bool} {n : Nat} (h : Feeds R is s (ok, n) s') :
    StoreRuns s ((is.take n).map change) s' := by
  generalize hr : (ok, n) = r at h
  induction h generalizing n with
  | nil =>
    cases hr
    exact .nil
  | taken hfirst _ ih =>
    cases hr
    obtain ⟨call, hchange, hcall, hstep⟩ := hR _ _ _ _ hfirst
    have hruns := StoreRuns.done hcall hstep (ih rfl)
    rwa [hchange] at hruns
  | refused hfirst =>
    cases hr
    obtain ⟨call, -, hcall, hstep⟩ := hR _ _ _ _ hfirst
    exact .failed hcall hstep .nil

section

variable {α β : Type} {Ready : PaxTable → α → β → Prop} {place : β → HeapItemData}
  {write : β → TableFile → Bool × TableFile} {R : α → TableStore → Bool → TableStore → Prop}
  {scanInfo : InsertScanInfo}
  {cost limit n : Nat}

/-- A write of what is ready changes its cell, at the cost of some pages. -/
def WritesCell (Ready : PaxTable → α → β → Prop) (place : β → HeapItemData)
    (write : β → TableFile → Bool × TableFile)
    (R : α → TableStore → Bool → TableStore → Prop) (scanInfo : InsertScanInfo)
    (cost limit : Nat) : Prop :=
  ∀ t groups a b, GroupsStored t groups → Ready t a b → t.file.pageCnt + cost ≤ limit →
    ∃ done f', write b t.file = (done, f') ∧
      R a ⟨t, scanInfo⟩ done ⟨{ t with file := f' }, scanInfo⟩ ∧
      CellStep t.file f' (place b).pageno (place b).itemOffset ∧
        f'.pageCnt ≤ t.file.pageCnt + cost ∧
      ∃ F, GroupsStored { t with file := f' } (groups.map (Table.modifyCell (place b).pos F))

/-- The columns of a row, which are on pages of their own, are written up to the first that is
refused. What is behind the row stays. -/
theorem GroupsStored.writeColumns
    (hwrite : WritesCell Ready place write R scanInfo cost limit)
    (hready : ∀ t f' a b no o, Ready t a b → CellStep t.file f' no o → (place b).pageno ≠ no →
      Ready { t with file := f' } a b) (h : GroupsStored t groups) {as : List α} {bs : List β}
    (hbs : List.Forall₂ (Ready t) as bs) (hpages : (bs.map fun b => (place b).pageno).Nodup)
    (hbehind : ∀ b ∈ bs, ∀ row ∈ rowsFrom groups k n, ∀ cell ∈ row, cell.pos ≠ (place b).pos)
    (hlimit : t.file.pageCnt + cost * bs.length ≤ limit) :
    ∃ ok m f', pour (fun b f => some (write b f)) bs t.file = some (ok, f') ∧
      Feeds R as ⟨t, scanInfo⟩ (ok, m) ⟨{ t with file := f' }, scanInfo⟩ ∧
      f'.pageCnt ≤ t.file.pageCnt + cost * bs.length ∧
      ∃ groups', GroupsStored { t with file := f' } groups' ∧
        rowsFrom groups' k n = rowsFrom groups k n ∧
        groups'.map List.length = groups.map List.length := by
  induction bs generalizing t groups as with
  | nil =>
    cases hbs
    exact ⟨true, 0, t.file, rfl, .nil, Nat.le_add_right _ _, groups, h, rfl, rfl⟩
  | cons b bs ih =>
    obtain ⟨a, as, hfirst, hrest, rfl⟩ := List.forall₂_cons_right_iff.mp hbs
    rw [List.map_cons, List.nodup_cons] at hpages
    rw [List.forall_mem_cons] at hbehind
    rw [List.length_cons, Nat.mul_succ] at hlimit
    obtain ⟨done, f₁, hdone, hR, hstep, hcost, F, hgroups⟩ :=
      hwrite t groups a b h hfirst (by omega)
    have hkept := rowsFrom_modifyCell hbehind.1 F
    have hshape : (groups.map (Table.modifyCell (place b).pos F)).map List.length =
        groups.map List.length := by
      rw [List.map_map]
      exact List.map_congr_left fun rows _ => List.length_map _
    cases done with
    | false =>
      refine ⟨false, 0, f₁, by simp [pour, hdone], .refused hR, ?_, _, hgroups, hkept, hshape⟩
      rw [List.length_cons, Nat.mul_succ]
      omega
    | true =>
      have hready₁ : List.Forall₂ (Ready { t with file := f₁ }) as bs := by
        refine List.forall₂_iff_get.mpr ⟨hrest.length_eq, fun j hj hj' => ?_⟩
        refine hready t f₁ _ _ _ _ (hrest.get hj hj') hstep fun heq => hpages.1 ?_
        exact heq ▸ List.mem_map_of_mem (List.getElem_mem hj')
      obtain ⟨ok, m, f', hpour, hfeeds, hcost', groups', hgroups', hsame, hshape'⟩ :=
        ih hgroups hready₁ hpages.2 (hkept ▸ hbehind.2) (by dsimp only; omega)
      refine ⟨ok, m + 1, f', by simpa [pour, hdone] using hpour, .taken hR hfeeds, ?_,
        groups', hgroups', hsame.trans hkept,
        hshape'.trans hshape⟩
      rw [List.length_cons, Nat.mul_succ]
      dsimp only at hcost'
      omega

end

/-- The loops of the source over the columns. -/
theorem pour_loop {β : Type} {write : β → TableFile → Bool × TableFile}
    {loop : List β → TableFile → Bool × TableFile} (hnil : ∀ f, loop [] f = (true, f))
    (hcons : ∀ b bs f, loop (b :: bs) f = if (write b f).1 then loop bs (write b f).2
      else (false, (write b f).2))
    (bs : List β) (f : TableFile) :
    pour (fun b f => some (write b f)) bs f = some (loop bs f) := by
  induction bs generalizing f with
  | nil => rw [hnil, pour]
  | cons b bs ih =>
    simp only [pour, hcons, Option.bind_some, ih]
    split <;> rfl

/-! ## DELETE -/

theorem deleteColumns_pour (curr : Nat) (cols : List FetchedColumn) (f : TableFile) :
    pour (fun col f => some (paxExecDelete curr col f)) cols f =
      some (deleteColumns curr cols f) :=
  pour_loop (fun _ => rfl) (fun col cols f => by
    rw [deleteColumns]
    rcases paxExecDelete curr col f with ⟨_ | _, f₁⟩ <;> rfl) cols f

/-- The delete of a cell in a column, which is refused unless it is current. -/
def Deletes (curr : Xtid) (snapshot : SnapShotInfo) (cols : List Nat)
    (item : Cell (Nat × Int) Nat StoredValue × Nat)
    (s : TableStore) (done : Bool) (s' : TableStore) : Prop :=
  Attempts (.delete curr item.1.pos) s done s' ∧
    (done = true ↔ item.1.Current (SeenIn snapshot curr cols item.2))

theorem paxExecDelete_done {no : Nat} {page : PageDataHeader} (hf : FileOk f rooms)
    (hpage : f.page no = some page) (hno : col.headItem.pageno = no) (curr : Nat) :
    (paxExecDelete curr col f).1 = true ↔ Updatable col.old := by
  rw [Updatable, ← updateSatisfy_iff curr, paxExecDelete, hno, hf.getPageByIndex, hpage]
  by_cases htest : tupleUpdateSatisfy curr col.old.headerData = .ok <;> simp [htest]

theorem writesCell_delete (curr : Xtid) (snapshot : SnapShotInfo) (cols : List Nat)
    (scanInfo : InsertScanInfo) (limit : Nat) :
    WritesCell (fun t (item : Cell (Nat × Int) Nat StoredValue × Nat) col =>
        CellFetched t (SeenIn snapshot curr cols item.2) item.1 col) FetchedColumn.headItem
          (paxExecDelete curr)
      (Deletes curr snapshot cols) scanInfo 0 limit := by
  intro t groups item col h hfetched _
  obtain ⟨rooms, hf⟩ := h.ok.file
  obtain ⟨page, hpage, -⟩ := hfetched.copy
  have hfrom := hfetched.fetchedFrom hf
  have hcurrent := (paxExecDelete_done hf hpage rfl curr).trans hfetched.updatable
  obtain ⟨done, f', hdone⟩ : ∃ done f', paxExecDelete curr col t.file = (done, f') :=
    ⟨_, _, rfl⟩
  obtain ⟨hstep, hchange⟩ := h.delete curr hfrom hdone
  rw [hdone] at hcurrent
  have hcnt : f'.pageCnt ≤ t.file.pageCnt + 0 := by
    rw [paxExecDelete] at hdone
    split at hdone
    · rw [← (Prod.mk.inj hdone).2]
      exact le_rfl
    · split at hdone <;> exact (Prod.mk.inj hdone).2 ▸ le_rfl
  refine ⟨done, f', hdone,
    ⟨⟨.delete curr col, by rw [← hfetched.pos]; rfl, hfrom, 0, fun fuel _ => ?_⟩, hcurrent⟩,
    hstep,
    hcnt, ?_⟩
  · simp [storeStep, hdone, TableStore.setFile]
  · cases done with
    | false =>
      refine ⟨id, ?_⟩
      rwa [List.map_congr_left fun rows _ => modifyCell_id _ rows, List.map_id']
    | true => exact ⟨_, hchange.2⟩

/-! ## UPDATE -/

theorem updateColumns_pour (curr : Nat) (us : List ColumnUpdate) (f : TableFile) :
    pour (fun u f => some (paxExecUpdate curr u f)) us f = some (updateColumns curr us f) :=
  pour_loop (fun _ => rfl) (fun u us f => by
    rw [updateColumns]
    rcases paxExecUpdate curr u f with ⟨_ | _, f₁⟩ <;> rfl) us f

/-- A cell that is given a new value, with its column. -/
structure CellWrite where
  cell : Cell (Nat × Int) Nat StoredValue
  column : Nat
  value : StoredValue

/-- The update of a cell, which is refused unless it is current. -/
def Writes (curr : Xtid) (snapshot : SnapShotInfo) (cols : List Nat) (item : CellWrite)
    (s : TableStore) (done : Bool) (s' : TableStore) : Prop :=
  Attempts (.write curr item.cell.pos item.value) s done s' ∧
    (done = true ↔ item.cell.Current (SeenIn snapshot curr cols item.column))

/-- The update of a cell with a value that is no longer than the old one. -/
structure WriteReady (own : Nat) (snapshot : SnapShotInfo) (cols : List Nat)
    (t : PaxTable) (item : CellWrite) (u : ColumnUpdate) : Prop where
  fetched : CellFetched t (SeenIn snapshot own cols item.column) item.cell ⟨u.headItem, u.old⟩
  value : u.row.value = item.value
  size : u.old.size ≤ u.oldRowSize
  fits : u.row.Fits
  stays : u.row.size ≤ u.old.size
  space : ¬ TooLarge (itemSize + u.oldRowSize)

theorem WriteReady.step {item : CellWrite} {u : ColumnUpdate} {no : Nat} {o : Int}
    (h : WriteReady own snapshot cols t item u) (hstep : CellStep t.file f' no o)
    (hne : u.headItem.pageno ≠ no) :
    WriteReady own snapshot cols { t with file := f' } item u :=
  ⟨h.fetched.step hstep hne, h.value, h.size, h.fits, h.stays, h.space⟩

theorem writesCell_update (curr : Xtid) (snapshot : SnapShotInfo) (cols : List Nat)
    (scanInfo : InsertScanInfo) {limit : Nat} (hlimit : limit < 2 ^ 32) :
    WritesCell (WriteReady curr snapshot cols) ColumnUpdate.headItem (paxExecUpdate curr)
      (Writes curr snapshot cols)
      scanInfo 1 limit := by
  intro t groups item u h hready hcount
  obtain ⟨rooms, hf⟩ := h.ok.file
  have hfrom : FetchedFrom t u.headItem u.old := hready.fetched.fetchedFrom hf
  have hupdate : UpdateReady t u :=
    ⟨hfrom, hready.size, hready.fits, fun _ _ => .inl hready.stays, by omega⟩
  obtain ⟨page, r, rs, hread, -, -⟩ := h.tableStored.columnRead hfrom hready.size hready.fits
  have hrefused := hread.refused_links h.links curr.lt
  have hcurrent := hready.fetched.updatable
  obtain ⟨done, f', hdone⟩ : ∃ done f', paxExecUpdate curr u t.file = (done, f') :=
    ⟨_, _, rfl⟩
  have hcnt := paxExecUpdate_pageCnt hready.stays curr t.file
  obtain ⟨hstep, hchange⟩ := h.update curr hupdate hdone
  rw [hdone] at hrefused hcnt
  have htest : done = true ↔ item.cell.Current (SeenIn snapshot curr cols item.column) := by
    have hsize : ¬ u.old.size < u.row.size := Nat.not_lt.mpr hready.stays
    rw [← hcurrent, Updatable, ← updateSatisfy_iff curr, ← Bool.not_eq_false, hrefused]
    simp [hready.space, hsize]
  refine ⟨done, f', hdone, ⟨⟨.update curr u, ?_, hupdate, 0, fun fuel _ => ?_⟩, htest⟩,
    hstep, hcnt, ?_⟩
  · rw [← hready.fetched.pos, ← hready.value]
    rfl
  · simp [storeStep, hdone, TableStore.setFile]
  · cases done with
    | false =>
      refine ⟨id, ?_⟩
      rwa [List.map_congr_left fun rows _ => modifyCell_id _ rows, List.map_id']
    | true => exact ⟨_, hchange.2⟩

end Toadb
