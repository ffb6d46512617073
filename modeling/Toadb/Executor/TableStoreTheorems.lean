/-
Toadb.Executor.TableStoreTheorems — a table in storage is a table of versions.

`TableStored` says that the pages of the groups hold the rows of a table of versions: item `i`
of the page of column `c` is the newest version of cell `c` of row `i` of the group, and its
undo chain has the older ones.

  * `TableStored.scan`: the sequential scan selects the rows that are shown to the snapshot.
  * `TableStored.step`: each call makes its change, or none when it reports an error.

An update has to leave the new version on the page (`StaysOnPage`): the scan does not find a
row behind a redirect item.
-/
import Toadb.Executor.TableStore
import Toadb.Executor.PaxInsertTheorems
import Toadb.Executor.ScanTableTheorems
import Toadb.Executor.UpdateRowTheorems
import Toadb.Executor.DeleteRowTheorems
import Toadb.Storage.ChainLinkTheorems
import Mathlib.Data.List.FinRange
import Mathlib.Data.List.TakeWhile

namespace Toadb

open VersionedTable Cursor

/-- The rows of a table of versions, as the storage has them. -/
abbrev VersionedRow := Row (Nat × Int) Nat StoredValue

abbrev StoredTable := Table (Nat × Int) Nat StoredValue

variable {f f' : TableFile} {rooms : Nat → Int → Nat} {no : Nat} {o : Int}
  {page : PageDataHeader}
  {r : RowColumnData} {rs : List RowColumnData} {T : Nat → Int → Prop} {own : Nat}
  {snapshot : SnapShotInfo}
  {cell : Cell (Nat × Int) Nat StoredValue} {cols : List Nat}

/-! ## What is stored -/

/-- Item `o` of data page `no` is the newest of the versions of a cell. -/
structure CellStored (f : TableFile) (no : Nat) (o : Int)
    (cell : Cell (Nat × Int) Nat StoredValue) : Prop where
  pos : cell.pos = (no, o)
  page : IsDataPage f no
  versions : ∃ r rs, RowAt f no o r ∧ UndoChain f r.headerData.undo rs ∧
    (∀ v ∈ rs, v.headerData.tmax ≠ invalidXtid) ∧
      cell.versions = (r :: rs).map RowColumnData.toVersion

/-- Item `index` of each page is a cell of the row. -/
def RowStored (f : TableFile) (member : List Nat) (index : Nat) (row : VersionedRow) : Prop :=
  List.Forall₂ (fun no cell => CellStored f no (itemOffsetOfIndex index) cell) member row

/-- The pages of a group hold the rows, and no others. -/
structure GroupStored (f : TableFile) (item : GroupItem)
    (rows : List VersionedRow) : Prop where
  pages : ∀ no ∈ item.member, ∃ page, f.page no = some page ∧ page.pageType = .data ∧
    page.dataOffset = itemOffsetOfIndex rows.length
  rows : ∀ index (h : index < rows.length), RowStored f item.member index rows[index]

/-- A table of versions in storage. -/
structure TableStored (t : PaxTable) (table : StoredTable) : Prop where
  ok : PaxOk t
  groups : ∃ rows, List.Forall₂ (GroupStored t.file) t.groupList rows ∧ table = rows.flatten
  links : ChainLinks t.file

/-- The same, group by group. -/
structure GroupsStored (t : PaxTable) (groups : List (List VersionedRow)) : Prop where
  ok : PaxOk t
  groups : List.Forall₂ (GroupStored t.file) t.groupList groups
  links : ChainLinks t.file

theorem TableStored.groupsStored {t : PaxTable} {table : StoredTable}
    (h : TableStored t table) :
    ∃ groups, GroupsStored t groups ∧ table = groups.flatten := by
  obtain ⟨groups, hgroups, heq⟩ := h.groups
  exact ⟨groups, ⟨h.ok, hgroups, h.links⟩, heq⟩

theorem GroupsStored.tableStored {t : PaxTable} {groups : List (List VersionedRow)}
    (h : GroupsStored t groups) :
    TableStored t groups.flatten :=
  ⟨h.ok, ⟨groups, h.groups, rfl⟩, h.links⟩

/-! ## Reading -/

theorem shown_toVersion : r.toVersion.Shown (snapshot.Sees own) ↔ snapshot.Shows own r := by
  simp only [Version.Shown, RowColumnData.toVersion, SnapShotInfo.Sees,
    SnapShotInfo.Shows, Option.mem_def]
  refine and_congr_right fun _ => ?_
  by_cases htmax : r.headerData.tmax = invalidXtid <;> simp [htmax]

/-- The version a snapshot is shown is the one a reader is shown. -/
theorem find_toVersion (snapshot : SnapShotInfo) (own : Nat) (versions : List RowColumnData) :
    ((versions.map RowColumnData.toVersion).find? fun v =>
      decide (v.Shown (snapshot.Sees own))).map Version.value =
      (snapshot.newestShown own versions).map RowColumnData.value := by
  have hcomp : (fun v : Version Nat StoredValue => decide (v.Shown (snapshot.Sees own))) ∘
      RowColumnData.toVersion =
      fun r => decide (snapshot.Shows own r) :=
        funext fun r => decide_eq_decide.mpr shown_toVersion
  rw [List.find?_map, hcomp, Option.map_map]
  rfl

theorem RowAt.isRowItem (h : RowAt f no o r) (hpage : f.page no = some page) :
    IsRowItem page o := (h.stored hpage).1

/-- All items of the pages of a group are rows. -/
theorem validFrom_eq {m k : Nat}
    (h : ∀ i, k ≤ i → i < k + m → (page.item (itemOffsetOfIndex i)).valid = true) :
    validFrom page m k = (List.range' k m).map itemOffsetOfIndex := by
  induction m generalizing k with
  | zero => rfl
  | succ m ih =>
    rw [validFrom, if_pos (h k le_rfl (by omega)),
      ih fun i hi hlt => h i (by omega) (by omega)]
    rfl

/-- The versions of the cells of a row, in columns that were not moved. -/
def RowIs (row : VersionedRow) (tableRow : TableRow) (colNum : Nat) : Prop :=
  (∀ c, tableRow.moved c = false) ∧ ∀ c < colNum, ∃ cell, row[c]? = some cell ∧
    cell.versions = (tableRow.versions c).map RowColumnData.toVersion

theorem RowStored.tableRow {member : List Nat} {index : Nat} {row : VersionedRow}
    (hf : FileOk f rooms)
    (h : RowStored f member index row) : ∃ tableRow, RowIs row tableRow member.length ∧
      ∀ c < member.length, ∀ page, f.page (memberPage member c) = some page →
        ColumnItem f (memberPage member c) c page (itemOffsetOfIndex index) tableRow := by
  have hcell : ∀ c, ∃ versions : List RowColumnData, ∀ hc : c < member.length,
      (∃ r rs, RowAt f member[c] (itemOffsetOfIndex index) r ∧ IsDataPage f member[c] ∧
        UndoChain f r.headerData.undo rs ∧ versions = r :: rs) ∧
      ∃ cell, row[c]? = some cell ∧ cell.versions = versions.map RowColumnData.toVersion := by
    intro c
    by_cases hc : c < member.length
    · have hrow : c < row.length := h.length_eq ▸ hc
      obtain ⟨-, hpage, r, rs, hat, hchain, -, hversions⟩ := h.get hc hrow
      exact ⟨r :: rs, fun _ =>
        ⟨⟨r, rs, hat, hpage, hchain, rfl⟩, row[c], by simp [hrow], hversions⟩⟩
    · exact ⟨[], fun hlt => absurd hlt hc⟩
  choose versions hversions using hcell
  refine ⟨⟨versions, fun _ => false⟩, ⟨fun _ => rfl, fun c hc => (hversions c hc).2⟩,
    fun c hc page hpage => ?_⟩
  have hmember : memberPage member c = member[c] := by simp [memberPage, hc]
  rw [hmember] at hpage ⊢
  obtain ⟨⟨r, rs, hat, hdata, hchain, heq⟩, -⟩ := hversions c hc
  exact ⟨(hat.isRowItem hpage).redirect, r, rs, ⟨⟨rooms, hf⟩, ⟨hdata, .inl hat⟩, hchain⟩, heq⟩

theorem getItemIndex_eq {n : Nat} (h : page.dataOffset = itemOffsetOfIndex n) :
    getItemIndex page = n := by
  rw [getItemIndex, h, itemOffsetOfIndex_eq, getCurItemIndex, pageDataHeaderSize, itemSize]
  omega

variable {item : GroupItem} {rows : List VersionedRow}
  {tableRows : List TableRow} {colNum : Nat}

/-- A row is shown as a reader reads it. -/
theorem RowIs.read {row : VersionedRow} {tableRow : TableRow} (h : RowIs row tableRow colNum)
    (hrange : ∀ c ∈ cols, c < colNum) :
    (tableRow.shown snapshot own cols).map (List.map RowColumnData.value) = Row.read
    (snapshot.Sees own) cols row := by
  have hcells : ∀ c ∈ cols, (row[c]?).bind (Cell.read (snapshot.Sees own)) =
      (snapshot.newestShown own (tableRow.versions c)).map RowColumnData.value := by
    intro c hc
    obtain ⟨cell, hcell, hversions⟩ := h.2 c (hrange c hc)
    rw [hcell, Option.bind_some, Cell.read, hversions]
    exact find_toVersion snapshot own (tableRow.versions c)
  clear hrange
  induction cols with
  | nil => rfl
  | cons c cols ih =>
    rw [List.forall_mem_cons] at hcells
    have hrest := ih hcells.2
    simp only [TableRow.shown, Row.read] at hrest ⊢
    rw [List.mapM_cons, List.mapM_cons, hcells.1, ← hrest]
    cases snapshot.newestShown own (tableRow.versions c) with
    | none => rfl
    | some r =>
      cases cols.mapM fun c => snapshot.newestShown own (tableRow.versions c) <;> rfl

/-- The rows of a group as the scan finds them. -/
structure GroupReads (f : TableFile) (item : GroupItem) (colNum : Nat)
    (rows : List VersionedRow) (tableRows : List TableRow) : Prop where
  length : item.member.length = colNum
  rowIs : List.Forall₂ (fun row tableRow => RowIs row tableRow colNum) rows tableRows
  pages : ∀ c < colNum, ∃ page, f.page (memberPage item.member c) = some page ∧
    page.pageType = .data ∧
    page.dataOffset = itemOffsetOfIndex rows.length ∧
    List.Forall₂ (ColumnItem f (memberPage item.member c) c page)
      ((List.range' 0 rows.length).map itemOffsetOfIndex)
      tableRows

theorem GroupStored.reads (hf : FileOk f rooms) (h : GroupStored f item rows)
    (hlen : item.member.length = colNum) :
    ∃ tableRows, GroupReads f item colNum rows tableRows := by
  have hrow : ∀ index : Fin rows.length, ∃ tableRow,
      RowIs rows[index] tableRow item.member.length ∧
      ∀ c < item.member.length, ∀ page, f.page (memberPage item.member c) = some page →
        ColumnItem f (memberPage item.member c) c page (itemOffsetOfIndex index) tableRow :=
    fun index => (h.rows index index.2).tableRow hf
  choose tableRows hrows hitems using hrow
  rw [hlen] at hrows hitems
  refine ⟨List.ofFn tableRows, hlen,
    List.forall₂_iff_get.mpr ⟨by simp, fun i hi hi' => ?_⟩, fun c hc => ?_⟩
  · simpa using hrows ⟨i, hi⟩
  · have hno : memberPage item.member c ∈ item.member := by
      have hc : c < item.member.length := hlen ▸ hc
      simp [memberPage, hc]
    obtain ⟨page, hpage, htype, hend⟩ := h.pages _ hno
    refine ⟨page, hpage, htype, hend, List.forall₂_iff_get.mpr ⟨by simp, fun i hi hi' => ?_⟩⟩
    simpa using hitems ⟨i, by simpa using hi'⟩ c hc page hpage

theorem ColumnItem.valid {c : Nat} {tableRow : TableRow}
    (h : ColumnItem f no c page o tableRow)
    (hpage : f.page no = some page) : (page.item o).valid = true := by
  obtain ⟨-, r, rs, hversions, -⟩ := h
  obtain ⟨-, hat | ⟨page', hpage', -, hvalid, -⟩⟩ := hversions.head
  · exact (hat.isRowItem hpage).valid
  · rw [hpage, Option.some.injEq] at hpage'
    exact hpage' ▸ hvalid

/-- None of the rows was moved. -/
theorem GroupReads.readable (h : GroupReads f item colNum rows tableRows) :
    ∀ tableRow ∈ tableRows, tableRow.readable cols = true := by
  intro tableRow hmem
  obtain ⟨i, hi, rfl⟩ := List.getElem_of_mem hmem
  have hmoved := (h.rowIs.get (h.rowIs.length_eq ▸ hi) hi).1
  simpa [TableRow.readable] using fun c _ => hmoved c

/-- All items of the page of a column are valid. -/
theorem GroupReads.valid (h : GroupReads f item colNum rows tableRows)
    {c : Nat} (hc : c < colNum)
    (hpage : f.page (memberPage item.member c) = some page) {i : Nat} (hi : i < rows.length) :
    (page.item (itemOffsetOfIndex i)).valid = true := by
  obtain ⟨page', hpage', -, -, hitems⟩ := h.pages c hc
  rw [hpage, Option.some.injEq] at hpage'
  subst hpage'
  have hcolumn := hitems.get (i := i) (by simpa using hi) (h.rowIs.length_eq ▸ hi)
  have hvalid := ColumnItem.valid hcolumn hpage
  simpa using hvalid

/-- The rows of a group, for the scan. -/
theorem GroupStored.holds (hf : FileOk f rooms) (h : GroupStored f item rows)
    (hlen : item.member.length = colNum)
    (hrange : ∀ c ∈ cols, c < colNum) (snapshot : SnapShotInfo) (own : Nat) :
    ∃ group : TableGroup, GroupHolds f colNum item group ∧
      (scannedRows snapshot own cols group.rows).map (List.map RowColumnData.value) =
        Table.select (snapshot.Sees own) cols rows := by
  obtain ⟨tableRows, hreads⟩ := h.reads hf hlen
  refine ⟨⟨item.member, tableRows⟩, ⟨rfl, hlen, fun no hno => ?_, fun c hc => ?_⟩, ?_⟩
  · obtain ⟨page, hpage, -⟩ := h.pages no hno
    have hpos := (hf.bound no page hpage).1
    exact ⟨by rw [invalidPageNum]; omega, by rw [hpage]; rfl⟩
  · obtain ⟨page, hpage, htype, hend, hitems⟩ := hreads.pages c hc
    refine hf.columnAhead hpage htype ?_
    rwa [validItems, getItemIndex_eq hend,
      validFrom_eq fun i _ hi => hreads.valid hc hpage (by omega)]
  · rw [scannedRows, List.takeWhile_eq_self_iff.mpr hreads.readable,
      List.map_filterMap, Table.select]
    have hrows := hreads.rowIs
    clear hreads h
    induction hrows with
    | nil => rfl
    | cons hrow _ ih => rw [List.filterMap_cons, List.filterMap_cons, hrow.read hrange, ih]

variable {t t' : PaxTable} {table table' : StoredTable}

/-- The groups of a table, for the scan. -/
theorem groupsStored_hold (hf : FileOk f rooms) {items : List GroupItem}
    {groups : List (List VersionedRow)} (h : List.Forall₂ (GroupStored f) items groups)
    (hlen : ∀ item ∈ items, item.member.length = colNum)
    (hrange : ∀ c ∈ cols, c < colNum) (snapshot : SnapShotInfo) (own : Nat) :
    ∃ tableGroups : List TableGroup, List.Forall₂ (GroupHolds f colNum) items tableGroups ∧
      (scannedTable snapshot own cols tableGroups).map (List.map RowColumnData.value) =
        Table.select (snapshot.Sees own) cols groups.flatten := by
  induction h with
  | nil => exact ⟨[], .nil, rfl⟩
  | cons hgroup _ ih =>
    rw [List.forall_mem_cons] at hlen
    obtain ⟨group, hholds, hrows⟩ := hgroup.holds hf hlen.1 hrange snapshot own
    obtain ⟨tableGroups, hrest, hscanned⟩ := ih hlen.2
    refine ⟨group :: tableGroups, .cons hholds hrest, ?_⟩
    rw [scannedTable_cons, List.map_append, hrows, hscanned, List.flatten_cons,
      Table.select, Table.select,
      Table.select, List.filterMap_append]

/-- The scan selects what the snapshot is shown. -/
theorem TableStored.scan (h : TableStored t table) (snapshot : SnapShotInfo) (own : Nat)
    (hasc : Ascending cols) (hrange : ∀ c ∈ cols, c < t.colNum) :
    ∃ out, Returns (scanTable t.file t.groups own snapshot t.colNum cols) out ∧
      out.map (List.map RowColumnData.value) = table.select (snapshot.Sees own) cols := by
  obtain ⟨rows, hgroups, rfl⟩ := h.groups
  obtain ⟨rooms, hf⟩ := h.ok.file
  obtain ⟨tableGroups, hholds, hscanned⟩ :=
    groupsStored_hold hf hgroups h.ok.columns hrange snapshot own
  exact ⟨_, scanTable_ascending snapshot own hholds hasc hrange, hscanned⟩

/-! ## What a call leaves -/

/-- Every page keeps its type and its rows, but for the rows at `T`. -/
structure RowsFrame (f f' : TableFile) (T : Nat → Int → Prop) : Prop where
  types : ∀ no page, f.page no = some page → ∃ page',
    f'.page no = some page' ∧ page'.pageType = page.pageType
  rows : ∀ no o r, ¬ T no o → RowAt f no o r → RowAt f' no o r
  data : ∀ no o, T no o → IsDataPage f no

theorem FileStep.frame {P : RowColumnData → Prop} (h : FileStep f rooms f' P)
    (hstay : RowsStay f f' T)
    (hT : ∀ no o, T no o → IsDataPage f no) : RowsFrame f f' T := ⟨h.types, hstay.rows, hT⟩

theorem RowsFrame.isDataPage (h : RowsFrame f f' T) (hdata : IsDataPage f no) :
    IsDataPage f' no := by
  obtain ⟨page, hpage, htype⟩ := hdata
  obtain ⟨page', hpage', htype'⟩ := h.types no page hpage
  exact ⟨page', hpage', htype'.trans htype⟩

theorem RowsFrame.undoChain (h : RowsFrame f f' T) {pos : RowPosition}
    (hchain : UndoChain f pos rs) :
    UndoChain f' pos rs := by
  induction hchain with
  | last hnone => exact .last hnone
  | next hrow _ ih =>
    obtain ⟨⟨page, hpage, htype⟩, hat⟩ := hrow
    obtain ⟨page', hpage', htype'⟩ := h.types _ page hpage
    refine .next ⟨⟨page', hpage', htype'.trans htype⟩, h.rows _ _ _ (fun hT => ?_) hat⟩ ih
    -- An undo page is no data page.
    obtain ⟨dataPage, hdata, hdatatype⟩ := h.data _ _ hT
    rw [hpage, Option.some.injEq] at hdata
    rw [← hdata, htype] at hdatatype
    cases hdatatype

theorem RowsFrame.cellStored (h : RowsFrame f f' T) (hno : ¬ T no o)
    (hcell : CellStored f no o cell) :
    CellStored f' no o cell := by
  obtain ⟨hpos, hdata, r, rs, hat, hchain, holder, hversions⟩ := hcell
  exact ⟨hpos, h.isDataPage hdata, r, rs, h.rows no o r hno hat,
    h.undoChain hchain, holder, hversions⟩

theorem RowsFrame.rowStored (h : RowsFrame f f' T) {member : List Nat} {index : Nat}
    {row : VersionedRow} (hT : ∀ no ∈ member, ¬ T no (itemOffsetOfIndex index))
    (hrow : RowStored f member index row) :
    RowStored f' member index row := by
  unfold RowStored at hrow ⊢
  induction hrow with
  | nil => exact .nil
  | cons hcell _ ih =>
    rw [List.forall_mem_cons] at hT
    exact .cons (h.cellStored hT.1 hcell) (ih hT.2)

/-- A group whose pages have as many items as before, and none of them at `T`. -/
theorem RowsFrame.groupStored (h : RowsFrame f f' T) (hgroup : GroupStored f item rows)
    (hpages : ∀ no ∈ item.member, ∀ page, f.page no = some page → ∃ page',
      f'.page no = some page' ∧
      page'.dataOffset = page.dataOffset) (hT : ∀ no ∈ item.member, ∀ o, ¬ T no o) :
      GroupStored f' item rows := by
  refine ⟨fun no hno => ?_, fun index hindex =>
    h.rowStored (fun no hno => hT no hno _) (hgroup.rows index hindex)⟩
  obtain ⟨page, hpage, htype, hend⟩ := hgroup.pages no hno
  obtain ⟨page', hpage', hend'⟩ := hpages no hno page hpage
  obtain ⟨page'', hpage'', htype'⟩ := h.types no page hpage
  rw [hpage', Option.some.injEq] at hpage''
  subst hpage''
  exact ⟨page', hpage', htype'.trans htype, hend'.trans hend⟩

/-! ## Inserts -/

variable {pages : List Nat} {row : List NewRow} {index : Nat} {curr : Nat}

theorem Appends.rowAt {old new : PageDataHeader} {newRow : RowColumnData}
    (h : Appends old new newRow index)
    {room : Int → Nat} (hl : Layout old room) (hold : IsRowItem old o)
    (hstored : StoredAt old.bytes (old.item o).offset r) :
    IsRowItem new o ∧ StoredAt new.bytes (new.item o).offset r := by
  obtain ⟨⟨i, rfl, hlt⟩, hvalid, hredirect⟩ := hold
  have hi : i < index := by
    rw [h.atEnd, itemOffsetOfIndex_eq, itemOffsetOfIndex_eq] at hlt
    omega
  have hsame := h.items i hi
  obtain ⟨r', hstored', -, hlow, -⟩ := hl.row ⟨⟨i, rfl, hlt⟩, hvalid, hredirect⟩
  refine ⟨⟨⟨i, rfl, ?_⟩, hsame ▸ hvalid, hsame ▸ hredirect⟩, hstored.1, ?_⟩
  · rw [h.dataOffset, itemOffsetOfIndex_eq, itemOffsetOfIndex_eq]
    omega
  · rw [hsame, ← hstored.2]
    exact Bytes.read_congr fun a ha _ => h.bytes a (by omega)

theorem AppendsRow.column (h : AppendsRow curr f f' pages row index) (hno : no ∈ pages) :
    ∃ old new col, f.page no = some old ∧ f'.page no = some new ∧
      Appends old new (insertedRow curr col) index := by
  obtain ⟨i, hi, rfl⟩ := List.getElem_of_mem hno
  have hrow : i < row.length := h.length ▸ hi
  obtain ⟨old, new, hold, hnew, happends⟩ := h.columns (pages[i], row[i]) (by
    rw [← List.getElem_zip (h := by simp [hi, hrow])]
    exact List.getElem_mem _)
  exact ⟨old, new, row[i].1, hold, hnew, happends⟩

/-- Appended rows leave the others. -/
theorem AppendsRow.frame (h : AppendsRow curr f f' pages row index)
    (hlayout : ∀ no page, f.page no = some page → ∃ room, Layout page room) :
    RowsFrame f f' fun _ _ => False := by
  refine ⟨fun no page hpage => ?_, fun no o r _ hat => ?_, fun _ _ hfalse => hfalse.elim⟩
  · by_cases hno : no ∈ pages
    · obtain ⟨old, new, col, hold, hnew, happends⟩ := h.column hno
      rw [hpage, Option.some.injEq] at hold
      exact ⟨new, hnew, hold ▸ happends.pageType⟩
    · exact ⟨page, (h.others no hno).trans hpage, rfl⟩
  · obtain ⟨page, hpage, hitem, hstored⟩ := hat
    by_cases hno : no ∈ pages
    · obtain ⟨old, new, col, hold, hnew, happends⟩ := h.column hno
      rw [hpage, Option.some.injEq] at hold
      subst hold
      obtain ⟨room, hl⟩ := hlayout no page hpage
      exact ⟨new, hnew, happends.rowAt hl hitem hstored⟩
    · exact ⟨page, (h.others no hno).trans hpage, hitem, hstored⟩

theorem AddsGroup.frame {t₁ : PaxTable} (h : AddsGroup t t₁) :
    RowsFrame t.file t₁.file fun _ _ => False := by
  have hold : ∀ no page, t.file.page no = some page → t₁.file.page no = some page := by
    intro no page hpage
    rw [h.page, if_neg fun hno => by simp [h.fresh no hno] at hpage, hpage]
  refine ⟨fun no page hpage => ⟨page, hold no page hpage, rfl⟩, ?_,
    fun _ _ hfalse => hfalse.elim⟩
  rintro no o r - ⟨page, hpage, hrow⟩
  exact ⟨page, hold no page hpage, hrow⟩

theorem Appends.chain {old new : PageDataHeader} {newRow : RowColumnData}
    (h : Appends old new newRow index) (k : PageType) :
    new.chain k = old.chain k := by
  unfold PageDataHeader.chain
  split
  · exact h.extPage
  · exact h.undoPage

theorem AppendsRow.linksFrom (h : AppendsRow curr f f' pages row index)
    (hcounted : Counted f') : LinksFrom f f' := by
  refine ⟨hcounted, fun no page hpage => ?_, fun no page' hpage' k _ => .inr ?_⟩
  all_goals by_cases hno : no ∈ pages
  · obtain ⟨old, new, col, hold, hnew, happends⟩ := h.column hno
    rw [hpage, Option.some.injEq] at hold
    exact ⟨new, hnew, hold ▸ happends.pageType⟩
  · exact ⟨page, (h.others no hno).trans hpage, rfl⟩
  · obtain ⟨old, new, col, hold, hnew, happends⟩ := h.column hno
    rw [hpage', Option.some.injEq] at hnew
    exact ⟨no, old, hold, hnew ▸ happends.chain k⟩
  · exact ⟨no, page', (h.others no hno).symm.trans hpage', rfl⟩

theorem AddsGroup.linksFrom {t₁ : PaxTable} (h : AddsGroup t t₁)
    (hcounted : Counted t₁.file) :
    LinksFrom t.file t₁.file := by
  refine ⟨hcounted, h.frame.types, fun no page hpage k hk => ?_⟩
  rw [h.page] at hpage
  split at hpage
  · cases hpage
    exact .inl (.inl (by rcases hk with rfl | rfl <;> rfl))
  · exact .inr ⟨no, page, hpage, rfl⟩

/-- The new group is empty. -/
theorem AddsGroup.groupsStored {t₁ : PaxTable} (h : AddsGroup t t₁)
    {groups : List (List VersionedRow)}
    (hgroups : List.Forall₂ (GroupStored t.file) t.groupList groups) :
    List.Forall₂ (GroupStored t₁.file) t₁.groupList (groups ++ [[]]) := by
  rw [h.groups]
  refine List.rel_append (hgroups.imp fun item rows hgroup => ?_)
    (.cons ⟨fun no hno => ?_, by simp⟩ .nil)
  · refine h.frame.groupStored hgroup (fun no _ page hpage => ⟨page, ?_, rfl⟩)
      fun _ _ _ hfalse => hfalse
    rw [h.page, if_neg fun hno => by simp [h.fresh no hno] at hpage, hpage]
  · have hno : no ∈ t.newPages := hno
    exact ⟨initPage no, by rw [h.page, if_pos hno], rfl, rfl⟩

/-- The new row of a group. -/
theorem AppendsRow.rowStored (h : AppendsRow curr f f' pages row index)
    (hdata : ∀ no ∈ pages, IsDataPage f' no) :
    RowStored f' pages index (newRow curr (pages.map fun no => (no, itemOffsetOfIndex index))
      (row.map fun col => col.1.value)) := by
  unfold RowStored newRow
  refine List.forall₂_iff_get.mpr ⟨by simp [h.length], fun i hi hi' => ?_⟩
  have hrow : i < row.length := h.length ▸ hi
  obtain ⟨old, new, -, hnew, happends⟩ := h.columns (pages[i], row[i]) (by
    rw [← List.getElem_zip (h := by simp [hi, hrow])]
    exact List.getElem_mem _)
  have hitem : IsRowItem new (itemOffsetOfIndex index) := by
    refine ⟨⟨index, rfl, ?_⟩, by rw [happends.item], by rw [happends.item]⟩
    rw [happends.dataOffset, itemOffsetOfIndex_eq, itemOffsetOfIndex_eq]
    omega
  have hat : RowAt f' pages[i] (itemOffsetOfIndex index) (insertedRow curr row[i].1) :=
    ⟨new, hnew, hitem, by rw [happends.item]; exact happends.stored⟩
  refine ⟨by simp, hdata _ (List.getElem_mem hi), insertedRow curr row[i].1, [], hat,
    .last rfl, by simp, ?_⟩
  simp [RowColumnData.toVersion, insertedRow, computeXminTupleHeader, RowColumnData.value]

/-- One item of two related lists. -/
theorem forall₂_split {α β : Type*} {R : α → β → Prop} {items : List α}
    {groups : List β} {item : α} (h : List.Forall₂ R items groups) (hitem : item ∈ items) :
    ∃ before after groupsBefore group groupsAfter,
      items = before ++ item :: after ∧ groups = groupsBefore ++ group :: groupsAfter ∧
      List.Forall₂ R before groupsBefore ∧ R item group ∧
        List.Forall₂ R after groupsAfter := by
  induction h with
  | nil => cases hitem
  | @cons first group items groups hfirst hrest ih =>
    rcases List.mem_cons.mp hitem with rfl | hmem
    · exact ⟨[], items, [], group, groups, rfl, rfl, .nil, hfirst, hrest⟩
    · obtain ⟨before, after, groupsBefore, group', groupsAfter, rfl, rfl, hbefore,
          hgroup, hafter⟩ := ih hmem
      exact ⟨first :: before, after, group :: groupsBefore, group', groupsAfter, rfl, rfl,
        .cons hfirst hbefore, hgroup, hafter⟩

/-- Where the cells of a group are. -/
theorem GroupStored.cell_pos (h : GroupStored f item rows) (hcell : cell ∈ Table.cells rows) :
    ∃ no ∈ item.member, ∃ index < rows.length,
      CellStored f no (itemOffsetOfIndex index) cell := by
  obtain ⟨row, hrow, hmem⟩ := List.mem_flatten.mp hcell
  obtain ⟨index, hindex, rfl⟩ := List.getElem_of_mem hrow
  obtain ⟨c, hc, rfl⟩ := List.getElem_of_mem hmem
  have hstored := h.rows index hindex
  have hmember : c < item.member.length := hstored.length_eq ▸ hc
  exact ⟨item.member[c], List.getElem_mem _, index, hindex, hstored.get hmember hc⟩

theorem GroupStored.exists_cell (h : GroupStored f item rows)
    (hno : no ∈ item.member) {index : Nat} (hindex : index < rows.length) :
    ∃ cell ∈ Table.cells rows, CellStored f no (itemOffsetOfIndex index) cell := by
  obtain ⟨c, hc, rfl⟩ := List.getElem_of_mem hno
  have hstored := h.rows index hindex
  have hrow : c < rows[index].length := List.Forall₂.length_eq hstored ▸ hc
  exact ⟨rows[index][c],
    List.mem_flatten.mpr ⟨_, List.getElem_mem hindex, List.getElem_mem hrow⟩,
    hstored.get hc hrow⟩

theorem groupsStored_item {items : List GroupItem} {groups : List (List VersionedRow)}
    (h : List.Forall₂ (GroupStored f) items groups) (hitem : item ∈ items) :
    ∃ rows ∈ groups, GroupStored f item rows := by
  obtain ⟨-, -, -, rows, -, -, rfl, -, hgroup, -⟩ := forall₂_split h hitem
  exact ⟨rows, List.mem_append_right _ List.mem_cons_self, hgroup⟩

/-- Where the cells of a table are. -/
theorem groupsStored_cell {items : List GroupItem} {groups : List (List VersionedRow)}
    (h : List.Forall₂ (GroupStored f) items groups)
    (hcell : cell ∈ Table.cells groups.flatten) :
    ∃ item ∈ items, ∃ no ∈ item.member, ∃ index,
      CellStored f no (itemOffsetOfIndex index) cell := by
  induction h with
  | nil => cases hcell
  | @cons item rows items groups hgroup _ ih =>
    rw [List.flatten_cons, Table.cells, List.flatten_append, List.mem_append] at hcell
    rcases hcell with hfirst | hrest
    · obtain ⟨no, hno, index, -, hstored⟩ := hgroup.cell_pos hfirst
      exact ⟨item, List.mem_cons_self, no, hno, index, hstored⟩
    · obtain ⟨item', hitem', hfound⟩ := ih hrest
      exact ⟨item', List.mem_cons_of_mem _ hitem', hfound⟩

theorem itemOffsetOfIndex_inj {i j : Nat}
    (h : itemOffsetOfIndex i = itemOffsetOfIndex j) : i = j := by
  rw [itemOffsetOfIndex_eq, itemOffsetOfIndex_eq] at h
  omega

/-- The groups beside a group have pages of their own. -/
theorem apart_split {items before after : List GroupItem}
    (hitems : items = before ++ item :: after)
    (hapart : (items.flatMap GroupItem.member).Nodup) :
    ∀ item' ∈ before ++ after, ∀ no ∈ item'.member, no ∉ item.member := by
  intro item' hmem no hno hin
  rw [hitems, List.flatMap_append, List.flatMap_cons, List.nodup_append',
    List.nodup_append'] at hapart
  obtain ⟨-, ⟨-, -, hafter⟩, hbefore⟩ := hapart
  rcases List.mem_append.mp hmem with h | h
  · exact hbefore (List.mem_flatMap.mpr ⟨item', h, hno⟩) (List.mem_append_left _ hin)
  · exact hafter hin (List.mem_flatMap.mpr ⟨item', h, hno⟩)

/-- Groups without a page of the group that is written. -/
theorem RowsFrame.groupsStored (h : RowsFrame f f' T) {items : List GroupItem}
    {groups : List (List VersionedRow)}
    (hgroups : List.Forall₂ (GroupStored f) items groups)
    (hpages : ∀ item ∈ items, ∀ no ∈ item.member, ∀ page, f.page no = some page → ∃ page',
      f'.page no = some page' ∧
      page'.dataOffset = page.dataOffset)
    (hT : ∀ item ∈ items, ∀ no ∈ item.member, ∀ o, ¬ T no o) :
    List.Forall₂ (GroupStored f') items groups := by
  induction hgroups with
  | nil => exact .nil
  | cons hgroup _ ih =>
    rw [List.forall_mem_cons] at hpages hT
    exact .cons (h.groupStored hgroup hpages.1 hT.1) (ih hpages.2 hT.2)

/-- The columns of a row that is inserted into the pages of a group. -/
def insertedCells (curr : Nat) (member : List Nat) (index : Nat)
    (row : List NewRow) : VersionedRow :=
  newRow curr (member.map fun no => (no, itemOffsetOfIndex index))
    (row.map fun col => col.1.value)

/-- The index of the new row is the number of the rows before. -/
theorem AppendsRow.index_eq (h : AppendsRow curr f f' item.member row index)
    (hgroup : GroupStored f item rows) (hne : item.member ≠ []) : index = rows.length := by
  obtain ⟨no, hno⟩ := List.exists_mem_of_ne_nil _ hne
  obtain ⟨page, hpage, -, hend⟩ := hgroup.pages no hno
  obtain ⟨old, _, _, hold, -, happends⟩ := h.column hno
  rw [hpage, Option.some.injEq] at hold
  exact itemOffsetOfIndex_inj (happends.atEnd.symm.trans (hold ▸ hend))

theorem AppendsRow.groupStored (h : AppendsRow curr f f' item.member row index)
    (hgroup : GroupStored f item rows)
    (hlayout : ∀ no page, f.page no = some page → ∃ room, Layout page room)
    (hne : item.member ≠ []) :
    GroupStored f' item (rows ++ [insertedCells curr item.member index row]) := by
  have hframe := h.frame hlayout
  obtain rfl := h.index_eq hgroup hne
  refine ⟨fun no hno => ?_, fun i hi => ?_⟩
  · obtain ⟨page, hpage, htype, -⟩ := hgroup.pages no hno
    obtain ⟨old, new, col, hold, hnew, happends⟩ := h.column hno
    rw [hpage, Option.some.injEq] at hold
    refine ⟨new, hnew, happends.pageType.trans (hold ▸ htype), ?_⟩
    rw [happends.dataOffset, List.length_append, List.length_singleton]
  · rcases Nat.lt_or_ge i rows.length with hlt | hge
    · rw [List.getElem_append_left hlt]
      exact hframe.rowStored (fun _ _ hfalse => hfalse) (hgroup.rows i hlt)
    · obtain rfl : i = rows.length := by
        rw [List.length_append, List.length_singleton] at hi
        omega
      rw [List.getElem_concat_length rfl]
      refine h.rowStored fun no hno => ?_
      obtain ⟨page, hpage, htype, -⟩ := hgroup.pages no hno
      exact hframe.isDataPage ⟨page, hpage, htype⟩

/-- A row is appended to a group. -/
theorem AppendsRow.groupsStored (h : AppendsRow curr f f' item.member row index)
    (hlayout : ∀ no page, f.page no = some page → ∃ room, Layout page room)
    (hne : item.member ≠ []) {items : List GroupItem} {groups : List (List VersionedRow)}
    (hgroups : List.Forall₂ (GroupStored f) items groups)
    (hitem : item ∈ items) (hapart : (items.flatMap GroupItem.member).Nodup) :
    ∃ groups', List.Forall₂ (GroupStored f') items groups' ∧
      Step groups.flatten
        (.insert curr (item.member.map fun no => (no, itemOffsetOfIndex index))
        (row.map fun col => col.1.value)) groups'.flatten := by
  obtain ⟨before, after, groupsBefore, rows, groupsAfter, hitems, rfl,
      hbefore, hgroup, hafter⟩ :=
    forall₂_split hgroups hitem
  have hframe := h.frame hlayout
  have hothers := apart_split hitems hapart
  have hkept : ∀ item' ∈ before ++ after, ∀ no ∈ item'.member, ∀ page, f.page no = some page →
      ∃ page', f'.page no = some page' ∧ page'.dataOffset = page.dataOffset :=
    fun item' hitem' no hno page hpage =>
      ⟨page, (h.others no (hothers item' hitem' no hno)).trans hpage, rfl⟩
  refine ⟨groupsBefore ++ (rows ++ [insertedCells curr item.member index row]) :: groupsAfter,
    ?_, ?_⟩
  · rw [hitems]
    refine List.rel_append ?_ (.cons (h.groupStored hgroup hlayout hne) ?_)
    · exact hframe.groupsStored hbefore
        (fun item' hitem' => hkept item' (List.mem_append_left _ hitem'))
        fun _ _ _ _ _ hfalse => hfalse
    · exact hframe.groupsStored hafter
        (fun item' hitem' => hkept item' (List.mem_append_right _ hitem'))
        fun _ _ _ _ _ hfalse => hfalse
  · have hfresh :
        ∀ cell ∈ Table.cells ((groupsBefore.flatten ++ rows) ++ groupsAfter.flatten),
        cell.pos ∉ item.member.map fun no => (no, itemOffsetOfIndex index) := by
      intro cell hcell hpos
      obtain ⟨no, hno, heq⟩ := List.mem_map.mp hpos
      have hpos : ∀ {no' o'}, CellStored f no' o' cell →
          no' = no ∧ o' = itemOffsetOfIndex index := by
        intro no' o' hstored
        rw [hstored.pos, Prod.mk.injEq] at heq
        exact ⟨heq.1.symm, heq.2.symm⟩
      simp only [Table.cells, List.flatten_append, List.mem_append] at hcell
      rcases hcell with (hcell | hcell) | hcell
      · obtain ⟨item', hitem', no', hno', _, hstored⟩ := groupsStored_cell hbefore hcell
        exact hothers item' (List.mem_append_left _ hitem') no' hno' ((hpos hstored).1 ▸ hno)
      · obtain ⟨no', -, i, hi, hstored⟩ := hgroup.cell_pos hcell
        have heq := itemOffsetOfIndex_inj (hpos hstored).2
        have hindex := h.index_eq hgroup hne
        omega
      · obtain ⟨item', hitem', no', hno', _, hstored⟩ := groupsStored_cell hafter hcell
        exact hothers item' (List.mem_append_right _ hitem') no' hno' ((hpos hstored).1 ▸ hno)
    have hnodup : (item.member.map fun no => (no, itemOffsetOfIndex index)).Nodup :=
      ((List.nodup_flatMap.mp hapart).1 item hitem).map fun _ _ heq => (Prod.mk.inj heq).1
    have hlen : (item.member.map fun no => (no, itemOffsetOfIndex index)).length =
        (row.map fun col => col.1.value).length := by
      simp [h.length]
    have hstep := Step.insert (x := curr) hlen hnodup hfresh
    simpa [insertedCells] using hstep

/-- The new items are the last ones of their pages. -/
theorem AppendsRow.lastItems (h : AppendsRow curr f f' pages row index) :
    (pages.map fun no => (no, (f'.page no).elim 0 (·.dataOffset) - itemSize)) =
      pages.map fun no => (no, itemOffsetOfIndex index) := by
  refine List.map_congr_left fun no hno => ?_
  obtain ⟨_, new, _, -, hnew, happends⟩ := h.column hno
  rw [hnew, Option.elim_some, happends.dataOffset, itemOffsetOfIndex_eq,
    itemOffsetOfIndex_eq, itemSize]
  congr 1
  omega

/-- An insert that is a success. -/
theorem TableStored.insert (h : TableStored t table) (hok : PaxOk t')
    (hinserts : InsertsInto curr t row t' item) :
    ∃ table', Step table (.insert curr
        (item.member.map fun no => (no, (t'.file.page no).elim 0 (·.dataOffset) - itemSize))
        (row.map fun col => col.1.value)) table' ∧
      TableStored t' table' := by
  obtain ⟨groups, hgroups, rfl⟩ := h.groups
  obtain ⟨rooms, hf⟩ := h.ok.file
  obtain ⟨t₁, index, ht₁, hsame, hitem, happends, -⟩ := hinserts
  rw [happends.lastItems]
  have hlist : t'.groupList = t₁.groupList := by
    rw [PaxTable.groupList, hsame, PaxTable.groupList]
  have hfirst : ∃ groups₁, List.Forall₂ (GroupStored t₁.file) t₁.groupList groups₁ ∧
      groups₁.flatten = groups.flatten ∧ ∀ no page, t₁.file.page no = some page → ∃ room,
        Layout page room := by
    rcases ht₁ with rfl | hadds
    · exact ⟨groups, hgroups, rfl, fun no page hpage => ⟨_, hf.layout no page hpage⟩⟩
    · refine ⟨groups ++ [[]], hadds.groupsStored hgroups, by simp, fun no page hpage => ?_⟩
      rw [hadds.page] at hpage
      split at hpage
      · cases hpage
        exact ⟨_, (isEmptyPage_initPage no).layout⟩
      · exact ⟨_, hf.layout no page hpage⟩
  obtain ⟨groups₁, hgroups₁, hflatten, hlayout⟩ := hfirst
  have hne : item.member ≠ [] := by
    rw [← List.length_pos_iff, hok.columns item (hlist ▸ hitem)]
    exact hok.colNum
  obtain ⟨groups', hgroups', hstep⟩ :=
    happends.groupsStored hlayout hne hgroups₁ hitem (hlist ▸ hok.apart)
  rw [hflatten] at hstep
  obtain ⟨rooms', hf'⟩ := hok.file
  have hcounted : Counted t₁.file := by
    intro no page hpage
    rw [← happends.pageCnt]
    obtain ⟨page', hpage', -⟩ := (happends.frame hlayout).types no page hpage
    exact hf'.counted no page' hpage'
  have hlinks : ChainLinks t₁.file := by
    rcases ht₁ with rfl | hadds
    · exact h.links
    · exact (hadds.linksFrom hcounted).chainLinks h.links
  exact ⟨groups'.flatten, hstep, hok, ⟨groups', hlist ▸ hgroups', rfl⟩,
    (happends.linksFrom hf'.counted).chainLinks hlinks⟩

/-! ## Updates and deletes -/

theorem RowsFrame.mono {T' : Nat → Int → Prop} (h : RowsFrame f f' T)
    (himp : ∀ no o, T no o → T' no o)
    (hdata : ∀ no o, T' no o → IsDataPage f no) : RowsFrame f f' T' :=
  ⟨h.types, fun no o r hno => h.rows no o r fun hT => hno (himp no o hT), hdata⟩

theorem RowsFrame.modifyRow (h : RowsFrame f f' (Only no o))
    {F : Cell (Nat × Int) Nat StoredValue → Cell (Nat × Int) Nat StoredValue}
    (hcell : ∀ cell, CellStored f no o cell → CellStored f' no o (F cell))
    {member : List Nat} {index : Nat}
    {row : VersionedRow} (hrow : RowStored f member index row) :
    RowStored f' member index (row.map fun cell => if cell.pos = (no, o) then F cell
      else cell) := by
  unfold RowStored at hrow ⊢
  rw [List.forall₂_map_right_iff]
  refine hrow.imp fun no' cell hstored => ?_
  split
  · rename_i hpos
    rw [hstored.pos, Prod.mk.injEq] at hpos
    obtain ⟨rfl, hpos⟩ := hpos
    rw [hpos] at hstored ⊢
    exact hcell cell hstored
  · rename_i hpos
    refine h.cellStored (fun hT => hpos ?_) hstored
    rw [hstored.pos, hT.1, hT.2]

variable {groups : List (List VersionedRow)}

/-- A step that leaves every page its items and every row but the one at item `o` of page
`no`. -/
structure CellStep (f f' : TableFile) (no : Nat) (o : Int) : Prop where
  ok : ∃ rooms, FileOk f' rooms
  head : 0 < f'.pageCnt
  frame : RowsFrame f f' (Only no o)
  pages : ∀ other page, f.page other = some page → page.pageType = .data → ∃ page',
    f'.page other = some page' ∧
    page'.dataOffset = page.dataOffset ∧ (other ≠ no → SameRows page page')
  links : LinksFrom f f'

/-- One cell of a table is changed. -/
theorem GroupsStored.modifyCell (h : GroupsStored t groups) (hstep : CellStep t.file f' no o)
    {F : Cell (Nat × Int) Nat StoredValue → Cell (Nat × Int) Nat StoredValue}
    (hcell : ∀ cell, CellStored t.file no o cell → CellStored f' no o (F cell)) :
    GroupsStored { t with file := f' } (groups.map (Table.modifyCell (no, o) F)) := by
  have hmember : ∀ item ∈ t.groupList, ∀ no ∈ item.member, IsDataPage t.file no := by
    intro item hitem no hno
    obtain ⟨rows, -, hgroup⟩ := groupsStored_item h.groups hitem
    obtain ⟨page, hpage, htype, -⟩ := hgroup.pages no hno
    exact ⟨page, hpage, htype⟩
  refine ⟨⟨h.ok.colNum, hstep.ok, hstep.head, h.ok.columns, fun item hitem => ?_, h.ok.apart,
    h.ok.layout, h.ok.full⟩, ?_,
    hstep.links.chainLinks h.links⟩
  · obtain ⟨count, hcount⟩ := h.ok.aligned item hitem
    refine ⟨count, fun no hno => ?_⟩
    obtain ⟨page, hpage, htype⟩ := hmember item hitem no hno
    obtain ⟨page', hpage', hend⟩ := hcount no hno
    rw [hpage, Option.some.injEq] at hpage'
    obtain ⟨new, hnew, hsame, -⟩ := hstep.pages no page hpage htype
    exact ⟨new, hnew, by rw [hsame, hpage', hend]⟩
  · rw [List.forall₂_map_right_iff]
    refine h.groups.imp fun item rows hgroup => ⟨fun no hno => ?_, fun index hindex => ?_⟩
    · obtain ⟨page, hpage, htype, hend⟩ := hgroup.pages no hno
      obtain ⟨new, hnew, hsame, -⟩ := hstep.pages no page hpage htype
      obtain ⟨new', hnew', htype'⟩ := hstep.frame.types no page hpage
      rw [hnew, Option.some.injEq] at hnew'
      subst hnew'
      exact ⟨new, hnew, htype'.trans htype, by
        rw [hsame, hend, Table.modifyCell, List.length_map]⟩
    · have hlt : index < rows.length := by simpa [Table.modifyCell] using hindex
      simpa [Table.modifyCell] using hstep.frame.modifyRow hcell (hgroup.rows index hlt)

/-- The version that was read, and the copy of the item, which is up to date. A scan looks for
the version that is shown, a fetch takes the newest. -/
structure FetchedFrom (t : PaxTable) (headItem : HeapItemData)
    (old : RowColumnData) : Prop where
  member : ∃ item ∈ t.groupList, headItem.pageno ∈ item.member
  item : ∃ page row, t.file.page headItem.pageno = some page ∧
    IsItem page headItem.itemOffset ∧
    headItem.itemData = page.item headItem.itemOffset ∧
      rowOfItem page headItem.itemOffset = some row ∧
    (old = row ∨ ∃ own snapshot pages,
      Returns (fun depth => readVersion t.file own snapshot depth row) (some old, pages))

/-- A cell of the table is at the item that was read. -/
theorem TableStored.cell_fetched (h : TableStored t table) {headItem : HeapItemData}
    {old : RowColumnData} (hfetched : FetchedFrom t headItem old) :
    ∃ cell ∈ Table.cells table,
      CellStored t.file headItem.pageno headItem.itemOffset cell := by
  obtain ⟨groups, hgroups, rfl⟩ := h.groups
  obtain ⟨⟨item, hitem, hno⟩, page, -, hpage, ⟨index, hoffset, hlt⟩, -⟩ := hfetched
  obtain ⟨rows, hrows, hgroup⟩ := groupsStored_item hgroups hitem
  obtain ⟨page', hpage', -, hend⟩ := hgroup.pages _ hno
  rw [hpage, Option.some.injEq] at hpage'
  subst hpage'
  have hindex : index < rows.length := by
    rw [hend, hoffset, itemOffsetOfIndex_eq, itemOffsetOfIndex_eq] at hlt
    omega
  obtain ⟨cell, hcell, hstored⟩ := hgroup.exists_cell hno hindex
  obtain ⟨row, hrow, hmem⟩ := List.mem_flatten.mp hcell
  exact ⟨cell, List.mem_flatten.mpr ⟨row, List.mem_flatten.mpr ⟨rows, hrows, hrow⟩, hmem⟩,
    hoffset ▸ hstored⟩

/-- What was read is a version of that cell. -/
theorem TableStored.fetched (h : TableStored t table) {headItem : HeapItemData}
    {old : RowColumnData} (hfetched : FetchedFrom t headItem old) :
    ∃ page r rs, t.file.page headItem.pageno = some page ∧
      IsDataPage t.file headItem.pageno ∧ headItem.itemData = page.item headItem.itemOffset ∧
      RowAt t.file headItem.pageno headItem.itemOffset r ∧
        UndoChain t.file r.headerData.undo rs ∧
      (old = r ∨ old ∈ rs ∧ old.headerData.tmax ≠ invalidXtid) ∧
      ∀ v ∈ rs, v.headerData.tmax ≠ invalidXtid := by
  obtain ⟨rooms, hf⟩ := h.ok.file
  obtain ⟨cell, -, -, hdata, r, rs, hat, hchain, holder, -⟩ := h.cell_fetched hfetched
  obtain ⟨-, page, row, hpage, -, hcopy, hrow, hread⟩ := hfetched
  refine ⟨page, r, rs, hpage, hdata, hcopy, hat, hchain, ?_, holder⟩
  obtain ⟨hrowitem, hstored⟩ := hat.stored hpage
  rw [hrowitem.rowOfItem hstored, Option.some.injEq] at hrow
  subst hrow
  rcases hread with rfl | ⟨own, snapshot, pages, hread⟩
  · exact .inl rfl
  · have heq := hread.unique (r := (some old, pages)) ⟨rs.length + 1, fun depth hdepth =>
      (readVersion_eq hf hchain depth (by omega) :
        readVersion t.file own snapshot depth r = _)⟩
    have hmem : old ∈ r :: rs := List.mem_of_find?_eq_some (Prod.mk.inj heq).1.symm
    exact (List.mem_cons.mp hmem).imp_right fun hmem => ⟨hmem, holder old hmem⟩

/-- The item of the version that is tested is a live cell. -/
theorem TableStored.liveAt (h : TableStored t table) {headItem : HeapItemData}
    {old : RowColumnData} (hfetched : FetchedFrom t headItem old)
    (hat : RowAt t.file headItem.pageno headItem.itemOffset r)
    (htest : tupleUpdateSatisfy curr r.headerData = .ok) :
    Table.LiveAt table headItem.pos := by
  refine ⟨?_, fun cell hcell hpos => ?_⟩
  · obtain ⟨cell, hcell, hstored⟩ := h.cell_fetched hfetched
    exact ⟨cell, hcell, hstored.pos⟩
  · obtain ⟨groups, hgroups, rfl⟩ := h.groups
    obtain ⟨-, -, no', -, index, hstored⟩ := groupsStored_cell hgroups hcell
    obtain ⟨hcellpos, -, r', rs', hat', -, -, hversions⟩ := hstored
    rw [hpos, HeapItemData.pos, Prod.mk.injEq] at hcellpos
    obtain ⟨rfl, hoffset⟩ := hcellpos
    rw [← hoffset] at hat'
    obtain rfl := hat.unique hat'
    refine ⟨_, by rw [hversions]; rfl, ?_⟩
    simp [RowColumnData.toVersion, ((updateSatisfy_iff curr _).mp htest).2]

/-- The cell at the item that was read has the versions that were found. -/
theorem CellStored.versions_eq (hf : FileOk f rooms) (h : CellStored f no o cell)
    (hat : RowAt f no o r) (hchain : UndoChain f r.headerData.undo rs) :
    cell.versions = (r :: rs).map RowColumnData.toVersion := by
  obtain ⟨-, hdata, r', rs', hat', hchain', -, hversions⟩ := h
  obtain ⟨rfl, rfl⟩ := RowVersions.unique ⟨⟨rooms, hf⟩, ⟨hdata, .inl hat⟩, hchain⟩
      ⟨⟨rooms, hf⟩, ⟨hdata, .inl hat'⟩, hchain'⟩
  exact hversions

/-- There is one cell that is stored at an item. -/
theorem CellStored.unique {cell' : Cell (Nat × Int) Nat StoredValue} (hf : FileOk f rooms)
    (h : CellStored f no o cell) (h' : CellStored f no o cell') : cell = cell' := by
  obtain ⟨hpos', -, r, rs, hat, hchain, -, hversions'⟩ := h'
  have hversions := h.versions_eq hf hat hchain
  obtain ⟨pos, versions⟩ := cell
  obtain ⟨pos', versions'⟩ := cell'
  rw [Cell.mk.injEq]
  exact ⟨h.pos.trans hpos'.symm, hversions.trans hversions'.symm⟩

theorem GroupStored.unique {rows' : List VersionedRow} (hf : FileOk f rooms)
    (hne : item.member ≠ [])
    (h : GroupStored f item rows) (h' : GroupStored f item rows') : rows = rows' := by
  have hlen : rows.length = rows'.length := by
    obtain ⟨no, hno⟩ := List.exists_mem_of_ne_nil _ hne
    obtain ⟨page, hpage, -, hend⟩ := h.pages no hno
    obtain ⟨page', hpage', -, hend'⟩ := h'.pages no hno
    rw [hpage, Option.some.injEq] at hpage'
    subst hpage'
    exact itemOffsetOfIndex_inj (hend.symm.trans hend')
  refine List.ext_getElem hlen fun index hindex hindex' => ?_
  have hcells : Relator.RightUnique fun (no : Nat) cell =>
      CellStored f no (itemOffsetOfIndex index) cell :=
        fun _ _ _ hcell hcell' => hcell.unique hf hcell'
  exact List.right_unique_forall₂' hcells (h.rows index hindex) (h'.rows index hindex')

/-- The store determines the table of versions. -/
theorem TableStored.unique {table' : StoredTable} (h : TableStored t table)
    (h' : TableStored t table') : table = table' := by
  obtain ⟨groups, hgroups, rfl⟩ := h.groups
  obtain ⟨groups', hgroups', rfl⟩ := h'.groups
  obtain ⟨rooms, hf⟩ := h.ok.file
  have hpos := h.ok.colNum
  have hne : ∀ item ∈ t.groupList, item.member ≠ [] := fun item hitem =>
    List.ne_nil_of_length_pos (h.ok.columns item hitem ▸ hpos)
  refine congrArg List.flatten ?_
  clear h h'
  generalize t.groupList = items at hgroups hgroups' hne
  induction hgroups generalizing groups' with
  | nil =>
    cases hgroups'
    rfl
  | cons hgroup _ ih =>
    rw [List.forall_mem_cons] at hne
    cases hgroups' with
    | cons hgroup' hrest =>
      rw [hgroup.unique hf hne.1 hgroup', ih _ hrest hne.2]

variable {u : ColumnUpdate}

/-- What the executor hands to `pax_ExecUpdate`, for a new version that stays on the page. -/
structure UpdateReady (t : PaxTable) (u : ColumnUpdate) : Prop where
  fetched : FetchedFrom t u.headItem u.old
  size : u.old.size ≤ u.oldRowSize
  fits : u.row.Fits
  stays : ∀ page, t.file.page u.headItem.pageno = some page → StaysOnPage page u.old u.row
  bound : t.file.pageCnt + 1 < 2 ^ 32

theorem TableStored.columnRead (h : TableStored t table)
    (hfetched : FetchedFrom t u.headItem u.old)
    (hsize : u.old.size ≤ u.oldRowSize) (hfits : u.row.Fits) :
    ∃ page r rs, ColumnRead t.file u page r rs ∧
      RowAt t.file u.headItem.pageno u.headItem.itemOffset r ∧
      ∀ v ∈ rs, v.headerData.tmax ≠ invalidXtid := by
  obtain ⟨page, r, rs, hpage, hdata, hcopy, hat, hchain, hold, holder⟩ := h.fetched hfetched
  obtain ⟨rooms, hf⟩ := h.ok.file
  exact ⟨page, r, rs, ⟨hpage, (hat.isRowItem hpage).redirect, hcopy,
    ⟨⟨rooms, hf⟩, ⟨hdata, .inl hat⟩, hchain⟩, hold,
    hsize, hfits⟩, hat, holder⟩

theorem ChainLinks.not_broken (h : ChainLinks f) (hpage : f.page no = some page)
    {k : PageType} (hk : IsChain k) :
    ¬ ChainBroken f page k := by
  have hlink : LinkTyped f page k := by
    rcases hk with rfl | rfl
    · exact (h no page hpage).1
    · exact (h no page hpage).2
  rw [ChainBroken]
  split
  · rename_i p hp
    exact not_not.mpr (hlink.getPageByIndex p hp)
  · exact id

theorem ChainLinks.extLinksOk (h : ChainLinks f) : ExtLinksOk f := fun no page hpage =>
  (h no page hpage).2.imp_right fun ⟨p, hp, _⟩ => Option.isSome_iff_exists.mpr ⟨p, hp⟩

/-- An update is refused when the version is not the newest, or when one of the rows is too
large for a page. -/
theorem ColumnRead.refused_links (h : ColumnRead f u page r rs) (hlinks : ChainLinks f)
    (hcurr : curr < 2 ^ 64) :
    (paxExecUpdate curr u f).1 = false ↔ TooLarge (itemSize + u.oldRowSize) ∨
      tupleUpdateSatisfy curr u.old.headerData ≠ .ok ∨
        (u.old.size < u.row.size ∧ TooLarge (u.row.size + itemSize)) := by
  obtain ⟨rooms, hf⟩ := h.versions.file
  have hundo := hlinks.not_broken h.found (.inl rfl)
  have hext := hlinks.not_broken h.found (.inr rfl)
  rw [h.refused_iff hlinks.extLinksOk hcurr, Refused, hf.getPageByIndex, h.found]
  simp only [hundo, hext, false_or, and_false, or_false]

/-- An update leaves every other data page its items and rows. -/
theorem ColumnRead.otherPages (h : ColumnRead f u page r rs)
    (hcurr : curr < 2 ^ 64) {done : Bool}
    (hdone : paxExecUpdate curr u f = (done, f')) {p : PageDataHeader}
    (hp : f.page no = some p) (hdata : p.pageType = .data) (hno : no ≠ u.headItem.pageno) :
    ∃ p', f'.page no = some p' ∧ SameRows p p' := by
  obtain ⟨rooms, hf⟩ := h.versions.file
  obtain ⟨p₁, hp₁, hsame₁⟩ := hf.undoSpace_kept u no p hp
  unfold Toadb.paxExecUpdate at hdone
  split at hdone
  · rename_i f₁ hundo
    obtain ⟨-, rfl⟩ := Prod.mk.inj hdone
    rw [hundo] at hp₁
    exact ⟨p₁, hp₁, hsame₁⟩
  · rename_i undono f₁ hundo
    rw [hundo] at hp₁
    obtain ⟨hfound, page₁, undoPage, hpage₁, hsame, hundoPage, -, hspace⟩ :=
      hf.undoSpace_found h.found h.pageType h.headItem h.size hundo
    obtain ⟨undoPage', hundoPage', -, hundotype⟩ := hfound.found
    rw [hundoPage, Option.some.injEq] at hundoPage'
    subst hundoPage'
    obtain ⟨p', hp', hsame'⟩ :=
      hfound.ok.updateLocked_others hpage₁ (hsame.pageType.trans h.pageType) hundoPage
        hundotype rfl h.oldFits hcurr (fun _ => hspace) hp₁ (hsame₁.pageType.trans hdata) hno
    rw [hdone] at hp'
    exact ⟨p', hp', hsame₁.trans hsame'⟩

/-- The page of the column keeps its items. -/
theorem ColumnRead.ownPage (h : ColumnRead f u page r rs) (hcurr : curr < 2 ^ 64)
    (hbound : f.pageCnt + 1 < 2 ^ 32)
    {done : Bool} (hdone : paxExecUpdate curr u f = (done, f')) :
    ∃ page', f'.page u.headItem.pageno = some page' ∧ SameItems page page' := by
  obtain ⟨rooms, hf⟩ := h.versions.file
  cases done with
  | false =>
    exact (hf.paxExecUpdate_false h.found h.pageType h.headItem h.oldFits
      h.size hcurr hdone).page
  | true =>
    have htest : tupleUpdateSatisfy curr u.old.headerData = .ok := by
      unfold Toadb.paxExecUpdate at hdone
      split at hdone
      · cases hdone
      · exact updateLocked_test hdone
    obtain ⟨-, hwritten, -⟩ :=
      hf.paxExecUpdate hbound h.found h.pageType h.headItem (h.newest htest ▸ h.rowAt) h.size
        h.fits hcurr hdone
    exact hwritten.page

/-- An update is a step of its cell. -/
theorem ColumnRead.cellStep (h : ColumnRead f u page r rs) (hcurr : curr < 2 ^ 64)
    (hbound : f.pageCnt + 1 < 2 ^ 32)
    {done : Bool} (hdone : paxExecUpdate curr u f = (done, f')) :
    CellStep f f' u.headItem.pageno u.headItem.itemOffset := by
  obtain ⟨⟨rooms', hstep⟩, hstay⟩ := h.stays hcurr hbound hdone
  have hdata : IsDataPage f u.headItem.pageno := ⟨page, h.found, h.pageType⟩
  obtain ⟨page', hpage', hitems⟩ := h.ownPage hcurr hbound hdone
  have hlinks : LinksFrom f (paxExecUpdate curr u f).2 := by
    obtain ⟨rooms, hf⟩ := h.versions.file
    exact linksFrom_paxExecUpdate hf.counted curr u
  rw [hdone] at hlinks
  refine ⟨⟨_, hstep.ok⟩, ?_,
    (hstep.frame hstay (ColumnUpdate.item_isDataPage hdata)).mono (fun _ _ hT => hT.2)
    (only_isDataPage hdata), fun other p hp htype => ?_, hlinks⟩
  · have hpageno := hstep.ok.bound _ page' hpage'
    omega
  · by_cases hother : other = u.headItem.pageno
    · subst hother
      rw [h.found, Option.some.injEq] at hp
      subst hp
      exact ⟨page', hpage', hitems.dataOffset, fun hne => absurd rfl hne⟩
    · obtain ⟨p', hp', hsame⟩ := h.otherPages hcurr hdone hp htype hother
      exact ⟨p', hp', hsame.dataOffset, fun _ => hsame⟩

theorem modifyCell_id (pos : Nat × Int) (table : StoredTable) :
    Table.modifyCell pos id table = table := by
  simp [Table.modifyCell]

theorem toVersion_newRow (u : ColumnUpdate) (curr : Nat) (pos : RowPosition) :
    (u.newRow curr pos).toVersion = ⟨curr, none, u.row.value⟩ := by
  simp [RowColumnData.toVersion, ColumnUpdate.newRow, computeXmaxTupleHeader,
    computeXminTupleHeader,
    RowColumnData.value]

theorem toVersion_deletedRow (curr : Xtid) (old : RowColumnData) :
    (deletedRow curr old).toVersion = { old.toVersion with deleter := some curr } := by
  simp [RowColumnData.toVersion, deletedRow, computeXmaxTupleHeader, curr.2.ne,
    RowColumnData.value]

/-- The copy of an old version is that version, deleted. -/
theorem toVersion_undoRow (u : ColumnUpdate) (curr : Xtid) :
    (u.undoRow curr).toVersion = { u.old.toVersion with deleter := some curr } :=
  toVersion_deletedRow curr u.old

/-- An update makes its change, or none. -/
theorem GroupsStored.update (h : GroupsStored t groups) (curr : Xtid)
    (hready : UpdateReady t u) {done : Bool}
    (hdone : paxExecUpdate curr u t.file = (done, f')) :
    CellStep t.file f' u.headItem.pageno u.headItem.itemOffset ∧
      if done then Table.LiveAt groups.flatten u.headItem.pos ∧
        GroupsStored { t with file := f' }
          (groups.map (Table.modifyCell u.headItem.pos (Cell.write curr u.row.value)))
      else GroupsStored { t with file := f' } groups := by
  have htable := h.tableStored
  obtain ⟨page, r, rs, hread, hat, holder⟩ :=
    htable.columnRead hready.fetched hready.size hready.fits
  have hcurr : (curr : Nat) < 2 ^ 64 := curr.lt
  have hcellStep := hread.cellStep hcurr hready.bound hdone
  obtain ⟨⟨rooms', hstep⟩, hstay⟩ := hread.stays hcurr hready.bound hdone
  have hdata : IsDataPage t.file u.headItem.pageno := ⟨page, hread.found, hread.pageType⟩
  refine ⟨hcellStep, ?_⟩
  cases done with
  | false =>
    have hkept := hstep.frame hstay (ColumnUpdate.item_isDataPage hdata)
    have hsame := h.modifyCell (F := id) hcellStep fun cell hcell =>
      hkept.cellStored (fun hT => absurd hT.1 (by decide)) hcell
    rwa [List.map_congr_left fun rows _ => modifyCell_id _ rows, List.map_id'] at hsame
  | true =>
    have htest : tupleUpdateSatisfy curr u.old.headerData = .ok := by
      unfold Toadb.paxExecUpdate at hdone
      split at hdone
      · cases hdone
      · exact updateLocked_test hdone
    obtain rfl := hread.newest htest
    obtain ⟨⟨pos, hversions⟩, -⟩ := hread.written hcurr hready.bound hdone
    obtain ⟨rooms, hf⟩ := h.ok.file
    obtain ⟨pos', -, -, hplace, -⟩ :=
      hf.paxExecUpdate hready.bound hread.found hread.pageType hread.headItem hat
        hread.size hread.fits hcurr hdone
    have hnew : RowAt f' u.headItem.pageno u.headItem.itemOffset (u.newRow curr pos) := by
      have hrow := hplace (hready.stays page hread.found)
      obtain ⟨-, hat' | ⟨page', hpage', -, -, hredirect, -⟩⟩ := hversions.head
      · exact hat'
      · rw [(hrow.isRowItem hpage').redirect] at hredirect
        cases hredirect
    refine ⟨htable.liveAt hready.fetched hat htest,
      h.modifyCell hcellStep fun cell hcell => ?_⟩
    refine ⟨hcell.pos, hstep.isDataPage hdata, _, _, hnew, hversions.chain, ?_, ?_⟩
    · exact List.forall_mem_cons.mpr ⟨curr.2.ne, holder⟩
    · rw [Cell.write, hcell.versions_eq hf hat hread.versions.chain]
      simp [toVersion_newRow, toVersion_undoRow]

theorem CellStep.refl (hok : ∃ rooms, FileOk f rooms) (hhead : 0 < f.pageCnt)
    (hdata : IsDataPage f no) :
    CellStep f f no o := by
  obtain ⟨rooms, hf⟩ := hok
  exact ⟨⟨rooms, hf⟩, hhead,
    ⟨fun _ page hpage => ⟨page, hpage, rfl⟩, fun _ _ _ _ hat => hat, only_isDataPage hdata⟩,
    fun _ page hpage _ => ⟨page, hpage, rfl, fun _ => .refl page⟩, .refl hf.counted⟩

/-- A delete makes its change, or none. -/
theorem GroupsStored.delete (h : GroupsStored t groups) (curr : Xtid) {col : FetchedColumn}
    (hfetched : FetchedFrom t col.headItem col.old) {done : Bool}
    (hdone : paxExecDelete curr col t.file = (done, f')) :
    CellStep t.file f' col.headItem.pageno col.headItem.itemOffset ∧
      if done then Table.LiveAt groups.flatten col.headItem.pos ∧
        GroupsStored { t with file := f' }
          (groups.map (Table.modifyCell col.headItem.pos (Cell.delete curr)))
      else GroupsStored { t with file := f' } groups := by
  have htable := h.tableStored
  obtain ⟨page, r, rs, hpage, hdata, hcopy, hat, hchain, hold, holder⟩ :=
    htable.fetched hfetched
  obtain ⟨rooms, hf⟩ := h.ok.file
  unfold paxExecDelete at hdone
  rw [hf.getPageByIndex, hpage] at hdone
  dsimp only at hdone
  split at hdone
  · obtain ⟨rfl, rfl⟩ := Prod.mk.inj hdone
    exact ⟨.refl h.ok.file h.ok.head hdata, h⟩
  · rename_i htest
    obtain ⟨rfl, rfl⟩ := Prod.mk.inj hdone
    have htest := not_not.mp htest
    -- Only the newest version passes the test.
    obtain rfl : col.old = r :=
      hold.resolve_right fun hdeleted => hdeleted.2 ((updateSatisfy_iff curr _).mp htest).2
    obtain ⟨hok, hnew, hothers⟩ :=
      hf.replaceRow hpage hat (deletedRow_fits hat.fits curr.lt) le_rfl
    rw [← hcopy] at hok hnew hothers
    have hpages : ∀ no p, t.file.page no = some p → ∃ p', (t.file.set col.headItem.pageno
        (replaceRowData page (deletedRow curr col.old) col.headItem.itemData.offset)).page
          no = some p' ∧
        p'.pageType = p.pageType ∧ p'.dataOffset = p.dataOffset ∧
          (no ≠ col.headItem.pageno → SameRows p p') := by
      intro no p hp
      by_cases hno : no = col.headItem.pageno
      · subst hno
        rw [hpage, Option.some.injEq] at hp
        exact ⟨_, set_page_self .., hp ▸ ⟨rfl, rfl, fun hne => absurd rfl hne⟩⟩
      · exact ⟨p, (set_page_of_ne _ _ hno).trans hp, rfl, rfl, fun _ => .refl p⟩
    have hstep : CellStep t.file (t.file.set col.headItem.pageno
        (replaceRowData page (deletedRow curr col.old) col.headItem.itemData.offset))
        col.headItem.pageno col.headItem.itemOffset := by
      refine ⟨⟨_, hok⟩, h.ok.head,
        ⟨fun no p hp => ?_, fun no o r' hT hr' => hothers no o r' hT hr',
        only_isDataPage hdata⟩, fun no p hp _ => ?_, .set hf.counted hpage rfl fun _ => rfl⟩
      · obtain ⟨p', hp', htype, -⟩ := hpages no p hp
        exact ⟨p', hp', htype⟩
      · obtain ⟨p', hp', -, hrest⟩ := hpages no p hp
        exact ⟨p', hp', hrest⟩
    refine ⟨hstep, htable.liveAt hfetched hat htest, h.modifyCell hstep fun cell hcell => ?_⟩
    refine ⟨hcell.pos, hstep.frame.isDataPage hdata, _, rs, hnew,
      hstep.frame.undoChain hchain, holder, ?_⟩
    rw [Cell.delete, hcell.versions_eq hf hat hchain]
    simp [toVersion_deletedRow]

theorem TableStored.update (h : TableStored t table) (curr : Xtid)
    (hready : UpdateReady t u) {done : Bool}
    (hdone : paxExecUpdate curr u t.file = (done, f')) :
    if done then ∃ table', Step table (.write curr u.headItem.pos u.row.value) table' ∧
      TableStored { t with file := f' } table'
    else TableStored { t with file := f' } table := by
  obtain ⟨groups, hgroups, rfl⟩ := h.groupsStored
  obtain ⟨-, hchange⟩ := hgroups.update curr hready hdone
  cases done with
  | false => exact hchange.tableStored
  | true =>
    refine ⟨_, .write hchange.1, ?_⟩
    rw [Table.modifyCell, List.map_flatten]
    exact hchange.2.tableStored

theorem TableStored.delete (h : TableStored t table) (curr : Xtid) {col : FetchedColumn}
    (hfetched : FetchedFrom t col.headItem col.old) {done : Bool}
    (hdone : paxExecDelete curr col t.file = (done, f')) :
    if done then ∃ table', Step table (.delete curr col.headItem.pos) table' ∧
      TableStored { t with file := f' } table'
    else TableStored { t with file := f' } table := by
  obtain ⟨groups, hgroups, rfl⟩ := h.groupsStored
  obtain ⟨-, hchange⟩ := hgroups.delete curr hfetched hdone
  cases done with
  | false => exact hchange.tableStored
  | true =>
    refine ⟨_, .delete hchange.1, ?_⟩
    rw [Table.modifyCell, List.map_flatten]
    exact hchange.2.tableStored

end Toadb
