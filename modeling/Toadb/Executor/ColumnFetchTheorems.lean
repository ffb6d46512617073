/-
Toadb.Executor.ColumnFetchTheorems — which version of a column a row of SELECT has.

A row lies at one offset of the pages of its group (`GroupPlaced`), and where a scan has
handed out a row it stands at this offset (`StandsAt`). A column that the scan reads is then
in the version that the snapshot is shown. A column that is fetched is in the live version,
whoever wrote it, and a column that was moved to an extension page is not found
(`getColRowDataEx_shown_iff`).
-/
import Toadb.Executor.ColumnFetch
import Toadb.Executor.ScanTableTheorems
import Toadb.Plan.QueryTheorems

namespace Toadb

variable {f : TableFile} {rooms : Nat → Int → Nat} {no c : Nat} {o : Int}
  {page : PageDataHeader}
  {own depth fuel colNum : Nat} {snapshot : SnapShotInfo}
  {groups : GroupFork} {member : List Nat}
  {cols : List Nat} {info info' : ScanPageInfo} {row : TableRow}
  {rows rest : List (Int × TableRow)}
  {found : Option (List RowColumnData)}

/-! ## Versions -/

/-- If the walk comes back, it is with the newest version that is shown. -/
theorem currentReadVersion_found {pos : RowPosition} {rs : List RowColumnData}
    {version : Option RowColumnData} {pages : List Nat} (hf : FileOk f rooms)
    (h : UndoChain f pos rs)
    (hrun : currentReadVersion f own snapshot fuel pos = some (version, pages)) :
    version = snapshot.newestShown own rs := by
  induction h generalizing fuel pages with
  | last hnone =>
    cases fuel with
    | zero => cases hrun
    | succ fuel =>
      rw [currentReadVersion] at hrun
      simp only [hnone, if_true, Option.some.injEq, Prod.mk.injEq] at hrun
      exact hrun.1.symm
  | @next pos r rs hrow hchain ih =>
    cases fuel with
    | zero => cases hrun
    | succ fuel =>
      rw [currentReadVersion] at hrun
      simp only [hrow.pageno_ne hf, hrow.2.readUndoVersion hf, if_false,
        visible_iff_shows] at hrun
      by_cases hshows : snapshot.Shows own r
      · simp only [hshows, if_true, Option.some.injEq, Prod.mk.injEq] at hrun
        rw [newestShown_of_shows hshows, hrun.1]
      · simp only [hshows, if_false, Option.map_eq_some_iff, Prod.mk.injEq,
          Prod.exists] at hrun
        obtain ⟨version', pages', hrec, rfl, -⟩ := hrun
        rw [newestShown_of_not_shows hshows, ih hrec]

theorem readVersion_found {r : RowColumnData} {rs : List RowColumnData}
    {version : Option RowColumnData} {pages : List Nat} (hf : FileOk f rooms)
    (h : UndoChain f r.headerData.undo rs)
    (hrun : readVersion f own snapshot fuel r = some (version, pages)) :
    version = snapshot.newestShown own (r :: rs) := by
  rw [readVersion] at hrun
  simp only [visible_iff_shows] at hrun
  by_cases hshows : snapshot.Shows own r
  · simp only [hshows, if_true, Option.some.injEq, Prod.mk.injEq] at hrun
    rw [newestShown_of_shows hshows, hrun.1]
  · simp only [hshows, if_false] at hrun
    rw [newestShown_of_not_shows hshows, currentReadVersion_found hf h hrun]

/-! ## Rows in their group -/

/-- Item `o` of page `no` is column `c` of the row. -/
def ColumnPlaced (f : TableFile) (no c : Nat) (o : Int) (row : TableRow) : Prop :=
  ∃ page, f.page no = some page ∧ page.pageType = .data ∧ ColumnItem f no c page o row

/-- The pages of a group have the rows, each at one offset of all of them. -/
structure GroupPlaced (f : TableFile) (colNum : Nat) (member : List Nat)
    (rows : List (Int × TableRow)) : Prop where
  length : member.length = colNum
  items : ∀ c < colNum, ∃ page, f.page (memberPage member c) = some page ∧
    validItems page = rows.map Prod.fst
  columns : ∀ placed ∈ rows, ∀ c < colNum,
    ColumnPlaced f (memberPage member c) c placed.1 placed.2

/-- The table that the file and the group fork hold. -/
structure TablePlaced (f : TableFile) (groups : GroupFork) (colNum : Nat) : Prop where
  file : ∃ rooms, FileOk f rooms
  groups : ∀ items ∈ groups, ∀ item ∈ items, item.valid = true →
    ∃ rows, GroupPlaced f colNum item.member rows

/-- A live version that the snapshot is shown. -/
def LiveShown (snapshot : SnapShotInfo) (own : Nat) (versions : List RowColumnData) : Prop :=
  ∃ r, versions.head? = some r ∧ snapshot.Shows own r

theorem shows_of_newestShown {v : RowColumnData} {versions : List RowColumnData}
    (h : snapshot.newestShown own versions = some v) : snapshot.Shows own v := by
  have hdecide := List.find?_some h
  exact of_decide_eq_true hdecide

/-- The live version is the newest that is shown if it is shown at all. -/
theorem head_shown_iff (snapshot : SnapShotInfo) (own : Nat) (versions : List RowColumnData) :
    (∃ v, versions.head? = some v ∧ snapshot.newestShown own versions = some v) ↔
      LiveShown snapshot own versions := by
  cases versions with
  | nil => exact iff_of_false nofun nofun
  | cons r rs =>
    constructor
    · rintro ⟨v, hhead, hshown⟩
      exact ⟨v, hhead, shows_of_newestShown hshown⟩
    · rintro ⟨v, hhead, hshows⟩
      cases hhead
      exact ⟨r, rfl, newestShown_of_shows hshows rs⟩

/-- The fetch of a column at the offset of its row. -/
theorem ColumnPlaced.rowByIndex (h : ColumnPlaced f no c o row) :
    rowByIndex f no o = if row.moved c then none else (row.versions c).head? := by
  obtain ⟨page, hpage, htype, hmoved, r, rs, ⟨⟨rooms, hf⟩, ⟨-, hhead⟩, -⟩, hversions⟩ := h
  rcases hhead with hrow | hredirected
  · have hredirect := (hrow.stored hpage).1.redirect
    rw [← hmoved, hredirect, hversions, hrow.rowByIndex hf]
    rfl
  · rw [rowByIndex_redirected hf hredirected hpage htype]
    obtain ⟨page', hpage', -, -, hredirect, -⟩ := hredirected
    rw [hpage, Option.some.injEq] at hpage'
    rw [← hmoved, hpage', hredirect]
    rfl

/-- What the scan makes of a column. -/
theorem ColumnPlaced.readVersion {r v : RowColumnData} {pages : List Nat}
    (h : ColumnPlaced f no c o row)
    (hrow : ((f.page no).bind fun page => rowOfItem page o) = some r)
    (hrun : readVersion f own snapshot fuel r = some (some v, pages)) :
    snapshot.newestShown own (row.versions c) = some v := by
  obtain ⟨page, hpage, htype, hmoved, r', rs, hall, hversions⟩ := h
  rw [hpage, Option.bind_some] at hrow
  cases hredirect : (page.item o).redirect with
  | true =>
    rw [rowOfItem_redirect htype hredirect] at hrow
    cases hrow
  | false =>
    rw [hall.rowOfItem hpage hredirect, Option.some.injEq] at hrow
    subst hrow
    obtain ⟨rooms, hf⟩ := hall.file
    rw [hversions]
    exact (readVersion_found hf hall.chain hrun).symm

/-! ## Rows before the scan -/

/-- A search of page `no` that stopped at `o` has the rows before it. -/
def RowsAhead (f : TableFile) (no : Nat) (o : Int) (rows : List (Int × TableRow)) : Prop :=
  ∃ page, f.page no = some page ∧ Ahead page o (rows.map Prod.fst)

theorem RowsAhead.nil (h : RowsAhead f no o []) :
    ((f.page no).bind fun page => getRowDataFromPageEx page o) = none := by
  obtain ⟨page, hpage, hahead⟩ := h
  rw [hpage, Option.bind_some, hahead.nil]

/-- The search stops at the next row. -/
theorem RowsAhead.cons {placed : Int × TableRow} (h : RowsAhead f no o (placed :: rest)) :
    ((f.page no).bind fun page => getRowDataFromPageEx page o)
        = some (placed.1, (f.page no).bind fun page => rowOfItem page placed.1) ∧
      RowsAhead f no placed.1 rest := by
  obtain ⟨page, hpage, hahead⟩ := h
  rw [List.map_cons] at hahead
  obtain ⟨hget, hrest⟩ := hahead.cons
  exact ⟨by rw [hpage, Option.bind_some, Option.bind_some, hget], page, hpage, hrest⟩

/-- A column of a row that is handed out, from its page. -/
def CellRead (f : TableFile) (own : Nat) (snapshot : SnapShotInfo)
    (o : Int) (cell : Nat × Int) (v : RowColumnData) : Prop :=
  ∃ r pages depth, ((f.page cell.1).bind fun page => rowOfItem page o) = some r ∧
    readVersion f own snapshot depth r = some (some v, pages)

/-- A round of the column loop that does not find the end: every column is where the row
is. -/
theorem scanColumns_placed {placed : Int × TableRow}
    {pageReset ignore : Bool} {flag : ScanFlag}
    {offsets : List Int} {vals : List RowColumnData} {cells : List (Nat × Int)}
    (h : ∀ cell ∈ cells,
      RowsAhead f cell.1 (if pageReset then 0 else cell.2) (placed :: rest))
    (hrun : scanColumns f own snapshot depth pageReset ignore cells =
      some (flag, offsets, vals))
    (hflag : flag ≠ .endOfFile) :
    offsets = cells.map (fun _ => placed.1) ∧
      (flag = .nextRow →
        ignore = false ∧ List.Forall₂ (CellRead f own snapshot placed.1) cells vals) := by
  induction cells generalizing ignore flag offsets vals with
  | nil =>
    simp only [scanColumns, Option.some.injEq, Prod.mk.injEq] at hrun
    obtain ⟨rfl, rfl, rfl⟩ := hrun
    cases ignore with
    | true => exact ⟨rfl, fun h => by cases h⟩
    | false => exact ⟨rfl, fun _ => ⟨rfl, .nil⟩⟩
  | cons cell cells ih =>
    obtain ⟨hget, -⟩ := (h cell List.mem_cons_self).cons
    have hrest := fun cell' hmem => h cell' (List.mem_cons_of_mem _ hmem)
    simp only [scanColumns, hget] at hrun
    cases hrow : (f.page cell.1).bind fun page => rowOfItem page placed.1 with
    | none =>
      simp only [hrow, Option.some.injEq, Prod.mk.injEq] at hrun
      exact absurd hrun.1.symm hflag
    | some r =>
      simp only [hrow] at hrun
      split at hrun
      next hignore =>
        simp only [Option.map_eq_some_iff, Prod.mk.injEq, Prod.exists] at hrun
        obtain ⟨flag', offsets', vals', hrec, rfl, rfl, rfl⟩ := hrun
        obtain ⟨hoffsets, hnext⟩ := ih hrest hrec hflag
        exact ⟨by rw [hoffsets, List.map_cons], fun hflag' => by cases (hnext hflag').1⟩
      next hignore =>
        split at hrun
        next => cases hrun
        next =>
          simp only [Option.map_eq_some_iff, Prod.mk.injEq, Prod.exists] at hrun
          obtain ⟨flag', offsets', vals', hrec, rfl, rfl, rfl⟩ := hrun
          obtain ⟨hoffsets, hnext⟩ := ih hrest hrec hflag
          exact ⟨by rw [hoffsets, List.map_cons], fun hflag' => by cases (hnext hflag').1⟩
        next version pages hversion =>
          simp only [Option.map_eq_some_iff, Prod.mk.injEq, Prod.exists] at hrun
          obtain ⟨flag', offsets', vals', hrec, rfl, rfl, rfl⟩ := hrun
          obtain ⟨hoffsets, hnext⟩ := ih hrest hrec hflag
          refine ⟨by rw [hoffsets, List.map_cons], fun hflag' => ⟨?_, ?_⟩⟩
          · rwa [Bool.not_eq_true] at hignore
          · exact .cons ⟨r, pages, depth, hrow, hversion⟩ (hnext hflag').2

/-- A round behind the last row finds the end. -/
theorem scanColumns_behind {pageReset ignore : Bool}
    {cells : List (Nat × Int)} (hne : cells ≠ [])
    (h : ∀ cell ∈ cells, RowsAhead f cell.1 (if pageReset then 0 else cell.2) []) :
    ∃ offsets, scanColumns f own snapshot depth pageReset ignore cells
      = some (.endOfFile, offsets, []) := by
  cases cells with
  | nil => exact absurd rfl hne
  | cons cell cells =>
    have hnil := (h cell List.mem_cons_self).nil
    refine ⟨(if pageReset then 0 else cell.2) :: cells.map Prod.snd, ?_⟩
    simp only [scanColumns, hnil]

/-! ## Groups -/

/-- The search is at the item of the group with these pages. -/
structure AtGroup (groups : GroupFork) (searchInfo : GroupSearch)
    (member : List Nat) : Prop where
  page : searchInfo.page = true
  item : ∃ items item, groups[searchInfo.pageNum - firstGroupPage]? = some items ∧
    items[searchInfo.item]? = some item ∧ item.valid = true ∧ item.member = member

theorem AtGroup.getPageNoFromGroupInfo {searchInfo : GroupSearch}
    (h : AtGroup groups searchInfo member) (hc : c < member.length) :
    getPageNoFromGroupInfo groups searchInfo c = some (memberPage member c) := by
  obtain ⟨hpage, items, item, hitems, hitem, hvalid, rfl⟩ := h
  simp [Toadb.getPageNoFromGroupInfo, hpage, hitems, hitem, hvalid, memberPage, hc]

theorem nextGroupItem_at {items : List GroupItem} {index i : Nat} {item : GroupItem}
    (h : nextGroupItem items index = some (item, i)) :
    ∃ k, i = index + k ∧ items[k]? = some item ∧ item.valid = true := by
  induction items generalizing index with
  | nil => cases h
  | cons first items ih =>
    rw [nextGroupItem] at h
    split at h
    next hvalid =>
      simp only [Option.some.injEq, Prod.mk.injEq] at h
      obtain ⟨rfl, rfl⟩ := h
      exact ⟨0, rfl, rfl, hvalid⟩
    next =>
      obtain ⟨k, rfl, hitem, hvalid⟩ := ih h
      exact ⟨k + 1, by omega, hitem, hvalid⟩

/-- The search stops at a valid item. -/
theorem searchGroupPages_at {pages : GroupFork} {pageNum start : Nat}
    {searchInfo searchInfo' : GroupSearch} {item : GroupItem}
    (h : searchGroupPages pages pageNum start searchInfo = (some item, searchInfo')) :
    searchInfo'.page = true ∧ item.valid = true ∧ ∃ k items,
      searchInfo'.pageNum = pageNum + k ∧
      pages[k]? = some items ∧ items[searchInfo'.item]? = some item := by
  induction pages generalizing pageNum start searchInfo with
  | nil => cases h
  | cons items pages ih =>
    rw [searchGroupPages] at h
    split at h
    next found i hfound =>
      simp only [Prod.mk.injEq, Option.some.injEq] at h
      obtain ⟨rfl, rfl⟩ := h
      obtain ⟨k, rfl, hitem, hvalid⟩ := nextGroupItem_at hfound
      rw [List.getElem?_drop] at hitem
      exact ⟨rfl, hvalid, 0, items, rfl, rfl, hitem⟩
    next =>
      obtain ⟨hpage, hvalid, k, items', hnum, hitems, hitem⟩ := ih h
      exact ⟨hpage, hvalid, k + 1, items', by omega, hitems, hitem⟩

/-- The search never goes back. -/
theorem searchGroupPages_first {pages : GroupFork} {pageNum start first : Nat}
    {searchInfo : GroupSearch} (hnum : first ≤ pageNum) (hinfo : first ≤ searchInfo.pageNum) :
    first ≤ (searchGroupPages pages pageNum start searchInfo).2.pageNum := by
  induction pages generalizing pageNum start searchInfo with
  | nil => exact hinfo
  | cons items pages ih =>
    rw [searchGroupPages]
    split
    · exact hnum
    · exact ih (Nat.le_succ_of_le hnum) hnum

theorem getGroupInfo_at {searchInfo searchInfo' : GroupSearch} {item : GroupItem}
    (hfirst : firstGroupPage ≤ searchInfo.pageNum)
    (h : getGroupInfo groups searchInfo = (some item, searchInfo')) :
    AtGroup groups searchInfo' item.member := by
  obtain ⟨hpage, hvalid, k, items, hnum, hitems, hitem⟩ := searchGroupPages_at h
  rw [List.getElem?_drop] at hitems
  refine ⟨hpage, items, item, ?_, hitem, hvalid, rfl⟩
  rw [← hitems, hnum]
  congr 1
  omega

theorem MemberPages.cons_pages {pages : MemberPages} {pageList : List Nat}
    (h : pages.cons no = .pages pageList) :
    ∃ rest, pages = .pages rest ∧ pageList = no :: rest := by
  cases pages with
  | pages rest =>
    cases h
    exact ⟨rest, rfl, rfl⟩
  | _ => cases h

/-- The pages that the walk finds are those of the columns. -/
theorem memberPages_pages {k : Nat} {pageList : List Nat}
    (h : memberPages f member k cols = .pages pageList) :
    pageList = cols.map (fun c => memberPage member (c - k)) ∧ cols ≠ [] ∧
      ∀ c ∈ cols, k ≤ c ∧ c < k + member.length := by
  induction member generalizing k cols pageList with
  | nil => cases h
  | cons no member ih =>
    cases cols with
    | nil => cases h
    | cons col cols =>
      have hshift : ∀ {cols' : List Nat},
          (∀ c ∈ cols', k + 1 ≤ c ∧ c < k + 1 + member.length) →
          cols'.map (fun c => memberPage member (c - (k + 1)))
            = cols'.map fun c => memberPage (no :: member) (c - k) := by
        intro cols' hcols
        refine List.map_congr_left fun c hc => ?_
        obtain ⟨i, rfl⟩ := Nat.exists_eq_add_of_le (hcols c hc).1
        rw [memberPage, memberPage, show k + 1 + i - (k + 1) = i by omega,
          show k + 1 + i - k = i + 1 by omega, List.getD_cons_succ]
      rw [memberPages] at h
      split at h
      · cases h
      · split at h
        next hcol =>
          subst hcol
          split at h
          · cases h
          · split at h
            next hnil =>
              cases h
              subst hnil
              refine ⟨?_, by simp, ?_⟩
              · simp [memberPage]
              · simp
            next =>
              obtain ⟨pages, hrec, rfl⟩ := MemberPages.cons_pages h
              obtain ⟨rfl, -, hrange⟩ := ih hrec
              refine ⟨?_, by simp, ?_⟩
              · rw [List.map_cons, hshift hrange, Nat.sub_self]
                rfl
              · intro c hc
                rw [List.length_cons]
                rcases List.mem_cons.mp hc with rfl | hmem
                · omega
                · have := hrange c hmem
                  omega
        next =>
          obtain ⟨rfl, hne, hrange⟩ := ih h
          refine ⟨hshift hrange, hne, fun c hc => ?_⟩
          have := hrange c hc
          rw [List.length_cons]
          omega

/-! ## Where a scan stands -/

/-- After `vals` were handed out the scan stands at the row. -/
structure StandsAt (f : TableFile) (groups : GroupFork) (colNum own : Nat)
    (snapshot : SnapShotInfo)
    (info : ScanPageInfo) (vals : List RowColumnData) (row : TableRow) : Prop where
  position : ∃ member o, AtGroup groups info.groupPageInfo member ∧ member.length = colNum ∧
    info.searchPageList = info.colindexList.map (fun _ => o) ∧
    ∀ c < colNum, ColumnPlaced f (memberPage member c) c o row
  cols_ne : info.colindexList ≠ []
  range : ∀ c ∈ info.colindexList, c < colNum
  columns : List.Forall₂ (fun c v => snapshot.newestShown own (row.versions c) = some v)
    info.colindexList vals

/-- What is the same in every call of the scan. -/
structure ScanBase (cols : List Nat) (info : ScanPageInfo) : Prop where
  colindexList : info.colindexList = cols
  offsets : info.searchPageList.length = cols.length
  first : firstGroupPage ≤ info.groupPageInfo.pageNum

/-- The scan has fetched the pages of a group, and has `rest` of its rows before it. -/
structure InPlaced (f : TableFile) (groups : GroupFork) (colNum : Nat) (cols : List Nat)
    (info : ScanPageInfo) (member : List Nat) (rows rest : List (Int × TableRow)) : Prop where
  group : AtGroup groups info.groupPageInfo member
  placed : GroupPlaced f colNum member rows
  cols_ne : cols ≠ []
  range : ∀ c ∈ cols, c < colNum
  pages : info.pageList = cols.map (memberPage member)
  sub : rest ⊆ rows
  ahead : ∀ cell ∈ info.pageList.zip info.searchPageList,
    RowsAhead f cell.1 (if info.pageReset then 0 else cell.2) rest

section Step

variable {placed : Int × TableRow} {offsets : List Int} {vals : List RowColumnData}

theorem InPlaced.length_zip (h : InPlaced f groups colNum cols info member rows rest)
    (hb : ScanBase cols info) :
    (info.pageList.zip info.searchPageList).length = cols.length := by
  rw [List.length_zip, h.pages, List.length_map, hb.offsets, Nat.min_self]

theorem InPlaced.pages_ne (h : InPlaced f groups colNum cols info member rows rest) :
    info.pageList ≠ [] := by
  rw [h.pages, ne_eq, List.map_eq_nil_iff]
  exact h.cols_ne

theorem InPlaced.cells_ne (h : InPlaced f groups colNum cols info member rows rest)
    (hb : ScanBase cols info) : info.pageList.zip info.searchPageList ≠ [] := by
  rw [← List.length_pos_iff, h.length_zip hb, List.length_pos_iff]
  exact h.cols_ne

/-- The position after a round of the column loop. -/
theorem ScanBase.step (hb : ScanBase cols info) (hlen : offsets.length = cols.length) :
    ScanBase cols { info with searchPageList := offsets, pageReset := false } :=
  ⟨hb.colindexList, hlen, hb.first⟩

/-- Behind the next row. -/
theorem InPlaced.step (h : InPlaced f groups colNum cols info member rows (placed :: rest))
    (hb : ScanBase cols info)
    (hoffsets : offsets = (info.pageList.zip info.searchPageList).map fun _ => placed.1) :
    InPlaced f groups colNum cols { info with searchPageList := offsets,
                                              pageReset := false } member
      rows rest := by
  refine ⟨h.group, h.placed, h.cols_ne, h.range, h.pages, fun p hp => h.sub (.tail _ hp), ?_⟩
  rintro ⟨pageno, o⟩ hcell
  obtain ⟨hpageno, ho⟩ := List.of_mem_zip hcell
  have hlen : info.pageList.length ≤ info.searchPageList.length := by
    rw [h.pages, List.length_map, hb.offsets]
  rw [← List.map_fst_zip hlen, List.mem_map] at hpageno
  obtain ⟨cell, hmem, rfl⟩ := hpageno
  rw [hoffsets] at ho
  obtain ⟨-, -, rfl⟩ := List.mem_map.mp ho
  exact (h.ahead cell hmem).cons.2

theorem forall₂_of_zip {α β γ : Type} {R : α × β → γ → Prop} {as : List α} {bs : List β}
    {cs : List γ} (hlen : as.length = bs.length) (h : List.Forall₂ R (as.zip bs) cs) :
    List.Forall₂ (fun a c => ∃ b, R (a, b) c) as cs := by
  induction as generalizing bs cs with
  | nil =>
    cases h
    exact .nil
  | cons a as ih =>
    cases bs with
    | nil => cases hlen
    | cons b bs =>
      cases h with
      | cons hfirst hrest => exact .cons ⟨b, hfirst⟩ (ih (Nat.succ.inj hlen) hrest)

/-- The scan stands at the row that it hands out. -/
theorem InPlaced.standsAt
    (h : InPlaced f groups colNum cols info member rows (placed :: rest))
    (hb : ScanBase cols info)
    (hoffsets : offsets = (info.pageList.zip info.searchPageList).map fun _ => placed.1)
    (hvals : List.Forall₂ (CellRead f own snapshot placed.1)
      (info.pageList.zip info.searchPageList) vals) :
    StandsAt f groups colNum own snapshot
      { info with searchPageList := offsets, pageReset := false } vals placed.2 := by
  have hcolumns := h.placed.columns placed (h.sub List.mem_cons_self)
  refine ⟨⟨member, placed.1, h.group, h.placed.length, ?_, hcolumns⟩, ?_, ?_, ?_⟩
  · rw [hoffsets, List.map_const', List.map_const', h.length_zip hb, hb.colindexList]
  · exact hb.colindexList ▸ h.cols_ne
  · exact hb.colindexList ▸ h.range
  · have hread := forall₂_of_zip (by rw [h.pages, List.length_map, hb.offsets]) hvals
    rw [h.pages, List.forall₂_map_left_iff, List.forall₂_iff_zip] at hread
    show List.Forall₂ _ info.colindexList vals
    rw [hb.colindexList, List.forall₂_iff_zip]
    refine ⟨hread.1, fun {c v} hmem => ?_⟩
    obtain ⟨o, r, pages, depth, hrow, hversion⟩ := hread.2 hmem
    exact (hcolumns c (h.range c (List.of_mem_zip hmem).1)).readVersion hrow hversion

end Step

/-! ## The scan -/

/-- A row that is handed out: the scan stands at one, with the rest of the group before it. -/
def AtRow (f : TableFile) (groups : GroupFork) (colNum : Nat) (cols : List Nat) (own : Nat)
    (snapshot : SnapShotInfo) (info : ScanPageInfo) (vals : List RowColumnData) : Prop :=
  (∃ member rows rest, InPlaced f groups colNum cols info member rows rest) ∧
    ∃ row, StandsAt f groups colNum own snapshot info vals row

theorem seqScanNextColumnOpt_inPlaced (hb : ScanBase cols info)
    (h : InPlaced f groups colNum cols info member rows rest)
    (hrun : seqScanNextColumnOpt f own snapshot depth fuel info = some (found, info')) :
    ScanBase cols info' ∧ info'.pageReset = false ∧
      ∀ vals, found = some vals → AtRow f groups colNum cols own snapshot info' vals := by
  induction fuel generalizing info rest with
  | zero => cases hrun
  | succ fuel ih =>
    simp only [seqScanNextColumnOpt, h.pages_ne, if_false] at hrun
    cases hscan : scanColumns f own snapshot depth info.pageReset false
        (info.pageList.zip info.searchPageList) with
    | none =>
      rw [hscan] at hrun
      cases hrun
    | some result =>
      obtain ⟨flag, offsets, vals⟩ := result
      rw [hscan] at hrun
      have hlen : offsets.length = cols.length :=
        (scanColumns_length hscan).trans (h.length_zip hb)
      have hbase := hb.step hlen
      cases rest with
      | nil =>
        obtain ⟨offsets', hend⟩ : ∃ offsets',
            scanColumns f own snapshot depth info.pageReset false
            (info.pageList.zip info.searchPageList) = some (.endOfFile, offsets', []) :=
          scanColumns_behind (h.cells_ne hb) h.ahead
        rw [hscan, Option.some.injEq, Prod.mk.injEq] at hend
        obtain ⟨rfl, -⟩ := hend
        cases hrun
        exact ⟨hbase, rfl, by simp⟩
      | cons placed rest =>
        have hround := scanColumns_placed h.ahead hscan
        cases flag with
        | endOfFile =>
          cases hrun
          exact ⟨hbase, rfl, by simp⟩
        | ignoreInvisibilityColumns => exact ih hbase (h.step hb (hround (by simp)).1) hrun
        | nextRow =>
          cases hrun
          obtain ⟨hoffsets, hread⟩ := hround (by simp)
          refine ⟨hbase, rfl, fun vals' hvals => ?_⟩
          cases hvals
          exact ⟨⟨member, rows, rest, h.step hb hoffsets⟩, placed.2,
            h.standsAt hb hoffsets (hread rfl).2⟩

theorem seqScanNextColumnOpt_ok (hb : ScanBase cols info)
    (h : info.pageList = [] ∨
      ∃ member rows rest, InPlaced f groups colNum cols info member rows rest)
    (hrun : seqScanNextColumnOpt f own snapshot depth fuel info = some (found, info')) :
    ScanBase cols info' ∧ info'.pageReset = false ∧
      ∀ vals, found = some vals → AtRow f groups colNum cols own snapshot info' vals := by
  rcases h with hnil | ⟨member, rows, rest, hin⟩
  · cases fuel with
    | zero => cases hrun
    | succ fuel =>
      simp only [seqScanNextColumnOpt, hnil, if_true, Option.some.injEq,
        Prod.mk.injEq] at hrun
      obtain ⟨rfl, rfl⟩ := hrun
      exact ⟨⟨hb.colindexList, hb.offsets, hb.first⟩, rfl, by simp⟩
  · exact seqScanNextColumnOpt_inPlaced hb hin hrun

/-- The pages of the next group. -/
theorem nextGroup_found (ht : TablePlaced f groups colNum) (hb : ScanBase cols info)
    (h : nextGroup f groups info = .found info') :
    ScanBase cols info' ∧ ∃ member rows,
      InPlaced f groups colNum cols info' member rows rows := by
  unfold nextGroup at h
  split at h
  next => cases h
  next item groupPageInfo hget =>
    have hat := getGroupInfo_at hb.first hget
    have hfirst : firstGroupPage ≤ (getGroupInfo groups info.groupPageInfo).2.pageNum :=
      searchGroupPages_first hb.first hb.first
    rw [hget] at hfirst
    dsimp only at h
    split at h
    next => cases h
    next => cases h
    next pageList hpages =>
      cases h
      refine ⟨⟨hb.colindexList, hb.offsets, hfirst⟩, ?_⟩
      have ⟨_, items, item', hitems, hitem, hvalid, hmember⟩ := hat
      obtain ⟨rows, hplaced⟩ := ht.groups items (List.mem_of_getElem? hitems) item'
        (List.mem_of_getElem? hitem) hvalid
      rw [hmember] at hplaced
      obtain ⟨hlist, hne, hrange⟩ := memberPages_pages hpages
      rw [hb.colindexList] at hlist hne hrange
      have hlt : ∀ c ∈ cols, c < colNum := fun c hc => by
        have := (hrange c hc).2
        rwa [Nat.zero_add, hplaced.length] at this
      refine ⟨item.member, rows, hat, hplaced, hne, hlt, hlist, fun _ => id, ?_⟩
      rintro ⟨pageno, o⟩ hcell
      obtain ⟨hpageno, -⟩ := List.of_mem_zip hcell
      obtain ⟨c, hc, rfl⟩ := List.mem_map.mp (hlist ▸ hpageno)
      obtain ⟨page, hpage, hitems⟩ := hplaced.items c (hlt c hc)
      obtain ⟨rooms, hf⟩ := ht.file
      exact ⟨page, hpage, hitems ▸ (hf.layout _ page hpage).ahead⟩

/-- The scan between two calls. -/
structure BetweenCalls (f : TableFile) (groups : GroupFork) (colNum : Nat) (cols : List Nat)
    (info : ScanPageInfo) : Prop where
  base : ScanBase cols info
  rows : info.pageList = [] ∨ info.pageReset = false ∧
    ∃ member rows rest, InPlaced f groups colNum cols info member rows rest

theorem nextGroup_done (hb : ScanBase cols info) (hnil : info.pageList = [])
    (h : nextGroup f groups info = .done info') :
    ScanBase cols info' ∧ info'.pageList = [] := by
  have hfirst : firstGroupPage ≤ (getGroupInfo groups info.groupPageInfo).2.pageNum :=
    searchGroupPages_first hb.first hb.first
  unfold nextGroup at h
  split at h
  next groupPageInfo hget =>
    rw [hget] at hfirst
    cases h
    exact ⟨⟨hb.colindexList, hb.offsets, hfirst⟩, hnil⟩
  next item groupPageInfo hget =>
    rw [hget] at hfirst
    dsimp only at h
    split at h
    next => cases h
    next =>
      cases h
      exact ⟨⟨hb.colindexList, hb.offsets, hfirst⟩, rfl⟩
    next => cases h

/-- The loop of `SeqscanNext`. -/
theorem seqscanLoop_ok {reset : Bool} (ht : TablePlaced f groups colNum)
    (h : BetweenCalls f groups colNum cols info) (hreset : reset = false → info.pageList = [])
    (hrun : seqscanLoop f groups own snapshot depth fuel reset info = some (found, info')) :
    BetweenCalls f groups colNum cols info' ∧
      ∀ vals, found = some vals → AtRow f groups colNum cols own snapshot info' vals := by
  induction fuel generalizing reset info with
  | zero => cases hrun
  | succ fuel ih =>
    rw [seqscanLoop] at hrun
    split at hrun
    next => cases hrun
    next last hgroup =>
      cases hrun
      split at hgroup
      next => cases hgroup
      next hfalse =>
        rw [Bool.not_eq_true] at hfalse
        obtain ⟨hbase, hnil⟩ := nextGroup_done h.base (hreset hfalse) hgroup
        exact ⟨⟨hbase, .inl hnil⟩, by simp⟩
    next info₁ hgroup =>
      have hready : ScanBase cols info₁ ∧ (info₁.pageList = [] ∨
          ∃ member rows rest, InPlaced f groups colNum cols info₁ member rows rest) := by
        split at hgroup
        next =>
          cases hgroup
          exact ⟨h.base, h.rows.imp id fun hin => hin.2⟩
        next =>
          obtain ⟨hbase, member, rows, hin⟩ := nextGroup_found ht h.base hgroup
          exact ⟨hbase, .inr ⟨member, rows, rows, hin⟩⟩
      split at hrun
      next => cases hrun
      next vals info₂ hnext =>
        cases hrun
        obtain ⟨hbase, hfalse, hrow⟩ := seqScanNextColumnOpt_ok hready.1 hready.2 hnext
        refine ⟨⟨hbase, .inr ⟨hfalse, (hrow vals rfl).1⟩⟩, fun vals' hvals => ?_⟩
        cases hvals
        exact hrow vals rfl
      next info₂ hnext =>
        obtain ⟨hbase, -, -⟩ := seqScanNextColumnOpt_ok hready.1 hready.2 hnext
        have hok : BetweenCalls f groups colNum cols { info₂ with pageList := [] } :=
          ⟨⟨hbase.colindexList, hbase.offsets, hbase.first⟩, .inl rfl⟩
        exact ih hok (fun _ => rfl) hrun

theorem initScanPositionInfo_ok (h : initScanPositionInfo colNum cols = some info) :
    BetweenCalls f groups colNum cols info := by
  rw [initScanPositionInfo] at h
  split at h
  · cases h
  · cases h
    exact ⟨⟨rfl, List.length_map .., Nat.le_refl _⟩, .inl rfl⟩

theorem BetweenCalls.reScan (h : BetweenCalls f groups colNum cols info) :
    BetweenCalls f groups colNum cols (execReSeqScan info) := by
  refine ⟨⟨h.base.colindexList, h.base.offsets, ?_⟩, .inl rfl⟩
  rw [execReSeqScan]
  dsimp only
  split
  · exact Nat.le_refl _
  · exact h.base.first

/-- A call of the scan. -/
theorem BetweenCalls.seqscanNext (ht : TablePlaced f groups colNum)
    (h : BetweenCalls f groups colNum cols info)
    (hrun : seqscanNext f groups own snapshot fuel info = some (found, info')) :
    BetweenCalls f groups colNum cols info' ∧
      ∀ vals, found = some vals → AtRow f groups colNum cols own snapshot info' vals := by
  refine seqscanLoop_ok ht h (fun hreset => ?_) hrun
  rw [Bool.not_eq_false'] at hreset
  rcases h.rows with hnil | ⟨hfalse, -⟩
  · exact hnil
  · rw [hreset] at hfalse
    cases hfalse

/-- The scan in any state that its calls come to. -/
theorem ScanState.ok {node : SeqScan} (ht : TablePlaced node.file node.groups node.colNum)
    (h : ScanState node own snapshot info) :
    BetweenCalls node.file node.groups node.colNum node.colindexList info := by
  induction h with
  | start hinit => exact initScanPositionInfo_ok hinit
  | next _ hrun ih => exact (ih.seqscanNext ht hrun).1
  | reScan _ ih => exact ih.reScan

/-! ## Columns of a row -/

section Columns

variable {pos : TableRowPosition}

/-- The scan stands at the row that it has handed out. -/
def TableRowPosition.At (own : Nat) (snapshot : SnapShotInfo) (pos : TableRowPosition)
    (row : TableRow) : Prop :=
  StandsAt pos.node.file pos.node.groups pos.node.colNum own snapshot
    pos.scanPostionInfo pos.rowData
    row

theorem TableRowPosition.HandedOut.at
    (ht : TablePlaced pos.node.file pos.node.groups pos.node.colNum)
    (h : pos.HandedOut own snapshot) : ∃ row, pos.At own snapshot row := by
  obtain ⟨info, fuel, hstate, hrun⟩ := h
  exact (((hstate.ok ht).seqscanNext ht hrun).2 pos.rowData rfl).2

/-- A column that the scan reads. -/
theorem TableRowPosition.At.getColRowDataEx_mem (h : pos.At own snapshot row)
    (hc : c ∈ pos.scanPostionInfo.colindexList) :
    ∃ v, getColRowDataEx pos c = some v ∧
      snapshot.newestShown own (row.versions c) = some v := by
  obtain ⟨i, hi⟩ := Option.isSome_iff_exists.mp (List.isSome_idxOf?.mpr hc)
  obtain ⟨hlt, hcol, -⟩ := List.idxOf?_eq_some_iff.mp hi
  have hlt' : i < pos.rowData.length := h.columns.length_eq ▸ hlt
  have hshown := h.columns.get hlt hlt'
  refine ⟨pos.rowData[i], ?_, ?_⟩
  · simp only [getColRowDataEx, hi, List.getElem?_eq_getElem hlt']
  · rw [List.get_eq_getElem, List.get_eq_getElem, hcol] at hshown
    exact hshown

/-- A column that is fetched. -/
theorem TableRowPosition.At.getColRowDataEx_not_mem (h : pos.At own snapshot row)
    (hlt : c < pos.node.colNum) (hc : c ∉ pos.scanPostionInfo.colindexList) :
    getColRowDataEx pos c = if row.moved c then none else (row.versions c).head? := by
  obtain ⟨member, o, hgroup, hlength, hoffsets, hcolumns⟩ := h.position
  have hhead : pos.scanPostionInfo.searchPageList.head? = some o := by
    rw [hoffsets, List.map_const', List.head?_replicate, if_neg]
    exact fun hzero => h.cols_ne (List.length_eq_zero_iff.mp hzero)
  have hpageno := hgroup.getPageNoFromGroupInfo (hlength ▸ hlt)
  simp only [getColRowDataEx, List.idxOf?_eq_none_iff.mpr hc, hhead, hpageno,
    Option.bind_eq_bind,
    Option.bind_some]
  exact (hcolumns c hlt).rowByIndex

theorem TableRowPosition.At.getColRowDataEx_not_lt (h : pos.At own snapshot row)
    (hlt : ¬ c < pos.node.colNum) : getColRowDataEx pos c = none := by
  obtain ⟨member, o, ⟨hpage, items, item, hitems, hitem, hvalid, rfl⟩, hlength, -, -⟩ :=
    h.position
  have hnone : item.member[c]? = none := List.getElem?_eq_none (by omega)
  have hc : c ∉ pos.scanPostionInfo.colindexList := fun hmem => hlt (h.range c hmem)
  simp only [getColRowDataEx, List.idxOf?_eq_none_iff.mpr hc,
    Toadb.getPageNoFromGroupInfo, hpage,
    hitems, hitem, hvalid, hnone, Option.bind_eq_bind, Option.bind_some,
      if_true, Option.bind_none,
    Option.bind_fun_none]

/-- A column is in the version that the snapshot is shown exactly when the scan reads it, or
it was not moved and its live version is shown. -/
theorem getColRowDataEx_shown_iff (h : pos.At own snapshot row) :
    (∃ v, getColRowDataEx pos c = some v ∧
      snapshot.newestShown own (row.versions c) = some v) ↔
      c ∈ pos.scanPostionInfo.colindexList ∨ c < pos.node.colNum ∧
        row.moved c = false ∧ LiveShown snapshot own (row.versions c) := by
  by_cases hc : c ∈ pos.scanPostionInfo.colindexList
  · exact iff_of_true (h.getColRowDataEx_mem hc) (.inl hc)
  · rw [or_iff_right hc]
    by_cases hlt : c < pos.node.colNum
    · rw [h.getColRowDataEx_not_mem hlt hc, and_iff_right hlt]
      cases row.moved c with
      | true => exact iff_of_false nofun nofun
      | false =>
        rw [if_neg Bool.false_ne_true, head_shown_iff]
        exact (and_iff_right rfl).symm
    · rw [h.getColRowDataEx_not_lt hlt]
      exact iff_of_false nofun fun hand => hlt hand.1

end Columns

/-! ## Rows of SELECT -/

/-- The scan of a range table entry that has handed out a row. -/
structure ScanOf (own : Nat) (snapshot : SnapShotInfo) (rte : RangTblEntry)
    (pos : TableRowPosition) :
    Prop where
  rindex : pos.rindex = rte.rindex
  colNum : rte.tblInfo.map (·.column.length) = some pos.node.colNum
  colindexList : rte.colindexList = some pos.node.colindexList
  placed : TablePlaced pos.node.file pos.node.groups pos.node.colNum
  handedOut : pos.HandedOut own snapshot

/-- A row that a SELECT looks at, whether or not the WHERE clause takes it: where the scans of
the range table stand. -/
structure SelectRow (getTableInfo : CString → Option TableList) (own : Nat)
    (snapshot : SnapShotInfo) (selectStmt : SelectStmt) (query : Query)
    (scanTblRow : List TableRowPosition) : Prop where
  query_eq : transformSelectStmt getTableInfo selectStmt = some query
  scans : List.Forall₂ (ScanOf own snapshot) query.rtable scanTblRow

section Row

variable (own : Nat) (snapshot : SnapShotInfo) (rtable : List RangTblEntry)
  (scanTblRow : List TableRowPosition) (rowOf : TableRowPosition → TableRow)

/-- The version of a column of the row that the snapshot is shown. -/
def shownColumn (column : Nat × Nat) : Option RowColumnData := do
  let rte ← getCellValueByIndex rtable column.1
  let pos ← getTblRowDataPosition scanTblRow rte.rindex
  snapshot.newestShown own ((rowOf pos).versions column.2)

/-- The row has the columns that the snapshot is shown, and the WHERE clause was decided by
such columns. -/
structure RowConsistent (query : Query) : Prop where
  targets : ∃ vals, fetchTargetColumns rtable scanTblRow query.targetList = some vals ∧
    query.targetList.mapM (fun target =>
      shownColumn own snapshot rtable scanTblRow rowOf target.column)
      = some vals
  conditions : ∀ column ∈ query.joinTree.flatMap QualNode.columns, ∃ v,
    readColumn rtable scanTblRow column = some v ∧
      shownColumn own snapshot rtable scanTblRow rowOf column = some v

/-- The column is one that the scan of its table reads, or a column of the table that was not
moved and whose live version is shown. -/
def ScannedOrLive (column : Nat × Nat) : Prop :=
  ∃ rte pos, getCellValueByIndex rtable column.1 = some rte ∧
    getTblRowDataPosition scanTblRow rte.rindex = some pos ∧
    (column.2 ∈ pos.scanPostionInfo.colindexList ∨ column.2 < pos.node.colNum ∧
      (rowOf pos).moved column.2 = false ∧
        LiveShown snapshot own ((rowOf pos).versions column.2))

end Row

theorem mapM_eq_iff {α β : Type} {g g' : α → Option β} {as : List α} :
    (∃ bs, as.mapM g = some bs ∧ as.mapM g' = some bs) ↔
      ∀ a ∈ as, ∃ b, g a = some b ∧ g' a = some b := by
  induction as with
  | nil => exact iff_of_true ⟨[], rfl, rfl⟩ nofun
  | cons a as ih =>
    simp only [List.mapM_cons, Option.bind_eq_bind, Option.bind_eq_some_iff, Option.pure_def,
      Option.some.injEq, List.forall_mem_cons, ← ih]
    constructor
    · rintro ⟨-, ⟨b, hb, bs, hbs, rfl⟩, b', hb', bs', hbs', heq⟩
      obtain ⟨rfl, rfl⟩ := List.cons.inj heq
      exact ⟨⟨b', hb, hb'⟩, bs', hbs, hbs'⟩
    · rintro ⟨⟨b, hb, hb'⟩, bs, hbs, hbs'⟩
      exact ⟨b :: bs, ⟨b, hb, bs, hbs, rfl⟩, b, hb', bs, hbs', rfl⟩

/-- A column of the row, as it is read and as it is shown. -/
theorem readColumn_shown_iff {rtable : List RangTblEntry} {scanTblRow : List TableRowPosition}
    {rowOf : TableRowPosition → TableRow} {column : Nat × Nat}
    (h : ∀ pos ∈ scanTblRow, pos.At own snapshot (rowOf pos)) :
    (∃ v, readColumn rtable scanTblRow column = some v ∧
        shownColumn own snapshot rtable scanTblRow rowOf column = some v) ↔
      ScannedOrLive own snapshot rtable scanTblRow rowOf column := by
  rw [readColumn, shownColumn, ScannedOrLive]
  cases getCellValueByIndex rtable column.1 with
  | none => exact iff_of_false nofun nofun
  | some rte =>
    cases hpos : getTblRowDataPosition scanTblRow rte.rindex with
    | none =>
      simp only [Option.bind_eq_bind, Option.bind_some, hpos, Option.bind_none]
      refine iff_of_false nofun ?_
      rintro ⟨rte', pos, hrte, hpos', -⟩
      cases hrte
      rw [hpos] at hpos'
      cases hpos'
    | some pos =>
      simp only [Option.bind_eq_bind, Option.bind_some, hpos]
      rw [getColRowDataEx_shown_iff (h pos (List.mem_of_find?_eq_some hpos))]
      constructor
      · intro hread
        exact ⟨rte, pos, rfl, hpos, hread⟩
      · rintro ⟨rte', pos', hrte, hpos', hread⟩
        cases hrte
        rw [hpos] at hpos'
        cases hpos'
        exact hread

theorem forall₂_exists_right {α β : Type} {R : α → β → Prop} {as : List α} {bs : List β}
    (h : List.Forall₂ R as bs) : ∀ b ∈ bs, ∃ a, R a b := by
  induction h with
  | nil => exact nofun
  | cons hfirst _ ih => exact List.forall_mem_cons.mpr ⟨⟨_, hfirst⟩, ih⟩

/-- Every scan of a row of SELECT stands at a row of its table. And the row of SELECT is
consistent with the snapshot exactly when each column that the result or the WHERE clause
reads is one that the scan of its table reads, or was not moved and is shown to the snapshot
in its live version. -/
theorem select_row_consistent_iff {getTableInfo : CString → Option TableList}
    {selectStmt : SelectStmt} {query : Query} {scanTblRow : List TableRowPosition}
    (h : SelectRow getTableInfo own snapshot selectStmt query scanTblRow) :
    (∃ rowOf : TableRowPosition → TableRow, ∀ pos ∈ scanTblRow,
      pos.At own snapshot (rowOf pos)) ∧
      ∀ rowOf : TableRowPosition → TableRow,
        (∀ pos ∈ scanTblRow, pos.At own snapshot (rowOf pos)) →
        (RowConsistent own snapshot query.rtable scanTblRow rowOf query ↔
          ∀ column ∈ query.columns,
            ScannedOrLive own snapshot query.rtable scanTblRow rowOf column) := by
  constructor
  · have hat : ∀ pos ∈ scanTblRow, ∃ row, pos.At own snapshot row := by
      intro pos hmem
      obtain ⟨rte, hscan⟩ := forall₂_exists_right h.scans pos hmem
      exact hscan.handedOut.at hscan.placed
    have : Nonempty TableRow := ⟨⟨fun _ => [], fun _ => false⟩⟩
    choose! rowOf hrowOf using hat
    exact ⟨rowOf, hrowOf⟩
  · intro rowOf hrowOf
    rw [Query.columns, List.forall_mem_append, List.forall_mem_map]
    simp only [← readColumn_shown_iff hrowOf]
    exact ⟨fun hrow => ⟨mapM_eq_iff.mp hrow.targets, hrow.conditions⟩,
      fun hcolumns => ⟨mapM_eq_iff.mpr hcolumns.1, hcolumns.2⟩⟩

/-! ## A table with an update under way -/

/-- The update of the second column by transaction 2, which is still running. -/
def replaceB : ColumnUpdate :=
  ⟨plainRow 6 2, 54, ⟨3, 40, ⟨4042, true, false, 54⟩⟩, plainRow 5 7⟩

def updatedTable : TableFile := (paxExecUpdate 2 replaceB twoColumnTable).2

/-- A snapshot that transaction 3 takes meanwhile. -/
def meanwhile : SnapShotInfo := ⟨4, 2, 1, [2]⟩

theorem RowVersions.columnPlaced {r : RowColumnData} {rs : List RowColumnData}
    (h : RowVersions f no o r rs) (hat : RowAt f no o r) (hmoved : row.moved c = false)
    (hversions : row.versions c = r :: rs) : ColumnPlaced f no c o row := by
  obtain ⟨page, hpage, htype⟩ := h.head.1
  exact ⟨page, hpage, htype, (hat.stored hpage).1.redirect.trans hmoved.symm,
    r, rs, h, hversions⟩

/-- Its row. -/
theorem updatedTable_row : ∃ row : TableRow,
    ColumnPlaced updatedTable 2 0 40 row ∧ ColumnPlaced updatedTable 3 1 40 row := by
  obtain ⟨rooms, hf, hat₁, hat₂⟩ := twoColumnTable_rows
  have hpage : twoColumnTable.page 3 =
      some (writeRowOnePage (initPage 3) (plainRow 6 2)).1 := rfl
  have hdone : paxExecUpdate 2 replaceB twoColumnTable = (true, updatedTable) :=
    Prod.ext (by decide) rfl
  have hold : RowVersions twoColumnTable 3 40 replaceB.old [] :=
    ⟨⟨rooms, hf⟩, ⟨⟨_, hpage, rfl⟩, .inl hat₂⟩, .last rfl⟩
  have hfits : replaceB.row.Fits := plainRow_fits (by norm_num) 7
  obtain ⟨pos, hnew, hstays⟩ := hold.paxExecUpdate (by decide) hpage (by decide)
    (by decide) (by decide) hfits (by norm_num) hdone
  obtain ⟨-, hwritten, -⟩ := hf.paxExecUpdate (by decide) hpage rfl
    (by decide) hat₂ (by decide) hfits (by norm_num) hdone
  have hkept : RowAt updatedTable 2 40 (plainRow 5 1) :=
    hwritten.others 2 40 _ (by decide) hat₁
  have htype : (updatedTable.page 2).map PageDataHeader.pageType = some .data := by decide
  have hfirst : RowVersions updatedTable 2 40 (plainRow 5 1) [] :=
    ⟨hnew.file, ⟨Option.map_eq_some_iff.mp htype, .inl hkept⟩, .last rfl⟩
  refine ⟨⟨fun c => if c = 0 then [plainRow 5 1]
    else [replaceB.newRow 2 pos, replaceB.undoRow 2],
    fun _ => false⟩, ?_, ?_⟩
  · exact hfirst.columnPlaced hkept rfl rfl
  · exact hnew.columnPlaced (hstays.mp (by decide)) rfl rfl

theorem updatedTable_placed : TablePlaced updatedTable twoColumnGroups 2 := by
  obtain ⟨row, hfirst, hsecond⟩ := updatedTable_row
  have ⟨_, _, _, _, _, _, hversions, _⟩ := hfirst
  refine ⟨hversions.file, ?_⟩
  have hitems : ∀ no ∈ [2, 3], (updatedTable.page no).map validItems = some [40] := by decide
  intro items hmem item hitem _
  rw [twoColumnGroups, List.mem_singleton] at hmem
  rw [hmem, List.mem_singleton] at hitem
  subst hitem
  refine ⟨[(40, row)], rfl, ?_, ?_⟩
  · intro c hc
    refine Option.map_eq_some_iff.mp (hitems _ ?_)
    obtain rfl | rfl : c = 0 ∨ c = 1 := by omega
    · decide
    · decide
  · intro placed hplaced c hc
    rw [List.mem_singleton] at hplaced
    subst hplaced
    obtain rfl | rfl : c = 0 ∨ c = 1 := by omega
    · exact hfirst
    · exact hsecond

/-- The table `t` with the columns `a` and `b`. -/
def tableAB (tableName : CString) : Option TableList :=
  if tableName = tableT then some ⟨[⟨columnA, .varchar, 0⟩, ⟨columnB, .varchar, 1⟩]⟩ else none

/-- `SELECT b FROM t WHERE a = …`, with the value that the row has. -/
def selectB : SelectStmt where
  targetlist := [⟨none, .columnRef ⟨columnB, none, .unknown, 0⟩, .null, false⟩]
  fromList := [⟨tableT, none⟩]
  whereList := [.aExpr .equal (.columnRef ⟨columnA, none, .unknown, 0⟩)
    (.constValue ⟨.varchar, .pData (cString [1, 1, 1, 1, 1])⟩)]

/-- `SELECT a, b FROM t`. -/
def selectAB : SelectStmt where
  targetlist := [⟨none, .columnRef ⟨columnA, none, .unknown, 0⟩, .null, false⟩,
    ⟨none, .columnRef ⟨columnB, none, .unknown, 0⟩, .null, false⟩]
  fromList := [⟨tableT, none⟩]
  whereList := []

/-- The scan of some columns of the table, at its row. -/
def scanUpdated (cols : List Nat) (vals : List RowColumnData) : TableRowPosition where
  rindex := 1
  node := ⟨updatedTable, twoColumnGroups, 2, cols⟩
  scanPostionInfo :=
    ⟨⟨true, 2, 0, 1⟩, cols, false, cols.map (memberPage [2, 3]), cols.map fun _ => 40⟩
  rowData := vals

/-- Both columns are scanned, and the second one is in the version from before the update. -/
theorem selectAB_consistent : ∃ query rowOf,
    transformSelectStmt tableAB selectAB = some query ∧
      RowConsistent 3 meanwhile query.rtable
        [scanUpdated [0, 1] [plainRow 5 1, replaceB.undoRow 2]] rowOf query := by
  have hrun : (initScanPositionInfo 2 [0, 1]).bind
      (seqscanNext updatedTable twoColumnGroups 3 meanwhile 5) = some (some
        [plainRow 5 1, replaceB.undoRow 2],
        (scanUpdated [0, 1] [plainRow 5 1, replaceB.undoRow 2]).scanPostionInfo) := by
    decide
  have hrow : SelectRow tableAB 3 meanwhile selectAB _
      [scanUpdated [0, 1] [plainRow 5 1, replaceB.undoRow 2]] :=
    ⟨rfl, .cons ⟨rfl, rfl, rfl, updatedTable_placed, _, 5, .start rfl, hrun⟩ .nil⟩
  obtain ⟨⟨rowOf, hat⟩, hiff⟩ := select_row_consistent_iff hrow
  refine ⟨_, rowOf, rfl, (hiff rowOf hat).mpr ?_⟩
  intro column hmem
  have hcolumns : column = (1, 0) ∨ column = (1, 1) := by
    have hmem' : column ∈ [(1, 0), (1, 1)] := hmem
    simpa using hmem'
  rcases hcolumns with rfl | rfl
  all_goals
    exact ⟨_, scanUpdated [0, 1] [plainRow 5 1, replaceB.undoRow 2], rfl,
      rfl, .inl (by decide)⟩

/-- The row has the value of a transaction that is still running. -/
theorem selectB_uncommitted :
    ¬ ∀ (getTableInfo : CString → Option TableList) (own : Nat) (snapshot : SnapShotInfo)
      (selectStmt : SelectStmt) (query : Query) (scanTblRow : List TableRowPosition)
      (rowOf : TableRowPosition → TableRow),
      SelectRow getTableInfo own snapshot selectStmt query scanTblRow →
      (∀ pos ∈ scanTblRow, pos.At own snapshot (rowOf pos)) →
      RowConsistent own snapshot query.rtable scanTblRow rowOf query := by
  intro h
  have hrun : (initScanPositionInfo 2 [0]).bind
      (seqscanNext updatedTable twoColumnGroups 3 meanwhile 5) = some (some [plainRow 5 1],
        (scanUpdated [0] [plainRow 5 1]).scanPostionInfo) := by
    decide
  have hhanded : (scanUpdated [0] [plainRow 5 1]).HandedOut 3 meanwhile :=
    ⟨_, 5, .start rfl, hrun⟩
  obtain ⟨row, hat⟩ := hhanded.at updatedTable_placed
  have hconsistent :=
    h tableAB 3 meanwhile selectB _ [scanUpdated [0] [plainRow 5 1]] (fun _ => row)
      ⟨rfl, .cons ⟨rfl, rfl, rfl, updatedTable_placed, hhanded⟩ .nil⟩
        (List.forall_mem_singleton.mpr hat)
  obtain ⟨v, hread, hshown⟩ := mapM_eq_iff.mp hconsistent.targets _ List.mem_cons_self
  have hlive : (rowByIndex updatedTable 3 40).all (fun r => !decide (meanwhile.Shows 3 r)) =
      true := by
    decide
  have hvalue : rowByIndex updatedTable 3 40 = some v := hread
  rw [hvalue] at hlive
  have hnewest : meanwhile.newestShown 3 (row.versions 1) = some v := hshown
  simp [shows_of_newestShown hnewest] at hlive

end Toadb
