/-
Toadb.Executor.ScanRowTheorems — where the scan of a stored table stands.

When the scan hands out row `i` of a group it stands at item `i` of its pages
(`ScanOn`), with the version of each column that is shown (`RowShown`). What it hands
out next depends on the rows behind this one and on no other
(`GroupsStored.seqscanNext_on`), so that a cell of this row may be changed in between.
-/
import Toadb.Executor.ColumnFetchTheorems
import Toadb.Executor.TableStoreTheorems

namespace Toadb

open VersionedTable Cursor

variable {f : TableFile} {rooms : Nat → Int → Nat} {page : PageDataHeader} {own colNum : Nat}
  {snapshot : SnapShotInfo}
  {cols : List Nat} {item : GroupItem} {rows : List VersionedRow} {tableRows : List TableRow}
  {row : VersionedRow}
  {cell : Cell (Nat × Int) Nat StoredValue} {vals : List RowColumnData}
  {info info' : ScanPageInfo}

/-! ## Versions -/

/-- The versions of a cell, the newest at its item and the others in its undo chain. -/
structure CellHas (f : TableFile) (cell : Cell (Nat × Int) Nat StoredValue)
    (r : RowColumnData) (rs : List RowColumnData) :
    Prop where
  page : IsDataPage f cell.pos.1
  row : RowAt f cell.pos.1 cell.pos.2 r
  chain : UndoChain f r.headerData.undo rs
  older : ∀ v ∈ rs, v.headerData.tmax ≠ invalidXtid
  versions : cell.versions = (r :: rs).map RowColumnData.toVersion

theorem CellStored.has {no : Nat} {o : Int} (h : CellStored f no o cell) :
    ∃ r rs, CellHas f cell r rs := by
  obtain ⟨hpos, hpage, r, rs, hat, hchain, holder, hversions⟩ := h
  exact ⟨r, rs, by rw [hpos]; exact hpage, by rw [hpos]; exact hat, hchain, holder, hversions⟩

/-- The columns of a row, each in the version that the snapshot is shown. -/
def RowShown (f : TableFile) (own : Nat) (snapshot : SnapShotInfo) (cols : List Nat)
    (row : VersionedRow) (vals : List RowColumnData) : Prop :=
  List.Forall₂ (fun c v => ∃ cell r rs, row[c]? = some cell ∧ CellHas f cell r rs ∧
    snapshot.newestShown own (r :: rs) = some v) cols vals

theorem mapM_eq_some_iff {α β : Type} {g : α → Option β} {as : List α} {bs : List β} :
    as.mapM g = some bs ↔ List.Forall₂ (fun a b => g a = some b) as bs := by
  induction as generalizing bs with
  | nil =>
    rw [List.mapM_nil, List.forall₂_nil_left_iff, Option.pure_def, Option.some.injEq]
    exact eq_comm
  | cons a as ih =>
    rw [List.mapM_cons, List.forall₂_cons_left_iff]
    simp only [Option.bind_eq_bind, Option.bind_eq_some_iff, Option.pure_def,
      Option.some.injEq, ih]
    constructor
    · rintro ⟨b, hb, bs, hbs, rfl⟩
      exact ⟨b, bs, hb, hbs, rfl⟩
    · rintro ⟨b, bs, hb, hbs, rfl⟩
      exact ⟨b, hb, bs, hbs, rfl⟩

/-- A row that the scan hands out. -/
theorem GroupStored.rowShown (hf : FileOk f rooms) (h : GroupStored f item rows)
    (hreads : GroupReads f item colNum rows tableRows) (hrange : ∀ c ∈ cols, c < colNum)
    {i : Nat} (hi : i < rows.length)
    (hi' : i < tableRows.length) (hshown : tableRows[i].shown snapshot own cols = some vals) :
    RowShown f own snapshot cols rows[i] vals := by
  refine (List.forall₂_and_left _ _).mpr
    ⟨fun c hc => hc, mapM_eq_some_iff.mp hshown⟩ |>.imp ?_
  rintro c v ⟨hc, hv⟩
  have hlt : c < item.member.length := hreads.length ▸ hrange c hc
  have hstored := h.rows i hi
  have hrow : c < rows[i].length := List.Forall₂.length_eq hstored ▸ hlt
  have hcell := hstored.get hlt hrow
  obtain ⟨r, rs, hhas⟩ := hcell.has
  obtain ⟨page, -, -, -, hitems⟩ := hreads.pages c (hrange c hc)
  have hitem := hitems.get (i := i) (by simpa using hi) hi'
  obtain ⟨-, r', rs', hversions, heq⟩ := hitem
  have hmember : memberPage item.member c = item.member[c] := by simp [memberPage, hlt]
  have hpos := hcell.pos
  have hsame := hhas.row
  have hpage := hhas.page
  rw [hpos] at hsame hpage
  obtain ⟨rfl, rfl⟩ := RowVersions.unique ⟨⟨rooms, hf⟩, ⟨hpage, .inl hsame⟩, hhas.chain⟩
    (by simpa [hmember] using hversions)
  exact ⟨rows[i][c], r, rs, by simp [hrow], hhas, by rwa [← heq]⟩

/-! ## The rows of a group -/

/-- Is the row shown to a reader? -/
def Visible (snapshot : SnapShotInfo) (own : Nat) (cols : List Nat)
    (row : VersionedRow) : Bool :=
  (Row.read (snapshot.Sees own) cols row).isSome

theorem RowIs.visible {tableRow : TableRow} (h : RowIs row tableRow colNum)
    (hrange : ∀ c ∈ cols, c < colNum) (own : Nat) (snapshot : SnapShotInfo) :
    (tableRow.shown snapshot own cols).isSome = Visible snapshot own cols row := by
  rw [Visible, ← h.read hrange, Option.isSome_map]

/-- The scan has the rows of a group from number `n` on before it: what it hands out next. -/
theorem GroupStored.seqScanNextColumnOpt (hf : FileOk f rooms) (h : GroupStored f item rows)
    (hreads : GroupReads f item colNum rows tableRows) (hcols : cols ≠ [])
    (hrange : ∀ c ∈ cols, c < colNum) {n : Nat}
    (hin : InGroup f cols info (tableRows.drop n)) (own : Nat) (snapshot : SnapShotInfo) :
    ∃ found info', Returns₂ (fun depth fuel =>
      Toadb.seqScanNextColumnOpt f own snapshot depth fuel info) (found, info') ∧
      SameSearch info info' ∧ info'.pageList = info.pageList ∧
      match (rows.drop n).filter (Visible snapshot own cols) with
      | [] => found = none
      | row :: rest =>
        ∃ i vals, found = some vals ∧ rows[i]? = some row ∧
          RowShown f own snapshot cols row vals ∧
          (rows.drop (i + 1)).filter (Visible snapshot own cols) = rest ∧
            InGroup f cols info' (tableRows.drop (i + 1)) := by
  have hlen := hreads.rowIs.length_eq
  induction hm : rows.length - n generalizing n info with
  | zero =>
    rw [List.drop_eq_nil_of_le (by omega)] at hin
    obtain ⟨offsets, hscan⟩ := scanColumns_end snapshot own hin.ahead hcols false
    refine ⟨none, { info with searchPageList := offsets, pageReset := false },
      .of_first (returns_of_const hscan) ?_,
      ⟨rfl, rfl, ?_, rfl⟩, rfl, by rw [List.drop_eq_nil_of_le (by omega)]; rfl⟩
    · intro depth fuel hdepth
      simp [Toadb.seqScanNextColumnOpt, hin.pages_ne hcols, hdepth]
    · simp [scanColumns_length (hscan 0), hin.pages, hin.offsets]
  | succ m ih =>
    have hn : n < rows.length := by omega
    have hn' : n < tableRows.length := hlen ▸ hn
    rw [List.drop_eq_getElem_cons hn'] at hin
    have hvisible := (hreads.rowIs.get hn hn').visible hrange own snapshot
    obtain ⟨flag, offsets, vals, hscan, hahead, hflag⟩ :=
      scanColumns_row snapshot own hin.ahead (hreads.readable _ (List.getElem_mem hn'))
    have hoffsets : offsets.length = (info.pageList.zip info.searchPageList).length := by
      obtain ⟨k, hk⟩ := hscan
      exact scanColumns_length (hk k le_rfl)
    have hstep := hin.step hoffsets hahead
    have hsame : SameSearch info { info with searchPageList := offsets,
                                             pageReset := false } :=
      ⟨rfl, rfl, by rw [hstep.offsets, hin.offsets], rfl⟩
    rw [List.drop_eq_getElem_cons hn]
    cases hshown : tableRows[n].shown snapshot own cols with
    | some vals' =>
      rw [hshown] at hflag
      obtain ⟨rfl, rfl⟩ := hflag
      have hpos : Visible snapshot own cols rows[n] = true := by
        rw [List.get_eq_getElem, hshown] at hvisible
        exact hvisible.symm
      rw [List.filter_cons_of_pos hpos]
      refine ⟨some vals, _, .of_first hscan ?_, hsame, rfl, n, vals, rfl,
        List.getElem?_eq_getElem hn,
        h.rowShown hf hreads hrange hn hn' hshown, rfl, hstep⟩
      intro depth fuel hdepth
      simp [Toadb.seqScanNextColumnOpt, hin.pages_ne hcols, hdepth]
    | none =>
      rw [hshown] at hflag
      subst hflag
      have hneg : Visible snapshot own cols rows[n] = false := by
        rw [List.get_eq_getElem, hshown] at hvisible
        exact hvisible.symm
      rw [List.filter_cons_of_neg (by simp [hneg])]
      obtain ⟨found, info', hnext, hsame', hlist, hrest⟩ := ih hstep (by omega)
      refine ⟨found, info', .of_succ hscan hnext ?_,
        ⟨hsame'.group, hsame'.cols, ?_, hsame'.reset⟩, hlist, hrest⟩
      · intro depth fuel hdepth hrec
        simp [Toadb.seqScanNextColumnOpt, hin.pages_ne hcols, hdepth, hrec]
      · rw [hsame'.offsets, hsame.offsets]

/-! ## Where a scan stands -/

/-- A search that has left the items behind number `i` stands at it. -/
theorem Ahead.offset {o : Int} {items : List Int} (h : Ahead page o items) {n i : Nat}
    (hend : page.dataOffset = itemOffsetOfIndex n)
    (hvalid : ∀ j < n, (page.item (itemOffsetOfIndex j)).valid = true)
    (hi : i < n) (hlen : items.length = n - (i + 1)) : o = itemOffsetOfIndex i := by
  obtain ⟨k, m, hkm, hitems, hstart⟩ := h
  obtain rfl : n = k + m := itemOffsetOfIndex_inj (hend.symm.trans hkm)
  rw [hitems, validFrom_eq fun j _ hj => hvalid j hj, List.length_map,
    List.length_range'] at hlen
  obtain rfl : k = i + 1 := by omega
  split at hstart
  · rw [← itemOffsetOfIndex_succ] at hstart
    omega
  · rw [itemOffsetOfIndex_eq] at hstart
    rw [pageDataHeaderSize] at hstart
    omega

/-- The scan in a group, behind row `i`. -/
theorem GroupReads.offsets (h : GroupReads f item colNum rows tableRows)
    (hrange : ∀ c ∈ cols, c < colNum)
    (hpages : info.pageList = cols.map (memberPage item.member))
    (hreset : info.pageReset = false) {i : Nat}
    (hi : i < rows.length) (hin : InGroup f cols info (tableRows.drop (i + 1))) :
    info.searchPageList = cols.map fun _ => itemOffsetOfIndex i := by
  refine List.ext_getElem (by rw [hin.offsets, List.length_map]) fun k hk hk' => ?_
  have hcol : k < cols.length := by simpa using hk'
  have hahead := hin.ahead
  rw [hpages, hreset] at hahead
  have hcell := hahead.get (i := k) (by simp [hcol, hk]) hcol
  obtain ⟨page, items, hpage, -, hitems, hrows⟩ := hcell
  have hc := hrange cols[k] (List.getElem_mem hcol)
  simp only [List.get_eq_getElem, List.getElem_zip, List.getElem_map, Bool.false_eq_true,
    if_false] at hpage hitems
  obtain ⟨page', hpage', -, hend, -⟩ := h.pages cols[k] hc
  rw [hpage, Option.some.injEq] at hpage'
  subst hpage'
  rw [List.getElem_map]
  refine hitems.offset hend (fun j hj => h.valid hc hpage hj) hi ?_
  rw [hrows.length_eq, List.length_drop, h.rowIs.length_eq]

variable {t : PaxTable} {groups : List (List VersionedRow)} {k n i : Nat}

/-- The scan has the groups from number `k` on before it. -/
structure ScanBefore (t : PaxTable) (cols : List Nat) (info : ScanPageInfo)
    (k : Nat) : Prop where
  search : SearchOk t.groups info.groupPageInfo
  colindexList : info.colindexList = cols
  offsets : info.searchPageList.length = cols.length
  ahead : groupsAhead t.groups info.groupPageInfo = t.groupList.drop k

/-- The scan has the pages of group `k`. -/
structure ScanIn (t : PaxTable) (cols : List Nat) (info : ScanPageInfo) (k : Nat)
    (item : GroupItem) : Prop extends
    ScanBefore t cols info (k + 1) where
  listed : t.groupList[k]? = some item
  group : AtGroup t.groups info.groupPageInfo item.member
  pages : info.pageList = cols.map (memberPage item.member)

/-- The scan has just handed out row `i` of group `k`. -/
structure ScanOn (t : PaxTable) (cols : List Nat) (info : ScanPageInfo)
    (k i : Nat) : Prop where
  group : ∃ item, ScanIn t cols info k item
  reset : info.pageReset = false
  itemOffset : info.searchPageList = cols.map fun _ => itemOffsetOfIndex i

/-- The scan stands where it stands, whatever the pages hold. -/
theorem ScanOn.onFile (h : ScanOn t cols info k i) (f : TableFile) :
    ScanOn { t with file := f } cols info k i := by
  obtain ⟨⟨item, ⟨⟨hsearch, hcols, hoffsets, hahead⟩, hlisted, hgroup, hpages⟩⟩,
      hreset, hitemOffset⟩ := h
  exact ⟨⟨item, ⟨hsearch, hcols, hoffsets, hahead⟩, hlisted, hgroup, hpages⟩,
    hreset, hitemOffset⟩

/-- The rows from number `n` of group `k` on. -/
def rowsFrom (groups : List (List VersionedRow)) (k n : Nat) : List VersionedRow :=
  ((groups[k]?).getD []).drop n ++ (groups.drop (k + 1)).flatten

theorem rowsFrom_some (h : groups[k]? = some rows) (n : Nat) :
    rowsFrom groups k n = rows.drop n ++ (groups.drop (k + 1)).flatten := by
  rw [rowsFrom, h, Option.getD_some]

theorem rowsFrom_zero (groups : List (List VersionedRow)) (k : Nat) :
    rowsFrom groups k 0 = (groups.drop k).flatten := by
  rw [rowsFrom, List.drop_zero]
  rcases Nat.lt_or_ge k groups.length with hlt | hge
  · rw [List.getElem?_eq_getElem hlt, Option.getD_some,
      List.drop_eq_getElem_cons hlt, List.flatten_cons]
  · rw [List.getElem?_eq_none hge, List.drop_eq_nil_of_le hge,
      List.drop_eq_nil_of_le (by omega)]
    rfl

/-- What a call comes to when it has the rows `is` before it. -/
def ScanHands (t : PaxTable) (groups : List (List VersionedRow)) (cols : List Nat) (own : Nat)
    (snapshot : SnapShotInfo) (is : List VersionedRow) (found : Option (List RowColumnData))
    (info : ScanPageInfo) : Prop :=
  match is with
  | [] => found = none
  | row :: rest =>
    ∃ k i rows vals, found = some vals ∧ ScanOn t cols info k i ∧ groups[k]? = some rows ∧
      rows[i]? = some row ∧ RowShown t.file own snapshot cols row vals ∧
      (rowsFrom groups k (i + 1)).filter (Visible snapshot own cols) = rest

theorem ScanIn.same (h : ScanIn t cols info k item) (hsame : SameSearch info info')
    (hpages : info'.pageList = info.pageList) : ScanIn t cols info' k item := by
  refine ⟨⟨?_, hsame.cols.trans h.colindexList, hsame.offsets.trans h.offsets, ?_⟩, h.listed,
    ?_, hpages.trans h.pages⟩
  · rw [hsame.group]
    exact h.search
  · rw [hsame.group]
    exact h.ahead
  · rw [hsame.group]
    exact h.group

/-- The scan finds the pages of the next group. -/
theorem ScanBefore.nextGroup (h : ScanBefore t cols info k)
    (hitem : t.groupList[k]? = some item)
    (hmembers : MembersOk t.file item.member) (hasc : Ascending cols)
    (hrange : ∀ c ∈ cols, c < item.member.length) :
    ∃ info', nextGroup t.file t.groups info = .found info' ∧ ScanIn t cols info' k item ∧
      info'.pageReset = true := by
  obtain ⟨hk, hget⟩ := List.getElem?_eq_some_iff.mp hitem
  have hahead : groupsAhead t.groups info.groupPageInfo =
      item :: t.groupList.drop (k + 1) := by
    rw [h.ahead, List.drop_eq_getElem_cons hk, hget]
  obtain ⟨searchInfo, hsearch, hok, hrest⟩ := getGroupInfo_some h.search hahead
  have hpages : getGroupMemberPagesOpt t.file item cols =
      .pages (cols.map (memberPage item.member)) :=
    (memberPages_eq_iff hmembers hrange).mpr hasc
  refine ⟨{ info with
    groupPageInfo := searchInfo
    pageReset := true
    pageList := cols.map (memberPage item.member) }, ?_,
      ⟨⟨hok, h.colindexList, h.offsets, hrest⟩, hitem,
    getGroupInfo_at h.search.first hsearch, rfl⟩, rfl⟩
  simp [Toadb.nextGroup, hsearch, h.colindexList, hpages]

theorem ScanBefore.release (h : ScanBefore t cols info k) :
    ScanBefore t cols { info with pageList := [] } k :=
  ⟨h.search, h.colindexList, h.offsets, h.ahead⟩

/-- Behind the last group. -/
theorem ScanBefore.nextGroup_end (h : ScanBefore t cols info k)
    (hk : t.groupList.length ≤ k) :
    Toadb.nextGroup t.file t.groups info =
      .done { info with groupPageInfo := lastSearch t.groups info.groupPageInfo } := by
  have hget := getGroupInfo_none h.search (h.ahead.trans (List.drop_eq_nil_of_le hk))
  simp [Toadb.nextGroup, hget]

/-- At the beginning of a group. -/
theorem GroupReads.inGroup (hf : FileOk f rooms) (h : GroupReads f item colNum rows tableRows)
    (hrange : ∀ c ∈ cols, c < colNum)
    (hpages : info.pageList = cols.map (memberPage item.member))
    (hoffsets : info.searchPageList.length = cols.length) (hreset : info.pageReset = true) :
    InGroup f cols info tableRows := by
  refine ⟨by rw [hpages, List.length_map], hoffsets, ?_⟩
  rw [hpages, hreset]
  refine List.forall₂_iff_get.mpr
    ⟨by rw [List.length_zip, List.length_map, hoffsets, Nat.min_self], fun j hj hj' => ?_⟩
  have hc := hrange cols[j] (List.getElem_mem hj')
  obtain ⟨page, hpage, htype, hend, hitems⟩ := h.pages cols[j] hc
  have hcolumn : ColumnAhead f cols[j] tableRows (memberPage item.member cols[j]) 0 := by
    refine hf.columnAhead hpage htype ?_
    rwa [validItems, getItemIndex_eq hend,
      validFrom_eq fun i _ hi => h.valid hc hpage (by omega)]
  simpa using hcolumn

/-- Behind row `i` of a group. -/
theorem GroupReads.inGroup_on (h : GroupReads f item colNum rows tableRows)
    (hrange : ∀ c ∈ cols, c < colNum)
    (hpages : info.pageList = cols.map (memberPage item.member))
    (hoffsets : info.searchPageList = cols.map fun _ => itemOffsetOfIndex i)
    (hreset : info.pageReset = false)
    (hi : i < rows.length) : InGroup f cols info (tableRows.drop (i + 1)) := by
  refine ⟨by rw [hpages, List.length_map], by rw [hoffsets, List.length_map], ?_⟩
  rw [hpages, hoffsets, hreset]
  refine List.forall₂_iff_get.mpr ⟨by simp, fun j hj hj' => ?_⟩
  have hc := hrange cols[j] (List.getElem_mem hj')
  obtain ⟨page, hpage, htype, hend, hitems⟩ := h.pages cols[j] hc
  have hcolumn : ColumnAhead f cols[j] (tableRows.drop (i + 1))
      (memberPage item.member cols[j]) (itemOffsetOfIndex i) := by
    refine ⟨page, ((List.range' 0 rows.length).map itemOffsetOfIndex).drop (i + 1),
      hpage, htype,
      ⟨i + 1, rows.length - (i + 1), by rw [hend]; congr 1; omega, ?_, ?_⟩,
        List.forall₂_drop _ hitems⟩
    · rw [validFrom_eq fun j _ hj => h.valid hc hpage (by omega),
        ← List.map_drop, List.drop_range']
      simp
    · rw [itemOffsetOfIndex_succ, if_pos]
      rw [itemOffsetOfIndex_eq]
      omega
  simpa using hcolumn

theorem GroupStored.membersOk (hf : FileOk f rooms) (h : GroupStored f item rows) :
    MembersOk f item.member := by
  intro no hno
  obtain ⟨page, hpage, -⟩ := h.pages no hno
  have hpos := (hf.bound no page hpage).1
  exact ⟨by rw [invalidPageNum]; omega, by rw [hpage]; rfl⟩

/-- A group and its rows. -/
theorem GroupsStored.get (h : GroupsStored t groups) (hitem : t.groupList[k]? = some item)
    (hrows : groups[k]? = some rows) :
    GroupStored t.file item rows := by
  obtain ⟨hk, rfl⟩ := List.getElem?_eq_some_iff.mp hitem
  obtain ⟨hk', rfl⟩ := List.getElem?_eq_some_iff.mp hrows
  exact h.groups.get hk hk'

/-- The loop of the scan, with the rows of group `k` from number `n` on before it. -/
theorem GroupsStored.seqscanLoop (h : GroupsStored t groups) (hasc : Ascending cols)
    (hrange : ∀ c ∈ cols, c < t.colNum)
    (hscan : ScanIn t cols info k item) (hrows : groups[k]? = some rows)
    (hreads : GroupReads t.file item t.colNum rows tableRows)
    (hin : InGroup t.file cols info (tableRows.drop n))
    (own : Nat) (snapshot : SnapShotInfo) :
    ∃ found info', Returns₂ (fun depth fuel =>
      Toadb.seqscanLoop t.file t.groups own snapshot depth fuel true info)
        (found, info') ∧
      ScanHands t groups cols own snapshot
        ((rowsFrom groups k n).filter (Visible snapshot own cols)) found info' := by
  obtain ⟨rooms, hf⟩ := h.ok.file
  have hlen := h.groups.length_eq
  induction hm : groups.length - k generalizing k n info item rows tableRows with
  | zero =>
    obtain ⟨hlt, -⟩ := List.getElem?_eq_some_iff.mp hrows
    omega
  | succ m ih =>
    obtain ⟨found, info₁, hnext, hsame, hlist, hrest⟩ :=
      (h.get hscan.listed hrows).seqScanNextColumnOpt hf hreads hasc.1 hrange hin own snapshot
    have hscan₁ := hscan.same hsame hlist
    rw [rowsFrom_some hrows, List.filter_append]
    cases hfilter : (rows.drop n).filter (Visible snapshot own cols) with
    | cons row rest =>
      rw [hfilter] at hrest
      obtain ⟨i, vals, rfl, hi, hshown, hbehind, hin₁⟩ := hrest
      have hlt := (List.getElem?_eq_some_iff.mp hi).1
      refine ⟨some vals, info₁, .of_first hnext.diag ?_, k, i, rows, vals, rfl,
        ⟨⟨item, hscan₁⟩, hsame.reset, ?_⟩, hrows, hi,
        hshown, ?_⟩
      · intro depth fuel hdepth
        simp [Toadb.seqscanLoop, hdepth]
      · exact hreads.offsets hrange hscan₁.pages hsame.reset hlt hin₁
      · rw [rowsFrom_some hrows, List.filter_append, hbehind]
        rfl
    | nil =>
      rw [hfilter] at hrest
      subst hrest
      rw [List.nil_append, ← rowsFrom_zero]
      have hbefore := hscan₁.toScanBefore.release
      rcases Nat.lt_or_ge (k + 1) groups.length with hlt | hge
      · -- on to the next group
        have hitem : t.groupList[k + 1]? = some t.groupList[k + 1] :=
          List.getElem?_eq_getElem _
        have hrows₁ : groups[k + 1]? = some groups[k + 1] := List.getElem?_eq_getElem hlt
        have hgroup := h.get hitem hrows₁
        have hcols := h.ok.columns _ (List.getElem_mem (hlen ▸ hlt))
        obtain ⟨tableRows₁, hreads₁⟩ := hgroup.reads hf hcols
        obtain ⟨info₂, hfound, hscan₂, hreset⟩ :=
          hbefore.nextGroup hitem (hgroup.membersOk hf) hasc (hcols ▸ hrange)
        have hin₂ := hreads₁.inGroup hf hrange hscan₂.pages hscan₂.offsets hreset
        obtain ⟨found, info', hloop, hhands⟩ :=
          ih hscan₂ hrows₁ hreads₁ (n := 0) hin₂ (by omega)
        exact ⟨found, info', seqscanLoop_groupEnd hnext (seqscanLoop_found hfound hloop),
          hhands⟩
      · have hend := hbefore.nextGroup_end (hlen ▸ hge)
        refine ⟨none, _, seqscanLoop_groupEnd hnext (seqscanLoop_done snapshot own hend), ?_⟩
        rw [rowsFrom_zero, List.drop_eq_nil_of_le hge]
        rfl

/-! ## The calls -/

theorem scanBefore_startInfo (t : PaxTable) (cols : List Nat) :
    ScanBefore t cols (startInfo cols) 0 := by
  refine ⟨⟨le_rfl, by simp [startInfo]⟩, rfl, List.length_map _, ?_⟩
  cases hgroups : t.groups <;>
    simp [groupsAhead, startInfo, itemsAhead, PaxTable.groupList, hgroups, List.filter_append]

/-- The first call has all rows before it. -/
theorem GroupsStored.seqscanNext_start (h : GroupsStored t groups) (hasc : Ascending cols)
    (hrange : ∀ c ∈ cols, c < t.colNum) (own : Nat) (snapshot : SnapShotInfo) :
    ∃ found info, Returns (fun fuel =>
      Toadb.seqscanNext t.file t.groups own snapshot fuel (startInfo cols)) (found, info) ∧
      ScanHands t groups cols own snapshot
        (groups.flatten.filter (Visible snapshot own cols)) found info := by
  obtain ⟨rooms, hf⟩ := h.ok.file
  have hlen := h.groups.length_eq
  have hbefore := scanBefore_startInfo t cols
  simp only [Toadb.seqscanNext, startInfo, Bool.not_true] at hbefore ⊢
  rcases Nat.eq_zero_or_pos groups.length with hzero | hpos
  · have hend := hbefore.nextGroup_end (by omega)
    obtain rfl := List.length_eq_zero_iff.mp hzero
    exact ⟨none, _, (seqscanLoop_done snapshot own hend).diag, rfl⟩
  · have hitem : t.groupList[0]? = some t.groupList[0] := List.getElem?_eq_getElem _
    have hrows : groups[0]? = some groups[0] := List.getElem?_eq_getElem hpos
    have hgroup := h.get hitem hrows
    have hcols := h.ok.columns _ (List.getElem_mem (hlen ▸ hpos))
    obtain ⟨tableRows, hreads⟩ := hgroup.reads hf hcols
    obtain ⟨info, hfound, hscan, hreset⟩ :=
      hbefore.nextGroup hitem (hgroup.membersOk hf) hasc (hcols ▸ hrange)
    have hin := hreads.inGroup hf hrange hscan.pages hscan.offsets hreset
    obtain ⟨found, info', hloop, hhands⟩ :=
      h.seqscanLoop hasc hrange hscan hrows hreads (n := 0) hin own snapshot
    rw [rowsFrom_zero, List.drop_zero] at hhands
    exact ⟨found, info', (seqscanLoop_found hfound hloop).diag, hhands⟩

/-- The call after row `i` of group `k` has the rows behind it before it. -/
theorem GroupsStored.seqscanNext_on (h : GroupsStored t groups) (hasc : Ascending cols)
    (hrange : ∀ c ∈ cols, c < t.colNum)
    (own : Nat) (snapshot : SnapShotInfo) (hon : ScanOn t cols info k i)
    (hrows : groups[k]? = some rows) (hi : i < rows.length) :
    ∃ found info', Returns (fun fuel =>
      Toadb.seqscanNext t.file t.groups own snapshot fuel info) (found, info') ∧
      ScanHands t groups cols own snapshot
        ((rowsFrom groups k (i + 1)).filter (Visible snapshot own cols)) found info' := by
  obtain ⟨rooms, hf⟩ := h.ok.file
  obtain ⟨⟨item, hscan⟩, hreset, hoffsets⟩ := hon
  obtain ⟨tableRows, hreads⟩ :=
    (h.get hscan.listed hrows).reads hf
      (h.ok.columns item (List.mem_of_getElem? hscan.listed))
  have hin := hreads.inGroup_on hrange hscan.pages hoffsets hreset hi
  obtain ⟨found, info', hloop, hhands⟩ :=
    h.seqscanLoop hasc hrange hscan hrows hreads hin own snapshot
  refine ⟨found, info', ?_, hhands⟩
  simp only [Toadb.seqscanNext, hreset, Bool.not_false]
  exact hloop.diag

end Toadb
