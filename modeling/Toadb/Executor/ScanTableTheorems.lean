/-
Toadb.Executor.ScanTableTheorems — what a sequential scan hands out.

The scan goes from group to group, and in each hands out its rows up to the
first one with a column that was moved to an extension page. `Yields` puts the
calls together: from a position between two groups they hand out the rows of
all the groups that follow, and then the scan is at its end (`ScanEnd`).
-/
import Toadb.Executor.SeqScanTheorems

namespace Toadb

open Cursor

variable {f : TableFile} {rooms : Nat → Int → Nat} {no c : Nat} {page : PageDataHeader}
  {own : Nat} {snapshot : SnapShotInfo} {rows : List TableRow} {cols : List Nat}
  {info info' : ScanPageInfo}

/-! ## Tables -/

/-- A group: the page of each column, and the rows. -/
structure TableGroup where
  member : List Nat
  rows : List TableRow

/-- The pages of a group have the columns of its rows. -/
structure GroupHolds (f : TableFile) (colNum : Nat) (item : GroupItem) (group : TableGroup) :
    Prop where
  member : item.member = group.member
  length : group.member.length = colNum
  pages : MembersOk f group.member
  rows : ∀ c, c < colNum → ColumnAhead f c group.rows (memberPage group.member c) 0

/-- The table that the file and the group fork hold. -/
def TableHolds (f : TableFile) (groups : GroupFork) (colNum : Nat) (table : List TableGroup) :
    Prop :=
  List.Forall₂ (GroupHolds f colNum) (groups.flatten.filter (·.valid)) table

/-- The rows a scan hands out. -/
def scannedTable (snapshot : SnapShotInfo) (own : Nat) (cols : List Nat)
    (table : List TableGroup) : List (List RowColumnData) :=
  table.flatMap fun group => scannedRows snapshot own cols group.rows

variable {groups : GroupFork} {colNum : Nat} {table : List TableGroup} {group : TableGroup}
  {item : GroupItem} {out : List (List RowColumnData)}

/-- The scan has the groups `table` before it. -/
structure BetweenGroups (f : TableFile) (groups : GroupFork) (colNum : Nat) (cols : List Nat)
    (info : ScanPageInfo) (table : List TableGroup) : Prop where
  search : SearchOk groups info.groupPageInfo
  colindexList : info.colindexList = cols
  offsets : info.searchPageList.length = cols.length
  ahead : List.Forall₂ (GroupHolds f colNum) (groupsAhead groups info.groupPageInfo) table

/-- The scan of ascending columns finds the pages of the next group. -/
theorem BetweenGroups.next (hasc : Ascending cols) (hrange : ∀ c ∈ cols, c < colNum)
    (h : BetweenGroups f groups colNum cols info (group :: table)) :
    ∃ info', nextGroup f groups info = .found info' ∧
      BetweenGroups f groups colNum cols info' table ∧ InGroup f cols info' group.rows := by
  cases hahead : groupsAhead groups info.groupPageInfo with
  | nil =>
    have := h.ahead
    rw [hahead] at this
    cases this
  | cons item items =>
    have hholds := h.ahead
    rw [hahead] at hholds
    obtain ⟨hgroup, hrest⟩ := List.forall₂_cons.mp hholds
    obtain ⟨searchInfo, hget, hok, hgroups⟩ := getGroupInfo_some h.search hahead
    have hpages : getGroupMemberPagesOpt f item cols
        = .pages (cols.map (memberPage group.member)) := by
      rw [← hgroup.member]
      refine (memberPages_eq_iff ?_ ?_).mpr hasc
      · rw [hgroup.member]
        exact hgroup.pages
      · rw [hgroup.member, hgroup.length]
        exact hrange
    refine ⟨{ info with
      groupPageInfo := searchInfo
      pageReset := true
      pageList := cols.map (memberPage group.member) }, ?_,
        ⟨hok, h.colindexList, h.offsets, ?_⟩,
      ⟨List.length_map _, h.offsets, ?_⟩⟩
    · simp [nextGroup, hget, h.colindexList, hpages]
    · rw [hgroups]
      exact hrest
    · refine List.forall₂_iff_get.mpr ⟨?_, fun i hi hi' => ?_⟩
      · rw [List.length_zip, List.length_map, h.offsets, Nat.min_self]
      · have hcol := hgroup.rows (cols.get ⟨i, hi'⟩) (hrange _ (List.get_mem _ _))
        simpa using hcol

/-- Without a group before it the scan ends. -/
theorem BetweenGroups.nextGroup_nil (h : BetweenGroups f groups colNum cols info []) :
    nextGroup f groups info
      = .done { info with groupPageInfo := lastSearch groups info.groupPageInfo } := by
  have hget := getGroupInfo_none h.search (List.forall₂_nil_right_iff.mp h.ahead)
  simp [nextGroup, hget]

/-- The scan behind the last row. -/
structure ScanEnd (groups : GroupFork) (cols : List Nat) (info : ScanPageInfo) : Prop where
  page : info.groupPageInfo.page = false
  pageNum : info.groupPageInfo.pageNum = firstGroupPage + (groups.length - 1)
  colindexList : info.colindexList = cols
  offsets : info.searchPageList.length = cols.length

/-- The scan in a group, with the rows `rows` of it and then the groups `table`
before it. -/
structure ScanAhead (f : TableFile) (groups : GroupFork) (colNum : Nat) (cols : List Nat)
    (info : ScanPageInfo) (rows : List TableRow) (table : List TableGroup) : Prop where
  reset : info.pageReset = false
  rows : InGroup f cols info rows
  table : BetweenGroups f groups colNum cols info table

@[simp] theorem scannedTable_nil : scannedTable snapshot own cols [] = [] := rfl

@[simp] theorem scannedTable_cons :
    scannedTable snapshot own cols (group :: table)
      = scannedRows snapshot own cols group.rows ++ scannedTable snapshot own cols table :=
  rfl

/-- What one call of the scan comes to when the rows before it are `out`. -/
def ScanReturns (f : TableFile) (groups : GroupFork) (colNum : Nat) (cols : List Nat)
    (snapshot : SnapShotInfo) (own : Nat) (out : List (List RowColumnData))
    (found : Option (List RowColumnData)) (info' : ScanPageInfo) : Prop :=
  match out with
  | [] => found = none ∧ ScanEnd groups cols info'
  | vals :: rest => found = some vals ∧ ∃ rows' table',
      ScanAhead f groups colNum cols info' rows' table' ∧
      scannedRows snapshot own cols rows' ++ scannedTable snapshot own cols table' = rest

theorem BetweenGroups.sameSearch (h : BetweenGroups f groups colNum cols info table)
    (hsame : SameSearch info info') : BetweenGroups f groups colNum cols info' table := by
  refine ⟨?_, hsame.cols.trans h.colindexList, hsame.offsets.trans h.offsets, ?_⟩
  · rw [hsame.group]
    exact h.search
  · rw [hsame.group]
    exact h.ahead

theorem BetweenGroups.release (h : BetweenGroups f groups colNum cols info table) :
    BetweenGroups f groups colNum cols { info with pageList := [] } table :=
  ⟨h.search, h.colindexList, h.offsets, h.ahead⟩

/-- The loop where there is no further group. -/
theorem seqscanLoop_done (snapshot : SnapShotInfo) (own : Nat)
    (h : nextGroup f groups info = .done info') :
    Returns₂ (fun depth fuel => seqscanLoop f groups own snapshot depth fuel false info)
      (none, info') := by
  refine .of_first (returns_of_const fun _ => (rfl : some () = some ())) fun depth fuel _ =>
    ?_
  simp [seqscanLoop, h]

/-- The loop that goes on with the next group. -/
theorem seqscanLoop_found (h : nextGroup f groups info = .found info')
    {r : Option (List RowColumnData) × ScanPageInfo}
    (hloop : Returns₂ (fun depth fuel =>
      seqscanLoop f groups own snapshot depth fuel true info') r) :
    Returns₂ (fun depth fuel =>
      seqscanLoop f groups own snapshot depth fuel false info) r := by
  obtain ⟨k, hk⟩ := hloop
  refine ⟨k + 1, fun depth fuel hdepth hfuel => ?_⟩
  obtain ⟨fuel, rfl⟩ : ∃ n, fuel = n + 1 := ⟨fuel - 1, by omega⟩
  have hloop := hk depth (fuel + 1) (by omega) (by omega)
  dsimp only at hloop
  rw [seqscanLoop] at hloop
  simpa [seqscanLoop, h] using hloop

/-- The loop at the end of a group. -/
theorem seqscanLoop_groupEnd
    (hnext : Returns₂ (fun depth fuel => seqScanNextColumnOpt f own snapshot depth fuel info)
      (none, info')) {r : Option (List RowColumnData) × ScanPageInfo}
    (hloop : Returns₂ (fun depth fuel => seqscanLoop f groups own snapshot depth fuel false
      { info' with pageList := [] }) r) :
    Returns₂ (fun depth fuel =>
      seqscanLoop f groups own snapshot depth fuel true info) r := by
  refine .of_succ hnext.diag hloop fun depth fuel hdepth hrec => ?_
  simpa [seqscanLoop, hdepth] using hrec

/-- The loop of `SeqscanNext` from a group on: the rows of the group, and then those
of the groups behind it. -/
theorem seqscanLoop_spec (snapshot : SnapShotInfo) (own : Nat) (hasc : Ascending cols)
    (hrange : ∀ c ∈ cols, c < colNum) :
    ∀ {table : List TableGroup} {rows : List TableRow} {info : ScanPageInfo},
      InGroup f cols info rows → BetweenGroups f groups colNum cols info table →
      ∃ found info',
        Returns₂ (fun depth fuel => seqscanLoop f groups own snapshot depth fuel true info)
          (found, info') ∧
        ScanReturns f groups colNum cols snapshot own
          (scannedRows snapshot own cols rows ++ scannedTable snapshot own cols table)
          found info' := by
  intro table
  induction table with
  | nil =>
    intro rows info hin hbetween
    obtain ⟨found, info', hnext, hsame, hrest⟩ :=
      seqScanNextColumnOpt_spec snapshot own hasc.1 hin
    have hbetween' := hbetween.sameSearch hsame
    rw [scannedTable_nil, List.append_nil]
    cases hscanned : scannedRows snapshot own cols rows with
    | nil =>
      rw [hscanned] at hrest
      subst hrest
      have hend := hbetween'.release.nextGroup_nil
      refine ⟨none, { info' with
        pageList := []
        groupPageInfo := lastSearch groups info'.groupPageInfo },
        seqscanLoop_groupEnd hnext (seqscanLoop_done snapshot own hend), rfl,
        ⟨rfl, rfl, hbetween'.colindexList, hbetween'.offsets⟩⟩
    | cons vals rest =>
      rw [hscanned] at hrest
      obtain ⟨rfl, rows', hin', heq⟩ := hrest
      refine ⟨some vals, info', .of_first hnext.diag ?_, rfl, rows', [],
        ⟨hsame.reset, hin', hbetween'⟩, ?_⟩
      · intro depth fuel hdepth
        simp [seqscanLoop, hdepth]
      · rw [scannedTable_nil, List.append_nil, heq]
  | cons group table ih =>
    intro rows info hin hbetween
    obtain ⟨found, info', hnext, hsame, hrest⟩ :=
      seqScanNextColumnOpt_spec snapshot own hasc.1 hin
    have hbetween' := hbetween.sameSearch hsame
    cases hscanned : scannedRows snapshot own cols rows with
    | nil =>
      rw [hscanned] at hrest
      subst hrest
      obtain ⟨info'', hfound, hbetween'', hin''⟩ := hbetween'.release.next hasc hrange
      obtain ⟨found, last, hloop, hreturns⟩ := ih hin'' hbetween''
      refine ⟨found, last, seqscanLoop_groupEnd hnext (seqscanLoop_found hfound hloop), ?_⟩
      simpa using hreturns
    | cons vals rest =>
      rw [hscanned] at hrest
      obtain ⟨rfl, rows', hin', heq⟩ := hrest
      refine ⟨some vals, info', .of_first hnext.diag ?_, rfl, rows', group :: table,
        ⟨hsame.reset, hin', hbetween'⟩, ?_⟩
      · intro depth fuel hdepth
        simp [seqscanLoop, hdepth]
      · rw [heq]
        rfl

/-! ## The whole scan -/

/-- The next call from between two groups. -/
theorem BetweenGroups.seqscanNext (snapshot : SnapShotInfo) (own : Nat)
    (hasc : Ascending cols)
    (hrange : ∀ c ∈ cols, c < colNum) (h : BetweenGroups f groups colNum cols info table)
    (hreset : info.pageReset = true) :
    ∃ found info', Returns (fun fuel => Toadb.seqscanNext f groups own snapshot fuel info)
        (found, info') ∧
      ScanReturns f groups colNum cols snapshot own (scannedTable snapshot own cols table)
        found info' := by
  simp only [Toadb.seqscanNext, hreset, Bool.not_true]
  cases table with
  | nil =>
    exact ⟨none, _, (seqscanLoop_done snapshot own h.nextGroup_nil).diag, rfl,
      ⟨rfl, rfl, h.colindexList, h.offsets⟩⟩
  | cons group table =>
    obtain ⟨info', hfound, hbetween, hin⟩ := h.next hasc hrange
    obtain ⟨found, last, hloop, hreturns⟩ :=
      seqscanLoop_spec snapshot own hasc hrange hin hbetween
    exact ⟨found, last, (seqscanLoop_found hfound hloop).diag, hreturns⟩

/-- The next call from inside a group. -/
theorem ScanAhead.seqscanNext (snapshot : SnapShotInfo) (own : Nat) (hasc : Ascending cols)
    (hrange : ∀ c ∈ cols, c < colNum) (h : ScanAhead f groups colNum cols info rows table) :
    ∃ found info', Returns (fun fuel => Toadb.seqscanNext f groups own snapshot fuel info)
        (found, info') ∧
      ScanReturns f groups colNum cols snapshot own
        (scannedRows snapshot own cols rows ++ scannedTable snapshot own cols table)
        found info' := by
  simp only [Toadb.seqscanNext, h.reset, Bool.not_false]
  obtain ⟨found, last, hloop, hreturns⟩ :=
    seqscanLoop_spec snapshot own hasc hrange h.rows h.table
  exact ⟨found, last, hloop.diag, hreturns⟩

theorem ScanAhead.yields (hasc : Ascending cols) (hrange : ∀ c ∈ cols, c < colNum) :
    ∀ {info : ScanPageInfo} {rows : List TableRow} {table : List TableGroup},
      ScanAhead f groups colNum cols info rows table →
      scannedRows snapshot own cols rows ++ scannedTable snapshot own cols table = out →
      ∃ last, Yields (Toadb.seqscanNext f groups own snapshot) info out last ∧
        ScanEnd groups cols last := by
  induction out with
  | nil =>
    intro info rows table h hout
    obtain ⟨found, last, hnext, hreturns⟩ := h.seqscanNext snapshot own hasc hrange
    rw [hout] at hreturns
    obtain ⟨rfl, hend⟩ := hreturns
    exact ⟨last, .done hnext, hend⟩
  | cons vals out ih =>
    intro info rows table h hout
    obtain ⟨found, info', hnext, hreturns⟩ := h.seqscanNext snapshot own hasc hrange
    rw [hout] at hreturns
    obtain ⟨rfl, rows', table', hahead, hrest⟩ := hreturns
    obtain ⟨last, hyields, hend⟩ := ih hahead hrest
    exact ⟨last, .item hnext hyields, hend⟩

/-- Without a group before it the scan hands out no row, whatever columns it is asked for. -/
theorem BetweenGroups.yields_nil (snapshot : SnapShotInfo) (own : Nat)
    (h : BetweenGroups f groups colNum cols info []) (hreset : info.pageReset = true) :
    ∃ last, Yields (Toadb.seqscanNext f groups own snapshot) info [] last ∧
      ScanEnd groups cols last := by
  have hdone := (seqscanLoop_done snapshot own h.nextGroup_nil).diag
  refine ⟨_,
    .done (t := { info with groupPageInfo := lastSearch groups info.groupPageInfo }) ?_,
    rfl, rfl, h.colindexList, h.offsets⟩
  simpa only [Toadb.seqscanNext, hreset, Bool.not_true] using hdone

/-- With a group before it, and columns in another order, it leaves the member array. -/
theorem BetweenGroups.noResult (snapshot : SnapShotInfo) (own : Nat) (hcols : cols ≠ [])
    (hasc : ¬ Ascending cols) (h : BetweenGroups f groups colNum cols info (group :: table))
    (hreset : info.pageReset = true) :
    NoResult (fun fuel => Toadb.seqscanNext f groups own snapshot fuel info) := by
  have hover : nextGroup f groups info = .overrun := by
    obtain ⟨item, items, hgroup, -, hahead⟩ := List.forall₂_cons_right_iff.mp h.ahead
    obtain ⟨searchInfo, hget, -, -⟩ := getGroupInfo_some h.search hahead
    have hmembers : MembersOk f item.member := hgroup.member ▸ hgroup.pages
    have hwalk := memberPages_overrun hmembers (k := 0) hcols fun hand => hasc ⟨hcols, hand.1⟩
    simp [nextGroup, hget, h.colindexList, getGroupMemberPagesOpt, hwalk]
  refine .of_succ (k := 0) fun fuel _ => ?_
  simp [Toadb.seqscanNext, seqscanLoop, hreset, hover]

/-- From between two groups the scan hands out the rows of the groups before it. -/
theorem BetweenGroups.yields (snapshot : SnapShotInfo) (own : Nat) (hasc : Ascending cols)
    (hrange : ∀ c ∈ cols, c < colNum) (h : BetweenGroups f groups colNum cols info table)
    (hreset : info.pageReset = true) :
    ∃ last, Yields (Toadb.seqscanNext f groups own snapshot) info
        (scannedTable snapshot own cols table) last ∧ ScanEnd groups cols last := by
  obtain ⟨found, info', hnext, hreturns⟩ := h.seqscanNext snapshot own hasc hrange hreset
  cases hout : scannedTable snapshot own cols table with
  | nil =>
    rw [hout] at hreturns
    obtain ⟨rfl, hend⟩ := hreturns
    exact ⟨info', .done hnext, hend⟩
  | cons vals rest =>
    rw [hout] at hreturns
    obtain ⟨rfl, rows', table', hahead, hrest⟩ := hreturns
    obtain ⟨last, hyields, hend⟩ := hahead.yields hasc hrange hrest
    exact ⟨last, .item hnext hyields, hend⟩

/-- The position a scan starts from. -/
def startInfo (cols : List Nat) : ScanPageInfo :=
  ⟨⟨false, firstGroupPage, 0, 0⟩, cols, true, [], cols.map fun _ => 0⟩

theorem betweenGroups_startInfo (cols : List Nat) (h : TableHolds f groups colNum table) :
    BetweenGroups f groups colNum cols (startInfo cols) table := by
  refine ⟨⟨Nat.le_refl _, ?_⟩, rfl, List.length_map _, ?_⟩
  · simp [startInfo]
  · have hahead : groupsAhead groups (startInfo cols).groupPageInfo
        = groups.flatten.filter (·.valid) := by
      cases groups <;> simp [groupsAhead, startInfo, itemsAhead, List.filter_append]
    rw [hahead]
    exact h

theorem Ascending.length_le (h : Ascending cols) (hrange : ∀ c ∈ cols, c < colNum) :
    cols.length ≤ colNum := by
  have hnodup : cols.Nodup := h.2.imp Nat.ne_of_lt
  have hsub : cols ⊆ List.range colNum := fun c hc => List.mem_range.mpr (hrange c hc)
  simpa using (hnodup.subperm hsub).length_le

theorem initScanPositionInfo_ascending (h : Ascending cols)
    (hrange : ∀ c ∈ cols, c < colNum) :
    initScanPositionInfo colNum cols = some (startInfo cols) := by
  rw [initScanPositionInfo, if_neg]
  · rfl
  · rintro (hnil | hlt)
    · exact h.1 hnil
    · exact absurd (h.length_le hrange) (Nat.not_le.mpr hlt)

/-- A scan of ascending columns hands out the rows of all groups. -/
theorem scanTable_ascending (snapshot : SnapShotInfo) (own : Nat)
    (h : TableHolds f groups colNum table) (hasc : Ascending cols)
    (hrange : ∀ c ∈ cols, c < colNum) :
    Returns (scanTable f groups own snapshot colNum cols)
      (scannedTable snapshot own cols table) := by
  obtain ⟨last, hyields, -⟩ := (betweenGroups_startInfo cols h).yields snapshot own hasc
    hrange rfl
  obtain ⟨k, hk⟩ := hyields.returns_collect
  refine ⟨k, fun fuel hfuel => ?_⟩
  have hcollect := hk fuel hfuel
  dsimp only at hcollect
  simp [scanTable, initScanPositionInfo_ascending hasc hrange, hcollect]

/-! ## A table with two columns -/

theorem FileOk.columnAhead (hf : FileOk f rooms) (hpage : f.page no = some page)
    (htype : page.pageType = .data)
    (hrows : List.Forall₂ (ColumnItem f no c page) (validItems page) rows) :
    ColumnAhead f c rows no 0 :=
  ⟨page, validItems page, hpage, htype, (hf.layout no page hpage).ahead, hrows⟩

/-- One row in two columns, on the pages 2 and 3. -/
def twoColumnTable : TableFile :=
  ((extensionTbl 3 ⟨0, fun _ => none⟩).set 2
    (writeRowOnePage (initPage 2) (plainRow 5 1)).1).set 3
    (writeRowOnePage (initPage 3) (plainRow 6 2)).1

/-- Its group fork. -/
def twoColumnGroups : GroupFork := [[⟨true, 1, [2, 3]⟩]]

/-- The row. -/
def twoColumnRow : TableRow where
  versions c := if c = 0 then [plainRow 5 1] else [plainRow 6 2]
  moved _ := false

/-- Each of the pages has one row. -/
theorem twoColumnTable_rows : ∃ rooms, FileOk twoColumnTable rooms ∧
    RowAt twoColumnTable 2 40 (plainRow 5 1) ∧ RowAt twoColumnTable 3 40 (plainRow 6 2) := by
  let f₀ : TableFile := extensionTbl 3 ⟨0, fun _ => none⟩
  have h₀ : FileOk f₀ fun _ _ => 0 := by
    refine (FileOk.extensionTbl ⟨?_, ?_, ?_, fun _ _ => rfl⟩ 3).1
    all_goals
      intro no page h
      cases h
  have hpage₁ : f₀.page 2 = some (initPage 2) := rfl
  have hpage₂ : (f₀.set 2 (writeRowOnePage (initPage 2) (plainRow 5 1)).1).page 3
      = some (initPage 3) := rfl
  have hfits₁ : (plainRow 5 1).Fits := plainRow_fits (by norm_num) 1
  have hfits₂ : (plainRow 6 2).Fits := plainRow_fits (by norm_num) 2
  obtain ⟨h₁, hat₁, -⟩ := h₀.appendRow hpage₁ hfits₁ (by decide)
  obtain ⟨h₂, hat₂, hkept⟩ := h₁.appendRow hpage₂ hfits₂ (by decide)
  exact ⟨_, h₂, hkept 2 40 _ hat₁, hat₂⟩

theorem twoColumnTable_ahead {row : TableRow} (hmoved : row.moved c = false) :
    (row.versions c = [plainRow 5 1] → ColumnAhead twoColumnTable c [row] 2 0) ∧
      (row.versions c = [plainRow 6 2] → ColumnAhead twoColumnTable c [row] 3 0) := by
  obtain ⟨rooms, hf, hat₁, hat₂⟩ := twoColumnTable_rows
  have hitem : ∀ {no : Nat} {page : PageDataHeader} {r : RowColumnData},
      twoColumnTable.page no = some page → page.pageType = .data →
        RowAt twoColumnTable no 40 r →
      r.headerData.undo = RowPosition.none → row.versions c = [r] →
      ColumnItem twoColumnTable no c page 40 row := by
    intro no page r hpage htype hat hundo hversions
    refine ⟨(hat.stored hpage).1.redirect.trans hmoved.symm, r, [],
      ⟨⟨_, hf⟩, ⟨⟨page, hpage, htype⟩, .inl hat⟩, .last ?_⟩, hversions⟩
    rw [hundo]
    rfl
  have hcol₁ : twoColumnTable.page 2 =
      some (writeRowOnePage (initPage 2) (plainRow 5 1)).1 := rfl
  have hcol₂ : twoColumnTable.page 3 =
      some (writeRowOnePage (initPage 3) (plainRow 6 2)).1 := rfl
  exact ⟨fun h => hf.columnAhead hcol₁ rfl (.cons (hitem hcol₁ rfl hat₁ rfl h) .nil),
    fun h => hf.columnAhead hcol₂ rfl (.cons (hitem hcol₂ rfl hat₂ rfl h) .nil)⟩

theorem twoColumnTable_members {member : List Nat} (h : ∀ no ∈ member, no = 2 ∨ no = 3) :
    MembersOk twoColumnTable member := by
  intro no hno
  rcases h no hno with rfl | rfl
  · exact ⟨by decide, rfl⟩
  · exact ⟨by decide, rfl⟩

theorem tableHolds_twoColumns :
    TableHolds twoColumnTable twoColumnGroups 2 [⟨[2, 3], [twoColumnRow]⟩] := by
  refine .cons ⟨rfl, rfl, twoColumnTable_members (by simp), fun c hc => ?_⟩ .nil
  obtain rfl | rfl : c = 0 ∨ c = 1 := by omega
  · exact (twoColumnTable_ahead rfl).1 rfl
  · exact (twoColumnTable_ahead rfl).2 rfl

/-! ## The result -/

/-- The rows a scan should return. -/
def shownTable (snapshot : SnapShotInfo) (own : Nat) (cols : List Nat)
    (table : List TableGroup) : List (List RowColumnData) :=
  table.flatMap fun group => shownRows snapshot own cols group.rows

/-- The scan finds the page of every column of every group, and returns every row
that is visible once. -/
structure ScanRight (f : TableFile) (groups : GroupFork) (colNum : Nat) (cols : List Nat)
    (snapshot : SnapShotInfo) (own : Nat) (table : List TableGroup) : Prop where
  members : ∀ item ∈ groups.flatten.filter (·.valid),
    getGroupMemberPagesOpt f item cols = .pages (cols.map (memberPage item.member))
  rows : Returns (scanTable f groups own snapshot colNum cols)
    (shownTable snapshot own cols table)

/-- No row is visible behind one that was moved, nor is that one. -/
def NoneHidden (snapshot : SnapShotInfo) (own : Nat) (cols : List Nat)
    (rows : List TableRow) :
    Prop :=
  shownRows snapshot own cols (rows.dropWhile (TableRow.readable cols)) = []

instance (snapshot : SnapShotInfo) (own : Nat) (cols : List Nat) (rows : List TableRow) :
    Decidable (NoneHidden snapshot own cols rows) := by
  unfold NoneHidden; infer_instance

theorem shownRows_eq (snapshot : SnapShotInfo) (own : Nat) (cols : List Nat)
    (rows : List TableRow) :
    shownRows snapshot own cols rows = scannedRows snapshot own cols rows ++
      shownRows snapshot own cols (rows.dropWhile (TableRow.readable cols)) := by
  rw [shownRows, scannedRows, shownRows, ← List.filterMap_append,
    List.takeWhile_append_dropWhile]

theorem scannedTable_length_le (snapshot : SnapShotInfo) (own : Nat) (cols : List Nat)
    (table : List TableGroup) :
    (scannedTable snapshot own cols table).length ≤
      (shownTable snapshot own cols table).length := by
  induction table with
  | nil => simp [scannedTable, shownTable]
  | cons group table ih =>
    rw [scannedTable_cons, shownTable, List.flatMap_cons, ← shownTable, shownRows_eq]
    simp only [List.length_append]
    omega

/-- All visible rows are handed out when none is hidden. -/
theorem scannedTable_eq_iff (snapshot : SnapShotInfo) (own : Nat) (cols : List Nat)
    (table : List TableGroup) :
    scannedTable snapshot own cols table = shownTable snapshot own cols table ↔
      ∀ group ∈ table, NoneHidden snapshot own cols group.rows := by
  induction table with
  | nil => simp [scannedTable, shownTable]
  | cons group table ih =>
    rw [scannedTable_cons, shownTable, List.flatMap_cons, ← shownTable, shownRows_eq,
      List.append_assoc, List.append_cancel_left_eq, List.forall_mem_cons, NoneHidden]
    constructor
    · intro heq
      have hlen := congrArg List.length heq
      have hle := scannedTable_length_le snapshot own cols table
      rw [List.length_append] at hlen
      have hnil : shownRows snapshot own cols
          (group.rows.dropWhile (TableRow.readable cols)) = [] :=
        List.length_eq_zero_iff.mp (by omega)
      rw [hnil, List.nil_append] at heq
      exact ⟨hnil, ih.mp heq⟩
    · rintro ⟨hnil, hrest⟩
      rw [hnil, List.nil_append]
      exact ih.mpr hrest

/-- A table without groups. -/
theorem scanTable_nil (snapshot : SnapShotInfo) (own : Nat)
    (h : TableHolds f groups colNum []) :
    Returns (scanTable f groups own snapshot colNum cols) [] := by
  cases hinit : initScanPositionInfo colNum cols with
  | none => exact returns_of_const fun fuel => by rw [scanTable, hinit]
  | some info =>
    have hinfo : info = startInfo cols := by
      rw [initScanPositionInfo] at hinit
      split at hinit
      · cases hinit
      · exact (Option.some.inj hinit).symm
    subst hinfo
    obtain ⟨last, hyields, -⟩ := (betweenGroups_startInfo cols h).yields_nil snapshot own rfl
    obtain ⟨k, hk⟩ := hyields.returns_collect
    refine ⟨k, fun fuel hfuel => ?_⟩
    have hcollect := hk fuel hfuel
    dsimp only at hcollect
    simp [scanTable, hinit, hcollect]

/-- The scan is right exactly when there is no group; or the columns are asked for
in ascending order, none twice, and no group has a visible row at or behind a
row with a column that was moved to an extension page. -/
theorem scanRight_iff (h : TableHolds f groups colNum table)
    (hrange : ∀ c ∈ cols, c < colNum) :
    ScanRight f groups colNum cols snapshot own table ↔
      table = [] ∨ Ascending cols ∧ ∀ group ∈ table,
        NoneHidden snapshot own cols group.rows := by
  constructor
  · rintro ⟨hmembers, hrows⟩
    cases table with
    | nil => exact .inl rfl
    | cons group table =>
      right
      obtain ⟨item, items, hgroup, -, hitems⟩ := List.forall₂_cons_right_iff.mp h
      have hasc : Ascending cols := by
        refine (memberPages_eq_iff ?_ ?_).mp (hmembers item (by simp [hitems]))
        · rw [hgroup.member]
          exact hgroup.pages
        · rw [hgroup.member, hgroup.length]
          exact hrange
      refine ⟨hasc, ?_⟩
      rw [← scannedTable_eq_iff]
      exact (scanTable_ascending snapshot own h hasc hrange).unique hrows
  · rintro (rfl | ⟨hasc, hnone⟩)
    · have hitems : groups.flatten.filter (·.valid) = [] := List.forall₂_nil_right_iff.mp h
      refine ⟨?_, scanTable_nil snapshot own h⟩
      simp [hitems]
    · refine ⟨fun item hitem => ?_, ?_⟩
      · obtain ⟨i, hi, rfl⟩ := List.mem_iff_getElem.mp hitem
        have hgroup := h.get hi (by rw [← h.length_eq]; exact hi)
        refine (memberPages_eq_iff ?_ ?_).mpr hasc
        · exact hgroup.member ▸ hgroup.pages
        · intro c hc
          have hlen := hgroup.length
          rw [← hgroup.member] at hlen
          exact hlen ▸ hrange c hc
      · rw [← (scannedTable_eq_iff snapshot own cols table).mpr hnone]
        exact scanTable_ascending snapshot own h hasc hrange

/-- The columns in the order of the table. -/
theorem scanRight_inOrder :
    ScanRight twoColumnTable twoColumnGroups 2 [0, 1] ⟨9, 9, 0, []⟩ 5
      [⟨[2, 3], [twoColumnRow]⟩] ∧
      shownTable ⟨9, 9, 0, []⟩ 5 [0, 1] [⟨[2, 3], [twoColumnRow]⟩]
        = [[plainRow 5 1, plainRow 6 2]] :=
  ⟨(scanRight_iff tableHolds_twoColumns (by decide)).mpr (.inr ⟨by decide, by decide⟩), rfl⟩

/-- The second column before the first: the walk leaves the member array. -/
theorem scan_overrun :
    TableHolds twoColumnTable twoColumnGroups 2 [⟨[2, 3], [twoColumnRow]⟩] ∧
      getGroupMemberPagesOpt twoColumnTable ⟨true, 1, [2, 3]⟩ [1, 0] = .overrun ∧
      ¬ ScanRight twoColumnTable twoColumnGroups 2 [1, 0] ⟨9, 9, 0, []⟩ 5
        [⟨[2, 3], [twoColumnRow]⟩] := by
  have hover : getGroupMemberPagesOpt twoColumnTable ⟨true, 1, [2, 3]⟩ [1, 0] = .overrun :=
    rfl
  refine ⟨tableHolds_twoColumns, hover, fun h => ?_⟩
  have hmembers := h.members ⟨true, 1, [2, 3]⟩ (by decide)
  rw [hover] at hmembers
  cases hmembers

end Toadb
