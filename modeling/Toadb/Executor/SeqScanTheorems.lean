/-
Toadb.Executor.SeqScanTheorems — the steps of a sequential scan.

A row has a chain of versions for each column. The scan of a group goes through
its rows and hands out those in which every column asked for has a version
the snapshot shows — up to the first row with a column that was moved to an
extension page (`scannedRows`). It gets to the pages of the group only if the
columns are asked for in ascending order and none twice (`memberPages_eq_iff`).
-/
import Toadb.Executor.SeqScan
import Toadb.Storage.VersionReadTheorems

namespace Toadb

open Cursor

variable {f : TableFile} {rooms : Nat → Int → Nat} {no : Nat} {o i : Int}
  {page : PageDataHeader}
  {own : Nat} {snapshot : SnapShotInfo}

/-! ## The items of a page -/

/-- The valid items among the `m` items from index `k` on. -/
def validFrom (page : PageDataHeader) : Nat → Nat → List Int
  | 0, _ => []
  | m + 1, k =>
      if (page.item (itemOffsetOfIndex k)).valid then
        itemOffsetOfIndex k :: validFrom page m (k + 1)
      else validFrom page m (k + 1)

/-- The valid items of a page. -/
def validItems (page : PageDataHeader) : List Int := validFrom page (getItemIndex page) 0

/-- A search that stopped at `o` has the items `items` before it. -/
def Ahead (page : PageDataHeader) (o : Int) (items : List Int) : Prop :=
  ∃ k m, page.dataOffset = itemOffsetOfIndex (k + m) ∧ items = validFrom page m k ∧
    (if o > 0 then o + itemSize else (pageDataHeaderSize : Int)) = itemOffsetOfIndex k

theorem itemOffsetOfIndex_succ (k : Nat) :
    itemOffsetOfIndex k + itemSize = itemOffsetOfIndex (k + 1) := by
  rw [itemOffsetOfIndex_eq, itemOffsetOfIndex_eq, itemSize]
  omega

theorem nextValidItem_nil {m : Nat} : ∀ {k fuel : Nat},
    page.dataOffset = itemOffsetOfIndex (k + m) → validFrom page m k = [] →
      nextValidItem page fuel (itemOffsetOfIndex k) = none := by
  induction m with
  | zero =>
    intro k fuel hend _
    cases fuel with
    | zero => rfl
    | succ fuel => simp [nextValidItem, itemEndCheck, hend]
  | succ m ih =>
    intro k fuel hend hnil
    rw [validFrom] at hnil
    split at hnil
    · cases hnil
    · rename_i hvalid
      cases fuel with
      | zero => rfl
      | succ fuel =>
        have hrest := @ih (k + 1) fuel (by rw [hend]; congr 1; omega) hnil
        simp [nextValidItem, hvalid, itemOffsetOfIndex_succ, hrest]

theorem nextValidItem_cons {m : Nat} : ∀ {k fuel : Nat} {items : List Int},
    page.dataOffset = itemOffsetOfIndex (k + m) → m ≤ fuel → validFrom page m k = i :: items →
      nextValidItem page fuel (itemOffsetOfIndex k) = some i ∧ Ahead page i items := by
  induction m with
  | zero => intro k fuel items _ _ h; cases h
  | succ m ih =>
    intro k fuel items hend hfuel hitems
    obtain ⟨fuel, rfl⟩ : ∃ n, fuel = n + 1 := ⟨fuel - 1, by omega⟩
    have hcheck : itemEndCheck page (itemOffsetOfIndex k) = false := by
      rw [itemEndCheck, hend, itemOffsetOfIndex_eq, itemOffsetOfIndex_eq,
        decide_eq_false_iff_not]
      omega
    have hend' : page.dataOffset = itemOffsetOfIndex (k + 1 + m) := by
      rw [hend]; congr 1; omega
    rw [validFrom] at hitems
    split at hitems
    · rename_i hvalid
      obtain ⟨rfl, rfl⟩ := List.cons.inj hitems
      refine ⟨by simp [nextValidItem, hcheck, hvalid], k + 1, m, hend', rfl, ?_⟩
      rw [itemOffsetOfIndex_succ, if_pos]
      rw [itemOffsetOfIndex_eq]
      omega
    · rename_i hvalid
      obtain ⟨hnext, hahead⟩ := ih hend' (Nat.le_of_succ_le_succ hfuel) hitems
      exact ⟨by simp [nextValidItem, hcheck, hvalid, itemOffsetOfIndex_succ, hnext], hahead⟩

theorem Ahead.nil (h : Ahead page o []) : getRowDataFromPageEx page o = none := by
  obtain ⟨k, m, hend, hitems, hstart⟩ := h
  simp only [getRowDataFromPageEx, hstart,
    nextValidItem_nil hend hitems.symm, Option.map_none]

/-- The search stops at the next item. -/
theorem Ahead.cons {items : List Int} (h : Ahead page o (i :: items)) :
    getRowDataFromPageEx page o = some (i, rowOfItem page i) ∧ Ahead page i items := by
  obtain ⟨k, m, hend, hitems, hstart⟩ := h
  have hfuel : m ≤ (page.dataOffset - itemOffsetOfIndex k).toNat := by
    rw [hend, itemOffsetOfIndex_eq, itemOffsetOfIndex_eq]
    omega
  obtain ⟨hnext, hahead⟩ := nextValidItem_cons hend hfuel hitems.symm
  refine ⟨?_, hahead⟩
  simp only [getRowDataFromPageEx, hstart, hnext, Option.map_some]

/-- A search starts before all items. -/
theorem Layout.ahead {room : Int → Nat} (hl : Layout page room) :
    Ahead page 0 (validItems page) := by
  obtain ⟨n, hn⟩ := hl.items
  have hindex : getItemIndex page = n := by
    rw [getItemIndex, hn, itemOffsetOfIndex_eq, getCurItemIndex, pageDataHeaderSize, itemSize]
    omega
  exact ⟨0, n, by rw [hn, Nat.zero_add], by rw [validItems, hindex], by
    simp [itemOffsetOfIndex]⟩

/-! ## Rows -/

/-- A row: the versions of each column, and whether the column was moved to an
extension page. -/
structure TableRow where
  versions : Nat → List RowColumnData
  moved : Nat → Bool

/-- The version of every column that is shown, if each has one. -/
def TableRow.shown (snapshot : SnapShotInfo) (own : Nat) (cols : List Nat) (row : TableRow) :
    Option (List RowColumnData) :=
  cols.mapM fun c => snapshot.newestShown own (row.versions c)

/-- None of the columns was moved. -/
def TableRow.readable (cols : List Nat) (row : TableRow) : Bool :=
  cols.all fun c => !row.moved c

/-- Item `o` of page `no` is column `c` of a row. -/
structure ColumnItem (f : TableFile) (no c : Nat) (page : PageDataHeader) (o : Int)
    (row : TableRow) : Prop where
  moved : (page.item o).redirect = row.moved c
  versions : ∃ r rs, RowVersions f no o r rs ∧ row.versions c = r :: rs

/-- A search of page `no` that stopped at `o` has column `c` of the rows before it. -/
def ColumnAhead (f : TableFile) (c : Nat) (rows : List TableRow)
    (no : Nat) (o : Int) : Prop :=
  ∃ page items, f.page no = some page ∧ page.pageType = .data ∧ Ahead page o items ∧
    List.Forall₂ (ColumnItem f no c page) items rows

variable {c : Nat} {row : TableRow} {rows : List TableRow} {cols : List Nat}
  {cs : List (Nat × Int)} {pageReset ignore : Bool}

@[simp] theorem shown_nil : row.shown snapshot own [] = some [] := rfl

theorem shown_cons_some {r : RowColumnData}
    (h : snapshot.newestShown own (row.versions c) = some r) :
    row.shown snapshot own (c :: cols) = (row.shown snapshot own cols).map (r :: ·) := by
  simp only [TableRow.shown, List.mapM_cons, h, Option.bind_eq_bind, Option.bind_some]
  cases cols.mapM fun c => snapshot.newestShown own (row.versions c) <;> rfl

theorem shown_cons_none (h : snapshot.newestShown own (row.versions c) = none) :
    row.shown snapshot own (c :: cols) = none := by
  simp [TableRow.shown, h]

theorem readable_cons : row.readable (c :: cols) = (!row.moved c && row.readable cols) := rfl

theorem RowVersions.rowOfItem {r : RowColumnData} {rs : List RowColumnData}
    (h : RowVersions f no o r rs) (hpage : f.page no = some page)
    (hredirect : (page.item o).redirect = false) : rowOfItem page o = some r := by
  obtain ⟨-, ⟨-, hrow | ⟨page', hpage', -, -, hredirect', -⟩⟩, -⟩ := h
  · obtain ⟨hitem, hstored⟩ := hrow.stored hpage
    exact hitem.rowOfItem hstored
  · rw [hpage, Option.some.injEq] at hpage'
    rw [hpage', hredirect'] at hredirect
    cases hredirect

theorem ColumnAhead.nil (h : ColumnAhead f c [] no o) :
    ((f.page no).bind fun page => getRowDataFromPageEx page o) = none := by
  obtain ⟨page, items, hpage, -, hahead, hrows⟩ := h
  cases hrows
  rw [hpage, Option.bind_some, hahead.nil]

/-- The search stops at the column of the next row. It is read if it was not
moved. -/
theorem ColumnAhead.cons (h : ColumnAhead f c (row :: rows) no o) (snapshot : SnapShotInfo)
    (own : Nat) :
    ∃ found read, ((f.page no).bind fun page => getRowDataFromPageEx page o) =
      some (found, read) ∧
      ColumnAhead f c rows no found ∧ (row.moved c = true → read = none) ∧
      (row.moved c = false → ∃ r pages, read = some r ∧
        Returns (fun depth => readVersion f own snapshot depth r)
          (snapshot.newestShown own (row.versions c), pages)) := by
  obtain ⟨page, items, hpage, htype, hahead, hrows⟩ := h
  cases hrows with
  | @cons found _ items _ hitem hrows =>
    obtain ⟨hget, hahead⟩ := hahead.cons
    obtain ⟨hmoved, r, rs, hversions, heq⟩ := hitem
    refine ⟨found, rowOfItem page found, ?_,
      ⟨page, items, hpage, htype, hahead, hrows⟩, ?_, ?_⟩
    · rw [hpage, Option.bind_some, hget]
    · intro hm
      exact rowOfItem_redirect htype (hmoved.trans hm)
    · intro hm
      obtain ⟨rooms, hf⟩ := hversions.file
      refine ⟨r, walkedPages snapshot own r rs, hversions.rowOfItem hpage (hmoved.trans hm),
        rs.length + 1, fun depth hdepth => ?_⟩
      rw [heq]
      exact readVersion_eq hf hversions.chain depth (by omega)

/-! ## One round of the column loop -/

/-- The pages and offsets have the columns `cols` of the rows before them. -/
def ColumnsAhead (f : TableFile) (pageReset : Bool) (rows : List TableRow)
    (cs : List (Nat × Int)) (cols : List Nat) : Prop :=
  List.Forall₂ (fun p c => ColumnAhead f c rows p.1 (if pageReset then 0 else p.2)) cs cols

theorem scanColumns_length {depth : Nat} {flag : ScanFlag} {offsets : List Int}
    {vals : List RowColumnData}
    (h : scanColumns f own snapshot depth pageReset ignore cs = some (flag, offsets, vals)) :
    offsets.length = cs.length := by
  induction cs generalizing ignore flag offsets vals with
  | nil =>
    simp only [scanColumns, Option.some.injEq, Prod.mk.injEq] at h
    simp [← h.2.1]
  | cons p cs ih =>
    simp only [scanColumns] at h
    split at h
    · simp only [Option.some.injEq, Prod.mk.injEq] at h
      simp [← h.2.1]
    · simp only [Option.some.injEq, Prod.mk.injEq] at h
      simp [← h.2.1]
    · split at h
      · obtain ⟨⟨flag', offsets', vals'⟩, hrec, heq⟩ := Option.map_eq_some_iff.mp h
        simp only [Prod.mk.injEq] at heq
        simp [← heq.2.1, ih hrec]
      · split at h
        · cases h
        all_goals
          obtain ⟨⟨flag', offsets', vals'⟩, hrec, heq⟩ := Option.map_eq_some_iff.mp h
          simp only [Prod.mk.injEq] at heq
          simp [← heq.2.1, ih hrec]

/-- Behind the last row. -/
theorem scanColumns_end (snapshot : SnapShotInfo) (own : Nat)
    (h : ColumnsAhead f pageReset [] cs cols) (hcols : cols ≠ []) (ignore : Bool) :
    ∃ offsets, ∀ depth, scanColumns f own snapshot depth pageReset ignore cs
      = some (.endOfFile, offsets, []) := by
  cases h with
  | nil => exact absurd rfl hcols
  | @cons p _ cs _ hcol _ =>
    refine ⟨(if pageReset then 0 else p.2) :: cs.map Prod.snd, fun depth => ?_⟩
    rw [scanColumns]
    simp only [hcol.nil]

/-- A row with a column that was moved looks like the end of the group. -/
theorem scanColumns_moved (snapshot : SnapShotInfo) (own : Nat)
    (h : ColumnsAhead f pageReset (row :: rows) cs cols) (hmoved : row.readable cols = false)
    (ignore : Bool) :
    ∃ offsets vals,
      Returns (fun depth => scanColumns f own snapshot depth pageReset ignore cs)
      (.endOfFile, offsets, vals) := by
  induction h generalizing ignore with
  | nil => cases hmoved
  | @cons p c cs cols hcol _ ih =>
    obtain ⟨found, read, hget, -, hno, hyes⟩ := hcol.cons snapshot own
    cases hc : row.moved c with
    | true =>
      refine ⟨found :: cs.map Prod.snd, [], returns_of_const fun depth => ?_⟩
      rw [scanColumns]
      simp only [hget, hno hc]
    | false =>
      obtain ⟨r, pages, rfl, hread⟩ := hyes hc
      rw [readable_cons, hc, Bool.not_false, Bool.true_and] at hmoved
      obtain ⟨offsets, vals, htrue⟩ := ih hmoved true
      obtain ⟨offsets', vals', hfalse⟩ := ih hmoved false
      cases ignore with
      | true =>
        refine ⟨found :: offsets, vals, htrue.imp fun k hk depth hdepth => ?_⟩
        simp [scanColumns, hget, hk depth hdepth]
      | false =>
        cases hnewest : snapshot.newestShown own (row.versions c) with
        | none =>
          refine ⟨found :: offsets, vals, (hread.and htrue).imp fun k hk depth hdepth => ?_⟩
          obtain ⟨hversion, hrec⟩ := hk depth hdepth
          simp [scanColumns, hget, hversion, hnewest, hrec]
        | some v =>
          refine ⟨found :: offsets', v :: vals',
            (hread.and hfalse).imp fun k hk depth hdepth => ?_⟩
          obtain ⟨hversion, hrec⟩ := hk depth hdepth
          simp [scanColumns, hget, hversion, hnewest, hrec]

/-- Columns that are all there are skipped once the row is given up. -/
theorem scanColumns_ignore (snapshot : SnapShotInfo) (own : Nat)
    (h : ColumnsAhead f pageReset (row :: rows) cs cols)
    (hreadable : row.readable cols = true) :
    ∃ offsets vals, (∀ depth, scanColumns f own snapshot depth pageReset true cs
        = some (.ignoreInvisibilityColumns, offsets, vals)) ∧
      ColumnsAhead f false rows ((cs.map Prod.fst).zip offsets) cols := by
  induction h with
  | nil => exact ⟨[], [], fun _ => rfl, .nil⟩
  | @cons p c cs cols hcol _ ih =>
    obtain ⟨found, read, hget, hahead, -, hyes⟩ := hcol.cons snapshot own
    rw [readable_cons, Bool.and_eq_true, Bool.not_eq_true'] at hreadable
    obtain ⟨r, -, rfl, -⟩ := hyes hreadable.1
    obtain ⟨offsets, vals, hrec, hrest⟩ := ih hreadable.2
    refine ⟨found :: offsets, vals, fun depth => ?_, .cons hahead hrest⟩
    simp [scanColumns, hget, hrec]

/-- A row with all its columns: it is returned when every column has a version
that is shown, and skipped otherwise. -/
theorem scanColumns_row (snapshot : SnapShotInfo) (own : Nat)
    (h : ColumnsAhead f pageReset (row :: rows) cs cols)
    (hreadable : row.readable cols = true) :
    ∃ flag offsets vals,
      Returns (fun depth => scanColumns f own snapshot depth pageReset false cs)
        (flag, offsets, vals) ∧
      ColumnsAhead f false rows ((cs.map Prod.fst).zip offsets) cols ∧
      match row.shown snapshot own cols with
      | some vals' => flag = .nextRow ∧ vals = vals'
      | none => flag = .ignoreInvisibilityColumns := by
  induction h with
  | nil => exact ⟨.nextRow, [], [], returns_of_const fun _ => rfl, .nil, rfl, rfl⟩
  | @cons p c cs cols hcol hcols ih =>
    obtain ⟨found, read, hget, hahead, -, hyes⟩ := hcol.cons snapshot own
    have hboth := hreadable
    rw [readable_cons, Bool.and_eq_true, Bool.not_eq_true'] at hboth
    obtain ⟨r, pages, rfl, hread⟩ := hyes hboth.1
    cases hnewest : snapshot.newestShown own (row.versions c) with
    | none =>
      obtain ⟨offsets, vals, hrec, hrest⟩ := scanColumns_ignore snapshot own hcols hboth.2
      refine ⟨.ignoreInvisibilityColumns, found :: offsets, vals,
        hread.imp fun k hk depth hdepth => ?_, .cons hahead hrest, ?_⟩
      · simp [scanColumns, hget, hk depth hdepth, hnewest, hrec]
      · rw [shown_cons_none hnewest]
    | some v =>
      obtain ⟨flag, offsets, vals, hrec, hrest, hflag⟩ := ih hboth.2
      refine ⟨flag, found :: offsets, v :: vals,
        (hread.and hrec).imp fun k hk depth hdepth => ?_, .cons hahead hrest, ?_⟩
      · obtain ⟨hversion, hloop⟩ := hk depth hdepth
        simp [scanColumns, hget, hversion, hnewest, hloop]
      · rw [shown_cons_some hnewest]
        cases hrow : row.shown snapshot own cols with
        | none => simpa [hrow] using hflag
        | some vals' => simpa [hrow] using hflag

/-! ## The rows of a group -/

/-- The rows a scan of a group hands out. -/
def scannedRows (snapshot : SnapShotInfo) (own : Nat) (cols : List Nat)
    (rows : List TableRow) :
    List (List RowColumnData) :=
  (rows.takeWhile (TableRow.readable cols)).filterMap (TableRow.shown snapshot own cols)

/-- The rows a snapshot is shown. -/
def shownRows (snapshot : SnapShotInfo) (own : Nat) (cols : List Nat) (rows : List TableRow) :
    List (List RowColumnData) :=
  rows.filterMap (TableRow.shown snapshot own cols)

@[simp] theorem scannedRows_nil : scannedRows snapshot own cols [] = [] := rfl

theorem scannedRows_moved (h : row.readable cols = false) (rows : List TableRow) :
    scannedRows snapshot own cols (row :: rows) = [] := by
  simp [scannedRows, h]

theorem scannedRows_none (h : row.readable cols = true)
    (hrow : row.shown snapshot own cols = none) (rows : List TableRow) :
    scannedRows snapshot own cols (row :: rows) = scannedRows snapshot own cols rows := by
  simp [scannedRows, h, hrow]

theorem scannedRows_some {vals : List RowColumnData} (h : row.readable cols = true)
    (hrow : row.shown snapshot own cols = some vals) (rows : List TableRow) :
    scannedRows snapshot own cols (row :: rows) =
      vals :: scannedRows snapshot own cols rows := by
  simp [scannedRows, h, hrow]

variable {info info' : ScanPageInfo}

/-- The scan has fetched the pages of a group and has the rows before it. -/
structure InGroup (f : TableFile) (cols : List Nat) (info : ScanPageInfo)
    (rows : List TableRow) :
    Prop where
  pages : info.pageList.length = cols.length
  offsets : info.searchPageList.length = cols.length
  ahead : ColumnsAhead f info.pageReset rows (info.pageList.zip info.searchPageList) cols

/-- What the scan of the rows of a group leaves alone. -/
structure SameSearch (info info' : ScanPageInfo) : Prop where
  group : info'.groupPageInfo = info.groupPageInfo
  cols : info'.colindexList = info.colindexList
  offsets : info'.searchPageList.length = info.searchPageList.length
  reset : info'.pageReset = false

theorem InGroup.step (h : InGroup f cols info (row :: rows)) {offsets : List Int}
    (hlen : offsets.length = (info.pageList.zip info.searchPageList).length)
    (hahead : ColumnsAhead f false rows
      (((info.pageList.zip info.searchPageList).map Prod.fst).zip offsets) cols) :
    InGroup f cols { info with searchPageList := offsets, pageReset := false } rows := by
  have hle : info.pageList.length ≤ info.searchPageList.length := by rw [h.pages, h.offsets]
  rw [List.map_fst_zip hle] at hahead
  refine ⟨h.pages, ?_, hahead⟩
  rw [hlen, List.length_zip, h.pages, h.offsets, Nat.min_self]

theorem InGroup.pages_ne (h : InGroup f cols info rows) (hcols : cols ≠ []) :
    info.pageList ≠ [] := by
  rw [← List.length_pos_iff, h.pages, List.length_pos_iff]
  exact hcols

/-- The column loop at the end of a group, or where the group seems to end. -/
theorem InGroup.endOfFile (h : InGroup f cols info rows) (hcols : cols ≠ [])
    {offsets : List Int} {vals : List RowColumnData}
    (hscan : Returns (fun depth => scanColumns f own snapshot depth info.pageReset false
      (info.pageList.zip info.searchPageList)) (.endOfFile, offsets, vals)) :
    ∃ info', Returns₂ (fun depth fuel => seqScanNextColumnOpt f own snapshot depth fuel info)
      (none, info') ∧ SameSearch info info' := by
  obtain ⟨k, hk⟩ := hscan
  refine ⟨{ info with searchPageList := offsets, pageReset := false }, .of_first ⟨k, hk⟩ ?_,
    ⟨rfl, rfl, ?_, rfl⟩⟩
  · intro depth fuel hdepth
    simp [seqScanNextColumnOpt, h.pages_ne hcols, hdepth]
  · simp [scanColumns_length (hk k (Nat.le_refl k)), h.pages, h.offsets]

/-- The next row of a group, or its end. -/
theorem seqScanNextColumnOpt_spec (snapshot : SnapShotInfo) (own : Nat) (hcols : cols ≠ []) :
    ∀ {rows : List TableRow} {info : ScanPageInfo}, InGroup f cols info rows →
      ∃ found info',
        Returns₂ (fun depth fuel => seqScanNextColumnOpt f own snapshot depth fuel info)
          (found, info') ∧ SameSearch info info' ∧
        match scannedRows snapshot own cols rows with
        | [] => found = none
        | vals :: rest => found = some vals ∧ ∃ rows', InGroup f cols info' rows' ∧
            scannedRows snapshot own cols rows' = rest := by
  intro rows
  induction rows with
  | nil =>
    intro info h
    obtain ⟨offsets, hscan⟩ := scanColumns_end snapshot own h.ahead hcols false
    obtain ⟨info', hnext, hsame⟩ := h.endOfFile hcols (returns_of_const hscan)
    exact ⟨none, info', hnext, hsame, rfl⟩
  | cons row rows ih =>
    intro info h
    cases hreadable : row.readable cols with
    | false =>
      obtain ⟨offsets, vals, hscan⟩ := scanColumns_moved snapshot own h.ahead hreadable false
      obtain ⟨info', hnext, hsame⟩ := h.endOfFile hcols hscan
      refine ⟨none, info', hnext, hsame, ?_⟩
      rw [scannedRows_moved hreadable]
    | true =>
      obtain ⟨flag, offsets, vals, hscan, hahead, hflag⟩ :=
        scanColumns_row snapshot own h.ahead hreadable
      have hlen : offsets.length = (info.pageList.zip info.searchPageList).length := by
        obtain ⟨k, hk⟩ := hscan
        exact scanColumns_length (hk k (Nat.le_refl k))
      have hstep := h.step hlen hahead
      have hsame : SameSearch info { info with searchPageList := offsets,
                                               pageReset := false } := by
        refine ⟨rfl, rfl, ?_, rfl⟩
        rw [hstep.offsets, h.offsets]
      cases hshown : row.shown snapshot own cols with
      | some vals' =>
        rw [hshown] at hflag
        obtain ⟨rfl, rfl⟩ := hflag
        refine ⟨some vals, _, .of_first hscan ?_, hsame, ?_⟩
        · intro depth fuel hdepth
          simp [seqScanNextColumnOpt, h.pages_ne hcols, hdepth]
        · rw [scannedRows_some hreadable hshown]
          exact ⟨rfl, rows, hstep, rfl⟩
      | none =>
        rw [hshown] at hflag
        subst hflag
        obtain ⟨found, info', hnext, hsame', hrest⟩ := ih hstep
        refine ⟨found, info', .of_succ hscan hnext ?_,
          ⟨hsame'.group, hsame'.cols, ?_, hsame'.reset⟩, ?_⟩
        · intro depth fuel hdepth hrec
          simp [seqScanNextColumnOpt, h.pages_ne hcols, hdepth, hrec]
        · rw [hsame'.offsets, hsame.offsets]
        · rwa [scannedRows_none hreadable hshown]

/-! ## The groups -/

/-- The valid items from `start` on, on the first of the pages, and on the rest. -/
def itemsAhead (pages : GroupFork) (start : Nat) : List GroupItem :=
  match pages with
  | [] => []
  | items :: pages => (items.drop start ++ pages.flatten).filter (·.valid)

/-- The groups a search has before it. -/
def groupsAhead (groups : GroupFork) (searchInfo : GroupSearch) : List GroupItem :=
  itemsAhead (groups.drop (searchInfo.pageNum - firstGroupPage))
    (if searchInfo.page then searchInfo.item + 1 else 0)

theorem nextGroupItem_none {items : List GroupItem} {index : Nat}
    (h : nextGroupItem items index = none) : items.filter (·.valid) = [] := by
  induction items generalizing index with
  | nil => rfl
  | cons item items ih =>
    rw [nextGroupItem] at h
    split at h
    · cases h
    · rename_i hvalid
      rw [List.filter_cons_of_neg hvalid]
      exact ih h

theorem nextGroupItem_some {items : List GroupItem} {index i : Nat} {item : GroupItem}
    (h : nextGroupItem items index = some (item, i)) :
    ∃ k, i = index + k ∧
      items.filter (·.valid) = item :: (items.drop (k + 1)).filter (·.valid) := by
  induction items generalizing index with
  | nil => cases h
  | cons first items ih =>
    rw [nextGroupItem] at h
    split at h
    · rename_i hvalid
      simp only [Option.some.injEq, Prod.mk.injEq] at h
      obtain ⟨rfl, rfl⟩ := h
      exact ⟨0, rfl, by simp [hvalid]⟩
    · rename_i hvalid
      obtain ⟨k, rfl, hk⟩ := ih h
      refine ⟨k + 1, by omega, ?_⟩
      rw [List.filter_cons_of_neg hvalid, hk]
      rfl

/-- The loop of the group search: the next group, or the end of the last page. -/
theorem searchGroupPages_spec {pages : GroupFork} {pageNum start : Nat}
    {searchInfo : GroupSearch} :
    match itemsAhead pages start with
    | [] => searchGroupPages pages pageNum start searchInfo
        = (none, { searchInfo with
            page := false
            pageNum := if pages = [] then searchInfo.pageNum
              else pageNum + pages.length - 1 })
    | group :: rest => ∃ k searchInfo', searchGroupPages pages pageNum start searchInfo
        = (some group, searchInfo') ∧ searchInfo'.page = true ∧
          searchInfo'.pageNum = pageNum + k ∧
        k < pages.length ∧ itemsAhead (pages.drop k) (searchInfo'.item + 1) = rest := by
  induction pages generalizing pageNum start searchInfo with
  | nil => simp [itemsAhead, searchGroupPages]
  | cons items pages ih =>
    cases hnext : nextGroupItem (items.drop start) start with
    | some found =>
      obtain ⟨group, i⟩ := found
      obtain ⟨k, rfl, hfilter⟩ := nextGroupItem_some hnext
      have hahead : itemsAhead (items :: pages) start
          = group :: itemsAhead (items :: pages) (start + k + 1) := by
        rw [itemsAhead, itemsAhead, List.filter_append, hfilter, List.filter_append,
          List.drop_drop, List.cons_append, Nat.add_assoc]
      rw [hahead]
      exact ⟨0, ⟨true, pageNum, start + k, group.groupid⟩, by
        simp [searchGroupPages, hnext], rfl,
        rfl, by simp, rfl⟩
    | none =>
      have hahead : itemsAhead (items :: pages) start = itemsAhead pages 0 := by
        rw [itemsAhead, List.filter_append, nextGroupItem_none hnext, List.nil_append]
        cases pages <;> simp [itemsAhead]
      have hrec := @ih (pageNum + 1) 0 { searchInfo with pageNum := pageNum }
      rw [hahead]
      cases hrest : itemsAhead pages 0 with
      | nil =>
        rw [hrest] at hrec
        simp only [searchGroupPages, hnext, hrec]
        cases pages with
        | nil => simp
        | cons _ pages => simp; omega
      | cons group rest =>
        rw [hrest] at hrec
        obtain ⟨k, searchInfo', hsearch, hpage, hnum, hk, hitems⟩ := hrec
        refine ⟨k + 1, searchInfo', ?_, hpage, by omega, by simpa using hk, hitems⟩
        simp only [searchGroupPages, hnext, hsearch]

/-- The group search is on a page of the fork. -/
structure SearchOk (groups : GroupFork) (searchInfo : GroupSearch) : Prop where
  first : firstGroupPage ≤ searchInfo.pageNum
  last : searchInfo.pageNum < firstGroupPage + max 1 groups.length

theorem getGroupInfo_some {groups : GroupFork} {searchInfo : GroupSearch} {group : GroupItem}
    {rest : List GroupItem} (hok : SearchOk groups searchInfo)
    (h : groupsAhead groups searchInfo = group :: rest) :
    ∃ searchInfo', getGroupInfo groups searchInfo = (some group, searchInfo') ∧
      SearchOk groups searchInfo' ∧ groupsAhead groups searchInfo' = rest := by
  have hspec := @searchGroupPages_spec (groups.drop (searchInfo.pageNum - firstGroupPage))
    searchInfo.pageNum (if searchInfo.page then searchInfo.item + 1 else 0) searchInfo
  rw [groupsAhead] at h
  rw [h] at hspec
  obtain ⟨k, searchInfo', hsearch, hpage, hnum, hk, hitems⟩ := hspec
  obtain ⟨hfirst, hlast⟩ := hok
  rw [List.length_drop] at hk
  refine ⟨searchInfo', hsearch, ⟨by omega, by omega⟩, ?_⟩
  rw [groupsAhead, hpage, if_pos rfl, hnum, ← hitems, List.drop_drop]
  congr 2
  omega

/-- The search at the end: it keeps the number of the last page. -/
def lastSearch (groups : GroupFork) (searchInfo : GroupSearch) : GroupSearch :=
  { searchInfo with page := false, pageNum := firstGroupPage + (groups.length - 1) }

theorem getGroupInfo_none {groups : GroupFork} {searchInfo : GroupSearch}
    (hok : SearchOk groups searchInfo) (h : groupsAhead groups searchInfo = []) :
    getGroupInfo groups searchInfo = (none, lastSearch groups searchInfo) := by
  have hspec := @searchGroupPages_spec (groups.drop (searchInfo.pageNum - firstGroupPage))
    searchInfo.pageNum (if searchInfo.page then searchInfo.item + 1 else 0) searchInfo
  obtain ⟨hfirst, hlast⟩ := hok
  rw [groupsAhead] at h
  rw [h] at hspec
  refine Eq.trans hspec ?_
  rw [lastSearch, Prod.mk.injEq]
  refine ⟨rfl, ?_⟩
  congr 1
  split
  · rename_i hnil
    rw [List.drop_eq_nil_iff] at hnil
    omega
  · rename_i hne
    rw [List.drop_eq_nil_iff, not_le] at hne
    rw [List.length_drop]
    omega

/-! ## The pages of a group -/

/-- Columns that are asked for in ascending order, none twice. -/
def Ascending (cols : List Nat) : Prop := cols ≠ [] ∧ cols.Pairwise (· < ·)

instance (cols : List Nat) : Decidable (Ascending cols) := by
  unfold Ascending; infer_instance

/-- The page of column `c` of a group. -/
def memberPage (member : List Nat) (c : Nat) : Nat := member.getD c invalidPageNum

@[simp] theorem memberPage_cons_zero (no : Nat) (member : List Nat) :
    memberPage (no :: member) 0 = no := rfl

variable {member : List Nat}

/-- Every member is a page of the table. -/
def MembersOk (f : TableFile) (member : List Nat) : Prop :=
  ∀ no ∈ member, no ≠ invalidPageNum ∧ (f.page no).isSome = true

theorem MembersOk.getPageByIndex (h : MembersOk f (no :: member)) :
    ∃ page, getPageByIndex f no = some page := by
  obtain ⟨hne, hpage⟩ := h no List.mem_cons_self
  obtain ⟨page, hpage⟩ := Option.isSome_iff_exists.mp hpage
  exact ⟨page, by rw [Toadb.getPageByIndex, if_neg hne, hpage]⟩

/-- Ascending columns are met one after the other. -/
theorem memberPages_ascending (h : MembersOk f member) :
    ∀ {k : Nat} {cols : List Nat}, Ascending cols →
      (∀ c ∈ cols, k ≤ c ∧ c < k + member.length) →
      memberPages f member k cols
        = .pages (cols.map fun c => memberPage member (c - k)) := by
  induction member with
  | nil =>
    intro k cols hasc hrange
    obtain ⟨c, cols, rfl⟩ := List.exists_cons_of_ne_nil hasc.1
    have := hrange c List.mem_cons_self
    rw [List.length_nil] at this
    omega
  | cons no member ih =>
    intro k cols hasc hrange
    obtain ⟨page, hpage⟩ := h.getPageByIndex
    have hne := (h no List.mem_cons_self).1
    have hmember : MembersOk f member := fun no hno => h no (List.mem_cons_of_mem _ hno)
    have hshift : ∀ c, k + 1 ≤ c →
        memberPage member (c - (k + 1)) = memberPage (no :: member) (c - k) := by
      intro c hc
      rw [memberPage, memberPage, show c - k = (c - (k + 1)) + 1 by
        omega, List.getD_cons_succ]
    obtain ⟨c, cols, rfl⟩ := List.exists_cons_of_ne_nil hasc.1
    obtain ⟨hfirst, hpairs⟩ := List.pairwise_cons.mp hasc.2
    by_cases hc : k = c
    · subst hc
      by_cases hcols : cols = []
      · simp [memberPages, hne, hpage, hcols]
      · have hrec := ih hmember (k := k + 1) ⟨hcols, hpairs⟩ fun c hc => by
          have hlt := hfirst c hc
          have hle := hrange c (List.mem_cons_of_mem _ hc)
          rw [List.length_cons] at hle
          omega
        have hmap : (cols.map fun c => memberPage member (c - (k + 1)))
            = cols.map fun c => memberPage (no :: member) (c - k) :=
          List.map_congr_left fun c hc => hshift c (hfirst c hc)
        simp [memberPages, hne, hpage, hcols, hrec, hmap, MemberPages.cons]
    · have hrec := ih hmember (k := k + 1) hasc fun c' hc' => by
        have hle := hrange c' hc'
        have hge := hrange c List.mem_cons_self
        rw [List.length_cons] at hle
        rcases List.mem_cons.mp hc' with rfl | hmem
        · omega
        · have hlt := hfirst c' hmem
          omega
      rw [memberPages, if_neg hne, if_neg hc, hrec]
      congr 1
      refine List.map_congr_left fun c' hc' => hshift c' ?_
      have hge := (hrange c List.mem_cons_self).1
      rcases List.mem_cons.mp hc' with rfl | hmem
      · omega
      · have hlt := hfirst c' hmem
        omega

/-- Other columns lead out of the member array. -/
theorem memberPages_overrun (h : MembersOk f member) :
    ∀ {k : Nat} {cols : List Nat}, cols ≠ [] →
      ¬ (cols.Pairwise (· < ·) ∧ ∀ c ∈ cols, k ≤ c) →
        memberPages f member k cols = .overrun := by
  induction member with
  | nil => intro k cols _ _; rfl
  | cons no member ih =>
    intro k cols hcols hnot
    obtain ⟨page, hpage⟩ := h.getPageByIndex
    have hne := (h no List.mem_cons_self).1
    have hmember : MembersOk f member := fun no hno => h no (List.mem_cons_of_mem _ hno)
    obtain ⟨c, cols, rfl⟩ := List.exists_cons_of_ne_nil hcols
    by_cases hc : k = c
    · subst hc
      have hrest : cols ≠ [] := by
        rintro rfl
        exact hnot (by simp)
      have hrec := ih hmember (k := k + 1) hrest fun hand => hnot
        ⟨List.pairwise_cons.mpr ⟨fun c hc => hand.2 c hc, hand.1⟩, fun c hc => by
          rcases List.mem_cons.mp hc with rfl | hmem
          · exact Nat.le_refl _
          · exact Nat.le_of_succ_le (hand.2 c hmem)⟩
      simp [memberPages, hne, hpage, hrest, hrec, MemberPages.cons]
    · have hrec := ih hmember (k := k + 1) hcols fun hand => hnot
        ⟨hand.1, fun c hc => Nat.le_of_succ_le (hand.2 c hc)⟩
      rw [memberPages, if_neg hne, if_neg hc, hrec]

/-- The walk finds the page of each column exactly when the columns are asked
for in ascending order, none twice. -/
theorem memberPages_eq_iff {group : GroupItem} (h : MembersOk f group.member)
    (hrange : ∀ c ∈ cols, c < group.member.length) :
    getGroupMemberPagesOpt f group cols = .pages (cols.map (memberPage group.member)) ↔
      Ascending cols := by
  rw [getGroupMemberPagesOpt]
  constructor
  · intro heq
    refine ⟨?_, ?_⟩
    · rintro rfl
      cases hmember : group.member <;> rw [hmember, memberPages] at heq <;> cases heq
    · by_contra hnot
      have hcols : cols ≠ [] := by
        rintro rfl
        exact hnot .nil
      rw [memberPages_overrun h hcols fun hand => hnot hand.1] at heq
      cases heq
  · intro hasc
    rw [memberPages_ascending h hasc fun c hc => ⟨Nat.zero_le c, by simpa using hrange c hc⟩]
    rfl

end Toadb
