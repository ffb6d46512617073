/-
Toadb.Executor.TableHistoryTheorems — what a SELECT finds of the work done on a table.

A history is a list of calls by any transactions, one after the other. It makes the
changes of those calls that report success, on a table of versions, and on nothing else
(`StoreRuns.run`). That table is the one in storage, cell by cell (`TableStored`), and the
store determines it (`TableStored.unique`). So the scan with any snapshot

  * selects what the changes leave for a reader that sees what the snapshot counts as over
    (`history_scanned`);
  * after inserts selects each row that it sees once, and no other (`inserts_scanned`);
  * selects the same rows in the same order as before when it sees none of the work done in
    between (`unseen_work_scanned`).

An update is refused only for its version or its length (`update_refused_after_history`).
-/
import Toadb.Executor.TableStoreTheorems

namespace Toadb

open VersionedTable Cursor

variable {s s' : TableStore} {table table' : StoredTable} {changes : List StoredChange}
  {call : StoreCall} {done : Bool} {row : List NewRow} {curr : Xtid}

/-! ## One call -/

/-- What a call is made with. -/
def CallOk (s : TableStore) : StoreCall → Prop
  | .startInsert pageListNum => s.table.colNum ≤ pageListNum
  | .insert _ row => HasColumns s.table.colNum row
  | .update _ u => UpdateReady s.table u
  | .delete _ col => FetchedFrom s.table col.headItem col.old

/-- The table is in storage, and what an INSERT keeps is about it. -/
structure StoreOk (s : TableStore) (table : StoredTable) : Prop where
  stored : TableStored s.table table
  scan : InsertScanOk s.table s.scanInfo

theorem InsertsInto.colNum {t t' : PaxTable} {curr : Nat} {item : GroupItem}
    (h : InsertsInto curr t row t' item) (hok : PaxOk t') (hcols : HasColumns t.colNum row) :
    t'.colNum = t.colNum := by
  obtain ⟨t₁, index, -, hgroups, hitem, happends, -⟩ := h
  have hmem : item ∈ t'.groupList := by rwa [PaxTable.groupList, hgroups]
  rw [← hok.columns item hmem, happends.length, hcols.length]

/-- The end of an insert. -/
theorem storeStep_insert {result : InsertEnd}
    (h : Returns (fun fuel => paxExecInsert fuel curr s.table s.scanInfo row) result)
    (hstep : Returns (fun fuel => storeStep fuel s (.insert curr row)) (done, s')) :
    ∃ ret t scanInfo, result = .returns ret t scanInfo ∧ done = decide (0 ≤ ret) ∧
      s' = ⟨t, scanInfo⟩ := by
  obtain ⟨k, hk⟩ := h.and hstep
  obtain ⟨hinsert, hdone⟩ := hk k le_rfl
  rw [storeStep, hinsert] at hdone
  cases result with
  | returns ret t scanInfo =>
    simp only [Option.some.injEq, Prod.mk.injEq] at hdone
    exact ⟨ret, t, scanInfo, rfl, hdone.1.symm, hdone.2.symm⟩
  | crashes => cases hdone

/-- A table of more than 512 columns takes no row. -/
theorem StoreOk.insert_refused (h : StoreOk s table) (hcols : HasColumns s.table.colNum row)
    (hlt : 512 < s.table.colNum) (curr : Nat) :
    ∃ scanInfo', InsertScanOk s.table scanInfo' ∧
      Returns (fun fuel => paxInsertRetry curr row fuel s.table s.scanInfo)
        (.returns (-1) s.table scanInfo') := by
  obtain ⟨rounds, result, hresult, hsearch, hspace⟩ :=
    getSpaceGroupPage_spec h.stored.ok hcols h.scan
  have hsubset := h.scan.triedGroups_subset
  rw [h.stored.ok.groupList_nil (by omega)] at hsubset
  cases hsearch with
  | found hitem _ _ _ => cases hsubset hitem
  | @none scanInfo' _ _ _ _ =>
    refine ⟨scanInfo', hresult, .of_succ (k := rounds + 1) fun fuel hfuel => ?_⟩
    have hfuel := Nat.lt_of_succ_le hfuel
    have hnum : s.table.colNum = 0 ∨ pageExtensionMaxNum < s.table.colNum := .inr hlt
    simp [paxInsertRetry, hspace, hfuel, hnum]

theorem StoreOk.insert (h : StoreOk s table) (hcols : HasColumns s.table.colNum row)
    (hstep : Returns (fun fuel => storeStep fuel s (.insert curr row)) (done, s')) :
    s'.table.colNum = s.table.colNum ∧
      if done then
        ∃ table',
          Step table (.insert curr s'.lastRow (row.map fun col => col.1.value)) table' ∧
          StoreOk s' table'
      else StoreOk s' table := by
  have heq := fun fuel => paxExecInsert_eq hcols h.scan fuel curr
  by_cases hle : s.table.colNum ≤ 252
  · by_cases hfit : ColumnsFit row
    · obtain ⟨t', scanInfo', hreturns, hinserts, hok, hscan⟩ :=
        paxInsertRetry_inserts curr h.stored.ok hcols h.scan hle hfit
      simp only [← heq] at hreturns
      obtain ⟨ret, t, scanInfo, hresult, rfl, rfl⟩ := storeStep_insert hreturns hstep
      cases hresult
      obtain ⟨table', hchange, hstored⟩ := h.stored.insert hok hinserts
      exact ⟨hinserts.colNum hok hcols, table', hchange, hstored, hscan⟩
    · obtain ⟨k, hk⟩ := hstep
      have hnone := hk k le_rfl
      simp [storeStep, heq, paxInsertRetry_eq_none h.stored.ok hcols h.scan hle hfit] at hnone
  · by_cases hlt : 512 < s.table.colNum
    · obtain ⟨scanInfo', hscan, hreturns⟩ := h.insert_refused hcols hlt curr
      simp only [← heq] at hreturns
      obtain ⟨ret, t, scanInfo, hresult, rfl, rfl⟩ := storeStep_insert hreturns hstep
      cases hresult
      exact ⟨rfl, h.stored, hscan⟩
    · have hcrashes :=
        paxInsertRetry_crashes h.stored.ok hcols h.scan (by omega) (by omega) curr
      simp only [← heq] at hcrashes
      obtain ⟨ret, t, scanInfo, hresult, -⟩ := storeStep_insert hcrashes hstep
      cases hresult

/-- A call makes its change when it reports success, and nothing else. -/
theorem StoreOk.step (h : StoreOk s table) (hcall : CallOk s call)
    (hstep : Returns (fun fuel => storeStep fuel s call) (done, s')) :
    s'.table.colNum = s.table.colNum ∧
      if done then ∃ table', Run table (call.change s').toList table' ∧ StoreOk s' table'
      else StoreOk s' table := by
  cases call with
  | startInsert pageListNum =>
    obtain ⟨k, hk⟩ := hstep
    have hdone := hk k le_rfl
    simp only [storeStep, Option.some.injEq, Prod.mk.injEq] at hdone
    obtain ⟨rfl, rfl⟩ := hdone
    exact ⟨rfl, table, .nil, h.stored, insertScanOk_init hcall⟩
  | insert curr row =>
    obtain ⟨hcolNum, hchange⟩ := h.insert hcall hstep
    refine ⟨hcolNum, ?_⟩
    cases done with
    | false => exact hchange
    | true =>
      obtain ⟨table', hchange, hok⟩ := hchange
      exact ⟨table', .cons hchange .nil, hok⟩
  | update curr u =>
    obtain ⟨k, hk⟩ := hstep
    have hdone := hk k le_rfl
    simp only [storeStep, Option.some.injEq, Prod.mk.injEq] at hdone
    obtain ⟨hdone, rfl⟩ := hdone
    have hchange :=
      h.stored.update curr hcall (Prod.mk.eta (p := paxExecUpdate curr u s.table.file)).symm
    rw [hdone] at hchange
    refine ⟨rfl, ?_⟩
    cases done with
    | false => exact ⟨hchange, h.scan.pages, h.scan.search, h.scan.group⟩
    | true =>
      obtain ⟨table', hchange, hstored⟩ := hchange
      exact ⟨table', .cons hchange .nil, hstored, h.scan.pages, h.scan.search, h.scan.group⟩
  | delete curr col =>
    obtain ⟨k, hk⟩ := hstep
    have hdone := hk k le_rfl
    simp only [storeStep, Option.some.injEq, Prod.mk.injEq] at hdone
    obtain ⟨hdone, rfl⟩ := hdone
    have hchange :=
      h.stored.delete curr hcall (Prod.mk.eta (p := paxExecDelete curr col s.table.file)).symm
    rw [hdone] at hchange
    refine ⟨rfl, ?_⟩
    cases done with
    | false => exact ⟨hchange, h.scan.pages, h.scan.search, h.scan.group⟩
    | true =>
      obtain ⟨table', hchange, hstored⟩ := hchange
      exact ⟨table', .cons hchange .nil, hstored, h.scan.pages, h.scan.search, h.scan.group⟩

/-! ## Histories -/

/-- A history, with the changes of the calls that report success. -/
inductive StoreRuns : TableStore → List StoredChange → TableStore → Prop
  | nil {s : TableStore} : StoreRuns s [] s
  | failed {s s₁ s' : TableStore} {call : StoreCall} {changes : List StoredChange} :
      CallOk s call → Returns (fun fuel => storeStep fuel s call) (false, s₁) →
        StoreRuns s₁ changes s' → StoreRuns s changes s'
  | done {s s₁ s' : TableStore} {call : StoreCall} {changes : List StoredChange} :
      CallOk s call → Returns (fun fuel => storeStep fuel s call) (true, s₁) →
        StoreRuns s₁ changes s' → StoreRuns s ((call.change s₁).toList ++ changes) s'

theorem StoreRuns.append {last : TableStore} {more : List StoredChange}
    (h : StoreRuns s changes s')
    (hmore : StoreRuns s' more last) : StoreRuns s (changes ++ more) last := by
  induction h with
  | nil => exact hmore
  | failed hcall hstep _ ih => exact .failed hcall hstep (ih hmore)
  | done hcall hstep _ ih =>
    rw [List.append_assoc]
    exact .done hcall hstep (ih hmore)

/-- A history makes the changes of its calls. -/
theorem StoreRuns.run (h : StoreRuns s changes s') (hok : StoreOk s table) :
    s'.table.colNum = s.table.colNum ∧ ∃ table',
      Run table changes table' ∧ StoreOk s' table' := by
  induction h generalizing table with
  | nil => exact ⟨rfl, table, .nil, hok⟩
  | failed hcall hstep _ ih =>
    obtain ⟨hcolNum, hfirst⟩ := hok.step hcall hstep
    obtain ⟨hcolNum', hrest⟩ := ih hfirst
    exact ⟨hcolNum'.trans hcolNum, hrest⟩
  | done hcall hstep _ ih =>
    obtain ⟨hcolNum, table₁, hfirst, hok₁⟩ := hok.step hcall hstep
    obtain ⟨hcolNum', table', hrest, hok'⟩ := ih hok₁
    exact ⟨hcolNum'.trans hcolNum, table', hfirst.append hrest, hok'⟩

/-- Who writes is a transaction. -/
theorem StoreRuns.writers (h : StoreRuns s changes s') :
    ∀ change ∈ changes, change.writer ≠ invalidXtid := by
  induction h with
  | nil => exact List.forall_mem_nil _
  | failed _ _ _ ih => exact ih
  | @done s s₁ s' call changes hcall _ _ ih =>
    refine List.forall_mem_append.mpr ⟨fun change hchange => ?_, ih⟩
    have hchange := Option.mem_toList.mp hchange
    cases call with
    | startInsert => cases hchange
    | insert curr | update curr | delete curr =>
      cases hchange
      exact curr.2.ne

/-- A table that was just created. -/
def TableStore.created (colNum : Nat) : TableStore := ⟨.created colNum, .init colNum⟩

theorem chainLinks_created (colNum : Nat) : ChainLinks (PaxTable.created colNum).file := by
  intro no page hpage
  rw [PaxTable.created, extensionTbl_page] at hpage
  split at hpage
  · cases hpage
    exact ⟨.inl rfl, .inl rfl⟩
  · cases hpage

theorem storeOk_created {colNum : Nat} (hpos : 0 < colNum) : StoreOk (.created colNum) [] :=
  ⟨⟨paxOk_created hpos, ⟨[], .nil, rfl⟩, chainLinks_created colNum⟩, insertScanOk_init le_rfl⟩

/-! ## Two rows -/

/-- The pages of the columns `a` and `b`. -/
def columnPages : GroupItem := ⟨true, 1, [2, 3]⟩

/-- A row of `a` and `b`, whose bytes are all alike. -/
def pairRow (byte : UInt8) : List NewRow := [newColumn 0 byte 9, newColumn 1 byte 9]

/-- The table of rows that were inserted into one group. -/
def rowsStore (rows : List (List NewRow)) : TableStore where
  table :=
    { colNum := 2
      file := rows.foldl (fun f row => (columnPages.member.zip row).foldl (insertColumn 7) f)
        (extensionTbl 3 ⟨0, fun _ => none⟩)
      groups := [[columnPages]]
      groupId := 1 }
  scanInfo := ⟨columnPages, ⟨true, 2, 0, 1⟩, 2, false⟩

def twoRowStore : TableStore := rowsStore [pairRow 1, pairRow 2]

/-- What the bytes of a row are in the columns. -/
def pairValues (byte : UInt8) : List StoredValue :=
  [(0, List.replicate 9 byte), (1, List.replicate 9 byte)]

/-- Where row `index` is. -/
def pairItems (index : Nat) : List (Nat × Int) :=
  columnPages.member.map fun no => (no, itemOffsetOfIndex index)

/-- The changes that make the two rows. -/
def twoInserts : List StoredChange :=
  [.insert 7 (pairItems 0) (pairValues 1), .insert 7 (pairItems 1) (pairValues 2)]

def twoRows : StoredTable :=
  [newRow 7 (pairItems 0) (pairValues 1), newRow 7 (pairItems 1) (pairValues 2)]

theorem twoInserts_runs : StoreRuns (.created 2) twoInserts twoRowStore := by
  have hfirst :
      Returns (fun fuel => storeStep fuel (.created 2) (.insert ⟨7, by decide⟩ (pairRow 1)))
      (true, rowsStore [pairRow 1]) := by
    refine ⟨5, fun fuel hfuel => ?_⟩
    obtain ⟨n, rfl⟩ : ∃ n, fuel = n + 5 := ⟨fuel - 5, by omega⟩
    rfl
  have hsecond : Returns (fun fuel => storeStep fuel (rowsStore [pairRow 1])
      (.insert ⟨7, by decide⟩ (pairRow 2))) (true, twoRowStore) := by
    refine ⟨5, fun fuel hfuel => ?_⟩
    obtain ⟨n, rfl⟩ : ∃ n, fuel = n + 5 := ⟨fuel - 5, by omega⟩
    rfl
  have hcols : ∀ byte, HasColumns 2 (pairRow byte) := fun _ => rfl
  have hcall : CallOk (.created 2) (.insert ⟨7, by decide⟩ (pairRow 1)) := hcols 1
  have hcall' : CallOk (rowsStore [pairRow 1]) (.insert ⟨7, by decide⟩ (pairRow 2)) := hcols 2
  exact .done hcall hfirst (.done hcall' hsecond .nil)

/-- A new column is stored where its bytes are. -/
theorem cellStored_new {f : TableFile} {no index : Nat} {page : PageDataHeader}
    (col : NewRow) (curr : Xtid)
    (hpage : f.page no = some page) (htype : page.pageType = .data)
    (hitem : IsRowItem page (itemOffsetOfIndex index))
    (hbytes : Bytes.read page.bytes (page.item (itemOffsetOfIndex index)).offset
      (insertedRow curr col.1).size =
      (insertedRow curr col.1).toBytes) :
    CellStored f no (itemOffsetOfIndex index)
      ⟨(no, itemOffsetOfIndex index), [⟨curr, none, col.1.value⟩]⟩ := by
  refine ⟨rfl, ⟨page, hpage, htype⟩, insertedRow curr col.1, [],
    ⟨page, hpage, hitem, insertedRow_fits curr.lt col, hbytes⟩, .last rfl,
      List.forall_mem_nil _, ?_⟩
  simp [RowColumnData.toVersion, insertedRow, computeXminTupleHeader, RowColumnData.value]

/-- The page of a column. -/
def pairPage (c : Fin 2) : PageDataHeader :=
  [1, 2].foldl (fun page byte => (writeRowOnePage page (insertedRow 7 (pairRow byte)[c].1)).1)
    (initPage (c + 2))

theorem twoRowStore_page (c : Fin 2) :
    twoRowStore.table.file.page (c + 2) = some (pairPage c) :=
  match c with
  | 0 => rfl
  | 1 => rfl

/-- Where the columns of the rows are. -/
theorem pairPage_item : ∀ c index : Fin 2, itemOffsetOfIndex index < (pairPage c).dataOffset ∧
    ((pairPage c).item (itemOffsetOfIndex index)).valid = true ∧
    ((pairPage c).item (itemOffsetOfIndex index)).redirect = false ∧
    let row := insertedRow 7 (pairRow (if index = 0 then 1 else 2))[c].1
    Bytes.read (pairPage c).bytes
      ((pairPage c).item (itemOffsetOfIndex index)).offset row.size = row.toBytes := by
  decide

/-- The two rows are what is in storage. -/
theorem twoRowStore_stored : TableStored twoRowStore.table twoRows := by
  obtain ⟨-, table, -, hok⟩ := twoInserts_runs.run (storeOk_created Nat.two_pos)
  have hcell (c index : Fin 2) :
      CellStored twoRowStore.table.file (c + 2) (itemOffsetOfIndex index)
      ⟨(c + 2, itemOffsetOfIndex index),
        [⟨7, none, (pairRow (if index = 0 then 1 else 2))[c].1.value⟩]⟩ := by
    obtain ⟨hlt, hvalid, hredirect, hbytes⟩ := pairPage_item c index
    exact cellStored_new _ ⟨7, by decide⟩ (twoRowStore_page c) rfl
      ⟨⟨index, rfl, hlt⟩, hvalid, hredirect⟩ hbytes
  refine ⟨hok.stored.ok,
    ⟨[twoRows], .cons ⟨fun no hno => ?_, fun index hindex => ?_⟩ .nil, rfl⟩, hok.stored.links⟩
  · obtain ⟨c, rfl⟩ : ∃ c : Fin 2, no = c + 2 := by
      rcases List.mem_pair.mp hno with rfl | rfl
      · exact ⟨0, rfl⟩
      · exact ⟨1, rfl⟩
    refine ⟨_, twoRowStore_page c, rfl, ?_⟩
    match c with
    | 0 => rfl
    | 1 => rfl
  · match index, hindex with
    | 0, _ => exact .cons (hcell 0 0) (.cons (hcell 1 0) .nil)
    | 1, _ => exact .cons (hcell 0 1) (.cons (hcell 1 1) .nil)

theorem twoRowStore_ok : StoreOk twoRowStore twoRows := by
  obtain ⟨-, table, -, hok⟩ := twoInserts_runs.run (storeOk_created Nat.two_pos)
  exact ⟨twoRowStore_stored, hok.scan⟩

/-- Column `a` of the second row is set to a shorter value. -/
def secondUpdate : ColumnUpdate where
  old := insertedRow 7 (newColumn 0 2 9).1
  oldRowSize := 57
  headItem := ⟨2, itemOffsetOfIndex 1, (pairPage 0).item (itemOffsetOfIndex 1)⟩
  row := (newColumn 0 3 5).1

theorem secondUpdate_ready : UpdateReady twoRowStore.table secondUpdate := by
  obtain ⟨hlt, -⟩ := pairPage_item 0 1
  have hmember : ∃ item ∈ twoRowStore.table.groupList, 2 ∈ item.member :=
    ⟨columnPages, List.mem_singleton_self _, by decide⟩
  refine ⟨⟨hmember, pairPage 0, secondUpdate.old, twoRowStore_page 0, ⟨1, rfl, hlt⟩,
    rfl, by decide, .inl rfl⟩,
    by decide, (newColumn 0 3 5).2, fun _ _ => .inl (by decide), by decide⟩

def updatedStore : TableStore :=
  twoRowStore.setFile (paxExecUpdate 8 secondUpdate twoRowStore.table.file).2

/-- The change that the update makes. -/
def secondWrite : StoredChange := .write 8 (2, 56) (0, List.replicate 5 3)

theorem secondUpdate_runs : StoreRuns twoRowStore [secondWrite] updatedStore := by
  have hdone : (paxExecUpdate 8 secondUpdate twoRowStore.table.file).1 = true := by decide
  have hcall : CallOk twoRowStore (.update ⟨8, by decide⟩ secondUpdate) := secondUpdate_ready
  refine .done hcall (returns_of_const fun fuel => ?_) .nil
  simp [storeStep, hdone, updatedStore]

def updatedRows : StoredTable := twoRows.writeCells 8 [((2, 56), (0, List.replicate 5 3))]

theorem updatedStore_ok : StoreOk updatedStore updatedRows := by
  obtain ⟨-, table, hrun, hok⟩ := secondUpdate_runs.run twoRowStore_ok
  have hchanges : Run twoRows ([((2, 56), (0, List.replicate 5 3))].map fun (pos, value) =>
      .write 8 pos value) table := hrun
  rw [updatedRows, ← hchanges.writes]
  exact hok

/-- Column `b` of the first row. -/
def firstColumn : FetchedColumn :=
  ⟨⟨3, itemOffsetOfIndex 0, (pairPage 1).item (itemOffsetOfIndex 0)⟩,
    insertedRow 7 (newColumn 1 1 9).1⟩

def deletedStore : TableStore :=
  updatedStore.setFile (paxExecDelete 9 firstColumn updatedStore.table.file).2

theorem firstDelete_runs : StoreRuns updatedStore [.delete 9 (3, 40)] deletedStore := by
  obtain ⟨hlt, -⟩ := pairPage_item 1 0
  have hmember : ∃ item ∈ updatedStore.table.groupList, 3 ∈ item.member :=
    ⟨columnPages, List.mem_singleton_self _, by decide⟩
  have hdone : (paxExecDelete 9 firstColumn updatedStore.table.file).1 = true := by decide
  have hcall : CallOk updatedStore (.delete ⟨9, by decide⟩ firstColumn) :=
    ⟨hmember, pairPage 1, firstColumn.old, rfl, ⟨0, rfl, hlt⟩, rfl, by decide, .inl rfl⟩
  refine .done hcall (returns_of_const fun fuel => ?_) .nil
  simp [storeStep, hdone, deletedStore]

theorem deletedStore_ok : StoreOk deletedStore (updatedRows.deleteCells 9 [(3, 40)]) := by
  obtain ⟨-, table, hrun, hok⟩ := firstDelete_runs.run updatedStore_ok
  have hchanges : Run updatedRows ([(3, 40)].map (.delete 9)) table := hrun
  rw [← hchanges.deletes]
  exact hok

/-! ## The results -/

/-- The scan with a snapshot returns rows with the values `rows`. -/
def ScanSelects (s : TableStore) (snapshot : SnapShotInfo) (own : Nat) (cols : List Nat)
    (rows : List (List StoredValue)) : Prop :=
  ∃ out,
    Returns (scanTable s.table.file s.table.groups own snapshot s.table.colNum cols) out ∧
    out.map (List.map RowColumnData.value) = rows

theorem ScanSelects.unique {snapshot : SnapShotInfo} {own : Nat} {cols : List Nat}
    {rows rows' : List (List StoredValue)} (h : ScanSelects s snapshot own cols rows)
    (h' : ScanSelects s snapshot own cols rows') : rows = rows' := by
  obtain ⟨out, hout, rfl⟩ := h
  obtain ⟨out', hout', rfl⟩ := h'
  rw [hout.unique hout']

/-- A scan that does not see the changes selects what it selected before them. -/
theorem StoreRuns.scan_unseen (h : StoreRuns s changes s') (hok : StoreOk s table)
    {snapshot : SnapShotInfo} {own : Nat}
    (hunseen : ∀ change ∈ changes, ¬ snapshot.Sees own change.writer)
    {cols : List Nat} (hasc : Ascending cols) (hrange : ∀ c ∈ cols, c < s.table.colNum) :
    ScanSelects s' snapshot own cols (table.select (snapshot.Sees own) cols) := by
  obtain ⟨hcolNum, table', hrun, hok'⟩ := h.run hok
  rw [← hrun.select_unseen hasc.1 hunseen]
  exact hok'.stored.scan snapshot own hasc fun c hc => hcolNum ▸ hrange c hc

/-- The changes of a history make one table of versions, and it is the one in storage. A scan
selects what is left in it for a reader that sees what the snapshot counts as over. -/
theorem history_scanned {colNum : Nat} (hpos : 0 < colNum)
    (hruns : StoreRuns (.created colNum) changes s) :
    ∃ table, Run [] changes table ∧ (∀ stored, TableStored s.table stored ↔ stored = table) ∧
      ∀ snapshot own cols, Ascending cols → (∀ c ∈ cols, c < colNum) →
        ScanSelects s snapshot own cols (table.select (snapshot.Sees own) cols) := by
  obtain ⟨hcolNum, table, hrun, hok⟩ := hruns.run (storeOk_created hpos)
  refine ⟨table, hrun, fun stored =>
    ⟨fun h => h.unique hok.stored, fun h => h ▸ hok.stored⟩, ?_⟩
  intro snapshot own cols hasc hrange
  exact hok.stored.scan snapshot own hasc fun c hc => hcolNum ▸ hrange c hc

/-- What a later transaction finds after an update and a delete, and what one before both. -/
theorem history_scanned_rows :
    ScanSelects deletedStore ⟨20, 20, 0, []⟩ 20 [0, 1]
      [[(0, List.replicate 5 3), (1, List.replicate 9 2)]] ∧
      ScanSelects deletedStore ⟨8, 8, 0, []⟩ 6 [0, 1] [pairValues 1, pairValues 2] := by
  obtain ⟨table, -, hstored, hscan⟩ := history_scanned (by decide)
    (twoInserts_runs.append (secondUpdate_runs.append firstDelete_runs))
  obtain rfl := (hstored _).mp deletedStore_ok.stored
  have hasc : Ascending [0, 1] := by decide
  have hlater : Table.select ((⟨20, 20, 0, []⟩ : SnapShotInfo).Sees 20) [0, 1]
      (updatedRows.deleteCells 9 [(3, 40)]) =
      [[(0, List.replicate 5 3), (1, List.replicate 9 2)]] := by decide
  have hbefore : Table.select ((⟨8, 8, 0, []⟩ : SnapShotInfo).Sees 6) [0, 1]
      (updatedRows.deleteCells 9 [(3, 40)]) =
      [pairValues 1, pairValues 2] := by decide
  exact ⟨hlater ▸ hscan _ _ _ hasc (by decide), hbefore ▸ hscan _ _ _ hasc (by decide)⟩

/-- After inserts the scan selects each row once whose insert the snapshot counts as over, and
no other. -/
theorem inserts_scanned {colNum : Nat} (hpos : 0 < colNum)
    (hruns : StoreRuns (.created colNum) changes s)
    (hinserts : ∀ change ∈ changes, ∃ x positions values, change = .insert x positions values)
    (snapshot : SnapShotInfo) (own : Nat) {cols : List Nat} (hasc : Ascending cols)
    (hrange : ∀ c ∈ cols, c < colNum) :
    ∃ rows, ScanSelects s snapshot own cols rows ∧
      rows.Perm (changes.filterMap (Change.selected (snapshot.Sees own) cols)) := by
  obtain ⟨hcolNum, table, hrun, hok⟩ := hruns.run (storeOk_created hpos)
  refine ⟨_, hok.stored.scan snapshot own hasc fun c hc => hcolNum ▸ hrange c hc, ?_⟩
  have hperm := hrun.select_inserts (snapshot.Sees own) hasc.1 hinserts
  have hnone : Table.select (snapshot.Sees own) cols ([] : StoredTable) = [] := rfl
  rwa [hnone, List.append_nil] at hperm

theorem inserts_scanned_rows : ∃ rows, ScanSelects twoRowStore ⟨9, 9, 0, []⟩ 6 [0, 1] rows ∧
    rows.Perm [pairValues 1, pairValues 2] := by
  have hinserts : ∀ change ∈ twoInserts, ∃ x positions values,
      change = .insert x positions values :=
    List.forall_mem_cons.mpr ⟨⟨_, _, _, rfl⟩, List.forall_mem_singleton.mpr ⟨_, _, _, rfl⟩⟩
  have hasc : Ascending [0, 1] := by decide
  exact inserts_scanned (by decide) twoInserts_runs hinserts ⟨9, 9, 0, []⟩ 6 hasc (by decide)

/-- Work that the snapshot does not show leaves what the scan selects, and its order. -/
theorem unseen_work_scanned {colNum : Nat} (hpos : 0 < colNum) {before : List StoredChange}
    (hbefore : StoreRuns (.created colNum) before s) (hruns : StoreRuns s changes s')
    (snapshot : SnapShotInfo)
    (own : Nat) (hunseen : ∀ change ∈ changes, ¬ snapshot.Sees own change.writer)
    {cols : List Nat} (hasc : Ascending cols) (hrange : ∀ c ∈ cols, c < colNum) :
    ∃ rows, ScanSelects s snapshot own cols rows ∧ ScanSelects s' snapshot own cols rows := by
  obtain ⟨hcolNum, table, -, hok⟩ := hbefore.run (storeOk_created hpos)
  have hrange : ∀ c ∈ cols, c < s.table.colNum := fun c hc => hcolNum ▸ hrange c hc
  exact ⟨_, hok.stored.scan snapshot own hasc hrange,
    hruns.scan_unseen hok hunseen hasc hrange⟩

/-- An update and a delete that a snapshot does not show. -/
theorem unseen_work_scanned_rows :
    ScanSelects deletedStore ⟨8, 8, 0, []⟩ 6 [0, 1] [pairValues 1, pairValues 2] := by
  have hasc : Ascending [0, 1] := by decide
  have hunseen : ∀ change ∈ [secondWrite, .delete 9 (3, 40)],
      ¬ (⟨8, 8, 0, []⟩ : SnapShotInfo).Sees 6 change.writer := by
    decide
  obtain ⟨rows, hbefore, hafter⟩ := unseen_work_scanned (by decide) twoInserts_runs
    (secondUpdate_runs.append firstDelete_runs) ⟨8, 8, 0, []⟩ 6 hunseen hasc (by decide)
  have hrows : ScanSelects twoRowStore ⟨8, 8, 0, []⟩ 6 [0, 1]
      [pairValues 1, pairValues 2] := by
    have hselect : twoRows.select ((⟨8, 8, 0, []⟩ : SnapShotInfo).Sees 6) [0, 1] =
        [pairValues 1, pairValues 2] := by
      decide
    rw [← hselect]
    exact twoRowStore_stored.scan _ _ hasc (by decide)
  rwa [hrows.unique hbefore]

/-- The copy that was read is the newest version when its test passes, in a table whose
writers are transactions. -/
theorem TableStored.newestAt_iff (h : TableStored s.table table)
    (hcreators : ∀ cell ∈ table.cells, ∀ version ∈ cell.versions,
      version.creator ≠ invalidXtid)
    {headItem : HeapItemData} {old : RowColumnData}
    (hfetched : FetchedFrom s.table headItem old) (curr : Nat) :
    table.NewestAt headItem.pos old.toVersion ↔
      tupleUpdateSatisfy curr old.headerData = .ok := by
  obtain ⟨rooms, hf⟩ := h.ok.file
  obtain ⟨cell, hcell, hstored⟩ := h.cell_fetched hfetched
  obtain ⟨page, r, rs, -, -, -, hat, hchain, hold, -⟩ := h.fetched hfetched
  have hdeleter : old.toVersion.deleter = none ↔ old.headerData.tmax = invalidXtid := by
    simp [RowColumnData.toVersion]
  rw [updateSatisfy_iff]
  constructor
  · rintro ⟨other, hother, -, hhead, hlive⟩
    exact ⟨hcreators other hother _ (List.mem_of_mem_head? hhead), hdeleter.mp hlive⟩
  · rintro ⟨-, hlive⟩
    obtain rfl := hold.resolve_right fun hdeleted => hdeleted.2 hlive
    refine ⟨cell, hcell, hstored.pos, ?_, hdeleter.mpr hlive⟩
    rw [hstored.versions_eq hf hat hchain]
    rfl

/-- After any history an update of a column, with the copies that a read of the file gives, is
refused only when the version is not the newest or is deleted, or when one of the rows is too
large for a page: there is space for every other, and no chain is broken. -/
theorem update_refused_after_history {colNum : Nat} (hpos : 0 < colNum)
    (hruns : StoreRuns (.created colNum) changes s)
    (curr : Xtid) {u : ColumnUpdate} (hfetched : FetchedFrom s.table u.headItem u.old)
    (hsize : u.old.size ≤ u.oldRowSize) (hfits : u.row.Fits) :
    ∃ table, Run [] changes table ∧ TableStored s.table table ∧
      ((paxExecUpdate curr u s.table.file).1 = false ↔ TooLarge (itemSize + u.oldRowSize) ∨
        ¬ table.NewestAt u.headItem.pos u.old.toVersion ∨
          (u.old.size < u.row.size ∧ TooLarge (u.row.size + itemSize))) := by
  obtain ⟨-, table, hrun, hok⟩ := hruns.run (storeOk_created hpos)
  obtain ⟨page, r, rs, hread, -, -⟩ := hok.stored.columnRead hfetched hsize hfits
  have hcreators := hrun.creators (· ≠ invalidXtid) hruns.writers (List.forall_mem_nil _)
  refine ⟨table, hrun, hok.stored, ?_⟩
  rw [hok.stored.newestAt_iff hcreators hfetched curr]
  exact hread.refused_links hok.stored.links curr.lt

/-- The page of column `a` after the update. -/
def updatedPage : PageDataHeader := (updatedStore.table.file.page 2).get (by decide)

/-- Column `a` of the first row. -/
def firstUpdate : ColumnUpdate where
  old := insertedRow 7 (newColumn 0 1 9).1
  oldRowSize := 57
  headItem := ⟨2, itemOffsetOfIndex 0, updatedPage.item (itemOffsetOfIndex 0)⟩
  row := (newColumn 0 4 5).1

/-- Column `a` of the second row, as a snapshot finds it that does not show the update. -/
def staleUpdate : ColumnUpdate where
  old := secondUpdate.undoRow 8
  oldRowSize := 57
  headItem := ⟨2, itemOffsetOfIndex 1, updatedPage.item (itemOffsetOfIndex 1)⟩
  row := (newColumn 0 4 5).1

theorem updatedPage_found : updatedStore.table.file.page 2 = some updatedPage :=
  (Option.some_get _).symm

theorem firstUpdate_fetched :
    FetchedFrom updatedStore.table firstUpdate.headItem firstUpdate.old :=
  ⟨⟨columnPages, List.mem_singleton_self _, by decide⟩, updatedPage,
    firstUpdate.old, updatedPage_found,
    ⟨0, rfl, by decide⟩, rfl, by decide, .inl rfl⟩

theorem staleUpdate_fetched :
    FetchedFrom updatedStore.table staleUpdate.headItem staleUpdate.old := by
  refine ⟨⟨columnPages, List.mem_singleton_self _, by decide⟩, updatedPage,
    (rowOfItem updatedPage (itemOffsetOfIndex 1)).get (by decide), updatedPage_found,
      ⟨1, rfl, by decide⟩, rfl,
    (Option.some_get _).symm, .inr ⟨6, ⟨8, 8, 0, []⟩, [4], 2, fun depth hdepth => ?_⟩⟩
  obtain ⟨n, rfl⟩ : ∃ n, depth = n + 2 := ⟨depth - 2, by omega⟩
  rfl

theorem update_refused_rows : (paxExecUpdate 9 firstUpdate updatedStore.table.file).1 = true ∧
    (paxExecUpdate 9 staleUpdate updatedStore.table.file).1 = false := by
  have hruns := twoInserts_runs.append secondUpdate_runs
  constructor
  · obtain ⟨table, -, hstored, hrefused⟩ :=
      update_refused_after_history (by decide) hruns ⟨9, by decide⟩
        firstUpdate_fetched (by decide) (newColumn 0 4 5).2
    obtain rfl := hstored.unique updatedStore_ok.stored
    rw [← Bool.not_eq_false]
    exact fun h => absurd (hrefused.mp h) (by decide)
  · obtain ⟨table, -, hstored, hrefused⟩ :=
      update_refused_after_history (by decide) hruns ⟨9, by decide⟩
        staleUpdate_fetched (by decide) (newColumn 0 4 5).2
    obtain rfl := hstored.unique updatedStore_ok.stored
    exact hrefused.mpr (.inr (.inl (by decide)))

end Toadb
