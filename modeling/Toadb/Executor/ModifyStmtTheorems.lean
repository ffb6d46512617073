/-
Toadb.Executor.ModifyStmtTheorems — an UPDATE or a DELETE statement, from its parse tree to
what it leaves.

The node that modifies the table hands row after row to the node beside it, while
the scan below stands in the table that is written. What is written does not touch the
rows that the scan has before it, so the statement is carried out on the rows that
it finds at the beginning (`ModifyPlan.Ok.exec`).

  * `delete_after_history`: a DELETE deletes the cells of the rows that it sees and that
    satisfy the WHERE clause, up to the first that is not current;
  * `deleted_rows_scanned`: a scan that sees all the work on these cells selects the other
    rows.
-/
import Toadb.Executor.ModifyRowsTheorems
import Toadb.Executor.SelectStmtTheorems

namespace Toadb

open VersionedTable Cursor

/-! ## One table -/

/-- The plan of a statement on one table. -/
structure ModifyPlan.Ok (plan : ModifyPlan) (t : PaxTable) : Prop where
  rtable : ∃ rte, plan.rtable = [rte] ∧ rte.rindex = firstRangtableIndex ∧
    rte.tblInfo = some plan.scan.tblInfo
  rindex : plan.scan.rindex = firstRangtableIndex
  node : plan.scan.node = ⟨t.file, t.groups, t.colNum, plan.scan.node.colindexList⟩
  ascending : Ascending plan.scan.node.colindexList
  range : ∀ c ∈ plan.scan.node.colindexList, c < t.colNum
  columns : ∀ col ∈ plan.scan.tblInfo.column, col.attrIndex < t.colNum
  targets : ∀ target ∈ plan.targetList,
    target.rindex = firstRangtableIndex ∧ target.attrIndex < t.colNum

section Scan

variable {t : PaxTable} {groups : List (List VersionedRow)} {own : Nat}
  {snapshot : SnapShotInfo} {cols : List Nat}
  {scan : TableScan} {info : ScanPageInfo} {is : List VersionedRow}

/-- The scan has the rows `is` before it. -/
inductive ScanAt (t : PaxTable) (groups : List (List VersionedRow)) (own : Nat)
    (snapshot : SnapShotInfo)
    (cols : List Nat) : Option ScanPageInfo → List VersionedRow → Prop
  | start : ScanAt t groups own snapshot cols (some (startInfo cols))
      (groups.flatten.filter (Visible snapshot own cols))
  | behind {info : ScanPageInfo} {k i : Nat} {rows : List VersionedRow} :
      ScanOn t cols info k i → groups[k]? = some rows →
      i < rows.length →
      ScanAt t groups own snapshot cols (some info)
        ((rowsFrom groups k (i + 1)).filter (Visible snapshot own cols))

/-- The scan has handed out a row. -/
def ScanNow (t : PaxTable) (groups : List (List VersionedRow)) (own : Nat)
    (snapshot : SnapShotInfo) (scan : TableScan)
    (row : VersionedRow) (scanPostionInfo : Option ScanPageInfo) (rowData : ScanTableRowData)
    (is : List VersionedRow) :
    Prop :=
  ∃ info k i vals, scanPostionInfo = some info ∧ rowData = [scan.position info vals] ∧
    PositionOn t groups own snapshot scan.node.colindexList
      (scan.position info vals).toTableRowPosition k i row ∧
    is = (rowsFrom groups k (i + 1)).filter (Visible snapshot own scan.node.colindexList)

theorem ScanAt.next (h : ScanAt t groups own snapshot cols (some info) is)
    (hstored : GroupsStored t groups) (hasc : Ascending cols)
    (hrange : ∀ c ∈ cols, c < t.colNum) :
    ∃ found info', Returns (fun fuel => seqscanNext t.file t.groups own snapshot fuel info)
      (found, info') ∧
      ScanHands t groups cols own snapshot is found info' := by
  cases h with
  | start => exact hstored.seqscanNext_start hasc hrange own snapshot
  | behind hon hrows hi => exact hstored.seqscanNext_on hasc hrange own snapshot hon hrows hi

theorem ScanAt.position {scanPostionInfo : Option ScanPageInfo}
    (h : ScanAt t groups own snapshot cols scanPostionInfo is) :
    ∃ info, scanPostionInfo = some info := by
  cases h <;> exact ⟨_, rfl⟩

/-- The scan hands out the rows of the table that are shown. -/
theorem GroupsStored.serves (h : GroupsStored t groups)
    (hnode : scan.node = ⟨t.file, t.groups, t.colNum, scan.node.colindexList⟩)
    (hasc : Ascending scan.node.colindexList)
    (hrange : ∀ c ∈ scan.node.colindexList, c < t.colNum) (own : Nat)
    (snapshot : SnapShotInfo) :
    Serves (scanNodeProc own snapshot [scan] (.seqScan scan.node))
      (ScanAt t groups own snapshot scan.node.colindexList)
      (ScanNow t groups own snapshot scan) := by
  have hcall : ∀ {found : Option (List RowColumnData)} {info info' : ScanPageInfo},
      Returns (fun fuel => seqscanNext t.file t.groups own snapshot fuel info)
        (found, info') →
        Returns (fun fuel => scanNodeProc own snapshot [scan]
          (.seqScan scan.node) fuel (some info))
          (found.map fun vals => [scan.position info' vals], some info') := by
    rintro found info info' ⟨n, hn⟩
    refine ⟨n, fun fuel hfuel => ?_⟩
    have hscan : seqscanNext scan.node.file scan.node.groups own snapshot fuel info =
        some (found, info') := by
      rw [hnode]
      exact hn fuel hfuel
    simp only [scanNodeProc, Cursor.attach, execNodeProc, hscan, Option.map_some]
    cases found <;> rfl
  refine ⟨fun scanPostionInfo hat => ?_, fun scanPostionInfo row is hat => ?_, ?_⟩
  · obtain ⟨info, rfl⟩ := hat.position
    obtain ⟨found, info', hnext, hhands⟩ := hat.next h hasc hrange
    cases hhands
    exact ⟨some info', hcall hnext⟩
  · obtain ⟨info, rfl⟩ := hat.position
    obtain ⟨found, info', hnext, k, i, rows, vals, rfl, hon, hrows, hi, hshown, hbehind⟩ :=
      hat.next h hasc hrange
    refine ⟨_, some info', hcall hnext, info', k, i, vals, rfl, rfl,
      ⟨?_, ?_, hon, ⟨rows, hrows, hi⟩, hshown⟩, hbehind.symm⟩
    · exact congrArg SeqScan.file hnode
    · exact congrArg SeqScan.groups hnode
  · rintro row _ rowData is ⟨info, k, i, vals, rfl, -, hpos, rfl⟩
    obtain ⟨rows, hrows, hi⟩ := hpos.rows
    exact .behind hpos.on hrows (List.getElem?_eq_some_iff.mp hi).1

end Scan

/-! ## The row that was found -/

section Found

variable {plan : ModifyPlan} {t : PaxTable} {pos : TableRowDataPosition}

/-- The row of the one table. -/
structure FoundIn (plan : ModifyPlan) (pos : TableRowDataPosition) : Prop where
  tblInfo : pos.tblInfo = plan.scan.tblInfo
  rindex : pos.rindex = firstRangtableIndex

theorem numbered_one {rte : RangTblEntry} (h : rte.rindex = firstRangtableIndex) :
    Numbered [rte] := by
  rintro (_ | _ | index) entry hget
  · cases hget
  · cases hget
    exact h
  · cases hget

theorem ModifyPlan.Ok.numbered (h : plan.Ok t) : Numbered plan.rtable := by
  obtain ⟨rte, hrtable, hindex, -⟩ := h.rtable
  rw [hrtable]
  exact numbered_one hindex

theorem ModifyPlan.Ok.entry (h : plan.Ok t) :
    ∃ rte, getCellValueByIndex plan.rtable firstRangtableIndex = some rte ∧
    rte.rindex = firstRangtableIndex ∧ rte.tblInfo = some plan.scan.tblInfo := by
  obtain ⟨rte, hrtable, hindex, htbl⟩ := h.rtable
  exact ⟨rte, by rw [hrtable]; rfl, hindex, htbl⟩

theorem FoundIn.position (h : FoundIn plan pos) :
    ScanTableRowData.getTblRowDataPosition [pos]
      (some plan.scan.tblInfo) firstRangtableIndex = some pos := by
  simp [ScanTableRowData.getTblRowDataPosition, h.tblInfo, h.rindex]

theorem ModifyPlan.Ok.targetPosition (h : plan.Ok t) (hpos : FoundIn plan pos)
    {target : TargetEntry} (htarget : target.rindex = firstRangtableIndex) :
    targetPosition plan.rtable [pos] target =
      getColRowDataPos pos.toTableRowPosition target.attrIndex := by
  obtain ⟨rte, hrte, hindex, htbl⟩ := h.entry
  simp [Toadb.targetPosition, htarget, hrte, hindex, htbl, hpos.position]

theorem ModifyPlan.Ok.targetColumn (h : plan.Ok t) (hpos : FoundIn plan pos)
    {target : TargetEntry} (htarget : target.rindex = firstRangtableIndex) :
    targetColumn plan.rtable [pos] target =
      getColRowDataEx pos.toTableRowPosition target.attrIndex := by
  obtain ⟨rte, hrte, hindex, htbl⟩ := h.entry
  simp [Toadb.targetColumn, htarget, hrte, hindex, htbl, hpos.position]

theorem ModifyPlan.Ok.readColumn (h : plan.Ok t) (hpos : FoundIn plan pos) (attrIndex : Nat) :
    readColumn plan.rtable ([pos].map (·.toTableRowPosition))
      (firstRangtableIndex, attrIndex) =
      getColRowDataEx pos.toTableRowPosition attrIndex := by
  obtain ⟨rte, hrte, hindex, -⟩ := h.entry
  simp [Toadb.readColumn, hrte, hindex, getTblRowDataPosition, hpos.rindex]

/-- A column that is found in one entry is one of its table. -/
theorem searchColumDef_one {columnRef : ColumnRef} {rte entry : RangTblEntry} {index : Nat}
    {col : ColumnDefInfo} (h : searchColumDef columnRef [rte] = some (index, entry, col)) :
    entry = rte ∧ ∃ tblInfo, rte.tblInfo = some tblInfo ∧ col ∈ tblInfo.column := by
  unfold searchColumDef at h
  split at h
  next one hone =>
    cases h
    obtain ⟨k, -, hget, hcol⟩ := mem_columnOwners (hone ▸ List.mem_singleton_self _)
    obtain rfl : entry = rte := List.mem_singleton.mp (List.mem_of_getElem? hget)
    rw [columnOf] at hcol
    split at hcol
    · obtain ⟨tblInfo, htbl, hdef⟩ := Option.bind_eq_some_iff.mp hcol
      rw [getAttrDef] at hdef
      exact ⟨rfl, tblInfo, htbl, List.mem_of_find?_eq_some hdef⟩
    · cases hcol
  next => cases h

theorem ModifyPlan.Ok.searched (h : plan.Ok t) {columnRef : ColumnRef}
    {found : Nat × RangTblEntry × ColumnDefInfo}
    (hfound : searchColumDef columnRef plan.rtable = some found) :
    found.2.1.rindex = firstRangtableIndex ∧ found.2.2.attrIndex < t.colNum := by
  obtain ⟨rte, hrtable, hindex, htbl⟩ := h.rtable
  rw [hrtable] at hfound
  obtain ⟨hentry, tblInfo, htblInfo, hcol⟩ := searchColumDef_one hfound
  rw [htbl, Option.some.injEq] at htblInfo
  exact ⟨hentry ▸ hindex, h.columns found.2.2 (htblInfo ▸ hcol)⟩

end Found

/-! ## The rows that a statement is about -/

section Chosen

variable {V : Type} (ops : ExprOps V) (decodeValue : StoredValue → V)
  (snapshot : SnapShotInfo) (own : Nat) (cols : List Nat)
  (rtable : List RangTblEntry) (whereList : List ExprNode)

/-- The values of a row. -/
def rowNow (row : VersionedRow) (_ attrIndex : Nat) : V :=
  match columnNow snapshot own cols row attrIndex with
  | some value => decodeValue value
  | none => ops.zero

/-- The conditions have values for the row, and the rewriting keeps their meaning there. -/
def WhereOkNow (row : VersionedRow) : Prop :=
  WhereOk ops rtable (rowNow ops decodeValue snapshot own cols row) whereList

/-- Does the row satisfy one of the conditions, if there is any? -/
def holdsNow (row : VersionedRow) : Option Bool :=
  (whereList.mapM (evalExpr ops rtable (rowNow ops decodeValue snapshot own cols row))).map
    fun values =>
    values.isEmpty || values.any ops.getDataBool

/-- The rows that the scan hands out and that satisfy the WHERE clause. -/
def chosenRows (table : StoredTable) : StoredTable :=
  (table.filter (Visible snapshot own cols)).filter fun row =>
    holdsNow ops decodeValue snapshot own cols rtable whereList row = some true

end Chosen

section Statement

variable {plan : ModifyPlan} {t : PaxTable} {groups : List (List VersionedRow)}
  {f : TableFile} {own : Nat}
  {snapshot : SnapShotInfo} {pos : TableRowDataPosition} {k i c : Nat} {row : VersionedRow}
  {V : Type} {ops : SetOps V}
  {decodeValue : StoredValue → V} {whereList : List ExprNode}

theorem ModifyPlan.Ok.rowValues (h : plan.Ok t)
    (hstored : GroupsStored { t with file := f } groups)
    (hpos : PositionOn { t with file := f } groups own snapshot plan.scan.node.colindexList
      pos.toTableRowPosition k i row)
    (hfound : FoundIn plan pos) {ops : ExprOps V} (hc : c < t.colNum) :
    rowValues ops (decodeValue ∘ RowColumnData.value) plan.rtable
      [pos] firstRangtableIndex c =
      rowNow ops decodeValue snapshot own plan.scan.node.colindexList row
        firstRangtableIndex c := by
  obtain ⟨cell, col, -, -, hget, hnow, -⟩ := hpos.fetched hstored h.ascending.1 h.range hc
  rw [Toadb.rowValues, h.readColumn hfound, hget, rowNow, hnow]
  rfl

/-- The node that selects lets the rows through that satisfy the conditions. -/
theorem ModifyPlan.Ok.selectsRow (h : plan.Ok t)
    (hstored : GroupsStored { t with file := f } groups)
    (hwhere : (plan.leftplan t.file).SelectsWhere whereList)
    (hpos : PositionOn { t with file := f } groups own snapshot plan.scan.node.colindexList
      pos.toTableRowPosition k i row)
    (hfound : FoundIn plan pos)
    (hok : WhereOkNow ops.toExprOps decodeValue snapshot own plan.scan.node.colindexList
      plan.rtable whereList row) (cell : V) :
    (selectsRow ops.toExprOps (decodeValue ∘ RowColumnData.value) plan.rtable plan.qual
      [pos] cell).1 =
      decide (holdsNow ops.toExprOps decodeValue snapshot own plan.scan.node.colindexList
        plan.rtable whereList row =
        some true) := by
  obtain ⟨values, hvalues⟩ := Option.isSome_iff_exists.mp hok.value
  have hb : holdsNow ops.toExprOps decodeValue snapshot own plan.scan.node.colindexList
      plan.rtable whereList row =
      some (values.isEmpty || values.any ops.getDataBool) := by
    rw [holdsNow, hvalues]
    rfl
  rw [hb]
  refine (hwhere.selectsRow h.numbered
    (fun node _ columnRef _ found hsearch => ?_) hok.kept hb cell).trans ?_
  · obtain ⟨hrindex, hattr⟩ := h.searched hsearch
    rw [hrindex]
    exact (h.rowValues hstored hpos hfound hattr).symm
  · cases values.isEmpty || values.any ops.getDataBool <;> rfl

/-- What stands before the nodes below: the rows that the scan has left and that satisfy the
conditions. -/
def LeftAt (t : PaxTable) (groups : List (List VersionedRow)) (own : Nat)
    (snapshot : SnapShotInfo) (cols : List Nat)
    (Good : VersionedRow → Prop) (holds : VersionedRow → Option Bool)
    (s : (Option ScanPageInfo × V) × TableRowData) (is : List VersionedRow) : Prop :=
  ∃ all, ScanAt t groups own snapshot cols s.1.1 all ∧ (∀ row ∈ all, Good row) ∧
    is = all.filter fun row => holds row = some true

/-- The nodes below have handed out a row, with what was projected. -/
def LeftNow (plan : ModifyPlan) (t : PaxTable) (groups : List (List VersionedRow)) (own : Nat)
    (snapshot : SnapShotInfo)
    (Good : VersionedRow → Prop) (holds : VersionedRow → Option Bool) (row : VersionedRow)
    (s : (Option ScanPageInfo × V) × TableRowData) (found : ScanTableRowData × TableRowData)
    (is : List VersionedRow) : Prop :=
  ∃ pos k i all, PositionOn t groups own snapshot plan.scan.node.colindexList
    pos.toTableRowPosition k i row ∧
    s.1.1 = some pos.scanPostionInfo ∧ FoundIn plan pos ∧
    (∃ pjData, found = ([pos], (projectRow plan.targetList plan.rtable [pos] pjData).1)) ∧
    all = (rowsFrom groups k (i + 1)).filter
      (Visible snapshot own plan.scan.node.colindexList) ∧
    (∀ row ∈ all, Good row) ∧ is = all.filter fun row => holds row = some true

theorem ModifyPlan.Ok.serves (h : plan.Ok t)
    (hstored : GroupsStored { t with file := f } groups)
    (hwhere : (plan.leftplan t.file).SelectsWhere whereList) :
    let cols := plan.scan.node.colindexList
    let Good := WhereOkNow ops.toExprOps decodeValue snapshot own cols plan.rtable whereList
    let holds := holdsNow ops.toExprOps decodeValue snapshot own cols plan.rtable whereList
    (∀ s, LeftAt { t with file := f } groups own snapshot cols Good holds s [] →
      ∃ s', Returns (fun fuel => plan.leftProc ops
        (decodeValue ∘ RowColumnData.value) own snapshot f fuel s) (none, s')) ∧
    ∀ s row is, LeftAt { t with file := f } groups own snapshot cols Good holds s
      (row :: is) →
      ∃ found s', Returns (fun fuel =>
        plan.leftProc ops (decodeValue ∘ RowColumnData.value) own snapshot f fuel s)
          (some found, s') ∧
        LeftNow plan { t with file := f } groups own snapshot Good holds row s' found is := by
  intro cols Good holds
  have hnode : (plan.scan.onFile f).node =
      ⟨f, t.groups, t.colNum, (plan.scan.onFile f).node.colindexList⟩ := by
    rw [TableScan.onFile, h.node]
  have hscan := (hstored.serves hnode h.ascending h.range own snapshot).forall (G := Good)
  have hselects :=
    hscan.filter (Toadb.selectsRow ops.toExprOps
      (decodeValue ∘ RowColumnData.value) plan.rtable plan.qual)
    (q := fun row => holds row = some true) (by
      rintro row scanPostionInfo rowData is
        ⟨⟨info, k, i, vals, -, rfl, hpos, -⟩, hgood, -⟩ cell
      exact h.selectsRow hstored hwhere hpos ⟨rfl, h.rindex⟩ hgood cell)
  have hproc := hselects.through (f := fun rowData pjData =>
    ((rowData, (projectRow plan.targetList plan.rtable rowData pjData).1),
      (projectRow plan.targetList plan.rtable rowData pjData).2)) (J := fun _ => True)
        fun _ _ _ _ _ _ _ => trivial
  refine ⟨fun s hs => ?_, fun s row is hs => ?_⟩
  · obtain ⟨all, hall, hgood, heq⟩ := hs
    exact hproc.done s ⟨⟨all, ⟨hall, hgood⟩, heq⟩, trivial⟩
  · obtain ⟨all, hall, hgood, heq⟩ := hs
    obtain ⟨found, s', hreturns, rowData, pjData,
        ⟨rest, ⟨⟨info, k, i, vals, hinfo, rfl, hpos, hrest⟩, -, hleft⟩, hbehind⟩, -,
          rfl, -⟩ :=
      hproc.item s row is ⟨⟨all, ⟨hall, hgood⟩, heq⟩, trivial⟩
    exact ⟨_, s', hreturns, _, k, i, rest, hpos, hinfo, ⟨rfl, h.rindex⟩, ⟨pjData, rfl⟩,
      hrest, hleft, hbehind⟩

/-- The node beside writes cells of the row that was found, at the cost of some pages, and
leaves what is behind it. -/
def ModifyPlan.WritesRow (plan : ModifyPlan) (ops : SetOps V)
    (decode : RowColumnData → V) (own : Nat)
    (snapshot : SnapShotInfo) (t : PaxTable) (Good : VersionedRow → Prop)
    (R : VersionedRow → ModifyTblState V → Bool → ModifyTblState V → Prop)
    (cost limit : Nat) : Prop :=
  ∀ (p : ModifyTblState V) groups (pos : TableRowDataPosition) k i row pjData,
    GroupsStored { t with file := p.file } groups →
    PositionOn { t with file := p.file } groups own snapshot plan.scan.node.colindexList
      pos.toTableRowPosition k i row →
    FoundIn plan pos → Good row → p.file.pageCnt + cost ≤ limit →
    ∃ ok p', plan.modifyRow ops decode own
      ([pos], (projectRow plan.targetList plan.rtable [pos] pjData).1) p = some (ok, p') ∧
      R row p ok p' ∧ p'.file.pageCnt ≤ p.file.pageCnt + cost ∧ ∃ groups',
        GroupsStored { t with file := p'.file } groups' ∧
        rowsFrom groups' k (i + 1) = rowsFrom groups k (i + 1) ∧
          groups'.map List.length = groups.map List.length

/-- The statement ends, and writes the rows that it is about, up to the first that is
refused. -/
theorem ModifyPlan.Ok.exec (h : plan.Ok t) (hstored : GroupsStored t groups)
    (hwhere : (plan.leftplan t.file).SelectsWhere whereList) {cols : List Nat}
    (hcols : plan.scan.node.colindexList = cols)
    (hok : ∀ row ∈ groups.flatten.filter (Visible snapshot own cols),
      WhereOkNow ops.toExprOps decodeValue snapshot own cols plan.rtable whereList row)
    {Good : VersionedRow → Prop}
    (hgood : ∀ row ∈ chosenRows ops.toExprOps decodeValue snapshot own cols plan.rtable
      whereList groups.flatten, Good row)
    {R : VersionedRow → ModifyTblState V → Bool → ModifyTblState V → Prop} {cost limit : Nat}
    (hwrites : plan.WritesRow ops
      (decodeValue ∘ RowColumnData.value) own snapshot t Good R cost limit)
    (hlimit : t.file.pageCnt + cost *
      (chosenRows ops.toExprOps decodeValue snapshot own cols plan.rtable whereList
        groups.flatten).length ≤ limit) :
    ∃ ok n last,
      Feeds R (chosenRows ops.toExprOps decodeValue snapshot own cols plan.rtable
        whereList groups.flatten)
        ⟨t.file, ops.zero, -1⟩ (ok, n) last ∧
      Returns (fun fuel =>
        plan.exec ops (decodeValue ∘ RowColumnData.value) own snapshot t.file fuel)
        (if 0 < n then (n : Int) else if ok then 0 else last.opRet, last.file) := by
  subst hcols
  let holds := holdsNow ops.toExprOps decodeValue snapshot own plan.scan.node.colindexList
      plan.rtable whereList
  let whereOk := WhereOkNow ops.toExprOps decodeValue snapshot own plan.scan.node.colindexList
      plan.rtable whereList
  let At (s : (Option ScanPageInfo × V) × TableRowData) (p : ModifyTblState V)
      (is : List VersionedRow) : Prop :=
    ∃ groups, GroupsStored { t with file := p.file } groups ∧
      LeftAt { t with file := p.file } groups own snapshot plan.scan.node.colindexList
        whereOk holds s is ∧
      (∀ row ∈ is, Good row) ∧ p.file.pageCnt + cost * is.length ≤ limit
  have hstart : At ((some (startInfo plan.scan.node.colindexList), ops.zero), initProjectData)
      ⟨t.file, ops.zero, -1⟩
      (chosenRows ops.toExprOps decodeValue snapshot own plan.scan.node.colindexList
        plan.rtable whereList groups.flatten) :=
    ⟨groups, hstored, ⟨_, .start, hok, rfl⟩, hgood, hlimit⟩
  obtain ⟨ok, n, last, ⟨m, hm⟩, hfeeds⟩ := feed_returns (R := R)
    (fun p => plan.leftProc ops (decodeValue ∘ RowColumnData.value) own snapshot p.file)
    (plan.modifyRow ops (decodeValue ∘ RowColumnData.value) own) At (by
      rintro s p ⟨groups, hgroups, hleft, -⟩
      exact (h.serves hgroups hwhere).1 s hleft) (by
      rintro s p row is ⟨groups, hgroups, hleft, hgood, hlimit⟩
      rw [List.length_cons, Nat.mul_succ] at hlimit
      rw [List.forall_mem_cons] at hgood
      obtain ⟨found, s', hreturns, pos, k, i, all, hpos, hinfo, hfound, ⟨pjData, rfl⟩,
          hall, hwheres, his⟩ :=
        (h.serves hgroups hwhere).2 s row is hleft
      obtain ⟨ok, p', hmodify, hR, hcost, groups', hgroups', hbehind, hshape⟩ :=
        hwrites p groups pos k i row pjData hgroups hpos hfound hgood.1 (by omega)
      refine ⟨_, s', ok, p', hreturns, hmodify, hR,
        fun _ => ⟨groups', hgroups', ⟨all, ?_, hwheres, his⟩, hgood.2, by omega⟩⟩
      -- the rows behind this one are as they were
      obtain ⟨rows, hrows, hi⟩ := hpos.rows
      have hlen := congrArg (·[k]?) hshape
      simp only [List.getElem?_map, hrows, Option.map_some, Option.map_eq_some_iff] at hlen
      obtain ⟨rows', hrows', hlen⟩ := hlen
      rw [hinfo, hall, ← hbehind]
      exact .behind (hpos.on.onFile p'.file) hrows'
        (hlen ▸ (List.getElem?_eq_some_iff.mp hi).1)) hstart 0
  refine ⟨ok, n, last, hfeeds, m, fun fuel hfuel => ?_⟩
  have hinit : initExecNode (plan.leftplan t.file).subplan =
      some (startInfo plan.scan.node.colindexList) := by
    refine initScanPositionInfo_ascending h.ascending fun c hc => ?_
    rw [TableScan.onFile, h.node]
    exact h.range c hc
  have hloop := hm fuel hfuel
  rw [Nat.zero_add] at hloop
  simp only [ModifyPlan.exec, hinit, Option.bind_eq_bind]
  exact congrArg (Option.bind · fun result : (Bool × Nat) × ModifyTblState V =>
    pure (if 0 < result.1.2 then (result.1.2 : Int) else if result.1.1 then 0
      else result.2.opRet, result.2.file)) hloop

/-- The parts of a row are written one after the other, up to the first that is refused. -/
def RowFeeds {ι : Type} (Q : ι → TableStore → Bool → TableStore → Prop)
    (parts : VersionedRow → List ι) (t : PaxTable)
    (scanInfo : InsertScanInfo) (row : VersionedRow) (p : ModifyTblState V) (ok : Bool)
    (p' : ModifyTblState V) : Prop :=
  (∃ m, Feeds Q (parts row) ⟨{ t with file := p.file }, scanInfo⟩ (ok, m)
    ⟨{ t with file := p'.file }, scanInfo⟩) ∧
    p'.opRet = if ok then 0 else -1

/-- The parts of the rows are written up to the first that is refused, and the statement
returns how many rows were written as a whole. -/
theorem ModifyPlan.Ok.exec_changes {s : TableStore} (h : plan.Ok s.table)
    (hstored : GroupsStored s.table groups)
    (hwhere : (plan.leftplan s.table.file).SelectsWhere whereList) {cols : List Nat}
    (hcols : plan.scan.node.colindexList = cols)
    (hok : ∀ row ∈ groups.flatten.filter (Visible snapshot own cols),
      WhereOkNow ops.toExprOps decodeValue snapshot own cols plan.rtable whereList row)
    {Good : VersionedRow → Prop}
    (hgood : ∀ row ∈ chosenRows ops.toExprOps decodeValue snapshot own cols plan.rtable
      whereList groups.flatten, Good row)
    {ι : Type} {parts : VersionedRow → List ι} {change : ι → StoredChange} {P : ι → Prop}
    [DecidablePred P] {Q : ι → TableStore → Bool → TableStore → Prop}
    (hQ : ∀ i s done s', Q i s done s' → Attempts (change i) s done s' ∧ (done = true ↔ P i))
    {cost limit : Nat} (hwrites : plan.WritesRow ops
      (decodeValue ∘ RowColumnData.value) own snapshot s.table Good
      (RowFeeds Q parts s.table s.scanInfo) cost limit)
    (hlimit : s.table.file.pageCnt + cost *
      (chosenRows ops.toExprOps decodeValue snapshot own cols plan.rtable whereList
        groups.flatten).length ≤ limit) :
    let chosen :=
      chosenRows ops.toExprOps decodeValue snapshot own cols plan.rtable
        whereList groups.flatten
    let written := (chosen.takeWhile fun row => ∀ i ∈ parts row, P i).length
    ∃ file, StoreRuns s (((chosen.flatMap parts).takeWhile fun i => P i).map change)
      (s.setFile file) ∧
      Returns (fun fuel =>
        plan.exec ops (decodeValue ∘ RowColumnData.value) own snapshot s.table.file fuel)
        (if 0 < written then (written : Int) else if chosen = [] then 0 else -1, file) := by
  intro chosen written
  obtain ⟨ok, n, last, hfeeds, hreturns⟩ :=
    h.exec hstored hwhere hcols hok hgood hwrites hlimit
  obtain ⟨m, hparts⟩ :=
    hfeeds.parts (Q := Q) parts (fun p => ⟨{ s.table with file := p.file }, s.scanInfo⟩)
      fun _ _ _ _ hR => hR.1
  have hruns := feeds_storeRuns (fun i s done s' hR => (hQ i s done s' hR).1) hparts
  obtain ⟨htake, -⟩ := hparts.takeWhile fun i s done s' hR => (hQ i s done s' hR).2
  rw [htake] at hruns
  refine ⟨last.file, hruns, ?_⟩
  obtain ⟨hrows, -⟩ :=
    hfeeds.takeWhile (P := fun row => ∀ i ∈ parts row, P i) fun row p ok p' hR => by
    obtain ⟨m, hrow⟩ := hR.1
    exact (hrow.takeWhile fun i s done s' hR => (hQ i s done s' hR).2).2
  obtain ⟨hle, hall⟩ := hfeeds.le
  have hwritten : written = n := by
    show (chosen.takeWhile fun row => ∀ i ∈ parts row, P i).length = n
    rw [← hrows, List.length_take, Nat.min_eq_left hle]
  rw [hwritten]
  cases ok with
  | false =>
    obtain ⟨hne, row, p, hR⟩ := hfeeds.refused_last
    have hopRet : last.opRet = -1 := hR.2
    rw [if_neg hne]
    rwa [if_neg Bool.false_ne_true, hopRet] at hreturns
  | true =>
    rw [if_pos rfl] at hreturns
    by_cases hn : 0 < n
    · rwa [if_pos hn] at hreturns ⊢
    · have hnone : chosen.length = 0 := by
        have hlen : n = chosen.length := hall rfl
        omega
      rwa [if_pos (List.length_eq_zero_iff.mp hnone)]

/-! ## DELETE -/

theorem ModifyPlan.Ok.writesRow_delete (h : plan.Ok t) (ops : SetOps V)
    (hcommand : plan.commandType = .delete)
    (htargets : plan.targetList.map TargetEntry.attrIndex = List.range t.colNum)
    (decode : RowColumnData → V) (curr : Xtid)
    (snapshot : SnapShotInfo) (scanInfo : InsertScanInfo) (limit : Nat) :
    plan.WritesRow ops decode curr snapshot t (fun _ => True)
      (RowFeeds (Deletes curr snapshot plan.scan.node.colindexList) List.zipIdx t scanInfo) 0
        limit := by
  intro p groups pos k i row pjData hstored hpos hfound _ hlimit
  obtain ⟨found, hcols⟩ := hpos.columns hstored h.ascending.1 h.range (List.range t.colNum)
    fun c hc => List.mem_range.mp hc
  obtain ⟨-, -, -, -, -, hlen, -⟩ := hpos.cells hstored
  obtain ⟨hpages, hbehind⟩ := hpos.apart hstored List.nodup_range hcols
  have hpositions : (List.range t.colNum).mapM (getColRowDataPos pos.toTableRowPosition) =
      some found :=
    mapM_eq_some_iff.mpr (hcols.imp fun _ _ ⟨_, hcol⟩ => hcol.position)
  have hform : formOriginRowsPos plan.rtable [pos] plan.targetList = some found := by
    rw [formOriginRowsPos, if_neg, mapM_congr_mem fun target hmem =>
      h.targetPosition hfound (h.targets target hmem).1]
    · rw [← htargets, List.mapM_map] at hpositions
      exact hpositions
    · intro hnone
      rw [hnone, List.map_nil, eq_comm, List.range_eq_nil] at htargets
      exact absurd htargets (Nat.ne_of_gt hstored.ok.colNum)
  have hne : found ≠ [] := by
    rintro rfl
    cases hrange : List.range t.colNum with
    | nil => exact absurd (List.range_eq_nil.mp hrange) (Nat.ne_of_gt hstored.ok.colNum)
    | cons c cs =>
      rw [hrange] at hcols
      cases hcols
  have hready : List.Forall₂ (fun (item : Cell (Nat × Int) Nat StoredValue × Nat) col =>
      CellFetched { t with file := p.file }
        (SeenIn snapshot curr plan.scan.node.colindexList item.2) item.1 col)
      row.zipIdx found := by
    have hcount := hcols.length_eq
    rw [List.length_range] at hcount
    refine List.forall₂_iff_get.mpr
      ⟨by rw [List.length_zipIdx, hlen, hcount], fun j hj hj' => ?_⟩
    obtain ⟨cell, hcol⟩ :=
      hcols.get (i := j) (by rw [List.length_range, hcount]; exact hj') hj'
    simp only [List.get_eq_getElem, List.getElem_range] at hcol
    obtain ⟨hjlt, hcell⟩ := List.getElem?_eq_some_iff.mp hcol.inRow
    simpa [List.getElem_zipIdx, hcell] using hcol.fetched
  obtain ⟨ok, m, f', hpour, hfeeds, hcost, groups', hgroups', hkept, hshape⟩ :=
    hstored.writeColumns
      (writesCell_delete curr snapshot plan.scan.node.colindexList scanInfo limit)
      (fun _ _ _ _ _ _ hready hstep hne => hready.step hstep hne) hready hpages hbehind
      (by rw [Nat.zero_mul]; exact hlimit)
  rw [Nat.zero_mul] at hcost
  rw [deleteColumns_pour, Option.some.injEq] at hpour
  refine ⟨ok, ⟨f', p.cell, if ok then 0 else -1⟩, ?_, ⟨⟨m, hfeeds⟩, rfl⟩, hcost, groups',
    hgroups', hkept, hshape⟩
  rw [ModifyPlan.modifyRow, hcommand]
  simp only [hform, paxExecDeleteRow, if_neg hne, hpour, ModifyTblState.write]

end Statement

/-! ## The plan of a statement -/

section Plan

variable {st st' : QueryState}

/-- A step leaves the targets of the statement, and a failure. -/
structure QueryState.Kept (st st' : QueryState) : Prop where
  parentTargetList : st'.parentTargetList = st.parentTargetList
  failed : st.processState ≠ 0 → st'.processState ≠ 0

theorem QueryState.Kept.refl (st : QueryState) : st.Kept st := ⟨rfl, id⟩

theorem QueryState.Kept.trans {st'' : QueryState} (h : st.Kept st')
    (h' : st'.Kept st'') : st.Kept st'' :=
  ⟨h'.parentTargetList.trans h.parentTargetList, h'.failed ∘ h.failed⟩

theorem targetNodeProcess_kept (columnRef : ColumnRef)
    (name : Option CString) (st : QueryState) :
    st.Kept (targetNodeProcess columnRef name st).2 := by
  rw [targetNodeProcess]
  cases searchColumDef columnRef st.rtable with
  | none => exact ⟨rfl, fun _ => (by decide : (-1 : Int) ≠ 0)⟩
  | some found => exact ⟨rfl, id⟩

theorem subExprNodeTargetProcess_kept (node : QualNode) (st : QueryState) :
    st.Kept (subExprNodeTargetProcess node st).2.2 := by
  cases node with
  | columnRef columnRef =>
    have hkept := targetNodeProcess_kept columnRef none st
    rw [subExprNodeTargetProcess]
    cases hrun : targetNodeProcess columnRef none st with
    | mk target st₁ =>
      rw [hrun] at hkept
      cases target <;> exact hkept
  | _ => exact .refl st

theorem simpleExprNodeProcess_kept (op : ExprOpType)
    (lefttree righttree : QualNode) (st : QueryState) :
    st.Kept (simpleExprNodeProcess op lefttree righttree st).2 :=
  ((subExprNodeTargetProcess_kept lefttree st).trans
    (subExprNodeTargetProcess_kept righttree _)).trans ⟨rfl, id⟩

theorem qualNodeProcess_kept {node : ExprNode} {out : QualNode}
    (h : qualNodeProcess node st = some (out, st')) :
    st.Kept st' := by
  induction node generalizing st st' out with
  | null | columnRef | constValue | functionClause =>
    cases h
    exact .refl st
  | boolExpr boolop first second ihl ihr =>
    simp only [qualNodeProcess, Option.bind_eq_bind, Option.bind_eq_some_iff, Prod.exists,
      Option.pure_def] at h
    obtain ⟨lefttree, st₁, hfirst, righttree, st₂, hsecond, heq⟩ := h
    cases heq
    have hleft := ihl hfirst
    have hright := ihr hsecond
    exact ⟨hright.parentTargetList.trans hleft.parentTargetList, hright.failed ∘ hleft.failed⟩
  | notExpr => cases h
  | aExpr op lexpr rexpr ihl ihr =>
    rw [qualNodeProcess] at h
    split at h
    · cases h
      exact .refl st
    · simp only [Option.bind_eq_bind, Option.bind_eq_some_iff, Prod.exists, Option.pure_def,
        Option.some.injEq] at h
      obtain ⟨leftExpr, st₁, hfirst, rightExpr, st₂, hsecond, heq⟩ := h
      have hnode := simpleExprNodeProcess_kept op leftExpr rightExpr st₂
      rw [heq] at hnode
      exact ((ihl hfirst).trans (ihr hsecond)).trans hnode

theorem queryJoinTransform_kept {whereList : List ExprNode} {joinTree : List QualNode}
    (h : queryJoinTransform whereList st = some (joinTree, st')) : st.Kept st' := by
  induction whereList generalizing st st' joinTree with
  | nil =>
    cases h
    exact .refl st
  | cons valueNode whereList ih =>
    simp only [queryJoinTransform, Option.bind_eq_bind,
      Option.bind_eq_some_iff, Prod.exists] at h
    obtain ⟨node, st₁, hnode, rest, st₂, hrest, heq⟩ := h
    have hkept := (qualNodeProcess_kept hnode).trans (ih hrest)
    cases node <;> (cases heq; exact hkept)

/-- The targets of a query are those that the statement has when its conditions are rewritten,
and nothing has failed. -/
theorem transformQual_targetList {commandType : CmdType} {whereList : List ExprNode}
    {setValues : List QualNode}
    {query : Query} (h : transformQual commandType whereList setValues st = some query) :
    query.commandType = commandType ∧ query.setValues = setValues ∧
      query.targetList = st.parentTargetList ∧
      st.processState = 0 := by
  simp only [transformQual, Option.bind_eq_bind, Option.bind_eq_some_iff,
    Option.pure_def, Prod.exists] at h
  obtain ⟨joinTree, st₁, hjoin, _, hguard, heq⟩ := h
  have hkept := queryJoinTransform_kept hjoin
  have hcommon : (commonQueryTransform st₁).2.parentTargetList = st₁.parentTargetList ∧
      (commonQueryTransform st₁).2.processState = st₁.processState := by
    rw [commonQueryTransform]
    split <;> exact ⟨rfl, rfl⟩
  cases heq
  refine ⟨rfl, rfl, hcommon.1.trans hkept.parentTargetList, ?_⟩
  have hstate : (commonQueryTransform st₁).2.processState = 0 := by simpa [guard] using hguard
  rw [hcommon.2] at hstate
  exact Decidable.not_not.mp fun hne => hkept.failed hne hstate

variable {getTableInfo : CString → Option TableList}
  {storage : Nat → TableFile × GroupFork} {query : Query}
  {plan : ModifyPlan} {t : PaxTable}

/-- The query of a statement that names the table `tblInfo` and no other. -/
structure QueryOne (whereList : List ExprNode) (tblInfo : TableList)
    (query : Query) : Prop where
  conditions : QueryWhere whereList query
  rtable : ∃ rte, query.rtable = [rte] ∧ rte.rindex = firstRangtableIndex ∧
    rte.tblInfo = some tblInfo

theorem QueryOne.searched {whereList : List ExprNode} {tblInfo : TableList}
    (h : QueryOne whereList tblInfo query)
    {columnRef : ColumnRef} {found : Nat × RangTblEntry × ColumnDefInfo}
    (hfound : searchColumDef columnRef query.rtable = some found) :
    found.2.1.rindex = firstRangtableIndex ∧ found.2.2 ∈ tblInfo.column := by
  obtain ⟨rte, hrtable, hindex, htbl⟩ := h.rtable
  rw [hrtable] at hfound
  obtain ⟨hentry, tblInfo', htblInfo, hcol⟩ := searchColumDef_one hfound
  rw [htbl, Option.some.injEq] at htblInfo
  exact ⟨hentry ▸ hindex, htblInfo ▸ hcol⟩

theorem rangTblOf_one {rangVar : RangeVar} {rte : RangTblEntry}
    (h : rangTblOf getTableInfo rangVar firstRangtableIndex = some rte) :
    rte.rindex = firstRangtableIndex ∧ rte.targetList = [] ∧ ∃ tblInfo,
      rte.tblInfo = some tblInfo := by
  simp only [rangTblOf, getRangTblNode, Option.bind_eq_bind, Option.bind_eq_some_iff,
    Option.pure_def] at h
  obtain ⟨node, ⟨tblInfo, -, hnode⟩, hout⟩ := h
  cases hnode
  cases hout
  exact ⟨rfl, rfl, tblInfo, rfl⟩

/-- One entry with one key. -/
theorem rtable_of_keys {rtable : List RangTblEntry} {rte : RangTblEntry} {tblInfo : TableList}
    (h : rtable.map RangTblEntry.key = [rte].map RangTblEntry.key)
    (hindex : rte.rindex = firstRangtableIndex) (htbl : rte.tblInfo = some tblInfo) :
    ∃ rte, rtable = [rte] ∧ rte.rindex = firstRangtableIndex ∧
      rte.tblInfo = some tblInfo := by
  obtain ⟨entry, rfl⟩ := List.length_eq_one_iff.mp (by simpa using congrArg List.length h)
  have hkey : entry.key = rte.key := by simpa using h
  simp only [RangTblEntry.key, Prod.mk.injEq] at hkey
  exact ⟨entry, rfl, hkey.1.trans hindex, hkey.2.2.trans htbl⟩

/-- The entry of the table to change, and what is made of it. -/
theorem transformQual_one {rte : RangTblEntry} {tblInfo : TableList} (hst : st.Ok [rte])
    (hindex : rte.rindex = firstRangtableIndex) (htbl : rte.tblInfo = some tblInfo)
    {commandType : CmdType} {whereList : List ExprNode} {setValues : List QualNode}
    (hset : ∀ te ∈ setValues.flatMap QualNode.targets, TargetOf [rte] te)
    (hrun : transformQual commandType whereList setValues st = some query) :
    QueryOne whereList tblInfo query := by
  exact ⟨transformQual_where hst (numbered_one hindex) (List.cons_ne_nil _ _) hset hrun,
    rtable_of_keys (transformQual_of hst hset hrun).keys hindex htbl⟩

/-- A DELETE without a FROM list has all columns of its table for targets. -/
theorem transformDeleteStmt_one {stmt : DeleteStmt} (hfrom : stmt.fromList = [])
    (h : transformDeleteStmt getTableInfo stmt = some query) :
    ∃ tblInfo, QueryOne stmt.whereList tblInfo query ∧ query.commandType = .delete ∧
      query.targetList = tblInfo.column.map fun col =>
        ⟨some col.colName, ⟨col.colName, none, col.type, 0⟩, firstRangtableIndex,
          col.attrIndex⟩ := by
  have hnone : rangTblRewriteFromClause getTableInfo [] firstRangtableIndex =
      ([], firstRangtableIndex) := rfl
  simp only [transformDeleteStmt, hfrom, hnone, Option.bind_eq_bind, Option.bind_eq_some_iff,
    List.append_nil] at h
  obtain ⟨rte, hrte, hqual⟩ := h
  obtain ⟨hindex, hempty, tblInfo, htbl⟩ := rangTblOf_one hrte
  have hstart : (QueryState.start [rte] (firstRangtableIndex + 1)).Ok [rte] :=
    .start (List.forall_mem_singleton.mpr hempty)
  obtain ⟨hst, hlist⟩ := targetRewriteAllColumns_ok hstart (targetOf_nil [rte]) rfl
  obtain ⟨hcommand, -, htargets, -⟩ := transformQual_targetList hqual
  refine ⟨tblInfo, transformQual_one (hst.withParent hlist) hindex htbl
    (targetOf_noValues _) hqual, hcommand, ?_⟩
  rw [htargets]
  simp [targetRewriteAllColumns, QueryState.start,
    targetRewriteAllColumnsOneRte, htbl, hindex]

/-- What the plan has of the query. -/
structure PlanOne (whereList : List ExprNode) (tblInfo : TableList) (query : Query)
    (t : PaxTable) (plan : ModifyPlan) :
    Prop where
  rtable : ∃ rte, plan.rtable = [rte] ∧ rte.rindex = firstRangtableIndex ∧
    rte.tblInfo = some tblInfo
  keys : plan.rtable.map RangTblEntry.key = query.rtable.map RangTblEntry.key
  table : plan.scan.tblInfo = tblInfo
  rindex : plan.scan.rindex = firstRangtableIndex
  node : plan.scan.node =
    ⟨t.file, t.groups, tblInfo.column.length, plan.scan.node.colindexList⟩
  targetList : plan.targetList = query.targetList
  commandType : plan.commandType = query.commandType
  setValues : plan.setValues = query.setValues
  rewritten : ∃ st joinTree st', st.rtable.map RangTblEntry.key =
    plan.rtable.map RangTblEntry.key ∧
    queryJoinTransform whereList st = some (joinTree, st') ∧
      plan.qual = if joinTree = [] then none else some joinTree

theorem modifyPlan_one {whereList : List ExprNode} {tblInfo : TableList}
    (hquery : QueryOne whereList tblInfo query)
    (hplan : modifyPlan (fun _ => (t.file, t.groups)) query = some plan) :
    PlanOne whereList tblInfo query t plan := by
  simp only [modifyPlan, Option.bind_eq_bind, Option.bind_eq_some_iff] at hplan
  obtain ⟨selected, hselected, hplan⟩ := hplan
  have hof := selectPlan_planOf hselected hquery.conditions.leftDeep
  obtain ⟨rte, hrtable, hindex, htbl⟩ := hquery.rtable
  obtain ⟨rte', hrtable', hindex', htbl'⟩ := rtable_of_keys (hrtable ▸ hof.keys) hindex htbl
  obtain ⟨st, st', hkeys, hrun⟩ := hquery.conditions.conditions
  split at hplan
  next scan htables =>
    cases hplan
    obtain ⟨entry, hentry, hopened⟩ :=
      hof.tables scan (by rw [htables]; exact List.mem_singleton_self _)
    obtain rfl : entry = rte' := by simpa [hrtable'] using hentry
    obtain ⟨hscan, htblInfo⟩ := RangTblEntry.tableScan_entry hopened
    rw [htbl', Option.some.injEq] at htblInfo
    subst htblInfo
    exact ⟨⟨entry, hrtable', hindex', htbl'⟩, hof.keys, rfl, hscan.trans hindex',
      RangTblEntry.tableScan_node hopened,
      hof.targetList, rfl, rfl, st, query.joinTree, st',
        hkeys.trans hof.keys.symm, hrun, hof.qual⟩
  next => cases hplan

/-- The plan of a statement on a table whose columns the dictionary knows by their places. -/
theorem PlanOne.ok {whereList : List ExprNode} {tblInfo : TableList}
    (h : PlanOne whereList tblInfo query t plan)
    (hattr : tblInfo.column.map ColumnDefInfo.attrIndex = List.range t.colNum)
    (hasc : Ascending plan.scan.node.colindexList)
    (hrange : ∀ c ∈ plan.scan.node.colindexList, c < t.colNum)
    (htargets : ∀ target ∈ query.targetList,
      target.rindex = firstRangtableIndex ∧ target.attrIndex < t.colNum) :
    plan.Ok t := by
  refine ⟨h.table.symm ▸ h.rtable, h.rindex, ?_, hasc, hrange, fun col hcol => ?_,
    h.targetList.symm ▸ htargets⟩
  · have hlen : tblInfo.column.length = t.colNum := by simpa using congrArg List.length hattr
    rw [← hlen]
    exact h.node
  · rw [h.table] at hcol
    exact List.mem_range.mp (hattr ▸ List.mem_map_of_mem hcol)

theorem PlanOne.selectsWhere {whereList : List ExprNode} {tblInfo : TableList}
    (h : PlanOne whereList tblInfo query t plan)
    (file : TableFile) : (plan.leftplan file).SelectsWhere whereList :=
  h.rewritten

end Plan

/-! ## A DELETE on a table with a history -/

/-- The cells of the rows, with their columns, up to the first that is not current for the
statement. -/
def currentCells (snapshot : SnapShotInfo) (own : Nat) (cols : List Nat)
    (rows : StoredTable) :
    List (Cell (Nat × Int) Nat StoredValue × Nat) :=
  (rows.flatMap List.zipIdx).takeWhile fun item =>
    item.1.Current (SeenIn snapshot own cols item.2)

/-- The rows before the first that has a cell which is not current. -/
def currentRows (snapshot : SnapShotInfo) (own : Nat) (cols : List Nat)
    (rows : StoredTable) : StoredTable :=
  rows.takeWhile fun row => ∀ item ∈ row.zipIdx,
    item.1.Current (SeenIn snapshot own cols item.2)

section History

variable {colNum : Nat} (hpos : 0 < colNum) {changes : List StoredChange} {s : TableStore}
  (hruns : StoreRuns (.created colNum) changes s)
  {getTableInfo : CString → Option TableList} {stmt : DeleteStmt}
  (hfrom : stmt.fromList = []) {query : Query} {plan : ModifyPlan}
  (hquery : transformDeleteStmt getTableInfo stmt = some query)
  (hplan : modifyPlan (fun _ => (s.table.file, s.table.groups)) query = some plan)
  (hattr : plan.scan.tblInfo.column.map ColumnDefInfo.attrIndex = List.range colNum)
  {cols : List Nat}
  (hcols : plan.scan.node.colindexList = cols) (hasc : Ascending cols)
  (hrange : ∀ c ∈ cols, c < colNum) {V : Type}
  (ops : SetOps V) (decodeValue : StoredValue → V)

include hfrom hquery hplan hattr hcols hasc hrange

/-- A DELETE statement on a stored table. -/
theorem StoreOk.deleteStmt {table : StoredTable} (h : StoreOk s table)
    (hcolNum : s.table.colNum = colNum) (snapshot : SnapShotInfo) (curr : Xtid)
    (hok : ∀ row ∈ table.filter (Visible snapshot curr cols),
      WhereOkNow ops.toExprOps decodeValue snapshot curr cols plan.rtable
        stmt.whereList row) :
    let chosen :=
      chosenRows ops.toExprOps decodeValue snapshot curr cols plan.rtable stmt.whereList table
    let deleted := (currentCells snapshot curr cols chosen).map fun item => item.1.pos
    let rows := (currentRows snapshot curr cols chosen).length
    ∃ file, StoreRuns s (deleted.map (.delete curr.val)) (s.setFile file) ∧
      StoreOk (s.setFile file) (table.deleteCells curr.val deleted) ∧
      Returns (fun fuel =>
        plan.exec ops (decodeValue ∘ RowColumnData.value) curr snapshot s.table.file fuel)
        (if 0 < rows then (rows : Int) else if chosen = [] then 0 else -1, file) := by
  subst hcols hcolNum
  have hstore := h
  obtain ⟨groups, hgroups, rfl⟩ := h.stored.groupsStored
  obtain ⟨tblInfo, hone, hcommand, htargets⟩ := transformDeleteStmt_one hfrom hquery
  have hplanOne := modifyPlan_one (t := s.table) hone hplan
  rw [hplanOne.table] at hattr
  have hattrs : query.targetList.map TargetEntry.attrIndex = List.range s.table.colNum := by
    rw [htargets, List.map_map]
    exact hattr
  have hplanOk := hplanOne.ok hattr hasc hrange fun target hmem => by
    refine ⟨?_, List.mem_range.mp (hattrs ▸ List.mem_map_of_mem hmem)⟩
    rw [htargets] at hmem
    obtain ⟨col, -, rfl⟩ := List.mem_map.mp hmem
    rfl
  have hwrites := hplanOk.writesRow_delete ops (hplanOne.commandType.trans hcommand)
      (hplanOne.targetList.symm ▸ hattrs)
    (decodeValue ∘ RowColumnData.value) curr snapshot s.scanInfo s.table.file.pageCnt
  intro chosen deleted rows
  obtain ⟨file, hruns, hreturns⟩ :=
    hplanOk.exec_changes hgroups (hplanOne.selectsWhere _) rfl hok
      (fun _ _ => trivial) (fun _ _ _ _ hR => hR) hwrites (by rw [Nat.zero_mul]; exact le_rfl)
  have hdeletes : StoreRuns s (deleted.map (.delete curr.val)) (s.setFile file) := by
    rw [List.map_map]
    exact hruns
  obtain ⟨-, table', hrun, hok'⟩ := hdeletes.run hstore
  exact ⟨file, hdeletes, hrun.deletes ▸ hok', hreturns⟩

include hpos hruns

/-- After any history of a table, a DELETE statement on it deletes the cells of the rows that
it sees and that satisfy the WHERE clause, one after the other, up to the first that is not
current. It returns how many rows were deleted. -/
theorem delete_after_history :
    ∃ table, Run [] changes table ∧ TableStored s.table table ∧
      ∀ (snapshot : SnapShotInfo) (curr : Xtid),
      (∀ row ∈ table.filter (Visible snapshot curr cols),
        WhereOkNow ops.toExprOps decodeValue snapshot curr cols plan.rtable
          stmt.whereList row) →
      let chosen :=
        chosenRows ops.toExprOps decodeValue snapshot curr cols plan.rtable
          stmt.whereList table
      let deleted := (currentCells snapshot curr cols chosen).map fun item => item.1.pos
      let rows := (currentRows snapshot curr cols chosen).length
      ∃ file, StoreRuns s (deleted.map (.delete curr.val)) (s.setFile file) ∧
        TableStored (s.setFile file).table (table.deleteCells curr.val deleted) ∧
        Returns (fun fuel =>
          plan.exec ops (decodeValue ∘ RowColumnData.value) curr snapshot s.table.file fuel)
          (if 0 < rows then (rows : Int) else if chosen = [] then 0 else -1, file) := by
  obtain ⟨hcolNum, table, hrun, hok⟩ := hruns.run (storeOk_created hpos)
  refine ⟨table, hrun, hok.stored, fun snapshot curr hwhere => ?_⟩
  intro chosen deleted rows
  obtain ⟨file, hdeletes, hok', hreturns⟩ :=
    hok.deleteStmt hfrom hquery hplan hattr hcols hasc hrange ops decodeValue
      hcolNum snapshot curr hwhere
  exact ⟨file, hdeletes, hok'.stored, hreturns⟩

/-- After the statement a scan that sees the work of the transaction, and of all who made the
versions that it deleted, selects the rows in which no cell was deleted. A scan that does not
see the work of the transaction selects the same rows as before. -/
theorem deleted_rows_scanned :
    ∃ table, Run [] changes table ∧ TableStored s.table table ∧
      (∀ reader own columns, Ascending columns → (∀ c ∈ columns, c < colNum) →
        ScanSelects s reader own columns (table.select (reader.Sees own) columns)) ∧
      ∀ (snapshot : SnapShotInfo) (curr : Xtid),
        (∀ row ∈ table.filter (Visible snapshot curr cols),
          WhereOkNow ops.toExprOps decodeValue snapshot curr cols plan.rtable
            stmt.whereList row) →
        let chosen :=
          chosenRows ops.toExprOps decodeValue snapshot curr cols plan.rtable
            stmt.whereList table
        let deleted := (currentCells snapshot curr cols chosen).map fun item => item.1.pos
        ∃ ret file, Returns (fun fuel =>
          plan.exec ops (decodeValue ∘ RowColumnData.value) curr snapshot s.table.file fuel)
            (ret, file) ∧
          ∀ reader own columns, Ascending columns → (∀ c ∈ columns, c < colNum) →
            (reader.Sees own curr → (∀ cell ∈ Table.cells table, cell.pos ∈ deleted →
                ∀ version ∈ cell.versions, reader.Sees own version.creator) →
              ScanSelects (s.setFile file) reader own columns
                (Table.select (reader.Sees own) columns
                  (table.filter fun row => Row.Avoids deleted columns row))) ∧
            (¬ reader.Sees own curr →
              ScanSelects (s.setFile file) reader own columns
                (table.select (reader.Sees own) columns)) := by
  obtain ⟨hcolNum, table, hrun, hok⟩ := hruns.run (storeOk_created hpos)
  have hstored : s.table.colNum = colNum := hcolNum
  refine ⟨table, hrun, hok.stored, fun reader own columns hascending hcolumns => ?_,
    fun snapshot curr hwhere => ?_⟩
  · exact hok.stored.scan reader own hascending fun c hc => hstored.symm ▸ hcolumns c hc
  intro chosen deleted
  obtain ⟨file, hdeletes, hok', hreturns⟩ :=
    hok.deleteStmt hfrom hquery hplan hattr hcols hasc hrange ops
      decodeValue hstored snapshot curr hwhere
  refine ⟨_, file, hreturns, fun reader own columns hascending hcolumns => ?_⟩
  have hrange : ∀ c ∈ columns, c < s.table.colNum := fun c hc => hstored.symm ▸ hcolumns c hc
  refine ⟨fun hsees hcreators => ?_, fun hunseen => ?_⟩
  · have hscan : ScanSelects (s.setFile file) reader own columns
        ((table.deleteCells curr.val deleted).select (reader.Sees own) columns) :=
      hok'.stored.scan reader own hascending hrange
    have hchained := hrun.chained (List.forall_mem_nil _)
    rwa [Table.select_deleteCells hsees hchained hcreators] at hscan
  · refine hdeletes.scan_unseen hok (fun change hchange => ?_) hascending hrange
    obtain ⟨pos, -, rfl⟩ := List.mem_map.mp hchange
    exact hunseen

end History

/-- `DELETE FROM t WHERE a > 20000000`. -/
def deleteFromT : DeleteStmt where
  relation := ⟨tableT, none⟩
  fromList := []
  whereList := [.aExpr .greater columnRefA (.constValue ⟨.int, .iData 20000000⟩)]

def deleteQuery : Query := (transformDeleteStmt pairTables deleteFromT).get (by decide)

def deletePlan : ModifyPlan :=
  (modifyPlan (fun _ => (twoRowStore.table.file, twoRowStore.table.groups)) deleteQuery).get
    (by decide)

theorem deleteQuery_eq : transformDeleteStmt pairTables deleteFromT = some deleteQuery :=
  (Option.some_get _).symm

theorem deletePlan_eq :
    modifyPlan (fun _ => (twoRowStore.table.file, twoRowStore.table.groups)) deleteQuery =
      some deletePlan :=
  (Option.some_get _).symm

theorem deletePlan_where (row : VersionedRow) :
    WhereOkNow intSetOps.toExprOps decodeStored ⟨9, 9, 0, []⟩ 8
      [0] deletePlan.rtable deleteFromT.whereList row :=
  ⟨List.forall_mem_singleton.mpr ⟨.inl rfl, .inr trivial, trivial⟩, rfl⟩

/-- The statement is about the second row, both columns of which are current. -/
theorem deletePlan_chosen :
    chosenRows intSetOps.toExprOps decodeStored ⟨9, 9, 0, []⟩ 8
      [0] deletePlan.rtable deleteFromT.whereList twoRows =
      [newRow 7 (pairItems 1) (pairValues 2)] := by
  decide

theorem deletePlan_current :
    (currentCells ⟨9, 9, 0, []⟩ 8 [0] [newRow 7 (pairItems 1) (pairValues 2)]).map
    (fun item => item.1.pos) =
        pairItems 1 ∧
      (currentRows ⟨9, 9, 0, []⟩ 8 [0] [newRow 7 (pairItems 1) (pairValues 2)]).length =
        1 := by
  decide

theorem delete_after_inserts : ∃ file,
    StoreRuns twoRowStore ((pairItems 1).map (.delete 8)) (twoRowStore.setFile file) ∧
    TableStored (twoRowStore.setFile file).table (twoRows.deleteCells 8 (pairItems 1)) ∧
    Returns (fun fuel => deletePlan.exec intSetOps
      (decodeStored ∘ RowColumnData.value) 8 ⟨9, 9, 0, []⟩
      twoRowStore.table.file fuel) (1, file) := by
  have hcols : deletePlan.scan.node.colindexList = [0] := rfl
  obtain ⟨table, -, hstored, hdelete⟩ :=
    delete_after_history (by decide) twoInserts_runs rfl deleteQuery_eq deletePlan_eq
      (by decide) hcols (by decide) (by decide) intSetOps decodeStored
  obtain rfl := hstored.unique twoRowStore_stored
  have hdelete := hdelete ⟨9, 9, 0, []⟩ ⟨8, by decide⟩ fun row _ => deletePlan_where row
  dsimp only at hdelete
  rw [deletePlan_chosen, deletePlan_current.1, deletePlan_current.2] at hdelete
  exact hdelete

/-- Who sees the delete selects the first row; who does not, both. -/
theorem deleted_rows_scanned_rows : ∃ ret file,
    Returns (fun fuel => deletePlan.exec intSetOps
      (decodeStored ∘ RowColumnData.value) 8 ⟨9, 9, 0, []⟩
      twoRowStore.table.file fuel) (ret, file) ∧
    ScanSelects (twoRowStore.setFile file) ⟨9, 9, 0, []⟩ 9 [0, 1] [pairValues 1] ∧
    ScanSelects (twoRowStore.setFile file) ⟨8, 8, 0, []⟩ 6 [0, 1]
      [pairValues 1, pairValues 2] := by
  have hcols : deletePlan.scan.node.colindexList = [0] := rfl
  obtain ⟨table, -, hstored, -, hdelete⟩ :=
    deleted_rows_scanned (by decide) twoInserts_runs rfl deleteQuery_eq
      deletePlan_eq (by decide) hcols (by decide) (by decide) intSetOps decodeStored
  obtain rfl := hstored.unique twoRowStore_stored
  obtain ⟨ret, file, hreturns, hscans⟩ :=
    hdelete ⟨9, 9, 0, []⟩ ⟨8, by decide⟩ fun row _ => deletePlan_where row
  dsimp only at hscans
  rw [deletePlan_chosen, deletePlan_current.1] at hscans
  refine ⟨ret, file, hreturns, ?_, ?_⟩
  · have hafter :=
      (hscans ⟨9, 9, 0, []⟩ 9 [0, 1] (by decide) (by decide)).1 (by decide) (by decide)
    have hselect : Table.select ((⟨9, 9, 0, []⟩ : SnapShotInfo).Sees 9) [0, 1]
        (twoRows.filter fun row => Row.Avoids (pairItems 1) [0, 1] row) = [pairValues 1] := by
      decide
    rwa [hselect] at hafter
  · have hbefore := (hscans ⟨8, 8, 0, []⟩ 6 [0, 1] (by decide) (by decide)).2 (by decide)
    have hselect : Table.select ((⟨8, 8, 0, []⟩ : SnapShotInfo).Sees 6) [0, 1] twoRows =
        [pairValues 1, pairValues 2] := by
      decide
    rwa [hselect] at hbefore

end Toadb
