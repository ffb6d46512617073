/-
Toadb.Executor.UpdateStmtTheorems — an UPDATE statement, from its parse tree to what it
leaves.

The right sides of a SET list get their values from the row that was found, like the
conditions. They are the new versions of the columns that the list names, which are written
cell after cell (`ModifyPlan.Ok.writesRow_update`). The projected row has the old versions.

  * `update_after_history`: the statement writes the cells of the rows that it sees and that
    satisfy the WHERE clause, up to the first that is not current;
  * `updated_cells_scanned`: a scan that sees the work of the transaction selects what it
    wrote.
-/
import Toadb.Executor.ModifyStmtTheorems

namespace Toadb

open VersionedTable Cursor

/-! ## New values -/

section Values

variable {V : Type} (ops : SetOps V) (decodeValue : StoredValue → V) (snapshot : SnapShotInfo)
  (own : Nat) (cols : List Nat)
  (rtable : List RangTblEntry)

/-- The value of the right side of a SET. -/
def setValueNow (setValue : ExprNode) (row : VersionedRow) : Option V :=
  match setValue with
  | .constValue constValue => (ops.transformConstExprValue constValue).join
  | setValue =>
    evalExpr ops.toExprOps rtable
      (rowNow ops.toExprOps decodeValue snapshot own cols row) setValue

/-- The new version of a column. -/
def setColumnNow (set : Nat × ExprNode) (row : VersionedRow) : Option RowColumnData :=
  (setValueNow ops decodeValue snapshot own cols rtable set.2 row).bind fun value =>
    (ops.transFormExpr2RowColumnData value set.1).join

/-- The cells that a SET list names, with their new values. -/
def setCells (sets : List (Nat × ExprNode)) (row : VersionedRow) : List CellWrite :=
  sets.filterMap fun set => do
    let cell ← row[set.1]?
    let column ← setColumnNow ops decodeValue snapshot own cols rtable set row
    return ⟨cell, set.1, column.value⟩

/-- The bytes of the old versions. -/
def oldSize (sets : List (Nat × ExprNode)) (row : VersionedRow) : Nat :=
  (sets.map fun set => rowColumnDataSize +
    ((columnNow snapshot own cols row set.1).map (·.2.length)).getD 0).sum

/-- The right sides keep their meaning on the row, and the new values are no longer than the
old ones, which go on one page. -/
structure SetFits (sets : List (Nat × ExprNode)) (row : VersionedRow) : Prop where
  kept : ∀ set ∈ sets, MeaningKept ops.toExprOps rtable
    (rowNow ops.toExprOps decodeValue snapshot own cols row) set.2
  column : ∀ set ∈ sets, ∃ column old,
    setColumnNow ops decodeValue snapshot own cols rtable set row = some column ∧
    columnNow snapshot own cols row set.1 = some old ∧ column.Fits ∧
      column.data.length ≤ old.2.length
  space : ¬ TooLarge (itemSize + oldSize snapshot own cols sets row)

end Values

/-! ## The right sides -/

/-- A column of a SET list: its target, and the right side before and after it is
rewritten. -/
structure SetClause where
  target : TargetEntry
  setValue : QualNode
  expr : ExprNode

/-- The column and the right side. -/
def SetClause.set (clause : SetClause) : Nat × ExprNode :=
  (clause.target.attrIndex, clause.expr)

/-- The right side is what the rewriting makes of it. -/
def SetClause.Rewritten (clause : SetClause) (rtable : List RangTblEntry) : Prop :=
  ∃ st st', st.rtable.map RangTblEntry.key = rtable.map RangTblEntry.key ∧
    qualNodeProcess clause.expr st = some (clause.setValue, st')

/-- Only a constant is rewritten to a constant. -/
theorem qualNodeProcess_constValue {node : ExprNode} {constValue : ConstValue}
    {st st' : QueryState}
    (h : qualNodeProcess node st = some (.constValue constValue, st')) :
    node = .constValue constValue := by
  cases node with
  | constValue c =>
    cases h
    rfl
  | null | columnRef | functionClause | notExpr => cases h
  | boolExpr boolop first second =>
    simp only [qualNodeProcess, Option.bind_eq_bind, Option.bind_eq_some_iff, Prod.exists,
      Option.pure_def] at h
    obtain ⟨_, _, -, _, _, -, heq⟩ := h
    cases heq
  | aExpr op lexpr rexpr =>
    rw [qualNodeProcess] at h
    split at h
    · cases h
    · simp only [Option.bind_eq_bind, Option.bind_eq_some_iff, Prod.exists, Option.pure_def,
        Option.some.injEq] at h
      obtain ⟨leftExpr, _, -, rightExpr, st₂, -, heq⟩ := h
      have hnode := congrArg Prod.fst heq
      unfold simpleExprNodeProcess at hnode
      dsimp only at hnode
      split at hnode
      · cases hnode
      · cases hnode
      · cases hnode
      · split at hnode <;> cases hnode

section Row

variable {plan : ModifyPlan} {t : PaxTable} {groups : List (List VersionedRow)}
  {f : TableFile} {own : Nat}
  {snapshot : SnapShotInfo} {pos : TableRowDataPosition} {k i : Nat} {row : VersionedRow}
  {V : Type} {ops : SetOps V}
  {decodeValue : StoredValue → V} {clause : SetClause}

/-- The right side has its value on the row that was found. -/
theorem ModifyPlan.Ok.processSetValueExpr (h : plan.Ok t)
    (hstored : GroupsStored { t with file := f } groups)
    (hpos : PositionOn { t with file := f } groups own snapshot plan.scan.node.colindexList
      pos.toTableRowPosition k i row)
    (hfound : FoundIn plan pos) (hkept : MeaningKept ops.toExprOps plan.rtable
      (rowNow ops.toExprOps decodeValue snapshot own plan.scan.node.colindexList row)
        clause.expr)
    (hrewritten : clause.Rewritten plan.rtable) {value : V}
    (hvalue : setValueNow ops decodeValue snapshot own plan.scan.node.colindexList plan.rtable
      clause.expr row = some value)
    (cell : V) :
    ∃ cell', processSetValueExpr ops (decodeValue ∘ RowColumnData.value) plan.rtable
      [pos] clause.setValue cell =
      some (some value, cell') := by
  obtain ⟨st, st', hkeys, hrun⟩ := hrewritten
  by_cases hconst : ∃ constValue, clause.expr = .constValue constValue
  · obtain ⟨constValue, hexpr⟩ := hconst
    rw [hexpr] at hrun hvalue
    cases hset : clause.setValue with
    | constValue c =>
      rw [hset] at hrun
      cases hrun
      have hjoin : ops.transformConstExprValue constValue = some (some value) :=
        Option.join_eq_some_iff.mp hvalue
      exact ⟨cell, by rw [Toadb.processSetValueExpr, hjoin]; rfl⟩
    | _ =>
      rw [hset] at hrun
      cases hrun
  · have hagree : AgreeOn plan.rtable
        (rowNow ops.toExprOps decodeValue snapshot own plan.scan.node.colindexList row)
        (Toadb.rowValues ops.toExprOps (decodeValue ∘ RowColumnData.value) plan.rtable [pos])
          clause.expr := by
      intro columnRef _ found hsearch
      obtain ⟨hrindex, hattr⟩ := h.searched hsearch
      rw [hrindex]
      exact (h.rowValues hstored hpos hfound hattr).symm
    have hread : evalExpr ops.toExprOps plan.rtable (Toadb.rowValues ops.toExprOps
        (decodeValue ∘ RowColumnData.value) plan.rtable [pos]) clause.expr = some value := by
      rw [← evalExpr_congr hagree]
      rw [setValueNow] at hvalue
      · exact hvalue
      · exact fun constValue hexpr => hconst ⟨constValue, hexpr⟩
    obtain ⟨out, st'', hout, -, hhas⟩ :=
      qualNodeProcess_value (h.numbered.numberedFor _) (hkept.congr hagree) hkeys hread
    rw [hrun, Option.some.injEq, Prod.mk.injEq] at hout
    obtain ⟨rfl, -⟩ := hout
    refine ⟨value, ?_⟩
    rw [Toadb.processSetValueExpr, hhas.value_eq 0 cell]
    intro constValue hset
    rw [hset] at hrun
    exact hconst ⟨constValue, qualNodeProcess_constValue hrun⟩

/-! ## The columns of a row -/

/-- A clause with the cell of its column, where that was found, and the new version. -/
structure SetRound extends SetClause where
  cell : Cell (Nat × Int) Nat StoredValue
  col : FetchedColumn
  column : RowColumnData

/-- What is formed for the column. -/
def SetRound.formed (round : SetRound) : FetchedColumn := ⟨round.col.headItem, round.column⟩

/-- The update of the column, with the bytes of the projected row. -/
def SetRound.update (size : Nat) (round : SetRound) : ColumnUpdate :=
  ⟨round.col.old, size, round.col.headItem, round.column⟩

/-- What is written to the cell. -/
def SetRound.write (round : SetRound) : CellWrite :=
  ⟨round.cell, round.target.attrIndex, round.column.value⟩

/-- The round is about a row that was found. -/
structure SetRound.On (ops : SetOps V) (decodeValue : StoredValue → V)
    (rtable : List RangTblEntry) (t : PaxTable) (own : Nat)
    (snapshot : SnapShotInfo) (cols : List Nat) (pos : TableRowPosition) (row : VersionedRow)
    (round : SetRound) : Prop where
  found : FoundColumn t own snapshot cols pos row round.target.attrIndex round.cell round.col
  column : setColumnNow ops decodeValue snapshot own cols rtable round.set row =
    some round.column
  fits : round.column.Fits
  stays : round.column.size ≤ round.col.old.size

/-- Every clause has its round. -/
theorem exists_rounds {clauses : List SetClause} {On : SetRound → Prop}
    (h : ∀ clause ∈ clauses, ∃ round : SetRound, round.toSetClause = clause ∧ On round) :
    ∃ rounds : List SetRound, rounds.map SetRound.toSetClause = clauses ∧
      ∀ round ∈ rounds, On round := by
  induction clauses with
  | nil => exact ⟨[], rfl, fun _ hmem => absurd hmem List.not_mem_nil⟩
  | cons clause clauses ih =>
    rw [List.forall_mem_cons] at h
    obtain ⟨⟨round, rfl, hround⟩, hrest⟩ := h
    obtain ⟨rounds, rfl, hrounds⟩ := ih hrest
    exact ⟨round :: rounds, rfl, List.forall_mem_cons.mpr ⟨hround, hrounds⟩⟩

/-- The columns of the clauses are found, and they have their new versions. -/
theorem ModifyPlan.Ok.rounds (h : plan.Ok t)
    (hstored : GroupsStored { t with file := f } groups)
    (hpos : PositionOn { t with file := f } groups own snapshot plan.scan.node.colindexList
      pos.toTableRowPosition k i row)
    {clauses : List SetClause} (htargets : plan.targetList = clauses.map SetClause.target)
    (hfits : SetFits ops decodeValue snapshot own plan.scan.node.colindexList plan.rtable
      (clauses.map SetClause.set) row) :
    ∃ rounds : List SetRound, rounds.map SetRound.toSetClause = clauses ∧ ∀ round ∈ rounds,
      round.On ops decodeValue plan.rtable
        { t with file := f } own snapshot plan.scan.node.colindexList
        pos.toTableRowPosition row := by
  refine exists_rounds fun clause hclause => ?_
  have hc : clause.target.attrIndex < t.colNum :=
    (h.targets clause.target (htargets ▸ List.mem_map_of_mem hclause)).2
  obtain ⟨cell, col, hcell, hposition, hget, hnow, hfetched⟩ :=
    hpos.fetched hstored h.ascending.1 h.range hc
  obtain ⟨column, old, hcolumn, hold, hcolumnFits, hlen⟩ :=
    hfits.column clause.set (List.mem_map_of_mem hclause)
  refine ⟨⟨clause, cell, col, column⟩, rfl, ⟨hcell, hposition, hget, hnow, hfetched⟩,
    hcolumn, hcolumnFits, ?_⟩
  rw [SetClause.set, hnow, Option.some.injEq] at hold
  subst hold
  rw [hcolumnFits.size_eq, hfetched.fits.size_eq]
  exact Nat.add_le_add_left hlen _

variable {rounds : List SetRound} (rtable : List RangTblEntry)
  (scanRowData : ScanTableRowData)

/-- The loop that forms the new columns. -/
theorem formNewColumns_rounds (ops : SetOps V) (decode : RowColumnData → V)
    (h : ∀ round ∈ rounds, getCellValueByIndex rtable round.target.rindex ≠ none ∧
      targetPosition rtable scanRowData round.target = some round.col ∧ ∀ cell, ∃ value cell',
        processSetValueExpr ops decode rtable scanRowData round.setValue cell =
          some (some value, cell') ∧
        ops.transFormExpr2RowColumnData value round.target.attrIndex =
          some (some round.column)) (cell : V) :
    ∃ cell', formNewColumns ops decode rtable scanRowData
      (rounds.map fun round => (round.target, round.setValue)) cell =
      some (some (rounds.map SetRound.formed), cell') := by
  induction rounds generalizing cell with
  | nil => exact ⟨cell, rfl⟩
  | cons round rounds ih =>
    rw [List.forall_mem_cons] at h
    obtain ⟨⟨hentry, hposition, hvalue⟩, hrest⟩ := h
    obtain ⟨value, cell₁, hprocess, hcolumn⟩ := hvalue cell
    obtain ⟨cell', hloop⟩ := ih hrest cell₁
    refine ⟨cell', ?_⟩
    simp [formNewColumns, hentry, hprocess, hposition, hcolumn, hloop, SetRound.formed]

variable {rtable scanRowData}

theorem targetColumns_rounds
    (h : ∀ round ∈ rounds, targetColumn rtable scanRowData round.target =
      some round.col.old) :
    targetColumns rtable scanRowData (rounds.map fun round => round.target) =
      rounds.map fun round => round.col.old := by
  induction rounds with
  | nil => rfl
  | cons round rounds ih =>
    rw [List.forall_mem_cons] at h
    simp only [List.map_cons, targetColumns, h.1, ih h.2]

/-- The rounds of the node that writes. -/
theorem updateRounds_rounds (size : Nat) :
    updateRounds ⟨size, rounds.map fun round => some round.col.old⟩
      (rounds.map SetRound.formed) =
      some (rounds.map (SetRound.update size)) := by
  rw [updateRounds, List.zip_map', List.mapM_map]
  refine mapM_eq_some_iff.mpr ?_
  rw [List.forall₂_map_right_iff]
  exact List.forall₂_same.mpr fun round _ => rfl

variable (rtable scanRowData) in
/-- The projected row has the old versions. -/
theorem projectRow_rounds (hrounds : rounds ≠ [])
    (h : ∀ round ∈ rounds, targetColumn rtable scanRowData round.target = some round.col.old ∧
      0 < round.col.old.size)
    (pjData : TableRowData) :
    (projectRow (rounds.map fun round => round.target) rtable scanRowData pjData).1 =
      ⟨(rounds.map fun round => round.col.old.size).sum,
        rounds.map fun round => some round.col.old⟩ := by
  have hcols := targetColumns_rounds fun round hround => (h round hround).1
  have hcells : (rounds.map fun round => round.col.old).map RowColumnData.columnCell =
      rounds.map fun round => some round.col.old := by
    rw [List.map_map]
    exact List.map_congr_left fun round hround => if_pos (h round hround).2
  simp [projectRow, TableRowData.fetchTargetColumns, hcols, formCol2RowDataEx, hrounds,
    hcells, Function.comp_def]

/-- What is written to the row. -/
theorem setCells_rounds {cols : List Nat} {pos : TableRowPosition}
    (h : ∀ round ∈ rounds, round.On ops decodeValue rtable t own snapshot cols pos row) :
    setCells ops decodeValue snapshot own cols rtable
      (rounds.map fun round => round.set) row = rounds.map SetRound.write := by
  rw [setCells, List.filterMap_map, ← List.filterMap_eq_map]
  refine List.filterMap_congr fun round hround => ?_
  have hround := h round hround
  have hcell : row[round.set.1]? = some round.cell := hround.found.inRow
  simp only [Function.comp_apply, hcell, hround.column, Option.bind_eq_bind,
    Option.bind_some, Option.pure_def]
  rfl

theorem oldSize_rounds {cols : List Nat} {pos : TableRowPosition}
    (h : ∀ round ∈ rounds, round.On ops decodeValue rtable t own snapshot cols pos row) :
    oldSize snapshot own cols (rounds.map fun round => round.set) row =
      (rounds.map fun round => round.col.old.size).sum := by
  rw [oldSize, List.map_map]
  refine congrArg List.sum (List.map_congr_left fun round hround => ?_)
  have hround := h round hround
  have hnow : columnNow snapshot own cols row round.set.1 = some round.col.old.value :=
    hround.found.value
  simp only [Function.comp_apply, hnow, Option.map_some, Option.getD_some]
  exact hround.found.fetched.fits.size_eq.symm

/-- The new columns of the row that was found are formed. -/
theorem ModifyPlan.Ok.formNewRowsPos_rounds (h : plan.Ok t)
    (hstored : GroupsStored { t with file := f } groups)
    (hpos : PositionOn { t with file := f } groups own snapshot plan.scan.node.colindexList
      pos.toTableRowPosition k i row)
    (hfound : FoundIn plan pos) (hne : rounds ≠ [])
    (htargets : plan.targetList = rounds.map fun round => round.target)
    (hvalues : plan.setValues = rounds.map fun round => round.setValue)
    (hrounds : ∀ round ∈ rounds, round.On ops decodeValue plan.rtable
      { t with file := f } own snapshot plan.scan.node.colindexList
      pos.toTableRowPosition row)
    (hrewritten : ∀ round ∈ rounds, round.toSetClause.Rewritten plan.rtable)
    (hkept : ∀ round ∈ rounds, MeaningKept ops.toExprOps plan.rtable
      (rowNow ops.toExprOps decodeValue snapshot own plan.scan.node.colindexList row)
      round.expr)
    (cell : V) :
    ∃ cell', formNewRowsPos ops (decodeValue ∘ RowColumnData.value) plan.rtable [pos]
      plan.targetList plan.setValues cell =
      some (some (rounds.map SetRound.formed), cell') := by
  have hround : ∀ round ∈ rounds,
      getCellValueByIndex plan.rtable round.target.rindex ≠ none ∧
      Toadb.targetPosition plan.rtable [pos] round.target = some round.col ∧
      ∀ cell, ∃ value cell',
        Toadb.processSetValueExpr ops (decodeValue ∘ RowColumnData.value) plan.rtable [pos]
          round.setValue cell = some (some value, cell') ∧
        ops.transFormExpr2RowColumnData value round.target.attrIndex =
          some (some round.column) := by
    intro round hmem
    obtain ⟨rte, hrte, -⟩ := h.entry
    have hon := hrounds round hmem
    have htarget : round.target.rindex = firstRangtableIndex :=
      (h.targets round.target (htargets ▸ List.mem_map_of_mem hmem)).1
    obtain ⟨value, hvalue, hcolumn⟩ := Option.bind_eq_some_iff.mp hon.column
    refine ⟨?_, (h.targetPosition hfound htarget).trans hon.found.position, fun cell => ?_⟩
    · rw [htarget, hrte]
      exact Option.some_ne_none rte
    · obtain ⟨cell', hprocess⟩ := h.processSetValueExpr hstored hpos hfound
        (hkept round hmem) (hrewritten round hmem) hvalue cell
      exact ⟨value, cell', hprocess, Option.join_eq_some_iff.mp hcolumn⟩
  obtain ⟨cell', hformed⟩ := formNewColumns_rounds plan.rtable [pos] ops
    (decodeValue ∘ RowColumnData.value) hround cell
  refine ⟨cell', ?_⟩
  rw [formNewRowsPos, if_neg, htargets, hvalues, List.zip_map']
  · simp [hformed]
  · rw [htargets]
    exact fun hnone => hne (List.map_eq_nil_iff.mp hnone)

/-- The updates of the columns are ready to be written, each with the bytes of them all. -/
theorem writeReady_rounds {cols : List Nat} {pos : TableRowPosition}
    (h : ∀ round ∈ rounds, round.On ops decodeValue rtable t own snapshot cols pos row)
    (hspace : ¬ TooLarge (itemSize + (rounds.map fun round => round.col.old.size).sum)) :
    List.Forall₂ (WriteReady own snapshot cols t) (rounds.map SetRound.write)
      (rounds.map (SetRound.update (rounds.map fun round => round.col.old.size).sum)) := by
  rw [List.forall₂_map_left_iff, List.forall₂_map_right_iff]
  refine List.forall₂_same.mpr fun round hround => ?_
  have hon := h round hround
  exact ⟨hon.found.fetched, rfl,
    List.single_le_sum (fun _ _ => Nat.zero_le _) _ (List.mem_map_of_mem hround), hon.fits,
    hon.stays, hspace⟩

/-- The node that writes a row writes the cells of the SET list. -/
theorem ModifyPlan.Ok.writesRow_update (h : plan.Ok t) (ops : SetOps V)
    (hcommand : plan.commandType = .update) {clauses : List SetClause} (hne : clauses ≠ [])
    (htargets : plan.targetList = clauses.map SetClause.target)
    (hvalues : plan.setValues = clauses.map SetClause.setValue)
    (hnodup : (clauses.map fun clause => clause.target.attrIndex).Nodup)
    (hclauses : ∀ clause ∈ clauses, clause.Rewritten plan.rtable)
    (decodeValue : StoredValue → V) (curr : Xtid) (snapshot : SnapShotInfo)
    (scanInfo : InsertScanInfo) {limit : Nat} (hlimit : limit < 2 ^ 32) :
    plan.WritesRow ops (decodeValue ∘ RowColumnData.value) curr snapshot t
      (SetFits ops decodeValue snapshot curr plan.scan.node.colindexList plan.rtable
        (clauses.map SetClause.set))
      (RowFeeds (Writes curr snapshot plan.scan.node.colindexList)
        (setCells ops decodeValue snapshot curr plan.scan.node.colindexList plan.rtable
          (clauses.map SetClause.set)) t scanInfo)
      clauses.length limit := by
  intro p groups pos k i row pjData hstored hpos hfound hfits hcount
  obtain ⟨rounds, rfl, hrounds⟩ := h.rounds hstored hpos htargets hfits
  rw [List.map_map] at htargets hvalues hnodup hfits ⊢
  rw [List.forall_mem_map] at hclauses
  have hne : rounds ≠ [] := fun hnone => hne (by rw [hnone, List.map_nil])
  have htarget : ∀ round ∈ rounds, round.target.rindex = firstRangtableIndex :=
    fun round hround =>
    (h.targets round.target (htargets ▸ List.mem_map_of_mem hround)).1
  have hkept : ∀ round ∈ rounds, MeaningKept ops.toExprOps plan.rtable
      (rowNow ops.toExprOps decodeValue snapshot curr plan.scan.node.colindexList row)
      round.expr :=
    fun round hround => hfits.kept round.set (List.mem_map_of_mem hround)
  obtain ⟨cell', hform⟩ := h.formNewRowsPos_rounds hstored hpos hfound hne htargets hvalues
    hrounds hclauses hkept p.cell
  -- The projected row.
  have hrow := projectRow_rounds plan.rtable [pos] hne (fun round hround => by
    have hon := hrounds round hround
    refine ⟨(h.targetColumn hfound (htarget round hround)).trans hon.found.column, ?_⟩
    rw [hon.found.fetched.fits.size_eq, rowColumnDataSize]
    omega) pjData
  have hcells := setCells_rounds hrounds
  have hspace := hfits.space
  have hsets : SetClause.set ∘ SetRound.toSetClause = fun round : SetRound => round.set := rfl
  rw [hsets, oldSize_rounds hrounds] at hspace
  -- The columns are on pages of their own.
  have hcols : List.Forall₂ (fun c col => ∃ cell,
      FoundColumn { t with file := p.file } curr snapshot
      plan.scan.node.colindexList pos.toTableRowPosition row c cell col)
      (rounds.map ((fun clause => clause.target.attrIndex) ∘ SetRound.toSetClause))
        (rounds.map fun round => round.col) := by
    rw [List.forall₂_map_left_iff, List.forall₂_map_right_iff]
    exact List.forall₂_same.mpr fun round hround => ⟨round.cell, (hrounds round hround).found⟩
  obtain ⟨hpages, hbehind⟩ := hpos.apart hstored hnodup hcols
  let size := (rounds.map fun round => round.col.old.size).sum
  have hready : List.Forall₂ _ _ (rounds.map (SetRound.update size)) :=
    writeReady_rounds hrounds hspace
  rw [List.map_map] at hpages
  rw [List.forall_mem_map] at hbehind
  obtain ⟨ok, m, f', hpour, hfeeds, hcost, groups', hgroups', hkept, hshape⟩ :=
    hstored.writeColumns
      (writesCell_update curr snapshot plan.scan.node.colindexList scanInfo hlimit)
      (fun _ _ _ _ _ _ hready hstep hne => hready.step hstep hne) hready
        (by rw [List.map_map]; exact hpages)
      (List.forall_mem_map.mpr hbehind)
        (by rwa [Nat.one_mul, List.length_map, ← List.length_map SetRound.toSetClause])
  rw [Nat.one_mul, List.length_map, ← List.length_map SetRound.toSetClause] at hcost
  rw [updateColumns_pour, Option.some.injEq] at hpour
  have hupdates : rounds.map (SetRound.update size) ≠ [] :=
    fun hnone => hne (List.map_eq_nil_iff.mp hnone)
  refine ⟨ok, ⟨f', cell', if ok then 0 else -1⟩, ?_, ⟨⟨m, ?_⟩, rfl⟩, hcost, groups',
    hgroups', hkept, hshape⟩
  · have hprojected : (projectRow plan.targetList plan.rtable [pos] pjData).1 =
        ⟨size, rounds.map fun round => some round.col.old⟩ := by
      rw [htargets]
      exact hrow
    rw [ModifyPlan.modifyRow, hcommand]
    simp only [hform, Option.bind_eq_bind, Option.bind_some, hprojected,
      updateRounds_rounds, Option.pure_def,
      paxExecUpdateRow, if_neg hupdates, hpour, ModifyTblState.write]
  · rw [hsets, hcells]
    exact hfeeds

end Row

/-! ## The SET list of a statement -/

section Statement

/-- The column that a node is. -/
def ExprNode.columnRef? : ExprNode → Option ColumnRef
  | .columnRef ref => some ref
  | _ => none

/-- The columns of a SET list, with their right sides. -/
def setColumns (rtable : List RangTblEntry)
    (targetlist : List ResTarget) : List (Nat × ExprNode) :=
  targetlist.filterMap fun resTarget => do
    let columnRef ← resTarget.val.columnRef?
    let found ← searchColumDef columnRef rtable
    return (found.2.2.attrIndex, resTarget.setValue)

variable {rtable rtable' : List RangTblEntry} {st st' : QueryState}
  {targetlist : List ResTarget}

theorem setColumns_of_keys (h : rtable.map RangTblEntry.key = rtable'.map RangTblEntry.key)
    (targetlist : List ResTarget) :
    setColumns rtable targetlist = setColumns rtable' targetlist := by
  refine List.filterMap_congr fun resTarget _ => ?_
  cases resTarget.val.columnRef? with
  | none => rfl
  | some columnRef =>
    simp only [Option.bind_eq_bind, Option.bind_some]
    cases hfound : searchColumDef columnRef rtable with
    | some found =>
      obtain ⟨pos, rte, col⟩ := found
      obtain ⟨rte', hfound', -⟩ := searchColumDef_of_keys h hfound
      rw [hfound']
      rfl
    | none =>
      cases hfound' : searchColumDef columnRef rtable' with
      | none => rfl
      | some found =>
        obtain ⟨pos, rte, col⟩ := found
        obtain ⟨rte', hback, -⟩ := searchColumDef_of_keys h.symm hfound'
        rw [hfound] at hback
        cases hback

/-- A column and its right side, which is there. -/
def ResTarget.IsSet (resTarget : ResTarget) : Prop :=
  (∃ columnRef, resTarget.val = .columnRef columnRef) ∧ resTarget.setValue.isNull = false

theorem targetNodeProcess_failed {columnRef : ColumnRef} {name : Option CString}
    (h : targetNodeProcess columnRef name st = (none, st')) : st'.processState ≠ 0 := by
  rw [targetNodeProcess] at h
  split at h
  · cases h
    exact (by decide : (-1 : Int) ≠ 0)
  · cases h

theorem targetNodeProcess_found {columnRef : ColumnRef} {name : Option CString}
    {target : TargetEntry} (h : targetNodeProcess columnRef name st = (some target, st')) :
    ∃ pos rte col, searchColumDef columnRef st.rtable = some (pos, rte, col) ∧
      target.rindex = rte.rindex ∧
      target.attrIndex = col.attrIndex := by
  rw [targetNodeProcess] at h
  split at h
  · cases h
  · rename_i pos rte col hfound
    cases h
    exact ⟨pos, rte, col, hfound, rfl, rfl⟩

theorem processSetValue_node {setValue : ExprNode} {setValues setValues' : List QualNode}
    (hvalue : setValue.isNull = false)
    (h : processSetValue setValue setValues st = some (setValues', st')) :
    ∃ node, qualNodeProcess setValue st = some (node, st') ∧
      setValues' = setValues ++ [node] := by
  rw [processSetValue, if_neg (by rw [hvalue]; decide)] at h
  simp only [Option.bind_eq_bind, Option.bind_eq_some_iff, Prod.exists, Option.pure_def,
    Option.some.injEq, Prod.mk.injEq] at h
  obtain ⟨node, st₁, hrun, rfl, rfl⟩ := h
  exact ⟨node, hrun, rfl⟩

/-- The clause is about a column of the table, and a right side of the list. -/
structure SetClause.Of (rtable : List RangTblEntry) (targetlist : List ResTarget)
    (clause : SetClause) : Prop where
  rewritten : clause.Rewritten rtable
  expr : ∃ resTarget ∈ targetlist, clause.expr = resTarget.setValue
  found : ∃ columnRef pos rte col, searchColumDef columnRef rtable = some (pos, rte, col) ∧
    clause.target.rindex = rte.rindex ∧ clause.target.attrIndex = col.attrIndex

/-- A SET list whose columns are all found gives a clause for each. -/
theorem processCheckTargetList_sets (hst : st.Ok rtable)
    {targetList targetList' : List TargetEntry} {setValues setValues' : List QualNode}
    (hset : ∀ te ∈ setValues.flatMap QualNode.targets, TargetOf rtable te)
    (hsets : ∀ resTarget ∈ targetlist, resTarget.IsSet)
    (h : processCheckTargetList targetlist targetList setValues st =
      some (targetList', setValues', st'))
    (hok : st'.processState = 0) :
    ∃ clauses : List SetClause, targetList' = targetList ++ clauses.map SetClause.target ∧
      setValues' = setValues ++ clauses.map SetClause.setValue ∧
      clauses.map SetClause.set = setColumns rtable targetlist ∧
        clauses.length = targetlist.length ∧
      ∀ clause ∈ clauses, clause.Of rtable targetlist := by
  induction targetlist generalizing st targetList setValues with
  | nil =>
    cases h
    exact ⟨[], by simp, by simp, rfl, rfl, fun _ hmem => absurd hmem List.not_mem_nil⟩
  | cons resTarget targetlist ih =>
    rw [List.forall_mem_cons] at hsets
    obtain ⟨⟨⟨columnRef, hval⟩, hvalue⟩, hrest⟩ := hsets
    rw [processCheckTargetList, hval] at h
    dsimp only at h
    split at h
    · rename_i st₁ htarget
      cases h
      exact absurd hok (targetNodeProcess_failed htarget)
    · rename_i target st₁ htarget
      obtain ⟨hst₁, -⟩ := targetNodeProcess_ok hst htarget
      simp only [Option.bind_eq_bind, Option.bind_eq_some_iff, Prod.exists] at h
      obtain ⟨setValues₁, st₂, hnode, hrun⟩ := h
      obtain ⟨hst₂, hset₁⟩ := processSetValue_ok hst₁ hset hnode
      obtain ⟨node, hrewritten, rfl⟩ := processSetValue_node hvalue hnode
      obtain ⟨clauses, rfl, rfl, hcolumns, hlen, hclauses⟩ := ih hst₂ hset₁ hrest hrun
      obtain ⟨pos, rte, col, hfound, hrindex, hattr⟩ := targetNodeProcess_found htarget
      obtain ⟨rte', hfound', hkey⟩ := searchColumDef_of_keys hst.keys hfound
      refine ⟨⟨target, node, resTarget.setValue⟩ :: clauses, by simp, by
        simp, ?_, by simp [hlen], ?_⟩
      · have hcolumn : resTarget.val.columnRef? = some columnRef := by rw [hval]; rfl
        rw [List.map_cons, setColumns, List.filterMap_cons]
        simp only [hcolumn, hfound', Option.bind_eq_bind, Option.bind_some, Option.pure_def,
          SetClause.set, hattr]
        exact congrArg _ hcolumns
      · refine List.forall_mem_cons.mpr
          ⟨⟨⟨st₁, st₂, hst₁.keys, hrewritten⟩, ⟨resTarget, List.mem_cons_self, rfl⟩,
          ⟨columnRef, pos, rte', col, hfound', hrindex.trans (rindex_of_key hkey).symm,
            hattr⟩⟩, fun clause hclause => ?_⟩
        have hof := hclauses clause hclause
        obtain ⟨resTarget', hmem, hexpr⟩ := hof.expr
        exact ⟨hof.rewritten, ⟨resTarget', List.mem_cons_of_mem _ hmem, hexpr⟩, hof.found⟩

variable {getTableInfo : CString → Option TableList} {query : Query}

/-- An UPDATE without a FROM list has the columns of its SET list for targets. -/
theorem transformUpdateStmt_one {stmt : UpdateStmt} (hfrom : stmt.fromList = [])
    (hsets : ∀ resTarget ∈ stmt.targetlist, resTarget.IsSet)
    (h : transformUpdateStmt getTableInfo stmt = some query) :
    ∃ tblInfo, QueryOne stmt.whereList tblInfo query ∧ query.commandType = .update ∧
      ∃ clauses : List SetClause,
      query.targetList = clauses.map SetClause.target ∧
        query.setValues = clauses.map SetClause.setValue ∧
      clauses.map SetClause.set = setColumns query.rtable stmt.targetlist ∧
        clauses.length = stmt.targetlist.length ∧
      ∀ clause ∈ clauses, clause.Of query.rtable stmt.targetlist := by
  have hnone : rangTblRewriteFromClause getTableInfo [] firstRangtableIndex =
      ([], firstRangtableIndex) := rfl
  simp only [transformUpdateStmt, hfrom, hnone, Option.bind_eq_bind,
    Option.bind_eq_some_iff, Prod.exists] at h
  obtain ⟨rte, hrte, targetList, setValues, st, htargets, hqual⟩ := h
  obtain ⟨hindex, hempty, tblInfo, htbl⟩ := rangTblOf_one hrte
  have hstart : (QueryState.start [rte] (firstRangtableIndex + 1)).Ok [rte] :=
    .start (List.forall_mem_singleton.mpr hempty)
  obtain ⟨hst, hlist, hset⟩ :=
    processCheckTargetList_ok hstart (targetOf_nil [rte]) (targetOf_noValues _) htargets
  obtain ⟨hcommand, hvalues, hparent, hstate⟩ := transformQual_targetList hqual
  obtain ⟨clauses, hclauseTargets, hclauseValues, hcolumns, hlen, hclauses⟩ :=
    processCheckTargetList_sets hstart (targetOf_noValues _) hsets htargets hstate
  have hkeys := (transformQual_of (hst.withParent hlist) hset hqual).keys
  refine ⟨tblInfo, transformQual_one (hst.withParent hlist) hindex htbl hset hqual,
    hcommand, clauses,
    hparent.trans hclauseTargets, hvalues.trans hclauseValues, ?_, hlen,
      fun clause hclause => ?_⟩
  · exact hcolumns.trans (setColumns_of_keys hkeys _).symm
  · obtain ⟨⟨st₁, st₂, hkeys₁, hrun⟩, hexpr, columnRef, pos, entry, col, hfound, hrindex,
        hattr⟩ := hclauses clause hclause
    obtain ⟨entry', hfound', hkey⟩ := searchColumDef_of_keys hkeys.symm hfound
    exact ⟨⟨st₁, st₂, hkeys₁.trans hkeys.symm, hrun⟩, hexpr, columnRef, pos,
      entry', col, hfound',
      hrindex.trans (rindex_of_key hkey).symm, hattr⟩

end Statement

/-! ## An UPDATE on a table with a history -/

/-- The cells before the first that is not current for the statement. -/
def currentWrites (snapshot : SnapShotInfo) (own : Nat) (cols : List Nat)
    (items : List CellWrite) : List CellWrite :=
  items.takeWhile fun item => item.cell.Current (SeenIn snapshot own cols item.column)

section History

variable {colNum : Nat} (hpos : 0 < colNum) {changes : List StoredChange} {s : TableStore}
  (hruns : StoreRuns (.created colNum) changes s)
  {getTableInfo : CString → Option TableList} {stmt : UpdateStmt}
  (hfrom : stmt.fromList = []) {query : Query} {plan : ModifyPlan}
  (hquery : transformUpdateStmt getTableInfo stmt = some query)
  (hplan : modifyPlan (fun _ => (s.table.file, s.table.groups)) query = some plan)
  (hattr : plan.scan.tblInfo.column.map ColumnDefInfo.attrIndex = List.range colNum)
  {cols : List Nat}
  (hcols : plan.scan.node.colindexList = cols) (hasc : Ascending cols)
  (hrange : ∀ c ∈ cols, c < colNum) {V : Type}
  (ops : SetOps V) (decodeValue : StoredValue → V) (hne : stmt.targetlist ≠ [])
  (hsets : ∀ resTarget ∈ stmt.targetlist, resTarget.IsSet)
  (hnodup : ((setColumns plan.rtable stmt.targetlist).map Prod.fst).Nodup)

include hfrom hquery hplan hattr hcols hasc hrange hne hsets hnodup

/-- An UPDATE statement on a stored table. -/
theorem StoreOk.updateStmt {table : StoredTable} (h : StoreOk s table)
    (hcolNum : s.table.colNum = colNum) (snapshot : SnapShotInfo) (curr : Xtid)
    (hok : ∀ row ∈ table.filter (Visible snapshot curr cols),
      WhereOkNow ops.toExprOps decodeValue snapshot curr cols plan.rtable
        stmt.whereList row) :
    let sets := setColumns plan.rtable stmt.targetlist
    let chosen :=
      chosenRows ops.toExprOps decodeValue snapshot curr cols plan.rtable stmt.whereList table
    let cells := setCells ops decodeValue snapshot curr cols plan.rtable sets
    let written := (currentWrites snapshot curr cols (chosen.flatMap cells)).map fun item =>
        (item.cell.pos, item.value)
    let updated := (chosen.takeWhile fun row => ∀ item ∈ cells row,
      item.cell.Current (SeenIn snapshot curr cols item.column)).length
    (∀ row ∈ chosen, SetFits ops decodeValue snapshot curr cols plan.rtable sets row) →
    s.table.file.pageCnt + stmt.targetlist.length * chosen.length < 2 ^ 32 →
    ∃ file, StoreRuns s (written.map fun (pos, value) => .write curr.val pos value)
      (s.setFile file) ∧
      StoreOk (s.setFile file) (table.writeCells curr.val written) ∧
      Returns (fun fuel =>
        plan.exec ops (decodeValue ∘ RowColumnData.value) curr snapshot s.table.file fuel)
        (if 0 < updated then (updated : Int) else if chosen = [] then 0 else -1, file) := by
  subst hcols hcolNum
  have hstore := h
  obtain ⟨groups, hgroups, rfl⟩ := h.stored.groupsStored
  obtain ⟨tblInfo, hone, hcommand, clauses, htargets, hvalues, hcolumns, hlen, hclauses⟩ :=
    transformUpdateStmt_one hfrom hsets hquery
  have hplanOne := modifyPlan_one (t := s.table) hone hplan
  rw [hplanOne.table] at hattr
  have hplanOk := hplanOne.ok hattr hasc hrange fun target hmem => by
    rw [htargets] at hmem
    obtain ⟨clause, hclause, rfl⟩ := List.mem_map.mp hmem
    obtain ⟨columnRef, pos, rte, col, hfound, hrindex, hattrIndex⟩ :=
      (hclauses clause hclause).found
    obtain ⟨hentry, hcol⟩ := hone.searched hfound
    exact ⟨hrindex.trans hentry,
      hattrIndex ▸ List.mem_range.mp (hattr ▸ List.mem_map_of_mem hcol)⟩
  have hcolumns : clauses.map SetClause.set = setColumns plan.rtable stmt.targetlist :=
    hcolumns.trans (setColumns_of_keys hplanOne.keys _).symm
  have hclausesNe : clauses ≠ [] := by
    rintro rfl
    exact hne (List.length_eq_zero_iff.mp hlen.symm)
  intro sets chosen cells written updated hfits hlimit
  rw [← hcolumns, List.map_map] at hnodup
  have hwrites :=
    hplanOk.writesRow_update ops (hplanOne.commandType.trans hcommand) hclausesNe
      (hplanOne.targetList.trans htargets) (hplanOne.setValues.trans hvalues) hnodup
        (fun clause hclause => by
        obtain ⟨⟨st, st', hkeys, hrun⟩, -, -⟩ := hclauses clause hclause
        exact ⟨st, st', hkeys.trans hplanOne.keys.symm, hrun⟩)
      decodeValue curr snapshot s.scanInfo (show 2 ^ 32 - 1 < 2 ^ 32 by decide)
  rw [hcolumns, hlen] at hwrites
  obtain ⟨file, hruns, hreturns⟩ :=
    hplanOk.exec_changes hgroups (hplanOne.selectsWhere _) rfl hok hfits
      (fun _ _ _ _ hR => hR) hwrites (Nat.le_sub_one_of_lt hlimit)
  have hwritten : StoreRuns s (written.map fun (pos, value) => .write curr.val pos value)
      (s.setFile file) := by
    rw [List.map_map]
    exact hruns
  obtain ⟨-, table', hrun, hok'⟩ := hwritten.run hstore
  exact ⟨file, hwritten, hrun.writes ▸ hok', hreturns⟩

include hpos hruns

/-- After any history of a table, an UPDATE statement on it writes the new values to the cells
of the rows that it sees and that satisfy the WHERE clause, one after the other, up to the
first that is not current. It returns how many rows were written. -/
theorem update_after_history :
    ∃ table, Run [] changes table ∧ TableStored s.table table ∧
      ∀ (snapshot : SnapShotInfo) (curr : Xtid),
      (∀ row ∈ table.filter (Visible snapshot curr cols),
        WhereOkNow ops.toExprOps decodeValue snapshot curr cols plan.rtable
          stmt.whereList row) →
      let sets := setColumns plan.rtable stmt.targetlist
      let chosen := chosenRows ops.toExprOps decodeValue snapshot curr cols plan.rtable
          stmt.whereList table
      let cells := setCells ops decodeValue snapshot curr cols plan.rtable sets
      let written := (currentWrites snapshot curr cols (chosen.flatMap cells)).map fun item =>
          (item.cell.pos, item.value)
      let updated := (chosen.takeWhile fun row => ∀ item ∈ cells row,
        item.cell.Current (SeenIn snapshot curr cols item.column)).length
      (∀ row ∈ chosen, SetFits ops decodeValue snapshot curr cols plan.rtable sets row) →
      s.table.file.pageCnt + stmt.targetlist.length * chosen.length < 2 ^ 32 →
      ∃ file, StoreRuns s (written.map fun (pos, value) => .write curr.val pos value)
        (s.setFile file) ∧
        TableStored (s.setFile file).table (table.writeCells curr.val written) ∧
        Returns (fun fuel =>
          plan.exec ops (decodeValue ∘ RowColumnData.value) curr snapshot s.table.file fuel)
          (if 0 < updated then (updated : Int) else if chosen = [] then 0 else -1, file) := by
  obtain ⟨hcolNum, table, hrun, hok⟩ := hruns.run (storeOk_created hpos)
  refine ⟨table, hrun, hok.stored, fun snapshot curr hwhere => ?_⟩
  intro sets chosen cells written updated hfits hlimit
  obtain ⟨file, hwrites, hok', hreturns⟩ :=
    hok.updateStmt hfrom hquery hplan hattr hcols hasc hrange ops decodeValue hne
      hsets hnodup hcolNum snapshot curr hwhere hfits hlimit
  exact ⟨file, hwrites, hok'.stored, hreturns⟩

/-- After the statement a scan that sees the work of the transaction selects in each cell that
the statement wrote the value that it wrote, and in every other cell what it selected before.
A scan that does not see it selects the same rows as before. -/
theorem updated_cells_scanned :
    ∃ table, Run [] changes table ∧ TableStored s.table table ∧
      (∀ reader own columns, Ascending columns → (∀ c ∈ columns, c < colNum) →
        ScanSelects s reader own columns (table.select (reader.Sees own) columns)) ∧
      ∀ (snapshot : SnapShotInfo) (curr : Xtid),
        (∀ row ∈ table.filter (Visible snapshot curr cols),
          WhereOkNow ops.toExprOps decodeValue snapshot curr cols plan.rtable
            stmt.whereList row) →
        let sets := setColumns plan.rtable stmt.targetlist
        let chosen := chosenRows ops.toExprOps decodeValue snapshot curr cols plan.rtable
            stmt.whereList table
        let cells := setCells ops decodeValue snapshot curr cols plan.rtable sets
        let written := (currentWrites snapshot curr cols (chosen.flatMap cells)).map
            fun item => (item.cell.pos, item.value)
        (∀ row ∈ chosen, SetFits ops decodeValue snapshot curr cols plan.rtable sets row) →
        s.table.file.pageCnt + stmt.targetlist.length * chosen.length < 2 ^ 32 →
        ∃ ret file, Returns (fun fuel =>
          plan.exec ops (decodeValue ∘ RowColumnData.value) curr snapshot s.table.file fuel)
            (ret, file) ∧
          ∀ reader own columns, Ascending columns → (∀ c ∈ columns, c < colNum) →
            ScanSelects (s.setFile file) reader own columns (if reader.Sees own curr then
              table.selectWritten (reader.Sees own) columns written.reverse else
                table.select (reader.Sees own) columns) := by
  obtain ⟨hcolNum, table, hrun, hok⟩ := hruns.run (storeOk_created hpos)
  have hstored : s.table.colNum = colNum := hcolNum
  refine ⟨table, hrun, hok.stored, fun reader own columns hascending hcolumns => ?_,
    fun snapshot curr hwhere => ?_⟩
  · exact hok.stored.scan reader own hascending fun c hc => hstored.symm ▸ hcolumns c hc
  intro sets chosen cells written hfits hlimit
  obtain ⟨file, hwrites, hok', hreturns⟩ :=
    hok.updateStmt hfrom hquery hplan hattr hcols hasc hrange ops decodeValue hne
      hsets hnodup hstored snapshot curr hwhere hfits hlimit
  refine ⟨_, file, hreturns, fun reader own columns hascending hcolumns => ?_⟩
  have hrange : ∀ c ∈ columns, c < s.table.colNum := fun c hc => hstored.symm ▸ hcolumns c hc
  by_cases hsees : reader.Sees own curr
  · rw [if_pos hsees, ← Table.select_writeCells hsees]
    exact hok'.stored.scan reader own hascending hrange
  · rw [if_neg hsees]
    refine hwrites.scan_unseen hok (fun change hchange => ?_) hascending hrange
    obtain ⟨write, -, rfl⟩ := List.mem_map.mp hchange
    exact hsees

end History

/-- `UPDATE t SET a = 5, b = a + 1 WHERE a > 20000000`. -/
def updateT : UpdateStmt where
  relation := ⟨tableT, none⟩
  targetlist := [⟨none, columnRefA, .constValue ⟨.int, .iData 5⟩, false⟩,
    ⟨none, .columnRef ⟨columnB, none, .unknown, 0⟩,
      .aExpr .plus columnRefA (.constValue ⟨.int, .iData 1⟩), false⟩]
  fromList := []
  whereList := [.aExpr .greater columnRefA (.constValue ⟨.int, .iData 20000000⟩)]

theorem updateT_sets : ∀ resTarget ∈ updateT.targetlist, resTarget.IsSet :=
  List.forall_mem_cons.mpr ⟨⟨⟨_, rfl⟩, rfl⟩, List.forall_mem_singleton.mpr ⟨⟨_, rfl⟩, rfl⟩⟩

def updateQuery : Query := (transformUpdateStmt pairTables updateT).get (by decide)

def updatePlan : ModifyPlan :=
  (modifyPlan (fun _ => (twoRowStore.table.file, twoRowStore.table.groups)) updateQuery).get
    (by decide)

theorem updateQuery_eq : transformUpdateStmt pairTables updateT = some updateQuery :=
  (Option.some_get _).symm

theorem updatePlan_eq :
    modifyPlan (fun _ => (twoRowStore.table.file, twoRowStore.table.groups)) updateQuery =
      some updatePlan :=
  (Option.some_get _).symm

theorem updatePlan_where (row : VersionedRow) :
    WhereOkNow intSetOps.toExprOps decodeStored ⟨9, 9, 0, []⟩ 8
      [0] updatePlan.rtable updateT.whereList row :=
  ⟨List.forall_mem_singleton.mpr ⟨.inl rfl, .inr trivial, trivial⟩, rfl⟩

theorem updatePlan_chosen :
    chosenRows intSetOps.toExprOps decodeStored ⟨9, 9, 0, []⟩ 8
      [0] updatePlan.rtable updateT.whereList twoRows =
      [newRow 7 (pairItems 1) (pairValues 2)] := by
  decide

/-- What is written to the second row. -/
def updatedPair : List StoredValue := [(0, Bytes.ofNat 4 5), (1, Bytes.ofNat 4 33686019)]

theorem updatePlan_written :
    (currentWrites ⟨9, 9, 0, []⟩ 8 [0] ([newRow 7 (pairItems 1) (pairValues 2)].flatMap
      (setCells intSetOps decodeStored ⟨9, 9, 0, []⟩ 8 [0] updatePlan.rtable
        (setColumns updatePlan.rtable updateT.targetlist)))).map
        (fun item => (item.cell.pos, item.value)) =
      (pairItems 1).zip updatedPair := by
  decide

theorem updatePlan_updated :
    ([newRow 7 (pairItems 1) (pairValues 2)].takeWhile fun row =>
      ∀ item ∈ setCells intSetOps decodeStored ⟨9, 9, 0, []⟩ 8 [0] updatePlan.rtable
        (setColumns updatePlan.rtable updateT.targetlist) row,
        item.cell.Current (SeenIn ⟨9, 9, 0, []⟩ 8 [0] item.column)).length = 1 := by
  decide

theorem newInt_fits : ∀ (c : Fin 2) (value : Fin 2),
    (RowColumnData.new c (Bytes.ofNat 4 (if value = 0 then 5 else 33686019))).Fits := by
  intro c value
  refine ⟨rfl, ?_, ?_, ⟨?_, ?_, ?_, ?_, ?_, ?_, ?_⟩⟩ <;> revert c value <;> decide

theorem updatePlan_fits :
    ∀ row ∈ [newRow 7 (pairItems 1) (pairValues 2)],
      SetFits intSetOps decodeStored ⟨9, 9, 0, []⟩ 8 [0] updatePlan.rtable
      (setColumns updatePlan.rtable updateT.targetlist) row := by
  have hsets : setColumns updatePlan.rtable updateT.targetlist =
      [(0, .constValue ⟨.int, .iData 5⟩),
        (1, .aExpr .plus columnRefA (.constValue ⟨.int, .iData 1⟩))] := rfl
  rw [hsets]
  refine List.forall_mem_singleton.mpr
    ⟨List.forall_mem_cons.mpr ⟨trivial, List.forall_mem_singleton.mpr
    ⟨.inl rfl, .inr trivial, trivial⟩⟩,
      List.forall_mem_cons.mpr ⟨?_, List.forall_mem_singleton.mpr ?_⟩, by decide⟩
  · exact ⟨RowColumnData.new 0 (Bytes.ofNat 4 5), (0, List.replicate 9 2), by decide, by
      decide, newInt_fits 0 0, by decide⟩
  · exact ⟨RowColumnData.new 1 (Bytes.ofNat 4 33686019), (1, List.replicate 9 2), by
      decide, by decide, newInt_fits 1 1,
      by decide⟩

theorem updatePlan_limit : twoRowStore.table.file.pageCnt + updateT.targetlist.length *
    [newRow 7 (pairItems 1) (pairValues 2)].length < 2 ^ 32 := by
  decide

theorem update_after_inserts : ∃ file,
    StoreRuns twoRowStore [.write 8 (2, 56) (0, Bytes.ofNat 4 5),
      .write 8 (3, 56) (1, Bytes.ofNat 4 33686019)]
      (twoRowStore.setFile file) ∧
    TableStored (twoRowStore.setFile file).table
      (twoRows.writeCells 8 ((pairItems 1).zip updatedPair)) ∧
    Returns (fun fuel => updatePlan.exec intSetOps
      (decodeStored ∘ RowColumnData.value) 8 ⟨9, 9, 0, []⟩
      twoRowStore.table.file fuel) (1, file) := by
  have hcols : updatePlan.scan.node.colindexList = [0] := rfl
  obtain ⟨table, -, hstored, hupdate⟩ :=
    update_after_history (by decide) twoInserts_runs rfl updateQuery_eq updatePlan_eq
      (by decide) hcols (by decide) (by decide) intSetOps decodeStored
        (by decide) updateT_sets (by decide)
  obtain rfl := hstored.unique twoRowStore_stored
  have hupdate := hupdate ⟨9, 9, 0, []⟩ ⟨8, by decide⟩ fun row _ => updatePlan_where row
  dsimp only at hupdate
  rw [updatePlan_chosen, updatePlan_written, updatePlan_updated] at hupdate
  exact hupdate updatePlan_fits updatePlan_limit

/-- Who sees the update selects the new values of the second row; who does not, both rows as
they were. -/
theorem updated_cells_scanned_rows : ∃ ret file,
    Returns (fun fuel => updatePlan.exec intSetOps
      (decodeStored ∘ RowColumnData.value) 8 ⟨9, 9, 0, []⟩
      twoRowStore.table.file fuel) (ret, file) ∧
    ScanSelects (twoRowStore.setFile file) ⟨9, 9, 0, []⟩ 9 [0, 1]
      [pairValues 1, updatedPair] ∧
    ScanSelects (twoRowStore.setFile file) ⟨8, 8, 0, []⟩ 6 [0, 1]
      [pairValues 1, pairValues 2] := by
  have hcols : updatePlan.scan.node.colindexList = [0] := rfl
  obtain ⟨table, -, hstored, -, hupdate⟩ :=
    updated_cells_scanned (by decide) twoInserts_runs rfl updateQuery_eq
      updatePlan_eq (by decide) hcols (by decide) (by decide) intSetOps decodeStored
        (by decide) updateT_sets (by decide)
  obtain rfl := hstored.unique twoRowStore_stored
  have hupdate := hupdate ⟨9, 9, 0, []⟩ ⟨8, by decide⟩ fun row _ => updatePlan_where row
  dsimp only at hupdate
  rw [updatePlan_chosen, updatePlan_written] at hupdate
  obtain ⟨ret, file, hreturns, hscans⟩ := hupdate updatePlan_fits updatePlan_limit
  refine ⟨ret, file, hreturns, ?_, ?_⟩
  · have hafter := hscans ⟨9, 9, 0, []⟩ 9 [0, 1] (by decide) (by decide)
    have hselect : twoRows.selectWritten ((⟨9, 9, 0, []⟩ : SnapShotInfo).Sees 9) [0, 1]
        ((pairItems 1).zip updatedPair).reverse = [pairValues 1, updatedPair] := by
      decide
    rwa [if_pos (by decide), hselect] at hafter
  · have hbefore := hscans ⟨8, 8, 0, []⟩ 6 [0, 1] (by decide) (by decide)
    have hselect : twoRows.select ((⟨8, 8, 0, []⟩ : SnapShotInfo).Sees 6) [0, 1] =
        [pairValues 1, pairValues 2] := by
      decide
    rwa [if_neg (by decide), hselect] at hbefore

end Toadb
