/-
Toadb.Executor.ExecSelectTheorems — which rows does a SELECT send?

The rows that go up from the scans stand for the rows of the join
(`SelectPlan.rows_stand`): the scans keep their columns, whatever is called
(`Plan.StateOk`). With a WHERE clause whose meaning the rewriting keeps, the node
that selects keeps the rows for which it is true, and the projection hands out the
targets of each of them, so that `SelectPlan.resultRows` are the rows that are sent.
-/
import Toadb.Executor.ExecSelect
import Toadb.Executor.ExecExpreTheorems
import Toadb.Executor.ExecProjectTheorems
import Toadb.Executor.NestLoopTheorems
import Mathlib.Data.List.Find

namespace Toadb

open Cursor

/-! ## The columns of a scan -/

/-- The columns that a scan reads, with an offset and a page for each. -/
structure ScanPageInfo.Shaped (cols : List Nat) (info : ScanPageInfo) : Prop where
  columns : info.colindexList = cols
  offsets : info.searchPageList.length = cols.length
  pages : info.pageList = [] ∨ info.pageList.length = cols.length

section Scan

variable {f : TableFile} {groups : GroupFork} {curr : Nat}
  {snapshot : SnapShotInfo} {cols : List Nat}
  {info info' : ScanPageInfo}

/-- A row that is visible has all columns. -/
theorem scanColumns_row_length {depth : Nat} {pageReset ignore : Bool} {cs : List (Nat × Int)}
    {offsets : List Int} {vals : List RowColumnData}
    (h : scanColumns f curr snapshot depth pageReset ignore cs =
      some (.nextRow, offsets, vals)) :
    ignore = false ∧ vals.length = cs.length := by
  induction cs generalizing ignore offsets vals with
  | nil =>
    cases ignore with
    | true => cases h
    | false =>
      cases h
      exact ⟨rfl, rfl⟩
  | cons c cs ih =>
    simp only [scanColumns] at h
    split at h
    · cases h
    · cases h
    · split at h
      · obtain ⟨⟨flag, offsets', vals'⟩, hrest, heq⟩ := Option.map_eq_some_iff.mp h
        cases heq
        cases (ih hrest).1
      · split at h
        · cases h
        · obtain ⟨⟨flag, offsets', vals'⟩, hrest, heq⟩ := Option.map_eq_some_iff.mp h
          cases heq
          cases (ih hrest).1
        · rename_i hignore _ _ _ _
          obtain ⟨⟨flag, offsets', vals'⟩, hrest, heq⟩ := Option.map_eq_some_iff.mp h
          cases heq
          exact ⟨by simpa using hignore, by
            rw [List.length_cons, List.length_cons, (ih hrest).2]⟩

theorem ScanPageInfo.Shaped.nextGroup_found (h : info.Shaped cols)
    (hnext : nextGroup f groups info = .found info') :
    info'.Shaped cols := by
  rw [nextGroup] at hnext
  split at hnext
  · cases hnext
  · dsimp only at hnext
    split at hnext <;> cases hnext
    rename_i hpages
    obtain ⟨rfl, -, -⟩ := memberPages_pages hpages
    exact ⟨h.columns, h.offsets, .inr (by rw [List.length_map, h.columns])⟩

theorem ScanPageInfo.Shaped.nextGroup_done (h : info.Shaped cols)
    (hnext : nextGroup f groups info = .done info') :
    info'.Shaped cols := by
  rw [nextGroup] at hnext
  split at hnext
  · cases hnext
    exact ⟨h.columns, h.offsets, h.pages⟩
  · dsimp only at hnext
    split at hnext <;> cases hnext
    exact ⟨h.columns, h.offsets, .inl rfl⟩

theorem ScanPageInfo.Shaped.seqScanNextColumnOpt {depth fuel : Nat}
    {row : Option (List RowColumnData)} (h : info.Shaped cols)
    (hnext : seqScanNextColumnOpt f curr snapshot depth fuel info = some (row, info')) :
    info'.Shaped cols ∧ ∀ r ∈ row, r.length = cols.length := by
  induction fuel generalizing info with
  | zero => cases hnext
  | succ fuel ih =>
    rw [Toadb.seqScanNextColumnOpt] at hnext
    split at hnext
    · cases hnext
      exact ⟨⟨h.columns, h.offsets, h.pages⟩, by simp⟩
    · rename_i hne
      have hzip : (info.pageList.zip info.searchPageList).length = cols.length := by
        rw [List.length_zip, h.pages.resolve_left hne, h.offsets, Nat.min_self]
      split at hnext
      · cases hnext
      · rename_i flag offsets vals hscan
        have hoffsets := (scanColumns_length hscan).trans hzip
        dsimp only at hnext
        split at hnext
        · cases hnext
          exact ⟨⟨h.columns, hoffsets, h.pages⟩, by simp⟩
        · refine ih ?_ hnext
          exact ⟨h.columns, hoffsets, h.pages⟩
        · cases hnext
          refine ⟨⟨h.columns, hoffsets, h.pages⟩, fun r hr => ?_⟩
          cases hr
          exact (scanColumns_row_length hscan).2.trans hzip

theorem ScanPageInfo.Shaped.seqscanLoop {depth fuel : Nat} {found : Bool}
    {row : Option (List RowColumnData)} (h : info.Shaped cols)
    (hnext : seqscanLoop f groups curr snapshot depth fuel found info = some (row, info')) :
    info'.Shaped cols ∧ ∀ r ∈ row, r.length = cols.length := by
  induction fuel generalizing info found with
  | zero => cases hnext
  | succ fuel ih =>
    rw [Toadb.seqscanLoop] at hnext
    cases hgroup : (if found then NextGroup.found info else nextGroup f groups info) with
    | overrun =>
      rw [hgroup] at hnext
      cases hnext
    | done info₁ =>
      rw [hgroup] at hnext
      cases hnext
      cases found with
      | true => cases hgroup
      | false => exact ⟨h.nextGroup_done hgroup, by simp⟩
    | found info₁ =>
      rw [hgroup] at hnext
      have h₁ : info₁.Shaped cols := by
        cases found with
        | true =>
          cases hgroup
          exact h
        | false => exact h.nextGroup_found hgroup
      dsimp only at hnext
      split at hnext
      · cases hnext
      · rename_i hscan
        cases hnext
        exact h₁.seqScanNextColumnOpt hscan
      · rename_i hscan
        have h₂ := (h₁.seqScanNextColumnOpt hscan).1
        refine ih ?_ hnext
        exact ⟨h₂.columns, h₂.offsets, .inl rfl⟩

theorem initScanPositionInfo_shaped {colNum : Nat}
    (h : initScanPositionInfo colNum cols = some info) :
    info.Shaped cols := by
  rw [initScanPositionInfo] at h
  split at h
  · cases h
  · cases h
    exact ⟨rfl, List.length_map _, .inl rfl⟩

end Scan

/-! ## The states of a plan -/

section Loop

variable {L R : Type} {left : Nat → L → Option (Option JoinRow × L)}
  {right : Nat → R → Option (Option JoinRow × R)}
  {reScan : R → Option R} {leftOk : L → Prop} {rightOk : R → Prop}
  {leftRow : L → JoinRow → Prop}
  {rightRow : R → JoinRow → Prop}

/-- The states below are well, and so is a left row in hand. -/
structure NestLoopState.Ok (leftOk : L → Prop) (rightOk : R → Prop)
    (leftRow : L → JoinRow → Prop) (st : NestLoopState L R) : Prop where
  left : leftOk st.left
  right : rightOk st.right
  row : st.outerNeedNew = false → st.outerIsEnd = false → leftRow st.left st.outResultRow

/-- The first half of the loop: behind it there is a left row in hand, or none is left. -/
theorem outerRow_keeps (hleft : Keeps left leftOk leftRow)
    (hreScan : ∀ r r', rightOk r → reScan r = some r' → rightOk r') {fuel : Nat}
    {st st' : NestLoopState L R}
    (h : st.Ok leftOk rightOk leftRow) (hrow : outerRow left reScan fuel st = some st') :
    st'.Ok leftOk rightOk leftRow ∧ st'.outerNeedNew = false := by
  rw [outerRow] at hrow
  split at hrow
  · split at hrow
    · cases hrow
    · rename_i l hnext
      cases hrow
      have hl := (hleft fuel st.left none l h.left hnext).1
      exact ⟨⟨hl, h.right, fun _ hend => absurd hend (by simp)⟩, rfl⟩
    · rename_i row l hnext
      obtain ⟨r, hr, rfl⟩ := Option.map_eq_some_iff.mp hrow
      obtain ⟨hl, hok⟩ := hleft fuel st.left (some row) l h.left hnext
      exact ⟨⟨hl, hreScan _ r h.right hr, fun _ _ => hok row rfl⟩, rfl⟩
  · rename_i hneed
    cases hrow
    exact ⟨h, by simpa using hneed⟩

theorem execNestLoopScan_keeps (hleft : Keeps left leftOk leftRow)
    (hright : Keeps right rightOk rightRow)
    (hreScan : ∀ r r', rightOk r → reScan r = some r' → rightOk r') :
    Keeps (execNestLoopScan left right reScan) (NestLoopState.Ok leftOk rightOk leftRow)
      fun st row => ∃ a b, leftRow st.left a ∧ rightRow st.right b ∧
        row = execMergeRowData a b := by
  intro fuel
  induction fuel with
  | zero => intro st a st' _ h; cases h
  | succ fuel ih =>
    intro st a st' hst h
    rw [execNestLoopScan] at h
    split at h
    · cases h
      exact ⟨hst, by simp⟩
    · split at h
      · cases h
      · rename_i mid hrow
        obtain ⟨hmid, hneed⟩ := outerRow_keeps hleft hreScan hst hrow
        split at h
        · cases h
          exact ⟨hmid, by simp⟩
        · rename_i hend
          split at h
          · split at h
            · cases h
            · rename_i r hnext
              have hr := (hright fuel mid.right none r hmid.right hnext).1
              refine ih _ a st' ?_ h
              exact ⟨hmid.left, hr, fun hneed => absurd hneed (by simp)⟩
            · rename_i row r hnext
              obtain ⟨hr, hok⟩ := hright fuel mid.right (some row) r hmid.right hnext
              cases h
              refine ⟨⟨hmid.left, hr, hmid.row⟩, ?_⟩
              intro joinRow hjoin
              cases hjoin
              exact ⟨_, row, hmid.row hneed (by simpa using hend), hok row rfl, rfl⟩
          · exact ih mid a st' hmid h

end Loop

/-- The scan has a position, with the columns of its node. -/
def Positioned (node : SeqScan) (scanPostionInfo : Option ScanPageInfo) : Prop :=
  ∃ info, scanPostionInfo = some info ∧ info.colindexList = node.colindexList

/-- A part for each scan, with the columns that it reads, and each scan with a position. -/
structure Plan.RowOk (plan : Plan) (planState : plan.State) (joinRow : JoinRow) : Prop where
  parts : List.Forall₂ (fun node rowData => rowData.length = node.colindexList.length)
    plan.scanNodes joinRow
  positions : List.Forall₂ Positioned plan.scanNodes (plan.scanStates planState)

/-- The position of a scan, if it has one, is well. -/
def PositionOk (node : SeqScan) (scanPostionInfo : Option ScanPageInfo) : Prop :=
  ∀ info, scanPostionInfo = some info → info.Shaped node.colindexList

/-- The scans are well, and so are the left rows in hand. -/
def Plan.StateOk : (plan : Plan) → plan.State → Prop
  | .seqScan node => PositionOk node
  | .nestLoop leftplan rightplan =>
    NestLoopState.Ok leftplan.StateOk rightplan.StateOk leftplan.RowOk

theorem Plan.StateOk.reScan : (plan : Plan) → (planState planState' : plan.State) →
    plan.StateOk planState →
    execNodeReScan plan planState = some planState' → plan.StateOk planState'
  | .seqScan _, _, _, h, hrescan => by
    obtain ⟨info, hsome, rfl⟩ := Option.map_eq_some_iff.mp hrescan
    have hinfo := h info hsome
    rintro _ ⟨⟩
    exact ⟨hinfo.columns, hinfo.offsets, .inl rfl⟩
  | .nestLoop _ _, _, _, h, hrescan => by
    cases hrescan
    exact h

/-- The node keeps its state, and gives rows with all parts. -/
theorem execNodeProc_keeps (curr : Nat) (snapshot : SnapShotInfo) (plan : Plan) :
    Keeps (execNodeProc curr snapshot plan) plan.StateOk plan.RowOk := by
  induction plan with
  | seqScan node =>
    intro fuel scanPostionInfo a last h hnext
    cases scanPostionInfo with
    | none =>
      cases hnext
      exact ⟨h, by simp⟩
    | some info =>
      obtain ⟨⟨row, info'⟩, hscan, heq⟩ := Option.map_eq_some_iff.mp hnext
      cases heq
      obtain ⟨h', hlen⟩ := ScanPageInfo.Shaped.seqscanLoop (h info rfl) hscan
      refine ⟨?_, fun joinRow hrow => ?_⟩
      · rintro _ ⟨⟩
        exact h'
      · obtain ⟨cols, hcols, rfl⟩ := Option.map_eq_some_iff.mp hrow
        exact ⟨.cons (hlen cols hcols) .nil, .cons ⟨info', rfl, h'.columns⟩ .nil⟩
  | nestLoop leftplan rightplan ihl ihr =>
    intro fuel st a st' h hnext
    obtain ⟨h', hrow⟩ :=
      execNestLoopScan_keeps ihl ihr (Plan.StateOk.reScan rightplan) fuel st a st' h hnext
    refine ⟨h', fun joinRow hjoin => ?_⟩
    obtain ⟨a, b, ha, hb, rfl⟩ := hrow joinRow hjoin
    exact ⟨List.rel_append ha.parts hb.parts, List.rel_append ha.positions hb.positions⟩

theorem initExecNode_ok (plan : Plan) : plan.StateOk (initExecNode plan) := by
  induction plan with
  | seqScan node => exact fun info hinfo => initScanPositionInfo_shaped hinfo
  | nestLoop leftplan rightplan ihl ihr =>
    exact ⟨ihl, ihr, fun hneed => absurd hneed (by simp [initExecNode])⟩

/-! ## Rows as they go up -/

/-- The row stands for the row of the join: table by table, with the columns of the scan. -/
inductive RowStands : List TableScan → JoinRow → ScanTableRowData → Prop
  | nil : RowStands [] [] []
  | cons {scan : TableScan} {scans : List TableScan}
      {rowData : List RowColumnData} {joinRow : JoinRow}
      {row : ScanTableRowData} {info : ScanPageInfo} :
        info.colindexList = scan.node.colindexList →
      rowData.length = scan.node.colindexList.length → RowStands scans joinRow row →
      RowStands (scan :: scans) (rowData :: joinRow) (scan.position info rowData :: row)

/-- The column of a row of the join, which the scan of that number reads. -/
def joinColumn (scans : List TableScan) (joinRow : JoinRow)
    (rindex attrIndex : Nat) : Option RowColumnData := do
  let (scan, rowData) ← (scans.zip joinRow).find? fun part => part.1.rindex = rindex
  let index ← scan.node.colindexList.idxOf? attrIndex
  rowData[index]?

/-- The scan of that number reads the column. -/
def ScansColumn (scans : List TableScan) (rindex attrIndex : Nat) : Prop :=
  (∃ scan ∈ scans, scan.rindex = rindex) ∧ ∀ scan ∈ scans, scan.rindex = rindex →
    attrIndex ∈ scan.node.colindexList

instance (scans : List TableScan) (rindex attrIndex : Nat) :
    Decidable (ScansColumn scans rindex attrIndex) :=
  inferInstanceAs (Decidable (_ ∧ _))

section Row

variable {scans : List TableScan} {joinRow : JoinRow} {row : ScanTableRowData}
  {rindex attrIndex : Nat}

theorem rowStands_scanTableRow {infos : List (Option ScanPageInfo)}
    (hinfos : List.Forall₂ Positioned (scans.map TableScan.node) infos)
    (hrow : List.Forall₂ (fun node rowData => List.length rowData =
      (SeqScan.colindexList node).length)
      (scans.map TableScan.node) joinRow) :
      RowStands scans joinRow (scanTableRow scans infos joinRow) := by
  induction scans generalizing infos joinRow with
  | nil =>
    cases hinfos
    cases hrow
    exact .nil
  | cons scan scans ih =>
    cases hinfos with
    | cons hinfo hinfos =>
      obtain ⟨info, rfl, hcols⟩ := hinfo
      cases hrow with
      | cons hlen hrow => exact .cons hcols hlen (ih hinfos hrow)

theorem ScansColumn.tail {scan : TableScan} (h : ScansColumn (scan :: scans) rindex attrIndex)
    (hne : scan.rindex ≠ rindex) :
    ScansColumn scans rindex attrIndex := by
  obtain ⟨⟨found, hfound, hindex⟩, hall⟩ := h
  refine ⟨⟨found, (List.mem_cons.mp hfound).resolve_left fun heq => hne (heq ▸ hindex),
    hindex⟩, ?_⟩
  exact fun scan hscan => hall scan (List.mem_cons_of_mem _ hscan)

/-- A column that a scan reads is there in the row. -/
theorem RowStands.column (h : RowStands scans joinRow row)
    (hscan : ScansColumn scans rindex attrIndex) :
    ∃ pos column, row.find? (·.rindex = rindex) = some pos ∧
      getColRowDataEx pos.toTableRowPosition attrIndex = some column ∧
      joinColumn scans joinRow rindex attrIndex = some column := by
  induction h with
  | nil =>
    obtain ⟨⟨scan, hscan, -⟩, -⟩ := hscan
    cases hscan
  | @cons scan scans rowData joinRow row info hcols hlen _ ih =>
    by_cases heq : scan.rindex = rindex
    · have hmem := hscan.2 scan List.mem_cons_self heq
      obtain ⟨index, hindex⟩ := Option.isSome_iff_exists.mp (List.isSome_idxOf?.mpr hmem)
      have hlt : index < rowData.length := by
        rw [hlen]
        exact (List.idxOf?_eq_some_iff.mp hindex).1
      refine ⟨scan.position info rowData, rowData[index],
        List.find?_cons_of_pos (by simp [TableScan.position, heq]), ?_, ?_⟩
      · simp [getColRowDataEx, TableScan.position, hcols, hindex,
          List.getElem?_eq_getElem hlt]
      · simp [joinColumn, heq, hindex, List.getElem?_eq_getElem hlt]
    · obtain ⟨pos, column, hfind, hget, hjoin⟩ := ih (hscan.tail heq)
      refine ⟨pos, column, ?_, hget, ?_⟩
      · rw [List.find?_cons_of_neg (by simp [TableScan.position, heq]), hfind]
      · simpa [joinColumn, heq] using hjoin

theorem RowStands.tblInfo (h : RowStands scans joinRow row) {pos : TableRowDataPosition}
    (hpos : pos ∈ row) :
    ∃ scan ∈ scans, pos.rindex = scan.rindex ∧ pos.tblInfo = scan.tblInfo := by
  induction h with
  | nil => cases hpos
  | @cons scan scans rowData joinRow row info _ _ _ ih =>
    rcases List.mem_cons.mp hpos with rfl | hpos
    · exact ⟨scan, List.mem_cons_self, rfl, rfl⟩
    · obtain ⟨found, hfound, hsame⟩ := ih hpos
      exact ⟨found, List.mem_cons_of_mem _ hfound, hsame⟩

end Row

/-- The scans are those of the range table. -/
structure SelectPlan.Ok (plan : SelectPlan) : Prop where
  numbered : Numbered plan.rtable
  entries : ∀ scan ∈ plan.tables, ∃ rte,
    getCellValueByIndex plan.rtable scan.rindex = some rte ∧
    rte.tblInfo = some scan.tblInfo

namespace SelectPlan

variable {plan : SelectPlan} {joinRow : JoinRow} {row : ScanTableRowData}
  {rindex attrIndex : Nat}

/-- The entry of a scan that reads a column. -/
theorem Ok.entry (h : plan.Ok) (hscan : ScansColumn plan.tables rindex attrIndex) :
    ∃ rte, getCellValueByIndex plan.rtable rindex = some rte ∧ rte.rindex = rindex ∧
      ∀ scan ∈ plan.tables, scan.rindex = rindex → rte.tblInfo = some scan.tblInfo := by
  obtain ⟨⟨scan, hmem, rfl⟩, -⟩ := hscan
  obtain ⟨rte, hrte, -⟩ := h.entries scan hmem
  refine ⟨rte, hrte, h.numbered _ _ hrte, fun scan' hmem' heq => ?_⟩
  obtain ⟨rte', hrte', htbl⟩ := h.entries scan' hmem'
  rw [heq, hrte, Option.some.injEq] at hrte'
  rw [hrte', htbl]

theorem Ok.readColumn (h : plan.Ok) (hstands : RowStands plan.tables joinRow row)
    (hscan : ScansColumn plan.tables rindex attrIndex) :
    readColumn plan.rtable (row.map (·.toTableRowPosition)) (rindex, attrIndex) =
      joinColumn plan.tables joinRow rindex attrIndex := by
  obtain ⟨rte, hrte, hindex, -⟩ := h.entry hscan
  obtain ⟨pos, column, hfind, hget, hjoin⟩ := hstands.column hscan
  have hpos : getTblRowDataPosition (row.map (·.toTableRowPosition)) rindex =
      some pos.toTableRowPosition := by
    rw [getTblRowDataPosition, List.find?_map]
    simpa using ⟨pos, hfind, rfl⟩
  simp [Toadb.readColumn, hrte, hindex, hpos, hget, hjoin]

theorem Ok.targetColumn (h : plan.Ok) (hstands : RowStands plan.tables joinRow row)
    {target : TargetEntry}
    (hscan : ScansColumn plan.tables target.rindex target.attrIndex) :
    targetColumn plan.rtable row target =
      joinColumn plan.tables joinRow target.rindex target.attrIndex := by
  obtain ⟨rte, hrte, hindex, htbl⟩ := h.entry hscan
  obtain ⟨pos, column, hfind, hget, hjoin⟩ := hstands.column hscan
  obtain ⟨scan, hmem, hscanned⟩ := hscan.1
  have hfind' : row.getTblRowDataPosition rte.tblInfo rte.rindex = some pos := by
    have hsame : ∀ pos' ∈ row, (pos'.tblInfo = scan.tblInfo && pos'.rindex = rte.rindex) =
        decide (pos'.rindex = target.rindex) := by
      intro pos' hpos'
      obtain ⟨scan', hmem', hindex', htbl'⟩ := hstands.tblInfo hpos'
      rw [hindex]
      by_cases heq : pos'.rindex = target.rindex
      · have hscan' := htbl scan' hmem' (hindex'.symm.trans heq)
        rw [htbl scan hmem hscanned, Option.some.injEq] at hscan'
        simp [heq, htbl', hscan']
      · simp [heq]
    rw [htbl scan hmem hscanned]
    exact (List.find?_congr hsame).trans hfind
  simp [Toadb.targetColumn, hrte, hfind', hget, hjoin]

end SelectPlan

/-! ## The condition -/

section Columns

variable {V : Type} {ops : ExprOps V} {rtable : List RangTblEntry}
  {row row' : Nat → Nat → V} {node : ExprNode}

/-- The rows agree in the columns that the expression names. -/
def AgreeOn (rtable : List RangTblEntry) (row row' : Nat → Nat → V)
    (node : ExprNode) : Prop :=
  ∀ columnRef ∈ node.columnRefs, ∀ found, searchColumDef columnRef rtable = some found →
    row found.2.1.rindex found.2.2.attrIndex = row' found.2.1.rindex found.2.2.attrIndex

/-- An expression depends on the columns that it names. -/
theorem evalExpr_congr (h : AgreeOn rtable row row' node) :
    evalExpr ops rtable row node = evalExpr ops rtable row' node := by
  induction node with
  | null | constValue | functionClause => rfl
  | columnRef columnRef =>
    rw [evalExpr, evalExpr]
    cases hfound : searchColumDef columnRef rtable with
    | none => rfl
    | some found => exact congrArg some (h columnRef List.mem_cons_self found hfound)
  | aExpr op lexpr rexpr ihl ihr =>
    rw [evalExpr, evalExpr, ihl fun c hc => h c (List.mem_append_left _ hc),
      ihr fun c hc => h c (List.mem_append_right _ hc)]
  | boolExpr op first second ihl ihr =>
    rw [evalExpr, evalExpr, ihl fun c hc => h c (List.mem_append_left _ hc),
      ihr fun c hc => h c (List.mem_append_right _ hc)]
  | notExpr arg ih => rw [evalExpr, evalExpr, ih h]

theorem OperandsKept.congr {op : ExprOpType} {lexpr rexpr : ExprNode}
    (hl : AgreeOn rtable row row' lexpr)
    (hr : AgreeOn rtable row row' rexpr) (h : OperandsKept ops rtable row op lexpr rexpr) :
    OperandsKept ops rtable row' op lexpr rexpr := by
  cases rexpr with
  | columnRef right =>
    cases lexpr with
    | columnRef left => exact h
    | _ =>
      intro leftValue rightValue hleft hright
      rw [← evalExpr_congr hl] at hleft
      rw [← evalExpr_congr hr] at hright
      exact h leftValue rightValue hleft hright
  | _ => cases lexpr <;> trivial

theorem MeaningKept.congr (hrow : AgreeOn rtable row row' node)
    (h : MeaningKept ops rtable row node) :
    MeaningKept ops rtable row' node := by
  induction node with
  | null | columnRef | functionClause | notExpr => exact h.elim
  | constValue => trivial
  | boolExpr boolop first second ihl ihr =>
    exact ⟨ihl (fun c hc => hrow c (List.mem_append_left _ hc)) h.1,
      ihr (fun c hc => hrow c (List.mem_append_right _ hc)) h.2⟩
  | aExpr op lexpr rexpr ihl ihr =>
    have hl : AgreeOn rtable row row' lexpr := fun c hc => hrow c (List.mem_append_left _ hc)
    have hr : AgreeOn rtable row row' rexpr := fun c hc => hrow c (List.mem_append_right _ hc)
    exact ⟨h.1.imp_right (ihl hl), h.2.1.imp_right (ihr hr), h.2.2.congr hl hr⟩

variable (ops rtable row) in
/-- Every condition has a value for the row, and the rewriting keeps its meaning there. -/
structure WhereOk (whereList : List ExprNode) : Prop where
  kept : ∀ node ∈ whereList, MeaningKept ops rtable row node
  value : (whereList.mapM (evalExpr ops rtable row)).isSome

end Columns

theorem mapM_congr_mem {α β : Type} {f g : α → Option β} {as : List α}
    (h : ∀ a ∈ as, f a = g a) :
    as.mapM f = as.mapM g := by
  induction as with
  | nil => rfl
  | cons a as ih =>
    rw [List.forall_mem_cons] at h
    rw [List.mapM_cons, List.mapM_cons, h.1, ih h.2]

namespace SelectPlan

section

variable {V : Type} (ops : ExprOps V) (decode : RowColumnData → V) (plan : SelectPlan)

/-- The values of a row of the join. -/
def joinValues (joinRow : JoinRow) (rindex attrIndex : Nat) : V :=
  match joinColumn plan.tables joinRow rindex attrIndex with
  | some column => decode column
  | none => ops.zero

/-- Does the row satisfy one of the conditions, if there is any? -/
def holds (whereList : List ExprNode) (joinRow : JoinRow) : Option Bool :=
  (whereList.mapM (evalExpr ops plan.rtable (plan.joinValues ops decode joinRow))).map
    fun values =>
    values.isEmpty || values.any ops.getDataBool

/-- The targets of a row. -/
def resultRow (joinRow : JoinRow) : TableRowData :=
  formCol2RowDataEx (plan.targetList.filterMap fun target =>
    joinColumn plan.tables joinRow target.rindex target.attrIndex)
    initProjectData

/-- The result of the SELECT on rows of the join: the targets of those that satisfy the WHERE
clause. -/
def resultRows (whereList : List ExprNode) (joinRows : List JoinRow) : List TableRowData :=
  (joinRows.filter fun joinRow => plan.holds ops decode whereList joinRow =
    some true).map plan.resultRow

/-- The plan has what the rewriting makes of the conditions. -/
def SelectsWhere (whereList : List ExprNode) : Prop :=
  ∃ st joinTree st', st.rtable.map RangTblEntry.key = plan.rtable.map RangTblEntry.key ∧
    queryJoinTransform whereList st = some (joinTree, st') ∧
      plan.qual = if joinTree = [] then none else some joinTree

/-- The scans read the columns of the targets and of the conditions. -/
structure ReadsColumns (whereList : List ExprNode) : Prop where
  targets : ∀ target ∈ plan.targetList, ScansColumn plan.tables target.rindex target.attrIndex
  conditions : ∀ node ∈ whereList, ∀ columnRef ∈ node.columnRefs, ∀ found,
    searchColumDef columnRef plan.rtable = some found →
      ScansColumn plan.tables found.2.1.rindex found.2.2.attrIndex

end

variable {V : Type} {ops : ExprOps V} {decode : RowColumnData → V}
  {plan : SelectPlan} {joinRow : JoinRow}
  {row : ScanTableRowData} {whereList : List ExprNode}

/-- Every condition gives a node with its value. -/
theorem queryJoinTransform_values {rtable : List RangTblEntry} {row : Nat → Nat → V}
    (hn : Numbered rtable)
    {values : List V} {st st' : QueryState} {joinTree : List QualNode}
    (hkept : ∀ node ∈ whereList, MeaningKept ops rtable row node)
    (hst : st.rtable.map RangTblEntry.key = rtable.map RangTblEntry.key)
    (hrun : queryJoinTransform whereList st = some (joinTree, st'))
    (hvalues : whereList.mapM (evalExpr ops rtable row) = some values) :
    List.Forall₂ (HasValue ops rtable row) joinTree values := by
  induction whereList generalizing values st st' joinTree with
  | nil =>
    cases hrun
    cases hvalues
    exact .nil
  | cons node whereList ih =>
    simp only [List.mapM_cons, Option.bind_eq_bind, Option.bind_eq_some_iff, Option.pure_def,
      Option.some.injEq] at hvalues
    obtain ⟨value, hvalue, rest, hrest, rfl⟩ := hvalues
    obtain ⟨hfirst, hkept⟩ := List.forall_mem_cons.mp hkept
    obtain ⟨out, st₁, hnode, hst₁, hout⟩ :=
      qualNodeProcess_value (hn.numberedFor node) hfirst hst hvalue
    simp only [queryJoinTransform, hnode, Option.bind_eq_bind, Option.bind_some,
      Option.bind_eq_some_iff, Prod.exists] at hrun
    obtain ⟨joinTree', st₂, hrun', heq⟩ := hrun
    have hnodes := ih hkept hst₁ hrun' hrest
    have hne := hout.not_null
    cases out with
    | null => exact absurd rfl hne
    | _ =>
      cases heq
      exact .cons hout hnodes

/-- The loop over nodes with values. -/
theorem execSelectQuals_values {rtable : List RangTblEntry} {row : Nat → Nat → V}
    {qual : List QualNode} {values : List V}
    (h : List.Forall₂ (HasValue ops rtable row) qual values) (cell : V) :
    (execSelectQuals ops rtable row qual cell).1 = values.any ops.getDataBool := by
  induction h generalizing cell with
  | nil => rfl
  | @cons node value qual values hnode _ ih =>
    simp only [execSelectQuals, hnode.value_eq 0 cell, ExprOps.isTrue, List.any_cons]
    cases ops.getDataBool value with
    | true => rfl
    | false => exact ih value

theorem Ok.rowValues (h : plan.Ok) (hstands : RowStands plan.tables joinRow row)
    {rindex attrIndex : Nat} (hscan : ScansColumn plan.tables rindex attrIndex) :
    rowValues ops decode plan.rtable row rindex attrIndex =
      plan.joinValues ops decode joinRow rindex attrIndex := by
  rw [Toadb.rowValues, h.readColumn hstands hscan]
  rfl

/-- The node selects a row exactly when the WHERE clause is true of the values of its
columns. -/
theorem SelectsWhere.selectsRow (h : plan.SelectsWhere whereList) (hn : Numbered plan.rtable)
    {value : Nat → Nat → V} (hvalues : ∀ node ∈ whereList,
      AgreeOn plan.rtable value (Toadb.rowValues ops decode plan.rtable row) node)
    (hkept : ∀ node ∈ whereList, MeaningKept ops plan.rtable value node) {b : Bool}
    (hb : (whereList.mapM (evalExpr ops plan.rtable value)).map (fun values =>
      values.isEmpty || values.any ops.getDataBool) = some b) (cell : V) :
    (Toadb.selectsRow ops decode plan.rtable plan.qual row cell).1 = b := by
  obtain ⟨st, joinTree, st', hst, hrun, hqual⟩ := h
  obtain ⟨values, heval, rfl⟩ := Option.map_eq_some_iff.mp hb
  have hread :
      whereList.mapM (evalExpr ops plan.rtable (Toadb.rowValues ops decode plan.rtable row)) =
      some values := by
    rw [← heval]
    exact mapM_congr_mem fun node hnode => (evalExpr_congr (hvalues node hnode)).symm
  have hkept' := fun node hnode => (hkept node hnode).congr (hvalues node hnode)
  have hnodes := queryJoinTransform_values hn hkept' hst hrun hread
  simp only [Toadb.selectsRow, hqual]
  by_cases hnone : joinTree = []
  · subst hnone
    cases hnodes
    rfl
  · have hvaluesNe : values ≠ [] := by
      rintro rfl
      cases hnodes
      exact hnone rfl
    simp [hnone, execSelectQuals_values hnodes, hvaluesNe]

theorem Ok.selectsRow (h : plan.Ok) (hwhere : plan.SelectsWhere whereList)
    (hreads : plan.ReadsColumns whereList) (hstands : RowStands plan.tables joinRow row)
    (hkept : ∀ node ∈ whereList,
      MeaningKept ops plan.rtable (plan.joinValues ops decode joinRow) node) {b : Bool}
    (hb : plan.holds ops decode whereList joinRow = some b) (cell : V) :
    (selectsRow ops decode plan.rtable plan.qual row cell).1 = b :=
  hwhere.selectsRow h.numbered (fun node hnode columnRef hmem found hfound =>
    (h.rowValues hstands (hreads.conditions node hnode columnRef hmem found hfound)).symm)
      hkept hb cell

/-! ## The targets -/

theorem Ok.targetColumns (h : plan.Ok) (hstands : RowStands plan.tables joinRow row)
    {targetList : List TargetEntry}
    (hscan : ∀ target ∈ targetList, ScansColumn plan.tables target.rindex target.attrIndex) :
    targetColumns plan.rtable row targetList = targetList.filterMap (fun target =>
        joinColumn plan.tables joinRow target.rindex target.attrIndex) ∧
      (targetColumns plan.rtable row targetList).length = targetList.length := by
  induction targetList with
  | nil => exact ⟨rfl, rfl⟩
  | cons target targetList ih =>
    obtain ⟨hfirst, hrest⟩ := List.forall_mem_cons.mp hscan
    obtain ⟨heq, hlen⟩ := ih hrest
    obtain ⟨-, column, -, -, hjoin⟩ := hstands.column hfirst
    have hcolumn := (h.targetColumn hstands hfirst).trans hjoin
    simp [Toadb.targetColumns, hcolumn, hjoin, heq, ← hlen]

/-- The row of the node was not filled, or there are targets. -/
def Fresh (plan : SelectPlan) (pjData : TableRowData) : Prop :=
  plan.targetList = [] → pjData = initProjectData

theorem Ok.projectRow (h : plan.Ok) (hreads : plan.ReadsColumns whereList)
    (hstands : RowStands plan.tables joinRow row)
    {pjData : TableRowData} (hfresh : plan.Fresh pjData) :
    projectRow plan.targetList plan.rtable row pjData =
      (plan.resultRow joinRow, plan.resultRow joinRow) ∧
      plan.Fresh (plan.resultRow joinRow) := by
  obtain ⟨heq, hlen⟩ := h.targetColumns hstands hreads.targets
  have hnil : plan.targetList = [] → plan.resultRow joinRow = initProjectData := by
    intro hnone
    rw [resultRow, hnone]
    rfl
  refine ⟨?_, hnil⟩
  simp only [Toadb.projectRow, TableRowData.fetchTargetColumns, hlen, if_true,
    Prod.mk.injEq, and_self]
  by_cases hnone : plan.targetList = []
  · rw [hnil hnone, hfresh hnone, hnone]
    rfl
  · have hcols : Toadb.targetColumns plan.rtable row plan.targetList ≠ [] := by
      rw [← List.length_pos_iff, hlen]
      exact List.length_pos_iff.mpr hnone
    rw [resultRow, ← heq, formCol2RowDataEx, if_neg hcols, formCol2RowDataEx, if_neg hcols]

/-! ## The result -/

/-- What the scans hand out goes up as rows that stand for it. -/
theorem scanNodeProc_yields {curr : Nat} {snapshot : SnapShotInfo} {joinRows : List JoinRow}
    (hyields : PlanYields curr snapshot plan.subplan joinRows) :
    ∃ last rows, List.Forall₂ (RowStands plan.tables) joinRows rows ∧
      Yields (scanNodeProc curr snapshot plan.tables plan.subplan)
        (initExecNode plan.subplan) rows last := by
  obtain ⟨last, hyields⟩ := hyields
  obtain ⟨rows, hrows, hup⟩ := hyields.attach (fun planState joinRow =>
    scanTableRow plan.tables (plan.subplan.scanStates planState) joinRow)
    (execNodeProc_keeps curr snapshot plan.subplan) (initExecNode_ok plan.subplan)
  refine ⟨last, rows, hrows.imp ?_, hup⟩
  rintro joinRow row ⟨planState, -, hrow, rfl⟩
  have hparts := hrow.parts
  have hpositions := hrow.positions
  rw [plan.scanNodes_eq] at hparts hpositions
  exact rowStands_scanTableRow hpositions hparts

theorem map_filter_of_forall₂ {α β γ : Type} {R : α → β → Prop} {as : List α} {bs : List β}
    {p : α → Bool} {q : β → Bool}
    {f : α → γ} {g : β → γ} (h : List.Forall₂ R as bs) (hp : ∀ a b, R a b → q b = p a)
    (hf : ∀ a b, R a b → g b = f a) :
    (bs.filter q).map g = (as.filter p).map f := by
  induction h with
  | nil => rfl
  | @cons a b as bs hab _ ih =>
    rw [List.filter_cons, List.filter_cons, hp a b hab]
    cases p a with
    | true => simp [hf a b hab, ih]
    | false => simpa using ih

/-- A SELECT sends the result on the rows that its scans and nested loops hand out. -/
theorem Ok.exec (h : plan.Ok) (hwhere : plan.SelectsWhere whereList)
    (hreads : plan.ReadsColumns whereList) {curr : Nat}
    {snapshot : SnapShotInfo} {joinRows : List JoinRow}
    (hyields : PlanYields curr snapshot plan.subplan joinRows) (hok : ∀ joinRow ∈ joinRows,
      WhereOk ops plan.rtable (plan.joinValues ops decode joinRow) whereList) {Portal : Type}
    (sendToPort : TableRowData → Portal → Option (Int × Portal)) (portal : Portal) :
    ∃ n, ∀ fuel, n ≤ fuel → plan.exec ops decode sendToPort curr snapshot portal fuel =
      (pour (sendRow sendToPort) (plan.resultRows ops decode whereList joinRows) portal).map
        fun (ok, portal) =>
        (if ok then some (plan.resultRows ops decode whereList joinRows).length
          else none, portal) := by
  obtain ⟨last, rows, hstands, hup⟩ := plan.scanNodeProc_yields hyields
  replace hstands : List.Forall₂ (fun joinRow row => joinRow ∈ joinRows ∧
    RowStands plan.tables joinRow row) joinRows rows :=
    (List.forall₂_and_left _ _).mpr ⟨fun _ hmem => hmem, hstands⟩
  let selected (row : ScanTableRowData) : Bool :=
    (Toadb.selectsRow ops decode plan.rtable plan.qual row ops.zero).1
  let projected (row : ScanTableRowData) : TableRowData :=
    (Toadb.projectRow plan.targetList plan.rtable row initProjectData).1
  -- what the two nodes say of a row does not depend on what is left in their memories
  have hselects : ∀ joinRow row, joinRow ∈ joinRows ∧
      RowStands plan.tables joinRow row → ∀ cell,
      (Toadb.selectsRow ops decode plan.rtable plan.qual row cell).1 =
        decide (plan.holds ops decode whereList joinRow = some true) := by
    rintro joinRow row ⟨hmem, hrow⟩ cell
    have hwhereOk := hok joinRow hmem
    obtain ⟨values, hvalues⟩ := Option.isSome_iff_exists.mp hwhereOk.value
    have hb : plan.holds ops decode whereList joinRow =
        some (values.isEmpty || values.any ops.getDataBool) := by
      rw [holds, hvalues]
      rfl
    rw [h.selectsRow hwhere hreads hrow hwhereOk.kept hb, hb]
    cases values.isEmpty || values.any ops.getDataBool <;> rfl
  have hprojects : ∀ joinRow row, joinRow ∈ joinRows ∧ RowStands plan.tables joinRow row →
      ∀ pjData, plan.Fresh pjData →
      Toadb.projectRow plan.targetList plan.rtable row pjData =
        (plan.resultRow joinRow, plan.resultRow joinRow) ∧
        plan.Fresh (plan.resultRow joinRow) :=
          fun joinRow row hrow _ => h.projectRow hreads hrow.2
  have hfresh : plan.Fresh initProjectData := fun _ => rfl
  have hselected : ∀ row ∈ rows, ∀ cell,
      (Toadb.selectsRow ops decode plan.rtable plan.qual row cell).1 = selected row := by
    intro row hrow cell
    obtain ⟨joinRow, hstood⟩ := forall₂_exists_right hstands row hrow
    exact (hselects joinRow row hstood cell).trans (hselects joinRow row hstood ops.zero).symm
  obtain ⟨cell, hfiltered⟩ := hup.filter hselected ops.zero
  have hprojected : ∀ row ∈ rows.filter selected, ∀ pjData, plan.Fresh pjData →
      (Toadb.projectRow plan.targetList plan.rtable row pjData).1 = projected row ∧
        plan.Fresh (Toadb.projectRow plan.targetList plan.rtable row pjData).2 := by
    intro row hrow pjData hpj
    obtain ⟨joinRow, hstood⟩ := forall₂_exists_right hstands row (List.mem_of_mem_filter hrow)
    obtain ⟨heq, hkept⟩ := hprojects joinRow row hstood pjData hpj
    rw [heq]
    exact ⟨(congrArg Prod.fst (hprojects joinRow row hstood initProjectData hfresh).1).symm,
      hkept⟩
  obtain ⟨pjData, hresult⟩ := hfiltered.through hprojected hfresh
  have hrows : (rows.filter selected).map projected =
      plan.resultRows ops decode whereList joinRows :=
    map_filter_of_forall₂ hstands (fun joinRow row hrow => hselects joinRow row hrow ops.zero)
      fun joinRow row hrow =>
        congrArg Prod.fst (hprojects joinRow row hrow initProjectData hfresh).1
  rw [hrows] at hresult
  obtain ⟨n, hn⟩ := hresult.drain portal 0
  refine ⟨n, fun fuel hfuel => ?_⟩
  have hquery := hn fuel hfuel
  rw [Nat.zero_add] at hquery
  exact hquery

end SelectPlan

end Toadb
