/-
Toadb.Executor.SelectStmtTheorems — a SELECT statement, from its parse tree to the rows that
are sent.

The plan of a query is left-deep over the entries of its range table
(`selectPlan_ok`, `selectPlan_leftDeep`), so that its nested loops hand out the
product of the tables where they are complete, and the nodes above send what the
statement asks for (`select_sends`).

A scan of one table needs no such condition; what it selects is known of any
history of the table (`select_after_history`).
-/
import Toadb.Executor.ExecSelectTheorems
import Toadb.Executor.TableHistoryTheorems
import Toadb.Plan.PlanTheorems

namespace Toadb

open Cursor VersionedTable

/-! ## The plan of a query -/

section Plans

variable {storage : Nat → TableFile × GroupFork} {rtable rtable' : List RangTblEntry}

theorem processScanNode_keys (rindex : Nat) (targetList : List TargetEntry)
    (rtable : List RangTblEntry) :
    (processScanNode rindex targetList rtable).2.map RangTblEntry.key =
      rtable.map RangTblEntry.key := by
  rw [processScanNode]
  cases hget : getCellValueByIndex rtable rindex with
  | none => rfl
  | some rte =>
    rw [getCellValueByIndex] at hget
    split at hget
    · cases hget
    · exact keys_set hget rfl

theorem processJoinTree_keys (tree : JoinTree) (rtable : List RangTblEntry) :
    (processJoinTree tree rtable).2.map RangTblEntry.key = rtable.map RangTblEntry.key := by
  induction tree generalizing rtable with
  | scan rindex rtNum targetList => exact processScanNode_keys rindex targetList rtable
  | join joinOp isJoin rtNum targetList lefttree righttree ihl ihr =>
    exact (ihr _).trans (ihl _)

theorem processTableScan_keys (query : Query) :
    (processTableScan query).2.map RangTblEntry.key = query.rtable.map RangTblEntry.key := by
  rw [processTableScan]
  cases query.rtjoinTree with
  | none => rfl
  | some tree => exact processJoinTree_keys tree query.rtable

/-- The scan is that of an entry. -/
def OfEntry (storage : Nat → TableFile × GroupFork) (rtable : List RangTblEntry)
    (scan : TableScan) : Prop :=
  ∃ rte ∈ rtable, rte.tableScan storage = some scan

theorem RangTblEntry.tableScan_entry {rte : RangTblEntry} {scan : TableScan}
    (h : rte.tableScan storage = some scan) :
    scan.rindex = rte.rindex ∧ rte.tblInfo = some scan.tblInfo := by
  obtain ⟨tblInfo, htbl, hrest⟩ := Option.bind_eq_some_iff.mp h
  obtain ⟨colindexList, -, heq⟩ := Option.bind_eq_some_iff.mp hrest
  cases heq
  exact ⟨rfl, htbl⟩

theorem RangTblEntry.tableScan_node {rte : RangTblEntry} {scan : TableScan}
    (h : rte.tableScan storage = some scan) :
    scan.node = ⟨(storage rte.rindex).1, (storage rte.rindex).2, scan.tblInfo.column.length,
      scan.node.colindexList⟩ := by
  obtain ⟨tblInfo, -, hrest⟩ := Option.bind_eq_some_iff.mp h
  obtain ⟨colindexList, -, heq⟩ := Option.bind_eq_some_iff.mp hrest
  cases heq
  rfl

theorem leftDeep_snoc (node last : SeqScan) (nodes : List SeqScan) :
    leftDeep node (nodes ++ [last]) = .nestLoop (leftDeep node nodes) (.seqScan last) := by
  rw [leftDeep, List.foldl_append]
  rfl

/-- The scans of a left-deep plan node, opened. -/
theorem openScans_leftDeep {planNode : PlanNode} (hdeep : planNode.LeftDeep) {subplan : Plan}
    {tables : List TableScan} {hscans : subplan.scanNodes = tables.map TableScan.node}
    (h : planNode.openScans storage rtable = some ⟨(subplan, tables), hscans⟩) :
    (∀ scan ∈ tables, OfEntry storage rtable scan) ∧
      ∃ scan scans, tables = scan :: scans ∧
        subplan = leftDeep scan.node (scans.map TableScan.node) := by
  induction planNode generalizing subplan tables with
  | seqScan targetList rangTbl =>
    obtain ⟨scan, hscan, heq⟩ := Option.bind_eq_some_iff.mp h
    cases heq
    obtain ⟨rte, hrte, hopened⟩ := Option.bind_eq_some_iff.mp hscan
    obtain ⟨pos, -, hget⟩ := Option.bind_eq_some_iff.mp hrte
    exact ⟨List.forall_mem_singleton.mpr ⟨rte, List.mem_of_getElem? hget, hopened⟩, scan,
      [], rfl, rfl⟩
  | nestLoop mergeType isJoin rtNum targetList leftplan rightplan ihl ihr =>
    obtain ⟨hleft, rightTargets, rangTbl, rfl⟩ := hdeep
    obtain ⟨⟨⟨left, leftTables⟩, hleftScans⟩, hopenl, hrest⟩ := Option.bind_eq_some_iff.mp h
    obtain ⟨⟨⟨right, rightTables⟩, hrightScans⟩, hopenr, heq⟩ :=
      Option.bind_eq_some_iff.mp hrest
    cases heq
    obtain ⟨hofl, scan, scans, rfl, rfl⟩ := ihl hleft hopenl
    obtain ⟨last, hscan, heq⟩ := Option.bind_eq_some_iff.mp hopenr
    cases heq
    obtain ⟨hofr, -⟩ := ihr trivial hopenr
    refine ⟨List.forall_mem_append.mpr ⟨hofl, hofr⟩, scan, scans ++ [last], rfl, ?_⟩
    rw [List.map_append, List.map_singleton, leftDeep_snoc]

/-- What there is in the plan of a query. -/
structure PlanOf (storage : Nat → TableFile × GroupFork) (query : Query)
    (plan : SelectPlan) : Prop where
  keys : plan.rtable.map RangTblEntry.key = query.rtable.map RangTblEntry.key
  tables : ∀ scan ∈ plan.tables, OfEntry storage plan.rtable scan
  leftDeep : ∃ scan scans, plan.tables = scan :: scans ∧
    plan.subplan = leftDeep scan.node (scans.map TableScan.node)
  qual : plan.qual = if query.joinTree = [] then none else some query.joinTree
  targetList : plan.targetList = query.targetList

theorem selectPlan_planOf {query : Query} {plan : SelectPlan}
    (hplan : selectPlan storage query = some plan)
    (hdeep : ∀ planNode ∈ (processTableScan query).1, planNode.LeftDeep) :
    PlanOf storage query plan := by
  obtain ⟨⟨⟨subplan, tables⟩, hscans⟩, hopen, heq⟩ := Option.bind_eq_some_iff.mp hplan
  obtain ⟨planNode, hnode, hopen⟩ := Option.bind_eq_some_iff.mp hopen
  cases heq
  obtain ⟨htables, hleft⟩ := openScans_leftDeep (hdeep planNode hnode) hopen
  exact ⟨processTableScan_keys query, htables, hleft, rfl, rfl⟩

theorem PlanOf.ok {query : Query} {plan : SelectPlan} (h : PlanOf storage query plan)
    (hn : Numbered query.rtable) : plan.Ok := by
  have hnumbered := numbered_of_keys h.keys.symm hn
  refine ⟨hnumbered, fun scan hscan => ?_⟩
  obtain ⟨rte, hrte, hopened⟩ := h.tables scan hscan
  obtain ⟨hindex, htbl⟩ := RangTblEntry.tableScan_entry hopened
  exact ⟨rte, hindex ▸ getCellValueByIndex_rindex hnumbered hrte, htbl⟩

/-- The join tree of a numbered range table gives a left-deep plan node. -/
theorem processTableScan_leftDeep {query : Query} {st : QueryState} (hn : Numbered st.rtable)
    (hrtable : st.rtable ≠ []) (htree : query.rtjoinTree = (commonQueryTransform st).1)
    (hentries : query.rtable = (commonQueryTransform st).2.rtable) :
    ∀ planNode ∈ (processTableScan query).1, planNode.LeftDeep := by
  by_cases htargets : st.parentTargetList = []
  · have hnone : query.rtjoinTree = none := by
      rw [htree, commonQueryTransform, if_pos htargets]
    intro planNode hnode
    rw [processTableScan, hnone] at hnode
    cases hnode
  · obtain ⟨tree, hsome, hdeep, hleaves⟩ := commonQueryTransform_tree htargets hrtable
    have hlen : query.rtable.length = st.rtable.length := by
      rw [hentries, commonQueryTransform, if_neg htargets, List.length_map]
    have hbounds : ∀ rindex ∈ tree.leaves, 0 < rindex ∧ rindex ≤ query.rtable.length := by
      rw [hleaves, hlen, List.forall_mem_map]
      intro rte hrte
      have hget := getCellValueByIndex_rindex hn hrte
      rw [getCellValueByIndex] at hget
      split at hget
      · cases hget
      · have hlt := (List.getElem?_eq_some_iff.mp hget).1
        omega
    obtain ⟨planNode, rtable', hrun, -, hplan, -⟩ := processJoinTree_shape hdeep hbounds
    rw [processTableScan, htree, hsome, Option.toList_some, processQual_singleton, hrun]
    exact fun _ hnode => Option.mem_some.mp hnode ▸ hplan

/-- The entries of a query are numbered, its conditions are those of the statement, and its
join tree gives a left-deep plan node. -/
structure QueryWhere (whereList : List ExprNode) (query : Query) : Prop where
  numbered : Numbered query.rtable
  conditions : ∃ st st', st.rtable.map RangTblEntry.key = query.rtable.map RangTblEntry.key ∧
    queryJoinTransform whereList st = some (query.joinTree, st')
  leftDeep : ∀ planNode ∈ (processTableScan query).1, planNode.LeftDeep

theorem transformQual_where {st : QueryState} {commandType : CmdType}
    {whereList : List ExprNode} {setValues : List QualNode}
    {query : Query} (hst : st.Ok rtable) (hn : Numbered rtable) (hne : rtable ≠ [])
    (hset : ∀ te ∈ setValues.flatMap QualNode.targets, TargetOf rtable te)
    (hrun : transformQual commandType whereList setValues st = some query) :
    QueryWhere whereList query := by
  have hof := transformQual_of hst hset hrun
  simp only [transformQual, Option.bind_eq_bind, Option.bind_eq_some_iff, Option.pure_def,
    Prod.exists] at hrun
  obtain ⟨joinTree, st₁, hjoin, -, -, heq⟩ := hrun
  obtain ⟨hst₁, -⟩ :=
    queryJoinTransform_ok (hst.withQual (fun _ hte => absurd hte List.not_mem_nil) 2) hjoin
  have hkeys := hst₁.keys
  have hrtable : st₁.rtable ≠ [] := by
    intro hnil
    rw [hnil, List.map_nil, eq_comm, List.map_eq_nil_iff] at hkeys
    exact hne hkeys
  cases heq
  exact ⟨numbered_of_keys hof.keys.symm hn,
    ⟨{ st with querylevel := 2, qualTargetList := [] }, st₁,
      hst.keys.trans hof.keys.symm, hjoin⟩,
    processTableScan_leftDeep (numbered_of_keys hkeys.symm hn) hrtable rfl rfl⟩

theorem transformSelectStmt_query {getTableInfo : CString → Option TableList}
    {stmt : SelectStmt} {query : Query}
    (h : transformSelectStmt getTableInfo stmt = some query) :
    QueryWhere stmt.whereList query := by
  have hempty := targetList_fromClause getTableInfo stmt.fromList firstRangtableIndex
  simp only [transformSelectStmt, Option.bind_eq_bind, Option.bind_eq_some_iff, Prod.exists,
    Option.guard_eq_some'] at h
  obtain ⟨-, hne, targetList, setValues, st, htargets, hqual⟩ := h
  obtain ⟨hst, hlist, hset⟩ :=
    processCheckTargetList_ok (.start hempty) (targetOf_nil _) (targetOf_noValues _) htargets
  exact transformQual_where (hst.withParent hlist)
    (numbered_fromClause stmt.fromList) hne hset hqual

/-- The plan of a SELECT statement, and what it makes of the conditions. -/
theorem selectPlan_ok {getTableInfo : CString → Option TableList} {stmt : SelectStmt}
    {query : Query} {plan : SelectPlan}
    (hquery : transformSelectStmt getTableInfo stmt = some query)
    (hplan : selectPlan storage query = some plan) :
    PlanOf storage query plan ∧ plan.Ok := by
  have hof := transformSelectStmt_query hquery
  have hplanOf := selectPlan_planOf hplan hof.leftDeep
  exact ⟨hplanOf, hplanOf.ok hof.numbered⟩

theorem selectPlan_where {getTableInfo : CString → Option TableList} {stmt : SelectStmt}
    {query : Query} {plan : SelectPlan}
    (hquery : transformSelectStmt getTableInfo stmt = some query)
    (hplan : selectPlan storage query = some plan) :
    plan.SelectsWhere stmt.whereList := by
  obtain ⟨hplanOf, -⟩ := selectPlan_ok hquery hplan
  obtain ⟨st, st', hkeys, hrun⟩ := (transformSelectStmt_query hquery).conditions
  exact ⟨st, query.joinTree, st', hkeys.trans hplanOf.keys.symm, hrun, hplanOf.qual⟩

end Plans

/-! ## Joins -/

/-- A SELECT statement whose nested loops hand out the product of its tables sends the targets
of the rows of the product that satisfy the WHERE clause, each once and in the order of the
product, and reports their number. -/
theorem select_sends {getTableInfo : CString → Option TableList}
    {storage : Nat → TableFile × GroupFork}
    {stmt : SelectStmt} {query : Query} {plan : SelectPlan}
    (hquery : transformSelectStmt getTableInfo stmt = some query)
    (hplan : selectPlan storage query = some plan) (hreads : plan.ReadsColumns stmt.whereList)
    {snapshot : SnapShotInfo} {own : Nat} {t : JoinTable} {ts : List JoinTable}
    (htables : plan.tables.map TableScan.node = (t :: ts).map JoinTable.node)
    (hright : JoinRight snapshot own t ts)
    {V Portal : Type} {ops : ExprOps V} {decode : RowColumnData → V}
    (hwhere : ∀ joinRow ∈ productRows snapshot own (t.shown snapshot own) ts,
      WhereOk ops plan.rtable (plan.joinValues ops decode joinRow) stmt.whereList)
    (sendToPort : TableRowData → Portal → Option (Int × Portal)) (portal : Portal) :
    ∃ n, ∀ fuel, n ≤ fuel → plan.exec ops decode sendToPort own snapshot portal fuel =
      let rows := plan.resultRows ops decode stmt.whereList
        (productRows snapshot own (t.shown snapshot own) ts)
      (pour (sendRow sendToPort) rows portal).map fun (ok, portal) =>
        (if ok then some rows.length else none, portal) := by
  obtain ⟨hplanOf, hok⟩ := selectPlan_ok hquery hplan
  obtain ⟨scan, scans, hscans, hsubplan⟩ := hplanOf.leftDeep
  rw [hscans, List.map_cons, List.map_cons, List.cons.injEq] at htables
  have hyields : PlanYields own snapshot plan.subplan
      (productRows snapshot own (t.shown snapshot own) ts) := by
    rw [hsubplan, htables.1, htables.2]
    exact hright.yields
  exact hok.exec (selectPlan_where hquery hplan) hreads hyields hwhere sendToPort portal

/-- A group of one column and one row. -/
def oneGroupPage : JoinTable where
  node := ⟨twoColumnTable, [[⟨true, 2, [3]⟩]], 1, [0]⟩
  pages := [[⟨[3], [oneColumnRow (plainRow 6 2)]⟩]]
  holds := by
    refine .cons (.cons ⟨rfl, rfl, twoColumnTable_members (by simp), fun c hc => ?_⟩ .nil)
      .nil
    obtain rfl : c = 0 := Nat.lt_one_iff.mp hc
    exact (twoColumnTable_ahead rfl).2 rfl
  range := by decide

/-- `SELECT a, b FROM t, u WHERE a > 20000000`. -/
def selectGreater : SelectStmt where
  targetlist := [⟨none, columnRefA, .null, false⟩,
    ⟨none, .columnRef ⟨columnB, none, .unknown, 0⟩, .null, false⟩]
  fromList := [⟨tableT, none⟩, ⟨tableU, none⟩]
  whereList := [.aExpr .greater columnRefA (.constValue ⟨.int, .iData 20000000⟩)]

/-- The files of `t` and `u`. -/
def joinStorage (rindex : Nat) : TableFile × GroupFork :=
  if rindex = 1 then (twoGroupPages.node.file, twoGroupPages.node.groups)
    else (oneGroupPage.node.file, oneGroupPage.node.groups)

/-- A column as an `int`. -/
def decodeInt (column : RowColumnData) : BitVec 32 :=
  BitVec.ofNat 32 (Bytes.toNat (column.data.take 4))

/-- A portal that takes every row. -/
def takeRow (rowData : TableRowData)
    (rows : List TableRowData) : Option (Int × List TableRowData) :=
  some (1, rows ++ [rowData])

def greaterQuery : Query := (transformSelectStmt twoTables selectGreater).get (by decide)

def greaterPlan : SelectPlan := (selectPlan joinStorage greaterQuery).get (by decide)

theorem greaterPlan_reads : greaterPlan.ReadsColumns selectGreater.whereList := by
  refine ⟨by decide, ?_⟩
  intro node hnode columnRef hcolumn found hfound
  obtain rfl := List.mem_singleton.mp hnode
  obtain rfl := List.mem_singleton.mp hcolumn
  have hindex : (searchColumDef ⟨columnA, none, .unknown, 0⟩ greaterPlan.rtable).map
      (fun found =>
      (found.2.1.rindex, found.2.2.attrIndex)) = some (1, 0) := by decide
  rw [hfound, Option.map_some, Option.some.injEq, Prod.mk.injEq] at hindex
  rw [hindex.1, hindex.2]
  decide

theorem select_sends_greater : ∃ n, ∀ fuel, n ≤ fuel →
    greaterPlan.exec intOps decodeInt takeRow 5 ⟨9, 9, 0, []⟩ [] fuel =
      some (some 1,
        [⟨2 * (rowColumnDataSize + 6), [some (plainRow 6 2), some (plainRow 6 2)]⟩]) := by
  have hproduct : productRows ⟨9, 9, 0, []⟩ 5
      (twoGroupPages.shown ⟨9, 9, 0, []⟩ 5) [oneGroupPage] =
      [[[plainRow 5 1], [plainRow 6 2]], [[plainRow 6 2], [plainRow 6 2]]] := rfl
  have hright : JoinRight ⟨9, 9, 0, []⟩ 5 twoGroupPages [oneGroupPage] := by
    refine .inr ⟨List.forall_mem_cons.mpr
      ⟨⟨by decide, ?_⟩, List.forall_mem_singleton.mpr ⟨by decide, ?_⟩⟩,
      List.pairwise_pair.mpr (.inr ?_)⟩
    all_goals
      simp only [JoinTable.Complete, JoinTable.LastOnly]
      decide
  have hvalue : ∀ joinRow ∈ productRows ⟨9, 9, 0,
      []⟩ 5 (twoGroupPages.shown ⟨9, 9, 0, []⟩ 5) [oneGroupPage],
      (selectGreater.whereList.mapM (evalExpr intOps greaterPlan.rtable
        (greaterPlan.joinValues intOps decodeInt joinRow))).isSome := by
    rw [hproduct]
    decide
  obtain ⟨n, hn⟩ := select_sends (Option.some_get _).symm
      (Option.some_get _).symm greaterPlan_reads rfl hright
    (fun joinRow hmem =>
      ⟨List.forall_mem_singleton.mpr ⟨.inl rfl, .inr trivial, trivial⟩, hvalue joinRow hmem⟩)
    takeRow []
  refine ⟨n, fun fuel hfuel => (hn fuel hfuel).trans ?_⟩
  rw [hproduct]
  rfl

/-! ## A table with a history -/

/-- The scan of a stored table hands out what the snapshot is shown. -/
theorem TableStored.planYields {t : PaxTable} {table : StoredTable} (h : TableStored t table)
    (snapshot : SnapShotInfo) (own : Nat) {cols : List Nat} (hasc : Ascending cols)
    (hrange : ∀ c ∈ cols, c < t.colNum) :
    ∃ out : List (List RowColumnData),
      PlanYields own snapshot (.seqScan ⟨t.file, t.groups, t.colNum, cols⟩) (out.map ([·])) ∧
      out.map (List.map RowColumnData.value) = table.select (snapshot.Sees own) cols := by
  obtain ⟨rows, hgroups, rfl⟩ := h.groups
  obtain ⟨rooms, hf⟩ := h.ok.file
  obtain ⟨tableGroups, hholds, hscanned⟩ :=
    groupsStored_hold hf hgroups h.ok.columns hrange snapshot own
  obtain ⟨last, hyields, -⟩ :=
    (betweenGroups_startInfo cols hholds).yields snapshot own hasc hrange rfl
  have hinit : initExecNode (.seqScan ⟨t.file, t.groups, t.colNum, cols⟩) =
      some (startInfo cols) :=
    initScanPositionInfo_ascending hasc hrange
  have hup : Yields (execNodeProc own snapshot (.seqScan ⟨t.file, t.groups, t.colNum, cols⟩))
      (some (startInfo cols)) _
      (some last) := seqScan_yields hyields
  exact ⟨_, ⟨some last, hinit ▸ hup⟩, hscanned⟩

namespace SelectPlan

variable {V : Type} (ops : ExprOps V) (decodeValue : StoredValue → V)
  (plan : SelectPlan) (scan : TableScan)

/-- The values of a stored row, for the one table of the statement. -/
def storedValues (values : List StoredValue) (rindex attrIndex : Nat) : V :=
  match (if scan.rindex = rindex then scan.node.colindexList.idxOf? attrIndex else none).bind
    (values[·]?) with
  | some value => decodeValue value
  | none => ops.zero

/-- Does the stored row satisfy one of the conditions, if there is any? -/
def storedHolds (whereList : List ExprNode) (values : List StoredValue) : Option Bool :=
  (whereList.mapM (evalExpr ops plan.rtable (storedValues ops decodeValue scan values))).map
    fun found =>
    found.isEmpty || found.any ops.getDataBool

variable {ops decodeValue plan scan}

theorem joinValues_singleton (htables : plan.tables = [scan]) (rowData : List RowColumnData) :
    plan.joinValues ops (decodeValue ∘ RowColumnData.value) [rowData] =
      storedValues ops decodeValue scan (rowData.map RowColumnData.value) := by
  funext rindex attrIndex
  rw [joinValues, storedValues, htables]
  by_cases heq : scan.rindex = rindex
  · cases hindex : scan.node.colindexList.idxOf? attrIndex with
    | none => simp [joinColumn, heq, hindex]
    | some index => cases hget : rowData[index]? <;> simp [joinColumn, heq, hindex, hget]
  · simp [joinColumn, heq]

theorem holds_singleton (htables : plan.tables = [scan]) (whereList : List ExprNode)
    (rowData : List RowColumnData) :
    plan.holds ops (decodeValue ∘ RowColumnData.value) whereList [rowData] =
      plan.storedHolds ops decodeValue scan whereList (rowData.map RowColumnData.value) := by
  rw [holds, storedHolds, joinValues_singleton htables]

end SelectPlan

/-- After any history of a table, a SELECT statement on it sends the targets of the rows that
the changes of the history leave for the reader and that satisfy the WHERE clause, each once
and in their order. -/
theorem select_after_history {colNum : Nat} (hpos : 0 < colNum)
    {changes : List StoredChange} {s : TableStore}
    (hruns : StoreRuns (.created colNum) changes s)
    {getTableInfo : CString → Option TableList} {stmt : SelectStmt}
    {query : Query} {plan : SelectPlan}
    (hquery : transformSelectStmt getTableInfo stmt = some query)
    (hplan : selectPlan (fun _ => (s.table.file, s.table.groups)) query = some plan)
    {scan : TableScan}
    (htables : plan.tables = [scan]) (hcolNum : scan.tblInfo.column.length = colNum)
    (hasc : Ascending scan.node.colindexList)
    (hrange : ∀ c ∈ scan.node.colindexList, c < colNum)
    (hreads : plan.ReadsColumns stmt.whereList) {V : Type} (ops : ExprOps V)
    (decodeValue : StoredValue → V) :
    ∃ table, Run [] changes table ∧ TableStored s.table table ∧
      ∀ (snapshot : SnapShotInfo) (own : Nat),
      (∀ values ∈ table.select (snapshot.Sees own) scan.node.colindexList,
        WhereOk ops plan.rtable (SelectPlan.storedValues ops decodeValue scan values)
          stmt.whereList) →
      ∃ rows : List (List RowColumnData), rows.map (List.map RowColumnData.value) =
          (table.select (snapshot.Sees own) scan.node.colindexList).filter (fun values =>
            plan.storedHolds ops decodeValue scan stmt.whereList values = some true) ∧
        ∀ {Portal : Type} (sendToPort : TableRowData → Portal →
          Option (Int × Portal)) (portal : Portal), ∃ n, ∀ fuel, n ≤ fuel →
          plan.exec ops (decodeValue ∘ RowColumnData.value) sendToPort own
            snapshot portal fuel =
            (pour (sendRow sendToPort) (rows.map fun rowData => plan.resultRow [rowData])
              portal).map fun (ok, portal) =>
              (if ok then some rows.length else none, portal) := by
  obtain ⟨hcreated, table, hrun, hok⟩ := hruns.run (storeOk_created hpos)
  have hstored : s.table.colNum = colNum := hcreated
  obtain ⟨hplanOf, hplanOk⟩ := selectPlan_ok hquery hplan
  have hsubplan : plan.subplan =
      .seqScan ⟨s.table.file, s.table.groups, s.table.colNum, scan.node.colindexList⟩ := by
    obtain ⟨scan', scans, hscans, hleft⟩ := hplanOf.leftDeep
    obtain ⟨rfl, rfl⟩ := List.cons.inj (htables.symm.trans hscans)
    obtain ⟨rte, -, hopened⟩ :=
      hplanOf.tables scan (by rw [htables]; exact List.mem_cons_self)
    rw [hleft, RangTblEntry.tableScan_node hopened, hcolNum, ← hstored]
    rfl
  refine ⟨table, hrun, hok.stored, fun snapshot own hvalue => ?_⟩
  obtain ⟨out, hyields, hout⟩ :=
    hok.stored.planYields snapshot own hasc fun c hc => hstored ▸ hrange c hc
  rw [← hsubplan] at hyields
  let selected (rowData : List RowColumnData) : Bool :=
    plan.storedHolds ops decodeValue scan stmt.whereList (rowData.map RowColumnData.value) =
      some true
  have hrows : plan.resultRows ops
      (decodeValue ∘ RowColumnData.value) stmt.whereList (out.map ([·])) =
      (out.filter selected).map fun rowData => plan.resultRow [rowData] := by
    rw [SelectPlan.resultRows, List.filter_map, List.map_map]
    congr 1
    refine List.filter_congr fun rowData _ => ?_
    simp only [Function.comp_apply, SelectPlan.holds_singleton htables]
    rfl
  refine ⟨out.filter selected, ?_, fun {Portal} sendToPort portal => ?_⟩
  · rw [← hout, List.filter_map]
    rfl
  · have hwhere : ∀ joinRow ∈ out.map ([·]), WhereOk ops plan.rtable
        (plan.joinValues ops (decodeValue ∘ RowColumnData.value) joinRow) stmt.whereList := by
      intro joinRow hmem
      obtain ⟨rowData, hrowData, rfl⟩ := List.mem_map.mp hmem
      rw [SelectPlan.joinValues_singleton htables]
      exact hvalue _ (hout ▸ List.mem_map_of_mem hrowData)
    have hexec :=
      hplanOk.exec (selectPlan_where hquery hplan) hreads hyields hwhere sendToPort portal
    rw [hrows] at hexec
    simpa only [List.length_map] using hexec

/-- A table `t` with the columns `a` and `b`. -/
def pairTables (tableName : CString) : Option TableList :=
  if tableName = tableT then some ⟨[⟨columnA, .int, 0⟩, ⟨columnB, .int, 1⟩]⟩ else none

/-- `SELECT a, b FROM t WHERE a > 20000000 AND b > 20000000`. -/
def selectFromT : SelectStmt where
  targetlist := [⟨none, columnRefA, .null, false⟩,
    ⟨none, .columnRef ⟨columnB, none, .unknown, 0⟩, .null, false⟩]
  fromList := [⟨tableT, none⟩]
  whereList :=
    [.boolExpr .and (.aExpr .greater columnRefA (.constValue ⟨.int, .iData 20000000⟩))
      (.aExpr .greater (.columnRef ⟨columnB, none, .unknown, 0⟩)
        (.constValue ⟨.int, .iData 20000000⟩))]

def fromTQuery : Query := (transformSelectStmt pairTables selectFromT).get (by decide)

def fromTPlan : SelectPlan :=
  (selectPlan (fun _ => (twoRowStore.table.file, twoRowStore.table.groups)) fromTQuery).get
    (by decide)

theorem fromTQuery_eq : transformSelectStmt pairTables selectFromT = some fromTQuery :=
  (Option.some_get _).symm

theorem fromTPlan_eq :
    selectPlan (fun _ => (twoRowStore.table.file, twoRowStore.table.groups)) fromTQuery =
      some fromTPlan :=
  (Option.some_get _).symm

/-- A column of `t` leads to its entry. -/
theorem fromTPlan_column (columnRef : ColumnRef) (index : Nat)
    {found : Nat × RangTblEntry × ColumnDefInfo}
    (hfound : searchColumDef columnRef fromTPlan.rtable = some found)
    (hindex : (searchColumDef columnRef fromTPlan.rtable).map
      (fun found => (found.2.1.rindex, found.2.2.attrIndex)) =
      some (1, index)) (hscans : ScansColumn fromTPlan.tables 1 index) :
    ScansColumn fromTPlan.tables found.2.1.rindex found.2.2.attrIndex := by
  rw [hfound, Option.map_some, Option.some.injEq, Prod.mk.injEq] at hindex
  rw [hindex.1, hindex.2]
  exact hscans

theorem fromTPlan_reads : fromTPlan.ReadsColumns selectFromT.whereList := by
  refine ⟨by decide, ?_⟩
  intro node hnode columnRef hcolumn found hfound
  obtain rfl := List.mem_singleton.mp hnode
  rcases List.mem_cons.mp hcolumn with rfl | hcolumn
  · exact fromTPlan_column ⟨columnA, none, .unknown, 0⟩ 0 hfound (by decide) (by decide)
  · obtain rfl := List.mem_singleton.mp hcolumn
    exact fromTPlan_column ⟨columnB, none, .unknown, 0⟩ 1 hfound (by decide) (by decide)

/-- A stored value as an `int`. -/
def decodeStored (value : StoredValue) : BitVec 32 :=
  BitVec.ofNat 32 (Bytes.toNat (value.2.take 4))

/-- The scan of the table. -/
def fromTScan : TableScan := fromTPlan.tables.head (by decide)

theorem fromTScan_cols : fromTScan.node.colindexList = [0, 1] := by decide

theorem selectFromT_kept (row : Nat → Nat → BitVec 32) :
    ∀ node ∈ selectFromT.whereList, MeaningKept intOps fromTPlan.rtable row node :=
  List.forall_mem_singleton.mpr ⟨⟨.inl rfl, .inr trivial, trivial⟩, .inl rfl,
    .inr trivial, trivial⟩

/-- The second of the two rows is sent, and counted. -/
theorem select_after_inserts :
    ∃ rows : List (List RowColumnData),
      rows.map (List.map RowColumnData.value) = [pairValues 2] ∧
      ∃ n, ∀ fuel, n ≤ fuel →
        fromTPlan.exec intOps (decodeStored ∘ RowColumnData.value) takeRow 6
          ⟨9, 9, 0, []⟩ [] fuel =
          some (some 1, rows.map fun rowData => fromTPlan.resultRow [rowData]) := by
  have hasc : Ascending fromTScan.node.colindexList := by rw [fromTScan_cols]; decide
  have hrange : ∀ c ∈ fromTScan.node.colindexList, c < 2 := by rw [fromTScan_cols]; decide
  have hscans : fromTPlan.tables = [fromTScan] := rfl
  obtain ⟨table, -, hstored, hselect⟩ :=
    select_after_history (by decide) twoInserts_runs fromTQuery_eq fromTPlan_eq
      hscans (by decide) hasc hrange fromTPlan_reads intOps decodeStored
  obtain rfl := hstored.unique twoRowStore_stored
  have hselected : twoRows.select (SnapShotInfo.Sees ⟨9, 9, 0, []⟩ 6) [0, 1] =
      [pairValues 1, pairValues 2] := by decide
  have hvalue : ∀ values ∈ [pairValues 1, pairValues 2],
      (selectFromT.whereList.mapM (evalExpr intOps fromTPlan.rtable
      (SelectPlan.storedValues intOps decodeStored fromTScan values))).isSome := by decide
  have hfiltered : [pairValues 1, pairValues 2].filter (fun values =>
      SelectPlan.storedHolds intOps decodeStored fromTPlan fromTScan selectFromT.whereList
        values = some true) =
      [pairValues 2] := by decide
  rw [fromTScan_cols] at hselect
  have hsends := hselect ⟨9, 9, 0, []⟩ 6
  rw [hselected, hfiltered] at hsends
  obtain ⟨rows, hrows, hsends⟩ :=
    hsends fun values hmem => ⟨selectFromT_kept _, hvalue values hmem⟩
  obtain ⟨rowData, rfl, -⟩ := List.map_eq_singleton_iff.mp hrows
  obtain ⟨n, hn⟩ := hsends takeRow []
  exact ⟨_, hrows, n, hn⟩

end Toadb
