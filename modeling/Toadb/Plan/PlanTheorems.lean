/-
Toadb.Plan.PlanTheorems — the plan of a FROM list.

Each table goes on top of the tree that is there (`joinTree_foldl`), so the tree
is left-deep and its leaves are the tables in their order, and each join counts
the tables below it. Planning keeps the shape (`processJoinTree_shape`), and a
numbered range table has the entry of every leaf at its place
(`joinPlan_shape`). A query without targets has no tree at all.
-/
import Toadb.Plan.Query
import Toadb.Plan.QueryTheorems

namespace Toadb

/-! ## Shapes -/

/-- The numbers of the tables, from left to right. -/
def JoinTree.leaves : JoinTree → List Nat
  | .scan rindex _ _ => [rindex]
  | .join _ _ _ _ lefttree righttree => lefttree.leaves ++ righttree.leaves

/-- A single table to the right of every join, and the number of its tables at every node. -/
def JoinTree.LeftDeep : JoinTree → Prop
  | .scan _ rtNum _ => rtNum = 1
  | .join _ _ rtNum _ lefttree righttree =>
    lefttree.LeftDeep ∧ (∃ rindex targetList, righttree = .scan rindex 1 targetList) ∧
      rtNum = lefttree.leaves.length + righttree.leaves.length

/-- The entries that are scanned, from left to right. -/
def PlanNode.leaves : PlanNode → List (Option Nat)
  | .seqScan _ rangTbl => [rangTbl]
  | .nestLoop _ _ _ _ leftplan rightplan => leftplan.leaves ++ rightplan.leaves

/-- A scan to the right of every nested loop. -/
def PlanNode.LeftDeep : PlanNode → Prop
  | .seqScan _ _ => True
  | .nestLoop _ _ _ _ leftplan rightplan =>
    leftplan.LeftDeep ∧ ∃ targetList rangTbl, rightplan = .seqScan targetList rangTbl

/-- Every nested loop has the number of scans below it. -/
def PlanNode.Counted : PlanNode → Prop
  | .seqScan _ _ => True
  | .nestLoop _ _ rtNum _ leftplan rightplan =>
    leftplan.Counted ∧ rightplan.Counted ∧
      rtNum = (leftplan.leaves ++ rightplan.leaves).length

/-! ## The join tree -/

section Build

variable {left : JoinTree} {rangTbls : List RangTblEntry}

theorem JoinTree.LeftDeep.rtNum_eq (h : left.LeftDeep) : left.rtNum = left.leaves.length := by
  cases left with
  | scan rindex rtNum targetList => exact h
  | join joinOp isJoin rtNum targetList lefttree righttree =>
    rw [JoinTree.leaves, List.length_append]
    exact h.2.2

/-- A table goes on top. -/
theorem leftDeep_addJoinTblNode (h : left.LeftDeep) (rangTbl : RangTblEntry) :
    (addJoinTblNode (some left) rangTbl).LeftDeep ∧
      (addJoinTblNode (some left) rangTbl).leaves = left.leaves ++ [rangTbl.rindex] :=
  ⟨⟨h, ⟨_, _, rfl⟩, congrArg (· + 1) h.rtNum_eq⟩, rfl⟩

theorem joinTree_foldl (h : left.LeftDeep) (rangTbls : List RangTblEntry) : ∃ tree,
    rangTbls.foldl (fun joinTree rangTbl => some (addJoinTblNode joinTree rangTbl))
      (some left) = some tree ∧
      tree.LeftDeep ∧ tree.leaves = left.leaves ++ rangTbls.map RangTblEntry.rindex := by
  induction rangTbls generalizing left with
  | nil => exact ⟨left, rfl, h, (List.append_nil _).symm⟩
  | cons rangTbl rangTbls ih =>
    obtain ⟨hadd, hleaves⟩ := leftDeep_addJoinTblNode h rangTbl
    obtain ⟨tree, hfold, hdeep, htree⟩ := ih hadd
    exact ⟨tree, hfold, hdeep, by
      rw [htree, hleaves, List.append_assoc, List.map_cons, List.singleton_append]⟩

/-- The tables of a query, in the order of the range table. -/
theorem commonQueryTransform_tree {st : QueryState} (htargets : st.parentTargetList ≠ [])
    (hrtable : st.rtable ≠ []) :
    ∃ tree, (commonQueryTransform st).1 = some tree ∧ tree.LeftDeep ∧
      tree.leaves = st.rtable.map RangTblEntry.rindex := by
  obtain ⟨rangTbl, rangTbls, heq⟩ := List.exists_cons_of_ne_nil hrtable
  rw [commonQueryTransform, if_neg htargets, heq, List.map_cons]
  have hfirst : (addJoinTblNode none (assignTargets st rangTbl)).LeftDeep := rfl
  obtain ⟨tree, hfold, hdeep, hleaves⟩ :=
    joinTree_foldl hfirst (rangTbls.map (assignTargets st))
  refine ⟨tree, hfold, hdeep, hleaves.trans ?_⟩
  rw [List.map_map, List.map_cons]
  rfl

end Build

/-! ## The plan -/

section Plan

variable {tree : JoinTree} {rtable : List RangTblEntry}

/-- An entry of the range table is scanned, and the others are left alone. -/
theorem processScanNode_eq {rindex : Nat} (hpos : 0 < rindex) (hle : rindex ≤ rtable.length)
    (targetList : List TargetEntry) : ∃ rtable', rtable'.length = rtable.length ∧
      processScanNode rindex targetList rtable =
        (.seqScan targetList (some (rindex - 1)), rtable') := by
  have hget : getCellValueByIndex rtable rindex = some rtable[rindex - 1] := by
    rw [getCellValueByIndex, if_neg (Nat.pos_iff_ne_zero.mp hpos), List.getElem?_eq_getElem]
  exact ⟨_, List.length_set .., by rw [processScanNode, hget]⟩

theorem processJoinTree_shape (h : tree.LeftDeep)
    (hleaves : ∀ rindex ∈ tree.leaves, 0 < rindex ∧ rindex ≤ rtable.length) :
    ∃ plan rtable', processJoinTree tree rtable = (plan, rtable') ∧
      rtable'.length = rtable.length ∧
      plan.LeftDeep ∧ plan.Counted ∧ plan.leaves = tree.leaves.map fun rindex =>
        some (rindex - 1) := by
  induction tree generalizing rtable with
  | scan rindex rtNum targetList =>
    obtain ⟨hpos, hle⟩ := hleaves rindex (List.mem_singleton_self _)
    obtain ⟨rtable', hlen, hscan⟩ := processScanNode_eq hpos hle targetList
    exact ⟨_, rtable', hscan, hlen, trivial, trivial, rfl⟩
  | join joinOp isJoin rtNum targetList lefttree righttree ihl =>
    obtain ⟨hleft, ⟨rindex, rightTargets, rfl⟩, hcount⟩ := h
    obtain ⟨hleavesl, hleavesr⟩ := List.forall_mem_append.mp hleaves
    obtain ⟨leftplan, rtable1, hrunl, hlen1, hdeep, hcounted, hplanl⟩ := ihl hleft hleavesl
    obtain ⟨hpos, hle⟩ := hleavesr rindex (List.mem_singleton_self _)
    obtain ⟨rtable2, hlen2, hrunr⟩ := processScanNode_eq hpos (hlen1.symm ▸ hle) rightTargets
    refine ⟨.nestLoop joinOp isJoin rtNum targetList leftplan
      (.seqScan rightTargets (some (rindex - 1))), rtable2, ?_,
      hlen2.trans hlen1, ⟨hdeep, _, _, rfl⟩, ⟨hcounted, trivial, ?_⟩, ?_⟩
    · simp only [processJoinTree, hrunl, hrunr]
    · rw [hcount, List.length_append, hplanl, List.length_map]
      rfl
    · rw [PlanNode.leaves, hplanl, JoinTree.leaves, List.map_append]
      rfl

theorem processQual_singleton (tree : JoinTree) (rtable : List RangTblEntry) :
    (processQual [tree] rtable).1 = some (processJoinTree tree rtable).1 := rfl

end Plan

/-! ## FROM lists -/

section FromList

variable {getTableInfo : CString → Option TableList} {fromList : List RangeVar}
  {rtable : List RangTblEntry} {rindex : Nat}

/-- The entries are those of the tables, in their order. -/
theorem rangTblEntries_rangVar
    (h : rangTblEntries getTableInfo fromList rindex = some rtable) :
    rtable.map RangTblEntry.rangVar = fromList.map fun rangVar => some rangVar.renamed := by
  induction fromList generalizing rindex rtable with
  | nil =>
    cases h
    rfl
  | cons rangVar fromList ih =>
    obtain ⟨rangEntry, hentry, hrest⟩ := Option.bind_eq_some_iff.mp h
    obtain ⟨rangTblList, htail, hcons⟩ := Option.bind_eq_some_iff.mp hrest
    cases hcons
    obtain ⟨tbl, -, hof⟩ := Option.bind_eq_some_iff.mp hentry
    cases hof
    exact congrArg (some rangVar.renamed :: ·) (ih htail)

theorem rangTblEntries_rindex
    (h : rangTblEntries getTableInfo fromList rindex = some rtable) :
    rtable.map RangTblEntry.rindex = List.range' rindex fromList.length := by
  obtain ⟨hlen, hentries⟩ := rangTblEntries_numbered h
  refine List.ext_getElem (by simp [hlen]) fun pos hpos _ => ?_
  rw [List.length_map] at hpos
  rw [List.getElem_map, List.getElem_range', Nat.one_mul]
  exact (hentries pos rtable[pos] (List.getElem?_eq_getElem hpos)).1

/-- A FROM list of tables, with any targets and conditions: the plan of a query with targets
is left-deep, scans the tables in their order, and counts them at every loop. -/
theorem joinPlan_shape
    (hfrom : rangTblEntries getTableInfo fromList firstRangtableIndex = some rtable)
    (hfromList : fromList ≠ []) {st : QueryState}
    (hkeys : st.rtable.map RangTblEntry.key = rtable.map RangTblEntry.key)
    (htargets : st.parentTargetList ≠ []) :
    ∃ plan, (processQual (commonQueryTransform st).1.toList
      (commonQueryTransform st).2.rtable).1 = some plan ∧
      plan.LeftDeep ∧ plan.Counted ∧ plan.leaves = (List.range fromList.length).map some ∧
      st.rtable.map RangTblEntry.rangVar = fromList.map fun rangVar =>
        some rangVar.renamed := by
  have hrindex : st.rtable.map RangTblEntry.rindex = List.range' 1 fromList.length := by
    have hmap := congrArg (List.map Prod.fst) hkeys
    rw [List.map_map, List.map_map] at hmap
    exact hmap.trans (rangTblEntries_rindex hfrom)
  have hrangVar := congrArg (List.map fun key => key.2.1) hkeys
  rw [List.map_map, List.map_map] at hrangVar
  have hlen : st.rtable.length = fromList.length := by
    have hlength : (st.rtable.map RangTblEntry.rindex).length = st.rtable.length :=
      List.length_map _
    rw [← hlength, hrindex, List.length_range']
  have hrtable : st.rtable ≠ [] := fun hnil => hfromList (by
    rw [hnil] at hlen
    exact List.length_eq_zero_iff.mp hlen.symm)
  obtain ⟨tree, htree, hdeep, hleaves⟩ := commonQueryTransform_tree htargets hrtable
  have hst : (commonQueryTransform st).2.rtable.length = fromList.length := by
    rw [commonQueryTransform, if_neg htargets]
    exact (List.length_map _).trans hlen
  rw [hrindex] at hleaves
  have hbounds : ∀ rindex ∈ tree.leaves,
      0 < rindex ∧ rindex ≤ (commonQueryTransform st).2.rtable.length := by
    rw [hleaves, hst]
    intro rindex hmem
    obtain ⟨hlo, hhi⟩ := List.mem_range'_1.mp hmem
    omega
  obtain ⟨plan, rtable', hrun, -, hplan, hcounted, hplanLeaves⟩ :=
    processJoinTree_shape hdeep hbounds
  refine ⟨plan, by rw [htree, Option.toList_some, processQual_singleton, hrun],
    hplan, hcounted, ?_,
    hrangVar.trans (rangTblEntries_rangVar hfrom)⟩
  rw [hplanLeaves, hleaves, List.range'_eq_map_range, List.map_map]
  refine List.map_congr_left fun pos _ => ?_
  simp

end FromList

/-- A table of one column. -/
def oneColumn : TableList := ⟨[⟨cString [120], .int, 0⟩]⟩

/-- `FROM a, b, c`. -/
def threeTables : List RangeVar :=
  [⟨cString [97], none⟩, ⟨cString [98], none⟩, ⟨cString [99], none⟩]

/-- `SELECT * FROM a, b, c`, with its targets. -/
def threeTablesState : QueryState :=
  let rtable :=
    (rangTblRewriteFromClause (fun _ => some oneColumn) threeTables firstRangtableIndex).1
  let (targetList, st) := targetRewriteAllColumns [] (.start rtable 4)
  { st with parentTargetList := targetList }

theorem threeTables_plan : ∃ plan,
    (processQual (commonQueryTransform threeTablesState).1.toList
    (commonQueryTransform threeTablesState).2.rtable).1 = some plan ∧
      plan.LeftDeep ∧ plan.Counted ∧
    plan.leaves = (List.range threeTables.length).map some ∧
    threeTablesState.rtable.map RangTblEntry.rangVar = threeTables.map fun rangVar =>
      some rangVar.renamed :=
  joinPlan_shape (show rangTblEntries (fun _ => some oneColumn) threeTables
    firstRangtableIndex = some _ from rfl) (List.cons_ne_nil _ _) rfl (List.cons_ne_nil _ _)

/-- `SELECT 1 FROM a`. -/
def selectConst : SelectStmt where
  targetlist := [⟨none, .constValue ⟨.int, .iData 1⟩, .null, false⟩]
  fromList := [⟨cString [97], none⟩]
  whereList := []

/-- Without a column as a target there is a query tree, but no scan. -/
theorem selectConst_plan : ∃ query,
    transformSelectStmt (fun _ => some oneColumn) selectConst = some query ∧
    query.rtable.length = selectConst.fromList.length ∧ (processTableScan query).1 = none :=
  ⟨_, rfl, rfl, rfl⟩

end Toadb
