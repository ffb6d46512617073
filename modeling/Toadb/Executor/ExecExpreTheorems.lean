/-
Toadb.Executor.ExecExpreTheorems — does the rewriting keep the meaning of a condition?

It does where no operand of an operation has to change sides, or the operation does not mind:
`same_truth`. The excluded trees each run into one place of the code:

  * a column on the right of an operation whose left side is no column changes sides with it,
    and the operator stays what it was (`greater_turned`);
  * of two columns of one table the right one has no number, so that the cell still holds the
    left one;
  * a column directly under AND or OR has no number either;
  * NOT reads a second argument, and an operation without a right side is dropped.
-/
import Toadb.Executor.ExpreCompute
import Toadb.Plan.QueryTheorems

namespace Toadb

/-! ## Columns by key -/

theorem columnOf_of_key {columnRef : ColumnRef} {rte rte' : RangTblEntry}
    (h : rte.key = rte'.key) :
    columnOf columnRef rte = columnOf columnRef rte' := by
  have hvar : rte.rangVar = rte'.rangVar := congrArg (·.2.1) h
  have htbl : rte.tblInfo = rte'.tblInfo := congrArg (·.2.2) h
  rw [columnOf, columnOf, mayOwn, mayOwn, hvar, htbl]

/-- Range tables with the same keys have the same owners of a column. -/
theorem columnOwners_of_keys (columnRef : ColumnRef) {rangTbl rangTbl' : List RangTblEntry}
    (h : rangTbl.map RangTblEntry.key = rangTbl'.map RangTblEntry.key) (pos : Nat) :
    (columnOwners columnRef rangTbl pos).map
    (fun found => (found.1, found.2.1.key, found.2.2)) =
      (columnOwners columnRef rangTbl' pos).map fun found =>
        (found.1, found.2.1.key, found.2.2) := by
  induction rangTbl generalizing rangTbl' pos with
  | nil =>
    rw [List.map_nil] at h
    rw [List.map_eq_nil_iff.mp h.symm]
  | cons rte rangTbl ih =>
    cases rangTbl' with
    | nil => cases h
    | cons rte' rangTbl' =>
      obtain ⟨hkey, hrest⟩ := List.cons.inj h
      rw [columnOwners, columnOwners, columnOf_of_key hkey]
      cases columnOf columnRef rte' with
      | none => exact ih hrest (pos + 1)
      | some col => simp only [List.map_cons, hkey, ih hrest (pos + 1)]

theorem searchColumDef_of_keys {columnRef : ColumnRef} {rangTbl rangTbl' : List RangTblEntry}
    {pos : Nat} {rte : RangTblEntry} {col : ColumnDefInfo}
    (h : rangTbl.map RangTblEntry.key = rangTbl'.map RangTblEntry.key)
    (hfound : searchColumDef columnRef rangTbl = some (pos, rte, col)) :
    ∃ rte', searchColumDef columnRef rangTbl' = some (pos, rte', col) ∧
      rte'.key = rte.key := by
  have howners := columnOwners_of_keys columnRef h 0
  unfold searchColumDef at hfound ⊢
  split at hfound
  next found hone =>
    rw [hone, List.map_singleton] at howners
    obtain ⟨⟨pos', rte', col'⟩, hlist, hsame⟩ := List.map_eq_singleton_iff.mp howners.symm
    cases hfound
    simp only [Prod.mk.injEq] at hsame
    obtain ⟨rfl, hkey, rfl⟩ := hsame
    rw [hlist]
    exact ⟨rte', rfl, hkey⟩
  next => cases hfound

/-! ## Conditions that keep their meaning -/

/-- The columns that an expression names. -/
def ExprNode.columnRefs : ExprNode → List ColumnRef
  | .null | .constValue _ | .functionClause _ => []
  | .columnRef ref => [ref]
  | .aExpr _ lexpr rexpr => lexpr.columnRefs ++ rexpr.columnRefs
  | .boolExpr _ first second => first.columnRefs ++ second.columnRefs
  | .notExpr arg => arg.columnRefs

def ExprNode.isColumn : ExprNode → Bool
  | .columnRef _ => true
  | _ => false

theorem isColumn_eq_true {node : ExprNode} (h : node.isColumn = true) :
    ∃ columnRef, node = .columnRef columnRef := by
  cases node with
  | columnRef columnRef => exact ⟨columnRef, rfl⟩
  | _ => cases h

section Value

variable {V : Type} (ops : ExprOps V) (rtable : List RangTblEntry) (row : Nat → Nat → V)

/-- The executor has the operands of the row as they were written. Two columns are of two
tables, or one column twice; a column on the right of something else is moved to the left. -/
def OperandsKept (op : ExprOpType) : ExprNode → ExprNode → Prop
  | .columnRef left, .columnRef right =>
    ∀ found found', searchColumDef left rtable = some found →
      searchColumDef right rtable = some found' → found.2.1.rindex = found'.2.1.rindex →
        found.2.2.attrIndex = found'.2.2.attrIndex
  | lexpr, .columnRef right =>
    ∀ leftValue rightValue, evalExpr ops rtable row lexpr = some leftValue →
    evalExpr ops rtable row (.columnRef right) = some rightValue →
      ops.computeExpr op leftValue rightValue = ops.computeExpr op rightValue leftValue
  | _, _ => True

/-- The tree has none of the places that the rewriting or the executor gets wrong on the
row. -/
def MeaningKept : ExprNode → Prop
  | .constValue _ => True
  | .boolExpr _ first second => MeaningKept first ∧ MeaningKept second
  | .aExpr op lexpr rexpr =>
    (lexpr.isColumn = true ∨ MeaningKept lexpr) ∧
      (rexpr.isColumn = true ∨ MeaningKept rexpr) ∧
      OperandsKept ops rtable row op lexpr rexpr
  | .null | .columnRef _ | .functionClause _ | .notExpr _ => False

/-- The entries that the columns of the tree lead to carry their positions. -/
def NumberedFor (node : ExprNode) : Prop :=
  ∀ columnRef ∈ node.columnRefs, ∀ pos rte col,
    searchColumDef columnRef rtable = some (pos, rte, col) → rte.rindex = pos + 1

/-- The rewritten condition selects the row when the condition does, wherever that has a
value: from every state over these tables and whatever the cell holds before. -/
def SameTruth (node : ExprNode) : Prop :=
  ∀ (st : QueryState) (value cell : V),
    st.rtable.map RangTblEntry.key = rtable.map RangTblEntry.key →
    evalExpr ops rtable row node = some value →
      ∃ out st', qualNodeProcess node st = some (out, st') ∧
        execSelectQual ops rtable row out cell = ops.getDataBool value

/-- The node is an operation or a constant, and has this value whatever the cell holds. -/
structure HasValue (node : QualNode) (value : V) : Prop where
  not_column : ∀ columnRef, node ≠ .columnRef columnRef
  not_null : node ≠ .null
  value_eq : ∀ rindex cell, processQualExprNode ops rtable row node rindex cell =
    (some value, value)

variable {ops rtable row}

theorem ExprOps.operand_of_ne {node : QualNode} (h : node ≠ .null) (cell : V) :
    ops.operand node cell = cell := by
  cases node with
  | null => exact absurd rfl h
  | _ => rfl

theorem HasValue.subExpr {node : QualNode} {value : V}
    (h : HasValue ops rtable row node value)
    (st : QueryState) : subExprNodeTargetProcess node st = ([], node, st) := by
  cases node with
  | columnRef columnRef => exact absurd rfl (h.not_column columnRef)
  | _ => rfl

/-- A column without a number leaves the cell as it is. -/
theorem processQualExprNode_column_zero (columnRef : ColumnRef) (cell : V) :
    processQualExprNode ops rtable row (.columnRef columnRef) 0 cell = (none, cell) := rfl

theorem Numbered.numberedFor (hn : Numbered rtable) (node : ExprNode) :
    NumberedFor rtable node := by
  intro columnRef _ pos rte col hfound
  exact hn (pos + 1) rte (searchColumDef_eq_some hfound).1

theorem NumberedFor.first {boolop : BoolExprType} {first second : ExprNode}
    (hn : NumberedFor rtable (.boolExpr boolop first second)) : NumberedFor rtable first :=
  fun columnRef hmem => hn columnRef (List.mem_append_left _ hmem)

theorem NumberedFor.second {boolop : BoolExprType} {first second : ExprNode}
    (hn : NumberedFor rtable (.boolExpr boolop first second)) : NumberedFor rtable second :=
  fun columnRef hmem => hn columnRef (List.mem_append_right _ hmem)

theorem NumberedFor.left {op : ExprOpType} {lexpr rexpr : ExprNode}
    (hn : NumberedFor rtable (.aExpr op lexpr rexpr)) : NumberedFor rtable lexpr :=
  fun columnRef hmem => hn columnRef (List.mem_append_left _ hmem)

theorem NumberedFor.right {op : ExprOpType} {lexpr rexpr : ExprNode}
    (hn : NumberedFor rtable (.aExpr op lexpr rexpr)) : NumberedFor rtable rexpr :=
  fun columnRef hmem => hn columnRef (List.mem_append_right _ hmem)

/-- The target of a column: its entry has the value. -/
theorem subExpr_column {columnRef : ColumnRef} {st : QueryState} {value : V}
    (hn : NumberedFor rtable (.columnRef columnRef))
    (hst : st.rtable.map RangTblEntry.key = rtable.map RangTblEntry.key)
    (hv : evalExpr ops rtable row (.columnRef columnRef) = some value) :
    ∃ target st', subExprNodeTargetProcess (.columnRef columnRef) st =
        ([target], .columnRef target.colRef, st') ∧
      st'.rtable.map RangTblEntry.key = rtable.map RangTblEntry.key ∧
        st'.rindex = target.rindex ∧
      (∀ cell, processQualExprNode ops rtable row
        (.columnRef target.colRef) target.rindex cell =
        (some value, value)) ∧
      ∃ found, searchColumDef columnRef rtable = some found ∧
        target.rindex = found.2.1.rindex ∧
        value = row found.2.1.rindex found.2.2.attrIndex := by
  obtain ⟨⟨pos, rte, col⟩, hfound, hvalue⟩ := Option.map_eq_some_iff.mp hv
  obtain ⟨rte', hfound', hkey⟩ := searchColumDef_of_keys hst.symm hfound
  have hget := (searchColumDef_eq_some hfound').1
  have hentry : getCellValueByIndex rtable rte.rindex = some rte := by
    rw [hn columnRef (List.mem_singleton_self _) pos rte col hfound]
    exact (searchColumDef_eq_some hfound).1
  have hindex : rte'.rindex = rte.rindex := rindex_of_key hkey
  obtain ⟨target, htarget⟩ : ∃ target : TargetEntry, target = ⟨some columnRef.field,
    { columnRef with vt := col.type, attrIndex := col.attrIndex },
      rte'.rindex, col.attrIndex⟩ :=
    ⟨_, rfl⟩
  have hrun : subExprNodeTargetProcess (.columnRef columnRef) st = ([target],
      .columnRef target.colRef, { st with
        rindex := target.rindex
        rtable := st.rtable.set pos
          (markUsed st.querylevel (addRangTblTargetEntry target rte')) }) := by
    rw [subExprNodeTargetProcess, targetNodeProcess, hfound', htarget]
    rfl
  refine ⟨target, _, hrun, ?_, rfl, ?_, ⟨pos, rte, col⟩, hfound, ?_, hvalue.symm⟩
  · rw [← hst]
    exact keys_set hget (by rw [key_markUsed, key_addRangTblTargetEntry])
  · intro cell
    rw [processQualExprNode, getExprDataColumnValue, htarget, hindex, hentry, ← hvalue]
    rfl
  · rw [htarget, hindex]

/-- An operation on the values that the cell holds after its operands. -/
theorem hasValue_exprEntry {op : ExprOpType} {rtNum lrindex rrindex : Nat}
    {targetList : List TargetEntry} {left right : QualNode} {leftValue rightValue value : V}
    (hl : left ≠ .null) (hr : right ≠ .null)
    (hleft : ∀ cell, (processQualExprNode ops rtable row left lrindex cell).2 = leftValue)
    (hright : (processQualExprNode ops rtable row right rrindex leftValue).2 = rightValue)
    (hop : ops.computeExpr op leftValue rightValue = some value) :
    HasValue ops rtable row (.exprEntry op rtNum lrindex rrindex targetList left right)
      value := by
  refine ⟨nofun, nofun, ?_⟩
  intro rindex cell
  simp only [processQualExprNode, hleft, hright, ExprOps.operand_of_ne hl,
    ExprOps.operand_of_ne hr,
    hop]

theorem hasValue_mergerEntry {mergeType : BoolExprType} {targetList : List TargetEntry}
    {left right : QualNode} {leftValue rightValue : V}
    (hleft : HasValue ops rtable row left leftValue)
    (hright : HasValue ops rtable row right rightValue) :
    HasValue ops rtable row (.mergerEntry mergeType targetList left right)
      (ops.boolValue
        (mergeType.apply (ops.getDataBool leftValue) (ops.getDataBool rightValue))) := by
  refine ⟨nofun, nofun, ?_⟩
  intro rindex cell
  simp only [processQualExprNode, hleft.value_eq, hright.value_eq,
    ExprOps.operand_of_ne hleft.not_null, ExprOps.operand_of_ne hright.not_null]

/-! ## Operations -/

variable (ops rtable row)

/-- An operand as `QualNodeProcess` leaves it: a column, which is still to be looked up, or a
node with a value. -/
def IsOperand (node : ExprNode) (out : QualNode) (value : V) : Prop :=
  (∃ columnRef, node = .columnRef columnRef ∧ out = .columnRef columnRef) ∨
    node.isColumn = false ∧ HasValue ops rtable row out value

variable {ops rtable row}

theorem OperandsKept.commutes {op : ExprOpType} {node : ExprNode} {columnRef : ColumnRef}
    (h : OperandsKept ops rtable row op node (.columnRef columnRef))
    (hnode : node.isColumn = false)
    {left right : V} (hleft : evalExpr ops rtable row node = some left)
    (hright : evalExpr ops rtable row (.columnRef columnRef) = some right) :
    ops.computeExpr op left right = ops.computeExpr op right left := by
  cases node with
  | columnRef left => cases hnode
  | _ => exact h left right hleft hright

theorem columnRef_ne_null (columnRef : ColumnRef) : QualNode.columnRef columnRef ≠ .null := by
  intro h
  cases h

/-- `SimpleExprNodeProcess` on two columns. -/
theorem simpleExprNodeProcess_columns {op : ExprOpType}
    {leftColumn rightColumn : ColumnRef} {leftValue rightValue value : V} {st : QueryState}
    (hn : NumberedFor rtable (.aExpr op (.columnRef leftColumn) (.columnRef rightColumn)))
    (hst : st.rtable.map RangTblEntry.key = rtable.map RangTblEntry.key)
    (hleft : evalExpr ops rtable row (.columnRef leftColumn) = some leftValue)
    (hright : evalExpr ops rtable row (.columnRef rightColumn) = some rightValue)
    (hkept : OperandsKept ops rtable row op (.columnRef leftColumn) (.columnRef rightColumn))
    (hop : ops.computeExpr op leftValue rightValue = some value) :
    ∃ node st', simpleExprNodeProcess op (.columnRef leftColumn) (.columnRef rightColumn) st =
        (node, st') ∧
      st'.rtable.map RangTblEntry.key = rtable.map RangTblEntry.key ∧
      HasValue ops rtable row node value := by
  obtain ⟨target, st1, hsub, hst1, hindex, hlval, found, hfound, hrindex, hlrow⟩ :=
    subExpr_column hn.left hst hleft
  obtain ⟨target', st2, hsub', hst2, hindex', hrval, found', hfound', hrindex', hrrow⟩ :=
    subExpr_column hn.right hst1 hright
  simp only [simpleExprNodeProcess, hsub, hsub', hindex, hindex']
  refine ⟨_, _, rfl, hst2, ?_⟩
  have hleftNode := columnRef_ne_null target.colRef
  have hrightNode := columnRef_ne_null target'.colRef
  have hlcell := fun cell => congrArg Prod.snd (hlval cell)
  split
  next hsame =>
    -- the cell still holds the value of the left column
    have hattr : found.2.2.attrIndex = found'.2.2.attrIndex :=
      hkept found found' hfound hfound' (by rw [← hrindex, ← hrindex', hsame])
    have hvalue : leftValue = rightValue := by
      rw [hlrow, hrrow, hattr, ← hrindex, ← hrindex', hsame]
    refine hasValue_exprEntry hleftNode hrightNode hlcell ?_ hop
    rw [processQualExprNode_column_zero, hvalue]
  next =>
    exact hasValue_exprEntry hleftNode hrightNode hlcell
      (congrArg Prod.snd (hrval leftValue)) hop

/-- `SimpleExprNodeProcess` on operands that the executor has as they were written. -/
theorem simpleExprNodeProcess_value {op : ExprOpType} {lexpr rexpr : ExprNode}
    {left right : QualNode} {leftValue rightValue value : V} {st : QueryState}
    (hn : NumberedFor rtable (.aExpr op lexpr rexpr))
    (hst : st.rtable.map RangTblEntry.key = rtable.map RangTblEntry.key)
    (hleft : evalExpr ops rtable row lexpr = some leftValue)
    (hright : evalExpr ops rtable row rexpr = some rightValue)
    (hl : IsOperand ops rtable row lexpr left leftValue)
    (hr : IsOperand ops rtable row rexpr right rightValue)
    (hkept : OperandsKept ops rtable row op lexpr rexpr)
    (hop : ops.computeExpr op leftValue rightValue = some value) :
    ∃ node st', simpleExprNodeProcess op left right st = (node, st') ∧
      st'.rtable.map RangTblEntry.key = rtable.map RangTblEntry.key ∧
      HasValue ops rtable row node value := by
  rcases hl with ⟨leftColumn, rfl, rfl⟩ | ⟨hno, hlval⟩ <;>
    rcases hr with ⟨rightColumn, rfl, rfl⟩ | ⟨-, hrval⟩
  · exact simpleExprNodeProcess_columns hn hst hleft hright hkept hop
  · obtain ⟨target, st1, hsub, hst1, hindex, hlval, -⟩ := subExpr_column hn.left hst hleft
    simp only [simpleExprNodeProcess, hsub, hrval.subExpr, hindex]
    refine ⟨_, _, rfl, hst1, ?_⟩
    have hleftNode := columnRef_ne_null target.colRef
    exact hasValue_exprEntry hleftNode hrval.not_null
      (fun cell => congrArg Prod.snd (hlval cell))
      (congrArg Prod.snd (hrval.value_eq 0 leftValue)) hop
  · -- the column is moved to the left
    obtain ⟨target, st1, hsub, hst1, hindex, hrval, -⟩ := subExpr_column hn.right hst hright
    rw [hkept.commutes hno hleft hright] at hop
    simp only [simpleExprNodeProcess, hlval.subExpr, hsub, hindex]
    refine ⟨_, _, rfl, hst1, ?_⟩
    have hrightNode := columnRef_ne_null target.colRef
    exact hasValue_exprEntry hrightNode hlval.not_null
      (fun cell => congrArg Prod.snd (hrval cell))
      (congrArg Prod.snd (hlval.value_eq 0 rightValue)) hop
  · simp only [simpleExprNodeProcess, hlval.subExpr, hrval.subExpr]
    refine ⟨_, _, rfl, hst, ?_⟩
    exact hasValue_exprEntry hlval.not_null hrval.not_null
      (fun cell => congrArg Prod.snd (hlval.value_eq 0 cell))
      (congrArg Prod.snd (hrval.value_eq 0 leftValue)) hop

/-- An operand after `QualNodeProcess`, given what that makes of a node that is no column. -/
theorem operand_value {node : ExprNode} {st : QueryState} {value : V}
    (hk : node.isColumn = true ∨ MeaningKept ops rtable row node)
    (hnode : MeaningKept ops rtable row node → ∃ out st',
      qualNodeProcess node st = some (out, st') ∧
      st'.rtable.map RangTblEntry.key = rtable.map RangTblEntry.key ∧
      HasValue ops rtable row out value)
    (hst : st.rtable.map RangTblEntry.key = rtable.map RangTblEntry.key) :
    ∃ out st', qualNodeProcess node st = some (out, st') ∧
      st'.rtable.map RangTblEntry.key = rtable.map RangTblEntry.key ∧
      IsOperand ops rtable row node out value := by
  cases hcol : node.isColumn with
  | true =>
    obtain ⟨columnRef, rfl⟩ := isColumn_eq_true hcol
    exact ⟨_, st, rfl, hst, .inl ⟨columnRef, rfl, rfl⟩⟩
  | false =>
    rw [hcol] at hk
    obtain ⟨out, st', hrun, hst', hout⟩ := hnode (hk.resolve_left nofun)
    exact ⟨out, st', hrun, hst', .inr ⟨hcol, hout⟩⟩

theorem isNull_eq_false {node : ExprNode}
    (h : node.isColumn = true ∨ MeaningKept ops rtable row node) :
    node.isNull = false := by
  cases node with
  | null => exact h.elim nofun False.elim
  | _ => rfl

theorem qualNodeProcess_value {node : ExprNode} (hn : NumberedFor rtable node)
    (hk : MeaningKept ops rtable row node) {st : QueryState} {value : V}
    (hst : st.rtable.map RangTblEntry.key = rtable.map RangTblEntry.key)
    (hv : evalExpr ops rtable row node = some value) :
    ∃ out st', qualNodeProcess node st = some (out, st') ∧
      st'.rtable.map RangTblEntry.key = rtable.map RangTblEntry.key ∧
      HasValue ops rtable row out value := by
  induction node generalizing st value with
  | null | columnRef | functionClause | notExpr => exact hk.elim
  | constValue constValue =>
    cases hv
    exact ⟨_, st, rfl, hst, nofun, nofun, fun _ _ => rfl⟩
  | boolExpr boolop first second ih1 ih2 =>
    simp only [evalExpr, Option.bind_eq_bind, Option.bind_eq_some_iff, Option.pure_def] at hv
    obtain ⟨leftValue, hv1, rightValue, hv2, hvalue⟩ := hv
    have hst0 : ({ st with qualTargetList := [] } : QueryState).rtable.map RangTblEntry.key =
        rtable.map RangTblEntry.key := hst
    obtain ⟨left, st1, hrun1, hst1, hleft⟩ := ih1 hn.first hk.1 hst0 hv1
    obtain ⟨right, st2, hrun2, hst2, hright⟩ := ih2 hn.second hk.2 hst1 hv2
    cases hvalue
    refine ⟨.mergerEntry boolop st2.qualTargetList left right,
      { st2 with qualTargetList := st.qualTargetList ++ st2.qualTargetList }, ?_, hst2,
      hasValue_mergerEntry hleft hright⟩
    simp only [qualNodeProcess, hrun1, hrun2, Option.bind_eq_bind,
      Option.bind_some, Option.pure_def]
  | aExpr op lexpr rexpr ih1 ih2 =>
    simp only [evalExpr, Option.bind_eq_bind, Option.bind_eq_some_iff] at hv
    obtain ⟨leftValue, hv1, rightValue, hv2, hop⟩ := hv
    obtain ⟨hkl, hkr, hkept⟩ := hk
    obtain ⟨left, st1, hrun1, hst1, hleft⟩ :=
      operand_value hkl (fun h => ih1 hn.left h hst hv1) hst
    obtain ⟨right, st2, hrun2, hst2, hright⟩ :=
      operand_value hkr (fun h => ih2 hn.right h hst1 hv2) hst1
    obtain ⟨out, st3, hrun3, hst3, hout⟩ :=
      simpleExprNodeProcess_value hn hst2 hv1 hv2 hleft hright hkept hop
    refine ⟨out, st3, ?_, hst3, hout⟩
    rw [qualNodeProcess, isNull_eq_false hkl, isNull_eq_false hkr]
    simp only [hrun1, hrun2, Option.bind_eq_bind, Option.bind_some, Option.pure_def, hrun3,
      Bool.or_false, Bool.false_eq_true, if_false]

/-- The rewriting keeps the meaning of a condition on a row for which the operations have
their operands as they were written. -/
theorem same_truth {node : ExprNode} (hn : NumberedFor rtable node)
    (hk : MeaningKept ops rtable row node) :
    SameTruth ops rtable row node := by
  intro st value cell hst hv
  obtain ⟨out, st', hrun, -, hout⟩ := qualNodeProcess_value hn hk hst hv
  refine ⟨out, st', hrun, ?_⟩
  rw [execSelectQual, hout.value_eq]
  rfl

end Value

/-- The range table of `FROM t`. -/
def rtableT : List RangTblEntry :=
  (rangTblRewriteFromClause twoTables [⟨tableT, none⟩] firstRangtableIndex).1

theorem numbered_rtableT : Numbered rtableT := numbered_fromClause [⟨tableT, none⟩]

def columnRefA : ExprNode := .columnRef ⟨columnA, none, .unknown, 0⟩
def constFive : ExprNode := .constValue ⟨.int, .iData 5⟩

/-- `a > 5 AND 5 + a = 5`, for an `a` that is an integer: `+` may have its operands either
way. -/
theorem plus_sameTruth :
    SameTruth (valueOps (fun _ => 0) (fun _ _ _ => false) fun _ => false) rtableT
      (fun _ _ => getDataInfo 7)
      (.boolExpr .and (.aExpr .greater columnRefA constFive)
        (.aExpr .equal (.aExpr .plus constFive columnRefA) constFive)) := by
  refine same_truth (numbered_rtableT.numberedFor _) ⟨⟨.inl rfl, .inr trivial, trivial⟩,
    .inr ⟨.inr trivial, .inl rfl, ?_⟩, .inr trivial, trivial⟩
  intro left right hleft hright
  obtain rfl := Option.some.inj hleft
  obtain rfl := Option.some.inj hright
  decide

/-- `5 > a` becomes `a > 5`. -/
theorem greater_turned :
    ¬ ∀ (rtable : List RangTblEntry) (row : Nat → Nat → BitVec 32) (node : ExprNode),
      Numbered rtable →
      SameTruth intOps rtable row node := by
  intro h
  obtain ⟨out, st', hrun, htruth⟩ :=
    h rtableT (fun _ _ => 3) (.aExpr .greater constFive columnRefA)
      numbered_rtableT (.start rtableT 2) 1 0 rfl rfl
  cases hrun
  revert htruth
  decide

end Toadb
