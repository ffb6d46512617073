/-
Toadb.Plan.QueryTheorems — range table indices.

Processing the targets and the conditions changes neither the number nor the table of a range
table entry, and each target entry that it makes carries the number of an entry whose table
has the column (`QueryState.Ok`). Whether the number leads back to that entry is then a matter
of how the range table was numbered: `indices_ok_iff`.

  * SELECT numbers its entries in order (`rangTblEntries_numbered`);
  * UPDATE and DELETE put the entry with the last number in front;
  * INSERT leaves out the number 2.
-/
import Toadb.Plan.Query

namespace Toadb

/-! ## Where the targets of a query tree are -/

def QualNode.targets : QualNode → List TargetEntry
  | .exprEntry _ _ _ _ targetList lefttree righttree =>
    targetList ++ lefttree.targets ++ righttree.targets
  | .mergerEntry _ targetList lefttree righttree =>
    targetList ++ lefttree.targets ++ righttree.targets
  | _ => []

def JoinTree.targets : JoinTree → List TargetEntry
  | .scan _ _ targetList => targetList
  | .join _ _ _ targetList lefttree righttree =>
    targetList ++ lefttree.targets ++ righttree.targets

/-- Every target entry of a query tree. -/
def Query.targets (query : Query) : List TargetEntry :=
  query.targetList ++ query.qualTargetList ++ query.setValues.flatMap QualNode.targets ++
    query.rtable.flatMap RangTblEntry.targetList ++ query.joinTree.flatMap QualNode.targets ++
    query.rtjoinTree.toList.flatMap JoinTree.targets

/-! ## Indices -/

/-- The table of the entry has the column, and it is the table that the column names. -/
def RangTblEntry.OwnsColumn (rte : RangTblEntry) (columnRef : ColumnRef) : Prop :=
  ∃ tblInfo, rte.tblInfo = some tblInfo ∧
    (∃ col ∈ tblInfo.column, col.colName = columnRef.field) ∧
    ∀ tableName, columnRef.tableName = some tableName →
      ∃ rangVar, rte.rangVar = some rangVar ∧ sameName rangVar.relname tableName = true

/-- The entry at a position carries this position. -/
def Numbered (rtable : List RangTblEntry) : Prop :=
  ∀ index rte, getCellValueByIndex rtable index = some rte → rte.rindex = index

/-- The target's number leads to an entry that owns its column. -/
def LeadsToOwner (rtable : List RangTblEntry) (te : TargetEntry) : Prop :=
  ∃ rte, getCellValueByIndex rtable te.rindex = some rte ∧ rte.OwnsColumn te.colRef

/-- The range table indices of a query tree are right. -/
def IndicesOk (query : Query) : Prop :=
  Numbered query.rtable ∧ ∀ te ∈ query.targets, LeadsToOwner query.rtable te

/-! ## What stays of an entry -/

/-- The number, the name and the table of an entry. -/
def RangTblEntry.key (rte : RangTblEntry) : Nat × Option RangeVar × Option TableList :=
  (rte.rindex, rte.rangVar, rte.tblInfo)

@[simp] theorem key_markUsed (querylevel : Nat) (rte : RangTblEntry) :
    (markUsed querylevel rte).key = rte.key := by
  unfold markUsed
  split <;> rfl

@[simp] theorem key_addRangTblTargetEntry (target : TargetEntry) (rte : RangTblEntry) :
    (addRangTblTargetEntry target rte).key = rte.key := by
  unfold addRangTblTargetEntry
  split <;> rfl

@[simp] theorem key_assignTargets (st : QueryState) (rangTbl : RangTblEntry) :
    (assignTargets st rangTbl).key = rangTbl.key := rfl

theorem rindex_of_key {rte rte' : RangTblEntry} (h : rte.key = rte'.key) :
    rte.rindex = rte'.rindex := congrArg (·.1) h

theorem ownsColumn_of_key {rte rte' : RangTblEntry} {columnRef : ColumnRef}
    (h : rte.key = rte'.key)
    (ho : rte.OwnsColumn columnRef) : rte'.OwnsColumn columnRef := by
  have hvar : rte.rangVar = rte'.rangVar := congrArg (·.2.1) h
  have htbl : rte.tblInfo = rte'.tblInfo := congrArg (·.2.2) h
  rwa [RangTblEntry.OwnsColumn, hvar, htbl] at ho

theorem getCellValueByIndex_map {α β : Type} (f : α → β) (list : List α) (index : Nat) :
    getCellValueByIndex (list.map f) index = (getCellValueByIndex list index).map f := by
  unfold getCellValueByIndex
  split
  · rfl
  · exact List.getElem?_map

/-- Range tables with the same keys have the same entry at each position. -/
theorem getCellValueByIndex_of_keys {rtable rtable' : List RangTblEntry} {index : Nat}
    {rte : RangTblEntry} (h : rtable.map RangTblEntry.key = rtable'.map RangTblEntry.key)
    (hget : getCellValueByIndex rtable index = some rte) :
    ∃ rte', getCellValueByIndex rtable' index = some rte' ∧ rte'.key = rte.key := by
  have hkey := getCellValueByIndex_map RangTblEntry.key rtable index
  rw [h, getCellValueByIndex_map, hget] at hkey
  exact Option.map_eq_some_iff.mp hkey

theorem numbered_of_keys {rtable rtable' : List RangTblEntry}
    (h : rtable.map RangTblEntry.key = rtable'.map RangTblEntry.key) (hn : Numbered rtable) :
    Numbered rtable' := by
  intro index rte hget
  obtain ⟨rte', hget', hkey⟩ := getCellValueByIndex_of_keys h.symm hget
  rw [← rindex_of_key hkey]
  exact hn index rte' hget'

theorem numbered_iff_of_keys {rtable rtable' : List RangTblEntry}
    (h : rtable.map RangTblEntry.key = rtable'.map RangTblEntry.key) :
    Numbered rtable ↔ Numbered rtable' :=
  ⟨numbered_of_keys h, numbered_of_keys h.symm⟩

/-- An entry is replaced by one with the same key. -/
theorem keys_set {rtable : List RangTblEntry} {pos : Nat} {rte rte' : RangTblEntry}
    (hget : rtable[pos]? = some rte) (hkey : rte'.key = rte.key) :
    (rtable.set pos rte').map RangTblEntry.key = rtable.map RangTblEntry.key := by
  apply List.ext_getElem?
  intro i
  rw [List.getElem?_map, List.getElem?_map, List.getElem?_set]
  split
  next hi =>
    subst hi
    split
    · rw [hget, Option.map_some, Option.map_some, hkey]
    next hlen => rw [List.getElem?_eq_none (Nat.not_lt.mp hlen)]
  next => rfl

/-! ## Targets made of a range table -/

/-- The target carries the number of an entry that owns its column. -/
def TargetOf (rtable : List RangTblEntry) (te : TargetEntry) : Prop :=
  ∃ rte ∈ rtable, te.rindex = rte.rindex ∧ rte.OwnsColumn te.colRef

/-- In a numbered range table the number leads to the entry that carries it. -/
theorem getCellValueByIndex_rindex {rtable : List RangTblEntry} {rte : RangTblEntry}
    (hn : Numbered rtable) (hmem : rte ∈ rtable) :
    getCellValueByIndex rtable rte.rindex = some rte := by
  obtain ⟨pos, hpos, hget⟩ := List.mem_iff_getElem.mp hmem
  have hcell : getCellValueByIndex rtable (pos + 1) = some rte := by
    rw [getCellValueByIndex, if_neg (Nat.succ_ne_zero pos), Nat.add_sub_cancel,
      List.getElem?_eq_getElem hpos, hget]
  rw [hn (pos + 1) rte hcell]
  exact hcell

theorem TargetOf.leadsToOwner {rtable : List RangTblEntry} {te : TargetEntry}
    (h : TargetOf rtable te) (hn : Numbered rtable) : LeadsToOwner rtable te := by
  obtain ⟨rte, hmem, hindex, howns⟩ := h
  refine ⟨rte, ?_, howns⟩
  rw [hindex]
  exact getCellValueByIndex_rindex hn hmem

theorem targetOf_of_keys {rtable rtable' : List RangTblEntry} {te : TargetEntry}
    (h : rtable.map RangTblEntry.key = rtable'.map RangTblEntry.key)
    (ht : TargetOf rtable te) :
    TargetOf rtable' te := by
  obtain ⟨rte, hmem, hindex, howns⟩ := ht
  have hkey : rte.key ∈ rtable'.map RangTblEntry.key := h ▸ List.mem_map_of_mem hmem
  obtain ⟨rte', hmem', hkey'⟩ := List.mem_map.mp hkey
  exact ⟨rte', hmem', hindex.trans (rindex_of_key hkey').symm,
    ownsColumn_of_key hkey'.symm howns⟩

/-! ## Finding a column -/

theorem ownsColumn_of_columnOf {columnRef : ColumnRef} {rte : RangTblEntry}
    {col : ColumnDefInfo}
    (h : columnOf columnRef rte = some col) : rte.OwnsColumn columnRef := by
  unfold columnOf at h
  split at h
  next hown =>
    obtain ⟨tblInfo, htbl, hcol⟩ := Option.bind_eq_some_iff.mp h
    refine ⟨tblInfo, htbl, ⟨col, List.mem_of_find?_eq_some hcol, ?_⟩, ?_⟩
    · simpa using List.find?_some hcol
    · intro tableName hname
      rw [mayOwn, hname] at hown
      exact (Option.any_eq_true _ _).mp hown
  next => cases h

theorem mem_columnOwners {columnRef : ColumnRef}
    {rangTbl : List RangTblEntry} {start pos : Nat}
    {rte : RangTblEntry} {col : ColumnDefInfo}
    (h : (pos, rte, col) ∈ columnOwners columnRef rangTbl start) :
    ∃ k, pos = start + k ∧ rangTbl[k]? = some rte ∧ columnOf columnRef rte = some col := by
  induction rangTbl generalizing start with
  | nil => cases h
  | cons entry rangTbl ih =>
    have hrest : (pos, rte, col) ∈ columnOwners columnRef rangTbl (start + 1) →
        ∃ k, pos = start + k ∧ (entry :: rangTbl)[k]? = some rte ∧
          columnOf columnRef rte = some col := by
      intro hmem
      obtain ⟨k, hpos, hget, hcol⟩ := ih hmem
      exact ⟨k + 1, by omega, hget, hcol⟩
    rw [columnOwners] at h
    split at h
    next found hfound =>
      rcases List.mem_cons.mp h with heq | hmem
      · cases heq
        exact ⟨0, rfl, rfl, hfound⟩
      · exact hrest hmem
    next => exact hrest h

theorem searchColumDef_eq_some {columnRef : ColumnRef}
    {rangTbl : List RangTblEntry} {pos : Nat} {rte : RangTblEntry} {col : ColumnDefInfo}
    (h : searchColumDef columnRef rangTbl = some (pos, rte, col)) :
    rangTbl[pos]? = some rte ∧ rte.OwnsColumn columnRef := by
  unfold searchColumDef at h
  split at h
  next found hfound =>
    cases h
    obtain ⟨k, hpos, hget, hcol⟩ := mem_columnOwners (hfound ▸ List.mem_singleton_self _)
    rw [Nat.zero_add] at hpos
    exact ⟨hpos ▸ hget, ownsColumn_of_columnOf hcol⟩
  next => cases h

/-! ## Target lists -/

theorem mem_mergetTargetList {target1 target2 : List TargetEntry} {te : TargetEntry}
    (h : te ∈ mergetTargetList target1 target2) : te ∈ target1 ∨ te ∈ target2 := by
  induction target2 generalizing target1 with
  | nil => exact .inl h
  | cons target target2 ih =>
    rw [mergetTargetList, List.foldl_cons] at h
    rcases ih h with h1 | h2
    · split at h1
      · exact .inl h1
      · rcases List.mem_append.mp h1 with hold | hnew
        · exact .inl hold
        · exact .inr (List.mem_singleton.mp hnew ▸ List.mem_cons_self)
    · exact .inr (List.mem_cons_of_mem target h2)

theorem mem_addRangTblTargetEntry {target te : TargetEntry} {rte : RangTblEntry}
    (h : te ∈ (addRangTblTargetEntry target rte).targetList) :
    te ∈ rte.targetList ∨ te = target := by
  unfold addRangTblTargetEntry at h
  split at h
  · exact .inl h
  · rcases List.mem_append.mp h with hold | hnew
    · exact .inl hold
    · exact .inr (List.mem_singleton.mp hnew)

theorem targetList_markUsed (querylevel : Nat) (rte : RangTblEntry) :
    (markUsed querylevel rte).targetList = rte.targetList := by
  unfold markUsed
  split <;> rfl

/-- All columns of a table are targets of its entry. -/
theorem mem_targetRewriteAllColumnsOneRte {targetList : List TargetEntry} {rte : RangTblEntry}
    {te : TargetEntry} (h : te ∈ targetRewriteAllColumnsOneRte targetList rte) :
    te ∈ targetList ∨ te.rindex = rte.rindex ∧ rte.OwnsColumn te.colRef := by
  unfold targetRewriteAllColumnsOneRte at h
  split at h
  next => exact .inl h
  next tblInfo htbl =>
    rcases List.mem_append.mp h with hold | hnew
    · exact .inl hold
    · obtain ⟨col, hcol, rfl⟩ := List.mem_map.mp hnew
      exact .inr ⟨rfl, tblInfo, htbl, ⟨col, hcol, rfl⟩, nofun⟩

/-! ## The state of a transformation -/

/-- The entries are those of `rtable`, by number and table, and every target is one of
`rtable`. -/
structure QueryState.Ok (rtable : List RangTblEntry) (st : QueryState) : Prop where
  keys : st.rtable.map RangTblEntry.key = rtable.map RangTblEntry.key
  parent : ∀ te ∈ st.parentTargetList, TargetOf rtable te
  qual : ∀ te ∈ st.qualTargetList, TargetOf rtable te
  entries : ∀ rte ∈ st.rtable, ∀ te ∈ rte.targetList, TargetOf rtable te

section State

variable {rtable : List RangTblEntry} {st st' : QueryState}

theorem QueryState.Ok.targetOf (h : st.Ok rtable) {rte : RangTblEntry} {te : TargetEntry}
    (hmem : rte ∈ st.rtable) (hindex : te.rindex = rte.rindex)
    (howns : rte.OwnsColumn te.colRef) :
    TargetOf rtable te :=
  targetOf_of_keys h.keys ⟨rte, hmem, hindex, howns⟩

theorem QueryState.Ok.withQual (h : st.Ok rtable) {qualTargetList : List TargetEntry}
    (hq : ∀ te ∈ qualTargetList, TargetOf rtable te) (querylevel : Nat) :
    QueryState.Ok rtable
      { st with querylevel := querylevel, qualTargetList := qualTargetList } :=
  ⟨h.keys, h.parent, hq, h.entries⟩

theorem QueryState.Ok.withParent (h : st.Ok rtable) {parentTargetList : List TargetEntry}
    (hp : ∀ te ∈ parentTargetList, TargetOf rtable te) :
    QueryState.Ok rtable { st with parentTargetList := parentTargetList } :=
  ⟨h.keys, hp, h.qual, h.entries⟩

/-- One entry is replaced by one with the same key. -/
theorem QueryState.Ok.setEntry (h : st.Ok rtable) {pos : Nat} {rte rte' : RangTblEntry}
    (hget : st.rtable[pos]? = some rte) (hkey : rte'.key = rte.key)
    (ht : ∀ te ∈ rte'.targetList, TargetOf rtable te) (rindex : Nat) :
    QueryState.Ok rtable { st with rindex := rindex, rtable := st.rtable.set pos rte' } := by
  refine ⟨?_, h.parent, h.qual, ?_⟩
  · change (st.rtable.set pos rte').map RangTblEntry.key = _
    rw [keys_set hget hkey, h.keys]
  · intro entry hmem te hte
    rcases List.mem_or_eq_of_mem_set hmem with hold | rfl
    · exact h.entries entry hold te hte
    · exact ht te hte

theorem targetNodeProcess_ok (h : st.Ok rtable) {columnRef : ColumnRef}
    {name : Option CString} {target : Option TargetEntry}
    (hrun : targetNodeProcess columnRef name st = (target, st')) :
    st'.Ok rtable ∧ ∀ te ∈ target, TargetOf rtable te := by
  unfold targetNodeProcess at hrun
  split at hrun
  next =>
    cases hrun
    exact ⟨⟨h.keys, h.parent, h.qual, h.entries⟩, nofun⟩
  next pos rte colDef hfound =>
    obtain ⟨hget, howns⟩ := searchColumDef_eq_some hfound
    have hmem : rte ∈ st.rtable := List.mem_of_getElem? hget
    cases hrun
    have htarget : TargetOf rtable ⟨some (name.getD columnRef.field),
        { columnRef with vt := colDef.type, attrIndex := colDef.attrIndex }, rte.rindex,
        colDef.attrIndex⟩ := h.targetOf hmem rfl howns
    constructor
    · apply h.setEntry hget
      · rw [key_markUsed, key_addRangTblTargetEntry]
      · intro te hte
        rw [targetList_markUsed] at hte
        rcases mem_addRangTblTargetEntry hte with hold | rfl
        · exact h.entries rte hmem te hold
        · exact htarget
    · rintro te ⟨⟩
      exact htarget

theorem mem_rewriteAll {entries : List RangTblEntry}
    {targetList : List TargetEntry} {te : TargetEntry}
    (h : te ∈ entries.foldl targetRewriteAllColumnsOneRte targetList) :
    te ∈ targetList ∨ TargetOf entries te := by
  induction entries generalizing targetList with
  | nil => exact .inl h
  | cons rte entries ih =>
    rcases ih h with hfirst | ⟨rte', hmem, hindex, howns⟩
    · rcases mem_targetRewriteAllColumnsOneRte hfirst with hold | ⟨hindex, howns⟩
      · exact .inl hold
      · exact .inr ⟨rte, List.mem_cons_self, hindex, howns⟩
    · exact .inr ⟨rte', List.mem_cons_of_mem rte hmem, hindex, howns⟩

theorem targetRewriteAllColumns_ok (h : st.Ok rtable)
    {targetList targetList' : List TargetEntry} (ht : ∀ te ∈ targetList, TargetOf rtable te)
    (hrun : targetRewriteAllColumns targetList st = (targetList', st')) :
    st'.Ok rtable ∧ ∀ te ∈ targetList', TargetOf rtable te := by
  cases hrun
  refine ⟨⟨?_, h.parent, h.qual, ?_⟩, ?_⟩
  · have hkeys : RangTblEntry.key ∘ markUsed st.querylevel = RangTblEntry.key :=
      funext (key_markUsed st.querylevel)
    rw [List.map_map, hkeys, h.keys]
  · intro rte hmem te hte
    obtain ⟨rte', hmem', rfl⟩ := List.mem_map.mp hmem
    rw [targetList_markUsed] at hte
    exact h.entries rte' hmem' te hte
  · intro te hte
    rcases mem_rewriteAll hte with hold | hnew
    · exact ht te hold
    · exact targetOf_of_keys h.keys hnew

/-! ## Conditions -/

theorem subExprNodeTargetProcess_ok (h : st.Ok rtable) {node node' : QualNode}
    {targetList : List TargetEntry}
    (hrun : subExprNodeTargetProcess node st = (targetList, node', st')) :
    st'.Ok rtable ∧ (∀ te ∈ targetList, TargetOf rtable te) ∧
      node'.targets = node.targets := by
  unfold subExprNodeTargetProcess at hrun
  split at hrun
  next columnRef =>
    split at hrun
    next target st1 htarget =>
      obtain ⟨hst, hte⟩ := targetNodeProcess_ok h htarget
      cases hrun
      refine ⟨hst, ?_, rfl⟩
      intro te hmem
      rw [List.mem_singleton.mp hmem]
      exact hte target rfl
    next st1 htarget =>
      obtain ⟨hst, -⟩ := targetNodeProcess_ok h htarget
      cases hrun
      exact ⟨hst, nofun, rfl⟩
  next =>
    cases hrun
    exact ⟨h, nofun, rfl⟩

theorem mem_targets_exprEntry {op : ExprOpType} {rtNum rindex rrindex : Nat}
    {targetList : List TargetEntry} {lefttree righttree : QualNode} {te : TargetEntry} :
    te ∈ (QualNode.exprEntry op rtNum rindex rrindex targetList lefttree righttree).targets ↔
      te ∈ targetList ∨ te ∈ lefttree.targets ∨ te ∈ righttree.targets := by
  simp only [QualNode.targets, List.mem_append, or_assoc]

theorem simpleExprNodeProcess_ok (h : st.Ok rtable) {op : ExprOpType}
    {lefttree righttree node : QualNode} (hleft : ∀ te ∈ lefttree.targets, TargetOf rtable te)
    (hright : ∀ te ∈ righttree.targets, TargetOf rtable te)
    (hrun : simpleExprNodeProcess op lefttree righttree st = (node, st')) :
    st'.Ok rtable ∧ ∀ te ∈ node.targets, TargetOf rtable te := by
  obtain ⟨leftList, lefttree1, st1, hrun1⟩ :
      ∃ leftList lefttree1 st1, subExprNodeTargetProcess lefttree st =
        (leftList, lefttree1, st1) :=
    ⟨_, _, _, rfl⟩
  obtain ⟨rightList, righttree1, st2, hrun2⟩ :
      ∃ rightList righttree1 st2,
        subExprNodeTargetProcess righttree st1 = (rightList, righttree1, st2) :=
          ⟨_, _, _, rfl⟩
  obtain ⟨hst1, hlist1, htree1⟩ := subExprNodeTargetProcess_ok h hrun1
  obtain ⟨hst2, hlist2, htree2⟩ := subExprNodeTargetProcess_ok hst1 hrun2
  have hlist : ∀ te ∈ mergetTargetList leftList rightList, TargetOf rtable te := by
    intro te hmem
    rcases mem_mergetTargetList hmem with h1 | h2
    · exact hlist1 te h1
    · exact hlist2 te h2
  rw [← htree1] at hleft
  rw [← htree2] at hright
  simp only [simpleExprNodeProcess, hrun1, hrun2, Prod.mk.injEq] at hrun
  obtain ⟨rfl, rfl⟩ := hrun
  constructor
  · apply hst2.withQual
    intro te hmem
    rcases mem_mergetTargetList hmem with hold | hnew
    · exact h.qual te hold
    · exact hlist te hnew
  · intro te hmem
    -- the operands may be swapped
    have hcases : te ∈ mergetTargetList leftList rightList ∨ te ∈ lefttree1.targets ∨
        te ∈ righttree1.targets := by
      split at hmem
      · exact mem_targets_exprEntry.mp hmem
      · exact (mem_targets_exprEntry.mp hmem).imp_right Or.symm
      · exact mem_targets_exprEntry.mp hmem
      · split at hmem
        · exact mem_targets_exprEntry.mp hmem
        · exact mem_targets_exprEntry.mp hmem
    rcases hcases with h1 | h2 | h3
    · exact hlist te h1
    · exact hleft te h2
    · exact hright te h3

theorem qualNodeProcess_ok {node : ExprNode} {st st' : QueryState}
    {out : QualNode} (h : st.Ok rtable) (hrun : qualNodeProcess node st = some (out, st')) :
    st'.Ok rtable ∧ ∀ te ∈ out.targets, TargetOf rtable te := by
  induction node generalizing st st' out with
  | null | columnRef | constValue | functionClause =>
    cases hrun
    exact ⟨h, nofun⟩
  | notExpr => cases hrun
  | boolExpr boolop first second ih1 ih2 =>
    simp only [qualNodeProcess, Option.bind_eq_bind, Option.bind_eq_some_iff, Option.pure_def,
      Prod.exists] at hrun
    obtain ⟨lefttree, st1, hrun1, righttree, st2, hrun2, hout⟩ := hrun
    obtain ⟨hst1, hleft⟩ := ih1 (h.withQual (nofun : ∀ te ∈ [], _) st.querylevel) hrun1
    obtain ⟨hst2, hright⟩ := ih2 hst1 hrun2
    cases hout
    constructor
    · apply hst2.withQual
      intro te hmem
      rcases List.mem_append.mp hmem with hold | hnew
      · exact h.qual te hold
      · exact hst2.qual te hnew
    · intro te hmem
      simp only [QualNode.targets, List.mem_append] at hmem
      rcases hmem with (hlist | hmem) | hmem
      · exact hst2.qual te hlist
      · exact hleft te hmem
      · exact hright te hmem
  | aExpr exprOpType lexpr rexpr ih1 ih2 =>
    rw [qualNodeProcess] at hrun
    split at hrun
    next =>
      cases hrun
      exact ⟨h, nofun⟩
    next =>
      simp only [Option.bind_eq_bind, Option.bind_eq_some_iff, Option.pure_def,
        Prod.exists] at hrun
      obtain ⟨leftExpr, st1, hrun1, rightExpr, st2, hrun2, hout⟩ := hrun
      obtain ⟨hst1, hleft⟩ := ih1 h hrun1
      obtain ⟨hst2, hright⟩ := ih2 hst1 hrun2
      exact simpleExprNodeProcess_ok hst2 hleft hright (Option.some.inj hout)

theorem queryJoinTransform_ok {qual : List ExprNode} {st st' : QueryState}
    {joinTree : List QualNode}
    (h : st.Ok rtable) (hrun : queryJoinTransform qual st = some (joinTree, st')) :
    st'.Ok rtable ∧ ∀ te ∈ joinTree.flatMap QualNode.targets, TargetOf rtable te := by
  induction qual generalizing st st' joinTree with
  | nil =>
    cases hrun
    exact ⟨h, nofun⟩
  | cons valueNode qual ih =>
    simp only [queryJoinTransform, Option.bind_eq_bind,
      Option.bind_eq_some_iff, Option.pure_def,
      Prod.exists] at hrun
    obtain ⟨node, st1, hrun1, rest, st2, hrun2, hout⟩ := hrun
    obtain ⟨hst1, hnode⟩ := qualNodeProcess_ok h hrun1
    obtain ⟨hst2, hrest⟩ := ih hst1 hrun2
    split at hout
    next =>
      cases hout
      exact ⟨hst2, hrest⟩
    next =>
      cases hout
      refine ⟨hst2, ?_⟩
      intro te hmem
      rw [List.flatMap_cons] at hmem
      rcases List.mem_append.mp hmem with h1 | h2
      · exact hnode te h1
      · exact hrest te h2

/-! ## Target lists of a statement -/

theorem processSetValue_ok {setValue : ExprNode} {setValues setValues' : List QualNode}
    (h : st.Ok rtable) (hset : ∀ te ∈ setValues.flatMap QualNode.targets, TargetOf rtable te)
    (hrun : processSetValue setValue setValues st = some (setValues', st')) :
    st'.Ok rtable ∧ ∀ te ∈ setValues'.flatMap QualNode.targets, TargetOf rtable te := by
  unfold processSetValue at hrun
  split at hrun
  next =>
    cases hrun
    exact ⟨h, hset⟩
  next =>
    simp only [Option.bind_eq_bind, Option.bind_eq_some_iff, Option.pure_def,
      Prod.exists] at hrun
    obtain ⟨node, st1, hrun1, hout⟩ := hrun
    obtain ⟨hst1, hnode⟩ := qualNodeProcess_ok h hrun1
    cases hout
    refine ⟨hst1, ?_⟩
    intro te hmem
    rw [List.flatMap_append, List.flatMap_singleton] at hmem
    rcases List.mem_append.mp hmem with h1 | h2
    · exact hset te h1
    · exact hnode te h2

theorem processCheckTargetList_ok {targetlist : List ResTarget} {st st' : QueryState}
    {targetList targetList' : List TargetEntry} {setValues setValues' : List QualNode}
    (h : st.Ok rtable) (ht : ∀ te ∈ targetList, TargetOf rtable te)
    (hset : ∀ te ∈ setValues.flatMap QualNode.targets, TargetOf rtable te)
    (hrun : processCheckTargetList targetlist targetList setValues st =
      some (targetList', setValues', st')) :
    st'.Ok rtable ∧ (∀ te ∈ targetList', TargetOf rtable te) ∧
      ∀ te ∈ setValues'.flatMap QualNode.targets, TargetOf rtable te := by
  induction targetlist generalizing st targetList setValues with
  | nil =>
    cases hrun
    exact ⟨h, ht, hset⟩
  | cons resTarget targetlist ih =>
    rw [processCheckTargetList] at hrun
    split at hrun
    next columnRef _ =>
      split at hrun
      next st1 htarget =>
        cases hrun
        exact ⟨(targetNodeProcess_ok h htarget).1, ht, hset⟩
      next target st1 htarget =>
        obtain ⟨hst1, hnew⟩ := targetNodeProcess_ok h htarget
        simp only [Option.bind_eq_bind, Option.bind_eq_some_iff, Prod.exists] at hrun
        obtain ⟨setValues1, st2, hrun1, hrun2⟩ := hrun
        obtain ⟨hst2, hset1⟩ := processSetValue_ok hst1 hset hrun1
        refine ih hst2 ?_ hset1 hrun2
        intro te hmem
        rcases List.mem_append.mp hmem with hold | hlast
        · exact ht te hold
        · rw [List.mem_singleton.mp hlast]
          exact hnew target rfl
    next =>
      split at hrun
      next =>
        simp only [Option.bind_eq_bind, Option.bind_eq_some_iff, Prod.exists] at hrun
        obtain ⟨setValues1, st2, hrun1, hrun2⟩ := hrun
        obtain ⟨hst1, hall⟩ := targetRewriteAllColumns_ok h ht rfl
        obtain ⟨hst2, hset1⟩ := processSetValue_ok hst1 hset hrun1
        exact ih hst2 hall hset1 hrun2
      next =>
        cases hrun
        exact ⟨h, nofun, hset⟩
    next =>
      cases hrun
      exact ⟨h, ht, hset⟩

/-! ## Scans -/

theorem targetList_subset_targets {joinTree : JoinTree} {te : TargetEntry}
    (h : te ∈ joinTree.targetList) : te ∈ joinTree.targets := by
  cases joinTree with
  | scan => exact h
  | join => exact List.mem_append_left _ (List.mem_append_left _ h)

theorem mem_addJoinTblNode {left : Option JoinTree}
    {rangTbl : RangTblEntry} {te : TargetEntry}
    (h : te ∈ (addJoinTblNode left rangTbl).targets) :
    te ∈ left.toList.flatMap JoinTree.targets ∨ te ∈ rangTbl.targetList := by
  cases left with
  | none => exact .inr h
  | some left =>
    rw [Option.toList_some, List.flatMap_singleton]
    rcases List.mem_append.mp h with hjoin | hscan
    · rcases List.mem_append.mp hjoin with hmerged | hleft
      · exact (mem_mergetTargetList hmerged).imp_left targetList_subset_targets
      · exact .inl hleft
    · exact .inr hscan

theorem mem_scanTree {rangTbls : List RangTblEntry}
    {left : Option JoinTree} {te : TargetEntry}
    (h : te ∈ (rangTbls.foldl (fun joinTree rangTbl => some (addJoinTblNode joinTree rangTbl))
      left).toList.flatMap JoinTree.targets) :
    te ∈ left.toList.flatMap JoinTree.targets ∨ ∃ rangTbl ∈ rangTbls,
      te ∈ rangTbl.targetList := by
  induction rangTbls generalizing left with
  | nil => exact .inl h
  | cons rangTbl rangTbls ih =>
    rcases ih h with hfirst | ⟨rangTbl', hmem, hte⟩
    · rw [Option.toList_some, List.flatMap_singleton] at hfirst
      exact (mem_addJoinTblNode hfirst).imp_right fun hte =>
        ⟨rangTbl, List.mem_cons_self, hte⟩
    · exact .inr ⟨rangTbl', List.mem_cons_of_mem rangTbl hmem, hte⟩

theorem assignTargets_targetOf (h : st.Ok rtable) {rangTbl : RangTblEntry}
    (hmem : rangTbl ∈ st.rtable)
    {te : TargetEntry} (hte : te ∈ (assignTargets st rangTbl).targetList) :
    TargetOf rtable te := by
  change te ∈ (if rangTbl.isScaned then _ else if rangTbl.isNeeded then _ else _) at hte
  split at hte
  · exact h.qual te (List.mem_filter.mp hte).1
  · split at hte
    · exact h.parent te (List.mem_filter.mp hte).1
    · rcases mem_targetRewriteAllColumnsOneRte hte with hold | ⟨hindex, howns⟩
      · exact h.entries rangTbl hmem te hold
      · exact h.targetOf hmem hindex howns

theorem commonQueryTransform_ok (h : st.Ok rtable) {rtjoinTree : Option JoinTree}
    (hrun : commonQueryTransform st = (rtjoinTree, st')) :
    st'.Ok rtable ∧ ∀ te ∈ rtjoinTree.toList.flatMap JoinTree.targets,
      TargetOf rtable te := by
  unfold commonQueryTransform at hrun
  split at hrun
  next =>
    cases hrun
    exact ⟨h, nofun⟩
  next =>
    cases hrun
    have hentries : ∀ rte ∈ st.rtable.map (assignTargets st), ∀ te ∈ rte.targetList,
        TargetOf rtable te := by
      intro rte hmem te hte
      obtain ⟨rangTbl, hmem', rfl⟩ := List.mem_map.mp hmem
      exact assignTargets_targetOf h hmem' hte
    refine ⟨⟨?_, h.parent, h.qual, hentries⟩, ?_⟩
    · rw [List.map_map]
      exact h.keys
    · intro te hte
      rcases mem_scanTree hte with hnone | ⟨rte, hmem, hte⟩
      · cases hnone
      · exact hentries rte hmem te hte

/-- The query tree has the entries of `rtable`, by number and table, and only targets of
`rtable`. -/
structure Query.Of (rtable : List RangTblEntry) (query : Query) : Prop where
  keys : query.rtable.map RangTblEntry.key = rtable.map RangTblEntry.key
  targets : ∀ te ∈ query.targets, TargetOf rtable te

theorem transformQual_of (h : st.Ok rtable) {commandType : CmdType}
    {whereList : List ExprNode} {setValues : List QualNode} {query : Query}
    (hset : ∀ te ∈ setValues.flatMap QualNode.targets, TargetOf rtable te)
    (hrun : transformQual commandType whereList setValues st = some query) :
    query.Of rtable := by
  simp only [transformQual, Option.bind_eq_bind, Option.bind_eq_some_iff, Option.pure_def,
    Prod.exists] at hrun
  obtain ⟨joinTree, st1, hrun1, -, -, hout⟩ := hrun
  obtain ⟨hst1, hjoin⟩ := queryJoinTransform_ok (h.withQual (nofun : ∀ te ∈ [], _) 2) hrun1
  obtain ⟨hst2, hscan⟩ := commonQueryTransform_ok hst1 rfl
  cases hout
  refine ⟨hst2.keys, ?_⟩
  intro te hmem
  simp only [Query.targets, List.mem_append] at hmem
  rcases hmem with ((((hmem | hmem) | hmem) | hmem) | hmem) | hmem
  · exact hst2.parent te hmem
  · exact hst2.qual te hmem
  · exact hset te hmem
  · obtain ⟨rte, hrte, hte⟩ := List.mem_flatMap.mp hmem
    exact hst2.entries rte hrte te hte
  · exact hjoin te hmem
  · exact hscan te hmem

/-- The indices of such a query tree are right exactly when the entries are numbered in
order. -/
theorem Query.Of.indicesOk_iff {query : Query} (h : query.Of rtable) :
    IndicesOk query ↔ Numbered rtable := by
  rw [IndicesOk, numbered_iff_of_keys h.keys]
  constructor
  · exact And.left
  · intro hn
    refine ⟨hn, ?_⟩
    intro te hmem
    exact (targetOf_of_keys h.keys.symm (h.targets te hmem)).leadsToOwner
      (numbered_of_keys h.keys.symm hn)

end State

/-! ## Numbering -/

section Numbering

variable {getTableInfo : CString → Option TableList}

theorem rangTblOf_eq_some {rangVar : RangeVar} {rindex : Nat} {rte : RangTblEntry}
    (h : rangTblOf getTableInfo rangVar rindex = some rte) :
    rte.rindex = rindex ∧ rte.targetList = [] := by
  simp only [rangTblOf, getRangTblNode, Option.bind_eq_bind, Option.bind_eq_some_iff,
    Option.pure_def] at h
  obtain ⟨node, ⟨tblInfo, -, hnode⟩, hout⟩ := h
  cases hnode
  cases hout
  exact ⟨rfl, rfl⟩

/-- The entries of a FROM list are numbered from `rindex` on. -/
theorem rangTblEntries_numbered {fromList : List RangeVar} {rindex : Nat}
    {rangTblList : List RangTblEntry}
    (h : rangTblEntries getTableInfo fromList rindex = some rangTblList) :
    rangTblList.length = fromList.length ∧ ∀ (pos : Nat) (rte : RangTblEntry),
      rangTblList[pos]? = some rte → rte.rindex = rindex + pos ∧ rte.targetList = [] := by
  induction fromList generalizing rindex rangTblList with
  | nil =>
    cases h
    exact ⟨rfl, nofun⟩
  | cons rangVar fromList ih =>
    simp only [rangTblEntries, Option.bind_eq_bind, Option.bind_eq_some_iff,
      Option.pure_def] at h
    obtain ⟨entry, hentry, rest, hrest, hout⟩ := h
    cases hout
    obtain ⟨hlen, hnum⟩ := ih hrest
    refine ⟨congrArg (· + 1) hlen, ?_⟩
    intro pos rte hget
    cases pos with
    | zero =>
      cases hget
      exact rangTblOf_eq_some hentry
    | succ pos =>
      obtain ⟨hindex, hempty⟩ := hnum pos rte hget
      exact ⟨by omega, hempty⟩

/-- A table of the FROM list is not known. -/
def FromListFails (getTableInfo : CString → Option TableList)
    (fromList : List RangeVar) : Prop :=
  ∃ rangVar ∈ fromList, getTableInfo rangVar.relname = none

theorem rangTblOf_eq_none {rangVar : RangeVar} {rindex : Nat} :
    rangTblOf getTableInfo rangVar rindex = none ↔ getTableInfo rangVar.relname = none := by
  cases h : getTableInfo rangVar.relname <;> simp [rangTblOf, getRangTblNode, h]

theorem rangTblEntries_eq_none {fromList : List RangeVar} {rindex : Nat} :
    rangTblEntries getTableInfo fromList rindex = none ↔
      FromListFails getTableInfo fromList := by
  induction fromList generalizing rindex with
  | nil => simp [rangTblEntries, FromListFails]
  | cons rangVar fromList ih =>
    have hcons : FromListFails getTableInfo (rangVar :: fromList) ↔
        rangTblOf getTableInfo rangVar rindex = none ∨
          rangTblEntries getTableInfo fromList (rindex + 1) = none := by
      rw [rangTblOf_eq_none, ih]
      simp [FromListFails]
    rw [hcons]
    cases h1 : rangTblOf getTableInfo rangVar rindex with
    | none => simp [rangTblEntries, h1]
    | some entry =>
      cases h2 : rangTblEntries getTableInfo fromList (rindex + 1) <;>
        simp [rangTblEntries, h1, h2]

/-- No entry of the FROM list gets a number. -/
def FromListLeftOut (getTableInfo : CString → Option TableList)
    (fromList : List RangeVar) : Prop :=
  fromList = [] ∨ FromListFails getTableInfo fromList

theorem rangTblRewriteFromClause_numbered {fromList : List RangeVar} {rindex : Nat} :
    ∀ (pos : Nat) (rte : RangTblEntry),
      (rangTblRewriteFromClause getTableInfo fromList rindex).1[pos]? = some rte →
        rte.rindex = rindex + pos ∧ rte.targetList = [] := by
  unfold rangTblRewriteFromClause
  split
  next rangTblList hrun => exact (rangTblEntries_numbered hrun).2
  next => exact nofun

/-- The next number is the first one exactly when no entry was made. -/
theorem rangTblRewriteFromClause_snd {fromList : List RangeVar} {rindex : Nat} :
    (rangTblRewriteFromClause getTableInfo fromList rindex).2 = rindex ↔
      FromListLeftOut getTableInfo fromList := by
  unfold rangTblRewriteFromClause
  split
  next rangTblList hrun =>
    have hfails : ¬ FromListFails getTableInfo fromList := by
      intro hfails
      have hnone : rangTblEntries getTableInfo fromList rindex = none :=
        rangTblEntries_eq_none.mpr hfails
      rw [hrun] at hnone
      cases hnone
    rw [FromListLeftOut, or_iff_left hfails, ← List.length_eq_zero_iff,
      ← (rangTblEntries_numbered hrun).1]
    constructor
    · intro h
      exact Nat.add_eq_left.mp h
    · intro h
      exact Nat.add_eq_left.mpr h
  next hrun =>
    exact iff_of_true rfl (.inr (rangTblEntries_eq_none.mp hrun))

/-- Without an entry of the FROM list there is only the table to change. -/
theorem rangTblRewriteFromClause_fst {fromList : List RangeVar} {rindex : Nat}
    (h : FromListLeftOut getTableInfo fromList) :
    (rangTblRewriteFromClause getTableInfo fromList rindex).1 = [] := by
  rcases h with rfl | hfails
  · rfl
  · rw [rangTblRewriteFromClause, rangTblEntries_eq_none.mpr hfails]

/-- SELECT numbers its range table in order. -/
theorem numbered_fromClause (fromList : List RangeVar) :
    Numbered (rangTblRewriteFromClause getTableInfo fromList firstRangtableIndex).1 := by
  intro index rte hget
  unfold getCellValueByIndex at hget
  split at hget
  next => cases hget
  next hne =>
    have hindex := (rangTblRewriteFromClause_numbered _ _ hget).1
    rw [firstRangtableIndex] at hindex
    omega

/-- The entry in front is numbered last. -/
theorem numbered_front_iff {fromList : List RangeVar} {rte : RangTblEntry}
    (hrte : rte.rindex =
      (rangTblRewriteFromClause getTableInfo fromList firstRangtableIndex).2) :
    Numbered (rte :: (rangTblRewriteFromClause getTableInfo fromList firstRangtableIndex).1) ↔
      FromListLeftOut getTableInfo fromList := by
  constructor
  · intro hn
    have hfirst : rte.rindex = 1 := hn 1 rte rfl
    exact rangTblRewriteFromClause_snd.mp (hrte.symm.trans hfirst)
  · intro hout
    rw [rangTblRewriteFromClause_fst hout]
    have hfirst : rte.rindex = 1 := hrte.trans (rangTblRewriteFromClause_snd.mpr hout)
    rintro (_ | _ | index) entry hget
    · cases hget
    · cases hget
      exact hfirst
    · cases hget

/-! ## The statements -/

theorem QueryState.Ok.start {rtable : List RangTblEntry}
    (h : ∀ rte ∈ rtable, rte.targetList = [])
    {rindex : Nat} : (QueryState.start rtable rindex).Ok rtable := by
  refine ⟨rfl, nofun, nofun, ?_⟩
  intro rte hmem te hte
  rw [h rte hmem] at hte
  cases hte

theorem targetOf_nil (rtable : List RangTblEntry) : ∀ te ∈ [], TargetOf rtable te := nofun

theorem targetOf_noValues (rtable : List RangTblEntry) :
    ∀ te ∈ ([] : List QualNode).flatMap QualNode.targets, TargetOf rtable te := nofun

/-- The targets of a statement, and then its conditions and scans. -/
theorem transformTargets_of {rtable : List RangTblEntry}
    (hempty : ∀ rte ∈ rtable, rte.targetList = [])
    {rindex : Nat} {targetlist : List ResTarget} {targetList : List TargetEntry}
    {setValues : List QualNode} {st : QueryState} {commandType : CmdType}
    {whereList : List ExprNode} {query : Query}
    (htargets : processCheckTargetList targetlist [] [] (.start rtable rindex) =
      some (targetList, setValues, st))
    (hqual : transformQual commandType whereList setValues
      { st with parentTargetList := targetList } =
      some query) : query.Of rtable := by
  obtain ⟨hst, hlist, hset⟩ := processCheckTargetList_ok (.start hempty)
    (targetOf_nil rtable) (targetOf_noValues rtable) htargets
  exact transformQual_of (hst.withParent hlist) hset hqual

theorem targetList_fromClause (getTableInfo : CString → Option TableList)
    (fromList : List RangeVar) (rindex : Nat) :
    ∀ rte ∈ (rangTblRewriteFromClause getTableInfo fromList rindex).1,
      rte.targetList = [] := by
  intro rte hmem
  obtain ⟨pos, hget⟩ := List.mem_iff_getElem?.mp hmem
  exact (rangTblRewriteFromClause_numbered pos rte hget).2

theorem transformSelectStmt_of {selectStmt : SelectStmt} {query : Query}
    (h : transformSelectStmt getTableInfo selectStmt = some query) :
    query.Of
      (rangTblRewriteFromClause getTableInfo selectStmt.fromList firstRangtableIndex).1 := by
  simp only [transformSelectStmt, Option.bind_eq_bind,
    Option.bind_eq_some_iff, Prod.exists] at h
  obtain ⟨-, -, targetList, setValues, st, htargets, hqual⟩ := h
  exact transformTargets_of (targetList_fromClause getTableInfo _ _) htargets hqual

theorem transformUpdateStmt_of {updateStmt : UpdateStmt} {query : Query}
    (h : transformUpdateStmt getTableInfo updateStmt = some query) :
    ∃ rte, rte.rindex =
        (rangTblRewriteFromClause getTableInfo updateStmt.fromList firstRangtableIndex).2 ∧
      query.Of (rte ::
        (rangTblRewriteFromClause getTableInfo updateStmt.fromList
          firstRangtableIndex).1) := by
  simp only [transformUpdateStmt, Option.bind_eq_bind,
    Option.bind_eq_some_iff, Prod.exists] at h
  obtain ⟨rte, hrte, targetList, setValues, st, htargets, hqual⟩ := h
  obtain ⟨hindex, hempty⟩ := rangTblOf_eq_some hrte
  refine ⟨rte, hindex, transformTargets_of ?_ htargets hqual⟩
  intro entry hmem
  rcases List.mem_cons.mp hmem with rfl | hfrom
  · exact hempty
  · exact targetList_fromClause getTableInfo _ _ entry hfrom

theorem QueryState.Ok.append {rtable rtable' : List RangTblEntry} {st : QueryState}
    (h : st.Ok rtable) (hempty : ∀ rte ∈ rtable', rte.targetList = []) :
    QueryState.Ok (rtable ++ rtable') { st with rtable := st.rtable ++ rtable' } := by
  have hmono : ∀ te, TargetOf rtable te → TargetOf (rtable ++ rtable') te := by
    rintro te ⟨rte, hmem, hte⟩
    exact ⟨rte, List.mem_append_left _ hmem, hte⟩
  refine ⟨?_, ?_, ?_, ?_⟩
  · rw [List.map_append, List.map_append, h.keys]
  · intro te hte
    exact hmono te (h.parent te hte)
  · intro te hte
    exact hmono te (h.qual te hte)
  · intro rte hmem te hte
    rcases List.mem_append.mp hmem with hold | hnew
    · exact hmono te (h.entries rte hold te hte)
    · rw [hempty rte hnew] at hte
      cases hte

theorem transformDeleteStmt_of {deleteStmt : DeleteStmt} {query : Query}
    (h : transformDeleteStmt getTableInfo deleteStmt = some query) :
    ∃ rte, rte.rindex =
        (rangTblRewriteFromClause getTableInfo deleteStmt.fromList firstRangtableIndex).2 ∧
      query.Of (rte ::
        (rangTblRewriteFromClause getTableInfo deleteStmt.fromList
          firstRangtableIndex).1) := by
  simp only [transformDeleteStmt, Option.bind_eq_bind, Option.bind_eq_some_iff] at h
  obtain ⟨rte, hrte, hqual⟩ := h
  obtain ⟨hindex, hempty⟩ := rangTblOf_eq_some hrte
  have hstart : (QueryState.start [rte] (rte.rindex + 1)).Ok [rte] :=
    .start (List.forall_mem_singleton.mpr hempty)
  obtain ⟨hst, hlist⟩ := targetRewriteAllColumns_ok hstart (targetOf_nil _) rfl
  have happend := (hst.withParent hlist).append
    (targetList_fromClause getTableInfo deleteStmt.fromList firstRangtableIndex)
  rw [← hindex] at hqual
  exact ⟨rte, hindex, transformQual_of happend (targetOf_noValues _) hqual⟩

/-- The VALUES of an INSERT are entry 2 of the range table and carry the number 3. -/
theorem transformInsertStmt_not_numbered {insertStmt : InsertStmt} {query : Query}
    (h : transformInsertStmt getTableInfo insertStmt = some query) :
    ¬ Numbered query.rtable := by
  simp only [transformInsertStmt, Option.bind_eq_bind, Option.bind_eq_some_iff,
    Option.pure_def] at h
  obtain ⟨rtableNode, -, tblInfo, -, hout⟩ := h
  cases hout
  intro hn
  have hvalues : firstRangtableIndex + 1 + 1 = 2 := hn 2 _ rfl
  exact absurd hvalues (by decide)

/-- The statement numbers its range table in the order of the entries. -/
def Stmt.NumberedInOrder (getTableInfo : CString → Option TableList) : Stmt → Prop
  | .select _ => True
  | .insert _ => False
  | .update updateStmt => FromListLeftOut getTableInfo updateStmt.fromList
  | .delete deleteStmt => FromListLeftOut getTableInfo deleteStmt.fromList

end Numbering

/-- The range table indices of a query tree are right for a SELECT, and for an UPDATE or a
DELETE without entries of a FROM list; they are never right for an INSERT. -/
theorem indices_ok_iff {getTableInfo : CString → Option TableList}
    {stmt : Stmt} {query : Query} (h : transformStmt getTableInfo stmt = some query) :
    IndicesOk query ↔ stmt.NumberedInOrder getTableInfo := by
  cases stmt with
  | select selectStmt =>
    rw [(transformSelectStmt_of h).indicesOk_iff]
    exact iff_of_true (numbered_fromClause selectStmt.fromList) trivial
  | insert insertStmt => exact iff_of_false (transformInsertStmt_not_numbered h ·.1) id
  | update updateStmt =>
    obtain ⟨rte, hindex, hquery⟩ := transformUpdateStmt_of h
    rw [hquery.indicesOk_iff]
    exact numbered_front_iff hindex
  | delete deleteStmt =>
    obtain ⟨rte, hindex, hquery⟩ := transformDeleteStmt_of h
    rw [hquery.indicesOk_iff]
    exact numbered_front_iff hindex

/-- Two tables, `t` and `u`, with the columns `a` and `b`. -/
def tableT : CString := cString [116]
def tableU : CString := cString [117]
def columnA : CString := cString [97]
def columnB : CString := cString [98]

def twoTables (tableName : CString) : Option TableList :=
  if tableName = tableT then some ⟨[⟨columnA, .int, 0⟩]⟩
  else if tableName = tableU then some ⟨[⟨columnB, .int, 0⟩]⟩
  else none

/-- `SELECT a, u.b FROM t, u WHERE 5 > b`. -/
def selectBoth : SelectStmt where
  targetlist := [⟨none, .columnRef ⟨columnA, none, .unknown, 0⟩, .null, false⟩,
    ⟨none, .columnRef ⟨columnB, some tableU, .unknown, 0⟩, .null, false⟩]
  fromList := [⟨tableT, none⟩, ⟨tableU, none⟩]
  whereList := [.aExpr .greater (.constValue ⟨.int, .iData 5⟩)
    (.columnRef ⟨columnB, none, .unknown, 0⟩)]

theorem selectBoth_indicesOk :
    ∃ query, transformStmt twoTables (.select selectBoth) = some query ∧ IndicesOk query := by
  have hsome : (transformStmt twoTables (.select selectBoth)).isSome = true := by decide
  obtain ⟨query, hquery⟩ := Option.isSome_iff_exists.mp hsome
  exact ⟨query, hquery, (indices_ok_iff hquery).mpr trivial⟩

/-- `UPDATE t SET a = 1 FROM u`. -/
def updateFrom : UpdateStmt where
  relation := ⟨tableT, none⟩
  targetlist :=
    [⟨none, .columnRef ⟨columnA, none, .unknown, 0⟩, .constValue ⟨.int, .iData 1⟩, false⟩]
  fromList := [⟨tableU, none⟩]
  whereList := []

/-- The number of the target leads to the other table. -/
theorem updateFrom_misnumbered :
    ¬ ∀ (getTableInfo : CString → Option TableList) (stmt : Stmt) (query : Query),
      transformStmt getTableInfo stmt = some query → IndicesOk query := by
  intro h
  obtain ⟨hnum, -⟩ := h twoTables (.update updateFrom) _ rfl
  have hfirst : 2 = 1 := hnum 1 _ rfl
  exact absurd hfirst (by decide)

end Toadb
