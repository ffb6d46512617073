/-
Toadb.Executor.NestLoopTheorems — what a nested loop join hands out.

The abstract join of a list of tables is the Cartesian product of their visible
rows, the last table fastest. The nested loop takes the right table anew for
every left row; but the scan it rescans is at its end, and there the group
search holds no page, so it is not reset and starts again on the last group
page. `nestRows` is what comes out: the whole right table for the first left
row, the groups of its last group page for all others.
-/
import Toadb.Executor.NestLoop
import Toadb.Executor.ScanTableTheorems
import Mathlib.Data.List.Flatten

namespace Toadb

open Cursor

/-! ## The loop -/

section

variable {L R : Type} {left : Nat → L → Option (Option JoinRow × L)}
  {right : Nat → R → Option (Option JoinRow × R)} {reScan : R → Option R}
  {st : NestLoopState L R}
  {l l' : L} {r r' : R} {a b : JoinRow} {as bs bs' out : List JoinRow}
  {res : Option JoinRow × NestLoopState L R}

/-- A left row is in hand, and the right node is asked. -/
structure AtInner (st : NestLoopState L R) : Prop where
  outerIsEnd : st.outerIsEnd = false
  outerNeedNew : st.outerNeedNew = false
  innerNeedNew : st.innerNeedNew = true

/-- A left row is needed. -/
structure AtOuter (st : NestLoopState L R) : Prop where
  outerIsEnd : st.outerIsEnd = false
  outerNeedNew : st.outerNeedNew = true

theorem AtInner.row (h : AtInner st)
    (hright : Returns (fun fuel => right fuel st.right) (some b, r)) :
    Returns (fun fuel => execNestLoopScan left right reScan fuel st)
      (some (execMergeRowData st.outResultRow b), { st with right := r }) := by
  obtain ⟨k, hk⟩ := hright
  refine .of_succ (k := k) fun fuel hfuel => ?_
  simp [execNestLoopScan, outerRow, h.outerIsEnd, h.outerNeedNew,
    h.innerNeedNew, hk fuel hfuel]

/-- The right node is at its end: the loop goes on with the next left row. -/
theorem AtInner.done (h : AtInner st)
    (hright : Returns (fun fuel => right fuel st.right) (none, r))
    (hrest : Returns (fun fuel => execNestLoopScan left right reScan fuel
      { st with right := r, innerNeedNew := false, outerNeedNew := true }) res) :
    Returns (fun fuel => execNestLoopScan left right reScan fuel st) res := by
  obtain ⟨k, hk⟩ := hright.and hrest
  refine .of_succ (k := k) fun fuel hfuel => ?_
  obtain ⟨hnone, hloop⟩ := hk fuel hfuel
  rw [h.outerIsEnd] at hloop
  simp [execNestLoopScan, outerRow, h.outerIsEnd, h.outerNeedNew,
    h.innerNeedNew, hnone, hloop]

theorem AtOuter.done (h : AtOuter st)
    (hleft : Returns (fun fuel => left fuel st.left) (none, l)) :
    Returns (fun fuel => execNestLoopScan left right reScan fuel st)
      (none, { st with left := l, outerIsEnd := true, outerNeedNew := false }) := by
  obtain ⟨k, hk⟩ := hleft
  refine .of_succ (k := k) fun fuel hfuel => ?_
  simp [execNestLoopScan, outerRow, h.outerIsEnd, h.outerNeedNew, hk fuel hfuel]

/-- The state with the next left row in hand, and the right node in `r`. -/
def withLeft (st : NestLoopState L R) (l : L) (a : JoinRow) (r : R) : NestLoopState L R :=
  { st with
    left := l
    outResultRow := a
    outerNeedNew := false
    innerNeedNew := true
    right := r }

theorem AtOuter.outerRow {fuel : Nat} (h : AtOuter st)
    (hleft : left fuel st.left = some (some a, l)) (hreScan : reScan st.right = some r) :
    outerRow left reScan fuel st = some (withLeft st l a r) := by
  simp [Toadb.outerRow, h.outerNeedNew, hleft, hreScan, withLeft]

/-- With the next left row the loop goes on to the right node. -/
theorem AtOuter.row (h : AtOuter st)
    (hleft : Returns (fun fuel => left fuel st.left) (some a, l))
    (hreScan : reScan st.right = some r)
    (hrest : Returns (fun fuel => execNestLoopScan left right reScan fuel (withLeft st l a r))
      res) :
    Returns (fun fuel => execNestLoopScan left right reScan fuel st) res := by
  obtain ⟨k, hk⟩ := hleft.and hrest
  refine .of_succ (k := k) fun fuel hfuel => ?_
  have houter := h.outerRow (hk fuel hfuel).1 hreScan
  have hloop := (hk (fuel + 1) (Nat.le_succ_of_le hfuel)).2
  have hinner : Toadb.outerRow left reScan fuel (withLeft st l a r) =
      some (withLeft st l a r) := by
    simp [Toadb.outerRow, withLeft]
  have hend : (withLeft st l a r).outerIsEnd = false := h.outerIsEnd
  rw [execNestLoopScan] at hloop ⊢
  simpa [houter, hinner, h.outerIsEnd, hend] using hloop

/-- The left node gives no result. -/
theorem AtOuter.noResult_left (h : AtOuter st)
    (hleft : NoResult (fun fuel => left fuel st.left)) :
    NoResult (fun fuel => execNestLoopScan left right reScan fuel st) := by
  obtain ⟨k, hk⟩ := hleft
  refine .of_succ (k := k) fun fuel hfuel => ?_
  simp [execNestLoopScan, Toadb.outerRow, h.outerIsEnd, h.outerNeedNew, hk fuel hfuel]

/-- With the next left row the right node gives no result. -/
theorem AtOuter.noResult_right (h : AtOuter st)
    (hleft : Returns (fun fuel => left fuel st.left) (some a, l))
    (hright : ∀ r, reScan st.right = some r → NoResult (fun fuel => right fuel r)) :
    NoResult (fun fuel => execNestLoopScan left right reScan fuel st) := by
  cases hreScan : reScan st.right with
  | none =>
    obtain ⟨k, hk⟩ := hleft
    refine .of_succ (k := k) fun fuel hfuel => ?_
    simp [execNestLoopScan, Toadb.outerRow, h.outerIsEnd, h.outerNeedNew,
      hk fuel hfuel, hreScan]
  | some r =>
    obtain ⟨k, hk⟩ := hleft.and_noResult (hright r hreScan)
    refine .of_succ (k := k) fun fuel hfuel => ?_
    obtain ⟨hrow, hnone⟩ := hk fuel hfuel
    have hnone' : right fuel (withLeft st l a r).right = none := hnone
    have hend : (withLeft st l a r).outerIsEnd = false := h.outerIsEnd
    have hneed : (withLeft st l a r).innerNeedNew = true := rfl
    simp [execNestLoopScan, h.outerRow hrow hreScan, h.outerIsEnd, hend, hneed, hnone']

/-- One left row is merged with every row of the right node. -/
theorem inner_yields {last : NestLoopState L R} (hright : Yields right r bs r') :
    ∀ {st : NestLoopState L R}, AtInner st → st.right = r →
      Yields (execNestLoopScan left right reScan)
        { st with right := r', innerNeedNew := false, outerNeedNew := true } out last →
      Yields (execNestLoopScan left right reScan) st
        (bs.map (execMergeRowData st.outResultRow) ++ out) last := by
  induction hright with
  | done hdone =>
    rintro st h rfl hrest
    exact .of_first (fun res => h.done hdone) hrest
  | @item r r₁ r₂ b bs hitem _ ih =>
    rintro st h rfl hrest
    exact .item (h.row hitem) (@ih { st with right := r₁ } ⟨h.1, h.2, h.3⟩ rfl hrest)

/-- The right node, taken again, hands out `bs` and can then be taken again. -/
def Again (right : Nat → R → Option (Option JoinRow × R))
    (reScan : R → Option R) (E : R → Prop) (bs : List JoinRow) (r : R) : Prop :=
  ∃ r₁ r', reScan r = some r₁ ∧ Yields right r₁ bs r' ∧ E r'

/-- Every further left row meets what the right node hands out again. -/
theorem outer_yields {E : R → Prop} (hagain : ∀ r, E r → Again right reScan E bs' r)
    (hleft : Yields left l as l') :
    ∀ {st : NestLoopState L R}, AtOuter st → st.left = l → E st.right →
      ∃ last, Yields (execNestLoopScan left right reScan) st
        (as.flatMap fun a => bs'.map (execMergeRowData a)) last := by
  induction hleft with
  | done hdone =>
    rintro st h rfl _
    exact ⟨_, .done (h.done hdone)⟩
  | @item l l₁ l₂ a as hitem _ ih =>
    rintro st h rfl hE
    obtain ⟨r₁, r', hreScan, hright, hE'⟩ := hagain st.right hE
    obtain ⟨last, hrest⟩ := @ih { withLeft st l₁ a r₁ with
      right := r', innerNeedNew := false, outerNeedNew := true } ⟨h.1, rfl⟩ rfl hE'
    have hinner := @inner_yields _ _ left right reScan _ _ _ _ last hright
      (withLeft st l₁ a r₁) ⟨h.1, rfl, rfl⟩ rfl hrest
    exact ⟨last, .of_first (fun res => h.row hitem hreScan) hinner⟩

/-- The rows of a nested loop: `bs` is the right node the first time, `bs'` every
other time. -/
def nestRows (as bs bs' : List JoinRow) : List JoinRow :=
  match as with
  | [] => []
  | a :: as =>
      bs.map (execMergeRowData a) ++ as.flatMap fun a => bs'.map (execMergeRowData a)

theorem nestLoop_yields {E : R → Prop} (hagain : ∀ r, E r → Again right reScan E bs' r)
    (hfirst : Again right reScan E bs st.right) (h : AtOuter st)
    (hleft : Yields left st.left as l') :
    ∃ last, Yields (execNestLoopScan left right reScan) st (nestRows as bs bs') last := by
  cases hleft with
  | done hdone => exact ⟨_, .done (h.done hdone)⟩
  | @item _ l₁ _ a as hitem hleft =>
    obtain ⟨r₁, r', hreScan, hright, hE⟩ := hfirst
    obtain ⟨last, hrest⟩ := @outer_yields _ _ left right reScan _ _ _ _ E hagain hleft
      { withLeft st l₁ a r₁ with
        right := r', innerNeedNew := false, outerNeedNew := true } ⟨h.1, rfl⟩ rfl hE
    have hinner := @inner_yields _ _ left right reScan _ _ _ _ last hright
      (withLeft st l₁ a r₁) ⟨h.1, rfl, rfl⟩ rfl hrest
    exact ⟨last, .of_first (fun res => h.row hitem hreScan) hinner⟩

end

/-! ## Scans that are taken again -/

/-- The group fork, page by page. -/
def PagesHold (f : TableFile) (groups : GroupFork) (colNum : Nat)
    (pages : List (List TableGroup)) :
    Prop :=
  List.Forall₂ (fun items page =>
    List.Forall₂ (GroupHolds f colNum) (items.filter (·.valid)) page)
    groups pages

variable {f : TableFile} {groups : GroupFork} {colNum : Nat} {pages : List (List TableGroup)}
  {cols : List Nat} {info : ScanPageInfo} {snapshot : SnapShotInfo} {own : Nat}

theorem PagesHold.tableHolds (h : PagesHold f groups colNum pages) :
    TableHolds f groups colNum pages.flatten := by
  induction h with
  | nil => exact .nil
  | cons hpage _ ih =>
    rw [TableHolds, List.flatten_cons, List.filter_append, List.flatten_cons]
    exact List.rel_append hpage ih

/-- The groups on the last page. -/
def lastPage (pages : List (List TableGroup)) : List TableGroup := pages.getLast?.getD []

/-- The groups on the pages before the last one. -/
def earlierPages (pages : List (List TableGroup)) : List TableGroup := pages.dropLast.flatten

theorem flatten_pages (pages : List (List TableGroup)) :
    pages.flatten = earlierPages pages ++ lastPage pages := by
  induction pages using List.reverseRecOn with
  | nil => rfl
  | append_singleton pages page _ => simp [earlierPages, lastPage]

theorem PagesHold.lastPage (h : PagesHold f groups colNum pages) :
    List.Forall₂ (GroupHolds f colNum) (itemsAhead (groups.drop (groups.length - 1)) 0)
      (lastPage pages) := by
  induction h with
  | nil => exact .nil
  | @cons items page groups pages hpage hpages ih =>
    cases hpages with
    | nil => simpa [itemsAhead, Toadb.lastPage] using hpage
    | @cons items' page' groups pages hpage' hpages =>
      simpa [Toadb.lastPage] using ih

/-- A scan at its end is only moved to the start of the last group page. -/
theorem ScanEnd.reScan (h : ScanEnd groups cols info)
    (hpages : PagesHold f groups colNum pages) :
    BetweenGroups f groups colNum cols (execReSeqScan info) (Toadb.lastPage pages) := by
  have hgroup : (execReSeqScan info).groupPageInfo = info.groupPageInfo := by
    simp [execReSeqScan, h.page]
  refine ⟨?_, h.colindexList, h.offsets, ?_⟩
  · rw [hgroup]
    exact ⟨by rw [h.pageNum]; omega, by rw [h.pageNum]; omega⟩
  · rw [hgroup, groupsAhead, h.page, h.pageNum, Nat.add_sub_cancel_left]
    exact hpages.lastPage

/-- A table as a plan scans it: the target list names columns of the table. -/
structure JoinTable where
  node : SeqScan
  pages : List (List TableGroup)
  holds : PagesHold node.file node.groups node.colNum pages
  range : ∀ c ∈ node.colindexList, c < node.colNum

/-- The target list is not refused: it is not empty, and not longer than the table. -/
def JoinTable.Opens (t : JoinTable) : Prop :=
  t.node.colindexList ≠ [] ∧ t.node.colindexList.length ≤ t.node.colNum

/-- There is no group, or the columns are asked for in ascending order, none twice. -/
def JoinTable.InOrder (t : JoinTable) : Prop :=
  t.pages.flatten = [] ∨ Ascending t.node.colindexList

section

variable (snapshot : SnapShotInfo) (own : Nat) (t : JoinTable)

/-- The visible rows of a table, as join rows. -/
def JoinTable.shown : List JoinRow :=
  (shownTable snapshot own t.node.colindexList t.pages.flatten).map ([·])

/-- The rows its first scan hands out. -/
def JoinTable.scanned : List JoinRow :=
  (scannedTable snapshot own t.node.colindexList t.pages.flatten).map ([·])

/-- The rows every other scan hands out. -/
def JoinTable.rescanned : List JoinRow :=
  (scannedTable snapshot own t.node.colindexList (lastPage t.pages)).map ([·])

end

variable {t : JoinTable} {plan : Plan} {out : List JoinRow}

theorem JoinTable.opens_of_ascending (h : Ascending t.node.colindexList) : t.Opens :=
  ⟨h.1, h.length_le t.range⟩

theorem JoinTable.Opens.init (h : t.Opens) :
    initExecNode (.seqScan t.node) = some (startInfo t.node.colindexList) := by
  rw [initExecNode, initScanPositionInfo, if_neg]
  · rfl
  · rintro (hnil | hlt)
    · exact h.1 hnil
    · exact absurd h.2 (Nat.not_le.mpr hlt)

theorem JoinTable.init_refused (h : ¬ t.Opens) : initExecNode (.seqScan t.node) = none := by
  rw [initExecNode, initScanPositionInfo, if_pos]
  by_contra hnot
  rw [not_or, Nat.not_lt] at hnot
  exact h hnot

/-- From its first state a plan hands out `out`. -/
def PlanYields (own : Nat) (snapshot : SnapShotInfo) (plan : Plan)
    (out : List JoinRow) : Prop :=
  ∃ last, Yields (execNodeProc own snapshot plan) (initExecNode plan) out last

/-- The first call gives no result. -/
def PlanNoResult (own : Nat) (snapshot : SnapShotInfo) (plan : Plan) : Prop :=
  NoResult (fun fuel => execNodeProc own snapshot plan fuel (initExecNode plan))

theorem PlanYields.unique {out' : List JoinRow} (h : PlanYields own snapshot plan out)
    (h' : PlanYields own snapshot plan out') : out = out' := by
  obtain ⟨last, hyields⟩ := h
  obtain ⟨last', hyields'⟩ := h'
  exact (hyields.unique hyields').1

theorem PlanYields.not_noResult (h : PlanYields own snapshot plan out) :
    ¬ PlanNoResult own snapshot plan := by
  obtain ⟨last, hyields⟩ := h
  exact hyields.not_noResult

/-! ## One table -/

/-- The scan of a node at its end. -/
def NodeEnd (t : JoinTable) (scanPostionInfo : Option ScanPageInfo) : Prop :=
  ∃ info, scanPostionInfo = some info ∧ ScanEnd t.node.groups t.node.colindexList info

theorem seqScan_yields {node : SeqScan} {rows : List (List RowColumnData)}
    {last : ScanPageInfo}
    (h : Yields (seqscanNext node.file node.groups own snapshot) info rows last) :
    Yields (execNodeProc own snapshot (.seqScan node)) (some info)
      (rows.map ([·])) (some last) := by
  induction h with
  | done hdone =>
    exact .done (hdone.imp fun k hk fuel hfuel => by simp [execNodeProc, hk fuel hfuel])
  | item hitem _ ih =>
    exact .item (hitem.imp fun k hk fuel hfuel => by simp [execNodeProc, hk fuel hfuel]) ih

/-- From between two groups a scan node hands out the rows of the groups before it. -/
theorem JoinTable.yields {table : List TableGroup} (snapshot : SnapShotInfo) (own : Nat)
    (t : JoinTable) (hin : table = [] ∨ Ascending t.node.colindexList)
    (h : BetweenGroups t.node.file t.node.groups t.node.colNum t.node.colindexList info table)
    (hreset : info.pageReset = true) :
    ∃ last, Yields (execNodeProc own snapshot (.seqScan t.node)) (some info)
        ((scannedTable snapshot own t.node.colindexList table).map ([·])) last ∧
      NodeEnd t last := by
  rcases hin with rfl | hasc
  · obtain ⟨last, hyields, hend⟩ := h.yields_nil snapshot own hreset
    exact ⟨some last, seqScan_yields hyields, last, rfl, hend⟩
  · obtain ⟨last, hyields, hend⟩ := h.yields snapshot own hasc t.range hreset
    exact ⟨some last, seqScan_yields hyields, last, rfl, hend⟩

theorem JoinTable.between_start (t : JoinTable) :
    BetweenGroups t.node.file t.node.groups t.node.colNum t.node.colindexList
      (startInfo t.node.colindexList) t.pages.flatten :=
  betweenGroups_startInfo _ t.holds.tableHolds

theorem JoinTable.planYields (hopens : t.Opens) (hin : t.InOrder) :
    PlanYields own snapshot (.seqScan t.node) (t.scanned snapshot own) := by
  obtain ⟨last, hyields, -⟩ := t.yields snapshot own hin t.between_start rfl
  exact ⟨last, hopens.init ▸ hyields⟩

/-- A scan without a position hands out no row. -/
theorem JoinTable.planYields_refused (h : ¬ t.Opens) :
    PlanYields own snapshot (.seqScan t.node) [] :=
  ⟨none, .done (returns_of_const fun fuel => by rw [JoinTable.init_refused h, execNodeProc])⟩

theorem JoinTable.start_noResult (hopens : t.Opens) (hin : ¬ t.InOrder) :
    NoResult (fun fuel => execNodeProc own snapshot (.seqScan t.node) fuel
      (some (startInfo t.node.colindexList))) := by
  obtain ⟨hne, hasc⟩ := not_or.mp hin
  obtain ⟨group, table, hpages⟩ := List.exists_cons_of_ne_nil hne
  have hstart := t.between_start
  rw [hpages] at hstart
  obtain ⟨k, hk⟩ := hstart.noResult snapshot own hopens.1 hasc rfl
  exact ⟨k, fun fuel hfuel => by simp [execNodeProc, hk fuel hfuel]⟩

theorem JoinTable.planNoResult (hopens : t.Opens) (hin : ¬ t.InOrder) :
    PlanNoResult own snapshot (.seqScan t.node) := by
  rw [PlanNoResult, hopens.init]
  exact JoinTable.start_noResult hopens hin

/-! ## A further table -/

theorem JoinTable.reScan_start (cols : List Nat) :
    execNodeReScan (.seqScan t.node) (some (startInfo cols)) =
      some (some (startInfo cols)) := rfl

/-- A further table on the right of a plan. -/
theorem PlanYields.nestLoop (h : PlanYields own snapshot plan out) (hopens : t.Opens)
    (hin : t.InOrder) :
    PlanYields own snapshot (.nestLoop plan (.seqScan t.node))
      (nestRows out (t.scanned snapshot own) (t.rescanned snapshot own)) := by
  obtain ⟨last, hyields⟩ := h
  have hlast : Toadb.lastPage t.pages = [] ∨ Ascending t.node.colindexList := by
    refine hin.imp_left fun hnil => ?_
    rw [flatten_pages, List.append_eq_nil_iff] at hnil
    exact hnil.2
  have hagain : ∀ r, NodeEnd t r → Again (execNodeProc own snapshot (.seqScan t.node))
      (execNodeReScan (.seqScan t.node)) (NodeEnd t) (t.rescanned snapshot own) r := by
    rintro r ⟨info, rfl, hend⟩
    obtain ⟨r', hagain, hend'⟩ := t.yields snapshot own hlast (hend.reScan t.holds) rfl
    exact ⟨_, r', rfl, hagain, hend'⟩
  obtain ⟨r', hfirst, hend⟩ := t.yields snapshot own hin t.between_start rfl
  refine nestLoop_yields hagain ?_ ⟨rfl, rfl⟩ hyields
  exact ⟨_, r', (congrArg _ hopens.init).trans (JoinTable.reScan_start _), hfirst, hend⟩

/-- Without a left row the right node is not asked. -/
theorem PlanYields.nestLoop_nil (h : PlanYields own snapshot plan []) (right : Plan) :
    PlanYields own snapshot (.nestLoop plan right) [] := by
  obtain ⟨last, hyields⟩ := h
  cases hyields with
  | done hdone => exact ⟨_, .done (AtOuter.done ⟨rfl, rfl⟩ hdone)⟩

/-- The first left row asks the right node. -/
theorem PlanYields.nestLoop_noResult (h : PlanYields own snapshot plan out) (hout : out ≠ [])
    (ht : ¬ (t.Opens ∧ t.InOrder)) :
    PlanNoResult own snapshot (.nestLoop plan (.seqScan t.node)) := by
  obtain ⟨last, hyields⟩ := h
  cases hyields with
  | done hdone => exact absurd rfl hout
  | item hitem _ =>
    refine AtOuter.noResult_right ⟨rfl, rfl⟩ hitem fun r hreScan => ?_
    by_cases hopens : t.Opens
    · have hstart := (congrArg (execNodeReScan (.seqScan t.node)) hopens.init).trans
        (JoinTable.reScan_start _)
      obtain rfl := Option.some.inj (hstart.symm.trans hreScan)
      exact JoinTable.start_noResult hopens fun hin => ht ⟨hopens, hin⟩
    · have hstart : execNodeReScan (.seqScan t.node) (initExecNode (.seqScan t.node)) =
          none := by
        rw [JoinTable.init_refused hopens]
        rfl
      cases hstart.symm.trans hreScan

theorem PlanNoResult.nestLoop (h : PlanNoResult own snapshot plan) (right : Plan) :
    PlanNoResult own snapshot (.nestLoop plan right) :=
  AtOuter.noResult_left ⟨rfl, rfl⟩ h

/-! ## Products -/

/-- Each left row with each right row, the right ones fastest. -/
def crossRows (as bs : List JoinRow) : List JoinRow :=
  as.flatMap fun a => bs.map (execMergeRowData a)

section

variable {as as' bs bs' cs : List JoinRow}

theorem length_crossRows (as bs : List JoinRow) :
    (crossRows as bs).length = as.length * bs.length := by
  induction as with
  | nil => simp [crossRows]
  | cons a as ih =>
    rw [crossRows, List.flatMap_cons, ← crossRows, List.length_append, List.length_map, ih,
      List.length_cons, Nat.add_mul, Nat.one_mul, Nat.add_comm]

theorem crossRows_ne (has : as ≠ []) (hbs : bs ≠ []) : crossRows as bs ≠ [] := by
  rw [← List.length_pos_iff] at *
  rw [length_crossRows]
  exact Nat.mul_pos has hbs

theorem nestRows_sublist (has : as.Sublist as') (hbs : bs.Sublist cs)
    (hbs' : bs'.Sublist bs) :
    (nestRows as bs bs').Sublist (crossRows as' cs) := by
  refine List.Sublist.trans ?_ (has.flatMap _)
  cases as with
  | nil => exact .refl _
  | cons a as =>
    rw [nestRows, List.flatMap_cons]
    exact (hbs.map _).append (List.Sublist.flatMap_right _ fun a _ => (hbs'.trans hbs).map _)

theorem length_nestRows_cons (a : JoinRow) (as bs bs' : List JoinRow) :
    (nestRows (a :: as) bs bs').length = bs.length + as.length * bs'.length := by
  rw [nestRows, List.length_append, List.length_map, ← crossRows, length_crossRows]

/-- The nested loop is the product exactly when its left side is complete, the
first scan of the right side is, and either there is one left row or the other
scans are complete too. -/
theorem nestRows_eq_iff (has : as.Sublist as') (hne : as' ≠ []) (hbs : bs.Sublist cs)
    (hcs : cs ≠ []) (hbs' : bs'.Sublist bs) :
    nestRows as bs bs' = crossRows as' cs ↔
      as = as' ∧ bs = cs ∧ (as'.length ≤ 1 ∨ bs' = cs) := by
  have hlen := has.length_le
  have hlenb := hbs.length_le
  have hlenb' := hbs'.length_le
  have hpos := List.length_pos_iff.mpr hne
  have hposc := List.length_pos_iff.mpr hcs
  constructor
  · intro heq
    have hcount := congrArg List.length heq
    rw [length_crossRows] at hcount
    cases as with
    | nil =>
      have := Nat.mul_pos hpos hposc
      rw [← hcount] at this
      simp [nestRows] at this
    | cons a as =>
      rw [length_nestRows_cons] at hcount
      rw [List.length_cons] at hlen
      have hmul : as.length * bs'.length ≤ as.length * cs.length :=
        Nat.mul_le_mul_left _ (hlenb'.trans hlenb)
      have hstep : (as.length + 1) * cs.length ≤ as'.length * cs.length :=
        Nat.mul_le_mul_right _ hlen
      rw [Nat.add_mul, Nat.one_mul] at hstep
      have hb : bs.length = cs.length := by omega
      have hrest : as.length * bs'.length = as.length * cs.length := by omega
      have hall : (as.length + 1) * cs.length = as'.length * cs.length := by
        rw [Nat.add_mul, Nat.one_mul]
        omega
      have ha : as.length + 1 = as'.length := Nat.eq_of_mul_eq_mul_right hposc hall
      refine ⟨has.eq_of_length (by simpa using ha), hbs.eq_of_length hb, ?_⟩
      by_cases hone : as'.length ≤ 1
      · exact .inl hone
      · right
        have hb' : bs'.length = cs.length := Nat.eq_of_mul_eq_mul_left (by omega) hrest
        exact (hbs'.trans hbs).eq_of_length hb'
  · rintro ⟨rfl, rfl, hone | rfl⟩
    · obtain ⟨a, rfl⟩ : ∃ a, as = [a] := List.length_eq_one_iff.mp (by omega)
      simp [nestRows, crossRows]
    · cases as with
      | nil => rfl
      | cons a as => rfl

end

/-! ## The tables of a join -/

section

variable (snapshot : SnapShotInfo) (own : Nat)

theorem scannedRows_sublist (cols : List Nat) (rows : List TableRow) :
    (scannedRows snapshot own cols rows).Sublist (shownRows snapshot own cols rows) := by
  rw [shownRows_eq]
  exact List.sublist_append_left _ _

theorem JoinTable.scanned_sublist (t : JoinTable) :
    (t.scanned snapshot own).Sublist (t.shown snapshot own) :=
  (List.Sublist.flatMap_right _ fun _ _ => scannedRows_sublist ..).map _

theorem scannedTable_append (cols : List Nat) (table table' : List TableGroup) :
    scannedTable snapshot own cols (table ++ table')
      = scannedTable snapshot own cols table ++ scannedTable snapshot own cols table' :=
  List.flatMap_append

theorem JoinTable.rescanned_sublist (t : JoinTable) :
    (t.rescanned snapshot own).Sublist (t.scanned snapshot own) := by
  rw [rescanned, scanned, flatten_pages, scannedTable_append]
  exact (List.sublist_append_right _ _).map _

/-- The first scan of a table is complete. -/
def JoinTable.Complete (t : JoinTable) : Prop :=
  ∀ group ∈ t.pages.flatten, NoneHidden snapshot own t.node.colindexList group.rows

/-- No row is visible on the group pages before the last one. -/
def JoinTable.LastOnly (t : JoinTable) : Prop :=
  shownTable snapshot own t.node.colindexList (earlierPages t.pages) = []

theorem JoinTable.complete_iff (t : JoinTable) :
    t.Complete snapshot own ↔ t.scanned snapshot own = t.shown snapshot own := by
  rw [Complete, ← scannedTable_eq_iff, scanned, shown,
    (List.map_injective_iff.mpr fun _ _ h => (List.cons.inj h).1).eq_iff]

theorem JoinTable.lastOnly_iff (t : JoinTable) (h : t.Complete snapshot own) :
    t.LastOnly snapshot own ↔ t.rescanned snapshot own = t.shown snapshot own := by
  have hearlier : scannedTable snapshot own t.node.colindexList (earlierPages t.pages)
      = shownTable snapshot own t.node.colindexList (earlierPages t.pages) := by
    rw [scannedTable_eq_iff]
    intro group hgroup
    refine h group ?_
    rw [flatten_pages]
    exact List.mem_append_left _ hgroup
  rw [← (t.complete_iff snapshot own).mp h, LastOnly, ← hearlier, rescanned, scanned,
    flatten_pages, scannedTable_append, List.map_append, List.self_eq_append_left,
    List.map_eq_nil_iff]

/-- The Cartesian product of the visible rows of the tables. -/
def productRows (rows : List JoinRow) (ts : List JoinTable) : List JoinRow :=
  ts.foldl (fun rows t => crossRows rows (t.shown snapshot own)) rows

/-- What the nested loops hand out. -/
def joinedRows (rows : List JoinRow) (ts : List JoinTable) : List JoinRow :=
  ts.foldl (fun rows t => nestRows rows (t.scanned snapshot own) (t.rescanned snapshot own))
    rows

variable {rows rows' : List JoinRow} {ts : List JoinTable}

/-- The tables that are asked answer: each up to the first whose scan hands out no row. -/
def Asked : List JoinTable → Prop
  | [] => True
  | t :: ts => t.Opens ∧ t.InOrder ∧ (t.scanned snapshot own ≠ [] → Asked ts)

theorem nestRows_ne_iff {as bs bs' : List JoinRow} (hbs' : bs'.Sublist bs) :
    nestRows as bs bs' ≠ [] ↔ as ≠ [] ∧ bs ≠ [] := by
  cases as with
  | nil => simp [nestRows]
  | cons a as =>
    refine ⟨fun hne => ⟨List.cons_ne_nil _ _, ?_⟩, fun hne heq => ?_⟩
    · rintro rfl
      rw [List.sublist_nil] at hbs'
      subst hbs'
      simp [nestRows] at hne
    · rw [nestRows, List.append_eq_nil_iff, List.map_eq_nil_iff] at heq
      exact hne.2 heq.1

theorem planYields_leftDeep {plan : Plan} (h : PlanYields own snapshot plan rows)
    (hasked : rows ≠ [] → Asked snapshot own ts) :
    PlanYields own snapshot
      (ts.foldl (fun plan t => .nestLoop plan (.seqScan t.node)) plan)
      (joinedRows snapshot own rows ts) := by
  induction ts generalizing plan rows with
  | nil => exact h
  | cons t ts ih =>
    by_cases hrows : rows = []
    · subst hrows
      exact ih (h.nestLoop_nil _) fun hne => absurd rfl hne
    · obtain ⟨hopens, hin, hrest⟩ := hasked hrows
      refine ih (h.nestLoop hopens hin) fun hne => hrest ?_
      exact ((nestRows_ne_iff (t.rescanned_sublist snapshot own)).mp hne).2

theorem planNoResult_foldl (ts : List JoinTable) {plan : Plan}
    (h : PlanNoResult own snapshot plan) :
    PlanNoResult own snapshot
      (ts.foldl (fun plan t => .nestLoop plan (.seqScan t.node)) plan) := by
  induction ts generalizing plan with
  | nil => exact h
  | cons t ts ih => exact ih (h.nestLoop _)

theorem planNoResult_leftDeep {plan : Plan} (h : PlanYields own snapshot plan rows)
    (hrows : rows ≠ []) (hasked : ¬ Asked snapshot own ts) :
    PlanNoResult own snapshot
      (ts.foldl (fun plan t => .nestLoop plan (.seqScan t.node)) plan) := by
  induction ts generalizing plan rows with
  | nil => exact absurd trivial hasked
  | cons t ts ih =>
    by_cases ht : t.Opens ∧ t.InOrder
    · have hrest : t.scanned snapshot own ≠ [] ∧ ¬ Asked snapshot own ts := by
        by_contra hnot
        exact hasked ⟨ht.1, ht.2, fun hne => by_contra fun hno => hnot ⟨hne, hno⟩⟩
      refine ih (h.nestLoop ht.1 ht.2) ?_ hrest.2
      exact (nestRows_ne_iff (t.rescanned_sublist snapshot own)).mpr ⟨hrows, hrest.1⟩
    · exact planNoResult_foldl snapshot own ts (h.nestLoop_noResult hrows ht)

/-- A plan whose tables answer hands out what the nested loops make of them. -/
theorem leftDeep_yields {t : JoinTable} (hasked : Asked snapshot own (t :: ts)) :
    PlanYields own snapshot (leftDeep t.node (ts.map JoinTable.node))
      (joinedRows snapshot own (t.scanned snapshot own) ts) := by
  obtain ⟨hopens, hin, hrest⟩ := hasked
  rw [leftDeep, List.foldl_map]
  exact planYields_leftDeep snapshot own (JoinTable.planYields hopens hin) hrest

/-- The first table is refused: nothing is handed out. -/
theorem leftDeep_refused (ts : List JoinTable) {t : JoinTable} (h : ¬ t.Opens) :
    PlanYields own snapshot (leftDeep t.node (ts.map JoinTable.node)) [] := by
  have hnil : joinedRows snapshot own [] ts = [] := by
    induction ts with
    | nil => rfl
    | cons u ts ih => exact ih
  rw [leftDeep, List.foldl_map, ← hnil]
  exact planYields_leftDeep snapshot own (JoinTable.planYields_refused h) fun hne =>
    absurd rfl hne

/-- A table that is asked does not answer: there is no result. -/
theorem leftDeep_noResult {t : JoinTable} (hopens : t.Opens)
    (hasked : ¬ Asked snapshot own (t :: ts)) :
    PlanNoResult own snapshot (leftDeep t.node (ts.map JoinTable.node)) := by
  rw [leftDeep, List.foldl_map]
  by_cases hin : t.InOrder
  · have hrest : t.scanned snapshot own ≠ [] ∧ ¬ Asked snapshot own ts := by
      by_contra hnot
      exact hasked ⟨hopens, hin, fun hne => by_contra fun hno => hnot ⟨hne, hno⟩⟩
    exact planNoResult_leftDeep snapshot own (JoinTable.planYields hopens hin) hrest.1 hrest.2
  · exact planNoResult_foldl snapshot own ts (JoinTable.planNoResult hopens hin)

theorem joinedRows_sublist (h : rows.Sublist rows') (ts : List JoinTable) :
    (joinedRows snapshot own rows ts).Sublist (productRows snapshot own rows' ts) := by
  induction ts generalizing rows rows' with
  | nil => exact h
  | cons t ts ih =>
    exact ih (nestRows_sublist h (t.scanned_sublist snapshot own)
      (t.rescanned_sublist snapshot own))

/-- Behind two left rows the first scan of a table and all others must be complete. -/
def JoinTable.Again (single : Prop) (t : JoinTable) : Prop :=
  t.Complete snapshot own ∧ (single ∨ t.LastOnly snapshot own)

theorem JoinTable.again_iff (t : JoinTable) (single : Prop) :
    t.Again snapshot own single ↔ t.scanned snapshot own = t.shown snapshot own ∧
      (single ∨ t.rescanned snapshot own = t.shown snapshot own) := by
  rw [Again, ← complete_iff]
  constructor
  · rintro ⟨hcomplete, hor⟩
    exact ⟨hcomplete, hor.imp_right (t.lastOnly_iff snapshot own hcomplete).mp⟩
  · rintro ⟨hcomplete, hor⟩
    exact ⟨hcomplete, hor.imp_right (t.lastOnly_iff snapshot own hcomplete).mpr⟩

/-- `t` has at most one visible row, or `u` is complete when it is scanned again. -/
def JoinTable.Before (t u : JoinTable) : Prop :=
  (t.shown snapshot own).length ≤ 1 ∨ u.LastOnly snapshot own

theorem length_crossRows_le_one {as bs : List JoinRow} (has : as ≠ []) (hbs : bs ≠ []) :
    (crossRows as bs).length ≤ 1 ↔ as.length ≤ 1 ∧ bs.length ≤ 1 := by
  rw [← List.length_pos_iff] at has hbs
  rw [length_crossRows]
  constructor
  · intro h
    have ha := Nat.le_mul_of_pos_right as.length hbs
    have hb := Nat.le_mul_of_pos_left bs.length has
    omega
  · rintro ⟨ha, hb⟩
    exact Nat.mul_le_mul ha hb

/-- The join of tables none of which is empty, behind the rows `rows'`. -/
theorem joinedRows_eq_iff (h : rows.Sublist rows') (hne : rows' ≠ [])
    (hts : ∀ t ∈ ts, t.shown snapshot own ≠ []) :
    joinedRows snapshot own rows ts = productRows snapshot own rows' ts ↔
      rows = rows' ∧ (∀ t ∈ ts, t.Again snapshot own (rows'.length ≤ 1)) ∧
        ts.Pairwise (JoinTable.Before snapshot own) := by
  induction ts generalizing rows rows' with
  | nil => simp [joinedRows, productRows]
  | cons t ts ih =>
    have ht := hts t List.mem_cons_self
    have hscanned := t.scanned_sublist snapshot own
    have hrescanned := t.rescanned_sublist snapshot own
    rw [joinedRows, productRows, List.foldl_cons, List.foldl_cons,
      ← joinedRows, ← productRows,
      ih (nestRows_sublist h hscanned hrescanned) (crossRows_ne hne ht)
        fun u hu => hts u (List.mem_cons_of_mem _ hu),
      nestRows_eq_iff h hne hscanned ht hrescanned, ← t.again_iff, List.forall_mem_cons,
      List.pairwise_cons]
    simp only [JoinTable.Again, JoinTable.Before, length_crossRows_le_one hne ht]
    constructor
    · rintro ⟨⟨hrows, hfirst⟩, hrest, hpairs⟩
      exact ⟨hrows, ⟨hfirst, fun u hu => ⟨(hrest u hu).1, (hrest u hu).2.imp_left And.left⟩⟩,
        fun u hu => (hrest u hu).2.imp_left And.right, hpairs⟩
    · rintro ⟨hrows, ⟨hfirst, hrest⟩, hbefore, hpairs⟩
      exact ⟨⟨hrows, hfirst⟩, fun u hu =>
        ⟨(hrest u hu).1, and_or_right.mpr ⟨(hrest u hu).2, hbefore u hu⟩⟩, hpairs⟩

theorem productRows_nil : productRows snapshot own [] ts = [] := by
  induction ts with
  | nil => rfl
  | cons t ts ih => exact ih

/-- A table without visible rows leaves nothing. -/
theorem productRows_eq_nil {u : JoinTable} (hu : u ∈ ts) (hnil : u.shown snapshot own = []) :
    productRows snapshot own rows ts = [] := by
  induction ts generalizing rows with
  | nil => cases hu
  | cons t ts ih =>
    rw [productRows, List.foldl_cons, ← productRows]
    rcases List.mem_cons.mp hu with rfl | hmem
    · have hcross : crossRows rows (u.shown snapshot own) = [] := by
        rw [← List.length_eq_zero_iff, length_crossRows, hnil, List.length_nil, Nat.mul_zero]
      rw [hcross]
      exact productRows_nil snapshot own
    · exact ih hmem

end

/-! ## The result -/

/-- The condition on the tables of a join. -/
def JoinComplete (snapshot : SnapShotInfo) (own : Nat) (ts : List JoinTable) : Prop :=
  (∃ t ∈ ts, t.shown snapshot own = []) ∨
    (∀ t ∈ ts, t.Complete snapshot own) ∧ ts.Pairwise (JoinTable.Before snapshot own)

/-- The nested loops answer: the first table is refused, or those that are asked are not, and
are asked in order. -/
def JoinAnswers (snapshot : SnapShotInfo) (own : Nat) (t : JoinTable)
    (ts : List JoinTable) : Prop :=
  ¬ t.Opens ∨ Asked snapshot own (t :: ts)

/-- One of the tables has no visible row and the nested loops answer; or every table is asked
in order, every first scan is complete, and behind a table with more than one row all visible
rows lie on the last group page. -/
def JoinRight (snapshot : SnapShotInfo) (own : Nat) (t : JoinTable)
    (ts : List JoinTable) : Prop :=
  (∃ u ∈ t :: ts, u.shown snapshot own = []) ∧ JoinAnswers snapshot own t ts ∨
    (∀ u ∈ t :: ts, Ascending u.node.colindexList ∧ u.Complete snapshot own) ∧
      (t :: ts).Pairwise (JoinTable.Before snapshot own)

section

variable {snapshot : SnapShotInfo} {own : Nat} {t : JoinTable} {ts : List JoinTable}

theorem asked_of_ascending (h : ∀ t ∈ ts, Ascending t.node.colindexList) :
    Asked snapshot own ts := by
  induction ts with
  | nil => trivial
  | cons t ts ih =>
    obtain ⟨hasc, hrest⟩ := List.forall_mem_cons.mp h
    exact ⟨JoinTable.opens_of_ascending hasc, .inr hasc, fun _ => ih hrest⟩

/-- When all tables have visible rows and are complete, all are asked. -/
theorem Asked.ascending (h : Asked snapshot own ts)
    (hts : ∀ t ∈ ts, t.shown snapshot own ≠ [] ∧ t.Complete snapshot own) :
    ∀ t ∈ ts, Ascending t.node.colindexList := by
  induction ts with
  | nil => exact List.forall_mem_nil _
  | cons t ts ih =>
    obtain ⟨-, hin, hrest⟩ := h
    obtain ⟨⟨hshown, hcomplete⟩, hts⟩ := List.forall_mem_cons.mp hts
    rw [JoinTable.complete_iff] at hcomplete
    refine List.forall_mem_cons.mpr ⟨hin.resolve_left fun hnil => hshown ?_,
      ih (hrest (hcomplete ▸ hshown)) hts⟩
    rw [JoinTable.shown, hnil]
    rfl

theorem productRows_eq_nil_iff {rows : List JoinRow} :
    productRows snapshot own rows ts = [] ↔
      rows = [] ∨ ∃ t ∈ ts, t.shown snapshot own = [] := by
  constructor
  · intro hnil
    by_contra hnot
    rw [not_or] at hnot
    obtain ⟨hrows, hts⟩ := hnot
    push Not at hts
    induction ts generalizing rows with
    | nil => exact hrows hnil
    | cons t ts ih =>
      obtain ⟨ht, hts⟩ := List.forall_mem_cons.mp hts
      exact ih hnil (crossRows_ne hrows ht) hts
  · rintro (rfl | ⟨t, ht, hnil⟩)
    · exact productRows_nil snapshot own
    · exact productRows_eq_nil snapshot own ht hnil

theorem product_eq_nil_iff :
    productRows snapshot own (t.shown snapshot own) ts = [] ↔
      ∃ u ∈ t :: ts, u.shown snapshot own = [] := by
  rw [productRows_eq_nil_iff, List.exists_mem_cons_iff]

/-- What the nested loops make of the tables is the product exactly when they are complete. -/
theorem joinedRows_eq_product_iff :
    joinedRows snapshot own (t.scanned snapshot own) ts
        = productRows snapshot own (t.shown snapshot own) ts ↔
      JoinComplete snapshot own (t :: ts) := by
  have hsub := t.scanned_sublist snapshot own
  by_cases hempty : ∃ u ∈ t :: ts, u.shown snapshot own = []
  · refine iff_of_true ?_ (.inl hempty)
    have hjoined := joinedRows_sublist snapshot own hsub ts
    rw [product_eq_nil_iff.mpr hempty] at hjoined ⊢
    exact List.sublist_nil.mp hjoined
  · have hnone : ∀ u ∈ t :: ts, u.shown snapshot own ≠ [] :=
      fun u hu hnil => hempty ⟨u, hu, hnil⟩
    rw [List.forall_mem_cons] at hnone
    rw [joinedRows_eq_iff snapshot own hsub hnone.1 hnone.2, ← t.complete_iff, JoinComplete,
      or_iff_right hempty, List.forall_mem_cons, List.pairwise_cons]
    simp only [JoinTable.Again, JoinTable.Before]
    constructor
    · rintro ⟨hfirst, hrest, hpairs⟩
      exact ⟨⟨hfirst, fun u hu => (hrest u hu).1⟩, fun u hu => (hrest u hu).2, hpairs⟩
    · rintro ⟨⟨hfirst, hrest⟩, hbefore, hpairs⟩
      exact ⟨hfirst, fun u hu => ⟨hrest u hu, hbefore u hu⟩, hpairs⟩

/-- Of tables that answer, the condition is that they are complete. -/
theorem joinRight_iff_complete (h : Asked snapshot own (t :: ts)) :
    JoinRight snapshot own t ts ↔ JoinComplete snapshot own (t :: ts) := by
  rw [JoinRight, JoinComplete, and_iff_left (show JoinAnswers snapshot own t ts from .inr h)]
  by_cases hempty : ∃ u ∈ t :: ts, u.shown snapshot own = []
  · exact iff_of_true (.inl hempty) (.inl hempty)
  · rw [or_iff_right hempty, or_iff_right hempty]
    refine and_congr_left fun _ =>
      ⟨fun hall u hu => (hall u hu).2, fun hall u hu => ⟨?_, hall u hu⟩⟩
    exact h.ascending (fun u hu => ⟨fun hnil => hempty ⟨u, hu, hnil⟩, hall u hu⟩) u hu

theorem JoinRight.yields (h : JoinRight snapshot own t ts) :
    PlanYields own snapshot (leftDeep t.node (ts.map JoinTable.node))
      (productRows snapshot own (t.shown snapshot own) ts) := by
  by_cases hasked : Asked snapshot own (t :: ts)
  · rw [joinRight_iff_complete hasked, ← joinedRows_eq_product_iff] at h
    exact h ▸ leftDeep_yields snapshot own hasked
  · rcases h with ⟨hempty, hanswers⟩ | ⟨hall, -⟩
    · rw [product_eq_nil_iff.mpr hempty]
      exact leftDeep_refused snapshot own ts (hanswers.resolve_right hasked)
    · exact absurd (asked_of_ascending fun u hu => (hall u hu).1) hasked

end

/-- The nested loops of a left-deep plan hand out the product of the visible rows
of the tables exactly when `JoinRight` holds. -/
theorem nestLoop_product_iff (snapshot : SnapShotInfo) (own : Nat) (t : JoinTable)
    (ts : List JoinTable) :
    PlanYields own snapshot (leftDeep t.node (ts.map JoinTable.node))
        (productRows snapshot own (t.shown snapshot own) ts) ↔
      JoinRight snapshot own t ts := by
  refine ⟨fun h => ?_, JoinRight.yields⟩
  by_cases hasked : Asked snapshot own (t :: ts)
  · rw [joinRight_iff_complete hasked, ← joinedRows_eq_product_iff]
    exact (leftDeep_yields snapshot own hasked).unique h
  · have hopens : ¬ t.Opens := fun hopens =>
      h.not_noResult (leftDeep_noResult snapshot own hopens hasked)
    exact .inl ⟨product_eq_nil_iff.mp (h.unique (leftDeep_refused snapshot own ts hopens)),
      .inl hopens⟩

/-! ## A table that is joined with itself -/

/-- A row with one column. -/
def oneColumnRow (r : RowColumnData) : TableRow := ⟨fun _ => [r], fun _ => false⟩

/-- Two groups of one column and one row each, on two group pages. -/
def twoGroupPages : JoinTable where
  node := ⟨twoColumnTable, [[⟨true, 1, [2]⟩], [⟨true, 2, [3]⟩]], 1, [0]⟩
  pages := [[⟨[2], [oneColumnRow (plainRow 5 1)]⟩], [⟨[3], [oneColumnRow (plainRow 6 2)]⟩]]
  holds := by
    refine .cons (.cons ⟨rfl, rfl, twoColumnTable_members (by simp), fun c hc => ?_⟩ .nil)
      (.cons (.cons ⟨rfl, rfl, twoColumnTable_members (by simp), fun c hc => ?_⟩ .nil) .nil)
    · obtain rfl : c = 0 := Nat.lt_one_iff.mp hc
      exact (twoColumnTable_ahead rfl).1 rfl
    · obtain rfl : c = 0 := Nat.lt_one_iff.mp hc
      exact (twoColumnTable_ahead rfl).2 rfl
  range := by decide

theorem twoGroupPages_ask : twoGroupPages.Opens ∧ twoGroupPages.InOrder :=
  ⟨⟨by decide, by decide⟩, .inr (by decide)⟩

/-- The second left row meets the last group page only. -/
theorem nestLoop_lost :
    let a : JoinRow := [[plainRow 5 1]]
    let b : JoinRow := [[plainRow 6 2]]
    productRows ⟨9, 9, 0, []⟩ 5 (twoGroupPages.shown ⟨9, 9, 0, []⟩ 5) [twoGroupPages]
        = [a ++ a, a ++ b, b ++ a, b ++ b] ∧
      PlanYields 5 ⟨9, 9, 0, []⟩ (leftDeep twoGroupPages.node [twoGroupPages.node])
        [a ++ a, a ++ b, b ++ b] ∧
      ¬ PlanYields 5 ⟨9, 9, 0, []⟩ (leftDeep twoGroupPages.node [twoGroupPages.node])
        (productRows ⟨9, 9, 0, []⟩ 5 (twoGroupPages.shown ⟨9, 9, 0, []⟩ 5)
          [twoGroupPages]) := by
  intro a b
  have hproduct : productRows ⟨9, 9, 0, []⟩ 5
      (twoGroupPages.shown ⟨9, 9, 0, []⟩ 5) [twoGroupPages]
      = [a ++ a, a ++ b, b ++ a, b ++ b] := rfl
  have hplan : PlanYields 5 ⟨9, 9, 0, []⟩ (leftDeep twoGroupPages.node [twoGroupPages.node])
      [a ++ a, a ++ b, b ++ b] :=
    (JoinTable.planYields twoGroupPages_ask.1 twoGroupPages_ask.2).nestLoop
      twoGroupPages_ask.1
      twoGroupPages_ask.2
  refine ⟨hproduct, hplan, fun h => ?_⟩
  have hlen := congrArg List.length (hplan.unique h)
  rw [hproduct] at hlen
  simp at hlen

end Toadb
