/-
Toadb.Executor.NestLoop — the nested loop join (`execNestLoop.c`, the rescan of
`seqscan.c`).

A plan is a tree of scans and nested loops; every node keeps a state of its own
(`Plan.State`), and `execNodeProc` hands out the next row of a node. The planner
builds left-deep trees (`AddJoinTblNode`), in which every right child is a scan;
the rescan of a nested loop is a stub and is never called in them.

A scan whose target list is refused has no position. It hands out no row; but to
rescan it follows a null pointer, and that has no result.
-/
import Toadb.Executor.SeqScan

namespace Toadb

/-! ## Nested loops -/

/-- The columns of one row of each table, in table order. -/
abbrev JoinRow := List (List RowColumnData)

/-- `NestLoopState`, over the states of its two nodes. -/
structure NestLoopState (L R : Type) where
  left : L
  right : R
  outResultRow : JoinRow
  outerNeedNew : Bool
  outerIsEnd : Bool
  innerNeedNew : Bool

section

variable {L R : Type} (left : Nat → L → Option (Option JoinRow × L))
  (right : Nat → R → Option (Option JoinRow × R)) (reScan : R → Option R)

/-- The first half of the loop of `ExecNestLoopScan`: the next row of the left
node, if one is needed. -/
def outerRow (fuel : Nat) (planState : NestLoopState L R) : Option (NestLoopState L R) :=
  if planState.outerNeedNew then
    match left fuel planState.left with
    | none => none
    | some (none, l) =>
      some { planState with left := l, outerIsEnd := true, outerNeedNew := false }
    | some (some rowDataLeft, l) =>
        (reScan planState.right).map fun r =>
          { planState with
            left := l
            outResultRow := rowDataLeft
            outerNeedNew := false
            innerNeedNew := true
            right := r }
  else some planState

/-- `ExecMergeRowData`: the tables of the left row, then those of the right one. -/
def execMergeRowData (scanRowDataLeft scanRowDataRight : JoinRow) : JoinRow :=
  scanRowDataLeft ++ scanRowDataRight

/-- `ExecNestLoopScan`. -/
def execNestLoopScan :
    Nat → NestLoopState L R → Option (Option JoinRow × NestLoopState L R)
  | 0, _ => none
  | fuel + 1, planState =>
      if planState.outerIsEnd then some (none, planState)
      else
        match outerRow left reScan fuel planState with
        | none => none
        | some planState =>
            if planState.outerIsEnd then some (none, planState)
            else if planState.innerNeedNew then
              match right fuel planState.right with
              | none => none
              | some (none, r) =>
                  execNestLoopScan fuel
                    { planState with right := r, innerNeedNew := false, outerNeedNew := true }
              | some (some rowDataRight, r) =>
                  some (some (execMergeRowData planState.outResultRow rowDataRight),
                    { planState with right := r })
            else execNestLoopScan fuel planState

end

/-! ## Plans -/

/-- `SeqScan`: a table, and the columns its target list names. -/
structure SeqScan where
  file : TableFile
  groups : GroupFork
  colNum : Nat
  colindexList : List Nat

/-- The plan tree of a join. -/
inductive Plan where
  | seqScan (node : SeqScan)
  | nestLoop (leftplan rightplan : Plan)

/-- The states of the nodes of a plan; a scan may have no position. -/
def Plan.State : Plan → Type
  | .seqScan _ => Option ScanPageInfo
  | .nestLoop leftplan rightplan => NestLoopState leftplan.State rightplan.State

/-- `ExecReSeqScan`. The group search is only reset while it holds a page. -/
def execReSeqScan (info : ScanPageInfo) : ScanPageInfo :=
  { info with
    groupPageInfo :=
      if info.groupPageInfo.page then ⟨false, firstGroupPage, 0, 0⟩ else info.groupPageInfo
    pageList := []
    pageReset := true }

/-- `ExecNodeReScan`; `ReScanNestLoopNode` does nothing. -/
def execNodeReScan : (plan : Plan) → plan.State → Option plan.State
  | .seqScan _, scanPostionInfo => scanPostionInfo.map fun info => some (execReSeqScan info)
  | .nestLoop _ _, planState => some planState

/-- `InitExecNode`: the states a plan starts in. -/
def initExecNode : (plan : Plan) → plan.State
  | .seqScan node => initScanPositionInfo node.colNum node.colindexList
  | .nestLoop leftplan rightplan =>
      ⟨initExecNode leftplan, initExecNode rightplan, [], true, false, true⟩

/-- `ExecNodeProc`: the next row of a node. -/
def execNodeProc (curr : Nat) (snapshot : SnapShotInfo) :
    (plan : Plan) → Nat → plan.State → Option (Option JoinRow × plan.State)
  | .seqScan _, _, none => some (none, none)
  | .seqScan node, fuel, some info =>
      (seqscanNext node.file node.groups curr snapshot fuel info).map
        fun (row, info) => (row.map fun row => [row], some info)
  | .nestLoop leftplan rightplan, fuel, planState =>
      execNestLoopScan (execNodeProc curr snapshot leftplan)
        (execNodeProc curr snapshot rightplan)
        (execNodeReScan rightplan) fuel planState

/-- The plan of a list of tables: the first table, and each further one on the right. -/
def leftDeep (node : SeqScan) (nodes : List SeqScan) : Plan :=
  nodes.foldl (fun plan node => .nestLoop plan (.seqScan node)) (.seqScan node)

end Toadb
