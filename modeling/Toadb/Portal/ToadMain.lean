/-
Toadb.Portal.ToadMain — a worker serving one client session after the other
(`servprocess.c`), the commands of a session (`toadmain.c`), and the memory
contexts and the transaction a command runs in (`memstack.c`,
`transactionControl.c`).

`toadMainEntry` is the straight-line script that `ToadMainEntry` follows
once the outcome of its phases is known: whether the text parses, whether
each statement passes the analysis and the planner, and what it executes.
The workers take the steps of their scripts in any order. A step that calls
into the transaction system is a call of `transStep`, which cuts it into its
shared accesses.

* `MemManger` — the context tree of a worker, `MemMangerNewContext`,
  `MemMangerSwitchContext`, `MemMangerDeleteContext`.
* `toadMainEntry`, `queryAnalyzeAndRewrite`, `queryPlan`, `executorMain` —
  the scripts.
* `sessionStep` — the workers: `BeginTask`, one command, the next step of
  its script, a row access of the statement being executed, `FinishTask`.
-/
import Toadb.Transaction.SysGlobal

namespace Toadb

/-! ## Memory contexts -/

/-- A context linked into the list of its parent. -/
structure MemContext where
  context : Nat
  parent : Nat
  deriving DecidableEq, Repr

/-- The contexts of a worker in the order of their creation, `g_CurrentContext`, and the first
address that is not in use. -/
structure MemManger where
  contexts : List MemContext
  current : Nat
  fresh : Nat
  deriving DecidableEq, Repr

/-- `MemMangerNewContext`: a new child of the current context becomes current. -/
def MemManger.newContext (m : MemManger) : MemManger :=
  ⟨m.contexts ++ [⟨m.fresh, m.current⟩], m.fresh, m.fresh + 1⟩

/-- `MemMangerSwitchContext`. -/
def MemManger.switchContext (m : MemManger) (context : Nat) : MemManger :=
  { m with current := context }

/-- The contexts that are left when those of `dead` and all below them are destroyed. -/
def destroyContexts (dead : List Nat) : List MemContext → List MemContext
  | [] => []
  | c :: cs =>
      if c.context ∈ dead ∨ c.parent ∈ dead then destroyContexts (c.context :: dead) cs
      else c :: destroyContexts dead cs

/-- `MemMangerDeleteContext`: the context leaves the list it is linked in and is destroyed
with its subtree. -/
def MemManger.deleteContext (m : MemManger) (delContext : Nat) : MemManger :=
  { m with contexts := destroyContexts [delContext] m.contexts }

/-! ## Commands -/

/-- What executing a statement asks of the transaction system. -/
inductive StatementKind where
  /-- `ExecTransaction` with `TF_BEGIN`. -/
  | begin
  /-- `TF_END` and `TF_COMMIT`. -/
  | commit
  /-- `TF_ROLLBACK`. -/
  | rollback
  /-- `TF_SAVEPOINT`, the other utility statements, and the queries. -/
  | other
  deriving DecidableEq, Repr

/-- One tree of the parser, with the outcome of the later phases: `transformStmt` and
`QueryPlan` return something. -/
structure SubParserTree where
  kind : StatementKind
  transformed : Bool
  planned : Bool
  deriving DecidableEq, Repr

/-- What `raw_parser` makes of the text of a command; nothing on a syntax error. -/
abbrev ParserTree := Option (List SubParserTree)

/-- A step of `ToadMainEntry`. -/
inductive EntryStep where
  | startTransaction
  /-- `preContext = MemMangerNewContext("queryExcutor")`. -/
  | newQueryExcutor
  /-- `oldContext = MemMangerNewContext(..)`, for "queryTree", "planTree" and
  "ExecutorMain". -/
  | newContext
  /-- `MemMangerSwitchContext(oldContext)`. -/
  | switchContext
  | generateSnapshot
  /-- `ExecutorPlan`. -/
  | execute (kind : StatementKind)
  | finishTransaction
  /-- `currContext = MemMangerSwitchContext(preContext)` and
  `MemMangerDeleteContext(preContext, currContext)`. -/
  | deleteContext
  deriving DecidableEq, Repr

/-- `QueryAnalyzeAndRewrite`: the return on a failing statement is before the switch. -/
def queryAnalyzeAndRewrite (parserTree : List SubParserTree) : List EntryStep :=
  if parserTree.all (·.transformed) then [.newContext, .switchContext] else [.newContext]

/-- `QueryPlan`. -/
def queryPlan : List EntryStep := [.newContext, .switchContext]

/-- `ExecutorMain`, on the one plan that `QueryPlan` makes of a statement. -/
def executorMain (kind : StatementKind) : List EntryStep :=
  [.newContext, .generateSnapshot, .execute kind, .switchContext]

/-- The loop of `ToadMainEntry` over the query trees. -/
def executeQueries : List SubParserTree → List EntryStep
  | [] => []
  | node :: rest =>
      if node.planned then
        queryPlan ++ [.startTransaction] ++ executorMain node.kind ++ [.finishTransaction] ++
          executeQueries rest
      else queryPlan

/-- The phases between the first context and `ENDRET`. -/
def queryPhases : ParserTree → List EntryStep
  | none => []
  | some parserTree =>
      queryAnalyzeAndRewrite parserTree ++
        if parserTree.all (·.transformed) then executeQueries parserTree else []

/-- `ToadMainEntry`. -/
def toadMainEntry (query : ParserTree) : List EntryStep :=
  [.startTransaction, .newQueryExcutor] ++ queryPhases query ++
    [.deleteContext, .finishTransaction]

/-- The contexts of a worker and the pointers to contexts that `ToadMainEntry` and the phase
it is in hold. -/
structure EntryFrame where
  mem : MemManger
  preContext : Nat
  oldContext : Nat
  deriving DecidableEq, Repr

/-- What a step does to the contexts. -/
def EntryFrame.step (f : EntryFrame) : EntryStep → EntryFrame
  | .newQueryExcutor => { f with mem := f.mem.newContext, preContext := f.mem.current }
  | .newContext => { f with mem := f.mem.newContext, oldContext := f.mem.current }
  | .switchContext => { f with mem := f.mem.switchContext f.oldContext }
  | .deleteContext =>
      { f with mem := (f.mem.switchContext f.preContext).deleteContext f.mem.current }
  | _ => f

/-- `GetCurrentTransactionState`. -/
def getCurrentTransactionState (k : Worker) : TransactionFSMState :=
  if k.mine then k.context.ts else .idle

/-- `ExecTransaction`, and no call for the statements that are none of its own. -/
def execTransaction (k : Worker) : StatementKind → Option Call
  | .begin => some .beginTransaction
  | .commit => if getCurrentTransactionState k ≠ .idle then some .endTransaction else none
  | .rollback => if getCurrentTransactionState k ≠ .idle then some .abortTransaction else none
  | .other => none

/-- The call of the transaction system that a step makes. -/
def EntryStep.call (k : Worker) : EntryStep → Option Call
  | .startTransaction => some .startTransaction
  | .generateSnapshot => some .generateSnapshot
  | .finishTransaction => some .finishTransaction
  | .execute kind => execTransaction k kind
  | _ => none

/-! ## Sessions -/

/-- A statement that was executed: the how-manieth id and the how-manieth snapshot of its
worker it ran under, and whether it begins, or runs inside, an explicit transaction. -/
structure ExecutedStatement where
  xid : Nat
  snapshot : Nat
  explicit : Bool
  deriving DecidableEq, Repr

/-- A worker's thread outside the transaction system. From `session` on these are history
variables that no step reads: the number of the session served, how many ids the worker has
fetched and how many snapshots it has stored, in which session the last of each was, and the
statements executed, in order. A fresh snapshot object holds no snapshot of any session. -/
structure ServTask where
  connected : Bool
  /-- What is left of the command in execution. -/
  todo : List EntryStep
  frame : EntryFrame
  session : Nat
  xids : Nat
  snapshots : Nat
  xidSession : Nat
  snapshotSession : Option Nat
  executed : List ExecutedStatement
  deriving DecidableEq, Repr

/-- The workers. -/
structure SessionSys (n : Nat) where
  trans : TransSys n
  tasks : Fin n → ServTask

variable {n : Nat}

/-- The worker fetches a transaction id. -/
def fetchesXid (k k' : Worker) : Bool :=
  match k.phase, k'.phase with
  | .startFetch, .startStore _ => true
  | .ready, .beginStore _ => true
  | _, _ => false

/-- The history after a step of the worker from `k` to `k'`. -/
def ServTask.observe (x : ServTask) (k k' : Worker) : ServTask :=
  { x with
    xids := if fetchesXid k k' then x.xids + 1 else x.xids
    xidSession := if fetchesXid k k' then x.session else x.xidSession
    snapshots := if leavesScan k k' then x.snapshots + 1 else x.snapshots
    snapshotSession := if leavesScan k k' then some x.session else x.snapshotSession }

/-- A step of worker `w`, which leaves it with `x` and the transaction system with `trans`. -/
def SessionSys.advance (s : SessionSys n) (w : Fin n) (x : ServTask) (trans : TransSys n) :
    SessionSys n :=
  ⟨trans, Function.update s.tasks w (x.observe (s.trans.workers w) (trans.workers w))⟩

/-- `BeginTask`: the snapshot object is new, its array is not initialised. -/
def SessionSys.beginTask (s : SessionSys n) (w : Fin n)
    (memory : SnapShotInfo) : SessionSys n :=
  ⟨s.trans.setWorker w { s.trans.workers w with snapshot := { memory with xidNum := 0 } },
    Function.update s.tasks w { s.tasks w with
      connected := true, session := (s.tasks w).session + 1, snapshotSession := none }⟩

/-- `FinishTask`: the portal, the snapshot object and the socket are given up. -/
def SessionSys.finishTask (s : SessionSys n) (w : Fin n) : SessionSys n :=
  { s with tasks := Function.update s.tasks w { s.tasks w with connected := false } }

/-- A worker's thread after it has entered a step of its script. -/
def ServTask.enter (x : ServTask) (k : Worker) (step : EntryStep) (rest : List EntryStep) :
    ServTask :=
  { x with
    todo := rest
    frame := x.frame.step step
    executed := match step with
      | .execute kind =>
          x.executed ++ [⟨x.xids, x.snapshots, k.context.ts == .begin || kind == .begin⟩]
      | _ => x.executed }

/-- A row access. -/
def Call.accessesRow : Call → Bool
  | .insertTuple | .scanTuple _ | .updateTuple | .deleteTuple => true
  | _ => false

/-- What happens at a worker. -/
inductive SessionCall where
  /-- A client is served. -/
  | beginTask (memory : SnapShotInfo)
  /-- A command arrives. -/
  | command (query : ParserTree)
  /-- The next step of the command. -/
  | next
  /-- The statement being executed accesses a row. -/
  | row (call : Call)
  /-- The next shared access of the call in progress. -/
  | proceed
  /-- The client has quit or is gone. -/
  | finishTask
  deriving DecidableEq, Repr

/-- One atomic step. `ReadMsg` waits until the command before is done, so a client is found
gone between two commands. -/
def sessionStep (s : SessionSys n) (a : Fin n × SessionCall) : Option (SessionSys n) :=
  let k := s.trans.workers a.1
  let x := s.tasks a.1
  match a.2 with
  | .beginTask memory => if x.connected then none else some (s.beginTask a.1 memory)
  | .command query =>
      if x.connected ∧ x.todo = [] ∧ k.phase = .ready then
        some { s with tasks := Function.update s.tasks a.1
                        { x with todo := toadMainEntry query } }
      else none
  | .next =>
      match x.todo with
      | [] => none
      | step :: rest =>
          if k.phase = .ready then
            match step.call k with
            | some call =>
                (transStep s.trans (a.1, call)).map (s.advance a.1 (x.enter k step rest))
            | none => some (s.advance a.1 (x.enter k step rest) s.trans)
          else none
  | .row call =>
      match x.todo with
      | .execute .other :: _ =>
          if call.accessesRow then (transStep s.trans (a.1, call)).map (s.advance a.1 x)
            else none
      | _ => none
  | .proceed => (transStep s.trans (a.1, .proceed)).map (s.advance a.1 x)
  | .finishTask =>
      if x.connected ∧ x.todo = [] ∧ k.phase = .ready then some (s.finishTask a.1) else none

/-- A started server whose workers have served no client yet. Their contexts are any tree in
which a parent is older than its children. -/
structure SessionInit (s : SessionSys n) : Prop where
  trans : TransInit s.trans
  waiting : ∀ w, (s.tasks w).connected = false ∧ (s.tasks w).todo = [] ∧
    (s.tasks w).executed = []
  fresh : ∀ w, (s.tasks w).frame.mem.current < (s.tasks w).frame.mem.fresh ∧
    ∀ c ∈ (s.tasks w).frame.mem.contexts,
      c.parent < c.context ∧ c.context < (s.tasks w).frame.mem.fresh

end Toadb
