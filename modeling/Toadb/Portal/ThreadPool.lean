/-
Toadb.Portal.ThreadPool — how a client gets to a worker (`threadPool.c`, `ServerLoop`,
`BeginTask` and `FinishTask` of `servprocess.c`).

The listener accepts a client, looks for an idle worker, writes the task into the worker and
posts its semaphore. The worker waits for the semaphore and only then says that it is running.
Every step here is one access to what the two share:

    PushTask      look at one worker | taskId | clientfd | taskEntry | PostSem
    threadEntry   WaitSem | tw_state = TW_RUNNING | BeginTask | FinishTask
                  | tw_state = TW_IDLE | ExitWorker

`pushed`, `taken` and `served` are histories that no step reads: the tasks for which
`PushTask` returned success, and those that a worker began and finished. A task is known by
its place in `pushed`.
-/
import Toadb.Lib.Transition
import Mathlib.Logic.Function.Basic
import Mathlib.Algebra.Order.Ring.Int

namespace Toadb

/-! ## Workers -/

/-- `WS_STATE` while the server runs. -/
inductive WsState where
  | idle | running
  deriving DecidableEq, Repr

/-- `ThreadTaskInfo`, with the place of the task. -/
structure ThreadTaskInfo where
  taskId : Nat
  clientfd : Int
  push : Option Nat
  deriving DecidableEq, Repr

/-- Where `threadEntry` is. -/
inductive WorkerPoint where
  /-- In `WaitSem`. -/
  | waiting
  /-- Behind `WaitSem`. -/
  | woken
  /-- Behind `BeginWorkerThread`. -/
  | begun
  /-- Behind `BeginTask`, with the descriptor that it has read. -/
  | serving (servfd : Int) (push : Option Nat)
  /-- Behind `FinishTask`. -/
  | finished
  /-- Behind `FinishWorkerThread`. -/
  | exiting
  deriving DecidableEq, Repr

/-- `ThreadWorkerInfo`: `taskEntry` says whether it is not NULL. -/
structure PoolWorker where
  twState : WsState
  taskIdleLock : Nat
  taskEntry : Bool
  taskContext : ThreadTaskInfo
  point : WorkerPoint
  deriving DecidableEq, Repr

/-- A task that a worker began. -/
structure TakenTask (n : Nat) where
  worker : Fin n
  clientfd : Int
  push : Option Nat
  deriving DecidableEq, Repr

/-! ## The listener -/

/-- Where `ServerLoop` is: in `accept`, or in `PushTask` for a client. -/
inductive ListenerPoint (n : Nat) where
  | accepting
  /-- `GetIdleWorker`: the workers below `index` are not looked at yet. -/
  | scanning (clientfd : Int) (index : Nat)
  | setTaskId (clientfd : Int) (w : Fin n)
  | setClientfd (clientfd : Int) (w : Fin n)
  | setTaskEntry (clientfd : Int) (w : Fin n)
  | posting (clientfd : Int) (w : Fin n)
  deriving DecidableEq, Repr

/-- `ThreadPoolInfo` and its threads. -/
structure ThreadPool (n : Nat) where
  workers : Fin n → PoolWorker
  listener : ListenerPoint n
  taskNextId : Nat
  pushed : List (Fin n × Int)
  taken : List (TakenTask n)
  served : List (TakenTask n)

/-- `InitThreadPool`. -/
def ThreadPool.init (n : Nat) : ThreadPool n :=
  ⟨fun _ => ⟨.idle, 0, false, ⟨0, 0, none⟩, .waiting⟩, .accepting, 0, [], [], []⟩

variable {n : Nat}

/-- Overwrite one worker. -/
def ThreadPool.setWorker (s : ThreadPool n) (w : Fin n) (k : PoolWorker) : ThreadPool n :=
  { s with workers := Function.update s.workers w k }

/-- Overwrite the task of a worker. -/
def ThreadPool.setTask (s : ThreadPool n) (w : Fin n)
    (task : ThreadTaskInfo) : ThreadPool n :=
  s.setWorker w { s.workers w with taskContext := task }

/-! ## Steps -/

/-- The next step of `PushTask`. Without an idle worker the client is rejected. -/
def ThreadPool.pushTask (s : ThreadPool n) : Option (ThreadPool n) :=
  match s.listener with
  | .accepting => none
  | .scanning _ 0 => some { s with listener := .accepting }
  | .scanning clientfd (index + 1) =>
    if h : index < n then
      if (s.workers ⟨index, h⟩).twState = .idle then
        some { s with listener := .setTaskId clientfd ⟨index, h⟩ }
      else some { s with listener := .scanning clientfd index }
    else none
  | .setTaskId clientfd w =>
    let task := (s.workers w).taskContext
    some { s.setTask w { task with taskId := s.taskNextId, push := some s.pushed.length } with
      taskNextId := (s.taskNextId + 1) % 2 ^ 32
      listener := .setClientfd clientfd w }
  | .setClientfd clientfd w =>
    some { s.setTask w { (s.workers w).taskContext with clientfd } with
      listener := .setTaskEntry clientfd w }
  | .setTaskEntry clientfd w =>
    some { s.setWorker w { s.workers w with taskEntry := true } with
      listener := .posting clientfd w }
  | .posting clientfd w =>
    let k := s.workers w
    some { s.setWorker w { k with taskIdleLock := k.taskIdleLock + 1 } with
      listener := .accepting
      pushed := s.pushed ++ [(w, clientfd)] }

/-- `FinishTask`. -/
def ThreadTaskInfo.finishTask (task : ThreadTaskInfo) : ThreadTaskInfo :=
  ⟨2 ^ 32 - 1, if task.clientfd > 0 then -1 else task.clientfd, none⟩

/-- The next step of `threadEntry`; `none` where the worker waits. -/
def ThreadPool.threadEntry (s : ThreadPool n) (w : Fin n) : Option (ThreadPool n) :=
  let k := s.workers w
  match k.point with
  | .waiting =>
    if k.taskIdleLock = 0 then none
    else some (s.setWorker w { k with taskIdleLock := k.taskIdleLock - 1, point := .woken })
  | .woken => some (s.setWorker w { k with twState := .running, point := .begun })
  | .begun =>
    if k.taskEntry then
      let task := k.taskContext
      some { s.setWorker w { k with point := .serving task.clientfd task.push } with
        taken := s.taken ++ [⟨w, task.clientfd, task.push⟩] }
    else some (s.setWorker w { k with point := .finished })
  | .serving servfd push =>
    some { s.setWorker w { k with taskContext := k.taskContext.finishTask,
                                  point := .finished } with
      served := s.served ++ [⟨w, servfd, push⟩] }
  | .finished => some (s.setWorker w { k with twState := .idle, point := .exiting })
  | .exiting => some (s.setWorker w { k with point := .waiting })

/-- Who moves. -/
inductive PoolAct (n : Nat) where
  | accept (clientfd : Int)
  | pushTask
  | threadEntry (w : Fin n)
  deriving DecidableEq, Repr

def ThreadPool.step (s : ThreadPool n) : PoolAct n → Option (ThreadPool n)
  | .accept clientfd =>
    if s.listener = .accepting ∧ 0 ≤ clientfd then
      some { s with listener := .scanning clientfd n }
    else none
  | .pushTask => s.pushTask
  | .threadEntry w => s.threadEntry w

end Toadb
