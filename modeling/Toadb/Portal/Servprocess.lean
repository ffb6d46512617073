/-
Toadb.Portal.Servprocess — the session loop of a server thread (`servprocess.c`).

`ProcessQuery` serves one client: it reads a command with `ReadMsg`, executes it and reads the
next. `ReadMsg` clears the message and then receives and parses until a message is delivered.
The only place where a session waits is the `recv`, so a state is a state at that place.

  * `cliContext` belongs to the thread: a session starts with what the one before it left;
  * a copy out of bounds ends the thread, `ServPhase.crashed`;
  * `Connection` adds the client: the commands it sends, and the bytes not yet received.

What a command does and what is sent back is left out.
-/
import Toadb.Lib.Transition
import Toadb.Portal.Netclient

namespace Toadb

/-! ## The server thread -/

/-- `MAX_COMMAND_LENGTH`. -/
def maxCommandLength : Nat := 2048

/-- Where a server thread is: without a client, in the `recv` of `ReadMsg`, or gone. -/
inductive ServPhase where
  | idle | reading | crashed
  deriving DecidableEq, Repr

/-- A server thread. `executed` lists the command buffers given to `ToadMainEntry` in this
session. -/
structure ServThread where
  phase : ServPhase
  cliContext : ClientContext
  executed : List (List UInt8)

/-- A thread that has served nobody. -/
def ServThread.init : ServThread := ⟨.idle, .init, []⟩

/-- `hat_strncmp(command, "quit", 4) == 0`. -/
def isQuit (command : List UInt8) : Bool := command.take 4 == [0x71, 0x75, 0x69, 0x74]

/-- `ProcessQuery` when `ReadMsg` has delivered a command. -/
def ServThread.processCommand (w : ServThread) (client : ClientContext) : ServThread :=
  if isQuit client.msg.body then { w with phase := .idle, cliContext := client }
  else { w with cliContext := clearMsg client, executed := w.executed ++ [client.msg.body] }

/-- One turn of the loop of `ReadMsg`, with the bytes received. -/
def ServThread.readMsg (w : ServThread) (chunk : List UInt8) : ServThread :=
  match parserMsg chunk w.cliContext with
  | none => { w with phase := .crashed }
  | some (ret, client) =>
    if 0 < ret then w.processCommand client else { w with cliContext := client }

/-- What happens to a server thread. -/
inductive ServEvent where
  /-- `BeginTask`, up to the first `recv`. -/
  | connect
  /-- `recv` gives these bytes. -/
  | recv (chunk : List UInt8)
  /-- `recv` fails, or the client is gone. -/
  | closed

def ServThread.step (w : ServThread) : ServEvent → Option ServThread
  | .connect =>
    if w.phase = .idle then some ⟨.reading, clearMsg w.cliContext, []⟩ else none
  | .recv chunk =>
    if w.phase = .reading ∧ 0 < chunk.length ∧ chunk.length ≤ maxCommandLength then
      some (w.readMsg chunk)
    else none
  | .closed => if w.phase = .reading then some { w with phase := .idle } else none

/-! ## The client's side -/

/-- A server thread with its client: the commands that it sends, and the bytes that are on
their way. -/
structure Connection where
  worker : ServThread
  sent : List Message
  stream : List UInt8

def Connection.init : Connection := ⟨.init, [], []⟩

/-- What happens on a connection. -/
inductive ClientEvent where
  /-- A client connects that sends these commands, without waiting. -/
  | connect (commands : List Message)
  /-- The next `len` bytes of the stream are received. -/
  | arrive (len : Nat)
  /-- The client is gone, perhaps in the middle of a command. -/
  | disconnect

def Connection.step (c : Connection) : ClientEvent → Option Connection
  | .connect commands => do
    let worker ← c.worker.step .connect
    return ⟨worker, commands, commands.flatMap Message.encode⟩
  | .arrive len => do
    let worker ← c.worker.step (.recv (c.stream.take len))
    return { c with worker, stream := c.stream.drop len }
  | .disconnect => do
    let worker ← c.worker.step .closed
    return { c with worker }

end Toadb
