/-
Toadb.Portal.Tsqlclient — the receive loop of the clients (`tsqlclient.c`, `toadInterface.c`).

`ProcessClient` sends a command and waits: as often as `epoll` reports bytes it receives a
part of them and calls `ReadMessage`, until the client status says that the command is
finished. Both clients have the same loop. `tsql` installs `ShowResult` as the message
handler, the C interface none; `shows` tells them apart.

The server answers each command with a `Reply`, whose bytes are `inFlight` until they are
received.
-/
import Toadb.Lib.Transition
import Toadb.Portal.Netclient

namespace Toadb

/-- `SOCKET_BUFFER_LEN`. -/
def socketBufferLen : Nat := 2048

/-! ## `ReadMessage` -/

/-- What `ShowResult` shows of a message. -/
def showResult (msg : MsgHeader) : List (List UInt8) :=
  if msg.size ≤ 0 then [] else [msg.body.take msg.size.toNat]

/-- Call the message handler, when there is one. -/
def callMsgProc (shows : Bool) (msg : MsgHeader) : List (List UInt8) :=
  if shows then showResult msg else []

/-- The loop of `ReadMessage`: what is handed to the handler, and the context; at most `fuel`
turns. The type is tested before the return value. -/
def readLoop (shows : Bool) : Nat → List UInt8 → ClientContext →
    Option (List (List UInt8) × ClientContext)
  | 0, _, client => some ([], client)
  | fuel + 1, message, client => do
    let (ret, client) ← parserMsg message client
    if client.msg.type = MsgType.finish.code then
      return ([], { client with clientStatus := client.clientStatus ||| csFinish })
    let shown := callMsgProc shows client.msg
    let client := clearMsg client
    if 0 < ret then
      let (more, last) ← readLoop shows fuel [] client
      return (shown ++ more, last)
    else return (shown, client)

/-! ## `ProcessClient` -/

/-- The answer to a command: messages that are not `PORT_MSG_FINISH`, and one that is. -/
structure Reply where
  bodies : List Message
  finish : Message
  bodies_type : ∀ m ∈ bodies, m.type ≠ MsgType.finish.code
  finish_type : finish.type = MsgType.finish.code

/-- The messages of a reply as the server sends them. -/
def Reply.messages (reply : Reply) : List Message := reply.bodies ++ [reply.finish]

/-- Where a client is: between two commands, in `epoll_wait`, or gone. -/
inductive ClientPhase where
  | idle | waiting | crashed
  deriving DecidableEq, Repr

/-- A client. `handed` is what the handler got since the command was sent, `finished` what it
got for each command whose wait has ended; `blockRead` is `TS_BLOCK_READ`. -/
structure Client where
  shows : Bool
  phase : ClientPhase
  client : ClientContext
  blockRead : Bool
  handed : List (List UInt8)
  finished : List (List (List UInt8))
  replies : List Reply
  inFlight : List UInt8

/-- A client that has just connected. -/
def Client.init (shows : Bool) : Client := ⟨shows, .idle, .init, false, [], [], [], []⟩

/-- `ReadMessage`, with the bytes received or, while `TS_BLOCK_READ` is set, with none; then
`ProcessClient` looks whether the command is finished. -/
def Client.readMessage (c : Client) (message : List UInt8) : Client :=
  match readLoop c.shows (c.client.restMsg.length + message.length + 1) message c.client with
  | none => { c with phase := .crashed }
  | some (shown, client) =>
    let handed := c.handed ++ shown
    let blockRead := client.clientStatus &&& csBlock != 0
    if client.clientStatus &&& csClientStateMask = csFinish then
      { c with
        phase := .idle
        client := { client with clientStatus := csIdle }
        blockRead, handed, finished := c.finished ++ [handed] }
    else { c with client, blockRead, handed }

/-- What happens to a client. -/
inductive LoopEvent where
  /-- `ProcessClient` sends a command, which the server will answer with this reply. -/
  | command (reply : Reply)
  /-- `epoll` reports bytes, of which a `recv` would give `len`. -/
  | epoll (len : Nat)

def Client.step (c : Client) : LoopEvent → Option Client
  | .command reply =>
    if c.phase = .idle then
      some { c with
        phase := .waiting
        client := { c.client with clientStatus := c.client.clientStatus ||| csSendComm }
        blockRead := false
        handed := []
        replies := c.replies ++ [reply]
        inFlight := c.inFlight ++ reply.messages.flatMap Message.encode }
    else none
  | .epoll len =>
    if c.phase = .waiting ∧ 0 < len ∧ len ≤ socketBufferLen ∧ len ≤ c.inFlight.length then
      if c.blockRead then some (c.readMessage [])
      else some ({ c with inFlight := c.inFlight.drop len }.readMessage (c.inFlight.take len))
    else none

end Toadb
