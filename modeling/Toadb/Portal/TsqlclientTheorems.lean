/-
Toadb.Portal.TsqlclientTheorems — when a client ends the wait for a command.

`readLoop_valid` is one call of `ReadMessage` on a part of the replies: the complete messages
are handed on up to `PORT_MSG_FINISH`, and the tail is kept. `waits_for_finish` is about any
commands and any segmentation in which every receive completes a header, and none leaves more
than a buffer of an incomplete message.
-/
import Toadb.Portal.NetclientTheorems
import Toadb.Portal.Tsqlclient

namespace Toadb

open Transition

/-! ## The status word -/

/-- The status of a client that waits stays as it is unless too much is saved. -/
theorem savedStatus_sendComm {restLen tmpLen : Nat}
    (h : tmpLen = 0 ∨ restLen + tmpLen ≤ portBufferSize) :
    savedStatus csSendComm restLen tmpLen = csSendComm := by
  rw [savedStatus]
  split
  · next hpos =>
    rw [blockStatus, if_neg (by omega)]
    decide
  · rfl

/-! ## One call of `ReadMessage` -/

/-- The bytes a turn of the loop starts with: the first turn has a chunk that completes a
header and leaves no more than a buffer of an incomplete message, the others have none. -/
def TurnFits (client : ClientContext) (message : List UInt8) : Prop :=
  message = [] ∧ client.msg = .zero ∨
    msgHeaderLen ≤ (client.restMsg ++ message).length ∧ nextMsg client.restMsg = none ∧
      message.length ≤ portBufferSize ∧
      ((client.restMsg ++ message).length ≤ portBufferSize ∨
        nextMsg (client.restMsg ++ message) ≠ none)

theorem afterMsg_status {client : ClientContext} {message r : List UInt8} {m : Message}
    (hstatus : client.clientStatus = csSendComm) (hturn : TurnFits client message)
    (hnext : nextMsg (client.restMsg ++ message) = some (m, r)) :
    (afterMsg client m r).clientStatus = csSendComm := by
  have hlen : (client.restMsg ++ message).length =
      msgHeaderLen + m.payload.length + r.length := by
    rw [(nextMsg_sound hnext).2, List.length_append, length_encode]
  rw [afterMsg, hstatus]
  refine savedStatus_sendComm ?_
  rcases hturn with ⟨rfl, -⟩ | ⟨-, hnone, hmax, -⟩
  · rw [List.append_nil] at hlen
    left
    simp only [filledTo, filled]
    omega
  · have hr : r.length ≤ message.length := messageFraming.length_le_of_next hnone hnext
    simp only [filledTo, filled]
    omega

theorem awaiting_status {client : ClientContext} {message : List UInt8}
    (hstatus : client.clientStatus = csSendComm) (hturn : TurnFits client message)
    (hnone : nextMsg (client.restMsg ++ message) = none)
    (h8 : msgHeaderLen ≤ (client.restMsg ++ message).length) :
    (awaiting client (client.restMsg ++ message)).clientStatus = csSendComm := by
  rw [awaiting, hstatus]
  refine savedStatus_sendComm ?_
  rcases hturn with ⟨rfl, -⟩ | ⟨-, -, -, hsmall | hsome⟩
  · rw [List.append_nil] at h8 ⊢
    left
    simp only [filled]
    omega
  · right
    have hfilled := filled_le h8
    omega
  · exact absurd hnone hsome

/-- What `ShowResult` shows of a delivered message is its payload. -/
theorem callMsgProc_afterMsg {m : Message} (hm : m.Fits) (shows : Bool)
    (client : ClientContext) (r : List UInt8) :
    callMsgProc shows (afterMsg client m r).msg = if shows then [m.payload] else [] := by
  have hpos := hm.1
  have hshow : showResult (afterMsg client m r).msg = [m.payload] := by
    simp only [showResult, afterMsg, Int.toNat_natCast, List.take_left]
    rw [if_neg (by omega)]
  rw [callMsgProc, hshow]

/-- Nothing is shown of a message that is not delivered. -/
theorem callMsgProc_empty (shows : Bool) {msg : MsgHeader} (h : msg.size = 0) :
    callMsgProc shows msg = [] := by
  have hshow : showResult msg = [] := if_pos (by rw [h])
  rw [callMsgProc, hshow]
  cases shows <;> rfl

/-- What the handler gets of the messages of a reply. -/
def handedOf (shows : Bool) (ms : List Message) : List (List UInt8) :=
  if shows then ms.map Message.payload else []

theorem handedOf_append (shows : Bool) (as bs : List Message) :
    handedOf shows (as ++ bs) = handedOf shows as ++ handedOf shows bs := by
  cases shows
  · rfl
  · exact List.map_append

theorem handedOf_cons (shows : Bool) (m : Message) (ms : List Message) :
    handedOf shows (m :: ms) = (if shows then [m.payload] else []) ++ handedOf shows ms := by
  cases shows <;> rfl

/-- What the loop leaves when the reply goes on with `as` and the message `f`, and the bytes
`t` are still on their way: it has come to the end, or it waits in the middle. -/
def LoopResult (shows : Bool) (as : List Message) (f : Message) (t : List UInt8)
    (shown : List (List UInt8)) (client : ClientContext) : Prop :=
  (t = [] ∧ shown = handedOf shows as ∧ client.restMsg = [] ∧
    client.clientStatus = csSendComm ||| csFinish) ∨
  ∃ done todo, as = done ++ todo ∧ shown = handedOf shows done ∧
    nextMsg client.restMsg = none ∧
    client.restMsg ++ t = messageFraming.encodeAll (todo ++ [f]) ∧
    client.clientStatus = csSendComm

/-- A turn that finds a part of a message keeps it, and ends the loop. -/
theorem readLoop_wait {shows : Bool} {m : Message} (hm : m.Fits) {message t : List UInt8}
    {client : ClientContext} (fuel : Nat) (ht : t ≠ [])
    (henc : m.encode = client.restMsg ++ message ++ t)
    (hnone : nextMsg (client.restMsg ++ message) = none) (hturn : TurnFits client message)
    (hstatus : client.clientStatus = csSendComm) :
    ∃ client', readLoop shows (fuel + 1) message client = some ([], client') ∧
      client'.restMsg = client.restMsg ++ message ∧ client'.clientStatus = csSendComm := by
  by_cases h8 : msgHeaderLen ≤ (client.restMsg ++ message).length
  · refine ⟨clearMsg (awaiting client (client.restMsg ++ message)), ?_, rfl,
      awaiting_status hstatus hturn hnone h8⟩
    have htype : (awaiting client (client.restMsg ++ message)).msg.type ≠
        MsgType.finish.code := by
      change (0 : Int) ≠ 4
      decide
    simp only [readLoop, parserMsg_of_prefix hm ht henc h8,
      Option.bind_eq_bind, Option.bind_some]
    rw [if_neg htype, if_neg (Int.lt_irrefl 0), callMsgProc_empty shows rfl]
    rfl
  · rcases hturn with ⟨rfl, hzero⟩ | ⟨hhead, -⟩
    · refine ⟨clearMsg client, ?_, (List.append_nil _).symm, hstatus⟩
      have htype : client.msg.type ≠ MsgType.finish.code := by
        rw [hzero]
        decide
      have hsize : client.msg.size = 0 := by
        rw [hzero]
        rfl
      simp only [readLoop, parserMsg_short (Nat.lt_of_not_le h8), Option.bind_eq_bind,
        Option.bind_some]
      rw [if_neg htype, if_neg (Int.lt_irrefl 0), callMsgProc_empty shows hsize]
      rfl
    · exact absurd hhead h8

theorem readLoop_valid {shows : Bool} {f : Message} (hf : f.Fits)
    (hfinish : f.type = MsgType.finish.code) {as : List Message}
    (hv : ∀ m ∈ as, m.Fits ∧ m.type ≠ MsgType.finish.code) {t message : List UInt8}
    {client : ClientContext} {fuel : Nat}
    (hfuel : (client.restMsg ++ message).length < fuel)
    (hpre : client.restMsg ++ message ++ t = messageFraming.encodeAll (as ++ [f]))
    (hrest : client.restMsg.length ≤ restMsgSize)
    (hlen : (client.restMsg ++ message).length ≤ restMsgSize + msgHeaderLen)
    (hturn : TurnFits client message) (hstatus : client.clientStatus = csSendComm) :
    ∃ shown client', readLoop shows fuel message client = some (shown, client') ∧
      LoopResult shows as f t shown client' := by
  induction as generalizing client message fuel with
  | nil =>
    obtain ⟨k, rfl⟩ : ∃ k, fuel = k + 1 := ⟨fuel - 1, by omega⟩
    rcases messageFraming.next_of_prefix hf hpre with ⟨r, hnext, hr⟩ | ⟨hnone, s, hs, henc, -⟩
    · -- the command's last message
      obtain ⟨rfl, rfl⟩ := List.append_eq_nil_iff.mp hr
      have hparse := parserMsg_of_next hnext hrest (by simp)
      refine ⟨[], { afterMsg client f [] with clientStatus := csSendComm ||| csFinish }, ?_,
        .inl ⟨rfl, ?_, rfl, rfl⟩⟩
      · simp only [readLoop, hparse, Option.bind_eq_bind, Option.bind_some]
        rw [if_pos (show (afterMsg client f []).msg.type = MsgType.finish.code from hfinish),
          afterMsg_status hstatus hturn hnext]
        rfl
      · cases shows <;> rfl
    · obtain ⟨client', hloop, hkept, hstill⟩ := readLoop_wait hf k hs henc hnone hturn hstatus
      refine ⟨[], client', hloop, .inr ⟨[], [], rfl, by cases shows <;> rfl, ?_, ?_, hstill⟩⟩
      · rw [hkept]
        exact hnone
      · rw [hkept]
        exact hpre
  | cons m as ih =>
    obtain ⟨k, rfl⟩ : ∃ k, fuel = k + 1 := ⟨fuel - 1, by omega⟩
    obtain ⟨hm, hbody⟩ := hv m List.mem_cons_self
    rcases messageFraming.next_of_prefix hm hpre with ⟨r, hnext, hr⟩ | ⟨hnone, s, hs, henc, -⟩
    · have hrlen : (client.restMsg ++ message).length =
          msgHeaderLen + m.payload.length + r.length := by
        rw [(nextMsg_sound hnext).2, List.length_append, length_encode]
      have hmpos := hm.1
      have hparse := parserMsg_of_next hnext hrest (by omega)
      obtain ⟨shown, client', hloop, hresult⟩ :
          ∃ shown client', readLoop shows k [] (clearMsg (afterMsg client m r)) =
            some (shown, client') ∧ LoopResult shows as f t shown client' := by
        refine ih (fun b hb => hv b (List.mem_cons_of_mem m hb)) ?_ ?_ ?_ ?_ (.inl ⟨rfl, rfl⟩)
          (afterMsg_status hstatus hturn hnext)
        · simp only [clearMsg, afterMsg, List.append_nil]
          omega
        · simp only [clearMsg, afterMsg, List.append_nil]
          exact hr
        · simp only [clearMsg, afterMsg]
          omega
        · simp only [clearMsg, afterMsg, List.append_nil]
          omega
      refine ⟨(if shows then [m.payload] else []) ++ shown, client', ?_, ?_⟩
      · simp only [readLoop, hparse, Option.bind_eq_bind, Option.bind_some]
        rw [if_neg (show (afterMsg client m r).msg.type ≠ MsgType.finish.code from hbody),
          if_pos (by omega), hloop, callMsgProc_afterMsg hm]
        rfl
      · rcases hresult with ⟨ht, hshown, hdone, hfin⟩ | ⟨done, todo, has, hshown, hwait⟩
        · exact .inl ⟨ht, by rw [hshown, handedOf_cons], hdone, hfin⟩
        · exact .inr ⟨m :: done, todo, by rw [has]; rfl, by rw [hshown, handedOf_cons], hwait⟩
    · obtain ⟨client', hloop, hkept, hstill⟩ := readLoop_wait hm k hs henc hnone hturn hstatus
      refine ⟨[], client', hloop,
        .inr ⟨[], m :: as, rfl, by cases shows <;> rfl, ?_, ?_, hstill⟩⟩
      · rw [hkept]
        exact hnone
      · rw [hkept]
        exact hpre

/-! ## Over the commands of a connection -/

/-- What the handler should get for each command. -/
def Client.owed (c : Client) (replies : List Reply) : List (List (List UInt8)) :=
  replies.map fun reply => handedOf c.shows reply.bodies

/-- Between two commands every reply has been received to its end and handed on under its
command. While the client waits, the end of the current reply is not complete, what was handed
on is what came before, and the client receives what is on its way. -/
def Client.InStep (c : Client) : Prop :=
  match c.phase with
  | .idle => c.finished = c.owed c.replies ∧ c.inFlight = [] ∧ c.client.restMsg = []
  | .waiting => c.blockRead = false ∧ ∃ earlier reply done todo,
      c.replies = earlier ++ [reply] ∧ c.finished = c.owed earlier ∧
        reply.bodies = done ++ todo ∧
      c.handed = handedOf c.shows done ∧ nextMsg c.client.restMsg = none ∧
      c.client.restMsg ++ c.inFlight = messageFraming.encodeAll (todo ++ [reply.finish])
  | .crashed => False

/-- The replies have payloads that the client accepts; what is received completes a header,
and leaves no more than a buffer of an incomplete message. -/
def Client.Digests (c : Client) : LoopEvent → Prop
  | .command reply => ∀ m ∈ reply.messages, m.Fits
  | .epoll len =>
    let bs := c.client.restMsg ++ c.inFlight.take len
    msgHeaderLen ≤ bs.length ∧ (bs.length ≤ portBufferSize ∨ nextMsg bs ≠ none)

/-- What a clean run keeps: the status word says what the client does, and the replies are
ones it accepts. -/
def Client.Clean (c : Client) : Prop :=
  c.InStep ∧ c.client.clientStatus = (if c.phase = .waiting then csSendComm else csIdle) ∧
    ∀ reply ∈ c.replies, ∀ m ∈ reply.messages, m.Fits

theorem clean_command {c c' : Client} {reply : Reply} (h : c.Clean)
    (hok : c.Digests (.command reply))
    (hstep : c.step (.command reply) = some c') : c'.Clean := by
  obtain ⟨hin, hstatus, hfits⟩ := h
  simp only [Client.step] at hstep
  split at hstep
  case isFalse => cases hstep
  next hidle =>
    cases hstep
    rw [Client.InStep, hidle] at hin
    obtain ⟨hfinished, hflight, hrest⟩ := hin
    refine ⟨⟨rfl, c.replies, reply, [], reply.bodies, rfl, hfinished, rfl, ?_, ?_, ?_⟩, ?_,
      ?_⟩
    · cases hs : c.shows <;> rfl
    · simp only [hrest]
      rfl
    · simp only [hrest, hflight]
      rfl
    · rw [hidle, if_neg nofun] at hstatus
      simp only [hstatus]
      decide
    · intro reply' hmem
      rcases List.mem_append.mp hmem with hmem | hmem
      · exact hfits reply' hmem
      · obtain rfl := List.mem_singleton.mp hmem
        exact hok

theorem clean_epoll {c c' : Client} {len : Nat} (h : c.Clean) (hok : c.Digests (.epoll len))
    (hstep : c.step (.epoll len) = some c') : c'.Clean := by
  obtain ⟨hin, hstatus, hfits⟩ := h
  obtain ⟨h8, hsmall⟩ := hok
  simp only [Client.step] at hstep
  split at hstep
  case isFalse => cases hstep
  next hready =>
    obtain ⟨hwaiting, hpos, hmax, hle⟩ := hready
    simp only [Client.InStep, hwaiting] at hin
    obtain ⟨hblock, earlier, reply, done, todo, hreplies, hfinished, hbodies, hhanded, hnone,
      hbytes⟩ := hin
    rw [hblock, if_neg Bool.false_ne_true] at hstep
    cases hstep
    rw [hwaiting, if_pos rfl] at hstatus
    have hmem : reply ∈ c.replies := by
      rw [hreplies]
      exact List.mem_append_right earlier List.mem_cons_self
    have hfinish : reply.finish.Fits :=
      hfits reply hmem _ (List.mem_append_right reply.bodies List.mem_cons_self)
    have hv : ∀ m ∈ todo, m.Fits ∧ m.type ≠ MsgType.finish.code := by
      intro m hm
      have hbody : m ∈ reply.bodies := by
        rw [hbodies]
        exact List.mem_append_right done hm
      exact ⟨hfits reply hmem m (List.mem_append_left _ hbody), reply.bodies_type m hbody⟩
    have hall : ∀ m ∈ todo ++ [reply.finish], m.Fits := by
      intro m hm
      rcases List.mem_append.mp hm with hm | hm
      · exact (hv m hm).1
      · obtain rfl := List.mem_singleton.mp hm
        exact hfinish
    have hlt := length_pending_lt hall hbytes hnone
    have hchunk : (c.inFlight.take len).length = len := by
      rw [List.length_take]
      omega
    simp only [msgHeaderLen, portBufferSize, socketBufferLen] at hlt hmax
    obtain ⟨shown, client', hloop, hresult⟩ : ∃ shown client',
        readLoop c.shows (c.client.restMsg.length + (c.inFlight.take len).length + 1)
          (c.inFlight.take len) c.client = some (shown, client') ∧
        LoopResult c.shows todo reply.finish (c.inFlight.drop len) shown client' := by
      refine readLoop_valid hfinish reply.finish_type hv ?_ ?_ ?_ ?_
        (.inr ⟨h8, hnone, ?_, hsmall⟩) hstatus
      · rw [List.length_append]
        omega
      · rw [List.append_assoc, List.take_append_drop]
        exact hbytes
      · simp only [restMsgSize, portBufferSize]
        omega
      · simp only [List.length_append, hchunk, restMsgSize, portBufferSize, msgHeaderLen]
        omega
      · simp only [hchunk, portBufferSize]
        omega
    simp only [Client.readMessage, hloop]
    rcases hresult with ⟨hflight, rfl, hrest, hdone⟩ | ⟨more, rest, rfl, rfl,
      hwait, hkept, hstill⟩
    · rw [if_pos (by rw [hdone]; decide)]
      refine ⟨⟨?_, hflight, hrest⟩, rfl, hfits⟩
      have hwhole : handedOf c.shows reply.bodies =
          handedOf c.shows done ++ handedOf c.shows todo := by
        rw [hbodies, handedOf_append]
      simp only [hfinished, hreplies, hhanded, Client.owed, List.map_append, List.map_cons,
        List.map_nil, hwhole]
    · rw [if_neg (by rw [hstill]; decide)]
      refine ⟨?_, ?_, hfits⟩
      · simp only [Client.InStep, hwaiting]
        refine ⟨by rw [hstill]; decide, earlier, reply, done ++ more, rest,
          hreplies, hfinished, ?_, ?_,
          hwait, hkept⟩
        · rw [hbodies, List.append_assoc]
        · rw [hhanded, handedOf_append]
      · simp only [hstill, hwaiting, if_pos]

theorem clean_event {c c' : Client} {e : LoopEvent} (h : c.Clean) (hok : c.Digests e)
    (hstep : c.step e = some c') : c'.Clean := by
  cases e with
  | command reply => exact clean_command h hok hstep
  | epoll len => exact clean_epoll h hok hstep

/-- Over any commands and any segmentation that the client digests, the wait for a command
ends with its last message, and its other messages are handed on under it. -/
theorem waits_for_finish {shows : Bool} {events : List LoopEvent} {c : Client}
    (hok : Along Client.step Client.Digests (.init shows) events)
    (hrun : run Client.step (.init shows) events = some c) : c.InStep := by
  have hinit : (Client.init shows).Clean :=
    ⟨⟨rfl, rfl, rfl⟩, rfl, fun reply h => absurd h List.not_mem_nil⟩
  exact (run_invariant clean_event hinit hok hrun).1

/-- A reply of two messages. -/
def twoMessages : Reply where
  bodies := [oneByteMessage .begin 65]
  finish := oneByteMessage .finish 0
  bodies_type := by decide
  finish_type := rfl

theorem twoMessages_inStep :
    (exec Client.step (.init true) [.command twoMessages, .epoll 12, .epoll 6]).InStep := by
  have hrun : run Client.step (.init true) [.command twoMessages, .epoll 12, .epoll 6] =
      some (exec Client.step (.init true) _) := run_exec (by decide)
  have hfits : ∀ m ∈ twoMessages.messages, m.Fits := by decide
  have hok : Along Client.step Client.Digests (.init true)
      [.command twoMessages, .epoll 12, .epoll 6] :=
    ⟨hfits, ⟨by decide, .inl (by decide)⟩, ⟨by decide, .inl (by decide)⟩, trivial⟩
  exact waits_for_finish hok hrun

/-- The first bytes of the second reply end the wait for it: what is tested is the type left
from the first one. -/
theorem staleFinish_ends_early :
    ¬ ∀ (shows : Bool) (events : List LoopEvent) (c : Client),
      run Client.step (.init shows) events = some c → c.InStep := by
  intro h
  have hrun : run Client.step (.init true)
      [.command twoMessages, .epoll 18, .command twoMessages, .epoll 4] =
      some (exec Client.step (.init true) _) := run_exec (by decide)
  have hin := h _ _ _ hrun
  have hidle : (exec Client.step (.init true)
      [.command twoMessages, .epoll 18, .command twoMessages, .epoll 4]).phase =
        .idle := by decide
  rw [Client.InStep, hidle] at hin
  exact absurd hin.2.1 (by decide)

end Toadb
