/-
Toadb.Portal.ServprocessTheorems — what a session may rely on.

`framing_in_bounds_iff`: the copies of a server thread stay inside their buffers exactly when
every chunk received `Fits`, a condition on the bytes at hand that no code checks.
`commands_executed`: when every receive brings at least a header and at most one command, and
no session leaves bytes behind, the thread executes the commands of its client one by one.
-/
import Toadb.Portal.NetclientTheorems
import Toadb.Portal.Servprocess

namespace Toadb

open Transition

/-! ## Staying inside the buffers -/

/-- The bytes at hand ask for no copy that leaves a buffer: no negative size, and no more
behind a message than `restMsg` holds. -/
def ChunkFits (restMsg chunk : List UInt8) : Prop :=
  msgHeaderLen ≤ (restMsg ++ chunk).length →
    0 ≤ headerSize (restMsg ++ chunk) ∧
      (headerSize (restMsg ++ chunk) < portBufferSize →
        ((restMsg ++ chunk).length : Int) ≤
          restMsgSize + msgHeaderLen + headerSize (restMsg ++ chunk))

instance (restMsg chunk : List UInt8) : Decidable (ChunkFits restMsg chunk) :=
  inferInstanceAs (Decidable (_ → _))

/-- Exactly these chunks are parsed. -/
theorem parserMsg_isSome_iff {client : ClientContext} {chunk : List UInt8}
    (hrest : client.restMsg.length ≤ restMsgSize) :
    (parserMsg chunk client).isSome ↔ ChunkFits client.restMsg chunk := by
  rw [ChunkFits]
  rcases header_cases (client.restMsg ++ chunk) with
    hshort | ⟨h8, hbig | hneg | ⟨hsmall, hwait⟩ | ⟨n, hsize, hn, hlen⟩⟩
  · rw [parserMsg_short hshort]
    exact ⟨fun _ h8 => by omega, fun _ => rfl⟩
  · rw [parserMsg_tooLarge h8 hbig]
    exact ⟨fun _ _ => ⟨by omega, fun h => by omega⟩, fun _ => rfl⟩
  · rw [parserMsg_negative h8 hneg]
    constructor
    · intro h
      cases h
    · intro h
      have hnonneg := (h h8).1
      omega
  · rw [parserMsg_wait h8 hsmall hwait]
    have hcap : (msgHeaderLen : Int) ≤ restMsgSize := by decide
    exact ⟨fun _ _ => ⟨by omega, fun _ => by omega⟩, fun _ => rfl⟩
  · rw [parserMsg_deliver hsize hn hlen hrest, hsize]
    split
    · exact ⟨fun _ _ => ⟨by omega, fun _ => by omega⟩, fun _ => rfl⟩
    · constructor
      · intro h
        cases h
      · intro h
        have hroom := (h h8).2 (by omega)
        omega

/-- No copy of the thread has left its buffers. -/
def ServThread.InBounds (w : ServThread) : Prop :=
  w.phase ≠ .crashed ∧ w.cliContext.restMsg.length ≤ restMsgSize

/-- What is received fits the buffers. -/
def ServThread.Fits (w : ServThread) : ServEvent → Prop
  | .recv chunk => ChunkFits w.cliContext.restMsg chunk
  | _ => True

instance : ∀ (w : ServThread) (e : ServEvent), Decidable (w.Fits e)
  | w, .recv chunk => inferInstanceAs (Decidable (ChunkFits w.cliContext.restMsg chunk))
  | _, .connect => .isTrue trivial
  | _, .closed => .isTrue trivial

theorem processCommand_restMsg (w : ServThread) (client : ClientContext) :
    (w.processCommand client).cliContext.restMsg = client.restMsg := by
  unfold ServThread.processCommand
  split <;> rfl

theorem processCommand_phase {w : ServThread} (h : w.phase = .reading)
    (client : ClientContext) :
    (w.processCommand client).phase ≠ .crashed := by
  unfold ServThread.processCommand
  split
  · nofun
  · rw [h]
    nofun

/-- A turn of `ReadMsg` stays inside the buffers exactly when the chunk fits them. -/
theorem readMsg_inBounds_iff {w : ServThread} {chunk : List UInt8} (h : w.InBounds)
    (hreading : w.phase = .reading) :
    (w.readMsg chunk).InBounds ↔ ChunkFits w.cliContext.restMsg chunk := by
  rw [← parserMsg_isSome_iff h.2, ServThread.readMsg]
  cases hparse : parserMsg chunk w.cliContext with
  | none => exact ⟨fun hin => absurd rfl hin.1, fun hsome => by cases hsome⟩
  | some p =>
    obtain ⟨ret, client⟩ := p
    obtain ⟨hrest, -, -⟩ := parserMsg_bytes h.2 hparse
    refine ⟨fun _ => rfl, fun _ => ?_⟩
    simp only
    split
    · refine ⟨processCommand_phase hreading client, ?_⟩
      rw [processCommand_restMsg]
      exact hrest
    · exact ⟨by rw [hreading]; nofun, hrest⟩

theorem step_inBounds_iff {w w' : ServThread} {e : ServEvent} (h : w.InBounds)
    (hstep : w.step e = some w') : w'.InBounds ↔ w.Fits e := by
  cases e with
  | connect =>
    simp only [ServThread.step] at hstep
    split at hstep
    · cases hstep
      exact ⟨fun _ => trivial, fun _ => ⟨nofun, h.2⟩⟩
    · cases hstep
  | recv chunk =>
    simp only [ServThread.step] at hstep
    split at hstep
    · next hready =>
      cases hstep
      exact readMsg_inBounds_iff h hready.1
    · cases hstep
  | closed =>
    simp only [ServThread.step] at hstep
    split at hstep
    · cases hstep
      exact ⟨fun _ => trivial, fun _ => ⟨nofun, h.2⟩⟩
    · cases hstep

/-- No copy leaves its buffers at any point of a run. -/
def AlwaysInBounds (events : List ServEvent) : Prop :=
  ∀ before after v, events = before ++ after →
    run ServThread.step .init before = some v → v.InBounds

/-- Over any sessions, the copies stay inside their buffers exactly when every chunk fits. -/
theorem framing_in_bounds_iff {events : List ServEvent} {w : ServThread}
    (hrun : run ServThread.step .init events = some w) :
    AlwaysInBounds events ↔ Along ServThread.step ServThread.Fits .init events :=
  run_invariant_iff step_inBounds_iff ⟨by decide, by decide⟩ hrun

/-- Two sessions: three commands that are cut across the chunks, and a command in one
piece. -/
def sessionsInPieces : List ServEvent :=
  .connect :: threeChunks.map .recv ++ [.closed, .connect, .recv oneByte.encode]

theorem sessionsInPieces_inBounds : AlwaysInBounds sessionsInPieces := by
  have hrun : run ServThread.step .init sessionsInPieces =
      some (exec ServThread.step .init _) :=
    run_exec (by decide)
  exact (framing_in_bounds_iff hrun).mpr (by decide)

/-- A header with a negative size ends the thread. -/
theorem negativeSize_crashes :
    ¬ ∀ (events : List ServEvent) (w : ServThread),
      run ServThread.step .init events = some w →
      AlwaysInBounds events := by
  intro h
  have hrun : run ServThread.step .init [.connect, .recv [1, 0, 0, 0, 255, 255, 255, 255]] =
      some (exec ServThread.step .init _) := run_exec (by decide)
  have hin := h _ _ hrun _ [] _ (List.append_nil _).symm hrun
  exact absurd hin.1 (by decide)

/-! ## Executing the client's commands -/

/-- The command buffer with the command of a message. -/
def Message.command (m : Message) : List UInt8 :=
  m.payload ++ List.replicate (portBufferSize - m.payload.length) 0

/-- The thread has executed the first commands of its client, and none of the others. While it
reads it holds no complete command, and what it holds goes on with what is on its way. -/
def Connection.Serves (c : Connection) : Prop :=
  c.worker.phase ≠ .crashed ∧ ∃ done todo, c.sent = done ++ todo ∧
    c.worker.executed = done.map Message.command ∧
    (c.worker.phase = .reading → nextMsg c.worker.cliContext.restMsg = none ∧
      c.worker.cliContext.restMsg ++ c.stream = messageFraming.encodeAll todo)

/-- A session starts with nothing left behind and sends commands that the server accepts; what
is received completes a header, and at most one command unless that one ends the session. -/
def Connection.OneByOne (c : Connection) : ClientEvent → Prop
  | .connect commands => c.worker.cliContext.restMsg = [] ∧ ∀ m ∈ commands, m.Fits
  | .arrive len =>
    let bs := c.worker.cliContext.restMsg ++ c.stream.take len
    msgHeaderLen ≤ bs.length ∧
      ∀ m r, nextMsg bs = some (m, r) → isQuit m.command = true ∨ nextMsg r = none
  | .disconnect => True

instance : ∀ (c : Connection) (e : ClientEvent), Decidable (c.OneByOne e)
  | c, .connect commands =>
    inferInstanceAs (Decidable (c.worker.cliContext.restMsg = [] ∧ ∀ m ∈ commands, m.Fits))
  | c, .arrive len =>
    let bs := c.worker.cliContext.restMsg ++ c.stream.take len
    have : Decidable (∀ m r, nextMsg bs = some (m, r) →
        isQuit m.command = true ∨ nextMsg r = none) :=
      decidable_of_iff (∀ p ∈ nextMsg bs, isQuit p.1.command = true ∨ nextMsg p.2 = none)
        ⟨fun h m r heq => h (m, r) heq, fun h p heq => h p.1 p.2 heq⟩
    inferInstanceAs (Decidable (msgHeaderLen ≤ bs.length ∧ _))
  | _, .disconnect => .isTrue trivial

/-- What a clean run keeps: while the thread reads, its message is cleared, and the client's
commands are ones it accepts. -/
def Connection.Clean (c : Connection) : Prop :=
  c.Serves ∧ (c.worker.phase = .reading → c.worker.cliContext.msg.body = MsgHeader.zero.body ∧
    ∀ m ∈ c.sent, m.Fits)

theorem body_afterMsg {client : ClientContext} (h : client.msg.body = MsgHeader.zero.body)
    (m : Message) (r : List UInt8) : (afterMsg client m r).msg.body = m.command := by
  rw [afterMsg, h, MsgHeader.zero, List.drop_replicate]
  rfl

theorem clean_connect {c c' : Connection} {commands : List Message}
    (hok : c.OneByOne (.connect commands)) (hstep : c.step (.connect commands) = some c') :
    c'.Clean := by
  obtain ⟨hrest, hfits⟩ := hok
  simp only [Connection.step, ServThread.step] at hstep
  split at hstep
  · cases hstep
    refine ⟨⟨nofun, [], commands, rfl, rfl, fun _ => ⟨?_, ?_⟩⟩, fun _ => ⟨rfl, hfits⟩⟩
    · simp only [clearMsg, hrest]
      rfl
    · simp only [clearMsg, hrest]
      rfl
  · cases hstep

theorem clean_disconnect {c c' : Connection} (h : c.Clean)
    (hstep : c.step .disconnect = some c') : c'.Clean := by
  obtain ⟨⟨-, done, todo, hsent, hexec, -⟩, -⟩ := h
  simp only [Connection.step, ServThread.step] at hstep
  split at hstep
  · cases hstep
    exact ⟨⟨nofun, done, todo, hsent, hexec, nofun⟩, nofun⟩
  · cases hstep

theorem clean_arrive {c c' : Connection} {len : Nat} (h : c.Clean)
    (hok : c.OneByOne (.arrive len)) (hstep : c.step (.arrive len) = some c') : c'.Clean := by
  obtain ⟨⟨-, done, todo, hsent, hexec, hserve⟩, hclear⟩ := h
  obtain ⟨h8, hone⟩ := hok
  simp only [Connection.step, ServThread.step] at hstep
  split at hstep
  case isFalse => cases hstep
  next hready =>
    obtain ⟨hreading, hpos, hmax⟩ := hready
    obtain ⟨hnone, hbytes⟩ := hserve hreading
    obtain ⟨hzero, hfits⟩ := hclear hreading
    cases hstep
    generalize hchunk : c.stream.take len = chunk at *
    have hpre : c.worker.cliContext.restMsg ++ chunk ++ c.stream.drop len =
        messageFraming.encodeAll todo := by
      rw [← hchunk, List.append_assoc, List.take_append_drop]
      exact hbytes
    have hvtodo : ∀ m ∈ todo, m.Fits := by
      intro m hm
      refine hfits m ?_
      rw [hsent]
      exact List.mem_append_right done hm
    have hlt := length_pending_lt hvtodo hbytes hnone
    cases todo with
    | nil =>
      have hnil := (List.append_eq_nil_iff.mp (List.append_eq_nil_iff.mp hpre).1).2
      rw [hnil] at hpos
      cases hpos
    | cons m ms =>
      have hm : m.Fits := hvtodo m List.mem_cons_self
      rcases messageFraming.next_of_prefix hm hpre with ⟨r, hnext,
        hr⟩ | ⟨hwait, t, ht, henc, -⟩
      · have hlen : (c.worker.cliContext.restMsg ++ chunk).length =
            msgHeaderLen + m.payload.length + r.length := by
          rw [(nextMsg_sound hnext).2, List.length_append, length_encode]
        rw [List.length_append] at hlen
        have hmpos := hm.1
        simp only [msgHeaderLen, portBufferSize, maxCommandLength] at hlen hlt hmax
        have hparse := parserMsg_of_next hnext
          (by simp only [restMsgSize, portBufferSize]; omega)
          (by simp only [restMsgSize, portBufferSize]; omega)
        have hread : c.worker.readMsg chunk =
            c.worker.processCommand (afterMsg c.worker.cliContext m r) := by
          simp only [ServThread.readMsg, hparse]
          rw [if_pos (by omega)]
        rw [hread, ServThread.processCommand, body_afterMsg hzero]
        by_cases hquit : isQuit m.command = true
        · rw [if_pos hquit]
          exact ⟨⟨by simp, done, m :: ms, hsent, hexec, fun h => by cases h⟩,
            fun h => by cases h⟩
        · rw [if_neg hquit]
          have hlast : nextMsg r = none := (hone m r hnext).resolve_left hquit
          refine ⟨⟨?_, done ++ [m], ms, ?_, ?_, fun _ => ⟨hlast, hr⟩⟩, fun _ => ⟨rfl, hfits⟩⟩
          · simp [hreading]
          · rw [List.append_assoc]
            exact hsent
          · rw [hexec, List.map_append]
            rfl
      · have hread : c.worker.readMsg chunk =
            { c.worker with
              cliContext :=
                awaiting c.worker.cliContext (c.worker.cliContext.restMsg ++ chunk) } := by
          simp only [ServThread.readMsg, parserMsg_of_prefix hm ht henc h8]
          rfl
        rw [hread]
        refine ⟨⟨?_, done, m :: ms, hsent, hexec, fun _ => ⟨hwait, hpre⟩⟩,
          fun _ => ⟨hzero, hfits⟩⟩
        simp [hreading]

theorem clean_step {c c' : Connection} {e : ClientEvent} (h : c.Clean) (hok : c.OneByOne e)
    (hstep : c.step e = some c') : c'.Clean := by
  cases e with
  | connect commands => exact clean_connect hok hstep
  | arrive len => exact clean_arrive h hok hstep
  | disconnect => exact clean_disconnect h hstep

/-- Over any sessions whose commands arrive one by one, the thread executes the commands of
its client in order, each as it was sent, and never holds a complete one. -/
theorem commands_executed {events : List ClientEvent} {c : Connection}
    (hone : Along Connection.step Connection.OneByOne .init events)
    (hrun : run Connection.step .init events = some c) : c.Serves := by
  have hinit : Connection.init.Clean :=
    ⟨⟨nofun, [], [], rfl, rfl, nofun⟩, nofun⟩
  exact (run_invariant clean_step hinit hone hrun).1

/-- Two clients: three commands that are cut across the chunks, and one that comes in two
pieces. -/
def clientsInPieces : List ClientEvent :=
  [.connect threeMessages, .arrive 18, .arrive 11, .arrive 1, .disconnect, .connect [oneByte],
    .arrive 8, .arrive 1]

theorem clientsInPieces_executed : (exec Connection.step .init clientsInPieces).Serves := by
  have hrun : run Connection.step .init clientsInPieces =
      some (exec Connection.step .init _) :=
    run_exec (by decide)
  have hone : Along Connection.step Connection.OneByOne .init clientsInPieces := by
    decide
  exact commands_executed hone hrun

/-- Two commands in one segment: the second waits for bytes that need not come. -/
theorem pipelined_waits :
    ¬ ∀ (events : List ClientEvent) (c : Connection),
      run Connection.step .init events = some c →
      c.Serves := by
  intro h
  have hrun : run Connection.step .init [.connect [oneByte, oneByte], .arrive 18] =
      some (exec Connection.step .init _) := run_exec (by decide)
  obtain ⟨-, done, todo, -, -, hserve⟩ := h _ _ hrun
  exact absurd (hserve (by decide)).1 (by decide)

end Toadb
