/-
Toadb.Portal.Netclient — messages on a connection (`portal.h`, `netclient.c`).

A message is an eight-byte header, the type and the payload's size as C `int`s, and the
payload. `parserMsg` is called with the bytes of one `recv`, or with none; what it does not
deliver it keeps in `restMsg`, of which the model lists the `restLen` bytes in use.

  * every `memcpy` is checked against its two buffers, and `none` is a copy that leaves one of
    them;
  * `feed` calls the parser again, with length 0, as long as it delivers a message.
-/
import Mathlib.Data.List.Basic
import Toadb.Lib.Bytes
import Toadb.Lib.Framing
import Mathlib.Algebra.Order.Ring.Int

namespace Toadb

open Bytes (memcpy)

/-! ## Messages -/

/-- `PORT_BUFFER_SIZE`. -/
def portBufferSize : Nat := 2048

/-- `MSG_HEADER_LEN`. -/
def msgHeaderLen : Nat := 8

/-- The size of `restMsg`: `PORT_BUFFER_SIZE+PORT_BUFFER_SIZE`. -/
def restMsgSize : Nat := portBufferSize + portBufferSize

/-- `msgType`. -/
inductive MsgType where
  | start | request | begin | continue | finish | end
  deriving DecidableEq, Repr

/-- The number C gives a `msgType`. -/
def MsgType.code : MsgType → Int
  | .start => 0
  | .request => 1
  | .begin => 2
  | .continue => 3
  | .finish => 4
  | .end => 5

/-- `MsgHeader`: the message last parsed. `body` is the whole array, its first `size` bytes
are the payload. -/
structure MsgHeader where
  type : Int
  size : Int
  body : List UInt8
  deriving DecidableEq, Repr

/-- A `MsgHeader` after `memset`. -/
def MsgHeader.zero : MsgHeader := ⟨0, 0, List.replicate portBufferSize 0⟩

/-- A message as its sender writes it; both header fields are C `int`s. -/
structure Message where
  type : Int
  payload : List UInt8
  type_range : -2 ^ 31 ≤ type ∧ type < 2 ^ 31
  payload_range : payload.length < 2 ^ 31
  deriving DecidableEq

/-- The bytes `WriteData` sends for a message. -/
def Message.encode (m : Message) : List UInt8 :=
  Bytes.ofNat 4 (BitVec.ofInt 32 m.type).toNat ++ Bytes.ofNat 4 m.payload.length ++ m.payload

/-- A payload that the receiver accepts. -/
def Message.Fits (m : Message) : Prop :=
  0 < m.payload.length ∧ m.payload.length < portBufferSize

instance (m : Message) : Decidable m.Fits := inferInstanceAs (Decidable (_ ∧ _))

/-! ## The client context -/

/-- The states of `ClientStatus`, as the bits of the word that holds one. -/
def csIdle : BitVec 32 := 0

def csSendComm : BitVec 32 := 1

def csFinish : BitVec 32 := 3

/-- `CS_CLIENT_STATE_MASK`. -/
def csClientStateMask : BitVec 32 := 0x0000FFFF

/-- `CS_BLOCK`. -/
def csBlock : BitVec 32 := 0x01000000

/-- `ClientContext`: `restMsg` lists the first `restLen` bytes of the array. -/
structure ClientContext where
  clientStatus : BitVec 32
  restMsg : List UInt8
  msg : MsgHeader
  deriving DecidableEq, Repr

/-- A context that no call has used. -/
def ClientContext.init : ClientContext := ⟨csIdle, [], .zero⟩

/-- The `memset` of the message, before a server and after a client parses. -/
def clearMsg (client : ClientContext) : ClientContext := { client with msg := .zero }

/-! ## `ParserMsg` -/

/-- `GetMsgIntValue`: the `int` at the front of a buffer. -/
def getMsgIntValue (buf : List UInt8) : Int :=
  (BitVec.ofNat 32 (Bytes.toNat (buf.take 4))).toInt

/-- First fill the rest with the message's header. -/
def fillHeader (restMsg msg : List UInt8) : Option (List UInt8 × List UInt8) :=
  if restMsg.length < msgHeaderLen then
    let tmpLen := msgHeaderLen - restMsg.length
    (memcpy restMsgSize restMsg msg tmpLen).map fun rest => (rest, msg.drop tmpLen)
  else some (restMsg, msg)

/-- The status word after `tmpLen` bytes are saved behind the rest. -/
def blockStatus (clientStatus : BitVec 32) (restLen tmpLen : Nat) : BitVec 32 :=
  if portBufferSize < restLen + tmpLen then clientStatus ||| csBlock
  else clientStatus &&& ~~~csBlock

/-- Save the bytes of the chunk that are not parsed yet. -/
def saveRest (msg : List UInt8) (client : ClientContext) : Option ClientContext :=
  if 0 < msg.length then
    (memcpy restMsgSize client.restMsg msg msg.length).map fun rest =>
      { client with
        restMsg := rest
        clientStatus := blockStatus client.clientStatus client.restMsg.length msg.length }
  else some client

/-- Wait for more bytes: nothing is delivered, and the message is cleared. -/
def waitContext (restMsg msg : List UInt8) (client : ClientContext) :
    Option (Int × ClientContext) :=
  (saveRest msg
      { client with restMsg := restMsg, msg := { client.msg with type := 0, size := 0 } }).map
    fun client => (0, client)

/-- Fill the entire message, and move the rest behind it to the front. -/
def fillMessage (type size : Int) (restMsg msg : List UInt8) (client : ClientContext) :
    Option (Int × ClientContext) := do
  let body ← memcpy portBufferSize [] (restMsg.drop msgHeaderLen) size
  let restOffset := msgHeaderLen + size.toNat
  let rest ← memcpy restMsgSize [] (restMsg.drop restOffset) (restMsg.length - restOffset)
  let client ← saveRest msg
    { client with restMsg := rest,
                  msg := ⟨type, size, body ++ client.msg.body.drop size.toNat⟩ }
  return (size, client)

/-- `ParserMsg`: its return value, and the context it leaves. -/
def parserMsg (msg : List UInt8) (client : ClientContext) : Option (Int × ClientContext) :=
  if msg.length + client.restMsg.length < msgHeaderLen then some (0, client)
  else do
    let (rest, msg) ← fillHeader client.restMsg msg
    let type := getMsgIntValue rest
    let size := getMsgIntValue (rest.drop 4)
    if portBufferSize ≤ size then
      return (-1, { client with restMsg := rest, msg := { client.msg with type, size } })
    if rest.length + msg.length < size then waitContext rest msg client
    else if rest.length - msgHeaderLen < size then
      -- the rest misses a part of the payload
      let tmpLen : Int := size - rest.length + msgHeaderLen
      if tmpLen ≤ msg.length then do
        let rest ← memcpy restMsgSize rest msg tmpLen
        fillMessage type size rest (msg.drop tmpLen.toNat) client
      else waitContext rest msg client
    else fillMessage type size rest msg client

/-! ## Feeding the parser -/

/-- A message as `ParserMsg` leaves it for its caller: type, size, and the payload in
`body`. -/
def MsgHeader.delivered (h : MsgHeader) : Int × Int × List UInt8 :=
  (h.type, h.size, h.body.take h.size.toNat)

/-- What the receiver of a message should get. -/
def Message.received (m : Message) : Int × Int × List UInt8 :=
  (m.type, m.payload.length, m.payload)

/-- Call the parser with the bytes `msg`, and again with none as long as it delivers; at most
`fuel` calls. -/
def feedLoop : Nat → List UInt8 → ClientContext →
    Option (List (Int × Int × List UInt8) × ClientContext)
  | 0, _, client => some ([], client)
  | fuel + 1, msg, client => do
    let (ret, client) ← parserMsg msg client
    if 0 < ret then
      let (ms, last) ← feedLoop fuel [] client
      return (client.msg.delivered :: ms, last)
    else return ([], client)

/-- The calls for one chunk. Each delivery takes a byte at least, so the fuel is enough. -/
def feed (chunk : List UInt8) (client : ClientContext) :
    Option (List (Int × Int × List UInt8) × ClientContext) :=
  feedLoop (client.restMsg.length + chunk.length + 1) chunk client

/-- The calls for the chunks of a stream. -/
def feedAll : List (List UInt8) → ClientContext →
    Option (List (Int × Int × List UInt8) × ClientContext)
  | [], client => some ([], client)
  | chunk :: chunks, client => do
    let (ms, client) ← feed chunk client
    let (ms', last) ← feedAll chunks client
    return (ms ++ ms', last)

/-! ## The framing of a stream -/

/-- The size field of a header. -/
def headerSize (bs : List UInt8) : Int := getMsgIntValue (bs.drop 4)

theorem getMsgIntValue_range (buf : List UInt8) :
    -2 ^ 31 ≤ getMsgIntValue buf ∧ getMsgIntValue buf < 2 ^ 31 :=
  ⟨BitVec.le_toInt _, BitVec.toInt_lt⟩

theorem length_take_headerSize (bs payload : List UInt8) :
    (payload.take (headerSize bs).toNat).length < 2 ^ 31 := by
  have h := (getMsgIntValue_range (bs.drop 4)).2
  rw [List.length_take, headerSize]
  omega

/-- The first message of a stream, when it is complete and its size is one the receiver
accepts. -/
def nextMsg (bs : List UInt8) : Option (Message × List UInt8) :=
  let size := headerSize bs
  if 0 < size ∧ size < portBufferSize ∧ msgHeaderLen + size ≤ bs.length then
    some (⟨getMsgIntValue bs, (bs.drop msgHeaderLen).take size.toNat, getMsgIntValue_range bs,
      length_take_headerSize bs _⟩, bs.drop (msgHeaderLen + size.toNat))
  else none

end Toadb
