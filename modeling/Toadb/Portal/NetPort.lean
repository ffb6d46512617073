/-
Toadb.Portal.NetPort — the messages of a result (`portal.c`, `netclient.c`).

The server sends a row as soon as the executor has it. With the first row it
sends the names of the columns, the head. Both are printed into the body of
the portal's only message, and sent from there.

The client is connected (`clientFd`), and the server runs for clients
(`TOADSERV_CS_MODE_SERVER`). `none` is a read outside of what is there.
-/
import Toadb.Plan.Query
import Toadb.Portal.RowText

namespace Toadb

/-! ## The portal -/

/-- `PortFlag`. -/
inductive PortFlag where
  | rowHeader | rowString | nothing
  deriving DecidableEq, Repr

/-- `Portal`: the message, and what it is printed from. `buffer` is the memory at the body of
the message, and `sent` what the client has been sent. -/
structure Portal where
  flag : PortFlag
  type : MsgType
  size : Int
  buffer : Int → UInt8
  rowData : Option (List (Option RowColumnData))
  targetList : Option (List TargetEntry)
  targetValTypeArr : List ValueType
  sent : List (List UInt8)

/-- `CreatePortal`. -/
def createPortal (buffer : Int → UInt8) : Portal :=
  ⟨.nothing, .start, 0, buffer, none, none, [], []⟩

/-- `InitTargetAttrType`. -/
def initTargetAttrType (portal : Portal) : Portal :=
  match portal.targetList with
  | none | some [] => portal
  | some targetList => { portal with targetValTypeArr := targetList.map (·.colRef.vt) }

/-- `InitSelectPortal`. -/
def initSelectPortal (targetList : List TargetEntry) (portal : Portal) : Portal :=
  initTargetAttrType { portal with
    targetList := portal.targetList.or (some targetList)
    flag := .rowHeader }

/-! ## The head -/

/-- `hat_strlen` of the body. -/
def bodyStrlen (pbuf : Int → UInt8) : Option Nat :=
  (dataString (Bytes.read pbuf 0 portBufferSize)).map CString.strlen

/-- The loop of `GeneralVirtualTableHeadRaw`: the buffer, and the offset afterwards. -/
def printNames : List TargetEntry → (Int → UInt8) → Nat → Option ((Int → UInt8) × Nat)
  | [], pbuf, offset => some (pbuf, offset)
  | targetEntry :: targetList, pbuf, offset => do
    let colName := targetEntry.name.getD targetEntry.colRef.field
    let pbuf := snprintf pbuf offset (sizeT (portBufferSize - offset)) (bar :: colName.val)
    let offset ← bodyStrlen pbuf
    printNames targetList pbuf offset

/-- `GeneralVirtualTableHeadRaw`: the buffer, and the size of the message. -/
def generalVirtualTableHeadRaw (targetList : Option (List TargetEntry)) (pbuf : Int → UInt8) :
    Option ((Int → UInt8) × Int) :=
  match targetList with
  | none => some (pbuf, -1)
  | some targetList => do
    let (pbuf, offset) ← printNames targetList pbuf 0
    return (snprintf pbuf offset (sizeT (portBufferSize - offset)) [bar], offset + 2)

/-! ## Sending -/

/-- The bytes at `msgBody`: the header, and as many of the body as its size says. -/
def portalMessage (portal : Portal) : List UInt8 :=
  Bytes.ofNat 4 (BitVec.ofInt 32 portal.type.code).toNat ++
    Bytes.ofNat 4 (BitVec.ofInt 32 portal.size).toNat ++
      Bytes.read portal.buffer 0 portal.size.toNat

/-- `WritePortalMessage`. -/
def writePortalMessage (portal : Portal) : Portal :=
  { portal with sent := portal.sent ++ [portalMessage portal] }

/-- The `memset` of the body. -/
def clearBody (buffer : Int → UInt8) : Int → UInt8 :=
  Bytes.write buffer 0 (List.replicate portBufferSize 0)

/-- `FlushPortal`. -/
def flushPortal (portal : Portal) : Option Portal := do
  let size ← if portal.size ≤ 0 then (bodyStrlen portal.buffer).map fun len => (len + 1 : Int)
    else some portal.size
  let portal := writePortalMessage { portal with size }
  return { portal with size := -1, buffer := clearBody portal.buffer }

/-- The message with `ret` bytes of text, when there are any. -/
def flushText (ret : Int) (portal : Portal) : Option (Int × Portal) :=
  if ret ≤ 0 then some (ret, portal)
    else (flushPortal { portal with size := ret }).map (ret, ·)

/-- The state machine of the message's type. -/
def MsgType.next : MsgType → MsgType
  | .start => .begin
  | .begin => .continue
  | type => type

section Send

-- `%f`
variable (floatText : BitVec 32 → List UInt8)

/-- `PortalSendRows`, and the message. -/
def portalSendRows (portal : Portal) : Option (Int × Portal) := do
  let (buffer, ret) ← clientRowDataSend floatText portal.rowData
      portal.targetValTypeArr portal.buffer
  flushText ret { portal with buffer }

/-- `SendToNetPort`: its return value, and the portal afterwards. -/
def sendToNetPort (portal : Portal) : Option (Int × Portal) :=
  let portal := { portal with type := portal.type.next }
  match portal.flag with
  | .rowHeader => do
    let (buffer, ret) ← generalVirtualTableHeadRaw portal.targetList portal.buffer
    let (_, portal) ← flushText ret { portal with buffer, flag := .nothing }
    if ret ≤ 0 then return (ret, portal) else portalSendRows floatText portal
  | .rowString => do
    let len ← bodyStrlen portal.buffer
    (flushPortal { portal with flag := .nothing, size := len }).map (Int.ofNat len, ·)
  | .nothing => portalSendRows floatText portal

/-- `SendToPort`. -/
def sendToPort (rowData : List (Option RowColumnData))
    (portal : Portal) : Option (Int × Portal) :=
  sendToNetPort floatText { portal with rowData := some rowData }

end Send

end Toadb
