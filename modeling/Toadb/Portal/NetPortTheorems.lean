/-
Toadb.Portal.NetPortTheorems — do the messages of a result fit?

The head is printed with the room that is left, so it stays in the buffer
(`printNames_eq`), but the two bytes that are added to its length are added
to a text that was cut off as well. A row is printed with a room of the whole
buffer for each column (`printColumns_eq`), wherever the column begins.

A message is accepted when its size is below `PORT_BUFFER_SIZE`
(`accepted_iff`); a row that is wider than the buffer is written behind it
(`portalSendRows_sends`).
-/
import Toadb.Portal.NetPort
import Toadb.Portal.NetclientTheorems
import Toadb.Portal.RowTextTheorems

namespace Toadb

/-! ## Widths -/

/-- The bytes of the head: a separator in front of each name. -/
def headWidth (targetList : List TargetEntry) : Nat :=
  (targetList.map fun te => (te.name.getD te.colRef.field).strlen + 1).sum

section Widths

variable (floatText : BitVec 32 → List UInt8)

/-- The bytes that a column takes of a row: none when it is missing, and one too many for a
NULL. -/
def columnWidth (columnData : Option RowColumnData) (vt : ValueType) : Nat :=
  match columnData with
  | none => 0
  | some c => if c.data = [] then 3 else (columnText floatText (some c) vt).length + 1

/-- The bytes of a row. -/
def rowWidth : List (Option RowColumnData) → List ValueType → Nat
  | columnData :: columns, vt :: types =>
    columnWidth floatText columnData vt + rowWidth columns types
  | _, _ => 0

end Widths

/-! ## What has to hold -/

/-- The client's parser takes the message, whatever it holds otherwise. -/
def Accepted (message : List UInt8) : Prop :=
  ∀ client : ClientContext, client.restMsg = [] → ∃ client',
    parserMsg message client = some (headerSize message, client') ∧ 0 < headerSize message

/-- The two memories agree outside of the body. -/
def SameOutside (buffer buffer' : Int → UInt8) : Prop :=
  ∀ a : Int, a < 0 ∨ portBufferSize ≤ a → buffer' a = buffer a

/-- Nothing is written outside of the body, and every message is accepted. -/
structure Portal.Ok (buffer : Int → UInt8) (portal : Portal) : Prop where
  inside : SameOutside buffer portal.buffer
  accepted : ∀ message ∈ portal.sent, Accepted message

/-- The rows are sent, one after the other, and the portal is well at any time. -/
def ResultSent (floatText : BitVec 32 → List UInt8) (buffer : Int → UInt8) :
    List (List (Option RowColumnData)) → Portal → Prop
  | [], portal => portal.Ok buffer
  | rowData :: rows, portal => portal.Ok buffer ∧ ∃ ret portal',
      sendToPort floatText rowData portal = some (ret, portal') ∧
        ResultSent floatText buffer rows portal'

/-- The messages of a result fit, whatever the memory holds. -/
def MessagesFit (floatText : BitVec 32 → List UInt8) (targetList : List TargetEntry)
    (rows : List (List (Option RowColumnData))) : Prop :=
  ∀ buffer, ResultSent floatText buffer rows
    (initSelectPortal targetList (createPortal buffer))

/-! ## Messages -/

section Message

variable {portal : Portal} {buffer : Int → UInt8}

theorem SameOutside.trans {buffer buffer' buffer'' : Int → UInt8}
    (h : SameOutside buffer buffer')
    (h' : SameOutside buffer' buffer'') : SameOutside buffer buffer'' :=
  fun a ha => (h' a ha).trans (h a ha)

theorem SameOutside.symm {buffer buffer' : Int → UInt8} (h : SameOutside buffer buffer') :
    SameOutside buffer' buffer := fun a ha => (h a ha).symm

theorem clearBody_outside (buffer : Int → UInt8) : SameOutside buffer (clearBody buffer) := by
  intro a ha
  refine Bytes.write_of_outside ?_
  rw [List.length_replicate]
  omega

/-- The size that the client finds is the `int` that was written. -/
theorem headerSize_message (portal : Portal) :
    headerSize (portalMessage portal) = (BitVec.ofInt 32 portal.size).toInt := by
  rw [headerSize, portalMessage, List.append_assoc, List.drop_left' (Bytes.length_ofNat _ _),
    getMsgIntValue_append (Bytes.length_ofNat _ _),
      getMsgIntValue_ofNat (BitVec.isLt _), BitVec.ofNat_toNat,
    BitVec.setWidth_eq]

theorem msgHeaderLen_le_message (portal : Portal) :
    msgHeaderLen ≤ (portalMessage portal).length := by
  rw [portalMessage, List.length_append, List.length_append, Bytes.length_ofNat,
    Bytes.length_ofNat, msgHeaderLen]
  omega

theorem code_range (type : MsgType) : -2 ^ 31 ≤ type.code ∧ type.code < 2 ^ 31 := by
  cases type <;> decide

theorem text_range (h : portal.size < portBufferSize) :
    (Bytes.read portal.buffer 0 portal.size.toNat).length < 2 ^ 31 := by
  rw [Bytes.length_read]
  rw [portBufferSize] at h
  omega

/-- The portal's message, when its text is in the buffer. -/
def textMessage (portal : Portal) (h : portal.size < portBufferSize) : Message where
  type := portal.type.code
  payload := Bytes.read portal.buffer 0 portal.size.toNat
  type_range := code_range portal.type
  payload_range := text_range h

theorem encode_textMessage (hpos : 0 < portal.size) (hlt : portal.size < portBufferSize) :
    (textMessage portal hlt).encode = portalMessage portal := by
  have hsize : (BitVec.ofInt 32 portal.size).toNat = portal.size.toNat := by
    rw [portBufferSize] at hlt
    rw [BitVec.toNat_ofInt, Int.emod_eq_of_lt hpos.le (by omega)]
  rw [portalMessage, hsize, Message.encode, textMessage, Bytes.length_read]

/-- A text of the buffer is accepted. -/
theorem accepted_of_lt (hpos : 0 < portal.size) (hlt : portal.size < portBufferSize) :
    Accepted (portalMessage portal) := by
  have hpayload : (textMessage portal hlt).payload.length = portal.size.toNat :=
    Bytes.length_read _ _ _
  have hencode := encode_textMessage hpos hlt
  rw [← List.append_nil (textMessage portal hlt).encode] at hencode
  intro client hclient
  have hnext : nextMsg (client.restMsg ++ portalMessage portal) =
      some (textMessage portal hlt, []) := by
    rw [hclient, ← hencode]
    refine nextMsg_encode ⟨?_, ?_⟩ []
    · omega
    · omega
  have hparse := parserMsg_of_next hnext (hclient ▸ Nat.zero_le _) (Nat.zero_le _)
  have hsize : headerSize (portalMessage portal) =
      (textMessage portal hlt).payload.length := by
    rw [← hencode, headerSize_encode]
  rw [← hsize] at hparse
  exact ⟨_, hparse, by omega⟩

theorem not_accepted {message : List UInt8} (hlen : msgHeaderLen ≤ message.length)
    (h : portBufferSize ≤ headerSize message) : ¬ Accepted message := by
  intro haccepted
  have hrest : ClientContext.init.restMsg = [] := rfl
  obtain ⟨client', hparse, hpos⟩ := haccepted .init hrest
  generalize ClientContext.init = client at hrest hparse
  rw [parserMsg_tooLarge (by rwa [hrest, List.nil_append])
    (by rwa [hrest, List.nil_append])] at hparse
  obtain ⟨hret, -⟩ := Prod.mk.inj (Option.some.inj hparse)
  omega

/-- A message is accepted when its size is that of a text in the buffer. -/
theorem accepted_iff (hpos : 0 < portal.size) (hlt : portal.size < 2 ^ 31) :
    Accepted (portalMessage portal) ↔ portal.size < portBufferSize := by
  refine ⟨fun h => ?_, accepted_of_lt hpos⟩
  by_contra hbig
  refine not_accepted (msgHeaderLen_le_message portal) ?_ h
  rw [headerSize_message, BitVec.toInt_ofInt_eq_self (by omega) (by omega) (by omega)]
  omega

/-- The portal after a text of `size` bytes is sent. -/
def flushed (portal : Portal) (buffer : Int → UInt8) (size : Int) : Portal :=
  { portal with
    size := -1
    buffer := clearBody buffer
    sent := portal.sent ++ [portalMessage { portal with buffer, size }] }

/-- A text that is not empty is sent with its size. -/
theorem flushText_of_pos {ret : Int} (h : 0 < ret) (portal : Portal) (buffer : Int → UInt8) :
    flushText ret { portal with buffer } = some (ret, flushed portal buffer ret) := by
  rw [flushText, if_neg (by omega), flushPortal]
  simp only [if_neg (show ¬ ret ≤ 0 by omega)]
  rfl

/-- A text that stays in the body and is not too long is sent well. -/
theorem Portal.Ok.flushed {buffer' : Int → UInt8} {size : Int} (h : portal.Ok buffer)
    (hinside : SameOutside portal.buffer buffer') (hpos : 0 < size)
    (hlt : size < portBufferSize) :
    (flushed portal buffer' size).Ok buffer where
  inside := (h.inside.trans hinside).trans (clearBody_outside buffer')
  accepted := by
    intro message hmem
    rcases List.mem_append.mp hmem with hold | hnew
    · exact h.accepted message hold
    · rw [List.mem_singleton.mp hnew]
      exact accepted_of_lt hpos hlt

theorem accepted_of_flushed {buffer' : Int → UInt8} {size : Int}
    (h : (flushed portal buffer' size).Ok buffer) :
    Accepted (portalMessage { portal with buffer := buffer', size }) :=
  h.accepted _ (List.mem_append_right _ List.mem_cons_self)

end Message

/-! ## The head -/

section Head

variable {pbuf : Int → UInt8}

/-- The length of a text in the buffer, with its 0. -/
theorem bodyStrlen_eq {text : List UInt8}
    (hread : Bytes.read pbuf 0 (text.length + 1) = text ++ [0])
    (hzero : 0 ∉ text) (hlt : text.length < portBufferSize) :
    bodyStrlen pbuf = some text.length := by
  have hbody : Bytes.read pbuf 0 portBufferSize = CString.bytes ⟨text, hzero⟩ ++
      Bytes.read pbuf (text.length + 1 : Nat) (portBufferSize - (text.length + 1)) := by
    rw [CString.bytes, ← hread, ← Int.zero_add ((text.length + 1 : Nat) : Int),
      ← Bytes.read_add]
    congr 1
    omega
  rw [bodyStrlen, hbody, dataString, if_pos (by simp [CString.bytes]), cString_append]
  rfl

/-- A text that is cut off at the end of the room has a 0 behind what is left. -/
theorem read_snprintf_take {mem : Int → UInt8} {offset : Int} {n : Nat}
    {text : List UInt8} (h : 0 < n) :
    Bytes.read (snprintf mem offset n text) offset ((text.take (n - 1)).length + 1) =
      text.take (n - 1) ++ [0] := by
  rw [snprintf, if_neg (by omega)]
  have hread := Bytes.read_write mem offset (text.take (n - 1) ++ [0])
  rwa [List.length_append] at hread

theorem snprintf_of_room {mem : Int → UInt8} {offset a : Int} {n : Nat} {text : List UInt8}
    (h : offset + n ≤ a) :
    snprintf mem offset n text a = mem a := by
  unfold snprintf
  split
  · rfl
  · refine Bytes.write_of_outside (.inr ?_)
    rw [List.length_append, List.length_take, List.length_singleton]
    omega

theorem snprintf_of_text {mem : Int → UInt8} {offset a : Int} {n : Nat} {text : List UInt8}
    (h : offset + text.length < a) : snprintf mem offset n text a = mem a := by
  unfold snprintf
  split
  · rfl
  · refine Bytes.write_of_outside (.inr ?_)
    rw [List.length_append, List.length_take, List.length_singleton]
    omega

/-- Whatever is printed with the room that is left stays in the buffer. -/
theorem snprintf_inside {offset : Nat} (h : offset < portBufferSize) (text : List UInt8) :
    SameOutside pbuf (snprintf pbuf offset (sizeT (portBufferSize - offset)) text) := by
  intro a ha
  rw [sizeT_of_lt h]
  rcases ha with hneg | hbehind
  · exact snprintf_of_lt (by omega)
  · exact snprintf_of_room (by omega)

theorem headWidth_cons (te : TargetEntry) (targetList : List TargetEntry) :
    headWidth (te :: targetList) =
      (te.name.getD te.colRef.field).strlen + 1 + headWidth targetList := by
  rw [headWidth, List.map_cons, List.sum_cons, headWidth]

/-- The names stay in the buffer, and the offset is that of their text, as far as there is
room. -/
theorem printNames_eq (targetList : List TargetEntry) {offset : Nat}
    (hlt : offset < portBufferSize) (hzero : 0 ∉ Bytes.read pbuf 0 offset) :
    ∃ pbuf', printNames targetList pbuf offset =
        some (pbuf', min (portBufferSize - 1) (offset + headWidth targetList)) ∧
          SameOutside pbuf pbuf' := by
  induction targetList generalizing pbuf offset with
  | nil =>
    have hmin : min (portBufferSize - 1) offset = offset := by omega
    refine ⟨pbuf, ?_, fun _ _ => rfl⟩
    rw [printNames, headWidth, List.map_nil, List.sum_nil, Nat.add_zero, hmin]
  | cons te targetList ih =>
    obtain ⟨colName, hname⟩ : ∃ colName, te.name.getD te.colRef.field = colName := ⟨_, rfl⟩
    obtain ⟨room, hroom⟩ : ∃ room, sizeT (portBufferSize - (offset : Int)) = room := ⟨_, rfl⟩
    have hsize : room = portBufferSize - offset := hroom ▸ sizeT_of_lt hlt
    -- what is in the buffer afterwards
    let text := Bytes.read pbuf 0 offset ++ (bar :: colName.val).take (room - 1)
    have hlen : text.length = min (portBufferSize - 1) (offset + (colName.strlen + 1)) := by
      rw [List.length_append, Bytes.length_read, List.length_take,
        List.length_cons, CString.strlen]
      omega
    have hfits : text.length < portBufferSize := by
      rw [portBufferSize] at *
      omega
    have hread : Bytes.read (snprintf pbuf offset room (bar :: colName.val)) 0
        (text.length + 1) = text ++ [0] := by
      rw [List.length_append, Bytes.length_read, Nat.add_assoc, Bytes.read_add,
        List.append_assoc, Int.zero_add]
      congr 1
      · exact Bytes.read_congr fun a _ ha => snprintf_of_lt (by omega)
      · exact read_snprintf_take (by omega)
    have htext : 0 ∉ text := by
      rw [List.mem_append, not_or]
      refine ⟨hzero, fun hmem => ?_⟩
      rcases List.mem_cons.mp (List.mem_of_mem_take hmem) with hbar | hname
      · cases hbar
      · exact colName.property hname
    have hzero' :
        0 ∉ Bytes.read (snprintf pbuf offset room (bar :: colName.val)) 0 text.length := by
      rw [← Bytes.take_read (Nat.le_succ text.length), hread, List.take_left]
      exact htext
    obtain ⟨pbuf', hrun, hinside⟩ := ih hfits hzero'
    refine ⟨pbuf', ?_, ?_⟩
    · simp only [printNames, hname, hroom, Option.bind_eq_bind]
      rw [bodyStrlen_eq hread htext hfits, Option.bind_some, hrun, hlen,
        headWidth_cons, hname]
      congr 2
      omega
    · exact SameOutside.trans (hroom ▸ snprintf_inside hlt _) hinside

/-- The head stays in the buffer, and has the two bytes for its end added to what was
printed. -/
theorem generalVirtualTableHeadRaw_eq (targetList : List TargetEntry) (pbuf : Int → UInt8) :
    ∃ pbuf', generalVirtualTableHeadRaw (some targetList) pbuf =
        some (pbuf', ((min (portBufferSize - 1) (headWidth targetList) : Nat) : Int) + 2) ∧
      SameOutside pbuf pbuf' := by
  obtain ⟨pbuf', hrun, hinside⟩ :=
    printNames_eq targetList (show 0 < portBufferSize by decide)
      (show 0 ∉ Bytes.read pbuf 0 0 from List.not_mem_nil)
  rw [Nat.zero_add] at hrun
  refine ⟨_, by rw [generalVirtualTableHeadRaw, hrun]; rfl,
    hinside.trans (snprintf_inside ?_ _)⟩
  rw [portBufferSize]
  omega

end Head

/-! ## A row -/

section Row

variable {floatText : BitVec 32 → List UInt8} {columns : List (Option RowColumnData)}
  {types : List ValueType}
  {portal : Portal} {buffer pbuf : Int → UInt8}

/-- The columns are printed between the two offsets, up to a 0 at the second. -/
theorem printColumns_eq (hfloat : ∀ bits, (floatText bits).length ≤ 127)
    (hok : List.Forall₂ CellOk columns types) (pbuf : Int → UInt8) (bufOffset : Int) :
    ∃ pbuf', printColumns floatText columns types pbuf bufOffset =
        some (pbuf', bufOffset + rowWidth floatText columns types) ∧
      ∀ a, a < bufOffset ∨ bufOffset + rowWidth floatText columns types < a →
        pbuf' a = pbuf a := by
  induction hok generalizing pbuf bufOffset with
  | nil =>
    exact ⟨pbuf, congrArg (fun off => some (pbuf, off)) (Int.add_zero _).symm, fun _ _ => rfl⟩
  | @cons columnData vt columns types hcolumn _ ih =>
    -- a column moves the offset by its width, and prints no more than that and a 0
    obtain ⟨width, text, hinfo, hwidth, htext⟩ : ∃ width text,
        getValueInfo floatText vt columnData 0 = some (width, text) ∧
          width + 1 = columnWidth floatText columnData vt ∧
          ∀ t, text = some t → (t.length : Int) ≤ columnWidth floatText columnData vt := by
      rcases getValueInfo_cases hfloat hcolumn with ⟨rfl, h⟩ | ⟨c, rfl, hdata,
        h⟩ | ⟨c, rfl, hdata, h⟩
      · exact ⟨_, _, h, rfl, nofun⟩
      · refine ⟨_, _, h, ?_, ?_⟩
        · rw [columnWidth, if_pos hdata]
          rfl
        · rintro t ⟨⟩
          rw [columnWidth, if_pos hdata]
          decide
      · refine ⟨_, _, h, ?_, ?_⟩
        · rw [columnWidth, if_neg hdata]
          push_cast
          rfl
        · rintro t ⟨⟩
          rw [columnWidth, if_neg hdata, List.length_cons]
    obtain ⟨pbuf', hrun, hframe⟩ := ih (putText pbuf bufOffset text) (bufOffset + (width + 1))
    refine ⟨pbuf', ?_, ?_⟩
    · rw [printColumns_cons hinfo, hrun, rowWidth, hwidth, Int.add_assoc]
      push_cast
      rfl
    · intro a ha
      rw [rowWidth] at ha
      push_cast at ha
      rw [hframe a (by omega)]
      rcases ha with hlt | hgt
      · exact putText_of_lt hlt
      · cases text with
        | none => rfl
        | some t =>
          have hle := htext t rfl
          exact snprintf_of_text (by omega)

/-- The text of a row: it begins in the buffer, and ends two bytes behind its width. -/
theorem clientRowDataSend_eq (hfloat : ∀ bits, (floatText bits).length ≤ 127)
    (hok : List.Forall₂ CellOk columns types) (pbuf : Int → UInt8) :
    ∃ pbuf', clientRowDataSend floatText (some columns) types pbuf =
        some (snprintf pbuf' (rowWidth floatText columns types)
            (sizeT (portBufferSize - (rowWidth floatText columns types : Int))) [bar],
          (rowWidth floatText columns types : Int) + 2) ∧
      ∀ a : Int, a < 0 ∨ rowWidth floatText columns types < a → pbuf' a = pbuf a := by
  obtain ⟨pbuf', hrun, hframe⟩ := printColumns_eq hfloat hok pbuf 0
  rw [Int.zero_add] at hrun hframe
  refine ⟨pbuf', ?_, hframe⟩
  rw [clientRowDataSend, hrun]
  rfl

/-- A text of the buffer's size or more is written behind the buffer, or has a size that is
rejected. -/
theorem wide_cases {width : Nat} (h : portBufferSize ≤ width + 2) :
    portBufferSize ≤ width ∧ 2 ≤ sizeT (portBufferSize - (width : Int)) ∨
      (portBufferSize : Int) ≤ (BitVec.ofInt 32 ((width : Int) + 2)).toInt := by
  rw [sizeT, BitVec.toNat_ofInt, BitVec.toInt_ofInt, Int.bmod_def, portBufferSize] at *
  split <;> omega

/-- From one portal to the next messages are sent, and it is well afterwards exactly when they
fit. -/
structure Sends (buffer : Int → UInt8) (fits : Prop) (portal portal' : Portal) : Prop where
  flag_eq : portal'.flag = portal.flag
  types_eq : portal'.targetValTypeArr = portal.targetValTypeArr
  sent : portal.sent ⊆ portal'.sent
  ok : portal.Ok buffer → fits → portal'.Ok buffer
  fits : (∀ a, buffer a = 0) → portal'.Ok buffer → fits

/-- A row of columns that INSERT stores is sent. -/
theorem portalSendRows_sends (hfloat : ∀ bits, (floatText bits).length ≤ 127)
    (hok : List.Forall₂ CellOk columns portal.targetValTypeArr)
    (hrow : portal.rowData = some columns) :
    ∃ ret portal', portalSendRows floatText portal = some (ret, portal') ∧
      Sends buffer (rowWidth floatText columns portal.targetValTypeArr + 2 < portBufferSize)
        portal portal' := by
  obtain ⟨pbuf', hsend, hframe⟩ := clientRowDataSend_eq hfloat hok portal.buffer
  rw [← hrow] at hsend
  generalize rowWidth floatText columns portal.targetValTypeArr = width at hsend hframe ⊢
  obtain ⟨printed, hprinted⟩ : ∃ printed,
    snprintf pbuf' width (sizeT (portBufferSize - (width : Int))) [bar] = printed := ⟨_, rfl⟩
  rw [hprinted] at hsend
  refine ⟨width + 2, flushed portal printed (width + 2), ?_, rfl, rfl,
    List.subset_append_left _ _, ?_, ?_⟩
  · rw [portalSendRows, hsend]
    exact flushText_of_pos (show (0 : Int) < width + 2 by omega) portal printed
  · intro h hlt
    refine h.flushed ?_ (by omega) (by omega)
    intro a ha
    rw [sizeT_of_lt (by omega)] at hprinted
    rw [← hprinted]
    rcases ha with hneg | hbehind
    · rw [snprintf_of_lt (by omega), hframe a (.inl hneg)]
    · rw [snprintf_of_room (by omega), hframe a (.inr (by omega))]
  · intro hzero h
    by_contra hwide
    rcases wide_cases (Nat.le_of_not_lt hwide) with ⟨hbehind, hroom⟩ | hsize
    · -- the closing separator is behind the buffer
      have hread : Bytes.read printed width 2 = [bar, 0] := hprinted ▸ read_snprintf hroom
      have hbar := congrArg (fun bs => bs[0]?) hread
      rw [Bytes.getElem?_read (by decide), Int.natCast_zero, Int.add_zero] at hbar
      have houtside : (portBufferSize : Int) ≤ width := Int.ofNat_le.mpr hbehind
      have hkept := h.inside _ (.inr houtside)
      rw [hzero] at hkept
      rw [← clearBody_outside printed _ (.inr houtside)] at hbar
      cases (Option.some.inj hbar).symm.trans hkept
    · refine not_accepted (msgHeaderLen_le_message _) ?_ (accepted_of_flushed h)
      rw [headerSize_message]
      exact hsize

end Row

/-! ## A result -/

section Result

variable {floatText : BitVec 32 → List UInt8} {columns : List (Option RowColumnData)}
  {rows : List (List (Option RowColumnData))}
  {targetList : List TargetEntry} {portal : Portal}
  {buffer : Int → UInt8}

/-- A row without the head. -/
theorem sendToPort_row (buffer : Int → UInt8) (hfloat : ∀ bits, (floatText bits).length ≤ 127)
    (hok : List.Forall₂ CellOk columns portal.targetValTypeArr)
    (hflag : portal.flag = .nothing) :
    ∃ ret portal', sendToPort floatText columns portal = some (ret, portal') ∧
      portal'.flag = .nothing ∧
      Sends buffer (rowWidth floatText columns portal.targetValTypeArr + 2 < portBufferSize)
        portal portal' := by
  let start : Portal :=
    { portal with rowData := some columns, type := portal.type.next, flag := .nothing }
  obtain ⟨ret, portal', hrun, hsends⟩ :
      ∃ ret portal', portalSendRows floatText start = some (ret, portal') ∧
        Sends buffer _ start portal' :=
    portalSendRows_sends hfloat hok rfl
  refine ⟨ret, portal', ?_, hsends.flag_eq, hsends.flag_eq.trans hflag.symm,
    hsends.types_eq, hsends.sent,
    fun h => hsends.ok ⟨h.inside, h.accepted⟩, hsends.fits⟩
  rw [sendToPort, sendToNetPort]
  simp only [hflag]
  exact hrun

/-- The first row, behind the head. -/
theorem sendToPort_head (buffer : Int → UInt8)
    (hfloat : ∀ bits, (floatText bits).length ≤ 127)
    (hok : List.Forall₂ CellOk columns portal.targetValTypeArr)
    (hflag : portal.flag = .rowHeader) (htargets : portal.targetList = some targetList) :
    ∃ ret portal', sendToPort floatText columns portal = some (ret, portal') ∧
      portal'.flag = .nothing ∧
      portal'.targetValTypeArr = portal.targetValTypeArr ∧
      (portal.Ok buffer → headWidth targetList + 2 < portBufferSize ∧
        rowWidth floatText columns portal.targetValTypeArr + 2 < portBufferSize →
          portal'.Ok buffer) ∧
      ((∀ a, buffer a = 0) → portal'.Ok buffer → headWidth targetList + 2 < portBufferSize ∧
        rowWidth floatText columns portal.targetValTypeArr + 2 < portBufferSize) := by
  let start : Portal := { portal with
    rowData := some columns, type := portal.type.next, flag := .nothing,
    targetList := some targetList }
  obtain ⟨pbuf, hhead, hinside⟩ := generalVirtualTableHeadRaw_eq targetList portal.buffer
  obtain ⟨size, hsize⟩ :
      ∃ size : Nat, min (portBufferSize - 1) (headWidth targetList) = size := ⟨_, rfl⟩
  rw [hsize] at hhead
  obtain ⟨ret, portal', hrun, hsends⟩ : ∃ ret portal',
      portalSendRows floatText (flushed start pbuf (size + 2)) = some (ret, portal') ∧
        Sends buffer _ (flushed start pbuf (size + 2)) portal' :=
    portalSendRows_sends hfloat hok rfl
  refine ⟨ret, portal', ?_, hsends.flag_eq, hsends.types_eq, ?_, ?_⟩
  · rw [sendToPort, sendToNetPort]
    simp only [hflag, htargets, hhead, Option.bind_eq_bind, Option.bind_some]
    have hflush := flushText_of_pos (show (0 : Int) < size + 2 by omega) start pbuf
    simp only [start] at hflush
    simp only [hflush, Option.bind_some, if_neg (show ¬ (size : Int) + 2 ≤ 0 by omega)]
    exact hrun
  · rintro h ⟨hheadFits, hrowFits⟩
    exact hsends.ok
      (Portal.Ok.flushed ⟨h.inside, h.accepted⟩ hinside (by omega) (by omega)) hrowFits
  · intro hzero h
    refine ⟨?_, hsends.fits hzero h⟩
    have hmessage := h.accepted _ (hsends.sent (List.mem_append_right _ List.mem_cons_self))
    have hlt := (accepted_iff (by change (0 : Int) < size + 2; omega)
      (by change (size : Int) + 2 < 2 ^ 31; rw [portBufferSize] at hsize; omega)).mp hmessage
    change (size : Int) + 2 < portBufferSize at hlt
    omega

theorem ResultSent.ok (h : ResultSent floatText buffer rows portal) : portal.Ok buffer := by
  cases rows with
  | nil => exact h
  | cons => exact h.1

/-- Rows behind the first are sent well exactly when each is narrow enough. -/
theorem resultSent_rows (hfloat : ∀ bits, (floatText bits).length ≤ 127)
    (hrows : ∀ row ∈ rows, List.Forall₂ CellOk row portal.targetValTypeArr)
    (hflag : portal.flag = .nothing) (hok : portal.Ok buffer) :
    ((∀ row ∈ rows, rowWidth floatText row portal.targetValTypeArr + 2 < portBufferSize) →
        ResultSent floatText buffer rows portal) ∧
      ((∀ a, buffer a = 0) → ResultSent floatText buffer rows portal →
        ∀ row ∈ rows, rowWidth floatText row portal.targetValTypeArr + 2 <
          portBufferSize) := by
  induction rows generalizing portal with
  | nil => exact ⟨fun _ => hok, fun _ _ row hrow => absurd hrow List.not_mem_nil⟩
  | cons row rows ih =>
    obtain ⟨hrow, hrest⟩ := List.forall_mem_cons.mp hrows
    obtain ⟨ret, portal', hrun, hflag', hsends⟩ := sendToPort_row buffer hfloat hrow hflag
    have ih' := ih (hsends.types_eq ▸ hrest) hflag'
    rw [hsends.types_eq] at ih'
    constructor
    · intro hfits
      obtain ⟨hrowFits, hrestFits⟩ := List.forall_mem_cons.mp hfits
      have hok' := hsends.ok hok hrowFits
      exact ⟨hok, ret, portal', hrun, (ih' hok').1 hrestFits⟩
    · intro hzero hsent
      obtain ⟨-, ret', mid, hrun', hsent⟩ := hsent
      obtain ⟨-, rfl⟩ := Prod.mk.inj (Option.some.inj (hrun.symm.trans hrun'))
      have hok' := hsent.ok
      exact List.forall_mem_cons.mpr ⟨hsends.fits hzero hok', (ih' hok').2 hzero hsent⟩

/-- A new portal has sent nothing. -/
theorem initSelectPortal_ok (targetList : List TargetEntry) (buffer : Int → UInt8) :
    (initSelectPortal targetList (createPortal buffer)).Ok buffer := by
  cases targetList <;> exact ⟨fun _ _ => rfl, nofun⟩

theorem initSelectPortal_types (targetList : List TargetEntry) (buffer : Int → UInt8) :
    (initSelectPortal targetList (createPortal buffer)).targetValTypeArr = targetList.map
    (·.colRef.vt) := by
  cases targetList <;> rfl

theorem initSelectPortal_head (targetList : List TargetEntry) (buffer : Int → UInt8) :
    (initSelectPortal targetList (createPortal buffer)).flag = .rowHeader ∧
      (initSelectPortal targetList (createPortal buffer)).targetList = some targetList := by
  cases targetList <;> exact ⟨rfl, rfl⟩

/-- The first row is sent with the head, and the others follow. -/
theorem messagesFit_cons (hfloat : ∀ bits, (floatText bits).length ≤ 127)
    (hrows : ∀ row ∈ columns :: rows,
      List.Forall₂ CellOk row (targetList.map (·.colRef.vt))) :
    MessagesFit floatText targetList (columns :: rows) ↔
      headWidth targetList + 2 < portBufferSize ∧
      ∀ row ∈ columns :: rows, rowWidth floatText row (targetList.map (·.colRef.vt)) + 2 <
        portBufferSize := by
  obtain ⟨hrow, hrest⟩ := List.forall_mem_cons.mp hrows
  have hfirst (buffer : Int → UInt8) := sendToPort_head buffer hfloat
    (initSelectPortal_types targetList buffer ▸ hrow)
      (initSelectPortal_head targetList buffer).1
    (initSelectPortal_head targetList buffer).2
  simp only [initSelectPortal_types] at hfirst
  constructor
  · intro h
    obtain ⟨ret, portal, hrun, hflag, htypes, -, hfits⟩ := hfirst fun _ => 0
    obtain ⟨-, ret', portal', hrun', hsent⟩ := h fun _ => 0
    obtain ⟨-, rfl⟩ := Prod.mk.inj (Option.some.inj (hrun.symm.trans hrun'))
    obtain ⟨hhead, hrowFits⟩ := hfits (fun _ => rfl) hsent.ok
    have hrestFits :=
      (resultSent_rows hfloat (htypes ▸ hrest) hflag hsent.ok).2 (fun _ => rfl) hsent
    rw [htypes] at hrestFits
    exact ⟨hhead, List.forall_mem_cons.mpr ⟨hrowFits, hrestFits⟩⟩
  · rintro ⟨hhead, hfits⟩ buffer
    obtain ⟨hrowFits, hrestFits⟩ := List.forall_mem_cons.mp hfits
    obtain ⟨ret, portal, hrun, hflag, htypes, hok, -⟩ := hfirst buffer
    have hokPortal := hok (initSelectPortal_ok targetList buffer) ⟨hhead, hrowFits⟩
    exact ⟨initSelectPortal_ok targetList buffer, ret, portal, hrun,
      (resultSent_rows hfloat (htypes ▸ hrest) hflag hokPortal).1 (htypes.symm ▸ hrestFits)⟩

/-- The rows of a result are sent without a write outside of the buffer, in messages that the
client accepts, exactly when the names of the columns, and each row, leave two bytes of the
buffer and one more. -/
theorem resultMessages_iff (floatText : BitVec 32 → List UInt8)
    (hfloat : ∀ bits, (floatText bits).length ≤ 127)
    {targetList : List TargetEntry} {rows : List (List (Option RowColumnData))}
    (hrows : ∀ row ∈ rows, List.Forall₂ CellOk row (targetList.map (·.colRef.vt))) :
    MessagesFit floatText targetList rows ↔
      rows = [] ∨ headWidth targetList + 2 < portBufferSize ∧
      ∀ row ∈ rows, rowWidth floatText row (targetList.map (·.colRef.vt)) + 2 <
        portBufferSize := by
  cases rows with
  | nil => exact ⟨fun _ => .inl rfl, fun _ buffer => initSelectPortal_ok targetList buffer⟩
  | cons row rows =>
    rw [messagesFit_cons hfloat hrows]
    exact ⟨.inr, fun h => h.resolve_left (List.cons_ne_nil row rows)⟩

end Result

/-- A table of a string and a character, and both as targets. -/
def stringAndChar : List TargetEntry :=
  [⟨some ⟨[115], by decide⟩, ⟨⟨[115], by decide⟩, none, .varchar, 0⟩, 1, 0⟩,
    ⟨some ⟨[99], by decide⟩, ⟨⟨[99], by decide⟩, none, .char, 1⟩, 1, 1⟩]

/-- A row of `n` letters A, and an A. -/
def lettersRow (n : Nat) : List (Option RowColumnData) :=
  [some (.new 0 (List.replicate n 65 ++ [0])), some (.new 1 [65])]

theorem lettersRow_ok (n : Nat) :
    List.Forall₂ CellOk (lettersRow n) (stringAndChar.map (·.colRef.vt)) := by
  refine .cons ?_ (.cons ?_ .nil)
  · intro c hc
    cases hc
    exact ⟨rfl, .inr (List.mem_append_right _ (List.mem_singleton_self _))⟩
  · intro c hc
    cases hc
    exact ⟨rfl, .inr (Nat.le_refl 1)⟩

/-- A string takes the whole of its column value. -/
theorem rowWidth_lettersRow (floatText : BitVec 32 → List UInt8) (n : Nat) :
    rowWidth floatText (lettersRow n) (stringAndChar.map (·.colRef.vt)) = n + 52 := by
  have hle : (cString (List.replicate n 65 ++ [0])).val.length ≤ 48 + (n + 1) := by
    have h := length_cString_le (List.replicate n 65 ++ [0])
    rw [List.length_append, List.length_replicate, List.length_singleton] at h
    omega
  have hlen := length_padLeft hle
  simp [lettersRow, stringAndChar, rowWidth, columnWidth, columnText, RowColumnData.new,
    rowColumnDataSize, hlen]
  omega

/-- Two rows of short strings. -/
theorem resultMessages_short :
    MessagesFit (fun _ => [48]) stringAndChar [lettersRow 2, lettersRow 3] := by
  refine (resultMessages_iff _ (fun _ => by decide) ?_).mpr (.inr ⟨by decide, ?_⟩)
  · exact List.forall_mem_cons.mpr ⟨lettersRow_ok 2,
      List.forall_mem_singleton.mpr (lettersRow_ok 3)⟩
  · simp [rowWidth_lettersRow, portBufferSize]

/-- A string of 1994 letters is stored, and its row is not sent. -/
theorem resultMessages_long :
    ¬ ∀ targetList rows,
      (∀ row ∈ rows, List.Forall₂ CellOk row (targetList.map (·.colRef.vt))) →
      MessagesFit (fun _ => [48]) targetList rows := by
  intro h
  have hrows : ∀ row ∈ [lettersRow 1994],
      List.Forall₂ CellOk row (stringAndChar.map (·.colRef.vt)) :=
    List.forall_mem_singleton.mpr (lettersRow_ok 1994)
  have hfits := ((messagesFit_cons (fun _ => by decide) hrows).mp (h stringAndChar _ hrows)).2
  simp [rowWidth_lettersRow, portBufferSize] at hfits

end Toadb
