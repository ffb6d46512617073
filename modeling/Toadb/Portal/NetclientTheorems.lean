/-
Toadb.Portal.NetclientTheorems — what the message parser does with a stream.

`messageFraming` is the framing of messages in a stream. The `parserMsg_…` lemmas
say what one call does, by the bytes at hand: the rest and the chunk together, not how
they are cut. `framing_round_trip_iff` is about a whole stream: its messages come out
exactly when every chunk finds, with the bytes still pending, a header at hand. A chunk that
does not is lost, as `splitHeader_loses` shows.
-/
import Mathlib.Tactic.Ring
import Toadb.Portal.Netclient

namespace Toadb

open Bytes (memcpy memcpy_eq memcpy_neg memcpy_full)

/-! ## The header fields -/

theorem getMsgIntValue_append {bs : List UInt8} (h : bs.length = 4) (r : List UInt8) :
    getMsgIntValue (bs ++ r) = getMsgIntValue bs := by
  rw [getMsgIntValue, getMsgIntValue, List.take_left' h, List.take_of_length_le (by omega)]

theorem getMsgIntValue_take (bs : List UInt8) :
    getMsgIntValue (bs.take 4) = getMsgIntValue bs := by
  rw [getMsgIntValue, getMsgIntValue, List.take_take, Nat.min_self]

theorem getMsgIntValue_ofNat {n : Nat} (h : n < 2 ^ 32) :
    getMsgIntValue (Bytes.ofNat 4 n) = (BitVec.ofNat 32 n).toInt := by
  rw [getMsgIntValue, List.take_of_length_le (by simp), Bytes.toNat_ofNat (by omega)]

/-- An `int` that is written is read back. -/
theorem getMsgIntValue_ofInt {i : Int} (h : -2 ^ 31 ≤ i ∧ i < 2 ^ 31) :
    getMsgIntValue (Bytes.ofNat 4 (BitVec.ofInt 32 i).toNat) = i := by
  rw [getMsgIntValue_ofNat (BitVec.isLt _), BitVec.ofNat_toNat, BitVec.setWidth_eq,
    BitVec.toInt_ofInt_eq_self (by omega) (by simpa using h.1) (by simpa using h.2)]

theorem getMsgIntValue_size {n : Nat} (h : n < 2 ^ 31) :
    getMsgIntValue (Bytes.ofNat 4 n) = n := by
  rw [getMsgIntValue_ofNat (by omega), BitVec.toInt_eq_toNat_cond, BitVec.toNat_ofNat,
    Nat.mod_eq_of_lt (by omega), if_pos (by omega)]

/-- The bytes an `int` is read from are the bytes it is written as. -/
theorem ofNat_getMsgIntValue {bs : List UInt8} (h : bs.length = 4) :
    Bytes.ofNat 4 (BitVec.ofInt 32 (getMsgIntValue bs)).toNat = bs := by
  have hlt := Bytes.toNat_lt bs
  rw [h] at hlt
  rw [getMsgIntValue, BitVec.ofInt_toInt, BitVec.toNat_ofNat,
    List.take_of_length_le (by omega),
    Nat.mod_eq_of_lt (by omega)]
  have hself := Bytes.ofNat_toNat bs
  rwa [h] at hself

theorem ofNat_getMsgIntValue_toNat {bs : List UInt8} (h : bs.length = 4)
    (hpos : 0 ≤ getMsgIntValue bs) : Bytes.ofNat 4 (getMsgIntValue bs).toNat = bs := by
  have hlt := (getMsgIntValue_range bs).2
  have hself := ofNat_getMsgIntValue h
  rw [BitVec.toNat_ofInt, Int.emod_eq_of_lt hpos (by omega)] at hself
  exact hself

/-! ## The framing -/

theorem length_encode (m : Message) : m.encode.length = msgHeaderLen + m.payload.length := by
  simp only [Message.encode, List.length_append, Bytes.length_ofNat, msgHeaderLen]

theorem getMsgIntValue_encode (m : Message) (r : List UInt8) :
    getMsgIntValue (m.encode ++ r) = m.type := by
  rw [Message.encode, List.append_assoc, List.append_assoc,
    getMsgIntValue_append (Bytes.length_ofNat _ _), getMsgIntValue_ofInt m.type_range]

theorem headerSize_encode (m : Message) (r : List UInt8) :
    headerSize (m.encode ++ r) = m.payload.length := by
  rw [headerSize, Message.encode, List.append_assoc, List.append_assoc,
    List.drop_left' (Bytes.length_ofNat _ _), getMsgIntValue_append (Bytes.length_ofNat _ _),
    getMsgIntValue_size m.payload_range]

theorem drop_header_encode (m : Message) (r : List UInt8) :
    (m.encode ++ r).drop msgHeaderLen = m.payload ++ r := by
  rw [Message.encode, List.append_assoc]
  exact List.drop_left' (by simp [msgHeaderLen])

/-- A message is read back from the front of a stream. -/
theorem nextMsg_encode {m : Message} (h : m.Fits) (r : List UInt8) :
    nextMsg (m.encode ++ r) = some (m, r) := by
  have hlen : (m.encode ++ r).length = msgHeaderLen + m.payload.length + r.length := by
    rw [List.length_append, length_encode]
  have hcond : 0 < (m.payload.length : Int) ∧ (m.payload.length : Int) < portBufferSize ∧
      (msgHeaderLen + m.payload.length : Int) ≤ (m.encode ++ r).length := by
    obtain ⟨hpos, hlt⟩ := h
    omega
  have hdrop : (m.encode ++ r).drop (msgHeaderLen + m.payload.length) = r :=
    List.drop_left' (length_encode m)
  simp only [nextMsg, headerSize_encode, if_pos hcond, Int.toNat_natCast,
    drop_header_encode, hdrop,
    getMsgIntValue_encode, List.take_left]

/-- What is read off the front of a stream was written there. -/
theorem nextMsg_sound {bs r : List UInt8} {m : Message} (h : nextMsg bs = some (m, r)) :
    m.Fits ∧ bs = m.encode ++ r := by
  simp only [nextMsg] at h
  split at h
  · next hcond =>
    obtain ⟨hpos, hlt, hlen⟩ := hcond
    simp only [msgHeaderLen, portBufferSize] at hlt hlen
    obtain ⟨rfl, rfl⟩ := Prod.mk.inj (Option.some.inj h)
    obtain ⟨n, hn⟩ : ∃ n : Nat, headerSize bs = n := ⟨(headerSize bs).toNat, by omega⟩
    have hpayload : ((bs.drop 8).take n).length = n := by
      rw [List.length_take, List.length_drop]
      omega
    have htype : Bytes.ofNat 4 (BitVec.ofInt 32 (getMsgIntValue bs)).toNat = bs.take 4 := by
      rw [← getMsgIntValue_take]
      exact ofNat_getMsgIntValue (by rw [List.length_take]; omega)
    have hsize : Bytes.ofNat 4 n = (bs.drop 4).take 4 := by
      have hval : getMsgIntValue ((bs.drop 4).take 4) = n := by
        rw [getMsgIntValue_take]
        exact hn
      have hlen4 : ((bs.drop 4).take 4).length = 4 := by
        rw [List.length_take, List.length_drop]
        omega
      have hback := ofNat_getMsgIntValue_toNat hlen4 (by omega)
      rwa [hval, Int.toNat_natCast] at hback
    simp only [Message.Fits, Message.encode, msgHeaderLen, portBufferSize,
      hn, Int.toNat_natCast,
      hpayload, htype, hsize]
    refine ⟨by omega, ?_⟩
    -- the four pieces of the stream, in order
    calc bs = bs.take 4 ++ bs.drop 4 := (List.take_append_drop 4 bs).symm
      _ = bs.take 4 ++ ((bs.drop 4).take 4 ++ bs.drop 8) := by
        congr 1
        have h := (List.take_append_drop 4 (bs.drop 4)).symm
        rwa [List.drop_drop] at h
      _ = bs.take 4 ++ ((bs.drop 4).take 4 ++ ((bs.drop 8).take n ++ bs.drop (8 + n))) := by
        congr 2
        have h := (List.take_append_drop n (bs.drop 8)).symm
        rwa [List.drop_drop] at h
      _ = _ := by simp only [List.append_assoc]
  · cases h

/-- The framing of messages in a stream. -/
def messageFraming : Framing Message UInt8 where
  encode := Message.encode
  next := nextMsg
  Valid := Message.Fits
  encode_ne_nil m h := by
    have hlen := length_encode m
    simp only [h, List.length_nil, msgHeaderLen] at hlen
    omega
  next_eq_some := by
    intro bs m r
    constructor
    · exact nextMsg_sound
    · rintro ⟨hfits, rfl⟩
      exact nextMsg_encode hfits r

/-! ## The header in the rest -/

/-- How much of the bytes at hand is in the rest once it has a header. -/
def filled (client : ClientContext) : Nat := max msgHeaderLen client.restMsg.length

/-- The header is filled from the chunk, so only the bytes at hand count. -/
theorem fillHeader_eq {client : ClientContext} {msg : List UInt8}
    (h : msgHeaderLen ≤ (client.restMsg ++ msg).length) :
    fillHeader client.restMsg msg =
      some ((client.restMsg ++ msg).take (filled client),
        (client.restMsg ++ msg).drop (filled client)) := by
  rw [List.length_append] at h
  rw [fillHeader]
  split
  · next hshort =>
    have hk : filled client = client.restMsg.length +
        (msgHeaderLen - client.restMsg.length) := by
      rw [filled]
      omega
    have hcap : client.restMsg.length + (msgHeaderLen - client.restMsg.length) ≤
        restMsgSize := by
      simp only [msgHeaderLen, restMsgSize, portBufferSize] at *
      omega
    simp only [memcpy_eq (show msgHeaderLen - client.restMsg.length ≤ msg.length by
      omega) hcap, hk,
      Option.map_some, List.take_length_add_append, List.drop_length_add_append]
  · next hlong =>
    have hk : filled client = client.restMsg.length := by
      rw [filled]
      omega
    rw [hk, List.take_left, List.drop_left]

/-- The status word when `tmpLen` bytes are left to save. -/
def savedStatus (clientStatus : BitVec 32) (restLen tmpLen : Nat) : BitVec 32 :=
  if 0 < tmpLen then blockStatus clientStatus restLen tmpLen else clientStatus

theorem saveRest_eq {msg : List UInt8} {client : ClientContext}
    (h : client.restMsg.length + msg.length ≤ restMsgSize) :
    saveRest msg client = some { client with
      restMsg := client.restMsg ++ msg
      clientStatus := savedStatus client.clientStatus client.restMsg.length msg.length } := by
  rw [saveRest, savedStatus]
  split
  · rw [memcpy_eq (le_refl _) h, List.take_length]
    rfl
  · next hnil =>
    have hmsg : msg = [] := List.length_eq_zero_iff.mp (by omega)
    rw [hmsg, List.append_nil]

theorem saveRest_full {msg : List UInt8} {client : ClientContext} (hmsg : 0 < msg.length)
    (h : restMsgSize < client.restMsg.length + msg.length) : saveRest msg client = none := by
  rw [saveRest, if_pos hmsg, memcpy_full h]
  rfl

/-! ## One call of the parser -/

section ParserMsg

variable {client : ClientContext} {msg : List UInt8}

/-- Less than a header: the chunk is dropped. -/
theorem parserMsg_short (h : (client.restMsg ++ msg).length < msgHeaderLen) :
    parserMsg msg client = some (0, client) := by
  rw [List.length_append] at h
  rw [parserMsg, if_pos (by omega)]

theorem headerSize_take (bs : List UInt8) {k : Nat} (h : msgHeaderLen ≤ k) :
    headerSize (bs.take k) = headerSize bs := by
  rw [msgHeaderLen] at h
  rw [headerSize, headerSize, List.drop_take, ← getMsgIntValue_take, List.take_take,
    min_eq_left (by omega), getMsgIntValue_take]

theorem getMsgIntValue_take_of_le {bs : List UInt8} {k : Nat} (h : msgHeaderLen ≤ k) :
    getMsgIntValue (bs.take k) = getMsgIntValue bs := by
  rw [msgHeaderLen] at h
  rw [← getMsgIntValue_take, List.take_take, min_eq_left (by omega), getMsgIntValue_take]

theorem msgHeaderLen_le_filled : msgHeaderLen ≤ filled client := le_max_left _ _

theorem filled_le (h : msgHeaderLen ≤ (client.restMsg ++ msg).length) :
    filled client ≤ (client.restMsg ++ msg).length := by
  rw [List.length_append] at h ⊢
  rw [filled]
  omega

/-- With a header at hand a call looks at the size field, and at how many bytes are at
hand. -/
theorem parserMsg_eq (h : msgHeaderLen ≤ (client.restMsg ++ msg).length) :
    parserMsg msg client =
      let bs := client.restMsg ++ msg
      let size := headerSize bs
      if portBufferSize ≤ size then
        some (-1, { client with
          restMsg := bs.take (filled client)
          msg := { client.msg with type := getMsgIntValue bs, size := size } })
      else if bs.length < msgHeaderLen + size then
        waitContext (bs.take (filled client)) (bs.drop (filled client)) client
      else
        let k := max (filled client) (msgHeaderLen + size.toNat)
        fillMessage (getMsgIntValue bs) size (bs.take k) (bs.drop k) client := by
  have hlong : ¬ msg.length + client.restMsg.length < msgHeaderLen := by
    rw [List.length_append] at h
    omega
  have hk : msgHeaderLen ≤ filled client := msgHeaderLen_le_filled
  have hkle := filled_le h
  simp only [parserMsg, if_neg hlong, fillHeader_eq h, Option.bind_eq_bind, Option.bind_some,
    Option.pure_def]
  generalize hbs : client.restMsg ++ msg = bs at *
  generalize hfill : filled client = k at *
  have htake : (bs.take k).length = k := by
    rw [List.length_take]
    omega
  have hdrop : (bs.drop k).length = bs.length - k := List.length_drop
  have hsize : getMsgIntValue ((bs.take k).drop 4) = headerSize bs := headerSize_take bs hk
  rw [hsize, getMsgIntValue_take_of_le hk, htake, hdrop]
  by_cases hbig : (portBufferSize : Int) ≤ headerSize bs
  · rw [if_pos hbig, if_pos hbig]
  rw [if_neg hbig, if_neg hbig]
  by_cases hwait : (bs.length : Int) < msgHeaderLen + headerSize bs
  · rw [if_pos hwait]
    split
    · rfl
    · rw [if_pos (by omega), if_neg (by omega)]
  rw [if_neg hwait, if_neg (by omega)]
  by_cases hmiss : (k : Int) - msgHeaderLen < headerSize bs
  · obtain ⟨n, hn⟩ : ∃ n : Nat, headerSize bs = n := ⟨(headerSize bs).toNat, by omega⟩
    have hcap : k + (n + msgHeaderLen - k) ≤ restMsgSize := by
      simp only [msgHeaderLen, portBufferSize, restMsgSize] at *
      omega
    have htmp : headerSize bs - k + msgHeaderLen =
        ((n + msgHeaderLen - k : Nat) : Int) := by omega
    rw [if_pos hmiss, if_pos (by omega), htmp,
      memcpy_eq (by rw [hdrop]; omega) (by rw [htake]; exact hcap)]
    have hmax : max k (msgHeaderLen + (headerSize bs).toNat) =
        k + (n + msgHeaderLen - k) := by omega
    simp only [Option.bind_some, hmax, Int.toNat_natCast, List.drop_drop, List.take_add]
  · have hmax : max k (msgHeaderLen + (headerSize bs).toNat) = k := by omega
    rw [if_neg hmiss]
    simp only [hmax]

/-- A size that the receiver rejects: the rest of the chunk is dropped. -/
theorem parserMsg_tooLarge (h : msgHeaderLen ≤ (client.restMsg ++ msg).length)
    (hbig : portBufferSize ≤ headerSize (client.restMsg ++ msg)) :
    parserMsg msg client = some (-1, { client with
      restMsg := (client.restMsg ++ msg).take (filled client)
      msg := { client.msg with
        type := getMsgIntValue (client.restMsg ++ msg)
        size := headerSize (client.restMsg ++ msg) } }) := by
  rw [parserMsg_eq h]
  exact if_pos hbig

/-- A negative size is a copy of more bytes than there are. -/
theorem parserMsg_negative (h : msgHeaderLen ≤ (client.restMsg ++ msg).length)
    (hneg : headerSize (client.restMsg ++ msg) < 0) : parserMsg msg client = none := by
  rw [parserMsg_eq h]
  simp only
  rw [if_neg (by omega), if_neg (by omega), fillMessage, memcpy_neg hneg]
  rfl

/-- An incomplete message: everything at hand is kept. -/
theorem parserMsg_wait (h : msgHeaderLen ≤ (client.restMsg ++ msg).length)
    (hsmall : headerSize (client.restMsg ++ msg) < portBufferSize)
    (hwait : ((client.restMsg ++ msg).length : Int) <
      msgHeaderLen + headerSize (client.restMsg ++ msg)) :
    parserMsg msg client = some (0, { client with
      restMsg := client.restMsg ++ msg
      msg := { client.msg with type := 0, size := 0 }
      clientStatus := savedStatus client.clientStatus (filled client)
        ((client.restMsg ++ msg).length - filled client) }) := by
  have hkle := filled_le h
  rw [parserMsg_eq h]
  simp only
  rw [if_neg (by omega), if_pos hwait, waitContext, saveRest_eq]
  · simp only [Option.map_some, List.take_append_drop, List.length_take, List.length_drop,
      Nat.min_eq_left hkle]
  · simp only [List.length_take, List.length_drop, msgHeaderLen,
      portBufferSize, restMsgSize] at *
    omega

/-- How much of the bytes at hand is in the rest once it has a message of `n` bytes. -/
def filledTo (client : ClientContext) (n : Nat) : Nat :=
  max (filled client) (msgHeaderLen + n)

/-- A message whose last byte is below `k` is delivered from the first `k` bytes at hand. -/
theorem fillMessage_eq {type : Int} {n k : Nat} {bs : List UInt8} (hn : n < portBufferSize)
    (hto : msgHeaderLen + n ≤ k) (hk : k ≤ bs.length) (hcap : k ≤ restMsgSize) :
    fillMessage type n (bs.take k) (bs.drop k) client =
      if bs.length - (msgHeaderLen + n) ≤ restMsgSize then
        some ((n : Int), { client with
          restMsg := bs.drop (msgHeaderLen + n)
          msg := ⟨type, n, (bs.drop msgHeaderLen).take n ++ client.msg.body.drop n⟩
          clientStatus :=
            savedStatus client.clientStatus (k - (msgHeaderLen + n)) (bs.length - k) })
      else none := by
  have htake : (bs.take k).length = k := by
    rw [List.length_take]
    omega
  have hshift : ((bs.take k).length : Int) - ((msgHeaderLen + n : Nat) : Int) =
      ((k - (msgHeaderLen + n) : Nat) : Int) := by omega
  have hrestLen : ((bs.take k).drop (msgHeaderLen + n)).length = k - (msgHeaderLen + n) := by
    rw [List.length_drop, htake]
  have hsave : ((bs.take k).drop (msgHeaderLen + n)) ++ bs.drop k =
      bs.drop (msgHeaderLen + n) := by
    conv_rhs => rw [← List.take_append_drop k bs]
    rw [List.drop_append_of_le_length (by omega)]
  have hbody : ((bs.take k).drop msgHeaderLen).take n = (bs.drop msgHeaderLen).take n := by
    rw [List.drop_take, List.take_take, min_eq_left (by omega)]
  have hcopied : memcpy portBufferSize [] ((bs.take k).drop msgHeaderLen) n =
      some ((bs.drop msgHeaderLen).take n) := by
    rw [memcpy_eq (by rw [List.length_drop, htake]; omega)
      (by simp only [List.length_nil]; omega), hbody, List.nil_append]
  have hshifted : memcpy restMsgSize [] ((bs.take k).drop (msgHeaderLen + n))
      ((bs.take k).length - ((msgHeaderLen + n : Nat) : Int)) =
      some ((bs.take k).drop (msgHeaderLen + n)) := by
    rw [hshift, memcpy_eq (Nat.le_of_eq hrestLen.symm)
      (by simp only [List.length_nil]; omega),
      List.take_of_length_le (Nat.le_of_eq hrestLen), List.nil_append]
  simp only [fillMessage, hcopied, Int.toNat_natCast, hshifted, Option.bind_eq_bind,
    Option.bind_some, Option.pure_def]
  by_cases hfit : bs.length - (msgHeaderLen + n) ≤ restMsgSize
  · rw [saveRest_eq (by simp only [hrestLen, List.length_drop]; omega),
      Option.bind_some, if_pos hfit]
    simp only [hsave, hrestLen, List.length_drop]
  · rw [saveRest_full (by rw [List.length_drop]; omega)
      (by simp only [hrestLen, List.length_drop]; omega), if_neg hfit]
    rfl

/-- A complete message is delivered, and everything behind it is kept when it fits the
rest. -/
theorem parserMsg_deliver {n : Nat} (hsize : headerSize (client.restMsg ++ msg) = n)
    (hn : n < portBufferSize) (hlen : msgHeaderLen + n ≤ (client.restMsg ++ msg).length)
    (hrest : client.restMsg.length ≤ restMsgSize) :
    parserMsg msg client =
      if (client.restMsg ++ msg).length - (msgHeaderLen + n) ≤ restMsgSize then
        some ((n : Int), { client with
          restMsg := (client.restMsg ++ msg).drop (msgHeaderLen + n)
          msg := ⟨getMsgIntValue (client.restMsg ++ msg), n,
            ((client.restMsg ++ msg).drop msgHeaderLen).take n ++ client.msg.body.drop n⟩
          clientStatus :=
  savedStatus client.clientStatus (filledTo client n - (msgHeaderLen + n))
            ((client.restMsg ++ msg).length - filledTo client n) })
      else none := by
  have hto : filledTo client n ≤ (client.restMsg ++ msg).length :=
    max_le (filled_le (by omega)) hlen
  have hcap : filledTo client n ≤ restMsgSize := by
    simp only [filledTo, filled, msgHeaderLen, portBufferSize, restMsgSize] at *
    omega
  rw [parserMsg_eq (by omega)]
  simp only [hsize, Int.toNat_natCast]
  rw [if_neg (by omega), if_neg (by omega)]
  exact fillMessage_eq hn (le_max_right _ _) hto hcap

/-- What a call can find in the bytes at hand. -/
theorem header_cases (bs : List UInt8) :
    bs.length < msgHeaderLen ∨
      msgHeaderLen ≤ bs.length ∧
        (portBufferSize ≤ headerSize bs ∨ headerSize bs < 0 ∨
          headerSize bs < portBufferSize ∧ (bs.length : Int) < msgHeaderLen + headerSize bs ∨
          ∃ n : Nat, headerSize bs = n ∧ n < portBufferSize ∧
            msgHeaderLen + n ≤ bs.length) := by
  by_cases hshort : bs.length < msgHeaderLen
  · exact .inl hshort
  refine .inr ⟨by omega, ?_⟩
  by_cases hbig : portBufferSize ≤ headerSize bs
  · exact .inl hbig
  by_cases hneg : headerSize bs < 0
  · exact .inr (.inl hneg)
  by_cases hwait : (bs.length : Int) < msgHeaderLen + headerSize bs
  · exact .inr (.inr (.inl ⟨by omega, hwait⟩))
  · exact .inr (.inr (.inr ⟨(headerSize bs).toNat, by omega, by omega, by omega⟩))

/-- A call keeps the rest within its buffer, and what it delivers and keeps was at hand. -/
theorem parserMsg_bytes {ret : Int} {client' : ClientContext}
    (hrest : client.restMsg.length ≤ restMsgSize)
    (h : parserMsg msg client = some (ret, client')) :
    client'.restMsg.length ≤ restMsgSize ∧
      (0 < ret → client'.msg.size = ret ∧
        client'.restMsg.length + (msgHeaderLen + ret.toNat) ≤
          (client.restMsg ++ msg).length) ∧
      client'.restMsg.length ≤ (client.restMsg ++ msg).length := by
  rcases header_cases (client.restMsg ++ msg) with
    hshort | ⟨h8, hbig | hneg | ⟨hsmall, hwait⟩ | ⟨n, hsize, hn, hlen⟩⟩
  · rw [parserMsg_short hshort] at h
    obtain ⟨rfl, rfl⟩ := Prod.mk.inj (Option.some.inj h)
    rw [List.length_append]
    exact ⟨hrest, fun hpos => absurd hpos (by decide), by omega⟩
  · rw [parserMsg_tooLarge h8 hbig] at h
    obtain ⟨rfl, rfl⟩ := Prod.mk.inj (Option.some.inj h)
    have hbound : filled client ≤ restMsgSize := max_le (by decide) hrest
    refine ⟨?_, fun hpos => absurd hpos (by decide), ?_⟩
    · simp only [List.length_take]
      omega
    · simp only [List.length_take]
      omega
  · rw [parserMsg_negative h8 hneg] at h
    cases h
  · rw [parserMsg_wait h8 hsmall hwait] at h
    obtain ⟨rfl, rfl⟩ := Prod.mk.inj (Option.some.inj h)
    refine ⟨?_, fun hpos => absurd hpos (by decide), le_refl _⟩
    simp only [msgHeaderLen, portBufferSize, restMsgSize] at *
    omega
  · rw [parserMsg_deliver hsize hn hlen hrest] at h
    split at h
    · next hfit =>
      obtain ⟨rfl, rfl⟩ := Prod.mk.inj (Option.some.inj h)
      simp only [List.length_drop, Int.toNat_natCast]
      exact ⟨hfit, fun _ => ⟨trivial, by omega⟩, by omega⟩
    · cases h

/-- The context after the message `m` is delivered, with `r` behind it. -/
def afterMsg (client : ClientContext) (m : Message) (r : List UInt8) : ClientContext where
  restMsg := r
  msg := ⟨m.type, m.payload.length, m.payload ++ client.msg.body.drop m.payload.length⟩
  clientStatus := savedStatus client.clientStatus
    (filledTo client m.payload.length - (msgHeaderLen + m.payload.length))
    (msgHeaderLen + m.payload.length + r.length - filledTo client m.payload.length)

/-- The context that waits with the bytes `bs` at hand. -/
def awaiting (client : ClientContext) (bs : List UInt8) : ClientContext where
  restMsg := bs
  msg := { client.msg with type := 0, size := 0 }
  clientStatus := savedStatus client.clientStatus (filled client) (bs.length - filled client)

/-- The first message of the stream at hand is delivered. -/
theorem parserMsg_of_next {m : Message} {r : List UInt8}
    (h : nextMsg (client.restMsg ++ msg) = some (m, r))
    (hrest : client.restMsg.length ≤ restMsgSize) (hfit : r.length ≤ restMsgSize) :
    parserMsg msg client = some ((m.payload.length : Int), afterMsg client m r) := by
  obtain ⟨hfits, hbs⟩ := nextMsg_sound h
  have hlen : (client.restMsg ++ msg).length =
      msgHeaderLen + m.payload.length + r.length := by
    rw [hbs, List.length_append, length_encode]
  have hsize : headerSize (client.restMsg ++ msg) = m.payload.length := by
    rw [hbs]
    exact headerSize_encode m r
  have htype : getMsgIntValue (client.restMsg ++ msg) = m.type := by
    rw [hbs]
    exact getMsgIntValue_encode m r
  have hdrop : (client.restMsg ++ msg).drop (msgHeaderLen + m.payload.length) = r := by
    rw [hbs]
    exact List.drop_left' (length_encode m)
  have hbody : ((client.restMsg ++ msg).drop msgHeaderLen).take m.payload.length =
      m.payload := by
    rw [hbs, drop_header_encode, List.take_left]
  rw [parserMsg_deliver hsize hfits.2 (by omega) hrest, if_pos (by omega),
    htype, hdrop, hbody, hlen,
    afterMsg]

/-- A part of the first message is kept. -/
theorem parserMsg_of_prefix {m : Message} {t : List UInt8} (hfits : m.Fits) (ht : t ≠ [])
    (hpre : m.encode = client.restMsg ++ msg ++ t)
    (h : msgHeaderLen ≤ (client.restMsg ++ msg).length) :
    parserMsg msg client = some (0, awaiting client (client.restMsg ++ msg)) := by
  have hsize : headerSize (client.restMsg ++ msg) = m.payload.length := by
    have hfull := headerSize_encode m []
    rw [List.append_nil] at hfull
    rw [← hfull, hpre, ← headerSize_take (client.restMsg ++ msg ++ t) h, List.take_left]
  have hlen := congrArg List.length hpre
  have htpos := List.length_pos_of_ne_nil ht
  rw [length_encode, List.length_append] at hlen
  refine parserMsg_wait h ?_ ?_
  · rw [hsize]
    exact_mod_cast hfits.2
  · rw [hsize]
    omega

end ParserMsg

/-! ## Feeding a valid stream -/

section Feed

variable {client : ClientContext} {msg : List UInt8}

theorem delivered_afterMsg (m : Message) (r : List UInt8) :
    (afterMsg client m r).msg.delivered = m.received := by
  simp only [afterMsg, MsgHeader.delivered, Message.received,
    Int.toNat_natCast, List.take_left]

/-- The fuel of `feed` is enough: more changes nothing. -/
theorem feedLoop_eq_feed {fuel : Nat} (hrest : client.restMsg.length ≤ restMsgSize)
    (hfuel : client.restMsg.length + msg.length < fuel) :
    feedLoop fuel msg client = feed msg client := by
  suffices hall : ∀ (n k : Nat) (msg : List UInt8) (client : ClientContext),
      client.restMsg.length ≤ restMsgSize → client.restMsg.length + msg.length < n →
      client.restMsg.length + msg.length < k →
        feedLoop n msg client = feedLoop k msg client from
    hall _ _ msg client hrest hfuel (Nat.lt_succ_self _)
  intro n
  induction n with
  | zero =>
    intro k msg client _ hn
    exact absurd hn (Nat.not_lt_zero _)
  | succ n ih =>
    intro k msg client hrest hn hk
    obtain ⟨k, rfl⟩ : ∃ k', k = k' + 1 := ⟨k - 1, by omega⟩
    rw [feedLoop, feedLoop]
    cases hparse : parserMsg msg client with
    | none => rfl
    | some p =>
      obtain ⟨ret, mid⟩ := p
      obtain ⟨hmid, hdeliver, -⟩ := parserMsg_bytes hrest hparse
      simp only [Option.bind_eq_bind, Option.bind_some]
      by_cases hpos : 0 < ret
      · have hbytes := (hdeliver hpos).2
        rw [List.length_append] at hbytes
        simp only [msgHeaderLen] at hbytes
        rw [if_pos hpos, if_pos hpos, ih k [] mid hmid (by simp only [List.length_nil]; omega)
          (by simp only [List.length_nil]; omega)]
      · rw [if_neg hpos, if_neg hpos]

/-- The bytes at hand that start a valid stream are taken message by message, as the framing
drains them. Only the first call has a chunk that can be lost. -/
theorem feedLoop_valid {as : List Message} (hv : ∀ m ∈ as, m.Fits)
    {fuel : Nat} {t : List UInt8} (hfuel : (client.restMsg ++ msg).length < fuel)
    (hpre : client.restMsg ++ msg ++ t = messageFraming.encodeAll as)
    (hrest : client.restMsg.length ≤ restMsgSize)
    (hlen : (client.restMsg ++ msg).length ≤ restMsgSize + msgHeaderLen)
    (hhead : msg = [] ∨ msgHeaderLen ≤ (client.restMsg ++ msg).length) :
    ∃ client', feedLoop fuel msg client =
        some ((messageFraming.drain (client.restMsg ++ msg)).1.map Message.received,
          client') ∧
      client'.restMsg = messageFraming.pending (client.restMsg ++ msg) := by
  induction as generalizing fuel client msg with
  | nil =>
    obtain ⟨k, rfl⟩ : ∃ k, fuel = k + 1 := ⟨fuel - 1, by omega⟩
    have hnil : client.restMsg ++ msg = [] := (List.append_eq_nil_iff.mp hpre).1
    have hshort : (client.restMsg ++ msg).length < msgHeaderLen := by
      rw [hnil]
      decide
    refine ⟨client, ?_, ?_⟩
    · rw [feedLoop, parserMsg_short hshort, hnil]
      rfl
    · rw [hnil]
      exact (List.append_eq_nil_iff.mp hnil).1
  | cons m as ih =>
    obtain ⟨k, rfl⟩ : ∃ k, fuel = k + 1 := ⟨fuel - 1, by omega⟩
    have hfits : m.Fits := hv m List.mem_cons_self
    rcases messageFraming.next_of_prefix hfits hpre with ⟨r, hnext,
      hr⟩ | ⟨hnone, s, hs, henc, -⟩
    · have hrlen : (client.restMsg ++ msg).length =
          msgHeaderLen + m.payload.length + r.length := by
        rw [(nextMsg_sound hnext).2, List.length_append, length_encode]
      have hpos := hfits.1
      have hstep := parserMsg_of_next hnext hrest (by omega)
      obtain ⟨client', hloop, hpend⟩ :
          ∃ client', feedLoop k [] (afterMsg client m r) =
              some ((messageFraming.drain (r ++ [])).1.map Message.received, client') ∧
            client'.restMsg = messageFraming.pending (r ++ []) := by
        refine ih (fun b hb => hv b (List.mem_cons_of_mem m hb)) ?_ ?_ ?_ ?_ (.inl rfl)
        · simp only [afterMsg, List.append_nil]
          omega
        · simpa [afterMsg] using hr
        · simp only [afterMsg]
          omega
        · simp only [afterMsg, List.append_nil]
          omega
      simp only [List.append_nil] at hloop hpend
      refine ⟨client', ?_, ?_⟩
      · rw [feedLoop, hstep, messageFraming.drain_of_some hnext]
        simp only [Option.bind_eq_bind, Option.bind_some, Option.pure_def, hloop,
          if_pos (show 0 < (m.payload.length : Int) by omega),
            delivered_afterMsg, List.map_cons]
      · rw [hpend, Framing.pending, Framing.pending, messageFraming.drain_of_some hnext]
    · rw [Framing.pending, messageFraming.drain_of_none hnone]
      by_cases h8 : msgHeaderLen ≤ (client.restMsg ++ msg).length
      · refine ⟨awaiting client (client.restMsg ++ msg), ?_, rfl⟩
        rw [feedLoop, parserMsg_of_prefix hfits hs henc h8]
        rfl
      · rcases hhead with rfl | hhead
        · refine ⟨client, ?_, ?_⟩
          · rw [feedLoop, parserMsg_short (by omega)]
            rfl
          · rw [List.append_nil]
        · exact absurd hhead h8

/-- What waits in front of a valid stream is less than a message. -/
theorem length_pending_lt {as : List Message} (hv : ∀ m ∈ as, m.Fits) {bs t : List UInt8}
    (hpre : bs ++ t = messageFraming.encodeAll as) (hnone : nextMsg bs = none) :
    bs.length < msgHeaderLen + portBufferSize := by
  cases as with
  | nil =>
    rw [(List.append_eq_nil_iff.mp hpre).1]
    decide
  | cons m as =>
    have hfits : m.Fits := hv m List.mem_cons_self
    have hsmall := hfits.2
    rcases messageFraming.next_of_prefix hfits hpre with ⟨r, hnext, -⟩ | ⟨-, s, -, henc, -⟩
    · have hsome : nextMsg bs = some (m, r) := hnext
      rw [hsome] at hnone
      cases hnone
    · have hlen := congrArg List.length henc
      have hm : (messageFraming.encode m).length = msgHeaderLen + m.payload.length :=
        length_encode m
      rw [List.length_append] at hlen
      omega

/-- One chunk of a valid stream, when it finds a header at hand. -/
theorem feed_valid {as : List Message} (hv : ∀ m ∈ as, m.Fits) {t : List UInt8}
    (hpre : client.restMsg ++ msg ++ t = messageFraming.encodeAll as)
    (hnone : nextMsg client.restMsg = none) (hmsg : msg.length ≤ portBufferSize)
    (hhead : msgHeaderLen ≤ (client.restMsg ++ msg).length) :
    ∃ client', feed msg client =
        some ((messageFraming.drain (client.restMsg ++ msg)).1.map Message.received,
          client') ∧
      client'.restMsg = messageFraming.pending (client.restMsg ++ msg) := by
  have hlt := length_pending_lt hv (by rw [← List.append_assoc]; exact hpre) hnone
  simp only [msgHeaderLen, portBufferSize] at hlt hmsg
  refine feedLoop_valid hv ?_ hpre ?_ ?_ (.inr hhead)
  · rw [List.length_append]
    omega
  · simp only [restMsgSize, portBufferSize]
    omega
  · simp only [List.length_append, restMsgSize, portBufferSize, msgHeaderLen]
    omega

/-! ## Counting bytes -/

/-- The bytes of the messages delivered. -/
def deliveredBytes (ms : List (Int × Int × List UInt8)) : Nat :=
  (ms.map fun d => msgHeaderLen + d.2.1.toNat).sum

theorem deliveredBytes_received (as : List Message) :
    deliveredBytes (as.map Message.received) = (messageFraming.encodeAll as).length := by
  induction as with
  | nil => rfl
  | cons m as ih =>
    have hm : (messageFraming.encode m).length = msgHeaderLen + m.payload.length :=
      length_encode m
    rw [Framing.encodeAll_cons, List.length_append, hm, ← ih]
    simp [deliveredBytes, Message.received]

/-- Nothing is delivered or kept that did not arrive. -/
theorem feedLoop_bytes {fuel : Nat} {ms : List (Int × Int × List UInt8)}
    {client' : ClientContext} (hrest : client.restMsg.length ≤ restMsgSize)
    (h : feedLoop fuel msg client = some (ms, client')) :
    client'.restMsg.length ≤ restMsgSize ∧
      deliveredBytes ms + client'.restMsg.length ≤ client.restMsg.length + msg.length := by
  induction fuel generalizing client msg ms with
  | zero =>
    obtain ⟨rfl, rfl⟩ := Prod.mk.inj (Option.some.inj h)
    exact ⟨hrest, by simp [deliveredBytes]⟩
  | succ k ih =>
    rw [feedLoop] at h
    cases hparse : parserMsg msg client with
    | none =>
      rw [hparse] at h
      cases h
    | some p =>
      obtain ⟨ret, mid⟩ := p
      obtain ⟨hmid, hdeliver, hkept⟩ := parserMsg_bytes hrest hparse
      rw [List.length_append] at hdeliver hkept
      simp only [hparse, Option.bind_eq_bind, Option.bind_some, Option.pure_def] at h
      split at h
      · next hpos =>
        obtain ⟨hsize, hbytes⟩ := hdeliver hpos
        cases hloop : feedLoop k [] mid with
        | none =>
          rw [hloop] at h
          cases h
        | some q =>
          obtain ⟨ms', last⟩ := q
          simp only [hloop, Option.bind_some] at h
          obtain ⟨rfl, rfl⟩ := Prod.mk.inj (Option.some.inj h)
          obtain ⟨hlast, hsum⟩ := ih hmid hloop
          refine ⟨hlast, ?_⟩
          rw [List.length_nil] at hsum
          have hcons : deliveredBytes (mid.msg.delivered :: ms') =
              msgHeaderLen + ret.toNat + deliveredBytes ms' := by
            simp [deliveredBytes, MsgHeader.delivered, hsize]
          omega
      · obtain ⟨rfl, rfl⟩ := Prod.mk.inj (Option.some.inj h)
        refine ⟨hmid, ?_⟩
        have hnil : deliveredBytes [] = 0 := rfl
        omega

theorem feedAll_bytes {chunks : List (List UInt8)} {ms : List (Int × Int × List UInt8)}
    {client' : ClientContext} (hrest : client.restMsg.length ≤ restMsgSize)
    (h : feedAll chunks client = some (ms, client')) :
    deliveredBytes ms ≤ client.restMsg.length + chunks.flatten.length := by
  induction chunks generalizing client ms with
  | nil =>
    obtain ⟨rfl, rfl⟩ := Prod.mk.inj (Option.some.inj h)
    simp [deliveredBytes]
  | cons chunk chunks ih =>
    rw [feedAll] at h
    cases hfeed : feed chunk client with
    | none =>
      rw [hfeed] at h
      cases h
    | some p =>
      obtain ⟨ms₁, mid⟩ := p
      simp only [hfeed, Option.bind_eq_bind, Option.bind_some, Option.pure_def] at h
      cases hall : feedAll chunks mid with
      | none =>
        rw [hall] at h
        cases h
      | some q =>
        obtain ⟨ms₂, last⟩ := q
        simp only [hall, Option.bind_some] at h
        obtain ⟨rfl, rfl⟩ := Prod.mk.inj (Option.some.inj h)
        obtain ⟨hmid, hsum⟩ := feedLoop_bytes hrest hfeed
        have hrec := ih hmid hall
        have happ : deliveredBytes (ms₁ ++ ms₂) =
            deliveredBytes ms₁ + deliveredBytes ms₂ := by
          simp [deliveredBytes]
        rw [List.flatten_cons, List.length_append]
        omega

end Feed

/-! ## The round trip of a stream -/

/-- Every chunk finds, with what is pending before it, a header at hand. -/
def HeadersArrive (chunks : List (List UInt8)) : Prop :=
  ∀ before chunk after, chunks = before ++ chunk :: after →
    msgHeaderLen ≤ (messageFraming.pending before.flatten).length + chunk.length

theorem feedAll_cons {client mid : ClientContext} {chunk : List UInt8}
    {ms : List (Int × Int × List UInt8)} (h : feed chunk client = some (ms, mid))
    (chunks : List (List UInt8)) :
    (feedAll (chunk :: chunks) client).map Prod.fst =
      (feedAll chunks mid).map fun q => ms ++ q.1 := by
  simp only [feedAll, h, Option.bind_eq_bind, Option.bind_some, Option.pure_def]
  cases feedAll chunks mid <;> rfl

/-- A chunk that is lost is missing at the end. -/
theorem feedAll_short {client : ClientContext} {chunk : List UInt8}
    {chunks : List (List UInt8)}
    {ms : List (Int × Int × List UInt8)} (hrest : client.restMsg.length ≤ restMsgSize)
    (hshort : (client.restMsg ++ chunk).length < msgHeaderLen)
    (h : (feedAll (chunk :: chunks) client).map Prod.fst = some ms) :
    deliveredBytes ms ≤ client.restMsg.length + chunks.flatten.length := by
  have hfeed : feed chunk client = some ([], client) := by
    rw [feed, feedLoop, parserMsg_short hshort]
    rfl
  rw [feedAll_cons hfeed, Option.map_eq_some_iff] at h
  obtain ⟨⟨ms', last⟩, hall, rfl⟩ := h
  exact feedAll_bytes hrest hall

/-- The stream of a context that already holds its first bytes. -/
theorem feedAll_valid_iff {as : List Message} (hv : ∀ m ∈ as, m.Fits) {client : ClientContext}
    {chunks : List (List UInt8)} (hchunks : ∀ c ∈ chunks, c ≠ [] ∧ c.length ≤ portBufferSize)
    (hnone : nextMsg client.restMsg = none)
    (hcut : client.restMsg ++ chunks.flatten = messageFraming.encodeAll as) :
    (feedAll chunks client).map Prod.fst = some (as.map Message.received) ↔
      ∀ before chunk after, chunks = before ++ chunk :: after → msgHeaderLen ≤
        (messageFraming.pending (client.restMsg ++ before.flatten)).length +
          chunk.length := by
  have hlt := length_pending_lt hv hcut hnone
  have hrest : client.restMsg.length ≤ restMsgSize := by
    simp only [msgHeaderLen, portBufferSize, restMsgSize] at *
    omega
  induction chunks generalizing client as with
  | nil =>
    have has : as = [] := by
      cases as with
      | nil => rfl
      | cons m as =>
        rw [List.flatten_nil, List.append_nil] at hcut
        have hsome : nextMsg client.restMsg = some (m, messageFraming.encodeAll as) := by
          rw [hcut]
          exact nextMsg_encode (hv m List.mem_cons_self) _
        rw [hsome] at hnone
        cases hnone
    rw [has]
    exact ⟨fun _ before chunk after h => by simp at h, fun _ => rfl⟩
  | cons chunk chunks ih =>
    obtain ⟨hchunk, hsize⟩ := hchunks chunk List.mem_cons_self
    rw [List.flatten_cons, ← List.append_assoc] at hcut
    by_cases hhead : msgHeaderLen ≤ (client.restMsg ++ chunk).length
    · obtain ⟨mid, hfeed, hmid⟩ := feed_valid hv hcut hnone hsize hhead
      obtain ⟨todo, hsplit, htodo⟩ := messageFraming.drain_of_prefix hv hcut
      have hvtodo : ∀ m ∈ todo, m.Fits := by
        intro m hm
        refine hv m ?_
        rw [hsplit]
        exact List.mem_append_right _ hm
      have hmidnone : nextMsg mid.restMsg = none := by
        rw [hmid]
        exact (messageFraming.drain_spec _).2.2
      rw [← hmid] at htodo
      have hmidlt := length_pending_lt hvtodo htodo hmidnone
      have hrec :=
        ih hvtodo (fun c hc => hchunks c (List.mem_cons_of_mem chunk hc)) hmidnone htodo
        hmidlt (by simp only [msgHeaderLen, portBufferSize, restMsgSize] at *; omega)
      rw [feedAll_cons hfeed, hsplit, List.map_append]
      constructor
      · intro hall before c after hc
        have htail : (feedAll chunks mid).map Prod.fst =
            some (todo.map Message.received) := by
          rw [Option.map_eq_some_iff] at hall ⊢
          obtain ⟨q, hq, happ⟩ := hall
          exact ⟨q, hq, List.append_cancel_left happ⟩
        cases before with
        | nil =>
          obtain ⟨rfl, rfl⟩ := List.cons.inj hc
          rw [List.flatten_nil, List.append_nil, messageFraming.pending_of_none hnone,
            ← List.length_append]
          exact hhead
        | cons c₀ before =>
          obtain ⟨rfl, hbefore⟩ := List.cons.inj hc
          rw [List.flatten_cons, ← List.append_assoc, messageFraming.pending_append, ← hmid]
          exact hrec.mp htail before c after hbefore
      · intro hheads
        have htail := hrec.mpr (by
          intro before c after hc
          have h := hheads (chunk :: before) c after (by rw [hc]; rfl)
          rwa [List.flatten_cons, ← List.append_assoc,
            messageFraming.pending_append, ← hmid] at h)
        rw [Option.map_eq_some_iff] at htail ⊢
        obtain ⟨q, hq, happ⟩ := htail
        exact ⟨q, hq, by rw [happ]⟩
    · constructor
      · intro hall
        -- the chunk's bytes are missing from what is delivered
        have hsum := feedAll_short hrest (by omega) hall
        have hlen := congrArg List.length hcut
        have hpos := List.length_pos_of_ne_nil hchunk
        rw [List.length_append, List.length_append] at hlen
        rw [deliveredBytes_received] at hsum
        omega
      · intro hheads
        have h := hheads [] chunk chunks rfl
        rw [List.flatten_nil, List.append_nil, messageFraming.pending_of_none hnone,
          ← List.length_append] at h
        exact absurd h hhead

/-- The messages of a stream come out as they were sent exactly when no chunk is lost. -/
theorem framing_round_trip_iff {msgs : List Message} (hfits : ∀ m ∈ msgs, m.Fits)
    {chunks : List (List UInt8)} (hchunks : ∀ c ∈ chunks, c ≠ [] ∧ c.length ≤ portBufferSize)
    (hcut : chunks.flatten = messageFraming.encodeAll msgs) {client : ClientContext}
    (hempty : client.restMsg = []) :
    (feedAll chunks client).map Prod.fst = some (msgs.map Message.received) ↔
      HeadersArrive chunks := by
  have hnone : nextMsg client.restMsg = none := by
    rw [hempty]
    rfl
  have h := feedAll_valid_iff hfits hchunks hnone (by rw [hempty]; exact hcut)
  rwa [hempty] at h

/-- A message of one byte. -/
def oneByteMessage (type : MsgType) (byte : UInt8) : Message :=
  ⟨type.code, [byte], by cases type <;> decide, by simp⟩

def oneByte : Message := oneByteMessage .request 65

theorem headersArrive_of_take {chunks : List (List UInt8)}
    (h : ∀ i (hi : i < chunks.length),
      msgHeaderLen ≤ (messageFraming.pending (chunks.take i).flatten).length +
        chunks[i].length) :
    HeadersArrive chunks := by
  rintro before chunk after rfl
  have hthere := h before.length (by simp)
  simpa using hthere

/-- Three messages. -/
def threeMessages : List Message :=
  [oneByte, ⟨MsgType.request.code, [66, 67, 68], by decide, by decide⟩,
    ⟨MsgType.request.code, [69, 70], by decide, by decide⟩]

/-- Their bytes, cut inside the second message and inside the third one. -/
def threeChunks : List (List UInt8) :=
  let stream := messageFraming.encodeAll threeMessages
  [stream.take 18, (stream.drop 18).take 11, stream.drop 29]

theorem threeMessages_arrive :
    (feedAll threeChunks .init).map Prod.fst = some (threeMessages.map Message.received) := by
  have hfits : ∀ m ∈ threeMessages, m.Fits := by decide
  have hchunks : ∀ c ∈ threeChunks, c ≠ [] ∧ c.length ≤ portBufferSize := by decide
  exact (framing_round_trip_iff hfits hchunks rfl rfl).mpr (headersArrive_of_take (by decide))

/-- A cut inside the header loses the message. -/
theorem splitHeader_loses :
    ¬ ∀ (msgs : List Message) (chunks : List (List UInt8)), (∀ m ∈ msgs, m.Fits) →
      (∀ c ∈ chunks, c ≠ [] ∧ c.length ≤ portBufferSize) →
      chunks.flatten = messageFraming.encodeAll msgs →
      (feedAll chunks .init).map Prod.fst = some (msgs.map Message.received) := by
  intro h
  have hlost :=
    h [oneByte] [oneByte.encode.take 4, oneByte.encode.drop 4] (by decide) (by decide)
      (by decide)
  exact absurd hlost (by decide)

end Toadb
