/-
Toadb.Portal.RowTextTheorems — does the client get the text of every column?

Each column is printed at the place where the one before it ends, as long as
`GetValueInfo` returns the width of what it printed (`getValueInfo_value`).
For a NULL it returns one more, so the 0 that `snprintf` wrote behind the
text stays in front of the next column (`printColumns_null`), and the client
prints no further.
-/
import Toadb.Portal.RowText
import Toadb.Storage.TuplesTheorems

namespace Toadb

/-! ## The text of a row -/

/-- The bytes that the case of a type reads are there. -/
def ValueOk (vt : ValueType) (data : List UInt8) : Prop :=
  match vt with
  | .int | .integer | .double | .float => 4 ≤ data.length
  | .varchar | .string => 0 ∈ data
  | .char | .bool => 1 ≤ data.length
  | .unknown | .pointer => False

/-- A column of a row: none, NULL with its header only, or a value of its type. -/
def CellOk (columnData : Option RowColumnData) (vt : ValueType) : Prop :=
  ∀ c, columnData = some c →
    c.size = rowColumnDataSize + c.data.length ∧ (c.data = [] ∨ ValueOk vt c.data)

section Text

variable (floatText : BitVec 32 → List UInt8)

/-- The number at the front of a value's data. -/
def firstWord (data : List UInt8) : BitVec 32 := BitVec.ofNat 32 (Bytes.toNat (data.take 4))

/-- The text of a column; a string is as wide as its column value. -/
def columnText (columnData : Option RowColumnData) (vt : ValueType) : List UInt8 :=
  match columnData with
  | none => nullValue
  | some c =>
    if c.data = [] then nullValue
    else
      match vt with
      | .int | .integer => decimal (firstWord c.data).toInt
      | .varchar | .string => padLeft c.size (cString c.data).val
      | .char | .bool => [c.data.headD 0]
      | .double | .float => floatText (firstWord c.data)
      | .unknown | .pointer => []

/-- A separator and the text of each column. -/
def columnsText : List (Option RowColumnData) → List ValueType → List UInt8
  | columnData :: columns, vt :: types =>
    (bar :: columnText floatText columnData vt) ++ columnsText columns types
  | _, _ => []

/-- The text of a row, with the closing separator. -/
def rowText (columns : List (Option RowColumnData)) (types : List ValueType) : List UInt8 :=
  columnsText floatText columns types ++ [bar]

/-- The client gets the text of the row. -/
def RowSent (columns : List (Option RowColumnData)) (types : List ValueType) : Prop :=
  ∀ pbuf, ∃ pbuf', clientRowDataSend floatText (some columns) types pbuf =
      some (pbuf', ((rowText floatText columns types).length : Int) + 1) ∧
    Bytes.read pbuf' 0 ((rowText floatText columns types).length + 1) =
      rowText floatText columns types ++ [0] ∧
    0 ∉ rowText floatText columns types

/-- The column is not NULL, and a character is not 0. -/
def Printed (columnData : Option RowColumnData) (vt : ValueType) : Prop :=
  ∃ c, columnData = some c ∧ c.data ≠ [] ∧ (vt = .char ∨ vt = .bool → c.data.head? ≠ some 0)

end Text

/-! ## Texts without 0 -/

theorem zero_notMem_decimal (i : Int) : 0 ∉ decimal i := by
  have hdigits : (0 : UInt8) ∉ (Nat.toDigits 10 i.natAbs).map fun c =>
      UInt8.ofNat c.toNat := by
    intro h
    obtain ⟨c, hc, hzero⟩ := List.mem_map.mp h
    have hdigit : c.isDigit = true := Nat.isDigit_of_mem_toDigits (by omega) (by omega) hc
    simp only [Char.isDigit, Bool.and_eq_true, decide_eq_true_eq, ge_iff_le,
      UInt32.le_iff_toNat_le] at hdigit
    have hlo : 48 ≤ c.toNat := hdigit.1
    have hhi : c.toNat ≤ 57 := hdigit.2
    have hmod := congrArg UInt8.toNat hzero
    rw [UInt8.toNat_ofNat'] at hmod
    change c.toNat % 256 = 0 at hmod
    omega
  unfold decimal
  split
  · rw [List.mem_cons, not_or]
    exact ⟨nofun, hdigits⟩
  · exact hdigits

theorem zero_notMem_padLeft {width : Nat} {text : List UInt8} (h : 0 ∉ text) :
    0 ∉ padLeft width text := by
  unfold padLeft
  rw [List.mem_append, not_or]
  refine ⟨?_, h⟩
  intro hmem
  cases List.eq_of_mem_replicate hmem

/-- An `int` has at most eleven characters. -/
theorem length_decimal_le (i : BitVec 32) : (decimal i.toInt).length ≤ 127 := by
  have hlo := BitVec.le_toInt i
  have hhi := BitVec.toInt_lt (x := i)
  have hdigits : (Nat.toDigits 10 i.toInt.natAbs).length ≤ 10 := by
    rw [Nat.length_toDigits_le_iff (by omega) (by omega)]
    omega
  unfold decimal
  split
  · rw [List.length_cons, List.length_map]
    omega
  · rw [List.length_map]
    omega

/-! ## One column -/

section Column

variable {floatText : BitVec 32 → List UInt8}
  {columnData : Option RowColumnData} {vt : ValueType}

theorem length_padLeft {width : Nat} {text : List UInt8} (h : text.length ≤ width) :
    (padLeft width text).length = width := by
  rw [padLeft, List.length_append, List.length_replicate]
  omega

theorem padLeft_self (text : List UInt8) : padLeft text.length text = text := by
  rw [padLeft, Nat.sub_self]
  rfl

theorem digitSize_eq {digit : List UInt8} (h : digit.length ≤ 127) :
    digitSize digit = digit.length := by
  rw [digitSize, List.length_take, Nat.min_eq_right h]

theorem printValue_zero (size : Nat) (text : List UInt8) :
    printValue 0 size text = ((size : Int), some (bar :: padLeft size text)) := by
  rw [printValue, Nat.zero_max]

theorem dataWord_of_le {data : List UInt8} (h : 4 ≤ data.length) :
    dataWord data = some (firstWord data) :=
  if_pos h

theorem length_cString_le (data : List UInt8) : (cString data).val.length ≤ data.length :=
  (List.takeWhile_sublist _).length_le

/-- A value that is not NULL is printed with its width. -/
theorem getValueInfo_value (hfloat : ∀ bits, (floatText bits).length ≤ 127)
    {c : RowColumnData} (hok : CellOk (some c) vt) (hne : c.data ≠ []) :
    getValueInfo floatText vt (some c) 0 =
      some (((columnText floatText (some c) vt).length : Int),
        some (bar :: columnText floatText (some c) vt)) := by
  obtain ⟨hsize, hempty | hvalue⟩ := hok c rfl
  · exact absurd hempty hne
  have hpos : 0 < c.data.length := List.length_pos_iff.mpr hne
  have hlong : c.size ≠ minDataSize := by
    rw [hsize, minDataSize]
    omega
  simp only [getValueInfo, columnText, if_neg hlong, if_neg hne]
  cases vt with
  | int | integer =>
    simp only [dataWord_of_le hvalue, Option.bind_eq_bind, Option.bind_some, printValue_zero,
      digitSize_eq (length_decimal_le _), padLeft_self]
    rfl
  | double | float =>
    simp only [dataWord_of_le hvalue, Option.bind_eq_bind, Option.bind_some, printValue_zero,
      digitSize_eq (hfloat _), padLeft_self]
    rfl
  | varchar | string =>
    have hle : (cString c.data).val.length ≤ c.size := by
      have h := length_cString_le c.data
      omega
    simp only [dataString, if_pos (show (0 : UInt8) ∈ c.data from hvalue),
      Option.bind_eq_bind, Option.bind_some,
      printValue_zero, length_padLeft hle]
    rfl
  | char | bool =>
    cases hdata : c.data with
    | nil => exact absurd hdata hne
    | cons b rest => rfl
  | unknown | pointer => exact hvalue.elim

/-- A NULL is printed as a space, with a width of two. -/
theorem getValueInfo_null {c : RowColumnData} (hok : CellOk (some c) vt)
    (hdata : c.data = []) :
    getValueInfo floatText vt (some c) 0 = some (2, some [bar, 32]) := by
  have hsize : c.size = minDataSize := by
    rw [(hok c rfl).1, hdata]
    rfl
  simp only [getValueInfo, if_pos hsize]
  rfl

/-- The widths are those of the texts, or one more for a NULL, or nothing at all. -/
theorem getValueInfo_cases (hfloat : ∀ bits, (floatText bits).length ≤ 127)
    (hok : CellOk columnData vt) :
    (columnData = none ∧ getValueInfo floatText vt columnData 0 = some (-1, none)) ∨
      (∃ c, columnData = some c ∧ c.data = [] ∧
        getValueInfo floatText vt columnData 0 = some (2, some [bar, 32])) ∨
      ∃ c, columnData = some c ∧ c.data ≠ [] ∧
        getValueInfo floatText vt columnData 0 =
          some (((columnText floatText columnData vt).length : Int),
          some (bar :: columnText floatText columnData vt)) := by
  cases columnData with
  | none => exact .inl ⟨rfl, rfl⟩
  | some c =>
    by_cases hdata : c.data = []
    · exact .inr (.inl ⟨c, rfl, hdata, getValueInfo_null hok hdata⟩)
    · exact .inr (.inr ⟨c, rfl, hdata, getValueInfo_value hfloat hok hdata⟩)

end Column

/-! ## All columns -/

theorem snprintf_of_lt {mem : Int → UInt8} {offset a : Int} {n : Nat}
    {text : List UInt8} (h : a < offset) :
    snprintf mem offset n text a = mem a := by
  unfold snprintf
  split
  · rfl
  · exact Bytes.write_of_outside (.inl h)

/-- A text that fits is in the buffer, with a 0 behind it. -/
theorem read_snprintf {mem : Int → UInt8} {offset : Int} {n : Nat} {text : List UInt8}
    (h : text.length < n) :
    Bytes.read (snprintf mem offset n text) offset (text.length + 1) = text ++ [0] := by
  rw [snprintf, if_neg (by omega), List.take_of_length_le (by omega)]
  have hread := Bytes.read_write mem offset (text ++ [0])
  rwa [List.length_append] at hread

theorem read_snprintf_text {mem : Int → UInt8} {offset : Int} {n : Nat} {text : List UInt8}
    (h : text.length < n) :
    Bytes.read (snprintf mem offset n text) offset text.length = text := by
  rw [← Bytes.take_read (Nat.le_succ text.length), read_snprintf h, List.take_left]

section Columns

variable {floatText : BitVec 32 → List UInt8}
  {columnData : Option RowColumnData} {vt : ValueType}
  {columns : List (Option RowColumnData)} {types : List ValueType} {pbuf pbuf' : Int → UInt8}
  {bufOffset bufOffset' : Int}

theorem length_columnsText_cons :
    (columnsText floatText (columnData :: columns) (vt :: types)).length =
      (columnText floatText columnData vt).length + 1 +
        (columnsText floatText columns types).length := by
  rw [columnsText, List.length_append, List.length_cons]

/-- What a column leaves in the buffer. -/
def putText (pbuf : Int → UInt8) (bufOffset : Int) : Option (List UInt8) → Int → UInt8
  | none => pbuf
  | some text => snprintf pbuf bufOffset portBufferSize text

theorem putText_of_lt {text : Option (List UInt8)} {a : Int} (h : a < bufOffset) :
    putText pbuf bufOffset text a = pbuf a := by
  cases text with
  | none => rfl
  | some text => exact snprintf_of_lt h

theorem printColumns_cons {width : Int} {text : Option (List UInt8)}
    (h : getValueInfo floatText vt columnData 0 = some (width, text)) :
    printColumns floatText (columnData :: columns) (vt :: types) pbuf bufOffset =
      printColumns floatText columns types (putText pbuf bufOffset text)
        (bufOffset + (width + 1)) := by
  simp only [printColumns, h, Option.bind_eq_bind, Option.bind_some]
  cases text <;> rfl

/-- The columns are printed from the offset on. -/
theorem printColumns_frame (hfloat : ∀ bits, (floatText bits).length ≤ 127)
    (hok : List.Forall₂ CellOk columns types) (pbuf : Int → UInt8) (bufOffset : Int) :
    ∃ pbuf' bufOffset', printColumns floatText columns types pbuf bufOffset =
      some (pbuf', bufOffset') ∧
      bufOffset ≤ bufOffset' ∧ ∀ a < bufOffset, pbuf' a = pbuf a := by
  induction hok generalizing pbuf bufOffset with
  | nil => exact ⟨pbuf, bufOffset, rfl, Int.le_refl _, fun _ _ => rfl⟩
  | @cons columnData vt columns types hcolumn _ ih =>
    obtain ⟨width, text, hinfo, hwidth⟩ : ∃ width text,
        getValueInfo floatText vt columnData 0 = some (width, text) ∧ -1 ≤ width := by
      rcases getValueInfo_cases hfloat hcolumn with ⟨-, h⟩ | ⟨c, -, -, h⟩ | ⟨c, -, -, h⟩
      · exact ⟨_, _, h, by omega⟩
      · exact ⟨_, _, h, by omega⟩
      · exact ⟨_, _, h, by omega⟩
    obtain ⟨pbuf', bufOffset', hrun, hle, hframe⟩ :=
      ih (putText pbuf bufOffset text) (bufOffset + (width + 1))
    refine ⟨pbuf', bufOffset', (printColumns_cons hinfo).trans hrun, by omega, ?_⟩
    intro a ha
    rw [hframe a (by omega), putText_of_lt ha]

/-- The text of columns that are not NULL is printed as it is. -/
theorem printColumns_printed (hfloat : ∀ bits, (floatText bits).length ≤ 127)
    (hok : List.Forall₂ CellOk columns types) (hprinted : List.Forall₂ Printed columns types)
    (hfits : (columnsText floatText columns types).length + 1 < portBufferSize)
    (pbuf : Int → UInt8) (bufOffset : Int) :
    ∃ pbuf', printColumns floatText columns types pbuf bufOffset =
        some (pbuf', bufOffset + (columnsText floatText columns types).length) ∧
      Bytes.read pbuf' bufOffset (columnsText floatText columns types).length =
        columnsText floatText columns types := by
  induction hok generalizing pbuf bufOffset with
  | nil => exact ⟨pbuf, congrArg (fun off => some (pbuf, off)) (Int.add_zero _).symm, rfl⟩
  | @cons columnData vt columns types hcolumn hrest ih =>
    obtain ⟨hhead, htail⟩ := List.forall₂_cons.mp hprinted
    obtain ⟨c, rfl, hne, -⟩ := hhead
    have hinfo := getValueInfo_value hfloat hcolumn hne
    rw [length_columnsText_cons] at hfits
    obtain ⟨pbuf', hrun, hread⟩ := ih htail (by omega)
      (putText pbuf bufOffset (some (bar :: columnText floatText (some c) vt)))
      (bufOffset + (((columnText floatText (some c) vt).length : Int) + 1))
    obtain ⟨pbuf'', offset, hrun', -, hframe⟩ := printColumns_frame hfloat hrest
      (putText pbuf bufOffset (some (bar :: columnText floatText (some c) vt)))
      (bufOffset + (((columnText floatText (some c) vt).length : Int) + 1))
    obtain ⟨rfl, -⟩ := Prod.mk.inj (Option.some.inj (hrun.symm.trans hrun'))
    refine ⟨pbuf', ?_, ?_⟩
    · rw [printColumns_cons hinfo, hrun, length_columnsText_cons]
      push_cast
      rw [Int.add_assoc bufOffset]
    · -- the text of this column stays, and the others follow it
      rw [length_columnsText_cons, Bytes.read_add, columnsText]
      have hhere : Bytes.read pbuf' bufOffset
          ((columnText floatText (some c) vt).length + 1) =
          bar :: columnText floatText (some c) vt := by
        rw [Bytes.read_congr fun a _ hlt => hframe a (by push_cast at hlt; omega)]
        exact read_snprintf_text (by rw [List.length_cons]; omega)
      have hnext : bufOffset + (((columnText floatText (some c) vt).length + 1 : Nat) : Int) =
          bufOffset + (((columnText floatText (some c) vt).length : Int) + 1) := by
        push_cast
        rfl
      rw [hhere, hnext, hread]

/-- Behind a NULL there is a 0 in front of the next column. -/
theorem printColumns_null (hfloat : ∀ bits, (floatText bits).length ≤ 127)
    (hok : List.Forall₂ CellOk columns types) (hnull : ∃ c, some c ∈ columns ∧ c.data = [])
    (hrun : printColumns floatText columns types pbuf bufOffset = some (pbuf', bufOffset')) :
    ∃ k : Nat, k ≤ (columnsText floatText columns types).length ∧ bufOffset + k < bufOffset' ∧
      pbuf' (bufOffset + k) = 0 := by
  induction hok generalizing pbuf bufOffset with
  | nil =>
    obtain ⟨c, hc, -⟩ := hnull
    cases hc
  | @cons columnData vt columns types hcolumn hrest ih =>
    rw [length_columnsText_cons]
    have htail (hne : ∀ c, columnData = some c → c.data ≠ []) : ∃ c,
        some c ∈ columns ∧ c.data = [] := by
      obtain ⟨c, hc, hdata⟩ := hnull
      rcases List.mem_cons.mp hc with heq | hc
      · exact absurd hdata (hne c heq.symm)
      · exact ⟨c, hc, hdata⟩
    rcases getValueInfo_cases hfloat hcolumn with ⟨rfl, hinfo⟩ | ⟨c, rfl, hdata,
      hinfo⟩ | ⟨c, rfl, hdata, hinfo⟩
    · -- nothing is printed
      rw [printColumns_cons hinfo] at hrun
      obtain ⟨k, hk, hlt, hzero⟩ := ih (htail nofun) hrun
      have hoff : bufOffset + (-1 + 1) + (k : Int) = bufOffset + k := by omega
      rw [hoff] at hlt hzero
      exact ⟨k, by omega, hlt, hzero⟩
    · -- the columns after it are printed behind the 0
      rw [printColumns_cons hinfo] at hrun
      obtain ⟨pbuf'', offset, hrun', hle, hframe⟩ := printColumns_frame hfloat hrest
        (putText pbuf bufOffset (some [bar, 32])) (bufOffset + (2 + 1))
      obtain ⟨rfl, rfl⟩ := Prod.mk.inj (Option.some.inj (hrun.symm.trans hrun'))
      have htext : columnText floatText (some c) vt = nullValue := if_pos hdata
      have hread : Bytes.read (snprintf pbuf bufOffset portBufferSize [bar, 32]) bufOffset 3 =
          [bar, 32, 0] :=
        read_snprintf (by decide)
      refine ⟨2, ?_, by push_cast; omega, ?_⟩
      · rw [htext]
        exact Nat.le_add_right 2 _
      · rw [hframe _ (by push_cast; omega)]
        have hget := congrArg (fun bs => bs[2]?) hread
        rw [Bytes.getElem?_read (by decide)] at hget
        exact Option.some.inj hget
    · rw [printColumns_cons hinfo] at hrun
      obtain ⟨k, hk, hlt, hzero⟩ := ih (htail (by rintro c' h; cases h; exact hdata)) hrun
      refine ⟨(columnText floatText (some c) vt).length + 1 + k, by omega, ?_, ?_⟩
      · push_cast
        omega
      · rw [← hzero]
        congr 1
        push_cast
        omega

/-- Without a NULL the text is as long as it should be where no column is missing. -/
theorem printColumns_length (hfloat : ∀ bits, (floatText bits).length ≤ 127)
    (hok : List.Forall₂ CellOk columns types) (hvalues : ∀ c, some c ∈ columns → c.data ≠ [])
    (hrun : printColumns floatText columns types pbuf bufOffset = some (pbuf', bufOffset')) :
    bufOffset' ≤ bufOffset + (columnsText floatText columns types).length ∧
      (bufOffset' = bufOffset + (columnsText floatText columns types).length →
        none ∉ columns) := by
  induction hok generalizing pbuf bufOffset with
  | nil =>
    obtain ⟨rfl, rfl⟩ := Prod.mk.inj (Option.some.inj hrun)
    exact ⟨Int.le_add_of_nonneg_right (Int.natCast_nonneg _), fun _ => List.not_mem_nil⟩
  | @cons columnData vt columns types hcolumn hrest ih =>
    rw [length_columnsText_cons]
    have htail : ∀ c, some c ∈ columns → c.data ≠ [] :=
      fun c hc => hvalues c (List.mem_cons_of_mem _ hc)
    rcases getValueInfo_cases hfloat hcolumn with ⟨rfl, hinfo⟩ | ⟨c, rfl, hdata,
      hinfo⟩ | ⟨c, rfl, hdata, hinfo⟩
    · rw [printColumns_cons hinfo] at hrun
      have hle := (ih htail hrun).1
      push_cast
      exact ⟨by omega, fun heq => by omega⟩
    · exact absurd hdata (hvalues c List.mem_cons_self)
    · rw [printColumns_cons hinfo] at hrun
      obtain ⟨hle, heq⟩ := ih htail hrun
      push_cast
      refine ⟨by omega, ?_⟩
      intro hoff hmem
      rcases List.mem_cons.mp hmem with h | h
      · cases h
      · exact heq (by omega) h

end Columns

/-! ## The row -/

section Row

variable {floatText : BitVec 32 → List UInt8} {columns : List (Option RowColumnData)}
  {types : List ValueType}

theorem zero_notMem_columnText (hfloat : ∀ bits, 0 ∉ floatText bits)
    {columnData : Option RowColumnData}
    {vt : ValueType} (hok : CellOk columnData vt) (h : Printed columnData vt) :
    0 ∉ columnText floatText columnData vt := by
  obtain ⟨c, rfl, hne, hchar⟩ := h
  have hvalue := (hok c rfl).2.resolve_left hne
  simp only [columnText, if_neg hne]
  cases vt with
  | int | integer => exact zero_notMem_decimal _
  | varchar | string => exact zero_notMem_padLeft (cString c.data).property
  | char | bool =>
    cases hdata : c.data with
    | nil => exact absurd hdata hne
    | cons b rest =>
      rw [hdata] at hchar
      intro hmem
      refine hchar (by simp) ?_
      rw [List.mem_singleton.mp hmem]
      rfl
  | double | float => exact hfloat _
  | unknown | pointer => exact hvalue.elim

theorem zero_notMem_columnsText (hfloat : ∀ bits, 0 ∉ floatText bits)
    (hok : List.Forall₂ CellOk columns types)
    (h : List.Forall₂ Printed columns types) : 0 ∉ columnsText floatText columns types := by
  induction hok with
  | nil => exact List.not_mem_nil
  | cons hcolumn _ ih =>
    obtain ⟨hhead, htail⟩ := List.forall₂_cons.mp h
    rw [columnsText, List.mem_append, List.mem_cons, not_or, not_or]
    exact ⟨⟨nofun, zero_notMem_columnText hfloat hcolumn hhead⟩, ih htail⟩

/-- Columns that are there, not NULL, and without a 0 in their text. -/
theorem printed_of_text (hok : List.Forall₂ CellOk columns types) (hnone : none ∉ columns)
    (hvalues : ∀ c, some c ∈ columns → c.data ≠ [])
    (hzero : 0 ∉ columnsText floatText columns types) :
    List.Forall₂ Printed columns types := by
  induction hok with
  | nil => exact .nil
  | @cons columnData vt columns types hcolumn _ ih =>
    rw [columnsText, List.mem_append, List.mem_cons, not_or, not_or] at hzero
    refine .cons ?_ (ih (fun h => hnone (List.mem_cons_of_mem _ h))
      (fun c hc => hvalues c (List.mem_cons_of_mem _ hc)) hzero.2)
    cases columnData with
    | none => exact absurd List.mem_cons_self hnone
    | some c =>
      have hne := hvalues c List.mem_cons_self
      refine ⟨c, rfl, hne, ?_⟩
      intro hvt hhead
      have htext : columnText floatText (some c) vt = [c.data.headD 0] := by
        rcases hvt with rfl | rfl <;> exact if_neg hne
      refine hzero.1.2 ?_
      rw [htext, List.headD_eq_head?_getD, hhead]
      exact List.mem_singleton_self _

theorem sizeT_of_lt {n : Nat} (h : n < portBufferSize) :
    sizeT (portBufferSize - (n : Int)) = portBufferSize - n := by
  rw [portBufferSize] at *
  rw [sizeT, BitVec.toNat_ofInt]
  omega

/-- The text of a row that fits the buffer reaches the client, with its size, exactly when no
column is NULL and no character is 0. -/
theorem rowText_iff (floatText : BitVec 32 → List UInt8)
    (hfloat : ∀ bits, 0 ∉ floatText bits ∧ (floatText bits).length ≤ 127)
    {columns : List (Option RowColumnData)} {types : List ValueType}
    (hok : List.Forall₂ CellOk columns types)
    (hfits : (rowText floatText columns types).length < portBufferSize) :
    RowSent floatText columns types ↔ List.Forall₂ Printed columns types := by
  have hlen : (rowText floatText columns types).length =
      (columnsText floatText columns types).length + 1 :=
    List.length_append
  constructor
  · intro h
    obtain ⟨pbuf', hsend, hread, hzero⟩ := h fun _ => 0
    obtain ⟨pbuf, bufOffset, hrun, -, -⟩ :=
      printColumns_frame (fun bits => (hfloat bits).2) hok (fun _ => 0) 0
    have hsend' : clientRowDataSend floatText (some columns) types (fun _ => 0) =
        some (snprintf pbuf bufOffset (sizeT (portBufferSize - bufOffset)) [bar],
          bufOffset + 2) := by
      simp only [clientRowDataSend, hrun, Option.bind_eq_bind, Option.bind_some]
      rfl
    obtain ⟨rfl, hoff⟩ := Prod.mk.inj (Option.some.inj (hsend.symm.trans hsend'))
    have hvalues : ∀ c, some c ∈ columns → c.data ≠ [] := by
      intro c hc hdata
      obtain ⟨k, hk, hlt, hbyte⟩ :=
        printColumns_null (fun bits => (hfloat bits).2) hok ⟨c, hc, hdata⟩ hrun
      -- the 0 is inside the text that was read
      have hget := congrArg (fun bs => bs[k]?) hread
      rw [Bytes.getElem?_read (by omega), snprintf_of_lt (by omega), hbyte,
        List.getElem?_append_left (by omega)] at hget
      exact hzero (List.mem_of_getElem? hget.symm)
    have hnone :=
      (printColumns_length (fun bits => (hfloat bits).2) hok hvalues hrun).2 (by omega)
    have hcolumns : 0 ∉ columnsText floatText columns types := fun hmem =>
      hzero (List.mem_append_left _ hmem)
    exact printed_of_text hok hnone hvalues hcolumns
  · intro hprinted pbuf
    obtain ⟨pbuf', hrun, hread⟩ :=
      printColumns_printed (fun bits => (hfloat bits).2) hok hprinted (by omega) pbuf 0
    rw [Int.zero_add] at hrun
    refine ⟨snprintf pbuf' (columnsText floatText columns types).length
      (portBufferSize - (columnsText floatText columns types).length) [bar], ?_, ?_, ?_⟩
    · simp only [clientRowDataSend, hrun, Option.bind_eq_bind, Option.bind_some]
      rw [sizeT_of_lt (by omega), hlen]
      push_cast
      rfl
    · rw [hlen, Nat.add_assoc, Bytes.read_add, rowText, List.append_assoc, Int.zero_add]
      congr 1
      · exact (Bytes.read_congr fun a _ hlt => snprintf_of_lt (by omega)).trans hread
      · exact read_snprintf (by rw [List.length_singleton]; omega)
    · rw [rowText, List.mem_append, not_or]
      exact ⟨zero_notMem_columnsText (fun bits => (hfloat bits).1) hok hprinted, by decide⟩

end Row

/-- A row of an `int` and a `char`. -/
def intAndChar (digits char : List UInt8) : List (Option RowColumnData) :=
  [some (.new 0 digits), some (.new 1 char)]

theorem intAndChar_ok {digits char : List UInt8} (hdigits : digits = [] ∨ 4 ≤ digits.length) :
    List.Forall₂ CellOk (intAndChar digits char) [.int, .char] := by
  refine .cons ?_ (.cons ?_ .nil)
  · intro c hc
    cases hc
    exact ⟨rfl, hdigits⟩
  · intro c hc
    cases hc
    refine ⟨rfl, ?_⟩
    cases char with
    | nil => exact .inl rfl
    | cons b rest => exact .inr (Nat.le_add_left 1 rest.length)

/-- `|5|A|`. -/
theorem rowText_five :
    RowSent (fun _ => [48]) (intAndChar (wordBytes 5) [65]) [.int, .char] := by
  refine (rowText_iff _ (fun _ => ⟨by decide, by decide⟩)
    (intAndChar_ok (.inr (by decide))) (by decide)).mpr ?_
  refine .cons ⟨_, rfl, nofun, ?_⟩ (.cons ⟨_, rfl, nofun, ?_⟩ .nil)
  · rintro (h | h) <;> cases h
  · intro _ h
    cases h

/-- Behind `| `, the text of a NULL, nothing is printed. -/
theorem rowText_fails :
    ¬ ∀ columns types, List.Forall₂ CellOk columns types →
      (rowText (fun _ => [48]) columns types).length < portBufferSize →
        RowSent (fun _ => [48]) columns types := by
  intro h
  obtain ⟨pbuf', hsend, -, -⟩ :=
    h (intAndChar [] [65]) [.int, .char] (intAndChar_ok (.inl rfl)) (by decide) fun _ => 0
  -- seven bytes are sent, where the text and its 0 are six
  have hsize :
      (clientRowDataSend (fun _ => [48]) (some (intAndChar [] [65])) [.int, .char] fun _ =>
        0).map
      Prod.snd = some 6 := congrArg (fun sent => sent.map Prod.snd) hsend
  revert hsize
  decide

end Toadb
