/-
Toadb.Executor.ColumnDecodeTheorems — is a column decoded from its own bytes?

A value that INSERT stores has the bytes of its type (`StoredBytes`) or, as
NULL, none. The decoder stays inside the value where `bytesRead` is not more
than these (`translateRawColumnData_eq`). For a string it is always more, by
the size of the header; the bytes behind do not count there, as the string
ends before them (`translateInMemory_congr`).

Without bytes all that is decoded lies behind the value: then `col = 0` or
`col = ''` goes as the neighbours have it (`empty_decides`).
-/
import Toadb.Executor.ColumnDecode
import Toadb.Executor.ExecExpreTheorems
import Toadb.Executor.ExpreComputeTheorems
import Toadb.Storage.TuplesTheorems

namespace Toadb

open Bytes (memcpy)

/-! ## Bytes -/

theorem dataBytes_of_le {colData : RowColumnData} {n : Nat} (h : n ≤ colData.data.length)
    (behind : Nat → UInt8) : dataBytes colData behind n = colData.data.take n :=
  List.take_append_of_le_length h

theorem dataBytes_of_empty {colData : RowColumnData} (h : colData.data = [])
    (behind : Nat → UInt8) (n : Nat) :
    dataBytes colData behind n = (List.range n).map behind := by
  rw [dataBytes, h, List.nil_append, List.take_of_length_le (by simp)]

/-- Inside the value it does not matter what lies behind. -/
theorem translateInMemory_of_le {colData : RowColumnData} {type : ValueType}
    (h : bytesRead type colData.size ≤ colData.data.length) (behind : Nat → UInt8) :
    translateInMemory colData behind type =
      translateBytes type (colData.data.take (bytesRead type colData.size)) := by
  rw [translateInMemory, dataBytes_of_le h]

/-- The decoder reads the value's own bytes only. -/
def ReadsInside (type : ValueType) (colData : RowColumnData) : Prop :=
  rowColumnDataSize + bytesRead type colData.size ≤ colData.size

/-- The decoder of the storage is the one in memory where it stays inside the value. -/
theorem translateRawColumnData_eq (colData : RowColumnData) (behind : Nat → UInt8)
    (type : ValueType) :
    translateRawColumnData colData type =
      if bytesRead type colData.size ≤ colData.data.length then
        some (translateInMemory colData behind type)
      else none := by
  by_cases h : bytesRead type colData.size ≤ colData.data.length
  · rw [if_pos h, translateInMemory_of_le h]
    cases type with
    | int | integer | double | float =>
      rw [translateRawColumnData, dataWord, if_pos (show 4 ≤ colData.data.length from h)]
      rfl
    | varchar | string =>
      have hcopy : memcpy colData.size [] colData.data (colData.size : Nat) = _ :=
        Bytes.memcpy_eq h (by simp)
      simp only [translateRawColumnData, hcopy]
      rfl
    | char =>
      have hcopy : memcpy 2 [] colData.data (1 : Nat) = _ := Bytes.memcpy_eq h (by simp)
      rw [translateRawColumnData]
      exact congrArg (fun c : Option (List UInt8) => c.bind fun c =>
        some (some (Data.pData (cString (c ++ [0]))))) hcopy
    | bool =>
      cases hdata : colData.data with
      | nil =>
        rw [hdata] at h
        cases h
      | cons b rest => simp [translateRawColumnData, translateBytes, bytesRead, hdata]
    | unknown | pointer => rfl
  · rw [if_neg h]
    cases type with
    | int | integer | double | float =>
      rw [translateRawColumnData, dataWord, if_neg (show ¬ 4 ≤ colData.data.length from h)]
      rfl
    | varchar | string =>
      have hcopy : memcpy colData.size [] colData.data (colData.size : Nat) = none := by
        rw [memcpy, if_neg fun hfits => h (Int.ofNat_le.mp hfits.2.1)]
      simp only [translateRawColumnData, hcopy]
      rfl
    | char =>
      have hcopy : memcpy 2 [] colData.data (1 : Nat) = none := by
        rw [memcpy, if_neg fun hfits => h (Int.ofNat_le.mp hfits.2.1)]
      rw [translateRawColumnData]
      exact congrArg (fun c : Option (List UInt8) => c.bind fun c =>
        some (some (Data.pData (cString (c ++ [0]))))) hcopy
    | bool =>
      have hdata : colData.data = [] :=
        List.eq_nil_of_length_eq_zero (Nat.lt_one_iff.mp (Nat.not_le.mp h))
      rw [translateRawColumnData, hdata]
      rfl
    | unknown | pointer => exact absurd (Nat.zero_le _) h

/-! ## Stored values -/

/-- A type of which INSERT stores values. -/
def ValueType.HasValues (type : ValueType) : Prop := type ≠ .unknown ∧ type ≠ .pointer

/-- What INSERT stores in a column: a literal, or NULL for a column that is not named. The
header is stamped later. -/
def InsertStores (address : CString → BitVec 64) (type : ValueType)
    (colData : RowColumnData) : Prop :=
  ∃ attrIndex header value, colData = { value with headerData := header } ∧
    (value = .new attrIndex [] ∨
      ∃ lit : Literal, transformConstValueRowData address lit.constValue type attrIndex =
        some value)

/-- The bytes of a value of a type. -/
def StoredBytes (type : ValueType) (data : List UInt8) : Prop :=
  match type with
  | .int | .integer | .double | .float => data.length = 4
  | .varchar | .string => ∃ s : CString, data = s.bytes
  | .char | .bool => data.length = 1
  | .unknown | .pointer => False

/-- No more is read than there is, but for a string. -/
theorem StoredBytes.bytesRead_le {type : ValueType} {data : List UInt8}
    (h : StoredBytes type data)
    (hvarchar : type ≠ .varchar) (hstring : type ≠ .string) (size : Nat) :
    bytesRead type size ≤ data.length := by
  cases type with
  | int | integer | double | float | char | bool => exact Nat.le_of_eq (Eq.symm h)
  | varchar => exact absurd rfl hvarchar
  | string => exact absurd rfl hstring
  | unknown | pointer => exact h.elim

/-- A value that INSERT stores is NULL, or an empty `char`, or has the bytes of its type. -/
structure StoredColumn (type : ValueType) (colData : RowColumnData) : Prop where
  size_eq : colData.size = rowColumnDataSize + colData.data.length
  bytes : colData.data = [] ∨ StoredBytes type colData.data

theorem storedColumn_new {type : ValueType} {attrIndex : Nat} {data : List UInt8}
    (h : data = [] ∨ StoredBytes type data) :
    StoredColumn type (.new attrIndex data) := ⟨rfl, h⟩

theorem transformConstValueRowData_stored {address : CString → BitVec 64}
    {constValue : ConstValue} {type : ValueType} {attrIndex : Nat} {value : RowColumnData}
    (h : transformConstValueRowData address constValue type attrIndex = some value) :
    StoredColumn type value := by
  cases type with
  | int | integer | double | float =>
    cases h
    exact storedColumn_new (.inr (length_wordBytes _))
  | bool =>
    cases h
    exact storedColumn_new (.inr rfl)
  | varchar | string =>
    obtain ⟨s, -, h⟩ := Option.bind_eq_some_iff.mp h
    obtain ⟨data, hcopy, h⟩ := Option.bind_eq_some_iff.mp h
    rw [memcpy_bytes] at hcopy
    cases hcopy
    cases h
    exact storedColumn_new (.inr ⟨s, rfl⟩)
  | char =>
    obtain ⟨s, -, h⟩ := Option.bind_eq_some_iff.mp h
    split at h
    · obtain ⟨data, hcopy, h⟩ := Option.bind_eq_some_iff.mp h
      cases h
      have hle : 1 ≤ s.bytes.length := by
        rw [length_bytes]
        omega
      have hfirst : memcpy 1 [] s.bytes (1 : Nat) = _ := Bytes.memcpy_eq hle (by simp)
      obtain rfl := Option.some.inj (hcopy.symm.trans hfirst)
      refine storedColumn_new (.inr ?_)
      rw [StoredBytes, List.nil_append, List.length_take, Nat.min_eq_left hle]
    · cases h
      exact storedColumn_new (.inl rfl)
  | unknown | pointer => cases h

theorem InsertStores.storedColumn {address : CString → BitVec 64} {type : ValueType}
    {colData : RowColumnData}
    (h : InsertStores address type colData) : StoredColumn type colData := by
  obtain ⟨attrIndex, header, value, rfl, hvalue⟩ := h
  have hstored : StoredColumn type value := by
    rcases hvalue with rfl | ⟨lit, hlit⟩
    · exact storedColumn_new (.inl rfl)
    · exact transformConstValueRowData_stored hlit
  exact ⟨hstored.size_eq, hstored.bytes⟩

/-- The decoder stays inside the value exactly for the numbers, the characters and the truth
values that have bytes. -/
theorem StoredColumn.readsInside_iff {type : ValueType} {colData : RowColumnData}
    (h : StoredColumn type colData) (htype : type.HasValues) :
    ReadsInside type colData ↔ colData.data ≠ [] ∧ type ≠ .varchar ∧ type ≠ .string := by
  have hsize := h.size_eq
  have hpos : colData.data ≠ [] ↔ 0 < colData.data.length := List.length_pos_iff.symm
  rw [hpos, ReadsInside, hsize]
  rcases h.bytes with hempty | hbytes
  · rw [hempty]
    cases type with
    | unknown => exact absurd rfl htype.1
    | pointer => exact absurd rfl htype.2
    | _ => simp [bytesRead, rowColumnDataSize]
  · cases type with
    | unknown => exact absurd rfl htype.1
    | pointer => exact absurd rfl htype.2
    | varchar | string => simp [bytesRead, rowColumnDataSize]
    | _ =>
      rw [StoredBytes] at hbytes
      simp [bytesRead, hbytes]

/-! ## What lies behind -/

/-- A value with bytes is decoded from these. -/
theorem translateInMemory_congr {type : ValueType} {colData : RowColumnData}
    (h : StoredColumn type colData)
    (hne : colData.data ≠ []) (behind behind' : Nat → UInt8) :
    translateInMemory colData behind type = translateInMemory colData behind' type := by
  have hbytes := h.bytes.resolve_left hne
  cases type with
  | int | integer | double | float | char | bool =>
    have hle := hbytes.bytesRead_le nofun nofun colData.size
    rw [translateInMemory_of_le hle, translateInMemory_of_le hle]
  | varchar | string =>
    obtain ⟨s, hs⟩ := hbytes
    have hstring : ∀ behind, cString (dataBytes colData behind colData.size) = s := by
      intro behind
      have hle : s.bytes.length ≤ colData.size := by
        rw [h.size_eq, hs]
        omega
      rw [dataBytes, hs, List.take_append, List.take_of_length_le hle]
      exact cString_append s _
    simp only [translateInMemory, translateBytes, bytesRead, hstring]
  | unknown | pointer => exact hbytes.elim

/-! ## Conditions -/

section Conditions

variable {V : Type} {ops : ExprOps V} {rtable : List RangTblEntry} {row row' : Nat → Nat → V}

/-- A condition depends on the columns that it reads. -/
theorem processQualExprNode_congr {node : QualNode} {rindex : Nat}
    (h : ∀ c ∈ columnsRead rtable node rindex, row c.1 c.2 = row' c.1 c.2) (cell : V) :
    processQualExprNode ops rtable row node rindex cell =
      processQualExprNode ops rtable row' node rindex cell := by
  induction node generalizing rindex cell with
  | null | functionClause | constValue => rfl
  | columnRef columnRef =>
    simp only [columnsRead] at h
    simp only [processQualExprNode, getExprDataColumnValue]
    cases hrte : getCellValueByIndex rtable rindex with
    | none => rfl
    | some rte =>
      rw [hrte] at h
      simp only [Option.map_some,
        h (rte.rindex, columnRef.attrIndex) (List.mem_singleton_self _)]
  | exprEntry op rtNum lrindex rrindex targetList lefttree righttree ihl ihr =>
    have hl (cell) := ihl (fun c hc => h c (List.mem_append_left _ hc)) cell
    have hr (cell) := ihr (fun c hc => h c (List.mem_append_right _ hc)) cell
    simp only [processQualExprNode, hl, hr]
  | mergerEntry mergeType targetList lefttree righttree ihl ihr =>
    have hl (cell) := ihl (fun c hc => h c (List.mem_append_left _ hc)) cell
    have hr (cell) := ihr (fun c hc => h c (List.mem_append_right _ hc)) cell
    simp only [processQualExprNode, hl, hr]

end Conditions

section Truth

variable (address : CString → BitVec 64)
  (floatTest : ExprOpType → BitVec 32 → BitVec 32 → Bool)
  (floatIsTrue : BitVec 32 ⊕ BitVec 64 → Bool) (rtable : List RangTblEntry)

/-- The condition selects a row or not by the bytes of the row, whatever lies behind its
columns. -/
def TruthStored (row : StoredRow) (node : QualNode) : Prop :=
  ∀ behind behind' cell,
    execSelectQual (valueOps address floatTest floatIsTrue) rtable
      (row.inMemory behind) node cell =
      execSelectQual (valueOps address floatTest floatIsTrue) rtable
        (row.inMemory behind') node cell

/-- The condition reads columns of the row. -/
def QualNode.Over (node : QualNode) (row : StoredRow) : Prop :=
  ∀ c ∈ columnsRead rtable node 0, c ∈ row.columns

/-- Every column of the row is one of an entry, and has a value that INSERT stores. -/
def StoredRow.Stored (row : StoredRow) : Prop :=
  ∀ c ∈ row.columns, (∃ rte ∈ rtable, rte.rindex = c.1) ∧ (row.type c.1 c.2).HasValues ∧
    InsertStores address (row.type c.1 c.2) (row.value c.1 c.2)

variable {address floatTest floatIsTrue rtable}

/-- Columns with bytes decide by these. -/
theorem truthStored_of_bytes {row : StoredRow} (hrow : row.Stored address rtable)
    (hbytes : ∀ c ∈ row.columns, (row.value c.1 c.2).data ≠ []) {node : QualNode}
    (hnode : node.Over rtable row) :
    TruthStored address floatTest floatIsTrue rtable row node := by
  intro behind behind' cell
  unfold execSelectQual
  rw [processQualExprNode_congr]
  intro c hc
  have hmem := hnode c hc
  have hstored := (hrow c hmem).2.2.storedColumn
  simp only [StoredRow.inMemory]
  rw [translateInMemory_congr hstored (hbytes c hmem)]

/-- The literal that a column is compared with: `''` or `0`. -/
def zeroLiteral : ValueType → Literal
  | .varchar | .string | .char => .string (cString [])
  | _ => .int 0

/-- `col = 0` or `col = ''`. -/
def compareZero (type : ValueType) (c : Nat × Nat) : QualNode :=
  .exprEntry .equal 1 c.1 c.1 [] (.columnRef ⟨cString [], none, type, c.2⟩)
    (.constValue (zeroLiteral type).constValue)

theorem execSelectQual_compareZero {row : Nat → Nat → ResultExpreData} {c : Nat × Nat}
    {rte : RangTblEntry} (hrte : getCellValueByIndex rtable c.1 = some rte)
    (hindex : rte.rindex = c.1) (type : ValueType) (cell : ResultExpreData) :
    execSelectQual (valueOps address floatTest floatIsTrue) rtable row
      (compareZero type c) cell =
      (valueOps address floatTest floatIsTrue).isTrue
        (computeExpr address floatTest (row c.1 c.2)
          ((valueOps address floatTest floatIsTrue).constValue (zeroLiteral type).constValue)
            .equal).join := by
  simp only [execSelectQual, compareZero, processQualExprNode,
    getExprDataColumnValue, hrte, hindex,
    Option.map_some, ExprOps.operand]
  split
  next hnone => exact congrArg _ hnone.symm
  next value hsome => exact congrArg _ hsome.symm

theorem compareZero_over {row : StoredRow} {c : Nat × Nat} (hc : c ∈ row.columns)
    {rte : RangTblEntry}
    (hrte : getCellValueByIndex rtable c.1 = some rte) (hindex : rte.rindex = c.1)
    (type : ValueType) :
    (compareZero type c).Over rtable row := by
  intro c' hc'
  simp only [compareZero, columnsRead, hrte, hindex, List.append_nil,
    List.mem_singleton] at hc'
  rwa [hc']

/-- Bytes behind a value that start with a word. -/
def wordBehind (w : BitVec 32) (i : Nat) : UInt8 := (wordBytes w).getD i 0

theorem map_wordBehind (w : BitVec 32) : (List.range 4).map (wordBehind w) = wordBytes w := by
  apply List.ext_getElem (by simp)
  intro i h₁ h₂
  rw [List.getElem_map, List.getElem_range, wordBehind, List.getD_eq_getElem?_getD,
    List.getElem?_eq_getElem h₂, Option.getD_some]

/-- A column without bytes is what lies behind it. -/
theorem inMemory_empty {row : StoredRow} {c : Nat × Nat}
    (hdata : (row.value c.1 c.2).data = [])
    (hsize : (row.value c.1 c.2).size = rowColumnDataSize)
    (behind : Nat → Nat → Nat → UInt8) :
    row.inMemory behind c.1 c.2 =
      ⟨row.type c.1 c.2, rowColumnDataSize, (translateBytes (row.type c.1 c.2)
        ((List.range (bytesRead (row.type c.1 c.2) rowColumnDataSize)).map
          (behind c.1 c.2))).getD (.iData 0)⟩ := by
  simp only [StoredRow.inMemory, translateInMemory, hsize, dataBytes_of_empty hdata]

/-- The comparison of a column without bytes, of which `w` are the first behind it. -/
def emptyTruth (address : CString → BitVec 64)
    (floatTest : ExprOpType → BitVec 32 → BitVec 32 → Bool)
    (floatIsTrue : BitVec 32 ⊕ BitVec 64 → Bool) (type : ValueType) (w : BitVec 32) : Bool :=
  (valueOps address floatTest floatIsTrue).isTrue
    (computeExpr address floatTest
      ⟨type, rowColumnDataSize, (translateBytes type
        ((List.range (bytesRead type rowColumnDataSize)).map (wordBehind w))).getD (.iData 0)⟩
      ((valueOps address floatTest floatIsTrue).constValue (zeroLiteral type).constValue)
        .equal).join

theorem emptyTruth_float {type : ValueType}
    (htype : type = .double ∨ type = .float) (w : BitVec 32) :
    emptyTruth address floatTest floatIsTrue type w = floatTest .equal w 0 := by
  have hword : BitVec.ofNat 32 (Bytes.toNat (wordBytes w)) = w := by
    have hlt : w.toNat < 256 ^ 4 := w.isLt
    rw [wordBytes, Bytes.toNat_ofNat hlt, BitVec.ofNat_toNat, BitVec.setWidth_eq]
  have hbool (bits : BitVec 32) : getDataBool address floatIsTrue
      (some (getDataInfo (hatBool (floatTest .equal bits 0)))) = floatTest .equal bits 0 :=
    getDataBool_hatBool _
  rcases htype with rfl | rfl
  · refine (hbool (BitVec.ofNat 32 (Bytes.toNat ((List.range 4).map (wordBehind w))))).trans
      ?_
    rw [map_wordBehind, hword]
  · refine (hbool (BitVec.ofNat 32 (Bytes.toNat ((List.range 4).map (wordBehind w))))).trans
      ?_
    rw [map_wordBehind, hword]

/-- The bytes behind decide: two of them make the comparison come out differently. -/
theorem emptyTruth_differs {type : ValueType} (htype : type.HasValues)
    (hfloat : ∃ w, floatTest .equal w 0 ≠ floatTest .equal 0 0) :
    ∃ w, emptyTruth address floatTest floatIsTrue type w ≠
      emptyTruth address floatTest floatIsTrue type 0 := by
  cases type with
  -- the letter `T` in front: another number, another string, and true
  | int | integer | bool | varchar | string | char => exact ⟨0x54, nofun⟩
  | double =>
    obtain ⟨w, hw⟩ := hfloat
    exact ⟨w, by rwa [emptyTruth_float (.inl rfl), emptyTruth_float (.inl rfl)]⟩
  | float =>
    obtain ⟨w, hw⟩ := hfloat
    exact ⟨w, by rwa [emptyTruth_float (.inr rfl), emptyTruth_float (.inr rfl)]⟩
  | unknown => exact absurd rfl htype.1
  | pointer => exact absurd rfl htype.2

/-- A column that is NULL is compared with what lies behind it. -/
theorem empty_decides (hn : Numbered rtable)
    (hfloat : ∃ w, floatTest .equal w 0 ≠ floatTest .equal 0 0)
    {row : StoredRow} (hrow : row.Stored address rtable) {c : Nat × Nat}
    (hc : c ∈ row.columns) (hdata : (row.value c.1 c.2).data = []) :
    ∃ node : QualNode, node.Over rtable row ∧
      ¬ TruthStored address floatTest floatIsTrue rtable row node := by
  obtain ⟨⟨rte, hmem, hindex⟩, htype, hstores⟩ := hrow c hc
  have hrte : getCellValueByIndex rtable c.1 = some rte := by
    rw [← hindex]
    exact getCellValueByIndex_rindex hn hmem
  have hsize : (row.value c.1 c.2).size = rowColumnDataSize := by
    rw [hstores.storedColumn.size_eq, hdata]
    rfl
  have htruth (w : BitVec 32) : execSelectQual (valueOps address floatTest floatIsTrue) rtable
      (row.inMemory fun _ _ => wordBehind w)
        (compareZero (row.type c.1 c.2) c) (getDataInfo 0) =
        emptyTruth address floatTest floatIsTrue (row.type c.1 c.2) w := by
    rw [execSelectQual_compareZero hrte hindex, inMemory_empty hdata hsize]
    rfl
  obtain ⟨w, hw⟩ : ∃ w, emptyTruth address floatTest floatIsTrue (row.type c.1 c.2) w ≠
      emptyTruth address floatTest floatIsTrue (row.type c.1 c.2) 0 :=
        emptyTruth_differs htype hfloat
  refine ⟨compareZero (row.type c.1 c.2) c, compareZero_over hc hrte hindex _, ?_⟩
  intro h
  refine hw ?_
  rw [← htruth, ← htruth]
  exact h _ _ _

end Truth

/-! ## The decoder -/

/-- A row of one `int` column. -/
def rowOf (value : RowColumnData) : StoredRow := ⟨[(1, 0)], fun _ _ => .int, fun _ _ => value⟩

/-- Floats that are equal when their bits are. -/
def bitsTest (_ : ExprOpType) (left right : BitVec 32) : Bool := left == right

end Toadb
