/-
Toadb.Storage.RowData — a stored column value and its bytes (`RowColumnData`
of `tablecom.h`).

The structure is packed, so its bytes are the fields one after the other,
little-endian, and the data. A value is read back from its bytes when its
fields fit their widths (`ofBytes_toBytes`).
-/
import Toadb.Lib.Bytes
import Toadb.Storage.TupleHeader
import Mathlib.Tactic.NormNum
import Mathlib.Algebra.Order.Ring.Int

namespace Toadb

open Bytes

/-! ## Layout numbers -/

/-- `PAGE_MAX_SIZE`. -/
def pageMaxSize : Nat := 4096

/-- `PAGE_DATA_HEADER_SIZE`. -/
def pageDataHeaderSize : Nat := 40

/-- `ITEM_SIZE`. -/
def itemSize : Nat := 16

/-- `MAX_ROW_DATA_SIZE`. -/
def maxRowDataSize : Nat := pageMaxSize - (pageDataHeaderSize + itemSize)

/-- `sizeof(RowColumnData)`. -/
def rowColumnDataSize : Nat := 48

/-! ## Column values -/

/-- `RowColumnData`: one version of a column value. -/
structure RowColumnData where
  size : Nat
  attrindex : Nat
  headerData : TupleHeader
  data : List UInt8
  deriving DecidableEq, Repr

/-- A value before it is stamped. -/
def RowColumnData.new (attrindex : Nat) (data : List UInt8) : RowColumnData :=
  ⟨rowColumnDataSize + data.length, attrindex, ⟨0, 0, 0, 0, RowPosition.none⟩, data⟩

/-- The bytes of a header. -/
def TupleHeader.toBytes (h : TupleHeader) : List UInt8 :=
  ofNat 8 h.tmin ++ (ofNat 8 h.tmax ++ (ofNat 8 h.tinfo ++ (ofNat 4 h.cid ++
    (ofNat 4 h.undo.pageIndex.segno ++ (ofNat 4 h.undo.pageIndex.pageno ++
      ofNat 4 h.undo.itemIndex)))))

/-- The bytes of a column value. -/
def RowColumnData.toBytes (r : RowColumnData) : List UInt8 :=
  ofNat 4 r.size ++ (ofNat 4 r.attrindex ++ (r.headerData.toBytes ++ r.data))

/-- The header at the front of a block, and the rest. -/
def TupleHeader.ofBytes (bs : List UInt8) : TupleHeader × List UInt8 :=
  let (tmin, bs) := splitNat 8 bs
  let (tmax, bs) := splitNat 8 bs
  let (tinfo, bs) := splitNat 8 bs
  let (cid, bs) := splitNat 4 bs
  let (segno, bs) := splitNat 4 bs
  let (pageno, bs) := splitNat 4 bs
  let (itemIndex, bs) := splitNat 4 bs
  (⟨tmin, tmax, tinfo, cid, ⟨⟨segno, pageno⟩, itemIndex⟩⟩, bs)

/-- The fields of a block that holds a column value. -/
def RowColumnData.ofBytes (bs : List UInt8) : RowColumnData :=
  let (size, bs) := splitNat 4 bs
  let (attrindex, bs) := splitNat 4 bs
  let (headerData, data) := TupleHeader.ofBytes bs
  ⟨size, attrindex, headerData, data⟩

/-! ## Values that fit their fields -/

/-- The fields of a header fit their widths. -/
structure TupleHeader.Fits (h : TupleHeader) : Prop where
  tmin : h.tmin < 2 ^ 64
  tmax : h.tmax < 2 ^ 64
  tinfo : h.tinfo < 2 ^ 64
  cid : h.cid < 2 ^ 32
  segno : h.undo.pageIndex.segno < 2 ^ 32
  pageno : h.undo.pageIndex.pageno < 2 ^ 32
  itemIndex : h.undo.itemIndex < 2 ^ 32

/-- A column value whose size is that of its bytes and fits on a page. -/
structure RowColumnData.Fits (r : RowColumnData) : Prop where
  size_eq : r.size = rowColumnDataSize + r.data.length
  size_le : r.size ≤ maxRowDataSize
  attrindex : r.attrindex < 2 ^ 32
  header : r.headerData.Fits

@[simp] theorem TupleHeader.length_toBytes (h : TupleHeader) : h.toBytes.length = 40 := by
  simp [TupleHeader.toBytes]

theorem RowColumnData.length_toBytes (r : RowColumnData) :
    r.toBytes.length = rowColumnDataSize + r.data.length := by
  simp only [RowColumnData.toBytes, List.length_append, length_ofNat,
    TupleHeader.length_toBytes,
    rowColumnDataSize]
  omega

theorem RowColumnData.Fits.length {r : RowColumnData} (h : r.Fits) :
    r.toBytes.length = r.size := by
  rw [r.length_toBytes, h.size_eq]

theorem TupleHeader.ofBytes_toBytes {h : TupleHeader} (hfits : h.Fits) (rest : List UInt8) :
    TupleHeader.ofBytes (h.toBytes ++ rest) = (h, rest) := by
  have h32 : (2 : Nat) ^ 32 = 256 ^ 4 := by norm_num
  have h64 : (2 : Nat) ^ 64 = 256 ^ 8 := by norm_num
  obtain ⟨hmin, hmax, hinfo, hcid, hseg, hpage, hitem⟩ := hfits
  rw [h64] at hmin hmax hinfo
  rw [h32] at hcid hseg hpage hitem
  simp only [TupleHeader.toBytes, TupleHeader.ofBytes, List.append_assoc, splitNat_ofNat hmin,
    splitNat_ofNat hmax, splitNat_ofNat hinfo, splitNat_ofNat hcid, splitNat_ofNat hseg,
    splitNat_ofNat hpage, splitNat_ofNat hitem]

/-- The bytes of a value that fits are read back as the value. -/
theorem RowColumnData.ofBytes_toBytes {r : RowColumnData} (h : r.Fits) :
    RowColumnData.ofBytes r.toBytes = r := by
  have h32 : (2 : Nat) ^ 32 = 256 ^ 4 := by norm_num
  have hsize : r.size < 256 ^ 4 := Nat.lt_of_le_of_lt h.size_le (by decide)
  have hattr : r.attrindex < 256 ^ 4 := h32 ▸ h.attrindex
  simp only [RowColumnData.toBytes, RowColumnData.ofBytes, splitNat_ofNat hsize,
    splitNat_ofNat hattr, TupleHeader.ofBytes_toBytes h.header]

/-- The first field of a block is the size. -/
theorem RowColumnData.Fits.take_size {r : RowColumnData} (h : r.Fits) :
    toNat (r.toBytes.take 4) = r.size := by
  have hsize : r.size < 256 ^ 4 := Nat.lt_of_le_of_lt h.size_le (by decide)
  have hsplit :=
    splitNat_ofNat hsize (ofNat 4 r.attrindex ++ (r.headerData.toBytes ++ r.data))
  exact congrArg Prod.fst hsplit

/-! ## Column values in memory -/

/-- `ReadRowData`: the size is checked against the largest row. -/
def readRowData (mem : Int → UInt8) (offset : Int) : Option RowColumnData :=
  let colSize := toNat (read mem offset 4)
  if colSize > maxRowDataSize then none
  else some (RowColumnData.ofBytes (read mem offset colSize))

/-- The value `r` is stored at `offset`. -/
def StoredAt (mem : Int → UInt8) (offset : Int) (r : RowColumnData) : Prop :=
  r.Fits ∧ read mem offset r.size = r.toBytes

theorem StoredAt.readRowData {mem : Int → UInt8} {offset : Int} {r : RowColumnData}
    (h : StoredAt mem offset r) : readRowData mem offset = some r := by
  obtain ⟨hfits, hread⟩ := h
  have hle : 4 ≤ r.size := by rw [hfits.size_eq, rowColumnDataSize]; omega
  have hsize : toNat (read mem offset 4) = r.size := by
    rw [← take_read hle, hread, hfits.take_size]
  have hmax : ¬ r.size > maxRowDataSize := Nat.not_lt.mpr hfits.size_le
  rw [Toadb.readRowData]
  simp only [hsize, if_neg hmax, hread, RowColumnData.ofBytes_toBytes hfits]

theorem StoredAt.unique {mem : Int → UInt8} {offset : Int} {r r' : RowColumnData}
    (h : StoredAt mem offset r) (h' : StoredAt mem offset r') : r = r' :=
  Option.some.inj (h.readRowData.symm.trans h'.readRowData)

theorem storedAt_write (mem : Int → UInt8) (offset : Int) {r : RowColumnData} (h : r.Fits) :
    StoredAt (write mem offset r.toBytes) offset r := by
  refine ⟨h, ?_⟩
  rw [← h.length]
  exact read_write mem offset r.toBytes

/-- A value stored beside a block that is overwritten stays. -/
theorem StoredAt.write_of_disjoint {mem : Int → UInt8} {offset o : Int} {r : RowColumnData}
    {bs : List UInt8} (h : StoredAt mem offset r)
    (hdis : offset + r.size ≤ o ∨ o + bs.length ≤ offset) :
    StoredAt (write mem o bs) offset r :=
  ⟨h.1, (read_write_of_disjoint hdis).trans h.2⟩

end Toadb
