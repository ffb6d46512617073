/-
Toadb.Storage.PageTheorems — the layout of a page and what each write does
to it.

`Layout page room` is the invariant. `room` records how many bytes were set
aside at an address when a row was put there (0 for every other address);
nothing is ever given back, so the allocations stay apart, and every row an
item points to lies inside the allocation at its address. It is not stored
on the page: the size in the item is that of the first row and goes stale.

A write keeps the layout when it stays in its room: a new row when the item
and the row fit between the two ends (`Layout.writeRowOnePage`), a moved row
likewise (`Layout.relocateRow`), a replaced row when it is no larger than the
allocation (`Layout.replaceRowData`).
-/
import Toadb.Storage.Page

namespace Toadb

open Bytes

/-! ## The layout -/

/-- `itemOffset` is the offset of an item of the page. -/
def IsItem (page : PageDataHeader) (itemOffset : Int) : Prop :=
  ∃ i : Nat, itemOffset = itemOffsetOfIndex i ∧ itemOffset < page.dataOffset

/-- An item whose `offset` is that of a row on the same page. -/
structure IsRowItem (page : PageDataHeader) (itemOffset : Int) : Prop where
  isItem : IsItem page itemOffset
  valid : (page.item itemOffset).valid = true
  redirect : (page.item itemOffset).redirect = false

/-- The layout invariant. -/
structure Layout (page : PageDataHeader) (room : Int → Nat) : Prop where
  items : ∃ k : Nat, page.dataOffset = itemOffsetOfIndex k
  ends : page.dataOffset ≤ page.dataEndOffset
  top : page.dataEndOffset ≤ pageMaxSize
  area : ∀ a, 0 < room a → page.dataEndOffset ≤ a ∧ a + room a ≤ pageMaxSize
  apart : ∀ a b, 0 < room a → 0 < room b → a ≠ b → a + room a ≤ b ∨ b + room b ≤ a
  stored : ∀ o, IsRowItem page o → ∃ r, StoredAt page.bytes (page.item o).offset r ∧
    r.size ≤ room (page.item o).offset
  distinct : ∀ o o', IsRowItem page o → IsRowItem page o' →
    (page.item o).offset = (page.item o').offset → o = o'

theorem RowColumnData.Fits.pos {r : RowColumnData} (h : r.Fits) : 0 < r.size := by
  rw [h.size_eq, rowColumnDataSize]; omega

theorem RowColumnData.Fits.le {r : RowColumnData} (h : r.Fits) : r.size ≤ 4040 := h.size_le

theorem StoredAt.fits {mem : Int → UInt8} {a : Int} {r : RowColumnData}
    (h : StoredAt mem a r) :
    r.Fits := h.1

/-- A page without items. -/
structure IsEmptyPage (page : PageDataHeader) : Prop where
  dataOffset : page.dataOffset = 40
  dataEndOffset : page.dataEndOffset = 4096
  item : ∀ o, (page.item o).valid = false

theorem isEmptyPage_initPage (pageNum : Nat) : IsEmptyPage (initPage pageNum) :=
  ⟨rfl, rfl, fun _ => rfl⟩

theorem itemOffsetOfIndex_eq (i : Nat) : itemOffsetOfIndex i = 40 + 16 * i := by
  rw [itemOffsetOfIndex, pageDataHeaderSize, itemSize]
  omega

theorem IsItem.lt {page : PageDataHeader} {o : Int} (h : IsItem page o) :
    40 ≤ o ∧ o < page.dataOffset := by
  obtain ⟨i, rfl, hlt⟩ := h
  rw [itemOffsetOfIndex_eq] at *
  omega

theorem IsEmptyPage.layout {page : PageDataHeader} (h : IsEmptyPage page) :
    Layout page fun _ => 0 where
  items := ⟨0, by rw [h.dataOffset, itemOffsetOfIndex_eq]; rfl⟩
  ends := by rw [h.dataOffset, h.dataEndOffset]; decide
  top := by rw [h.dataEndOffset]; decide
  area := by simp
  apart := by simp
  stored := fun o ho => absurd ho.valid (by simp [h.item])
  distinct := fun o _ ho => absurd ho.valid (by simp [h.item])

/-! ## Allocations -/

/-- Set `n` bytes aside right below the lowest row. -/
def allocate (page : PageDataHeader) (room : Int → Nat) (n : Nat) : Int → Nat :=
  Function.update room (page.dataEndOffset - n) n

@[simp] theorem allocate_new (page : PageDataHeader) (room : Int → Nat) (n : Nat) :
    allocate page room n (page.dataEndOffset - n) = n := Function.update_self ..

variable {page : PageDataHeader} {room : Int → Nat}

theorem Layout.allocate_old (h : Layout page room) {n : Nat} (hn : 0 < n) {a : Int}
    (ha : 0 < room a) : allocate page room n a = room a := by
  have := (h.area a ha).1
  exact Function.update_of_ne (by omega) ..

theorem allocate_cases {n : Nat} {a : Int} (ha : 0 < allocate page room n a) :
    a = page.dataEndOffset - n ∨ 0 < room a := by
  by_cases hnew : a = page.dataEndOffset - n
  · exact .inl hnew
  · rw [allocate, Function.update_of_ne hnew] at ha
    exact .inr ha

theorem Layout.allocate_area (h : Layout page room) {n : Nat} (hn : 0 < n) {a : Int}
    (ha : 0 < allocate page room n a) :
    page.dataEndOffset - n ≤ a ∧ a + allocate page room n a ≤ pageMaxSize := by
  have htop := h.top
  rcases allocate_cases ha with rfl | hold
  · rw [allocate_new]
    omega
  · rw [h.allocate_old hn hold]
    have := h.area a hold
    omega

theorem Layout.allocate_apart (h : Layout page room) {n : Nat} (hn : 0 < n) {a b : Int}
    (ha : 0 < allocate page room n a) (hb : 0 < allocate page room n b) (hab : a ≠ b) :
    a + allocate page room n a ≤ b ∨ b + allocate page room n b ≤ a := by
  rcases allocate_cases ha with rfl | ha
  · rcases allocate_cases hb with rfl | hb
    · exact absurd rfl hab
    · rw [allocate_new, h.allocate_old hn hb]
      have := (h.area b hb).1
      omega
  · rcases allocate_cases hb with rfl | hb
    · rw [allocate_new, h.allocate_old hn ha]
      have := (h.area a ha).1
      omega
    · rw [h.allocate_old hn ha, h.allocate_old hn hb]
      exact h.apart a b ha hb hab

theorem Layout.dataOffset_ge (h : Layout page room) : 40 ≤ page.dataOffset := by
  obtain ⟨k, hk⟩ := h.items
  rw [hk, itemOffsetOfIndex_eq]
  omega

theorem Layout.row (h : Layout page room) {o : Int} (ho : IsRowItem page o) :
    ∃ r, StoredAt page.bytes (page.item o).offset r ∧ r.size ≤ room (page.item o).offset ∧
      page.dataEndOffset ≤ (page.item o).offset ∧
        (page.item o).offset + r.size ≤ pageMaxSize := by
  obtain ⟨r, hstored, hroom⟩ := h.stored o ho
  have hpos := hstored.fits.pos
  have harea := h.area (page.item o).offset (by omega)
  exact ⟨r, hstored, hroom, harea.1, by omega⟩

/-! ## A new row -/

@[simp] theorem writeRowOnePage_dataOffset (page : PageDataHeader) (row : RowColumnData) :
    (writeRowOnePage page row).1.dataOffset = page.dataOffset + 16 := rfl

@[simp] theorem writeRowOnePage_dataEndOffset (page : PageDataHeader) (row : RowColumnData) :
    (writeRowOnePage page row).1.dataEndOffset = page.dataEndOffset - row.size := rfl

@[simp] theorem writeRowOnePage_bytes (page : PageDataHeader) (row : RowColumnData) :
    (writeRowOnePage page row).1.bytes
      = write page.bytes (page.dataEndOffset - row.size) row.toBytes := rfl

@[simp] theorem writeRowOnePage_pageno (page : PageDataHeader) (row : RowColumnData) :
    (writeRowOnePage page row).2.pageIndex.pageno = page.pageNum := rfl

@[simp] theorem writeRowOnePage_item_new (page : PageDataHeader) (row : RowColumnData) :
    (writeRowOnePage page row).1.item page.dataOffset
      = ⟨page.dataEndOffset - row.size, true, false, row.size⟩ := Function.update_self ..

theorem writeRowOnePage_item_of_ne (page : PageDataHeader) (row : RowColumnData) {o : Int}
    (h : o ≠ page.dataOffset) : (writeRowOnePage page row).1.item o = page.item o :=
  Function.update_of_ne h ..

theorem IsItem.writeRowOnePage_item {o : Int} (h : IsItem page o) (row : RowColumnData) :
    (writeRowOnePage page row).1.item o = page.item o :=
  writeRowOnePage_item_of_ne page row (by have := h.lt; omega)

/-- The position a new row gets names the item that was appended. -/
theorem Layout.itemOffset_new (h : Layout page room) (row : RowColumnData) :
    itemOffsetOfIndex (writeRowOnePage page row).2.itemIndex = page.dataOffset := by
  obtain ⟨k, hk⟩ := h.items
  have hdef : (writeRowOnePage page row).2.itemIndex
      = getCurItemIndex (page.dataOffset + itemSize) - 1 := rfl
  rw [itemOffsetOfIndex_eq] at hk
  rw [hdef, itemOffsetOfIndex_eq, getCurItemIndex, hk, pageDataHeaderSize, itemSize]
  omega

theorem Layout.isItem_writeRowOnePage (h : Layout page room) (row : RowColumnData) {o : Int} :
    IsItem (writeRowOnePage page row).1 o ↔ o = page.dataOffset ∨ IsItem page o := by
  obtain ⟨k, hk⟩ := h.items
  constructor
  · rintro ⟨i, rfl, hlt⟩
    rw [writeRowOnePage_dataOffset] at hlt
    by_cases hi : itemOffsetOfIndex i < page.dataOffset
    · exact .inr ⟨i, rfl, hi⟩
    · left
      rw [itemOffsetOfIndex_eq] at *
      omega
  · rintro (rfl | ⟨i, rfl, hlt⟩)
    · exact ⟨k, hk, by rw [writeRowOnePage_dataOffset]; omega⟩
    · exact ⟨i, rfl, by rw [writeRowOnePage_dataOffset]; omega⟩

theorem Layout.isRowItem_writeRowOnePage (h : Layout page room)
    (row : RowColumnData) {o : Int} :
    IsRowItem (writeRowOnePage page row).1 o ↔ o = page.dataOffset ∨ IsRowItem page o := by
  constructor
  · rintro ⟨hitem, hvalid, hredirect⟩
    rcases (h.isItem_writeRowOnePage row).mp hitem with hnew | hold
    · exact .inl hnew
    · rw [hold.writeRowOnePage_item] at hvalid hredirect
      exact .inr ⟨hold, hvalid, hredirect⟩
  · rintro (rfl | hold)
    · exact ⟨(h.isItem_writeRowOnePage row).mpr (.inl rfl), by simp, by simp⟩
    · refine ⟨(h.isItem_writeRowOnePage row).mpr (.inr hold.isItem), ?_, ?_⟩
      · rw [hold.isItem.writeRowOnePage_item]; exact hold.valid
      · rw [hold.isItem.writeRowOnePage_item]; exact hold.redirect

/-- Bytes at and above the old end stay. -/
theorem storedAt_writeRowOnePage {row r : RowColumnData} (hrow : row.Fits) {a : Int}
    (ha : page.dataEndOffset ≤ a) (hr : StoredAt page.bytes a r) :
    StoredAt (writeRowOnePage page row).1.bytes a r := by
  refine hr.write_of_disjoint (.inr ?_)
  rw [hrow.length]
  show page.dataEndOffset - row.size + row.size ≤ a
  omega

theorem storedAt_new (page : PageDataHeader) {row : RowColumnData} (hrow : row.Fits) :
    StoredAt (writeRowOnePage page row).1.bytes (page.dataEndOffset - row.size) row :=
  storedAt_write _ _ hrow

/-- A row that fits between the two ends keeps the layout. -/
theorem Layout.writeRowOnePage (h : Layout page room) {row : RowColumnData} (hrow : row.Fits)
    (hspace : page.dataOffset + 16 + row.size ≤ page.dataEndOffset) :
    Layout (writeRowOnePage page row).1 (allocate page room row.size) := by
  have hpos := hrow.pos
  have htop := h.top
  refine ⟨?_, ?_, ?_, fun a ha => h.allocate_area hpos ha,
    fun a b ha hb hab => h.allocate_apart hpos ha hb hab, ?_, ?_⟩
  · obtain ⟨k, hk⟩ := h.items
    refine ⟨k + 1, ?_⟩
    rw [itemOffsetOfIndex_eq] at *
    rw [writeRowOnePage_dataOffset]
    omega
  · rw [writeRowOnePage_dataOffset, writeRowOnePage_dataEndOffset]
    omega
  · rw [writeRowOnePage_dataEndOffset]
    omega
  · intro o ho
    rcases (h.isRowItem_writeRowOnePage row).mp ho with rfl | hold
    · rw [writeRowOnePage_item_new]
      exact ⟨row, storedAt_new page hrow, by simp⟩
    · obtain ⟨r, hr, hle, hend, -⟩ := h.row hold
      rw [hold.isItem.writeRowOnePage_item]
      refine ⟨r, storedAt_writeRowOnePage hrow hend hr, ?_⟩
      rw [h.allocate_old hpos (by have := hr.fits.pos; omega)]
      exact hle
  · have hnew : ∀ x, IsRowItem page x →
        (page.item x).offset ≠ page.dataEndOffset - row.size := by
      intro x hx
      obtain ⟨r, -, -, hend, -⟩ := h.row hx
      omega
    intro o o' ho ho' heq
    rcases (h.isRowItem_writeRowOnePage row).mp ho with rfl | hold
    · rcases (h.isRowItem_writeRowOnePage row).mp ho' with rfl | hold'
      · rfl
      · rw [writeRowOnePage_item_new, hold'.isItem.writeRowOnePage_item] at heq
        exact absurd heq.symm (hnew o' hold')
    · rcases (h.isRowItem_writeRowOnePage row).mp ho' with rfl | hold'
      · rw [writeRowOnePage_item_new, hold.isItem.writeRowOnePage_item] at heq
        exact absurd heq (hnew o hold)
      · rw [hold.isItem.writeRowOnePage_item, hold'.isItem.writeRowOnePage_item] at heq
        exact h.distinct o o' hold hold' heq

/-! ## A replaced row -/

theorem isRowItem_replaceRowData {row : RowColumnData} {a o : Int} :
    IsRowItem (replaceRowData page row a) o ↔ IsRowItem page o :=
  ⟨fun h => ⟨h.isItem, h.valid, h.redirect⟩, fun h => ⟨h.isItem, h.valid, h.redirect⟩⟩

theorem storedAt_replaceRowData (page : PageDataHeader)
    {row : RowColumnData} (hrow : row.Fits)
    (a : Int) : StoredAt (replaceRowData page row a).bytes a row :=
  storedAt_write _ _ hrow

/-- A row in another allocation stays. -/
theorem Layout.storedAt_replaceRowData_of_ne (h : Layout page room) {row r : RowColumnData}
    (hrow : row.Fits) {a b : Int} (ha : row.size ≤ room a)
    (hb : r.size ≤ room b) (hab : b ≠ a)
    (hr : StoredAt page.bytes b r) : StoredAt (replaceRowData page row a).bytes b r := by
  refine hr.write_of_disjoint ?_
  have := hrow.pos
  have := hr.fits.pos
  have := h.apart b a (by omega) (by omega) hab
  rw [hrow.length]
  omega

/-- A row that is no larger than the allocation at its address keeps the layout. -/
theorem Layout.replaceRowData (h : Layout page room) {row : RowColumnData} (hrow : row.Fits)
    {a : Int} (ha : row.size ≤ room a) : Layout (replaceRowData page row a) room := by
  refine ⟨h.items, h.ends, h.top, h.area, h.apart, ?_, ?_⟩
  · intro o ho
    obtain ⟨r, hr, hle⟩ := h.stored o (isRowItem_replaceRowData.mp ho)
    by_cases hoa : (page.item o).offset = a
    · refine ⟨row, ?_, hoa ▸ ha⟩
      rw [← hoa]
      exact storedAt_replaceRowData page hrow _
    · exact ⟨r, h.storedAt_replaceRowData_of_ne hrow ha hle hoa hr, hle⟩
  · intro o o' ho ho'
    exact h.distinct o o' (isRowItem_replaceRowData.mp ho) (isRowItem_replaceRowData.mp ho')

/-! ## A moved row -/

@[simp] theorem relocateRow_dataOffset (page : PageDataHeader) (o : Int) (row : RowColumnData)
    (rowSize : Nat) : (relocateRow page o row rowSize).dataOffset = page.dataOffset := rfl

@[simp] theorem relocateRow_dataEndOffset (page : PageDataHeader) (o : Int)
    (row : RowColumnData) (rowSize : Nat) :
    (relocateRow page o row rowSize).dataEndOffset = page.dataEndOffset - rowSize := rfl

@[simp] theorem relocateRow_item_self (page : PageDataHeader) (o : Int) (row : RowColumnData)
    (rowSize : Nat) : (relocateRow page o row rowSize).item o
      = { page.item o with offset := page.dataEndOffset - rowSize } := Function.update_self ..

theorem relocateRow_item_of_ne (page : PageDataHeader) {o o' : Int} (row : RowColumnData)
    (rowSize : Nat) (h : o' ≠ o) : (relocateRow page o row rowSize).item o' = page.item o' :=
  Function.update_of_ne h ..

theorem isRowItem_relocateRow {o o' : Int} {row : RowColumnData} {rowSize : Nat} :
    IsRowItem (relocateRow page o row rowSize) o' ↔ IsRowItem page o' := by
  have hflags : ((relocateRow page o row rowSize).item o').valid = (page.item o').valid ∧
      ((relocateRow page o row rowSize).item o').redirect = (page.item o').redirect := by
    by_cases ho : o' = o
    · subst ho
      rw [relocateRow_item_self]
      exact ⟨rfl, rfl⟩
    · rw [relocateRow_item_of_ne page row rowSize ho]
      exact ⟨rfl, rfl⟩
  constructor
  · rintro ⟨hitem, hvalid, hredirect⟩
    exact ⟨hitem, hflags.1 ▸ hvalid, hflags.2 ▸ hredirect⟩
  · rintro ⟨hitem, hvalid, hredirect⟩
    exact ⟨hitem, hflags.1.trans hvalid, hflags.2.trans hredirect⟩

theorem storedAt_relocateRow_new (page : PageDataHeader) (o : Int) {row : RowColumnData}
    (hrow : row.Fits) (rowSize : Nat) :
    StoredAt (relocateRow page o row rowSize).bytes (page.dataEndOffset - rowSize) row :=
  storedAt_write _ _ hrow

/-- Bytes at and above the old end stay. -/
theorem storedAt_relocateRow {o : Int} {row r : RowColumnData}
    {rowSize : Nat} (hrow : row.Fits)
    (hle : row.size ≤ rowSize) {a : Int} (ha : page.dataEndOffset ≤ a)
    (hr : StoredAt page.bytes a r) : StoredAt (relocateRow page o row rowSize).bytes a r := by
  refine hr.write_of_disjoint (.inr ?_)
  rw [hrow.length]
  show page.dataEndOffset - rowSize + row.size ≤ a
  omega

/-- A row that is moved to the free space keeps the layout. -/
theorem Layout.relocateRow (h : Layout page room) {row : RowColumnData} (hrow : row.Fits)
    {o : Int} {rowSize : Nat} (hle : row.size ≤ rowSize)
    (hspace : page.dataOffset + rowSize ≤ page.dataEndOffset) :
    Layout (relocateRow page o row rowSize) (allocate page room rowSize) := by
  have hpos : 0 < rowSize := Nat.lt_of_lt_of_le hrow.pos hle
  have htop := h.top
  refine ⟨h.items, ?_, ?_, fun a ha => h.allocate_area hpos ha,
    fun a b ha hb hab => h.allocate_apart hpos ha hb hab, ?_, ?_⟩
  · rw [relocateRow_dataOffset, relocateRow_dataEndOffset]
    omega
  · rw [relocateRow_dataEndOffset]
    omega
  · intro o' ho'
    have hold := isRowItem_relocateRow.mp ho'
    by_cases hoo : o' = o
    · subst hoo
      rw [relocateRow_item_self]
      exact ⟨row, storedAt_relocateRow_new page o' hrow rowSize, by simpa using hle⟩
    · obtain ⟨r, hr, hler, hend, -⟩ := h.row hold
      rw [relocateRow_item_of_ne page row rowSize hoo]
      refine ⟨r, storedAt_relocateRow hrow hle hend hr, ?_⟩
      rw [h.allocate_old hpos (by have := hr.fits.pos; omega)]
      exact hler
  · intro o₁ o₂ h₁ h₂ heq
    have hold₁ := isRowItem_relocateRow.mp h₁
    have hold₂ := isRowItem_relocateRow.mp h₂
    have hnew : ∀ x, IsRowItem page x →
        (page.item x).offset ≠ page.dataEndOffset - rowSize := by
      intro x hx
      obtain ⟨r, -, -, hend, -⟩ := h.row hx
      omega
    by_cases ho₁ : o₁ = o
    · by_cases ho₂ : o₂ = o
      · rw [ho₁, ho₂]
      · rw [ho₁, relocateRow_item_self, relocateRow_item_of_ne page row rowSize ho₂] at heq
        exact absurd heq.symm (hnew o₂ hold₂)
    · by_cases ho₂ : o₂ = o
      · rw [ho₂, relocateRow_item_self, relocateRow_item_of_ne page row rowSize ho₁] at heq
        exact absurd heq (hnew o₁ hold₁)
      · rw [relocateRow_item_of_ne page row rowSize ho₁,
          relocateRow_item_of_ne page row rowSize ho₂] at heq
        exact h.distinct o₁ o₂ hold₁ hold₂ heq

/-! ## A redirected row -/

/-- A redirect item points to no row of its page. -/
theorem isRowItem_redirectItem {o o' : Int} {rowPos : RowPosition} :
    IsRowItem (redirectItem page o rowPos) o' ↔ o' ≠ o ∧ IsRowItem page o' := by
  by_cases ho : o' = o
  · subst ho
    refine ⟨fun h => ?_, fun h => absurd rfl h.1⟩
    have := h.redirect
    simp [redirectItem] at this
  · have hitem : (redirectItem page o rowPos).item o' = page.item o' :=
      Function.update_of_ne ho ..
    constructor
    · rintro ⟨hitem', hvalid, hredirect⟩
      exact ⟨ho, hitem', hitem ▸ hvalid, hitem ▸ hredirect⟩
    · rintro ⟨-, hitem', hvalid, hredirect⟩
      exact ⟨hitem', by rw [hitem]; exact hvalid, by rw [hitem]; exact hredirect⟩

theorem Layout.redirectItem (h : Layout page room) (o : Int) (rowPos : RowPosition) :
    Layout (redirectItem page o rowPos) room := by
  have hitem : ∀ o', o' ≠ o → (Toadb.redirectItem page o rowPos).item o' = page.item o' :=
    fun o' ho => Function.update_of_ne ho ..
  refine ⟨h.items, h.ends, h.top, h.area, h.apart, ?_, ?_⟩
  · intro o' ho'
    obtain ⟨hne, hold⟩ := isRowItem_redirectItem.mp ho'
    rw [hitem o' hne]
    exact h.stored o' hold
  · intro o₁ o₂ h₁ h₂ heq
    obtain ⟨hne₁, hold₁⟩ := isRowItem_redirectItem.mp h₁
    obtain ⟨hne₂, hold₂⟩ := isRowItem_redirectItem.mp h₂
    rw [hitem o₁ hne₁, hitem o₂ hne₂] at heq
    exact h.distinct o₁ o₂ hold₁ hold₂ heq

end Toadb
