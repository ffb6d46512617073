/-
Toadb.Storage.GroupStepTheorems — what the workers do to the pages of a group.

The columns of a row are items of one index on the pages of a group. For each item there are
values its row may have (`RowValue` says which), and every version of a row of the group has
one, on its page, on the undo pages and in the hands of the workers (`ColumnOk`, `HandOk`).

A writer may work from an old copy of an item. What it writes over is still space of that item
and of no other (`Owned`): new rows lie below all rows there ever were. So a step writes one
row of each page at most, to an item that is known (`PageWrite`, `ColumnsStep`).

An update has to leave the new version on its page (`UpdateStays`): a redirect item is no row
of the page.
-/
import Toadb.Storage.VersionTheorems

namespace Toadb

open Bytes Transition

variable {f f' : TableFile} {rooms : Nat → Int → Nat} {no : Nat} {o : Int}
  {p p' : PageDataHeader}
  {r : RowColumnData} {room : Int → Nat} {a : Int}

/-! ## Writes to a page -/

/-- No row item but `o` points to `a`, which lies among the rows of the page. -/
structure Owned (p : PageDataHeader) (o a : Int) : Prop where
  low : p.dataEndOffset ≤ a
  item : ∀ o', IsRowItem p o' → (p.item o').offset = a → o' = o

/-- What a step does to a page: nothing, or it writes a row to an item. -/
inductive PageWrite (room : Int → Nat)
    (p : PageDataHeader) : Option (Int × RowColumnData) → PageDataHeader → Prop
  | kept {p' : PageDataHeader} : SameRows p p' → PageWrite room p none p'
  | appended {row : RowColumnData} : row.Fits →
      p.dataOffset + 16 + row.size ≤ p.dataEndOffset →
      PageWrite room p (some (p.dataOffset, row)) (writeRowOnePage p row).1
  | replaced {o a : Int} {row : RowColumnData} : row.Fits → row.size ≤ room a → Owned p o a →
      PageWrite room p (some (o, row)) (replaceRowData p row a)
  | moved {o : Int} {row : RowColumnData} {size : Nat} : row.Fits → row.size ≤ size →
      p.dataOffset + size ≤ p.dataEndOffset →
        PageWrite room p (some (o, row)) (relocateRow p o row size)

variable {target : Option (Int × RowColumnData)}

theorem PageWrite.pageType (h : PageWrite room p target p') : p'.pageType = p.pageType := by
  cases h with
  | kept hsame => exact hsame.pageType
  | appended | replaced | moved => rfl

theorem PageWrite.isItem (h : PageWrite room p target p') (hl : Layout p room)
    (ho : IsItem p o) : IsItem p' o := by
  cases h with
  | kept hsame => exact hsame.isItem.mpr ho
  | @appended row => exact (hl.isItem_writeRowOnePage row).mpr (.inr ho)
  | replaced | moved => exact ho

/-- When all items of the page are row items, they stay so. -/
theorem PageWrite.rowItems (h : PageWrite room p target p') (hl : Layout p room)
    (hitems : ∀ o, IsItem p o → IsRowItem p o) (ho : IsItem p' o) : IsRowItem p' o := by
  cases h with
  | kept hsame => exact hsame.isRowItem.mpr (hitems o (hsame.isItem.mp ho))
  | @appended row =>
    refine (hl.isRowItem_writeRowOnePage row).mpr ?_
    exact ((hl.isItem_writeRowOnePage row).mp ho).imp_right (hitems o)
  | replaced => exact isRowItem_replaceRowData.mpr (hitems o ho)
  | moved => exact isRowItem_relocateRow.mpr (hitems o ho)

/-- A row of the page was there before, or it is the one written. -/
theorem PageWrite.rows (h : PageWrite room p target p') (hl : Layout p room)
    (ho : IsRowItem p' o) (hr : StoredAt p'.bytes (p'.item o).offset r) :
    (IsRowItem p o ∧ StoredAt p.bytes (p.item o).offset r) ∨ target = some (o, r) := by
  cases h with
  | kept hsame =>
    rw [hsame.bytes, hsame.item] at hr
    exact .inl ⟨hsame.isRowItem.mp ho, hr⟩
  | @appended row hrow _ =>
    rcases (hl.isRowItem_writeRowOnePage row).mp ho with rfl | hold
    · rw [writeRowOnePage_item_new] at hr
      rw [hr.unique (storedAt_new p hrow)]
      exact .inr rfl
    · obtain ⟨r', hr', -, hend, -⟩ := hl.row hold
      rw [hold.isItem.writeRowOnePage_item] at hr
      rw [hr.unique (storedAt_writeRowOnePage hrow hend hr')]
      exact .inl ⟨hold, hr'⟩
  | @replaced o' a row hrow hroom howned =>
    have hold := isRowItem_replaceRowData.mp ho
    obtain ⟨r', hr', hle⟩ := hl.stored o hold
    have hoff : ((replaceRowData p row a).item o).offset = (p.item o).offset := rfl
    rw [hoff] at hr
    by_cases hoa : (p.item o).offset = a
    · rw [hoa] at hr
      rw [hr.unique (storedAt_replaceRowData p hrow a), howned.item o hold hoa]
      exact .inr rfl
    · rw [hr.unique (hl.storedAt_replaceRowData_of_ne hrow hroom hle hoa hr')]
      exact .inl ⟨hold, hr'⟩
  | @moved o' row size hrow hle hspace =>
    have hold := isRowItem_relocateRow.mp ho
    by_cases hoo : o = o'
    · subst hoo
      rw [relocateRow_item_self] at hr
      rw [hr.unique (storedAt_relocateRow_new p o hrow size)]
      exact .inr rfl
    · obtain ⟨r', hr', -, hend, -⟩ := hl.row hold
      rw [relocateRow_item_of_ne p row size hoo] at hr
      rw [hr.unique (storedAt_relocateRow hrow hle hend hr')]
      exact .inl ⟨hold, hr'⟩

/-- Space that is owned stays owned: new rows lie below all others. -/
theorem PageWrite.owned (h : PageWrite room p target p') (hl : Layout p room)
    (ho : Owned p o a) : Owned p' o a := by
  obtain ⟨hlow, hitem⟩ := ho
  cases h with
  | kept hsame =>
    refine ⟨by rw [hsame.dataEndOffset]; exact hlow, fun o' ho' heq => ?_⟩
    rw [hsame.item] at heq
    exact hitem o' (hsame.isRowItem.mp ho') heq
  | @appended row hrow _ =>
    have hpos := hrow.pos
    refine ⟨by rw [writeRowOnePage_dataEndOffset]; omega, fun o' ho' heq => ?_⟩
    rcases (hl.isRowItem_writeRowOnePage row).mp ho' with rfl | hold
    · rw [writeRowOnePage_item_new] at heq
      dsimp only at heq
      omega
    · rw [hold.isItem.writeRowOnePage_item] at heq
      exact hitem o' hold heq
  | replaced => exact ⟨hlow, fun o' ho' heq => hitem o' (isRowItem_replaceRowData.mp ho') heq⟩
  | @moved o₁ row size hrow hle _ =>
    have hpos := hrow.pos
    refine ⟨by rw [relocateRow_dataEndOffset]; omega, fun o' ho' heq => ?_⟩
    by_cases hoo : o' = o₁
    · subst hoo
      rw [relocateRow_item_self] at heq
      dsimp only at heq
      omega
    · rw [relocateRow_item_of_ne p row size hoo] at heq
      exact hitem o' (isRowItem_relocateRow.mp ho') heq

/-- The space of a row item. -/
theorem Layout.owned (hl : Layout p room) (ho : IsRowItem p o) :
    Owned p o (p.item o).offset := by
  obtain ⟨r, -, -, hend, -⟩ := hl.row ho
  exact ⟨hend, fun o' ho' heq => hl.distinct o' o ho' ho heq⟩

/-! ## Values of a row -/

/-- The versions behind an undo position have values in `V`. -/
def OlderIn (f : TableFile) (V : List UInt8 → Prop) (pos : RowPosition) : Prop :=
  ∃ rs, UndoChain f pos rs ∧ ∀ v ∈ rs, V v.data

/-- A version and the versions behind it have values in `V`. -/
structure VersionsIn (f : TableFile) (V : List UInt8 → Prop) (r : RowColumnData) : Prop where
  data : V r.data
  older : OlderIn f V r.headerData.undo

/-- Item `o` of page `no`. -/
def ItemAt (f : TableFile) (no : Nat) (o : Int) : Prop :=
  ∃ page, f.page no = some page ∧ IsItem page o

/-- What is at `a` on page `no` is space of item `o`. -/
def OwnedAt (f : TableFile) (no : Nat) (o a : Int) : Prop :=
  ∃ page, f.page no = some page ∧ Owned page o a

variable {g : List Nat} {W X : Nat → Int → List UInt8 → Prop} {V V' : List UInt8 → Prop}

/-- A page of the group: all its items are row items, and their rows have values of theirs. -/
structure ColumnOk (f : TableFile) (W : Nat → Int → List UInt8 → Prop) (no : Nat) : Prop where
  page : ∃ page, f.page no = some page ∧ page.pageType = .data ∧ ∀ o,
    IsItem page o → IsRowItem page o
  versions : ∀ o r, RowAt f no o r → VersionsIn f (W no o) r

/-- A row copy, if it is from the group. -/
def FoundOk (g : List Nat) (f : TableFile) (W : Nat → Int → List UInt8 → Prop)
    (no : Nat) (o : Int) (r : RowColumnData) : Prop :=
  no ∈ g → ItemAt f no o ∧ VersionsIn f (W no o) r

/-- A row copy with its item copy, if it is from the group: what it is going to be written
over is space of its item. -/
def FetchedOk (g : List Nat) (f : TableFile) (W : Nat → Int → List UInt8 → Prop)
    (headItem : HeapItemData) (r : RowColumnData) : Prop :=
  headItem.pageno ∈ g →
    OwnedAt f headItem.pageno headItem.itemOffset headItem.itemData.offset ∧
    VersionsIn f (W headItem.pageno headItem.itemOffset) r

/-- The copy a worker is about to go on with. -/
def RowPhase.InHand (g : List Nat) (f : TableFile)
    (W : Nat → Int → List UInt8 → Prop) : RowPhase → Prop
  | .walk no o pos => no ∈ g → ItemAt f no o ∧ OlderIn f (W no o) pos
  | .update u _ => FetchedOk g f W u.headItem u.old
  | _ => True

/-- The copies of a worker. -/
structure HandOk (g : List Nat) (f : TableFile) (W : Nat → Int → List UInt8 → Prop)
    (k : RowWorker) : Prop where
  phase : k.phase.InHand g f W
  rows : ∀ row ∈ k.rows, FoundOk g f W row.pageno row.itemOffset row.old
  cols : ∀ col ∈ k.cols, FetchedOk g f W col.headItem col.old

/-- What a step does to the group: the chains stay, a row may get another value, and on each
page one row is written at most. -/
structure ColumnsStep (g : List Nat) (f : TableFile) (rooms : Nat → Int → Nat)
    (W : Nat → Int → List UInt8 → Prop) (f' : TableFile)
    (X : Nat → Int → List UInt8 → Prop) : Prop where
  chains : ∀ pos rs, UndoChain f pos rs → UndoChain f' pos rs
  values : ∀ no o d, W no o d → X no o d
  pages : ∀ no ∈ g, ∀ page, f.page no = some page → ∃ page' target, f'.page no = some page' ∧
    PageWrite (rooms no) page target page' ∧ ∀ o r, target = some (o, r) →
      VersionsIn f' (X no o) r

theorem ColumnsStep.olderIn (h : ColumnsStep g f rooms W f' X) {pos : RowPosition}
    (hold : OlderIn f (W no o) pos) : OlderIn f' (X no o) pos := by
  obtain ⟨rs, hchain, hvalues⟩ := hold
  exact ⟨rs, h.chains pos rs hchain, fun v hv => h.values no o v.data (hvalues v hv)⟩

theorem ColumnsStep.versionsIn (h : ColumnsStep g f rooms W f' X)
    (hr : VersionsIn f (W no o) r) :
    VersionsIn f' (X no o) r :=
  ⟨h.values no o r.data hr.data, h.olderIn hr.older⟩

theorem ColumnsStep.itemAt (h : ColumnsStep g f rooms W f' X)
    (hf : FileOk f rooms) (hno : no ∈ g) (hi : ItemAt f no o) : ItemAt f' no o := by
  obtain ⟨page, hpage, hitem⟩ := hi
  obtain ⟨page', target, hpage', hwrite, -⟩ := h.pages no hno page hpage
  exact ⟨page', hpage', hwrite.isItem (hf.layout no page hpage) hitem⟩

theorem ColumnsStep.ownedAt (h : ColumnsStep g f rooms W f' X)
    (hf : FileOk f rooms) (hno : no ∈ g) (ho : OwnedAt f no o a) : OwnedAt f' no o a := by
  obtain ⟨page, hpage, howned⟩ := ho
  obtain ⟨page', target, hpage', hwrite, -⟩ := h.pages no hno page hpage
  exact ⟨page', hpage', hwrite.owned (hf.layout no page hpage) howned⟩

theorem ColumnsStep.foundOk (h : ColumnsStep g f rooms W f' X) (hf : FileOk f rooms)
    (hr : FoundOk g f W no o r) : FoundOk g f' X no o r := by
  intro hno
  obtain ⟨hitem, hversions⟩ := hr hno
  exact ⟨h.itemAt hf hno hitem, h.versionsIn hversions⟩

theorem ColumnsStep.fetchedOk (h : ColumnsStep g f rooms W f' X) (hf : FileOk f rooms)
    {headItem : HeapItemData} (hr : FetchedOk g f W headItem r) :
    FetchedOk g f' X headItem r := by
  intro hno
  obtain ⟨howned, hversions⟩ := hr hno
  exact ⟨h.ownedAt hf hno howned, h.versionsIn hversions⟩

theorem ColumnsStep.handOk (h : ColumnsStep g f rooms W f' X)
    (hf : FileOk f rooms) {k : RowWorker} (hk : HandOk g f W k) : HandOk g f' X k := by
  refine ⟨?_, fun row hrow => h.foundOk hf (hk.rows row hrow),
    fun col hcol => h.fetchedOk hf (hk.cols col hcol)⟩
  have hphase := hk.phase
  cases hp : k.phase with
  | ready => trivial
  | walk no o pos =>
    rw [hp] at hphase
    intro hno
    obtain ⟨hitem, holder⟩ := hphase hno
    exact ⟨h.itemAt hf hno hitem, h.olderIn holder⟩
  | update u undono =>
    rw [hp] at hphase
    exact h.fetchedOk hf hphase
  | insertRest locked cols => trivial

theorem ColumnsStep.columnOk (h : ColumnsStep g f rooms W f' X)
    (hf : FileOk f rooms) (hno : no ∈ g) (hc : ColumnOk f W no) : ColumnOk f' X no := by
  obtain ⟨page, hpage, htype, hitems⟩ := hc.page
  obtain ⟨page', target, hpage', hwrite, hnew⟩ := h.pages no hno page hpage
  have hl := hf.layout no page hpage
  refine ⟨⟨page', hpage', hwrite.pageType.trans htype,
    fun o ho => hwrite.rowItems hl hitems ho⟩, fun o r hr => ?_⟩
  obtain ⟨hitem, hstored⟩ := hr.stored hpage'
  rcases hwrite.rows hl hitem hstored with ⟨hold, hstored'⟩ | htarget
  · exact h.versionsIn (hc.versions o r ⟨page, hpage, hold, hstored'⟩)
  · exact hnew o r htarget

/-! ## The pages an update writes -/

variable {page : PageDataHeader} {P : RowColumnData → Prop}

/-- A page with space is the page the search for it comes back with. -/
theorem FileOk.getSpaceSpecifyPage_here (hf : FileOk f rooms) (hpage : f.page no = some page)
    (htype : page.pageType = .data) {size : Nat} (hspace : hasFreeSpace page size = true) :
    getSpaceSpecifyPage f size no .data = (some no, f) := by
  have hl := hf.layout no page hpage
  have hlow := hl.dataOffset_ge
  have htop := hl.top
  have hlt := hspace
  rw [hasFreeSpace, decide_eq_true_eq] at hlt
  rw [pageMaxSize] at htop
  unfold getSpaceSpecifyPage
  rw [if_neg (by rw [pageDataHeaderSize, pageMaxSize]; omega), hf.getPageByIndex, hpage]
  dsimp only
  rw [if_neg (by decide), htype, if_neg (by simp), if_pos hspace]

/-- The page after a new version that stays on it. -/
def stayingPage (page : PageDataHeader) (u : ColumnUpdate)
    (row : RowColumnData) : PageDataHeader :=
  if row.size ≤ u.old.size then replaceRowData page row u.headItem.itemData.offset
  else relocateRow page u.headItem.itemOffset row (row.size + itemSize)

theorem FileOk.writeNewRow_stays (hf : FileOk f rooms) (hpage : f.page no = some page)
    (htype : page.pageType = .data) {u : ColumnUpdate} (hno : u.headItem.pageno = no)
    {row : RowColumnData} (hstays : StaysOnPage page u.old row) :
    Toadb.writeNewRow f u row = (true, f.set no (stayingPage page u row)) := by
  unfold Toadb.writeNewRow stayingPage
  rw [hno, hpage]
  dsimp only
  by_cases hsize : row.size ≤ u.old.size
  · rw [if_pos hsize, if_pos hsize]
  · have hspace := hstays.resolve_left hsize
    rw [if_neg hsize, if_neg hsize, hf.num no page hpage,
      hf.getSpaceSpecifyPage_here hpage htype hspace]
    dsimp only
    rw [hpage]
    dsimp only
    rw [if_pos rfl]

/-- Other data pages keep their rows. -/
theorem FileOk.writeNewRow_others (hf : FileOk f rooms) (hpage : f.page no = some page)
    {u : ColumnUpdate} (hno : u.headItem.pageno = no) (row : RowColumnData) {other : Nat}
    (hp : f.page other = some p) (hdata : p.pageType = .data) (hne : other ≠ no) :
    ∃ p', (Toadb.writeNewRow f u row).2.page other = some p' ∧ SameRows p p' := by
  unfold Toadb.writeNewRow
  rw [hno]
  simp only [hpage]
  split
  · exact ⟨p, by rw [set_page_of_ne f _ hne, hp], .refl p⟩
  · rw [hf.num no page hpage]
    split
    · rename_i f₁ hspace
      obtain rfl := getSpaceSpecifyPage_none hspace
      exact ⟨p, hp, .refl p⟩
    · rename_i newno f₁ hspace
      rcases hf.dataSpace hpage hspace with ⟨-, rfl, rfl⟩ | ⟨-, -, hfound⟩
      · simp only [hpage, if_true]
        exact ⟨p, by rw [set_page_of_ne _ _ hne, hp], .refl p⟩
      · obtain ⟨page₁, hpage₁, -⟩ := hfound.kept no page hpage
        obtain ⟨p₁, hp₁, hsame⟩ := hfound.kept other p hp
        obtain ⟨ext, hext, -, hexttype⟩ := hfound.found
        have hne' : other ≠ newno :=
          ne_of_pageType hp₁ hext (by simp [hsame.pageType, hdata, hexttype])
        simp only [hpage₁, hext]
        split
        · exact ⟨p₁, by rw [set_page_of_ne _ _ hne, hp₁], hsame⟩
        · exact ⟨p₁, by rw [set_page_of_ne _ _ hne, set_page_of_ne _ _ hne', hp₁], hsame⟩

theorem FileOk.updateLocked_others (hf : FileOk f rooms) (hpage : f.page no = some page)
    (htype : page.pageType = .data) {undono : Nat} {undoPage : PageDataHeader}
    (hundo : f.page undono = some undoPage)
    (hundotype : undoPage.pageType = .undo) {u : ColumnUpdate}
    (hno : u.headItem.pageno = no) {curr : Nat} (hold : u.old.Fits) (hcurr : curr < 2 ^ 64)
    (hspace : tupleUpdateSatisfy curr u.old.headerData = .ok →
      undoPage.dataOffset + 16 + u.old.size ≤ undoPage.dataEndOffset)
    {other : Nat} (hp : f.page other = some p) (hdata : p.pageType = .data)
    (hne : other ≠ no) :
    ∃ p', (Toadb.updateLocked curr u undono f).2.page other = some p' ∧ SameRows p p' := by
  unfold Toadb.updateLocked
  simp only [hundo]
  split
  · exact ⟨p, hp, .refl p⟩
  · rename_i htest
    have hnotUndo : ∀ no' page', f.page no' = some page' →
        page'.pageType = .data → no' ≠ undono :=
      fun _ _ hpage' htype' => ne_of_pageType hpage' hundo (by simp [htype', hundotype])
    have hcopy := hf.appendRow hundo (ColumnUpdate.undoRow_fits (u := u) hold hcurr)
        (hspace (not_not.mp htest))
    have hpage' : (f.set undono (writeRowOnePage undoPage (u.undoRow curr)).1).page no =
        some page := by
      rw [set_page_of_ne _ _ (hnotUndo no page hpage htype), hpage]
    have hp' : (f.set undono (writeRowOnePage undoPage (u.undoRow curr)).1).page other =
        some p := by
      rw [set_page_of_ne _ _ (hnotUndo other p hp hdata), hp]
    exact hcopy.1.writeNewRow_others hpage' hno _ hp' hdata hne

/-! ## What each section does to the group -/

/-- A step that keeps the rows of the group's pages. -/
theorem FileStep.columnsStep (h : FileStep f rooms f' P)
    (hvalues : ∀ no o d, W no o d → X no o d)
    (hkept : ∀ no ∈ g, ∀ page, f.page no = some page → ∃ page',
      f'.page no = some page' ∧ SameRows page page') :
    ColumnsStep g f rooms W f' X := by
  refine ⟨fun pos rs hchain => h.undoChain hchain, hvalues, fun no hno page hpage => ?_⟩
  obtain ⟨page', hpage', hsame⟩ := hkept no hno page hpage
  exact ⟨page', none, hpage', .kept hsame, nofun⟩

/-- The pages of the group have as many items as before. -/
def CountsKept (g : List Nat) (f f' : TableFile) : Prop :=
  ∀ no ∈ g, ∀ page page', f.page no = some page → f'.page no = some page' →
    page'.dataOffset = page.dataOffset

theorem countsKept_of_sameRows
    (h : ∀ no ∈ g, ∀ page, f.page no = some page → ∃ page',
      f'.page no = some page' ∧ SameRows page page') :
    CountsKept g f f' := by
  intro no hno page page' hpage hpage'
  obtain ⟨page'', hpage'', hsame⟩ := h no hno page hpage
  rw [hpage', Option.some.injEq] at hpage''
  rw [hpage'', hsame.dataOffset]

/-- The columns that are left to write are not of the group. -/
def RowPhase.NotInserting (g : List Nat) : RowPhase → Prop
  | .insertRest _ cols => ∀ col ∈ cols, col.1 ∉ g
  | _ => True

variable {n : Nat} {s t : TableSys n} {w : Fin n} {k : RowWorker}

/-- The pages of the group and the copies of the workers. -/
structure GroupOk (g : List Nat) (W : Nat → Int → List UInt8 → Prop)
    (s : TableSys n) : Prop where
  table : TableInv s
  columns : ∀ no ∈ g, ColumnOk s.file W no
  hands : ∀ w, HandOk g s.file W (s.workers w)

/-- What a step that inserts nothing into the group does. -/
structure GroupStep (g : List Nat) (W X : Nat → Int → List UInt8 → Prop)
    (s t : TableSys n) : Prop where
  columns : ColumnsStep g s.file s.rooms W t.file X
  counts : CountsKept g s.file t.file
  hands : ∀ w, HandOk g t.file X (t.workers w)
  phases : ∀ w, (t.workers w).phase = (s.workers w).phase ∨
    (s.workers w).phase.NotInserting g ∧ (t.workers w).phase.NotInserting g

theorem GroupOk.step (h : GroupOk g W s) (hstep : GroupStep g W X s t)
    (ht : TableInv t) : GroupOk g X t :=
  ⟨ht, fun no hno => hstep.columns.columnOk h.table.file hno (h.columns no hno), hstep.hands⟩

theorem GroupOk.hands_update (h : GroupOk g W s)
    (hcolumns : ColumnsStep g s.file s.rooms W t.file X)
    (hworkers : t.workers = Function.update s.workers w k) (hk : HandOk g t.file X k) :
    ∀ w, HandOk g t.file X (t.workers w) := by
  intro w'
  rw [hworkers]
  by_cases hw : w' = w
  · rw [hw, Function.update_self]
    exact hk
  · rw [Function.update_of_ne hw]
    exact hcolumns.handOk h.table.file (h.hands w')

/-- One worker does something. -/
theorem GroupOk.stepWorker (h : GroupOk g W s)
    (hcolumns : ColumnsStep g s.file s.rooms W t.file X)
    (hcounts : CountsKept g s.file t.file)
    (hworkers : t.workers = Function.update s.workers w k) (hk : HandOk g t.file X k)
    (hphase : k.phase = (s.workers w).phase ∨
      (s.workers w).phase.NotInserting g ∧ k.phase.NotInserting g) : GroupStep g W X s t := by
  refine ⟨hcolumns, hcounts, h.hands_update hcolumns hworkers hk, fun w' => ?_⟩
  rw [hworkers]
  by_cases hw : w' = w
  · rw [hw, Function.update_self]
    exact hphase
  · rw [Function.update_of_ne hw]
    exact .inl rfl

theorem ColumnsStep.refl (f : TableFile) : ColumnsStep g f rooms W f W :=
  ⟨fun _ _ hchain => hchain, fun _ _ _ hd => hd,
    fun _ _ page hpage => ⟨page, none, hpage, .kept (.refl page), nofun⟩⟩

theorem ColumnsStep.mono {X' : Nat → Int → List UInt8 → Prop}
    (h : ColumnsStep g f rooms W f' X)
    (hvalues : ∀ no o d, X no o d → X' no o d) : ColumnsStep g f rooms W f' X' := by
  refine ⟨h.chains, fun no o d hd => hvalues no o d (h.values no o d hd),
    fun no hno page hpage => ?_⟩
  obtain ⟨page', target, hpage', hwrite, hnew⟩ := h.pages no hno page hpage
  refine ⟨page', target, hpage', hwrite, fun o r htarget => ?_⟩
  obtain ⟨hdata, rs, hchain, hvs⟩ := hnew o r htarget
  exact ⟨hvalues no o _ hdata, rs, hchain, fun v hv => hvalues no o _ (hvs v hv)⟩

theorem CountsKept.refl (f : TableFile) : CountsKept g f f := by
  intro no _ page page' hpage hpage'
  rw [hpage, Option.some.injEq] at hpage'
  rw [hpage']

/-- A worker changes, the file does not. -/
theorem GroupOk.setWorker (h : GroupOk g W s) (hk : HandOk g s.file W k)
    (hphase : k.phase = (s.workers w).phase ∨
      (s.workers w).phase.NotInserting g ∧ k.phase.NotInserting g) :
      GroupStep g W W s (s.setWorker w k) := by
  exact h.stepWorker (.refl s.file) (.refl s.file) rfl hk hphase

/-- A worker changes, and the file does, but not the rows of the group. -/
theorem GroupOk.setFile (h : GroupOk g W s) (hfile : FileStep s.file s.rooms f P)
    (hkept : ∀ no ∈ g, ∀ page, s.file.page no = some page → ∃ page',
      f.page no = some page' ∧ SameRows page page')
    (hk : HandOk g s.file W k)
    (hphase : k.phase = (s.workers w).phase ∨
      (s.workers w).phase.NotInserting g ∧ k.phase.NotInserting g) :
    GroupStep g W W s ((s.setFile f).setWorker w k) := by
  have hcolumns : ColumnsStep g s.file s.rooms W f W :=
    hfile.columnsStep (fun _ _ _ hd => hd) hkept
  exact h.stepWorker hcolumns (countsKept_of_sameRows hkept) rfl
    (hcolumns.handOk h.table.file hk) hphase

theorem GroupOk.isDataPage (h : GroupOk g W s) (hno : no ∈ g) : IsDataPage s.file no := by
  obtain ⟨page, hpage, htype, -⟩ := (h.columns no hno).page
  exact ⟨page, hpage, htype⟩

/-! ## Fetching -/

theorem GroupOk.foundOk (h : GroupOk g W s) (hd : IsDataPage s.file no) {i : Nat}
    (hr : rowByIndex s.file no (itemOffsetOfIndex i) = some r) :
    FoundOk g s.file W no (itemOffsetOfIndex i) r := by
  intro hno
  have hat := h.table.file.rowAt_of_rowByIndex hd hr
  have hversions := (h.columns no hno).versions _ r hat
  obtain ⟨page, hpage, hitem, -⟩ := hat
  exact ⟨⟨page, hpage, hitem.isItem⟩, hversions⟩

theorem GroupOk.judge (h : GroupOk g W s) (hr : FoundOk g s.file W no o r)
    (hphase : (s.workers w).phase.NotInserting g) : GroupStep g W W s (judge s w no o r) := by
  have hk := h.hands w
  unfold Toadb.judge
  dsimp only
  split
  · refine h.setWorker ⟨trivial, fun row hrow => ?_, hk.cols⟩ (.inr ⟨hphase, trivial⟩)
    rcases List.mem_append.mp hrow with hold | hnew
    · exact hk.rows row hold
    · rw [List.mem_singleton.mp hnew]
      exact hr
  · refine h.setWorker ⟨fun hno => ?_, hk.rows, hk.cols⟩ (.inr ⟨hphase, trivial⟩)
    obtain ⟨hitem, hversions⟩ := hr hno
    exact ⟨hitem, hversions.older⟩

/-- Nothing is done. -/
theorem GroupOk.idle (h : GroupOk g W s) : GroupStep g W W s s :=
  ⟨.refl s.file, .refl s.file, h.hands, fun _ => .inl rfl⟩

theorem GroupOk.scanRow (h : GroupOk g W s) {index : Nat}
    (hready : (s.workers w).phase = .ready)
    (hstep : scanRow no index s w = some t) : GroupStep g W W s t := by
  unfold Toadb.scanRow at hstep
  split at hstep
  · rename_i hcond
    rw [Bool.and_eq_true, isDataPage_iff h.table.file] at hcond
    split at hstep
    · rename_i row hrow
      cases hstep
      exact h.judge (h.foundOk hcond.1 hrow) (by rw [hready]; trivial)
    · cases hstep
      exact h.idle
  · cases hstep

theorem GroupOk.walkVersion (h : GroupOk g W s) (hstep : walkVersion s w = some t) :
    GroupStep g W W s t := by
  have hk := h.hands w
  unfold Toadb.walkVersion at hstep
  split at hstep
  · rename_i no o pos hphase
    have hhand := hk.phase
    rw [hphase] at hhand
    have hwalking : (s.workers w).phase.NotInserting g := by rw [hphase]; trivial
    split at hstep
    · rename_i row hrow
      cases hstep
      refine h.judge (fun hno => ?_) hwalking
      obtain ⟨hitem, rs, hchain, hvalues⟩ := hhand hno
      cases hchain with
      | last hnone =>
        rw [readUndoVersion, getPageByIndex, if_pos hnone] at hrow
        cases hrow
      | @next _ v rs hv hrest =>
        rw [hv.2.readUndoVersion h.table.file, Option.some.injEq] at hrow
        subst hrow
        exact ⟨hitem, hvalues v List.mem_cons_self, rs, hrest,
          fun v' hv' => hvalues v' (List.mem_cons_of_mem _ hv')⟩
    · cases hstep
      exact h.setWorker ⟨trivial, by simp, hk.cols⟩ (.inr ⟨hwalking, trivial⟩)
  · cases hstep

theorem GroupOk.fetchRow (h : GroupOk g W s) {index : Nat}
    (hstep : fetchRow no index s w = some t) :
    GroupStep g W W s t := by
  have hk := h.hands w
  unfold Toadb.fetchRow at hstep
  split at hstep
  · rename_i hcond
    rw [Bool.and_eq_true, isDataPage_iff h.table.file] at hcond
    split at hstep
    · rename_i found hfound
      cases hstep
      refine h.setWorker ⟨hk.phase, fun row hrow => ?_, hk.cols⟩ (.inl rfl)
      rcases List.mem_append.mp hrow with hold | hnew
      · exact hk.rows row hold
      · rw [List.mem_singleton.mp hnew]
        exact h.foundOk hcond.1 hfound
    · cases hstep
      exact h.idle
  · cases hstep

theorem GroupOk.copyItem (h : GroupOk g W s) (hstep : copyItem s w = some t) :
    GroupStep g W W s t := by
  have hk := h.hands w
  unfold Toadb.copyItem at hstep
  dsimp only at hstep
  split at hstep
  · cases hstep
  · rename_i row rows hrows
    have hrow : ∀ row' ∈ row :: rows,
        FoundOk g s.file W row'.pageno row'.itemOffset row'.old :=
      fun row' hmem => hk.rows row' (hrows ▸ hmem)
    split at hstep
    · rename_i page hpage
      cases hstep
      refine h.setWorker ⟨hk.phase, fun row' hmem => hrow row' (List.mem_cons_of_mem _ hmem),
        fun col hcol => ?_⟩ (.inl rfl)
      rcases List.mem_append.mp hcol with hold | hnew
      · exact hk.cols col hold
      · rw [List.mem_singleton.mp hnew]
        intro hno
        obtain ⟨⟨page', hpage', hitem⟩, hversions⟩ := hrow row List.mem_cons_self hno
        obtain ⟨page'', hpage'', -, hitems⟩ := (h.columns row.pageno hno).page
        rw [hpage, Option.some.injEq] at hpage' hpage''
        subst hpage' hpage''
        exact ⟨⟨page, hpage, (h.table.file.layout _ page hpage).owned (hitems _ hitem)⟩,
          hversions⟩
    · cases hstep

/-! ## Writing -/

/-- An update of the group leaves the new version on its page. -/
def UpdateStays (g : List Nat) (s : TableSys n) (w : Fin n) (u : ColumnUpdate) : Prop :=
  u.headItem.pageno ∈ g → tupleUpdateSatisfy (s.workers w).curr u.old.headerData = .ok →
    ∀ page ∈ s.file.page u.headItem.pageno, StaysOnPage page u.old u.row

theorem GroupOk.findUndoPage (h : GroupOk g W s) {row : NewRow} {others : Nat}
    (hready : (s.workers w).phase = .ready) (hstep : findUndoPage row others s w = some t) :
    GroupStep g W W s t := by
  have hk := h.hands w
  have hquiet : (s.workers w).phase.NotInserting g := by rw [hready]; trivial
  unfold Toadb.findUndoPage at hstep
  dsimp only at hstep
  split at hstep
  · cases hstep
  · rename_i col cols hcols
    have hcol := hk.cols col (hcols ▸ List.mem_cons_self)
    have hrest : ∀ col' ∈ cols, FetchedOk g s.file W col'.headItem col'.old :=
      fun col' hcol' => hk.cols col' (hcols ▸ List.mem_cons_of_mem _ hcol')
    let u : ColumnUpdate := ⟨col.old, col.old.size + others, col.headItem, row.1⟩
    have hfile := (h.table.file.stepUndoSpace (P := fun _ => False) u).1
    have hkept : ∀ no ∈ g, ∀ page, s.file.page no = some page →
        ∃ page', (undoSpace u s.file).2.page no = some page' ∧ SameRows page page' :=
      fun no _ page hpage => h.table.file.undoSpace_kept u no page hpage
    split at hstep
    · split at hstep
      · rename_i f hspace
        rw [hspace] at hfile hkept
        cases hstep
        exact h.setFile hfile hkept ⟨hk.phase, hk.rows, by simp⟩ (.inl rfl)
      · rename_i undono f hspace
        rw [hspace] at hfile hkept
        cases hstep
        exact h.setFile hfile hkept ⟨hcol, hk.rows, hrest⟩ (.inr ⟨hquiet, trivial⟩)
    · cases hstep

theorem pageWrite_stayingPage {u : ColumnUpdate} {row : RowColumnData} (hrow : row.Fits)
    (hstays : StaysOnPage page u.old row)
    (hroom : row.size ≤ u.old.size → row.size ≤ room u.headItem.itemData.offset)
    (howned : Owned page u.headItem.itemOffset u.headItem.itemData.offset) :
    PageWrite room page (some (u.headItem.itemOffset, row)) (stayingPage page u row) := by
  unfold stayingPage
  by_cases hsize : row.size ≤ u.old.size
  · rw [if_pos hsize]
    exact .replaced hrow (hroom hsize) howned
  · have hspace := space_of_hasFreeSpace (hstays.resolve_left hsize)
    rw [if_neg hsize]
    refine .moved hrow (Nat.le_add_right ..) ?_
    rw [itemSize]
    omega

theorem stayingPage_dataOffset (page : PageDataHeader) (u : ColumnUpdate)
    (row : RowColumnData) :
    (stayingPage page u row).dataOffset = page.dataOffset := by
  unfold stayingPage
  split <;> rfl

variable {u : ColumnUpdate} {undono : Nat}

/-- An update of another page. -/
theorem GroupOk.update_elsewhere (h : GroupOk g W s)
    (hphase : (s.workers w).phase = .update u undono)
    (hfits : UpdateFits s w u undono) (hno : u.headItem.pageno ∉ g)
    (hvalues : ∀ no o d, W no o d → X no o d) :
    ColumnsStep g s.file s.rooms W (updateLocked (s.workers w).curr u undono s.file).2 X ∧
      CountsKept g s.file (updateLocked (s.workers w).curr u undono s.file).2 := by
  have hfile := h.table.updateStep hphase hfits
  have hok := (h.table.workers w).phase
  rw [hphase] at hok
  obtain ⟨hcopy, -, undoPage, hundo, hundotype⟩ := hok
  obtain ⟨page, hpage, htype⟩ := hcopy.page
  have hkept : ∀ no ∈ g, ∀ p, s.file.page no = some p → ∃ p',
      (updateLocked (s.workers w).curr u undono s.file).2.page no =
        some p' ∧ SameRows p p' := by
    intro no hin p hp
    obtain ⟨p', hp', hdata⟩ := h.isDataPage hin
    rw [hp, Option.some.injEq] at hp'
    subst hp'
    refine h.table.file.updateLocked_others hpage htype hundo hundotype rfl hcopy.fits
      (s.workers w).curr.lt
      (fun htest => ?_) hp hdata fun heq => hno (heq ▸ hin)
    exact (hfits htest).2.1.of_page hundo
  exact ⟨hfile.columnsStep hvalues hkept, countsKept_of_sameRows hkept⟩

/-- An update of a page of the group. -/
theorem GroupOk.update_here (h : GroupOk g W s)
    (hphase : (s.workers w).phase = .update u undono)
    (hfits : UpdateFits s w u undono) (hstays : UpdateStays g s w u)
    (htest : tupleUpdateSatisfy (s.workers w).curr u.old.headerData = .ok)
    (hno : u.headItem.pageno ∈ g) (hvalues : ∀ no o d, W no o d → X no o d)
    (hnew : (updateLocked (s.workers w).curr u undono s.file).1 = true →
      X u.headItem.pageno u.headItem.itemOffset u.row.data) :
    ∃ f', updateLocked (s.workers w).curr u undono s.file = (true, f') ∧
      ColumnsStep g s.file s.rooms W f' X ∧ CountsKept g s.file f' := by
  have hfile := h.table.updateStep hphase hfits
  have hok := (h.table.workers w).phase
  have hhand := (h.hands w).phase
  rw [hphase] at hok hhand
  obtain ⟨hcopy, hrow, undoPage, hundo, hundotype⟩ := hok
  obtain ⟨⟨page, hpage, howned⟩, hdata, rs, hchain, hvs⟩ := hhand hno
  obtain ⟨page', hpage', htype⟩ := hcopy.page
  rw [hpage, Option.some.injEq] at hpage'
  subst hpage'
  obtain ⟨hbound, hspace, hroom⟩ := hfits htest
  have hspace := hspace.of_page hundo
  have hnotUndo : ∀ no ∈ g, no ≠ undono := by
    intro no hin
    obtain ⟨p, hp, hptype⟩ := h.isDataPage hin
    exact ne_of_pageType hp hundo (by simp [hptype, hundotype])
  -- The copy on the undo page.
  have hcurr := (s.workers w).curr.lt
  obtain ⟨hok₁, hat, -⟩ :=
    h.table.file.appendRow hundo (ColumnUpdate.undoRow_fits (u := u) hcopy.fits hcurr) hspace
  have hrowfits := ColumnUpdate.newRow_fits (u := u) hrow hcurr
    (h.table.file.fits_newPosition hbound hundo (u.undoRow (s.workers w).curr))
  have hposno : (writeRowOnePage undoPage (u.undoRow (s.workers w).curr)).2.pageIndex.pageno =
      undono := by
    rw [writeRowOnePage_pageno, h.table.file.num _ _ hundo]
  generalize hcopied : writeRowOnePage undoPage (u.undoRow (s.workers w).curr) = copied at *
  have hkeep : ∀ no ∈ g, (s.file.set undono copied.1).page no = s.file.page no :=
    fun no hin => set_page_of_ne _ _ (hnotUndo no hin)
  have hstay : StaysOnPage page u.old (u.newRow (s.workers w).curr copied.2) :=
    hstays hno htest page hpage
  have hdone : updateLocked (s.workers w).curr u undono s.file =
      (true, (s.file.set undono copied.1).set
      u.headItem.pageno (stayingPage page u (u.newRow (s.workers w).curr copied.2))) := by
    rw [updateLocked, hundo]
    dsimp only
    rw [if_neg (not_not.mpr htest), hcopied]
    exact hok₁.writeNewRow_stays ((hkeep _ hno).trans hpage) htype rfl hstay
  rw [hdone] at hfile
  refine ⟨_, hdone, ⟨fun pos rs hc => hfile.undoChain hc, hvalues, fun no hin p hp => ?_⟩,
    fun no hin p p' hp hp' => ?_⟩
  · by_cases heq : no = u.headItem.pageno
    · subst heq
      rw [hpage, Option.some.injEq] at hp
      subst hp
      refine ⟨_, _, set_page_self .., pageWrite_stayingPage hrowfits hstay hroom howned, ?_⟩
      rintro o r ⟨⟩
      -- Behind the new version: the copy, and what was behind the old one.
      refine ⟨hnew (by rw [hdone]), u.undoRow (s.workers w).curr :: rs,
        .next ⟨⟨copied.1, ?_, ?_⟩, ?_⟩ (hfile.undoChain hchain), ?_⟩
      · show TableFile.page _ copied.2.pageIndex.pageno = _
        rw [hposno, set_page_of_ne _ _ (Ne.symm (hnotUndo _ hno)), set_page_self]
      · rw [← hcopied]
        exact hundotype
      · show RowAt _ copied.2.pageIndex.pageno _ _
        rw [hposno]
        exact hat.set_of_ne (Ne.symm (hnotUndo _ hno))
      · intro v hv
        rcases List.mem_cons.mp hv with rfl | hv
        · exact hvalues _ _ _ hdata
        · exact hvalues _ _ _ (hvs v hv)
    · exact ⟨p, none, by rw [set_page_of_ne _ _ heq, hkeep no hin, hp],
        .kept (.refl p), by simp⟩
  · by_cases heq : no = u.headItem.pageno
    · subst heq
      rw [hpage, Option.some.injEq] at hp
      rw [set_page_self, Option.some.injEq] at hp'
      rw [← hp', ← hp, stayingPage_dataOffset]
    · rw [set_page_of_ne _ _ heq, hkeep no hin, hp, Option.some.injEq] at hp'
      rw [hp']

/-- A delete writes the copy back over space of its item. -/
theorem GroupOk.delete_column (h : GroupOk g W s) {col : FetchedColumn}
    (hmem : col ∈ (s.workers w).cols) (hfits : DeleteFits s w col) :
    ColumnsStep g s.file s.rooms W (paxExecDelete (s.workers w).curr col s.file).2 W ∧
      CountsKept g s.file (paxExecDelete (s.workers w).curr col s.file).2 := by
  have hcopy := (h.table.workers w).cols col hmem
  have hcol := (h.hands w).cols col hmem
  obtain ⟨page, hpage, htype⟩ := hcopy.page
  have hfile := h.table.file.stepDelete hpage htype hcopy.fits (s.workers w).curr.lt hfits
  unfold paxExecDelete at hfile ⊢
  rw [h.table.file.getPageByIndex, hpage] at hfile ⊢
  dsimp only at hfile ⊢
  split
  · exact ⟨.refl _, .refl _⟩
  · rename_i htest
    rw [if_neg htest] at hfile
    have hdeleted := deletedRow_fits hcopy.fits (s.workers w).curr.lt
    refine ⟨⟨fun pos rs hc => hfile.undoChain hc, fun _ _ _ hd => hd, fun no hin p hp => ?_⟩,
      fun no hin p p' hp hp' => ?_⟩
    · by_cases heq : no = col.headItem.pageno
      · subst heq
        obtain ⟨⟨page', hpage', howned⟩, hdata, rs, hchain, hvs⟩ := hcol hin
        rw [hpage, Option.some.injEq] at hp hpage'
        subst hp hpage'
        refine ⟨_, some (col.headItem.itemOffset, deletedRow (s.workers w).curr col.old),
          set_page_self ..,
          .replaced hdeleted (hfits (not_not.mp htest)) howned, ?_⟩
        rintro o r ⟨⟩
        exact ⟨hdata, rs, hfile.undoChain hchain, hvs⟩
      · exact ⟨p, none, by rw [set_page_of_ne _ _ heq, hp], .kept (.refl p), nofun⟩
    · by_cases heq : no = col.headItem.pageno
      · subst heq
        rw [hpage, Option.some.injEq] at hp
        rw [set_page_self, Option.some.injEq] at hp'
        rw [← hp', ← hp]
        rfl
      · rw [set_page_of_ne _ _ heq, hp, Option.some.injEq] at hp'
        rw [hp']

theorem GroupOk.deleteRow (h : GroupOk g W s) (hroom : StepRoom s (w, .delete))
    (hstep : deleteRow s w = some t) : GroupStep g W W s t := by
  have hk := h.hands w
  unfold Toadb.deleteRow at hstep
  dsimp only at hstep
  split at hstep
  · cases hstep
  · rename_i col cols hcols
    have hfits : DeleteFits s w col := by simpa [StepRoom, hcols] using hroom
    obtain ⟨hcolumns, hcounts⟩ := h.delete_column (hcols ▸ List.mem_cons_self) hfits
    have hrest : ∀ col' ∈ cols, FetchedOk g s.file W col'.headItem col'.old :=
      fun col' hcol' => hk.cols col' (hcols ▸ List.mem_cons_of_mem _ hcol')
    split at hstep
    · split at hstep
      · rename_i f hdone
        rw [hdone] at hcolumns hcounts
        cases hstep
        exact h.stepWorker hcolumns hcounts rfl
          (hcolumns.handOk h.table.file ⟨hk.phase, hk.rows, by simp⟩) (.inl rfl)
      · rename_i f hdone
        rw [hdone] at hcolumns hcounts
        cases hstep
        exact h.stepWorker hcolumns hcounts rfl
          (hcolumns.handOk h.table.file ⟨hk.phase, hk.rows, hrest⟩) (.inl rfl)
    · cases hstep

/-- An update that is refused writes nothing. -/
theorem updateLocked_refused {curr : Nat}
    (h : tupleUpdateSatisfy curr u.old.headerData ≠ .ok) :
    updateLocked curr u undono f = (false, f) := by
  rw [updateLocked]
  split
  · rfl
  · rw [if_pos h]

theorem GroupOk.update_columns (h : GroupOk g W s)
    (hphase : (s.workers w).phase = .update u undono)
    (hfits : UpdateFits s w u undono) (hstays : UpdateStays g s w u)
    (hvalues : ∀ no o d, W no o d → X no o d)
    (hnew : (updateLocked (s.workers w).curr u undono s.file).1 = true →
      ∀ d, W u.headItem.pageno u.headItem.itemOffset d →
        X u.headItem.pageno u.headItem.itemOffset u.row.data) :
    ColumnsStep g s.file s.rooms W (updateLocked (s.workers w).curr u undono s.file).2 X ∧
      CountsKept g s.file (updateLocked (s.workers w).curr u undono s.file).2 := by
  have hhand := (h.hands w).phase
  rw [hphase] at hhand
  by_cases hno : u.headItem.pageno ∈ g
  · by_cases htest : tupleUpdateSatisfy (s.workers w).curr u.old.headerData = .ok
    · obtain ⟨f', hdone, hcolumns⟩ := h.update_here hphase hfits hstays htest hno hvalues
        fun hdone => hnew hdone _ (hhand hno).2.data
      rw [hdone]
      exact hcolumns
    · rw [updateLocked_refused htest]
      exact ⟨(ColumnsStep.refl s.file).mono hvalues, .refl s.file⟩
  · exact h.update_elsewhere hphase hfits hno hvalues

theorem GroupOk.updateRows (h : GroupOk g W s) (hroom : StepRoom s (w, .update))
    (hstays : ∀ u undono, (s.workers w).phase = .update u undono → UpdateStays g s w u)
    (hvalues : ∀ no o d, W no o d → X no o d)
    (hnew : ∀ no o d, W no o d → ∀ v ∈ t.written no o, X no o v.data)
    (hstep : updateRows s w = some t) : GroupStep g W X s t := by
  have hk := h.hands w
  unfold Toadb.updateRows at hstep
  dsimp only at hstep
  split at hstep
  · rename_i u undono hphase
    have hfits : UpdateFits s w u undono := by simpa [StepRoom, hphase] using hroom
    have hquiet : (s.workers w).phase.NotInserting g := by rw [hphase]; trivial
    have hcolumns := fun hvalue =>
        h.update_columns (X := X) hphase hfits (hstays u undono hphase) hvalues hvalue
    split at hstep
    · split at hstep
      · rename_i f hdone
        rw [hdone] at hcolumns
        cases hstep
        have hrefused : ¬ (false = true) := Bool.false_ne_true
        obtain ⟨hcolumns, hcounts⟩ := hcolumns fun hdone => absurd hdone hrefused
        exact h.stepWorker hcolumns hcounts rfl
          (hcolumns.handOk h.table.file ⟨trivial, hk.rows, by simp⟩) (.inr ⟨hquiet, trivial⟩)
      · rename_i f hdone
        rw [hdone] at hcolumns
        cases hstep
        obtain ⟨hcolumns, hcounts⟩ := hcolumns fun _ d hd =>
          hnew _ _ d hd ⟨(s.workers w).curr, u.row.data⟩ (by simp [TableSys.writeVersion])
        exact h.stepWorker hcolumns hcounts rfl
          (hcolumns.handOk h.table.file ⟨trivial, hk.rows, hk.cols⟩) (.inr ⟨hquiet, trivial⟩)
    · cases hstep
  · cases hstep

end Toadb
