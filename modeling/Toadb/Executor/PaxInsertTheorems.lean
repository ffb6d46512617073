/-
Toadb.Executor.PaxInsertTheorems — when an insert ends, and what it does.

`PaxOk` is what holds of every table: the groups have a page for each column, no page twice,
with the same number of items on all pages of a group, and in the group file only the last
page has room for a group. With it

  * the search ends, with a group that has room or at the end of the groups
    (`getSpaceGroupPage_spec`);
  * a new group is among those the next search looks at (`PaxOk.addGroup`), so it finds one;
  * the row is appended to the pages of one group, at one index (`appendsRow_foldl`).

Two things go wrong (`paxExecInsert_ok_iff`). `HasFreeSpace` asks for more than the row and
its item take: a column that only just fits on an empty page has no space on any, and the
table is extended for ever. And the item of a group of more than 252 columns fits on no page
of the group file, which nobody checks.
-/
import Toadb.Executor.PaxInsert
import Toadb.Executor.SeqScanTheorems
import Toadb.Storage.LayoutTheorems
import Mathlib.Algebra.Order.BigOperators.Group.List
import Mathlib.Data.List.Pairwise

namespace Toadb

open Cursor (Returns)

/-! ## Appending a row -/

/-- Page `new` is page `old` with item `index` appended, which holds `row`. -/
structure Appends (old new : PageDataHeader) (row : RowColumnData) (index : Nat) : Prop where
  atEnd : old.dataOffset = itemOffsetOfIndex index
  dataOffset : new.dataOffset = itemOffsetOfIndex (index + 1)
  dataEndOffset : new.dataEndOffset = old.dataEndOffset - row.size
  space : new.dataOffset ≤ new.dataEndOffset
  item : new.item (itemOffsetOfIndex index) = ⟨new.dataEndOffset, true, false, row.size⟩
  stored : StoredAt new.bytes new.dataEndOffset row
  items : ∀ i < index, new.item (itemOffsetOfIndex i) = old.item (itemOffsetOfIndex i)
  bytes : ∀ a, old.dataEndOffset ≤ a → new.bytes a = old.bytes a
  pageType : new.pageType = old.pageType
  pageNum : new.pageNum = old.pageNum
  undoPage : new.undoPage = old.undoPage
  extPage : new.extPage = old.extPage

theorem appends_writeRowOnePage {page : PageDataHeader} {row : RowColumnData}
    {index : Nat} (hrow : row.Fits) (hindex : page.dataOffset = itemOffsetOfIndex index)
    (hspace : page.dataOffset + 16 + row.size ≤ page.dataEndOffset) :
    Appends page (writeRowOnePage page row).1 row index where
  atEnd := hindex
  dataOffset := by
    rw [writeRowOnePage_dataOffset, hindex, itemOffsetOfIndex_eq, itemOffsetOfIndex_eq]
    omega
  dataEndOffset := rfl
  space := by
    rw [writeRowOnePage_dataOffset, writeRowOnePage_dataEndOffset]
    omega
  item := by
    rw [← hindex]
    exact writeRowOnePage_item_new page row
  stored := storedAt_new page hrow
  items := fun i hi => by
    refine writeRowOnePage_item_of_ne page row ?_
    rw [hindex, itemOffsetOfIndex_eq, itemOffsetOfIndex_eq]
    omega
  bytes := fun a ha => by
    rw [writeRowOnePage_bytes]
    refine Bytes.write_of_outside (.inr ?_)
    rw [hrow.length]
    omega
  pageType := rfl
  pageNum := rfl
  undoPage := rfl
  extPage := rfl

/-- The new item is read back as the row. -/
theorem Appends.read {old new : PageDataHeader} {row : RowColumnData} {index : Nat}
    (h : Appends old new row index) :
    getRowDataFromPageByIndexEx new (itemOffsetOfIndex index) = some row := by
  have hpos : itemOffsetOfIndex index > 0 := by
    rw [itemOffsetOfIndex_eq]
    omega
  have hend : itemEndCheck new (itemOffsetOfIndex index) = false := by
    rw [itemEndCheck, h.dataOffset, itemOffsetOfIndex_eq, itemOffsetOfIndex_eq,
      decide_eq_false_iff_not]
    omega
  simp [getRowDataFromPageByIndexEx, rowOfItem, hpos, hend, h.item, h.stored.readRowData]

/-- File `f'` is file `f` with item `index` appended to each of the pages, which holds the
column of the row. -/
structure AppendsRow (curr : Nat) (f f' : TableFile) (pages : List Nat)
    (row : List NewRow) (index : Nat) :
    Prop where
  length : pages.length = row.length
  columns : ∀ col ∈ pages.zip row, ∃ old new,
    f.page col.1 = some old ∧ f'.page col.1 = some new ∧
    Appends old new (insertedRow curr col.2.1) index
  others : ∀ no, no ∉ pages → f'.page no = f.page no
  pageCnt : f'.pageCnt = f.pageCnt

variable {f : TableFile} {row : List NewRow} {pages : List Nat} {index : Nat}

theorem insertColumn_pageCnt (curr : Nat) (f : TableFile) (col : Nat × NewRow) :
    (insertColumn curr f col).pageCnt = f.pageCnt := by
  unfold insertColumn
  split <;> rfl

/-- The loop of `InsertRowDataWithGroup`. -/
theorem appendsRow_foldl (curr : Xtid) (hlen : pages.length = row.length)
    (hnodup : pages.Nodup) (hindex : ∀ no ∈ pages, ∀ page, f.page no = some page →
      page.dataOffset = itemOffsetOfIndex index)
    (hspace : freeSpaceCheck f (pages.zip row) = true) :
    AppendsRow curr f ((pages.zip row).foldl (insertColumn curr) f) pages row index := by
  induction pages generalizing f row with
  | nil =>
    cases row with
    | nil => exact ⟨rfl, by simp, fun _ _ => rfl, rfl⟩
    | cons => cases hlen
  | cons no pages ih =>
    cases row with
    | nil => cases hlen
    | cons col row =>
      rw [List.nodup_cons] at hnodup
      rw [List.zip_cons_cons] at hspace ⊢
      obtain ⟨page, hpage, hroom⟩ :=
        spaceFor_iff.mp (spaceFor_of_freeSpaceCheck hspace List.mem_cons_self)
      have hfirst : insertColumn curr f (no, col) =
          f.set no (writeRowOnePage page (insertedRow curr col.1)).1 := by
        rw [insertColumn, hpage]
      have hkeep : ∀ no', no' ≠ no → (insertColumn curr f (no, col)).page no' = f.page no' :=
        fun no' hno' => insertColumn_page_of_ne hno'
      have hne : ∀ no' ∈ pages, no' ≠ no := fun no' hno' heq => hnodup.1 (heq ▸ hno')
      have hrest : AppendsRow curr (insertColumn curr f (no, col))
          ((pages.zip row).foldl (insertColumn curr) (insertColumn curr f (no, col)))
            pages row index := by
        refine ih (Nat.succ.inj hlen) hnodup.2 (fun no' hno' p hp => ?_) ?_
        · rw [hkeep no' (hne no' hno')] at hp
          exact hindex no' (List.mem_cons_of_mem _ hno') p hp
        · refine List.all_eq_true.mpr fun c hc => ?_
          have hcheck := List.all_eq_true.mp hspace c (List.mem_cons_of_mem _ hc)
          rwa [← hkeep c.1 (hne c.1 (List.of_mem_zip hc).1)] at hcheck
      rw [List.foldl_cons]
      refine ⟨hlen, fun c hc => ?_, fun no' hno' => ?_,
        hrest.pageCnt.trans (insertColumn_pageCnt ..)⟩
      · rcases List.mem_cons.mp hc with rfl | hc
        · refine ⟨page, (writeRowOnePage page (insertedRow curr col.1)).1, hpage, ?_, ?_⟩
          · rw [hrest.others no hnodup.1, hfirst]
            exact set_page_self ..
          · exact appends_writeRowOnePage (insertedRow_fits (Xtid.lt curr) col)
              (hindex no List.mem_cons_self page hpage) hroom
        · obtain ⟨old, new, hold, hnew⟩ := hrest.columns c hc
          rw [hkeep c.1 (hne c.1 (List.of_mem_zip hc).1)] at hold
          exact ⟨old, new, hold, hnew⟩
      · rw [List.mem_cons, not_or] at hno'
        rw [hrest.others no' hno'.2, hkeep no' hno'.1]

/-! ## The space of a group -/

/-- A row has the columns of the table in their order. -/
def HasColumns (colNum : Nat) (row : List NewRow) : Prop :=
  row.map (·.1.attrindex) = List.range colNum

instance (colNum : Nat) (row : List NewRow) : Decidable (HasColumns colNum row) :=
  inferInstanceAs (Decidable (_ = _))

/-- Every page of the group has space for its column of the row. -/
def HasRoom (f : TableFile) (item : GroupItem) (row : List NewRow) : Prop :=
  freeSpaceCheck f (item.member.zip row) = true

instance (f : TableFile) (item : GroupItem)
    (row : List NewRow) : Decidable (HasRoom f item row) :=
  inferInstanceAs (Decidable (_ = true))

theorem HasColumns.length {colNum : Nat} (h : HasColumns colNum row) :
    row.length = colNum := by
  simpa using congrArg List.length h

/-- The columns from number `k` on. -/
theorem freeSpaceMemberPages_drop {rooms : Nat → Int → Nat} (hf : FileOk f rooms)
    (item : GroupItem) {k : Nat}
    (hcols : row.map (·.1.attrindex) = List.range' k row.length)
    (hlen : k + row.length = item.member.length) :
    freeSpaceMemberPages f item row =
      if freeSpaceCheck f ((item.member.drop k).zip row) then some (item.member.drop k)
        else none := by
  induction row generalizing k with
  | nil =>
    rw [List.drop_of_length_le (by simpa using hlen.ge)]
    rfl
  | cons col row ih =>
    rw [List.length_cons] at hlen
    rw [List.map_cons, List.length_cons, List.range'_succ, List.cons.injEq] at hcols
    have hk : k < item.member.length := by omega
    have hrest := ih (k := k + 1) hcols.2 (by omega)
    simp only [freeSpaceMemberPages] at hrest ⊢
    rw [List.mapM_cons, hrest, List.drop_eq_getElem_cons hk, List.zip_cons_cons,
      getFreeSpaceMemberPage, hcols.1,
      List.getElem?_eq_getElem hk, Option.bind_some, hf.getPageByIndex]
    cases hpage : f.page item.member[k] with
    | none => simp [freeSpaceCheck, hpage]
    | some page =>
      have hcheck :
          freeSpaceCheck f ((item.member[k], col) :: (item.member.drop (k + 1)).zip row) =
          (hasFreeSpace page (col.1.size + columnRowHeaderSize) &&
            freeSpaceCheck f ((item.member.drop (k + 1)).zip row)) := by
        simp only [freeSpaceCheck, List.all_cons, hpage]
      rw [hcheck]
      cases hroom : hasFreeSpace page (col.1.size + columnRowHeaderSize)
      · simp [hroom]
      · cases freeSpaceCheck f ((item.member.drop (k + 1)).zip row) <;> simp [hroom]

theorem freeSpaceMemberPages_eq {rooms : Nat → Int → Nat}
    (hf : FileOk f rooms) {item : GroupItem} (hcols : HasColumns item.member.length row) :
    freeSpaceMemberPages f item row = if HasRoom f item row then some item.member
      else none := by
  have hlen := hcols.length
  have hrange : row.map (·.1.attrindex) = List.range' 0 row.length := by
    rw [hcols, hlen, List.range_eq_range']
  have hdrop := freeSpaceMemberPages_drop hf item hrange (by omega)
  rwa [List.drop_zero] at hdrop

/-! ## Tables -/

/-- The groups of a table. -/
def PaxTable.groupList (t : PaxTable) : List GroupItem := t.groups.flatten.filter (·.valid)

/-- The bytes of a group item, with its data. -/
def PaxTable.groupItemSize (t : PaxTable) : Nat := itemSize + t.colNum * (8 + 8)

/-- What holds of every table. -/
structure PaxOk (t : PaxTable) : Prop where
  colNum : 0 < t.colNum
  file : ∃ rooms, FileOk t.file rooms
  /-- The head page is there. -/
  head : 0 < t.file.pageCnt
  columns : ∀ item ∈ t.groupList, item.member.length = t.colNum
  /-- The pages of a group have the same number of items. -/
  aligned : ∀ item ∈ t.groupList, ∃ count, ∀ no ∈ item.member, ∃ page,
    t.file.page no = some page ∧
    page.dataOffset = itemOffsetOfIndex count
  apart : (t.groupList.flatMap GroupItem.member).Nodup
  layout : ∀ items ∈ t.groups, groupDataOffset items ≤ groupDataEndOffset items
  /-- Only the last page of the group file has room for a group. -/
  full : ∀ items ∈ t.groups.dropLast, hasFreeGroupSpace items t.groupItemSize = false

/-- What an insert keeps for the next one is about the table. -/
structure InsertScanOk (t : PaxTable) (scanInfo : InsertScanInfo) : Prop where
  pages : t.colNum ≤ scanInfo.pageListNum
  search : SearchOk t.groups scanInfo.searchPage
  group : scanInfo.isNoSpace = false → scanInfo.groupItem ∈ t.groupList

variable {t : PaxTable} {scanInfo : InsertScanInfo}

/-! ## The search -/

/-- The groups an insert tries. -/
def triedGroups (t : PaxTable) (scanInfo : InsertScanInfo) : List GroupItem :=
  if scanInfo.isNoSpace then groupsAhead t.groups scanInfo.searchPage
  else scanInfo.groupItem :: groupsAhead t.groups scanInfo.searchPage

theorem groupsAhead_subset (t : PaxTable) (searchInfo : GroupSearch) :
    groupsAhead t.groups searchInfo ⊆ t.groupList := by
  intro item hitem
  rw [groupsAhead] at hitem
  cases hdrop : t.groups.drop (searchInfo.pageNum - firstGroupPage) with
  | nil =>
    rw [hdrop] at hitem
    cases hitem
  | cons items pages =>
    rw [hdrop, itemsAhead, List.mem_filter, List.mem_append] at hitem
    refine List.mem_filter.mpr ⟨?_, hitem.2⟩
    have hsub : ∀ items' ∈ items :: pages, items' ∈ t.groups :=
      hdrop ▸ fun _ => List.mem_of_mem_drop
    rcases hitem.1 with hfirst | hrest
    · exact List.mem_flatten.mpr ⟨items, hsub items List.mem_cons_self,
        List.mem_of_mem_drop hfirst⟩
    · obtain ⟨items', hitems', hmem⟩ := List.mem_flatten.mp hrest
      exact List.mem_flatten.mpr ⟨items', hsub items' (List.mem_cons_of_mem _ hitems'), hmem⟩

theorem InsertScanOk.triedGroups_subset (h : InsertScanOk t scanInfo) :
    triedGroups t scanInfo ⊆ t.groupList := by
  unfold triedGroups
  split
  · exact groupsAhead_subset t scanInfo.searchPage
  · rename_i hspace
    exact List.cons_subset.mpr ⟨h.group (by simpa using hspace),
      groupsAhead_subset t scanInfo.searchPage⟩

/-- What the search for space comes back with. -/
inductive SpaceSearch (t : PaxTable) (row : List NewRow) (tried : List GroupItem) :
    Option (List Nat) × InsertScanInfo → Prop
  | found {item : GroupItem} {scanInfo : InsertScanInfo} : item ∈ tried →
      HasRoom t.file item row →
      scanInfo.isNoSpace = false → scanInfo.groupItem = item →
        SpaceSearch t row tried (some item.member, scanInfo)
  | none {scanInfo : InsertScanInfo} (searchPage : GroupSearch) :
      (∀ item ∈ tried, ¬ HasRoom t.file item row) →
      scanInfo.isNoSpace = true → scanInfo.searchPage = lastSearch t.groups searchPage →
      SpaceSearch t row tried (none, scanInfo)

theorem SpaceSearch.cons {tried : List GroupItem} {item : GroupItem}
    {result : Option (List Nat) × InsertScanInfo}
    (h : SpaceSearch t row tried result) (hroom : ¬ HasRoom t.file item row) :
    SpaceSearch t row (item :: tried) result := by
  cases h with
  | found hitem hroom hspace hgroup =>
    exact .found (List.mem_cons_of_mem _ hitem) hroom hspace hgroup
  | none searchPage htried hspace hsearch =>
    exact .none searchPage (List.forall_mem_cons.mpr ⟨hroom, htried⟩) hspace hsearch

theorem PaxOk.freeSpaceMemberPages (hok : PaxOk t)
    (hcols : HasColumns t.colNum row) {item : GroupItem} (hitem : item ∈ t.groupList) :
    freeSpaceMemberPages t.file item row = if HasRoom t.file item row then some item.member
      else none := by
  obtain ⟨rooms, hf⟩ := hok.file
  exact freeSpaceMemberPages_eq hf (by rwa [hok.columns item hitem])

theorem PaxOk.row_ne_nil (hok : PaxOk t) (hcols : HasColumns t.colNum row) : row ≠ [] := by
  have hlen := hcols.length
  have hpos := hok.colNum
  rintro rfl
  rw [List.length_nil] at hlen
  omega

/-- The search with the next group at hand. -/
theorem getSpaceGroupPage_next (hok : PaxOk t) (hcols : HasColumns t.colNum row)
    {ahead : List GroupItem}
    (hscan : InsertScanOk t scanInfo) (hspace : scanInfo.isNoSpace = true)
    (hahead : groupsAhead t.groups scanInfo.searchPage = ahead) :
    ∃ rounds result, InsertScanOk t result.2 ∧ SpaceSearch t row ahead result ∧
      ∀ fuel, getSpaceGroupPage t row fuel scanInfo = if rounds < fuel then some result
        else none := by
  induction ahead generalizing scanInfo with
  | nil =>
    have hlast := getGroupInfo_none hscan.search hahead
    refine ⟨0,
      (none, { scanInfo with searchPage := lastSearch t.groups scanInfo.searchPage }),
      ⟨hscan.pages, ?_, ?_⟩,
      .none scanInfo.searchPage (by simp) hspace rfl, fun fuel => ?_⟩
    · exact ⟨Nat.le_add_right .., by simp only [lastSearch]; omega⟩
    · exact fun h => absurd h (by simp [hspace])
    · cases fuel with
      | zero => rfl
      | succ fuel => simp [getSpaceGroupPage, hspace, hlast, hok.row_ne_nil hcols]
  | cons item ahead ih =>
    obtain ⟨searchPage, hget, hsearch, hrest⟩ := getGroupInfo_some hscan.search hahead
    have hitem : item ∈ t.groupList :=
      groupsAhead_subset t scanInfo.searchPage (hahead ▸ List.mem_cons_self)
    have hpages := hok.freeSpaceMemberPages hcols hitem
    by_cases hroom : HasRoom t.file item row
    · rw [if_pos hroom] at hpages
      refine ⟨0, (some item.member, ⟨item, searchPage, scanInfo.pageListNum, false⟩),
        ⟨hscan.pages, hsearch, fun _ => hitem⟩,
          .found List.mem_cons_self hroom rfl rfl, fun fuel => ?_⟩
      cases fuel with
      | zero => rfl
      | succ fuel => simp [getSpaceGroupPage, hspace, hget, hpages]
    · rw [if_neg hroom] at hpages
      have hnext : InsertScanOk t ⟨item, searchPage, scanInfo.pageListNum, true⟩ :=
        ⟨hscan.pages, hsearch, fun h => absurd h (by simp)⟩
      obtain ⟨rounds, result, hresult, hsearched, hrounds⟩ := ih hnext rfl hrest
      refine ⟨rounds + 1, result, hresult, hsearched.cons hroom, fun fuel => ?_⟩
      cases fuel with
      | zero => rfl
      | succ fuel => simp [getSpaceGroupPage, hspace, hget, hpages, hrounds]

/-- `GetSpaceGroupPage`: it ends, with a group that has room or after all of them. -/
theorem getSpaceGroupPage_spec (hok : PaxOk t) (hcols : HasColumns t.colNum row)
    (hscan : InsertScanOk t scanInfo) :
    ∃ rounds result, InsertScanOk t result.2 ∧
      SpaceSearch t row (triedGroups t scanInfo) result ∧
      ∀ fuel, getSpaceGroupPage t row fuel scanInfo = if rounds < fuel then some result
        else none := by
  cases hspace : scanInfo.isNoSpace with
  | true =>
    rw [triedGroups, if_pos hspace]
    exact getSpaceGroupPage_next hok hcols hscan hspace rfl
  | false =>
    have hitem := hscan.group hspace
    have hpages := hok.freeSpaceMemberPages hcols hitem
    rw [triedGroups, if_neg (by simp [hspace])]
    by_cases hroom : HasRoom t.file scanInfo.groupItem row
    · rw [if_pos hroom] at hpages
      refine ⟨0, (some scanInfo.groupItem.member, scanInfo), hscan,
        .found List.mem_cons_self hroom hspace rfl,
        fun fuel => ?_⟩
      cases fuel with
      | zero => rfl
      | succ fuel => simp [getSpaceGroupPage, hspace, hpages]
    · rw [if_neg hroom] at hpages
      have hnext : InsertScanOk t { scanInfo with isNoSpace := true } :=
        ⟨hscan.pages, hscan.search, fun h => absurd h (by simp)⟩
      obtain ⟨rounds, result, hresult, hsearched, hrounds⟩ :=
        getSpaceGroupPage_next hok hcols hnext rfl rfl
      refine ⟨rounds + 1, result, hresult, hsearched.cons hroom, fun fuel => ?_⟩
      cases fuel with
      | zero => rfl
      | succ fuel => simp [getSpaceGroupPage, hspace, hpages, hrounds]

/-! ## A new group -/

/-- The pages of the next group. -/
def PaxTable.newPages (t : PaxTable) : List Nat := List.range' (t.file.pageCnt + 1) t.colNum

/-- The next group. -/
def PaxTable.newGroup (t : PaxTable) : GroupItem := ⟨true, t.groupId + 1, t.newPages⟩

/-- Table `t₁` is table `t` with one group more, whose pages are new. -/
structure AddsGroup (t t₁ : PaxTable) : Prop where
  colNum : t₁.colNum = t.colNum
  groups : t₁.groupList = t.groupList ++ [t.newGroup]
  fresh : ∀ no ∈ t.newPages, t.file.page no = none
  page : ∀ no, t₁.file.page no = if no ∈ t.newPages then some (initPage no)
    else t.file.page no

/-- The place of the next group item: page `last` of the group file, behind the pages
`before`. It may be new. -/
structure GroupPlace (t : PaxTable) (before : GroupFork) (last : List GroupItem) : Prop where
  groups : t.groups = before ++ [last] ∨ t.groups = before ∧ last = []
  full : ∀ items ∈ before, hasFreeGroupSpace items t.groupItemSize = false
  room : hasFreeGroupSpace last t.groupItemSize = true

/-- The table has a page for one more group item. -/
theorem PaxTable.getSpacePage_last (hsize : t.groupItemSize + 40 < 4096)
    (hfull : ∀ items ∈ t.groups.dropLast, hasFreeGroupSpace items t.groupItemSize = false) :
    ∃ before last, GroupPlace t before last ∧
      t.getSpacePage t.groupItemSize =
        some (before.length, { t with groups := before ++ [last] }) := by
  have hlt : ¬ t.groupItemSize + pageDataHeaderSize ≥ pageMaxSize := by
    rw [pageDataHeaderSize, pageMaxSize]
    omega
  have hempty : hasFreeGroupSpace [] t.groupItemSize = true := by
    simp [hasFreeGroupSpace, groupDataEndOffset, groupDataOffset,
      pageDataHeaderSize, pageMaxSize]
    omega
  rw [PaxTable.getSpacePage, if_neg hlt]
  rcases List.eq_nil_or_concat' t.groups with hnil | ⟨before, last, hgroups⟩
  · exact ⟨[], [], ⟨.inr ⟨hnil, rfl⟩, by simp, hempty⟩, by simp [hnil]⟩
  · rw [hgroups, List.dropLast_concat] at hfull
    have hbefore : before.findIdx? (hasFreeGroupSpace · t.groupItemSize) = none :=
      List.findIdx?_eq_none_iff.mpr hfull
    cases hlast : hasFreeGroupSpace last t.groupItemSize with
    | true =>
      have hfind : t.groups.findIdx? (hasFreeGroupSpace · t.groupItemSize) =
          some before.length := by
        simp [hgroups, hbefore, hlast]
      refine ⟨before, last, ⟨.inl hgroups, hfull, hlast⟩, ?_⟩
      rw [hfind, ← hgroups]
    | false =>
      refine ⟨t.groups, [], ⟨.inr ⟨rfl, rfl⟩, fun items hitems => ?_, hempty⟩, by
        simp [hgroups, hbefore, hlast]⟩
      rw [hgroups, List.mem_append, List.mem_singleton] at hitems
      rcases hitems with hitems | rfl
      · exact hfull items hitems
      · exact hlast

/-- The table with the next group. -/
def PaxTable.withGroup (t : PaxTable) (before : GroupFork)
    (last : List GroupItem) : PaxTable :=
  ⟨t.colNum, extensionTbl t.colNum t.file, before ++ [last ++ [t.newGroup]], t.groupId + 1⟩

variable {before : GroupFork} {last : List GroupItem}

theorem PaxOk.last_mem_newPages (hok : PaxOk t) : t.file.pageCnt + t.colNum ∈ t.newPages := by
  have hpos := hok.colNum
  simp only [PaxTable.newPages, List.mem_range'_1]
  omega

theorem PaxOk.groupMembers (hok : PaxOk t) :
    groupMembers (initPage (t.file.pageCnt + t.colNum)) t.colNum = some t.newPages := by
  have hhead := hok.head
  rw [Toadb.groupMembers, if_neg (by simp only [initPage, pageHeadPageNum]; omega),
    PaxTable.newPages]
  congr 2
  simp only [initPage]
  omega

/-- The extension of the table, and the group that is recorded for it. -/
theorem PaxOk.insertGroupItem (hok : PaxOk t) (hsize : t.groupItemSize + 40 < 4096) :
    ∃ before last, GroupPlace t before last ∧
      PaxTable.insertGroupItem { t with file := extensionTbl t.colNum t.file }
        (initPage (t.file.pageCnt + t.colNum)) = some (t.withGroup before last) := by
  -- The place is that of the table as it was: nothing but the group file is asked.
  obtain ⟨before, last, hplace, hspace⟩ := PaxTable.getSpacePage_last
    (t := ⟨t.colNum, extensionTbl t.colNum t.file, t.groups, t.groupId + 1⟩) hsize hok.full
  refine ⟨before, last, ⟨hplace.groups, hplace.full, hplace.room⟩, ?_⟩
  have hitem : itemSize + (⟨true, t.groupId + 1, t.newPages⟩ : GroupItem).size =
      t.groupItemSize := by
    simp [GroupItem.size, PaxTable.newPages, PaxTable.groupItemSize]
  simp only [PaxTable.insertGroupItem, hok.groupMembers, hitem]
  refine (congrArg _ hspace).trans ?_
  simp only [Option.map_some, PaxTable.withGroup,
    PaxTable.newGroup]
  rw [List.modify_eq_take_cons_drop (by simp)]
  simp

theorem itemsAhead_zero (pages : GroupFork) :
    itemsAhead pages 0 = pages.flatten.filter (·.valid) := by
  cases pages <;> rfl

theorem GroupPlace.flatten (h : GroupPlace t before last) :
    t.groups.flatten = before.flatten ++ last := by
  rcases h.groups with hgroups | ⟨hgroups, rfl⟩
  · simp [hgroups]
  · simp [hgroups]

theorem GroupPlace.groupList (h : GroupPlace t before last) :
    (t.withGroup before last).groupList = t.groupList ++ [t.newGroup] := by
  rw [PaxTable.groupList, PaxTable.groupList, h.flatten]
  simp [PaxTable.withGroup, PaxTable.newGroup]

theorem PaxOk.fresh (hok : PaxOk t) : ∀ no ∈ t.newPages, t.file.page no = none := by
  obtain ⟨rooms, hf⟩ := hok.file
  intro no hno
  simp only [PaxTable.newPages, List.mem_range'_1] at hno
  cases hpage : t.file.page no with
  | none => rfl
  | some page =>
    have := (hf.bound no page hpage).2
    omega

theorem PaxOk.addsGroup (hok : PaxOk t) (hplace : GroupPlace t before last) :
    AddsGroup t (t.withGroup before last) :=
  ⟨rfl, hplace.groupList, hok.fresh, fun no => extensionTbl_page t.colNum t.file no⟩

/-- A page of a group is a page of the table. -/
theorem PaxOk.member_page (hok : PaxOk t) {item : GroupItem}
    (hitem : item ∈ t.groupList) {no : Nat}
    (hno : no ∈ item.member) : ∃ page, t.file.page no = some page := by
  obtain ⟨count, hpages⟩ := hok.aligned item hitem
  obtain ⟨page, hpage, -⟩ := hpages no hno
  exact ⟨page, hpage⟩

theorem PaxOk.member_not_new (hok : PaxOk t) {item : GroupItem}
    (hitem : item ∈ t.groupList) {no : Nat} (hno : no ∈ item.member) : no ∉ t.newPages := by
  obtain ⟨page, hpage⟩ := hok.member_page hitem hno
  intro hnew
  rw [hok.fresh no hnew] at hpage
  cases hpage

/-- The table with one more group is a table. -/
theorem PaxOk.withGroup (hok : PaxOk t) (hplace : GroupPlace t before last) :
    PaxOk (t.withGroup before last) := by
  have hadds := hok.addsGroup hplace
  have hitems : ∀ item ∈ (t.withGroup before last).groupList,
      item ∈ t.groupList ∨ item = t.newGroup := by
    intro item hitem
    rw [hadds.groups, List.mem_append, List.mem_singleton] at hitem
    exact hitem
  refine ⟨hok.colNum, ?_, ?_, fun item hitem => ?_, fun item hitem => ?_, ?_,
    fun items hmem => ?_, ?_⟩
  · obtain ⟨rooms, hf⟩ := hok.file
    exact ⟨rooms, (hf.extensionTbl t.colNum).1⟩
  · have hhead := hok.head
    show 0 < (extensionTbl t.colNum t.file).pageCnt
    rw [extensionTbl_pageCnt]
    omega
  · rcases hitems item hitem with hold | rfl
    · exact hok.columns item hold
    · simp [PaxTable.newGroup, PaxTable.newPages, PaxTable.withGroup]
  · rcases hitems item hitem with hold | rfl
    · obtain ⟨count, hpages⟩ := hok.aligned item hold
      refine ⟨count, fun no hno => ?_⟩
      rw [hadds.page, if_neg (hok.member_not_new hold hno)]
      exact hpages no hno
    · refine ⟨0, fun no hno => ⟨initPage no, ?_, rfl⟩⟩
      have hno : no ∈ t.newPages := hno
      rw [hadds.page, if_pos hno]
  · rw [hadds.groups, List.flatMap_append, List.flatMap_singleton, List.nodup_append']
    refine ⟨hok.apart, List.nodup_range', fun no hold hnew => ?_⟩
    obtain ⟨item, hitem, hno⟩ := List.mem_flatMap.mp hold
    exact hok.member_not_new hitem hno hnew
  · have hroom := hplace.room
    have hlayout : ∀ items ∈ before, groupDataOffset items ≤ groupDataEndOffset items := by
      intro items hitems
      refine hok.layout items ?_
      rcases hplace.groups with hgroups | ⟨hgroups, -⟩ <;> simp [hgroups, hitems]
    rcases List.mem_append.mp hmem with hbefore | hlast
    · exact hlayout items hbefore
    · rw [List.mem_singleton.mp hlast]
      simp only [hasFreeGroupSpace, groupDataOffset, groupDataEndOffset] at hroom ⊢
      simp [PaxTable.newGroup, PaxTable.newPages, GroupItem.size, PaxTable.groupItemSize,
        itemSize] at hroom ⊢
      omega
  · show ∀ items ∈ (before ++ [last ++ [t.newGroup]]).dropLast,
        hasFreeGroupSpace items t.groupItemSize = false
    rw [List.dropLast_concat]
    exact hplace.full

/-- What an insert keeps stays good. -/
theorem InsertScanOk.withGroup (hscan : InsertScanOk t scanInfo)
    (hplace : GroupPlace t before last) :
    InsertScanOk (t.withGroup before last) scanInfo := by
  have hlen : t.groups.length ≤ before.length + 1 := by
    rcases hplace.groups with hgroups | ⟨hgroups, -⟩ <;> simp [hgroups]
  have hlast := hscan.search.last
  refine ⟨hscan.pages, ⟨hscan.search.first, ?_⟩, fun hspace => ?_⟩
  · simp only [PaxTable.withGroup, List.length_append, List.length_cons, List.length_nil]
    omega
  · rw [hplace.groupList]
    exact List.mem_append_left _ (hscan.group hspace)

/-- A search that was at the end has the new group before it. -/
theorem GroupPlace.newGroup_ahead (h : GroupPlace t before last) (searchPage : GroupSearch) :
    t.newGroup ∈ groupsAhead (t.withGroup before last).groups
      (lastSearch t.groups searchPage) := by
  have hle : firstGroupPage + (t.groups.length - 1) - firstGroupPage ≤ before.length := by
    rcases h.groups with hgroups | ⟨hgroups, -⟩ <;> simp [hgroups]
  rw [groupsAhead, lastSearch]
  simp only [Bool.false_eq_true, if_false]
  rw [itemsAhead_zero, PaxTable.withGroup, List.drop_append_of_le_length hle]
  simp [PaxTable.newGroup]

/-! ## The row in a group -/

/-- Table `t'` is table `t`, or `t` with one group more, with the row appended to the pages of
a group. When no group has room a group is added, and the row is in it. -/
def InsertsInto (curr : Nat) (t : PaxTable) (row : List NewRow) (t' : PaxTable)
    (item : GroupItem) : Prop :=
  ∃ t₁ index, (t₁ = t ∨ AddsGroup t t₁) ∧ t'.groups = t₁.groups ∧ item ∈ t₁.groupList ∧
    AppendsRow curr t₁.file t'.file item.member row index ∧
    ((∀ item' ∈ t.groupList, ¬ HasRoom t.file item' row) → AddsGroup t t₁ ∧ item = t.newGroup)

/-- The row is appended to the pages of one group. -/
def InsertsRow (curr : Nat) (t : PaxTable) (row : List NewRow) (t' : PaxTable) : Prop :=
  ∃ item, InsertsInto curr t row t' item

/-- The table with the row in a group. -/
def PaxTable.withRow (t : PaxTable) (curr : Nat) (item : GroupItem)
    (row : List NewRow) : PaxTable :=
  { t with file := (item.member.zip row).foldl (insertColumn curr) t.file }

variable {item : GroupItem}

theorem PaxOk.apart_of_ne (hok : PaxOk t) {item' : GroupItem} (hitem : item ∈ t.groupList)
    (hitem' : item' ∈ t.groupList)
    (hne : item' ≠ item) {no : Nat} (hno : no ∈ item'.member) : no ∉ item.member := by
  have hpairs := (List.nodup_flatMap.mp hok.apart).2
  have : Std.Symm (Function.onFun List.Disjoint GroupItem.member) := ⟨fun _ _ h => h.symm⟩
  exact fun hmem => hpairs.forall hitem' hitem hne hno hmem

theorem PaxOk.appendsRow (curr : Xtid) (hok : PaxOk t) (hcols : HasColumns t.colNum row)
    (hitem : item ∈ t.groupList) (hroom : HasRoom t.file item row) :
    ∃ index, AppendsRow curr t.file (t.withRow curr item row).file item.member row index := by
  obtain ⟨index, hpages⟩ := hok.aligned item hitem
  have hlen : item.member.length = row.length := by rw [hok.columns item hitem, hcols.length]
  refine ⟨index, appendsRow_foldl curr hlen
    ((List.nodup_flatMap.mp hok.apart).1 item hitem) ?_ hroom⟩
  intro no hno page hpage
  obtain ⟨page', hpage', hindex⟩ := hpages no hno
  rw [hpage, Option.some.injEq] at hpage'
  rwa [hpage']

/-- The table with the row is a table. -/
theorem PaxOk.withRow (curr : Xtid) (hok : PaxOk t) (hcols : HasColumns t.colNum row)
    (hitem : item ∈ t.groupList)
    (hroom : HasRoom t.file item row) : PaxOk (t.withRow curr item row) := by
  obtain ⟨index, happends⟩ := hok.appendsRow curr hcols hitem hroom
  obtain ⟨rooms, hf⟩ := hok.file
  refine ⟨hok.colNum, ?_, ?_, hok.columns, fun item' hitem' => ?_, hok.apart,
    hok.layout, hok.full⟩
  · have hfst : (item.member.zip row).map Prod.fst = item.member :=
      List.map_fst_zip happends.length.le
    have hnodup : ((item.member.zip row).map Prod.fst).Nodup :=
      hfst.symm ▸ (List.nodup_flatMap.mp hok.apart).1 item hitem
    have hstep := FileOk.stepInsert (Xtid.lt curr) hf hnodup fun col hcol =>
        spaceFor_of_freeSpaceCheck hroom hcol
    exact ⟨_, hstep.1.ok⟩
  · rw [happends.pageCnt]
    exact hok.head
  · by_cases hsame : item' = item
    · refine ⟨index + 1, fun no hno => ?_⟩
      rw [hsame] at hno
      obtain ⟨k, hk, rfl⟩ := List.getElem_of_mem hno
      have hkRow : k < row.length := happends.length ▸ hk
      have hcol : (item.member[k], row[k]) ∈ item.member.zip row := by
        rw [← List.getElem_zip (h := by simpa [← happends.length] using hk)]
        exact List.getElem_mem _
      obtain ⟨old, new, -, hnew, happend⟩ := happends.columns _ hcol
      exact ⟨new, hnew, happend.dataOffset⟩
    · obtain ⟨count, hpages⟩ := hok.aligned item' hitem'
      refine ⟨count, fun no hno => ?_⟩
      rw [happends.others no (hok.apart_of_ne hitem hitem' hsame hno)]
      exact hpages no hno

/-! ## The rounds of an insert -/

theorem PaxOk.lastpage (hok : PaxOk t) :
    getPageByIndex (extensionTbl t.colNum t.file) (t.file.pageCnt + t.colNum) =
      some (initPage (t.file.pageCnt + t.colNum)) := by
  have hpos := hok.colNum
  rw [getPageByIndex, if_neg (by rw [invalidPageNum]; omega), extensionTbl_page]
  exact if_pos hok.last_mem_newPages

variable {rounds : Nat} {scanInfo' : InsertScanInfo}

/-- A group with room was found. -/
theorem paxInsertRetry_found (curr : Xtid) (hroom : HasRoom t.file item row)
    (hspace : ∀ fuel, getSpaceGroupPage t row fuel scanInfo =
      if rounds < fuel then some (some item.member, scanInfo') else none) :
    Returns (fun fuel => paxInsertRetry curr row fuel t scanInfo)
      (.returns estatSucess (t.withRow curr item row) scanInfo') := by
  refine .of_succ (k := rounds + 1) fun fuel hfuel => ?_
  have hfuel := Nat.lt_of_succ_le hfuel
  have hcheck : freeSpaceCheck t.file (item.member.zip row) = true := hroom
  simp [paxInsertRetry, hspace, hfuel, insertRowDataWithGroup, hcheck, PaxTable.withRow]

/-- Without space the table is extended, and the insert starts again. -/
theorem paxInsertRetry_extends (hok : PaxOk t) (hle : t.colNum ≤ 252) (curr : Nat)
    (hspace : ∀ fuel, getSpaceGroupPage t row fuel scanInfo =
      if rounds < fuel then some (none, scanInfo') else none) :
    ∃ before last, GroupPlace t before last ∧ ∀ fuel,
      paxInsertRetry curr row (fuel + 1) t scanInfo =
      if rounds < fuel then paxInsertRetry curr row fuel (t.withGroup before last) scanInfo'
        else none := by
  have hpos := hok.colNum
  obtain ⟨before, last, hplace, hinsert⟩ := hok.insertGroupItem
    (by simp only [PaxTable.groupItemSize, itemSize]; omega)
  refine ⟨before, last, hplace, fun fuel => ?_⟩
  by_cases hfuel : rounds < fuel
  · have hnum : ¬ (t.colNum = 0 ∨ pageExtensionMaxNum < t.colNum) := by
      rw [pageExtensionMaxNum]
      omega
    simp [paxInsertRetry, hspace, hfuel, hnum, extensionTbl_pageCnt, hok.lastpage, hinsert]
  · simp [paxInsertRetry, hspace, hfuel]

/-! ## Rows that fit -/

/-- An empty page has 4056 free bytes, and the insert wants more than 24 besides those of a
column. -/
def ColumnsFit (row : List NewRow) : Prop := ∀ col ∈ row, col.1.size < 4032

instance (row : List NewRow) : Decidable (ColumnsFit row) :=
  inferInstanceAs (Decidable (∀ col ∈ row, _))

theorem AddsGroup.hasRoom {t₁ : PaxTable} (h : AddsGroup t t₁) (hfit : ColumnsFit row) :
    HasRoom t₁.file t.newGroup row := by
  refine List.all_eq_true.mpr fun col hcol => ?_
  obtain ⟨hno, hcol⟩ := List.of_mem_zip hcol
  have hno : col.1 ∈ t.newPages := hno
  have hpage : t₁.file.page col.1 = some (initPage col.1) := by rw [h.page, if_pos hno]
  have hsize := hfit col.2 hcol
  simp only [hpage, columnRowHeaderSize, itemSize]
  exact (isEmptyPage_initPage col.1).hasFreeSpace (by omega)

/-- A column that does not fit has no space on any page. -/
theorem PaxOk.not_hasRoom (hok : PaxOk t) (hcols : HasColumns t.colNum row)
    (hfit : ¬ ColumnsFit row) (hitem : item ∈ t.groupList) : ¬ HasRoom t.file item row := by
  obtain ⟨rooms, hf⟩ := hok.file
  simp only [ColumnsFit, not_forall, not_lt] at hfit
  obtain ⟨col, hcol, hsize⟩ := hfit
  obtain ⟨i, hi, rfl⟩ := List.getElem_of_mem hcol
  have hlen : i < item.member.length := by
    rw [hok.columns item hitem, ← hcols.length]; exact hi
  intro hroom
  have hcheck := List.all_eq_true.mp hroom (item.member[i], row[i]) (by
    rw [← List.getElem_zip (h := by simp [hlen, hi])]
    exact List.getElem_mem _)
  obtain ⟨page, hpage⟩ := hok.member_page hitem (List.getElem_mem hlen)
  have hlow := (hf.layout _ page hpage).dataOffset_ge
  have htop := (hf.layout _ page hpage).top
  simp only [hpage, hasFreeSpace, columnRowHeaderSize, itemSize] at hcheck
  have hcheck := of_decide_eq_true hcheck
  rw [pageMaxSize] at htop
  omega

/-- The insert of a row that fits: it returns, and the row is in the group that the search has
found. -/
theorem paxInsertRetry_inserts (curr : Xtid) (hok : PaxOk t) (hcols : HasColumns t.colNum row)
    (hscan : InsertScanOk t scanInfo) (hle : t.colNum ≤ 252) (hfit : ColumnsFit row) :
    ∃ t' scanInfo', Returns (fun fuel => paxInsertRetry curr row fuel t scanInfo)
        (.returns estatSucess t' scanInfo') ∧
      InsertsInto curr t row t' scanInfo'.groupItem ∧ PaxOk t' ∧
        InsertScanOk t' scanInfo' := by
  obtain ⟨rounds, result, hresult, hsearch, hspace⟩ := getSpaceGroupPage_spec hok hcols hscan
  have hsubset := hscan.triedGroups_subset
  cases hsearch with
  | @found item scanInfo' hitem hroom _ hgroup =>
    have hitem := hsubset hitem
    obtain ⟨index, happends⟩ := hok.appendsRow curr hcols hitem hroom
    refine ⟨_, _, paxInsertRetry_found curr hroom hspace, ?_,
      hok.withRow curr hcols hitem hroom,
      ⟨hresult.pages, hresult.search, hresult.group⟩⟩
    rw [hgroup]
    exact ⟨t, index, .inl rfl, rfl, hitem, happends,
      fun hnone => absurd hroom (hnone item hitem)⟩
  | @none scanInfo₁ searchPage htried hnospace hsearchPage =>
    obtain ⟨before, last, hplace, hextends⟩ := paxInsertRetry_extends hok hle curr hspace
    have hok₁ := hok.withGroup hplace
    have hadds := hok.addsGroup hplace
    have hscan₁ : InsertScanOk (t.withGroup before last) scanInfo₁ := hresult.withGroup hplace
    obtain ⟨rounds₁, result₁, hresult₁, hsearch₁, hspace₁⟩ :=
      getSpaceGroupPage_spec hok₁ hcols hscan₁
    have hsubset₁ := hscan₁.triedGroups_subset
    cases hsearch₁ with
    | @found item scanInfo' hitem hroom _ hgroup =>
      have hitem := hsubset₁ hitem
      obtain ⟨index, happends⟩ := hok₁.appendsRow curr hcols hitem hroom
      refine ⟨_, scanInfo', ?_, ?_, hok₁.withRow curr hcols hitem hroom,
        ⟨hresult₁.pages, hresult₁.search, hresult₁.group⟩⟩
      · obtain ⟨k, hk⟩ := paxInsertRetry_found curr hroom hspace₁
        refine .of_succ (k := max k (rounds + 1)) fun fuel hfuel => ?_
        rw [hextends, if_pos (by omega)]
        exact hk fuel (by omega)
      · rw [hgroup]
        refine ⟨_, index, .inr hadds, rfl, hitem, happends, fun hnone => ⟨hadds, ?_⟩⟩
        rw [hadds.groups, List.mem_append, List.mem_singleton] at hitem
        refine hitem.resolve_left fun hold => hnone item hold ?_
        -- The pages of an old group are as before.
        refine List.all_eq_true.mpr fun col hcol => ?_
        have hcheck := List.all_eq_true.mp hroom col hcol
        rwa [hadds.page, if_neg (hok.member_not_new hold (List.of_mem_zip hcol).1)] at hcheck
    | @none _ _ htried₁ _ _ =>
      -- The new group is ahead of the search, and its pages are empty.
      refine absurd (hadds.hasRoom hfit) (htried₁ t.newGroup ?_)
      rw [triedGroups, if_pos hnospace, hsearchPage]
      exact hplace.newGroup_ahead searchPage

/-! ## Rows and tables that do not fit -/

/-- The table is extended for ever. -/
theorem paxInsertRetry_eq_none (hok : PaxOk t) (hcols : HasColumns t.colNum row)
    (hscan : InsertScanOk t scanInfo)
    (hle : t.colNum ≤ 252) (hfit : ¬ ColumnsFit row) (curr fuel : Nat) :
    paxInsertRetry curr row fuel t scanInfo = none := by
  induction fuel generalizing t scanInfo with
  | zero => rfl
  | succ fuel ih =>
    obtain ⟨rounds, result, hresult, hsearch, hspace⟩ :=
      getSpaceGroupPage_spec hok hcols hscan
    have hsubset := hscan.triedGroups_subset
    cases hsearch with
    | found hitem hroom _ _ => exact absurd hroom (hok.not_hasRoom hcols hfit (hsubset hitem))
    | none searchPage _ _ _ =>
      obtain ⟨before, last, hplace, hextends⟩ := paxInsertRetry_extends hok hle curr hspace
      rw [hextends]
      split
      · exact ih (hok.withGroup hplace) hcols (hresult.withGroup hplace) hle
      · rfl

/-- A table of more than 252 columns has no group: the item of one fits on no page. -/
theorem PaxOk.groupList_nil (hok : PaxOk t) (hlt : 252 < t.colNum) : t.groupList = [] := by
  rw [List.eq_nil_iff_forall_not_mem]
  intro item hitem
  have hlen := hok.columns item hitem
  obtain ⟨hmem, -⟩ := List.mem_filter.mp hitem
  obtain ⟨items, hitems, hmem⟩ := List.mem_flatten.mp hmem
  have hlayout := hok.layout items hitems
  have hsum : item.size ≤ (items.map GroupItem.size).sum :=
    List.single_le_sum (by simp) _ (List.mem_map_of_mem hmem)
  have hone := List.length_pos_of_mem hmem
  simp only [groupDataOffset, groupDataEndOffset, pageDataHeaderSize, pageMaxSize,
    itemSize] at hlayout
  rw [GroupItem.size, hlen] at hsum
  omega

/-- In such a table the search finds nothing. -/
theorem PaxOk.no_space (hok : PaxOk t) (hcols : HasColumns t.colNum row)
    (hscan : InsertScanOk t scanInfo) (hlt : 252 < t.colNum) : ∃ rounds scanInfo', ∀ fuel,
      getSpaceGroupPage t row fuel scanInfo =
      if rounds < fuel then some (none, scanInfo') else none := by
  obtain ⟨rounds, result, -, hsearch, hspace⟩ := getSpaceGroupPage_spec hok hcols hscan
  have hsubset := hscan.triedGroups_subset
  rw [hok.groupList_nil hlt] at hsubset
  cases hsearch with
  | found hitem _ _ _ => cases hsubset hitem
  | @none scanInfo' _ _ _ _ => exact ⟨rounds, scanInfo', hspace⟩

/-- The group cannot be recorded, and the insert crashes. -/
theorem paxInsertRetry_crashes (hok : PaxOk t) (hcols : HasColumns t.colNum row)
    (hscan : InsertScanOk t scanInfo)
    (hlt : 252 < t.colNum) (hle : t.colNum ≤ 512) (curr : Nat) :
    Returns (fun fuel => paxInsertRetry curr row fuel t scanInfo) .crashes := by
  obtain ⟨rounds, scanInfo', hspace⟩ := hok.no_space hcols hscan hlt
  refine .of_succ (k := rounds + 1) fun fuel hfuel => ?_
  have hfuel := Nat.lt_of_succ_le hfuel
  have hnum : ¬ (t.colNum = 0 ∨ pageExtensionMaxNum < t.colNum) := by
    rw [pageExtensionMaxNum]
    omega
  have hlarge : itemSize + (⟨true, t.groupId + 1, t.newPages⟩ : GroupItem).size +
      pageDataHeaderSize ≥ pageMaxSize := by
    simp only [GroupItem.size, PaxTable.newPages, List.length_range', itemSize,
      pageDataHeaderSize, pageMaxSize]
    omega
  simp [paxInsertRetry, hspace, hfuel, hnum, extensionTbl_pageCnt, hok.lastpage,
    PaxTable.insertGroupItem,
    hok.groupMembers, PaxTable.getSpacePage, hlarge]

/-- The extension is refused. -/
theorem paxInsertRetry_refused (hok : PaxOk t) (hcols : HasColumns t.colNum row)
    (hscan : InsertScanOk t scanInfo) (hlt : 512 < t.colNum) (curr : Nat) :
    ∃ scanInfo', Returns (fun fuel => paxInsertRetry curr row fuel t scanInfo)
      (.returns (-1) t scanInfo') := by
  obtain ⟨rounds, scanInfo', hspace⟩ := hok.no_space hcols hscan (by omega)
  refine ⟨scanInfo', .of_succ (k := rounds + 1) fun fuel hfuel => ?_⟩
  have hfuel := Nat.lt_of_succ_le hfuel
  have hnum : t.colNum = 0 ∨ pageExtensionMaxNum < t.colNum := .inr hlt
  simp [paxInsertRetry, hspace, hfuel, hnum]

/-! ## The result -/

/-- The insert ends, and when it is a success the row is in one group. -/
def InsertOk (curr : Nat) (t : PaxTable) (scanInfo : InsertScanInfo)
    (row : List NewRow) : Prop :=
  ∃ ret t' scanInfo',
    Returns (fun fuel => paxExecInsert fuel curr t scanInfo row) (.returns ret t' scanInfo') ∧
    (0 ≤ ret → InsertsRow curr t row t')

theorem paxExecInsert_eq (hcols : HasColumns t.colNum row)
    (hscan : InsertScanOk t scanInfo) (fuel curr : Nat) :
    paxExecInsert fuel curr t scanInfo row = paxInsertRetry curr row fuel t scanInfo := by
  have hpages := hscan.pages
  rw [paxExecInsert, if_neg (by rw [hcols.length]; omega)]

/-- The insert ends, and a success puts the row into one group, in tables of at most 252
columns when each column of the row is smaller than 4032 bytes, and in those of more than 512
columns, where no insert is a success. -/
theorem paxExecInsert_ok_iff (hok : PaxOk t) (hcols : HasColumns t.colNum row)
    (hscan : InsertScanOk t scanInfo) (curr : Xtid) :
    InsertOk curr t scanInfo row ↔ t.colNum ≤ 252 ∧ ColumnsFit row ∨ 512 < t.colNum := by
  simp only [InsertOk, paxExecInsert_eq hcols hscan]
  by_cases hle : t.colNum ≤ 252
  · by_cases hfit : ColumnsFit row
    · refine iff_of_true ?_ (.inl ⟨hle, hfit⟩)
      obtain ⟨t', scanInfo', hreturns, hinserts, -⟩ :=
        paxInsertRetry_inserts curr hok hcols hscan hle hfit
      exact ⟨estatSucess, t', scanInfo', hreturns, fun _ => ⟨_, hinserts⟩⟩
    · refine iff_of_false ?_ fun h => h.elim (fun h => hfit h.2) (by omega)
      rintro ⟨ret, t', scanInfo', ⟨k, hk⟩, -⟩
      have hreturns := hk k le_rfl
      dsimp only at hreturns
      rw [paxInsertRetry_eq_none hok hcols hscan hle hfit] at hreturns
      cases hreturns
  · by_cases hlt : 512 < t.colNum
    · refine iff_of_true ?_ (.inr hlt)
      obtain ⟨scanInfo', hreturns⟩ := paxInsertRetry_refused hok hcols hscan hlt curr
      exact ⟨-1, t, scanInfo', hreturns, fun h => absurd h (by decide)⟩
    · refine iff_of_false ?_ (by omega)
      rintro ⟨ret, t', scanInfo', hreturns, -⟩
      have hcrashes := paxInsertRetry_crashes hok hcols hscan (by omega) (by omega) curr
      cases hreturns.unique hcrashes

/-- A table that was just created. -/
def PaxTable.created (colNum : Nat) : PaxTable :=
  ⟨colNum, extensionTbl 1 ⟨0, fun _ => none⟩, [], 0⟩

theorem paxOk_created {colNum : Nat} (hpos : 0 < colNum) : PaxOk (.created colNum) where
  colNum := hpos
  file := ⟨_, (fileOk_newPages 1).1⟩
  head := Nat.one_pos
  columns := fun _ hitem => nomatch hitem
  aligned := fun _ hitem => nomatch hitem
  apart := List.nodup_nil
  layout := fun _ hitems => nomatch hitems
  full := fun _ hitems => nomatch hitems

theorem insertScanOk_init {n : Nat} (h : t.colNum ≤ n) : InsertScanOk t (.init n) where
  pages := h
  search := ⟨le_rfl, by simp only [InsertScanInfo.init]; omega⟩
  group := fun h => absurd h (by simp [InsertScanInfo.init])

/-- A row of two large values. -/
def largeRow : List NewRow := [newColumn 0 7 2000, newColumn 1 7 2000]

/-- A table of two columns with one group, and one row in it. -/
def largeRowTable : PaxTable :=
  ((PaxTable.created 2).withGroup [] []).withRow 7 (PaxTable.created 2).newGroup largeRow

theorem largeRowTable_ok : PaxOk largeRowTable := by
  have hcreated : PaxOk (.created 2) := paxOk_created Nat.two_pos
  have hplace : GroupPlace (.created 2) [] [] := ⟨.inr ⟨rfl, rfl⟩, by simp, by decide⟩
  have hadds := hcreated.addsGroup hplace
  have hgroup : (PaxTable.created 2).newGroup ∈
      ((PaxTable.created 2).withGroup [] []).groupList := by
    rw [hplace.groupList]
    exact List.mem_append_right _ (List.mem_singleton.mpr rfl)
  exact (hcreated.withGroup hplace).withRow ⟨7, by decide⟩ (by decide) hgroup
    (hadds.hasRoom (by decide +kernel))

/-- No group has room for another such row, and the insert makes a new one. -/
theorem paxExecInsert_nextGroup :
    (∀ item ∈ largeRowTable.groupList, ¬ HasRoom largeRowTable.file item largeRow) ∧
      InsertOk (⟨7, by decide⟩ : Xtid) largeRowTable (.init 2) largeRow := by
  have hcols : HasColumns largeRowTable.colNum largeRow := by decide
  refine ⟨by decide +kernel,
    (paxExecInsert_ok_iff largeRowTable_ok hcols (insertScanOk_init le_rfl)
      ⟨7, by decide⟩).mpr ?_⟩
  exact .inl ⟨by decide, by decide +kernel⟩

/-- A value of 3984 bytes is a column of 4032. With its item it takes 4048 of the 4056 free
bytes of an empty page, and the insert does not end. -/
theorem paxExecInsert_largeValue :
    (newValue 3984).1.size + itemSize ≤ pageMaxSize - pageDataHeaderSize ∧
      PaxOk (.created 1) ∧ InsertScanOk (.created 1) (.init 1) ∧
        HasColumns 1 [newValue 3984] ∧
      ¬ InsertOk (⟨7, by decide⟩ : Xtid) (.created 1) (.init 1) [newValue 3984] := by
  have hok : PaxOk (.created 1) := paxOk_created Nat.one_pos
  have hscan : InsertScanOk (.created 1) (.init 1) := insertScanOk_init le_rfl
  have hcols : HasColumns (PaxTable.created 1).colNum [newValue 3984] := by decide
  have hlarge : ¬ ColumnsFit [newValue 3984] := by decide +kernel
  refine ⟨by decide +kernel, hok, hscan, hcols, ?_⟩
  rintro ⟨ret, t', scanInfo', ⟨k, hk⟩, -⟩
  have hreturns := hk k le_rfl
  dsimp only at hreturns
  rw [paxExecInsert_eq hcols hscan,
    paxInsertRetry_eq_none hok hcols hscan (by decide) hlarge] at hreturns
  cases hreturns

end Toadb
