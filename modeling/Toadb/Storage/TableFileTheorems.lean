/-
Toadb.Storage.TableFileTheorems — the layout of all pages of a table, and
what the search for space does to them.

`FileOk` gives every page its layout. `RowsKept` is the frame of the search:
pages are added and chain heads change, and every row stays where it was.
`getSpace_spec` says what page the search comes back with.
-/
import Toadb.Storage.PageTheorems
import Toadb.Storage.TableFile

namespace Toadb

open Bytes

/-! ## Pages that hold the same rows -/

/-- The two pages differ in their chain heads at most. -/
structure SameRows (page page' : PageDataHeader) : Prop where
  pageType : page'.pageType = page.pageType
  pageNum : page'.pageNum = page.pageNum
  dataOffset : page'.dataOffset = page.dataOffset
  dataEndOffset : page'.dataEndOffset = page.dataEndOffset
  item : page'.item = page.item
  bytes : page'.bytes = page.bytes

theorem SameRows.refl (page : PageDataHeader) : SameRows page page :=
  ⟨rfl, rfl, rfl, rfl, rfl, rfl⟩

theorem SameRows.setChain (page : PageDataHeader) (pageType : PageType) (no : Nat) :
    SameRows page (page.setChain pageType no) := by
  unfold PageDataHeader.setChain
  split <;> exact ⟨rfl, rfl, rfl, rfl, rfl, rfl⟩

theorem SameRows.trans {p q r : PageDataHeader} (h : SameRows p q) (h' : SameRows q r) :
    SameRows p r :=
  ⟨h'.pageType.trans h.pageType, h'.pageNum.trans h.pageNum, h'.dataOffset.trans h.dataOffset,
    h'.dataEndOffset.trans h.dataEndOffset, h'.item.trans h.item, h'.bytes.trans h.bytes⟩

variable {page page' : PageDataHeader} {room : Int → Nat}

theorem SameRows.isItem (h : SameRows page page') {o : Int} :
    IsItem page' o ↔ IsItem page o := by
  simp only [IsItem, h.dataOffset]

theorem SameRows.isRowItem (h : SameRows page page') {o : Int} :
    IsRowItem page' o ↔ IsRowItem page o := by
  constructor
  · rintro ⟨hitem, hvalid, hredirect⟩
    exact ⟨h.isItem.mp hitem, h.item ▸ hvalid, h.item ▸ hredirect⟩
  · rintro ⟨hitem, hvalid, hredirect⟩
    exact ⟨h.isItem.mpr hitem, h.item ▸ hvalid, h.item ▸ hredirect⟩

theorem SameRows.hasFreeSpace (h : SameRows page page') (size : Nat) :
    hasFreeSpace page' size = hasFreeSpace page size := by
  simp only [Toadb.hasFreeSpace, h.dataOffset, h.dataEndOffset]

theorem SameRows.layout (h : SameRows page page') (hl : Layout page room) :
    Layout page' room where
  items := h.dataOffset ▸ hl.items
  ends := by rw [h.dataOffset, h.dataEndOffset]; exact hl.ends
  top := h.dataEndOffset ▸ hl.top
  area := h.dataEndOffset ▸ hl.area
  apart := hl.apart
  stored := fun o ho => by
    rw [h.bytes, h.item]
    exact hl.stored o (h.isRowItem.mp ho)
  distinct := fun o o' ho ho' => by
    rw [h.item]
    exact hl.distinct o o' (h.isRowItem.mp ho) (h.isRowItem.mp ho')

/-! ## The file -/

/-- Every page has its number and its layout. -/
structure FileOk (f : TableFile) (rooms : Nat → Int → Nat) : Prop where
  bound : ∀ no page, f.page no = some page → 0 < no ∧ no ≤ f.pageCnt
  num : ∀ no page, f.page no = some page → page.pageNum = no
  layout : ∀ no page, f.page no = some page → Layout page (rooms no)
  /-- Nothing is set aside on pages to come. -/
  fresh : ∀ no, f.pageCnt < no → rooms no = fun _ => 0

/-- Every page is still there with its rows. -/
def RowsKept (f f' : TableFile) : Prop :=
  ∀ no page, f.page no = some page → ∃ page', f'.page no = some page' ∧ SameRows page page'

variable {f f' : TableFile} {rooms : Nat → Int → Nat} {no : Nat}

theorem RowsKept.refl (f : TableFile) : RowsKept f f := fun _ page h => ⟨page, h, .refl page⟩

theorem RowsKept.trans {f₁ f₂ f₃ : TableFile} (h : RowsKept f₁ f₂) (h' : RowsKept f₂ f₃) :
    RowsKept f₁ f₃ := by
  intro no page hpage
  obtain ⟨page₂, hpage₂, hsame⟩ := h no page hpage
  obtain ⟨page₃, hpage₃, hsame'⟩ := h' no page₂ hpage₂
  exact ⟨page₃, hpage₃, hsame.trans hsame'⟩

theorem FileOk.getPageByIndex (h : FileOk f rooms) (no : Nat) :
    getPageByIndex f no = f.page no := by
  unfold Toadb.getPageByIndex
  split
  · rename_i hzero
    cases hpage : f.page no with
    | none => rfl
    | some page =>
      have := (h.bound no page hpage).1
      rw [hzero, invalidPageNum] at this
      omega
  · rfl

@[simp] theorem set_page_self (f : TableFile) (no : Nat) (page : PageDataHeader) :
    (f.set no page).page no = some page := Function.update_self ..

theorem set_page_of_ne (f : TableFile) {no no' : Nat} (page : PageDataHeader) (h : no' ≠ no) :
    (f.set no page).page no' = f.page no' := Function.update_of_ne h ..

/-- Pages of different types are different pages. -/
theorem ne_of_pageType {no no' : Nat} {page page' : PageDataHeader}
    (h : f.page no = some page)
    (h' : f.page no' = some page') (htype : page.pageType ≠ page'.pageType) : no ≠ no' := by
  rintro rfl
  exact htype (congrArg PageDataHeader.pageType (Option.some.inj (h.symm.trans h')))

theorem dataEnd_eq {page : PageDataHeader} (h : f.page no = some page) :
    f.dataEnd no = page.dataEndOffset := by
  rw [TableFile.dataEnd, h]

theorem dataEnd_none (h : f.page no = none) : f.dataEnd no = pageMaxSize := by
  rw [TableFile.dataEnd, h]

theorem dataEnd_set_self (f : TableFile) (no : Nat) (page : PageDataHeader) :
    (f.set no page).dataEnd no = page.dataEndOffset := dataEnd_eq (set_page_self ..)

theorem dataEnd_set_of_ne (f : TableFile) {no no' : Nat}
    (page : PageDataHeader) (h : no' ≠ no) :
    (f.set no page).dataEnd no' = f.dataEnd no' := by
  rw [TableFile.dataEnd, set_page_of_ne f page h, TableFile.dataEnd]

/-- Overwriting a page with one whose rows start at the same place. -/
theorem dataEnd_set_same {page : PageDataHeader} (no : Nat)
    (h : page.dataEndOffset = f.dataEnd no)
    (no' : Nat) : (f.set no page).dataEnd no' = f.dataEnd no' := by
  by_cases hno : no' = no
  · rw [hno, dataEnd_set_self, h]
  · exact dataEnd_set_of_ne f page hno

@[simp] theorem set_pageCnt (f : TableFile) (no : Nat) (page : PageDataHeader) :
    (f.set no page).pageCnt = f.pageCnt := rfl

/-- Overwriting one page with a page that has its layout. -/
theorem FileOk.set (h : FileOk f rooms) {old new : PageDataHeader}
    (hold : f.page no = some old)
    {room : Int → Nat} (hlayout : Layout new room) (hnum : new.pageNum = old.pageNum) :
    FileOk (f.set no new) (Function.update rooms no room) := by
  have hbound := h.bound no old hold
  constructor
  · intro no' page hpage
    by_cases hno : no' = no
    · subst hno
      exact hbound
    · rw [set_page_of_ne f new hno] at hpage
      exact h.bound no' page hpage
  · intro no' page hpage
    by_cases hno : no' = no
    · subst hno
      rw [set_page_self, Option.some.injEq] at hpage
      rw [← hpage, hnum, h.num no' old hold]
    · rw [set_page_of_ne f new hno] at hpage
      exact h.num no' page hpage
  · intro no' page hpage
    by_cases hno : no' = no
    · subst hno
      rw [set_page_self, Option.some.injEq] at hpage
      rw [← hpage, Function.update_self]
      exact hlayout
    · rw [set_page_of_ne f new hno] at hpage
      rw [Function.update_of_ne hno]
      exact h.layout no' page hpage
  · intro no' hno'
    rw [set_pageCnt] at hno'
    rw [Function.update_of_ne (by omega)]
    exact h.fresh no' hno'

/-- Overwriting one page with one that has the same rows. -/
theorem FileOk.set_sameRows (h : FileOk f rooms) {old new : PageDataHeader}
    (hold : f.page no = some old) (hsame : SameRows old new) :
    FileOk (f.set no new) rooms := by
  have hset := h.set hold (hsame.layout (h.layout no old hold)) hsame.pageNum
  rwa [Function.update_eq_self] at hset

theorem RowsKept.set {old new : PageDataHeader} (hold : f.page no = some old)
    (hsame : SameRows old new) : RowsKept f (f.set no new) := by
  intro no' page hpage
  by_cases hno : no' = no
  · subst hno
    rw [hold, Option.some.injEq] at hpage
    subst hpage
    exact ⟨new, set_page_self .., hsame⟩
  · exact ⟨page, by rw [set_page_of_ne f new hno, hpage], .refl page⟩

/-! ## Extension -/

/-- A file with one more page. -/
theorem FileOk.extend (h : FileOk f rooms) {page : PageDataHeader}
    (hnum : page.pageNum = f.pageCnt + 1) (hempty : IsEmptyPage page) :
    FileOk ({ f with pageCnt := f.pageCnt + 1 }.set (f.pageCnt + 1) page) rooms := by
  constructor
  · intro no' p hp
    show 0 < no' ∧ no' ≤ f.pageCnt + 1
    by_cases hno : no' = f.pageCnt + 1
    · omega
    · rw [set_page_of_ne _ _ hno] at hp
      have := h.bound no' p hp
      omega
  · intro no' p hp
    by_cases hno : no' = f.pageCnt + 1
    · subst hno
      rw [set_page_self, Option.some.injEq] at hp
      rw [← hp, hnum]
    · rw [set_page_of_ne _ _ hno] at hp
      exact h.num no' p hp
  · intro no' p hp
    by_cases hno : no' = f.pageCnt + 1
    · subst hno
      rw [set_page_self, Option.some.injEq] at hp
      rw [← hp, h.fresh _ (by omega)]
      exact hempty.layout
    · rw [set_page_of_ne _ _ hno] at hp
      exact h.layout no' p hp
  · intro no' hno'
    have hno' : f.pageCnt + 1 < no' := hno'
    exact h.fresh no' (by omega)

theorem FileOk.page_extend (h : FileOk f rooms) {new page : PageDataHeader}
    (hpage : f.page no = some page) :
    ({ f with pageCnt := f.pageCnt + 1 }.set (f.pageCnt + 1) new).page no = some page := by
  have := (h.bound no page hpage).2
  rw [set_page_of_ne _ _ (by omega)]
  exact hpage

theorem FileOk.dataEnd_extend (h : FileOk f rooms) {page : PageDataHeader}
    (hempty : IsEmptyPage page) (no : Nat) :
    ({ f with pageCnt := f.pageCnt + 1 }.set (f.pageCnt + 1) page).dataEnd no =
      f.dataEnd no := by
  have hnone : f.page (f.pageCnt + 1) = none := by
    by_contra hsome
    obtain ⟨p, hp⟩ := Option.ne_none_iff_exists'.mp hsome
    have := (h.bound _ p hp).2
    omega
  refine dataEnd_set_same (f := { f with pageCnt := f.pageCnt + 1 }) _ ?_ no
  exact hempty.dataEndOffset.trans (dataEnd_none hnone).symm

theorem extensionTbl_pageCnt (num : Nat) (f : TableFile) :
    (extensionTbl num f).pageCnt = f.pageCnt + num := by
  induction num generalizing f with
  | zero => rfl
  | succ num ih =>
    rw [extensionTbl, ih]
    show f.pageCnt + 1 + num = f.pageCnt + (num + 1)
    omega

theorem extensionTbl_page (num : Nat) (f : TableFile) (no : Nat) :
    (extensionTbl num f).page no =
      if no ∈ List.range' (f.pageCnt + 1) num then some (initPage no) else f.page no := by
  induction num generalizing f with
  | zero => rfl
  | succ num ih =>
    rw [extensionTbl, ih, set_pageCnt, List.range'_succ]
    by_cases hno : no = f.pageCnt + 1
    · subst hno
      simp
    · simp only [List.mem_cons, hno, false_or]
      congr 1
      exact set_page_of_ne _ _ hno

theorem FileOk.extensionTbl (h : FileOk f rooms) (num : Nat) :
    FileOk (extensionTbl num f) rooms ∧ RowsKept f (extensionTbl num f) ∧
      ∀ no, (Toadb.extensionTbl num f).dataEnd no = f.dataEnd no := by
  induction num generalizing f with
  | zero => exact ⟨h, .refl f, fun _ => rfl⟩
  | succ num ih =>
    have hempty := isEmptyPage_initPage (f.pageCnt + 1)
    obtain ⟨hok, hkept, hend⟩ := ih (h.extend rfl hempty)
    refine ⟨hok, RowsKept.trans (fun no page hpage => ?_) hkept, fun no => ?_⟩
    · exact ⟨page, h.page_extend hpage, .refl page⟩
    · exact (hend no).trans (h.dataEnd_extend hempty no)

/-! ## The search for space -/

/-- What a successful search comes back with: page `no` has the space, and the
rest of the file is as before. -/
structure SpaceFound (f : TableFile) (rooms : Nat → Int → Nat) (size no : Nat)
    (pageType : PageType) (f' : TableFile) : Prop where
  ok : FileOk f' rooms
  kept : RowsKept f f'
  pageCnt_ge : f.pageCnt ≤ f'.pageCnt
  pageCnt_le : f'.pageCnt ≤ f.pageCnt + 1
  dataEnd : ∀ no, f'.dataEnd no = f.dataEnd no
  found : ∃ page, f'.page no = some page ∧ hasFreeSpace page size = true ∧
    page.pageType = pageType

theorem IsEmptyPage.hasFreeSpace {page : PageDataHeader} (h : IsEmptyPage page) {size : Nat}
    (hsize : size + 40 < 4096) : hasFreeSpace page size = true := by
  rw [Toadb.hasFreeSpace, h.dataOffset, h.dataEndOffset, decide_eq_true_eq]
  omega

theorem IsEmptyPage.setChain {page : PageDataHeader} (h : IsEmptyPage page)
    (pageType : PageType) (no : Nat) : IsEmptyPage (page.setChain pageType no) := by
  have hsame := SameRows.setChain page pageType no
  exact ⟨hsame.dataOffset.trans h.dataOffset, hsame.dataEndOffset.trans h.dataEndOffset,
    fun o => by rw [hsame.item]; exact h.item o⟩

/-- The new head of a chain has the space. -/
theorem FileOk.extendChain (h : FileOk f rooms) (pageType : PageType) {firstno size : Nat}
    {firstpage : PageDataHeader} (hfirst : f.page firstno = some firstpage)
    (hsize : size + 40 < 4096) :
    SpaceFound f rooms size (extendChain f pageType firstno firstpage).1 pageType
      (extendChain f pageType firstno firstpage).2 := by
  have hbound := h.bound firstno firstpage hfirst
  have hne : f.pageCnt + 1 ≠ firstno := by omega
  obtain ⟨hext, hkept, hend⟩ := h.extensionTbl 1
  have hnew : (Toadb.extensionTbl 1 f).page (f.pageCnt + 1)
      = some (initPage (f.pageCnt + 1)) := set_page_self ..
  have hold : (Toadb.extensionTbl 1 f).page firstno = some firstpage := h.page_extend hfirst
  -- The type and the link are written into the new page, then the link into the first.
  let extpage := { initPage (f.pageCnt + 1) with pageType := pageType }.setChain pageType
    (firstpage.chain pageType)
  have hempty : IsEmptyPage extpage :=
    IsEmptyPage.setChain ⟨rfl, rfl, fun _ => rfl⟩ pageType (firstpage.chain pageType)
  have hset : FileOk ((Toadb.extensionTbl 1 f).set (f.pageCnt + 1) extpage) rooms := by
    have hlayout := hempty.layout
    have hroom : rooms (f.pageCnt + 1) = fun _ => 0 := h.fresh _ (by omega)
    rw [← hroom] at hlayout
    have hnum : extpage.pageNum = (initPage (f.pageCnt + 1)).pageNum :=
      (SameRows.setChain _ pageType (firstpage.chain pageType)).pageNum
    have := hext.set hnew hlayout hnum
    rwa [Function.update_eq_self] at this
  have hfirst' : ((Toadb.extensionTbl 1 f).set (f.pageCnt + 1) extpage).page firstno
      = some firstpage := by
    rw [set_page_of_ne _ _ (Ne.symm hne)]
    exact hold
  have hlink := SameRows.setChain firstpage pageType (f.pageCnt + 1)
  refine ⟨hset.set_sameRows hfirst' hlink, ?_, Nat.le_succ _, Nat.le_refl _,
    fun no => ?_, extpage,
    ?_, hempty.hasFreeSpace hsize, ?_⟩
  · refine RowsKept.trans (fun no page hpage => ?_) (RowsKept.set hfirst' hlink)
    have hno : no ≠ f.pageCnt + 1 := by
      have := (h.bound no page hpage).2
      omega
    exact ⟨page, (set_page_of_ne (Toadb.extensionTbl 1 f) extpage hno).trans
      (h.page_extend hpage), .refl page⟩
  · rw [← hend no]
    refine (dataEnd_set_same firstno ?_ no).trans (dataEnd_set_same _ ?_ no)
    · exact hlink.dataEndOffset.trans (dataEnd_eq hfirst').symm
    · exact hempty.dataEndOffset.trans (dataEnd_eq hnew).symm
  · show (((Toadb.extensionTbl 1 f).set (f.pageCnt + 1) extpage).set firstno _).page
      (f.pageCnt + 1) = some extpage
    rw [set_page_of_ne _ _ hne, set_page_self]
  · exact (SameRows.setChain _ pageType (firstpage.chain pageType)).pageType

theorem SpaceFound.here (h : FileOk f rooms) {size : Nat} {page : PageDataHeader}
    (hpage : f.page no = some page) (hspace : hasFreeSpace page size = true) :
    SpaceFound f rooms size no page.pageType f :=
  ⟨h, .refl f, Nat.le_refl _, Nat.le_succ _, fun _ => rfl, page, hpage, hspace, rfl⟩

theorem FileOk.searchChain (h : FileOk f rooms) {pageType : PageType} {firstno size : Nat}
    {firstpage : PageDataHeader} (hfirst : f.page firstno = some firstpage)
    (hsize : size + 40 < 4096)
    (hfound : searchChain f size pageType firstno firstpage = (some no, f')) :
    SpaceFound f rooms size no pageType f' := by
  have hextend := h.extendChain pageType hfirst hsize
  unfold Toadb.searchChain at hfound
  rw [h.getPageByIndex] at hfound
  split at hfound
  · obtain ⟨hno, rfl⟩ := Prod.mk.inj hfound
    cases hno
    exact hextend
  · rename_i page hpage
    split at hfound
    · cases hfound
    · rename_i htype
      split at hfound
      · rename_i hspace
        obtain ⟨hno, rfl⟩ := Prod.mk.inj hfound
        cases hno
        have hhere := SpaceFound.here h hpage hspace
        rwa [not_not.mp htype] at hhere
      · obtain ⟨hno, rfl⟩ := Prod.mk.inj hfound
        cases hno
        exact hextend

/-- A search that fails leaves the file alone. -/
theorem searchChain_none {size firstno : Nat} {pageType : PageType}
    {firstpage : PageDataHeader}
    (h : searchChain f size pageType firstno firstpage = (none, f')) : f' = f := by
  unfold Toadb.searchChain at h
  split at h
  · cases h
  · split at h
    · exact (Prod.mk.inj h).2.symm
    · split at h <;> cases h

/-- A search that fails leaves the file alone. -/
theorem getSpaceSpecifyPage_none {size start : Nat} {pageType : PageType}
    (h : getSpaceSpecifyPage f size start pageType = (none, f')) : f' = f := by
  unfold getSpaceSpecifyPage at h
  split at h
  · exact (Prod.mk.inj h).2.symm
  · split at h
    · exact (Prod.mk.inj h).2.symm
    · split at h
      · exact searchChain_none h
      · split at h
        · exact (Prod.mk.inj h).2.symm
        · split at h
          · cases h
          · split at h
            · exact searchChain_none h
            · cases h

/-- The undo page an update gets. -/
theorem FileOk.undoSpace (h : FileOk f rooms) {start size : Nat} {firstpage : PageDataHeader}
    (hfirst : f.page start = some firstpage)
    (hfound : getSpaceSpecifyPage f size start .undo = (some no, f')) :
    SpaceFound f rooms size no .undo f' := by
  unfold getSpaceSpecifyPage at hfound
  rw [h.getPageByIndex, hfirst] at hfound
  split at hfound
  · cases hfound
  · rename_i hsize
    rw [pageDataHeaderSize, pageMaxSize] at hsize
    exact h.searchChain hfirst (by omega) hfound

/-- The page for a new version: the data page itself if it has the space, else a
page of its extension chain. -/
theorem FileOk.dataSpace (h : FileOk f rooms) {start size : Nat} {firstpage : PageDataHeader}
    (hfirst : f.page start = some firstpage)
    (hfound : getSpaceSpecifyPage f size start .data = (some no, f')) :
    (hasFreeSpace firstpage size = true ∧ no = start ∧ f' = f) ∨
      (hasFreeSpace firstpage size = false ∧ firstpage.pageType = .data ∧
        SpaceFound f rooms size no .extData f') := by
  unfold getSpaceSpecifyPage at hfound
  rw [h.getPageByIndex, hfirst] at hfound
  split at hfound
  · cases hfound
  · rename_i hsize
    rw [pageDataHeaderSize, pageMaxSize] at hsize
    dsimp only at hfound
    rw [if_neg (by decide)] at hfound
    split at hfound
    · cases hfound
    · rename_i htype
      split at hfound
      · rename_i hspace
        obtain ⟨hno, rfl⟩ := Prod.mk.inj hfound
        cases hno
        exact .inl ⟨hspace, rfl, rfl⟩
      · rename_i hspace
        rw [if_pos rfl] at hfound
        exact .inr ⟨by simpa using hspace, not_not.mp htype,
          h.searchChain hfirst (by omega) hfound⟩

end Toadb
