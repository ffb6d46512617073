/-
Toadb.Storage.ChainLinkTheorems — where the links of the undo and extension chains lead.

A page has no link of a type, or it leads to a page of that type (`ChainLinks`).
A new page of a chain takes over the link of the page it is hung on, and rows are
written below the header; so every step leaves the links as they were, or makes one
that leads to a page of its type (`LinksFrom`). An update does not fail because of a chain.
-/
import Toadb.Storage.ChainTheorems

namespace Toadb

variable {f f' f'' : TableFile} {rooms : Nat → Int → Nat} {no : Nat}
  {page new : PageDataHeader} {k : PageType}

/-- The link of a page for the chain of a type leads to a page of the type, if anywhere. -/
def LinkTyped (f : TableFile) (page : PageDataHeader) (k : PageType) : Prop :=
  page.chain k = invalidPageNum ∨ ∃ p, f.page (page.chain k) = some p ∧ p.pageType = k

/-- All the links lead to pages of their types. -/
def ChainLinks (f : TableFile) : Prop :=
  ∀ no page, f.page no = some page → LinkTyped f page .undo ∧ LinkTyped f page .extData

/-- The numbers of the pages are given out in order. -/
def Counted (f : TableFile) : Prop := ∀ no page, f.page no = some page → no ≤ f.pageCnt

theorem FileOk.counted (h : FileOk f rooms) : Counted f :=
  fun no page hpage => (h.bound no page hpage).2

/-- A chain whose link leads to a page of its type is not broken. -/
theorem LinkTyped.getPageByIndex (h : LinkTyped f page k) :
    ∀ p, Toadb.getPageByIndex f (page.chain k) = some p → p.pageType = k := by
  intro p hp
  rw [Toadb.getPageByIndex] at hp
  split at hp
  · cases hp
  · rename_i hlink
    obtain ⟨p', hp', htype⟩ := h.resolve_left hlink
    rw [hp', Option.some.injEq] at hp
    exact hp ▸ htype

/-- The pages keep their types, and a link is one that was there, or leads to a page of its
type. -/
structure LinksFrom (f f' : TableFile) : Prop where
  counted : Counted f'
  types : ∀ no page, f.page no = some page → ∃ page',
    f'.page no = some page' ∧ page'.pageType = page.pageType
  links : ∀ no page', f'.page no = some page' → ∀ k, IsChain k → LinkTyped f' page' k ∨
    ∃ no page, f.page no = some page ∧ page'.chain k = page.chain k

theorem LinksFrom.refl (h : Counted f) : LinksFrom f f :=
  ⟨h, fun _ page hpage => ⟨page, hpage, rfl⟩,
    fun no page hpage _ _ => .inr ⟨no, page, hpage, rfl⟩⟩

/-- A link that leads to a page of its type still does. -/
theorem LinksFrom.linkTyped (h : LinksFrom f f') (hlink : LinkTyped f page k)
    (hsame : new.chain k = page.chain k) :
    LinkTyped f' new k := by
  rw [LinkTyped, hsame]
  refine hlink.imp_right fun ⟨p, hp, htype⟩ => ?_
  obtain ⟨p', hp', htype'⟩ := h.types _ p hp
  exact ⟨p', hp', htype'.trans htype⟩

theorem LinksFrom.trans (h : LinksFrom f f') (h' : LinksFrom f' f'') : LinksFrom f f'' := by
  refine ⟨h'.counted, fun no page hpage => ?_, fun no page'' hpage'' k hk => ?_⟩
  · obtain ⟨page', hpage', htype'⟩ := h.types no page hpage
    obtain ⟨page'', hpage'', htype''⟩ := h'.types no page' hpage'
    exact ⟨page'', hpage'', htype''.trans htype'⟩
  · rcases h'.links no page'' hpage'' k hk with hok | ⟨no', page', hpage', hsame'⟩
    · exact .inl hok
    · rcases h.links no' page' hpage' k hk with hok | ⟨no, page, hpage, hsame⟩
      · exact .inl (h'.linkTyped hok hsame')
      · exact .inr ⟨no, page, hpage, hsame'.trans hsame⟩

theorem LinksFrom.chainLinks (h : LinksFrom f f')
    (hlinks : ChainLinks f) : ChainLinks f' := by
  intro no page' hpage'
  have hlink : ∀ k, IsChain k → (∀ no page, f.page no = some page → LinkTyped f page k) →
      LinkTyped f' page' k := by
    intro k hchain hk
    rcases h.links no page' hpage' k hchain with hok | ⟨no, page, hpage, hsame⟩
    · exact hok
    · exact h.linkTyped (hk no page hpage) hsame
  exact ⟨hlink .undo (.inl rfl) fun no page hpage => (hlinks no page hpage).1,
    hlink .extData (.inr rfl) fun no page hpage => (hlinks no page hpage).2⟩

/-! ## Writing a page -/

/-- A page is written with its header as it was. -/
theorem LinksFrom.set (h : Counted f) (hpage : f.page no = some page)
    (htype : new.pageType = page.pageType)
    (hchain : ∀ k, new.chain k = page.chain k) : LinksFrom f (f.set no new) := by
  refine ⟨fun other p' hp' => ?_, fun other p hp => ?_, fun other p' hp' k _ => ?_⟩
  all_goals by_cases hother : other = no
  · subst hother
    exact h other page hpage
  · exact h other p' ((set_page_of_ne _ _ hother).symm.trans hp')
  · subst hother
    rw [hpage, Option.some.injEq] at hp
    exact ⟨new, set_page_self .., hp ▸ htype⟩
  · exact ⟨p, (set_page_of_ne _ _ hother).trans hp, rfl⟩
  · subst hother
    rw [set_page_self, Option.some.injEq] at hp'
    exact .inr ⟨other, page, hpage, hp' ▸ hchain k⟩
  · exact .inr ⟨other, p', (set_page_of_ne _ _ hother).symm.trans hp', rfl⟩

/-! ## Space -/

theorem linksFrom_extendChain (h : Counted f) (hk : IsChain k)
    (hpage : f.page no = some page) :
    LinksFrom f (extendChain f k no page).2 := by
  have hne : no ≠ f.pageCnt + 1 := by
    have hno := h no page hpage
    omega
  have hlast : ∀ p, f.page (f.pageCnt + 1) ≠ some p := fun p hp => by
    have hno := h _ p hp
    omega
  let last := { initPage (f.pageCnt + 1) with pageType := k }.setChain k (page.chain k)
  have hfound : ∀ other, (extendChain f k no page).2.page other =
      if other = no then some (page.setChain k (f.pageCnt + 1))
        else if other = f.pageCnt + 1 then some last
      else f.page other := by
    intro other
    simp only [extendChain, TableFile.set, extensionTbl, Function.update_apply]
    split
    · rfl
    · split <;> rfl
  have htype : ∀ (p : PageDataHeader) n, (p.setChain k n).pageType = p.pageType := fun p n =>
    (SameRows.setChain p k n).pageType
  refine ⟨fun other p hp => ?_, fun other p hp => ?_, fun other p hp k' hk' => ?_⟩
  · rw [hfound] at hp
    show other ≤ f.pageCnt + 1
    split at hp
    · rename_i hother
      have hno := h no page hpage
      omega
    · split at hp
      · omega
      · exact Nat.le_succ_of_le (h other p hp)
  · rw [hfound]
    split
    · rename_i hother
      rw [hother, hpage, Option.some.injEq] at hp
      exact ⟨_, rfl, hp ▸ htype page _⟩
    · rw [if_neg fun hother : other = f.pageCnt + 1 => hlast p (hother ▸ hp)]
      exact ⟨p, hp, rfl⟩
  · rw [hfound] at hp
    split at hp
    · obtain rfl := Option.some.inj hp
      by_cases hsame : k' = k
      · subst hsame
        refine .inl (.inr ⟨last, ?_, htype _ _⟩)
        rw [chain_setChain_self, hfound, if_neg (Ne.symm hne), if_pos rfl]
      · exact .inr ⟨no, page, hpage, chain_setChain_of_ne hk' hk hsame page _⟩
    · split at hp
      · obtain rfl := Option.some.inj hp
        by_cases hsame : k' = k
        · subst hsame
          exact .inr ⟨no, page, hpage, chain_setChain_self ..⟩
        · refine .inl (.inl ((chain_setChain_of_ne hk' hk hsame _ _).trans ?_))
          rcases hk' with rfl | rfl <;> rfl
      · exact .inr ⟨other, p, hp, rfl⟩

theorem getPageByIndex_some {index : Nat} (h : getPageByIndex f index = some page) :
    f.page index = some page := by
  rw [getPageByIndex] at h
  split at h
  · cases h
  · exact h

theorem linksFrom_searchChain (h : Counted f) (hk : IsChain k)
    (hpage : f.page no = some page) (size : Nat) :
    LinksFrom f (searchChain f size k no page).2 := by
  rw [searchChain]
  split
  · exact linksFrom_extendChain h hk hpage
  · split
    · exact .refl h
    · split
      · exact .refl h
      · exact linksFrom_extendChain h hk hpage

theorem linksFrom_getSpaceSpecifyPage (h : Counted f) (size start : Nat)
    (hk : k = .undo ∨ k = .data) :
    LinksFrom f (getSpaceSpecifyPage f size start k).2 := by
  rw [getSpaceSpecifyPage]
  split
  · exact .refl h
  · split
    · exact .refl h
    · rename_i page hpage
      have hfirst := getPageByIndex_some hpage
      rcases hk with rfl | rfl
      · rw [if_pos rfl]
        exact linksFrom_searchChain h (.inl rfl) hfirst size
      · rw [if_neg (by decide), if_pos rfl]
        split
        · exact .refl h
        · split
          · exact .refl h
          · exact linksFrom_searchChain h (.inr rfl) hfirst size

/-- A page more at most. -/
theorem searchChain_pageCnt (f : TableFile) (size : Nat) (k : PageType) (firstno : Nat)
    (page : PageDataHeader) :
    (searchChain f size k firstno page).2.pageCnt ≤ f.pageCnt + 1 := by
  rw [searchChain]
  split
  · exact le_rfl
  · split
    · exact Nat.le_succ _
    · split
      · exact Nat.le_succ _
      · exact le_rfl

theorem undoSpace_pageCnt (u : ColumnUpdate) (f : TableFile) :
    (undoSpace u f).2.pageCnt ≤ f.pageCnt + 1 := by
  rw [undoSpace]
  split
  · exact Nat.le_succ _
  · rw [getSpaceSpecifyPage]
    split
    · exact Nat.le_succ _
    · split
      · exact Nat.le_succ _
      · rw [if_pos rfl]
        exact searchChain_pageCnt ..

/-! ## Updates and deletes -/

theorem linksFrom_writeNewRow (h : Counted f) (u : ColumnUpdate) (row : RowColumnData) :
    LinksFrom f (writeNewRow f u row).2 := by
  rw [writeNewRow]
  split
  · exact .refl h
  · rename_i page hpage
    split
    · exact .set h hpage rfl fun _ => rfl
    · dsimp only
      have hspace := linksFrom_getSpaceSpecifyPage h (row.size + itemSize) page.pageNum
          (k := .data) (.inr rfl)
      split
      · rename_i f₁ hfound
        rw [hfound] at hspace
        exact hspace
      · rename_i newno f₁ hfound
        rw [hfound] at hspace
        split
        · rename_i originPage newRowPage horigin hnew
          split
          · exact hspace.trans (.set hspace.counted horigin rfl fun _ => rfl)
          · have hrow : LinksFrom f₁ (f₁.set newno (writeRowOnePage newRowPage row).1) :=
              .set hspace.counted hnew rfl fun _ => rfl
            refine (hspace.trans hrow).trans ?_
            by_cases hsame : u.headItem.pageno = newno
            · subst hsame
              rw [horigin, Option.some.injEq] at hnew
              subst hnew
              exact .set hrow.counted (set_page_self ..) rfl fun _ => rfl
            · exact .set hrow.counted ((set_page_of_ne _ _ hsame).trans horigin) rfl fun _ =>
                rfl
        · exact hspace

theorem linksFrom_paxExecUpdate (h : Counted f) (curr : Nat) (u : ColumnUpdate) :
    LinksFrom f (paxExecUpdate curr u f).2 := by
  have hundo : LinksFrom f (undoSpace u f).2 := by
    rw [undoSpace]
    split
    · exact .refl h
    · exact linksFrom_getSpaceSpecifyPage h _ _ (.inl rfl)
  rw [paxExecUpdate]
  split
  · rename_i f₁ hfound
    rw [hfound] at hundo
    exact hundo
  · rename_i undono f₁ hfound
    rw [hfound] at hundo
    rw [updateLocked]
    split
    · exact hundo
    · rename_i undoPage hpage
      split
      · exact hundo
      · have hcopy :
            LinksFrom f₁ (f₁.set undono (writeRowOnePage undoPage (u.undoRow curr)).1) :=
          .set hundo.counted hpage rfl fun _ => rfl
        exact (hundo.trans hcopy).trans (linksFrom_writeNewRow hcopy.counted _ _)

/-- An update whose new version is no longer than the old one adds a page for the copy at
most. -/
theorem paxExecUpdate_pageCnt {u : ColumnUpdate} (h : u.row.size ≤ u.old.size)
    (curr : Nat) (f : TableFile) :
    (paxExecUpdate curr u f).2.pageCnt ≤ f.pageCnt + 1 := by
  have hundo := undoSpace_pageCnt u f
  have hrow : ∀ (f : TableFile) pos,
      (writeNewRow f u (u.newRow curr pos)).2.pageCnt = f.pageCnt := by
    intro f pos
    rw [writeNewRow]
    split
    · rfl
    · have hsize : (u.newRow curr pos).size ≤ u.old.size := h
      rw [if_pos hsize]
      rfl
  rw [paxExecUpdate]
  split
  · rename_i f₁ hfound
    rwa [hfound] at hundo
  · rename_i undono f₁ hfound
    rw [hfound] at hundo
    rw [updateLocked]
    split
    · exact hundo
    · split
      · exact hundo
      · exact le_of_eq_of_le (hrow _ _) hundo

end Toadb
