/-
Toadb.Storage.VersionTheorems — the version chains of the rows, and lost
updates.

`rowVersions` follows a row from its item through the undo positions. The
abstract row is a list of versions, and an update puts one in front of it;
`written` is that list. The chain of a row refines it as long as every writer
finds the row and the item it has copied unchanged when it has the page lock
(`StepFresh`): then the version it supersedes is the one the item leads to.

`pax_ExecUpdate` does not look. Its test is on the header of its own copy, so
two writers that read the row before either writes both succeed, and the
second overwrites the version of the first (`update_lost`).
-/
import Toadb.Storage.LayoutTheorems

namespace Toadb

open Bytes Transition

/-! ## Reading a chain -/

/-- The versions from an undo position on, `fuel` of them at most. -/
def undoVersions (f : TableFile) : Nat → RowPosition → List RowColumnData
  | 0, _ => []
  | fuel + 1, pos =>
      match readUndoVersion f pos with
      | none => []
      | some r => r :: undoVersions f fuel r.headerData.undo

/-- The version an item leads to; a redirect item names its page and its item. -/
def headVersion (f : TableFile) (no : Nat) (o : Int) : Option RowColumnData :=
  (getPageByIndex f no).bind fun page =>
    if (page.item o).redirect then
      readUndoVersion f ⟨⟨0, (page.item o).offset.toNat⟩, (page.item o).size⟩
    else rowByIndex f no o

/-- The versions of a row, the newest first. -/
def rowVersions (f : TableFile) (no : Nat) (o : Int) (fuel : Nat) : List RowVersion :=
  match headVersion f no o with
  | none => []
  | some r => (r :: undoVersions f fuel r.headerData.undo).map RowColumnData.version

variable {f f' f₁ f₂ : TableFile} {rooms : Nat → Int → Nat} {no : Nat} {o : Int}
  {page : PageDataHeader} {r : RowColumnData} {rs : List RowColumnData} {vs : List RowVersion}
  {P : RowColumnData → Prop}

/-- The chain from an undo position on. -/
inductive UndoChain (f : TableFile) : RowPosition → List RowColumnData → Prop
  | last {pos : RowPosition} : pos.pageIndex.pageno = invalidPageNum → UndoChain f pos []
  | next {pos : RowPosition} {r : RowColumnData} {rs : List RowColumnData} :
      UndoRow f pos r → UndoChain f r.headerData.undo rs → UndoChain f pos (r :: rs)

/-- Item `o` of data page `no` leads to `r`. -/
def HeadAt (f : TableFile) (no : Nat) (o : Int) (r : RowColumnData) : Prop :=
  IsDataPage f no ∧ (RowAt f no o r ∨ Redirected f no o r)

/-- The row of item `o` of page `no` has the versions `vs`. -/
def RowHistory (f : TableFile) (no : Nat) (o : Int) (vs : List RowVersion) : Prop :=
  ∃ r rs, HeadAt f no o r ∧ UndoChain f r.headerData.undo rs ∧
    (r :: rs).map RowColumnData.version = vs

theorem UndoChain.undoVersions {pos : RowPosition} (hf : FileOk f rooms)
    (h : UndoChain f pos rs) :
    ∀ fuel, rs.length ≤ fuel → undoVersions f fuel pos = rs := by
  induction h with
  | last hnone =>
    intro fuel _
    cases fuel with
    | zero => rfl
    | succ fuel => rw [Toadb.undoVersions, readUndoVersion, getPageByIndex, if_pos hnone]; rfl
  | next hrow _ ih =>
    intro fuel hfuel
    cases fuel with
    | zero => simp at hfuel
    | succ fuel =>
      rw [Toadb.undoVersions, hrow.2.readUndoVersion hf]
      dsimp only
      rw [ih fuel (by simpa using hfuel)]

theorem HeadAt.headVersion (hf : FileOk f rooms) (h : HeadAt f no o r) :
    headVersion f no o = some r := by
  obtain ⟨-, hrow | ⟨page, hpage, -, -, hredirect, ext, hext, -, hat⟩⟩ := h
  · obtain ⟨page, hpage, hitem, hstored⟩ := hrow
    have hat : RowAt f no o r := ⟨page, hpage, hitem, hstored⟩
    rw [Toadb.headVersion, hf.getPageByIndex, hpage, Option.bind_some, hitem.redirect,
      if_neg (by decide), hat.rowByIndex hf]
  · rw [Toadb.headVersion, hf.getPageByIndex, hpage, Option.bind_some,
      hredirect, if_pos rfl, hext,
      Int.toNat_natCast]
    exact RowAt.readUndoVersion hf hat

/-- With enough fuel the chain that is read is the history. -/
theorem RowHistory.rowVersions (hf : FileOk f rooms) (h : RowHistory f no o vs) :
    ∃ k, ∀ fuel, k ≤ fuel → rowVersions f no o fuel = vs := by
  obtain ⟨r, rs, hhead, hchain, rfl⟩ := h
  refine ⟨rs.length, fun fuel hfuel => ?_⟩
  rw [Toadb.rowVersions, hhead.headVersion hf]
  dsimp only
  rw [hchain.undoVersions hf fuel hfuel]

/-- A chain that ends before the fuel does is the whole chain. -/
theorem undoVersions_stable {k : Nat} {pos : RowPosition}
    (h : (undoVersions f k pos).length < k) :
    ∀ fuel, k ≤ fuel → undoVersions f fuel pos = undoVersions f k pos := by
  induction k generalizing pos with
  | zero => simp at h
  | succ k ih =>
    intro fuel hfuel
    obtain ⟨fuel, rfl⟩ : ∃ m, fuel = m + 1 := ⟨fuel - 1, by omega⟩
    unfold undoVersions at h ⊢
    cases hread : readUndoVersion f pos with
    | none => rfl
    | some r =>
      rw [hread] at h
      dsimp only at h ⊢
      rw [ih (by simpa using h) fuel (by omega)]

theorem rowVersions_stable {k : Nat} (h : (rowVersions f no o k).length ≤ k) :
    ∀ fuel, k ≤ fuel → rowVersions f no o fuel = rowVersions f no o k := by
  intro fuel hfuel
  unfold rowVersions at h ⊢
  cases hhead : headVersion f no o with
  | none => rfl
  | some r =>
    rw [hhead] at h
    dsimp only at h ⊢
    rw [List.length_map, List.length_cons] at h
    rw [undoVersions_stable (by omega) fuel hfuel]

/-! ## What stays -/

/-- Items outside `T` stay. -/
def ItemsStay (f f' : TableFile) (T : Nat → Int → Prop) : Prop :=
  ∀ no o page, ¬ T no o → f.page no = some page → IsItem page o →
    ∃ page', f'.page no = some page' ∧ IsItem page' o ∧ page'.item o = page.item o

/-- Rows and items outside `T` stay. -/
structure RowsStay (f f' : TableFile) (T : Nat → Int → Prop) : Prop where
  rows : ∀ no o r, ¬ T no o → RowAt f no o r → RowAt f' no o r
  items : ItemsStay f f' T

/-- Item `o` of page `no`. -/
def Only (no : Nat) (o : Int) (no' : Nat) (o' : Int) : Prop := no' = no ∧ o' = o

variable {T : Nat → Int → Prop} {new : PageDataHeader}

theorem ItemsStay.refl (f : TableFile) : ItemsStay f f T :=
  fun _ _ page _ hpage hitem => ⟨page, hpage, hitem, rfl⟩

theorem ItemsStay.trans (h : ItemsStay f f₁ T) (h' : ItemsStay f₁ f₂ T) :
    ItemsStay f f₂ T := by
  intro no o page hT hpage hitem
  obtain ⟨page₁, hpage₁, hitem₁, heq₁⟩ := h no o page hT hpage hitem
  obtain ⟨page₂, hpage₂, hitem₂, heq₂⟩ := h' no o page₁ hT hpage₁ hitem₁
  exact ⟨page₂, hpage₂, hitem₂, heq₂.trans heq₁⟩

theorem RowsKept.itemsStay (h : RowsKept f f') : ItemsStay f f' T := by
  intro no o page _ hpage hitem
  obtain ⟨page', hpage', hsame⟩ := h no page hpage
  exact ⟨page', hpage', hsame.isItem.mpr hitem, by rw [hsame.item]⟩

theorem ItemsStay.set (hpage : f.page no = some page)
    (h : ∀ o, ¬ T no o → IsItem page o → IsItem new o ∧ new.item o = page.item o) :
    ItemsStay f (f.set no new) T := by
  intro no' o page' hT hpage' hitem
  by_cases hno : no' = no
  · subst hno
    rw [hpage, Option.some.injEq] at hpage'
    subst hpage'
    obtain ⟨hitem', heq⟩ := h o hT hitem
    exact ⟨new, set_page_self .., hitem', heq⟩
  · exact ⟨page', by rw [set_page_of_ne f new hno, hpage'], hitem, rfl⟩

theorem ItemsStay.append (hl : ∃ room, Layout page room) (hpage : f.page no = some page)
    (row : RowColumnData) : ItemsStay f (f.set no (writeRowOnePage page row).1) T := by
  obtain ⟨room, hl⟩ := hl
  refine .set hpage fun o _ hitem => ⟨?_, hitem.writeRowOnePage_item row⟩
  exact (hl.isItem_writeRowOnePage row).mpr (.inr hitem)

theorem ItemsStay.redirect (hpage : f.page no = some page) (o : Int) (rowPos : RowPosition) :
    ItemsStay f (f.set no (redirectItem page o rowPos)) (Only no o) := by
  refine .set hpage fun o' hT hitem => ⟨hitem, ?_⟩
  exact Function.update_of_ne (fun heq => hT ⟨rfl, heq⟩) ..

theorem RowsStay.ofKept (h : RowsKept f f') : RowsStay f f' T :=
  ⟨fun _ _ _ _ hr => hr.rowsKept h, h.itemsStay⟩

theorem RowsStay.refl (f : TableFile) : RowsStay f f T := .ofKept (.refl f)

theorem RowsStay.trans (h : RowsStay f f₁ T) (h' : RowsStay f₁ f₂ T) : RowsStay f f₂ T :=
  ⟨fun no o r hT hr => h'.rows no o r hT (h.rows no o r hT hr), h.items.trans h'.items⟩

/-- The chain behind an undo position stays in every section. -/
theorem FileStep.undoChain (h : FileStep f rooms f' P) {pos : RowPosition}
    (hc : UndoChain f pos rs) : UndoChain f' pos rs := by
  induction hc with
  | last hnone => exact .last hnone
  | next hrow _ ih => exact .next (h.undoRow hrow) ih

/-- A section that stays off an item leaves what it leads to. -/
theorem RowsStay.headAt (h : RowsStay f f' T) (hstep : FileStep f rooms f' P)
    (hT : ∀ no o, T no o → IsDataPage f no) (hno : ¬ T no o) (hh : HeadAt f no o r) :
    HeadAt f' no o r := by
  obtain ⟨hdata, hhead⟩ := hh
  refine ⟨hstep.isDataPage hdata, ?_⟩
  rcases hhead with hrow | ⟨page, hpage, hitem, hvalid, hredirect, ext, hoff,
    ⟨p, hp, htype⟩, hat⟩
  · exact .inl (h.rows no o r hno hrow)
  · right
    obtain ⟨page', hpage', hitem', heq⟩ := h.items no o page hno hpage hitem
    obtain ⟨p', hp', htype'⟩ := hstep.types ext p hp
    have hext : ¬ T ext (itemOffsetOfIndex (page.item o).size) := by
      intro hTe
      obtain ⟨q, hq, hqtype⟩ := hT _ _ hTe
      exact ne_of_pageType hp hq (by simp [htype, hqtype]) rfl
    refine ⟨page', hpage', hitem', by rw [heq, hvalid], by rw [heq, hredirect], ext,
      by rw [heq, hoff], ⟨p', hp', htype'.trans htype⟩, ?_⟩
    rw [heq]
    exact h.rows _ _ _ hext hat

/-- A section that stays off a row leaves its history. -/
theorem RowsStay.history (h : RowsStay f f' T) (hstep : FileStep f rooms f' P)
    (hT : ∀ no o, T no o → IsDataPage f no) (hno : ¬ T no o) (hh : RowHistory f no o vs) :
    RowHistory f' no o vs := by
  obtain ⟨r, rs, hhead, hchain, hvs⟩ := hh
  exact ⟨r, rs, h.headAt hstep hT hno hhead, hstep.undoChain hchain, hvs⟩

theorem FileOk.itemsStay_newRow (hf : FileOk f rooms) (hpage : f.page no = some page)
    (htype : page.pageType = .data) {u : ColumnUpdate} (hno : u.headItem.pageno = no)
    (row : RowColumnData) :
    ItemsStay f (Toadb.writeNewRow f u row).2 (Only no u.headItem.itemOffset) := by
  unfold Toadb.writeNewRow
  rw [hno]
  simp only [hpage]
  split
  · exact .set hpage fun _ _ hitem => ⟨hitem, rfl⟩
  · rw [hf.num no page hpage]
    split
    · rename_i f₁ hspace
      obtain rfl := getSpaceSpecifyPage_none hspace
      exact .refl _
    · rename_i newno f₁ hspace
      rcases hf.dataSpace hpage hspace with ⟨-, rfl, rfl⟩ | ⟨-, -, hfound⟩
      · simp only [hpage, if_true]
        refine .set hpage fun o hT hitem => ⟨hitem, ?_⟩
        exact relocateRow_item_of_ne page row _ fun heq => hT ⟨rfl, heq⟩
      · obtain ⟨page₁, hpage₁, hsame⟩ := hfound.kept no page hpage
        obtain ⟨ext, hext, -, hexttype⟩ := hfound.found
        have hne : no ≠ newno :=
          ne_of_pageType hpage₁ hext (by simp [hsame.pageType, htype, hexttype])
        have hpage₂ : (f₁.set newno (writeRowOnePage ext row).1).page no = some page₁ := by
          rw [set_page_of_ne _ _ hne, hpage₁]
        simp only [hpage₁, hext]
        rw [hfound.ok.num _ _ hext, hfound.ok.num _ _ hpage₁, if_neg (Ne.symm hne)]
        exact (hfound.kept.itemsStay.trans
          (.append ⟨_, hfound.ok.layout _ _ hext⟩ hext row)).trans
          (.redirect hpage₂ _ _)

theorem FileOk.itemsStay_update (hf : FileOk f rooms) (hpage : f.page no = some page)
    (htype : page.pageType = .data) {undono : Nat} {undoPage : PageDataHeader}
    (hundo : f.page undono = some undoPage) (hne : no ≠ undono)
    {u : ColumnUpdate} {curr : Nat}
    (hspace : undoPage.dataOffset + 16 + u.old.size ≤ undoPage.dataEndOffset)
    (hold : u.old.Fits) (hcurr : curr < 2 ^ 64) (hno : u.headItem.pageno = no) :
    ItemsStay f (Toadb.updateLocked curr u undono f).2 (Only no u.headItem.itemOffset) := by
  unfold Toadb.updateLocked
  simp only [hundo]
  split
  · exact .refl f
  · have hcopy := hf.appendRow hundo (ColumnUpdate.undoRow_fits (u := u) hold hcurr) hspace
    have hpage' : (f.set undono (writeRowOnePage undoPage (u.undoRow curr)).1).page no
        = some page := by
      rw [set_page_of_ne _ _ hne, hpage]
    exact ItemsStay.trans (.append ⟨_, hf.layout _ _ hundo⟩ hundo (u.undoRow curr))
      (hcopy.1.itemsStay_newRow hpage' htype hno _)

theorem FileOk.undoSpace_kept (hf : FileOk f rooms) (u : ColumnUpdate) :
    RowsKept f (Toadb.undoSpace u f).2 := by
  unfold Toadb.undoSpace
  rw [hf.getPageByIndex]
  split
  · exact .refl f
  · rename_i originPage hpage
    rw [hf.num _ _ hpage]
    cases hspace : getSpaceSpecifyPage f
      (itemSize + u.oldRowSize) u.headItem.pageno .undo with
    | mk found f₁ =>
      cases found with
      | none =>
        obtain rfl := getSpaceSpecifyPage_none hspace
        exact .refl _
      | some undono => exact (hf.undoSpace hpage hspace).kept

theorem FileOk.insertColumn_stay (hf : FileOk f rooms) {curr : Nat} (hcurr : curr < 2 ^ 64)
    {col : Nat × NewRow} (hspace : SpaceFor f col.1 col.2.1.size) :
    RowsStay f (insertColumn curr f col) T := by
  obtain ⟨page, hpage, hspace⟩ := spaceFor_iff.mp hspace
  unfold insertColumn
  rw [hpage]
  refine ⟨fun no o r _ hr => ?_, .append ⟨_, hf.layout _ _ hpage⟩ hpage _⟩
  exact (hf.appendRow hpage (insertedRow_fits hcurr col.2) hspace).2.2 no o r hr

theorem FileOk.insert_stay {curr : Nat} (hcurr : curr < 2 ^ 64) :
    ∀ {f : TableFile} {rooms : Nat → Int → Nat} {cols : List (Nat × NewRow)}, FileOk f rooms →
      (cols.map Prod.fst).Nodup → (∀ col ∈ cols, SpaceFor f col.1 col.2.1.size) →
      RowsStay f (cols.foldl (insertColumn curr) f) T
  | _, _, [], _, _, _ => .refl _
  | f, rooms, col :: cols, hf, hnodup, hfits => by
    rw [List.map_cons, List.nodup_cons] at hnodup
    have hcol := hfits col List.mem_cons_self
    refine (hf.insertColumn_stay hcurr hcol).trans
      (FileOk.insert_stay hcurr (hf.stepInsertColumn hcurr hcol).ok hnodup.2 fun col' hmem =>
        ?_)
    have hne : col'.1 ≠ col.1 := fun heq => hnodup.1 (heq ▸ List.mem_map_of_mem hmem)
    rw [SpaceFor, insertColumn_page_of_ne hne]
    exact hfits col' (List.mem_cons_of_mem _ hmem)

/-! ## What a step does to the file -/

variable {n : Nat} {s t : TableSys n} {w : Fin n} {call : RowCall}

/-- The steps, seen from the file. -/
inductive FileEffect (s : TableSys n) (w : Fin n) (call : RowCall) (t : TableSys n) : Prop
  | none : t.file = s.file → t.written = s.written → FileEffect s w call t
  | searched (u : ColumnUpdate) : t.file = (undoSpace u s.file).2 → t.written = s.written →
      FileEffect s w call t
  | updated (u : ColumnUpdate) (undono : Nat) : call = .update →
      (s.workers w).phase = .update u undono →
      t.file = (updateLocked (s.workers w).curr u undono s.file).2 →
      t.written = (if (updateLocked (s.workers w).curr u undono s.file).1 then
        s.writeVersion u.headItem.pageno u.headItem.itemOffset
          ⟨(s.workers w).curr, u.row.data⟩
        else s).written → FileEffect s w call t
  | deleted (col : FetchedColumn) (cols : List FetchedColumn) : call = .delete →
      (s.workers w).cols = col :: cols →
      t.file = (paxExecDelete (s.workers w).curr col s.file).2 → t.written = s.written →
      FileEffect s w call t
  | inserted (cols : List (Nat × NewRow)) : (cols.map Prod.fst).Nodup →
      (∀ col ∈ cols, SpaceFor s.file col.1 col.2.1.size) →
      t.file = cols.foldl (insertColumn (s.workers w).curr) s.file → t.written = s.written →
      FileEffect s w call t
  | extended (num : Nat) : t.file = extensionTbl num s.file → t.written = s.written →
      FileEffect s w call t

theorem judge_effect (row : RowColumnData) : FileEffect s w call (judge s w no o row) := by
  unfold judge
  dsimp only
  split <;> exact .none rfl rfl

theorem scanRow_effect {index : Nat} (hstep : scanRow no index s w = some t) :
    FileEffect s w call t := by
  unfold scanRow at hstep
  split at hstep
  · split at hstep
    · cases hstep
      exact judge_effect _
    · cases hstep
      exact .none rfl rfl
  · cases hstep

theorem walkVersion_effect (hstep : walkVersion s w = some t) : FileEffect s w call t := by
  unfold walkVersion at hstep
  split at hstep
  · split at hstep
    · cases hstep
      exact judge_effect _
    · cases hstep
      exact .none rfl rfl
  · cases hstep

theorem fetchRow_effect {index : Nat} (hstep : fetchRow no index s w = some t) :
    FileEffect s w call t := by
  unfold fetchRow at hstep
  split at hstep
  · split at hstep
    · cases hstep
      exact .none rfl rfl
    · cases hstep
      exact .none rfl rfl
  · cases hstep

theorem copyItem_effect (hstep : copyItem s w = some t) : FileEffect s w call t := by
  unfold copyItem at hstep
  dsimp only at hstep
  split at hstep
  · cases hstep
  · split at hstep
    · cases hstep
      exact .none rfl rfl
    · cases hstep

theorem findUndoPage_effect {row : NewRow} {others : Nat}
    (hstep : findUndoPage row others s w = some t) : FileEffect s w call t := by
  unfold findUndoPage at hstep
  dsimp only at hstep
  split at hstep
  · cases hstep
  · rename_i col cols hcols
    split at hstep
    · split at hstep
      · rename_i f hspace
        cases hstep
        exact .searched _ (congrArg Prod.snd hspace).symm rfl
      · rename_i undono f hspace
        cases hstep
        exact .searched _ (congrArg Prod.snd hspace).symm rfl
    · cases hstep

theorem updateRows_effect (hstep : updateRows s w = some t) : FileEffect s w .update t := by
  unfold updateRows at hstep
  dsimp only at hstep
  split at hstep
  · rename_i u undono hphase
    split at hstep
    · split at hstep
      · rename_i f hdone
        cases hstep
        exact .updated u undono rfl hphase (by rw [hdone]; rfl) (by rw [hdone]; rfl)
      · rename_i f hdone
        cases hstep
        exact .updated u undono rfl hphase (by rw [hdone]; rfl) (by rw [hdone]; rfl)
    · cases hstep
  · cases hstep

theorem deleteRow_effect (hstep : deleteRow s w = some t) : FileEffect s w .delete t := by
  unfold deleteRow at hstep
  dsimp only at hstep
  split at hstep
  · cases hstep
  · rename_i col cols hcols
    split at hstep
    · split at hstep
      · rename_i f hdone
        cases hstep
        exact .deleted col cols rfl hcols (congrArg Prod.snd hdone).symm rfl
      · rename_i f hdone
        cases hstep
        exact .deleted col cols rfl hcols (congrArg Prod.snd hdone).symm rfl
    · cases hstep

theorem insertRow_effect {cols : List (Nat × NewRow)} (hstep : insertRow cols s w = some t) :
    FileEffect s w call t := by
  unfold insertRow at hstep
  dsimp only at hstep
  split at hstep
  · rename_i hcond
    split at hstep
    · rename_i hspace
      rw [List.splitAt_eq] at hstep
      have hsub : (cols.take maxLocalLockNum).Sublist cols := List.take_sublist ..
      have hnodup := hcond.1.sublist (hsub.map Prod.fst)
      have hfits : ∀ col ∈ cols.take maxLocalLockNum, SpaceFor s.file col.1 col.2.1.size :=
        fun col hcol => spaceFor_of_freeSpaceCheck hspace (hsub.subset hcol)
      cases hstep
      split <;> exact .inserted _ hnodup hfits rfl rfl
    · cases hstep
      exact .none rfl rfl
  · cases hstep

theorem insertNext_effect (hroom : StepRoom s (w, .insertNext))
    (hstep : insertNext s w = some t) :
    FileEffect s w call t := by
  unfold insertNext at hstep
  dsimp only at hstep
  split at hstep
  · rename_i locked col rest hphase
    have hspace : SpaceFor s.file col.1 col.2.1.size := by
      simpa [StepRoom, hphase] using hroom
    cases hstep
    refine .inserted [col] (by simp) (fun col' hcol' => ?_) rfl rfl
    rw [List.mem_singleton.mp hcol']
    exact hspace
  · cases hstep

theorem tableStep_effect (hroom : StepRoom s (w, call))
    (hstep : tableStep s (w, call) = some t) :
    FileEffect s w call t := by
  unfold tableStep at hstep
  split at hstep
  · exact walkVersion_effect hstep
  · rename_i heq
    cases heq
    exact updateRows_effect hstep
  · rename_i heq
    cases heq
    exact insertNext_effect hroom hstep
  · cases hstep
    exact .none rfl rfl
  · exact scanRow_effect hstep
  · exact fetchRow_effect hstep
  · exact copyItem_effect hstep
  · exact findUndoPage_effect hstep
  · rename_i heq _
    cases heq
    exact deleteRow_effect hstep
  · exact insertRow_effect hstep
  · cases hstep
    exact .extended _ rfl rfl
  · cases hstep

/-! ## Fresh copies -/

/-- The item and the row a worker has copied are still the ones on the page. -/
def FreshCopy (f : TableFile) (headItem : HeapItemData) (old : RowColumnData) : Prop :=
  match getPageByIndex f headItem.pageno with
  | some page => page.item headItem.itemOffset = headItem.itemData ∧
      rowByIndex f headItem.pageno headItem.itemOffset = some old
  | none => False

instance (f : TableFile) (headItem : HeapItemData) (old : RowColumnData) :
    Decidable (FreshCopy f headItem old) := by
  unfold FreshCopy
  split <;> infer_instance

/-- A writer whose test passes works from copies that are fresh. -/
def StepFresh (s : TableSys n) (a : Fin n × RowCall) : Prop :=
  match a.2, (s.workers a.1).phase, (s.workers a.1).cols with
  | .update, .update u _, _ =>
    tupleUpdateSatisfy (s.workers a.1).curr u.old.headerData = .ok →
      FreshCopy s.file u.headItem u.old
  | .delete, _, col :: _ => tupleUpdateSatisfy (s.workers a.1).curr col.old.headerData = .ok →
      FreshCopy s.file col.headItem col.old
  | _, _, _ => True

instance (s : TableSys n) (a : Fin n × RowCall) : Decidable (StepFresh s a) := by
  obtain ⟨w, call⟩ := a
  delta StepFresh
  generalize (s.workers w).phase = phase, (s.workers w).cols = cols
  cases call <;> cases phase <;> cases cols <;> infer_instance

/-- The condition on a step: the room it needs, and fresh copies. -/
def StepSafe (s : TableSys n) (a : Fin n × RowCall) : Prop := StepRoom s a ∧ StepFresh s a

instance (s : TableSys n) (a : Fin n × RowCall) : Decidable (StepSafe s a) := by
  unfold StepSafe; infer_instance

theorem FreshCopy.rowAt (hf : FileOk f rooms) {headItem : HeapItemData} {old : RowColumnData}
    (hc : CopyOk f headItem.pageno headItem.itemOffset old) (h : FreshCopy f headItem old)
    (hpage : f.page headItem.pageno = some page) :
    headItem = ⟨headItem.pageno, headItem.itemOffset, page.item headItem.itemOffset⟩ ∧
      RowAt f headItem.pageno headItem.itemOffset old := by
  unfold FreshCopy at h
  rw [hf.getPageByIndex, hpage] at h
  obtain ⟨hitem, hrow⟩ := h
  obtain ⟨i, hi⟩ := hc.item
  refine ⟨by rw [hitem], ?_⟩
  rw [hi] at hrow ⊢
  exact hf.rowAt_of_rowByIndex hc.page hrow

/-! ## Histories -/

/-- The row of an item that holds one leads its history. -/
theorem RowHistory.ofRow (h : RowHistory f no o vs) (hr : RowAt f no o r) :
    ∃ rs, UndoChain f r.headerData.undo rs ∧ (r :: rs).map RowColumnData.version = vs := by
  obtain ⟨r', rs, ⟨-, hrow | ⟨page, hpage, -, -, hredirect, -⟩⟩, hchain, hvs⟩ := h
  · rw [hrow.unique hr] at hchain hvs
    exact ⟨rs, hchain, hvs⟩
  · obtain ⟨hitem, -⟩ := hr.stored hpage
    rw [hitem.redirect] at hredirect
    cases hredirect

theorem only_isDataPage (hd : IsDataPage f no) :
    ∀ no' o', Only no o no' o' → IsDataPage f no' := by
  rintro no' o' ⟨rfl, -⟩
  exact hd

/-- An update with fresh copies puts its version in front of the row it is about
and leaves the histories of all other rows. -/
theorem TableInv.history_update (h : TableInv s) {u : ColumnUpdate} {undono : Nat}
    (hphase : (s.workers w).phase = .update u undono) (hroom : UpdateFits s w u undono)
    (hfresh : tupleUpdateSatisfy (s.workers w).curr u.old.headerData = .ok →
      FreshCopy s.file u.headItem u.old) {done : Bool}
    (hdone : updateLocked (s.workers w).curr u undono s.file = (done, f'))
    (hh : RowHistory s.file no o (s.written no o ++ vs)) :
    RowHistory f' no o ((if done then
      s.writeVersion u.headItem.pageno u.headItem.itemOffset ⟨(s.workers w).curr, u.row.data⟩
      else s).written no o ++ vs) := by
  have hfile := h.updateStep hphase hroom
  rw [hdone] at hfile
  have hok := (h.workers w).phase
  rw [hphase] at hok
  obtain ⟨hcopy, hrow, undoPage, hundo, hundotype⟩ := hok
  obtain ⟨page, hpage, htype⟩ := hcopy.page
  by_cases htest : tupleUpdateSatisfy (s.workers w).curr u.old.headerData = .ok
  · obtain ⟨hbound, hspace, -⟩ := hroom htest
    have hspace := hspace.of_page hundo
    obtain ⟨hpos, hat⟩ := (hfresh htest).rowAt h.file hcopy hpage
    have hne : u.headItem.pageno ≠ undono :=
      ne_of_pageType hpage hundo (by simp [htype, hundotype])
    have hitems := h.file.itemsStay_update hpage htype hundo hne hspace hcopy.fits
      (s.workers w).curr.lt rfl
    rw [hdone] at hitems
    have hdata := only_isDataPage (o := u.headItem.itemOffset) hcopy.page
    by_cases hrow' : Only u.headItem.pageno u.headItem.itemOffset no o
    · -- The row of the update.
      obtain ⟨rfl, rfl⟩ := hrow'
      obtain ⟨rs, hchain, hvs⟩ := hh.ofRow hat
      cases done with
      | false =>
        have hleft :=
          h.file.updateLocked_false hpage hundo (Ne.symm hne) hspace hpos hcopy.fits
            (s.workers w).curr.lt hdone
        exact ⟨u.old, rs, ⟨hfile.isDataPage hcopy.page, .inl (hleft.rows _ _ _ hat)⟩,
          hfile.undoChain hchain, hvs⟩
      | true =>
        obtain ⟨-, pos, -, hposno, hundoAt, hstay, haway⟩ :=
          h.file.updateLocked hbound hpage hundo
          (Ne.symm hne) hspace hpos hat hrow (s.workers w).curr.lt hdone
        obtain ⟨p, hp, hptype⟩ := hfile.types undono _ hundo
        have hcopied : UndoRow f' pos (u.undoRow (s.workers w).curr) :=
          ⟨⟨p, hposno ▸ hp, hptype.trans hundotype⟩, hundoAt⟩
        refine ⟨u.newRow (s.workers w).curr pos, u.undoRow (s.workers w).curr :: rs,
          ⟨hfile.isDataPage hcopy.page, ?_⟩, .next hcopied (hfile.undoChain hchain), ?_⟩
        · by_cases hstays : StaysOnPage page u.old u.row
          · exact .inl (hstay hstays)
          · exact .inr (haway hstays).2
        · rw [if_pos rfl, TableSys.writeVersion]
          dsimp only
          rw [if_pos ⟨rfl, rfl⟩, List.cons_append, ← hvs]
          rfl
    · -- Another row.
      have hwritten : (if done then s.writeVersion u.headItem.pageno u.headItem.itemOffset
          ⟨(s.workers w).curr, u.row.data⟩ else s).written no o = s.written no o := by
        split
        · exact if_neg hrow'
        · rfl
      rw [hwritten]
      refine RowsStay.history ⟨fun no' o' r hno' hr => ?_, hitems⟩ hfile hdata hrow' hh
      cases done with
      | false =>
        have hleft :=
          h.file.updateLocked_false hpage hundo (Ne.symm hne) hspace hpos hcopy.fits
            (s.workers w).curr.lt hdone
        exact hleft.rows no' o' r hr
      | true =>
        obtain ⟨-, pos, hwr, -⟩ := h.file.updateLocked hbound hpage hundo
          (Ne.symm hne) hspace hpos hat hrow (s.workers w).curr.lt hdone
        exact hwr.others no' o' r hno' hr
  · -- The update is refused before it writes.
    rw [updateLocked, hundo] at hdone
    dsimp only at hdone
    rw [if_pos htest] at hdone
    obtain ⟨rfl, rfl⟩ := Prod.mk.inj hdone
    exact hh

/-- A delete with fresh copies leaves all histories. -/
theorem TableInv.history_delete (h : TableInv s) {col : FetchedColumn}
    {cols : List FetchedColumn}
    (hcols : (s.workers w).cols = col :: cols) (hroom : DeleteFits s w col)
    (hfresh : tupleUpdateSatisfy (s.workers w).curr col.old.headerData = .ok →
      FreshCopy s.file col.headItem col.old) (hh : RowHistory s.file no o vs) :
    RowHistory (paxExecDelete (s.workers w).curr col s.file).2 no o vs := by
  have hcopy := (h.workers w).cols col (hcols ▸ List.mem_cons_self)
  obtain ⟨page, hpage, htype⟩ := hcopy.page
  have hfile := h.file.stepDelete hpage htype hcopy.fits (s.workers w).curr.lt hroom
  unfold paxExecDelete at hfile ⊢
  rw [h.file.getPageByIndex, hpage] at hfile ⊢
  dsimp only at hfile ⊢
  split
  · exact hh
  · rename_i htest
    rw [if_neg htest] at hfile
    obtain ⟨hpos, hat⟩ := (hfresh (not_not.mp htest)).rowAt h.file hcopy hpage
    have hdeleted := deletedRow_fits hcopy.fits (s.workers w).curr.lt
    obtain ⟨-, hnew, hothers⟩ := h.file.replaceRow hpage hat hdeleted (Nat.le_refl _)
    have hitem : col.headItem.itemData = page.item col.headItem.itemOffset :=
      congrArg HeapItemData.itemData hpos
    rw [hitem] at hfile ⊢
    by_cases hrow : Only col.headItem.pageno col.headItem.itemOffset no o
    · obtain ⟨rfl, rfl⟩ := hrow
      obtain ⟨rs, hchain, hvs⟩ := hh.ofRow hat
      exact ⟨deletedRow (s.workers w).curr col.old, rs,
        ⟨hfile.isDataPage hcopy.page, .inl hnew⟩, hfile.undoChain hchain, hvs⟩
    · exact RowsStay.history ⟨fun no' o' r hno' hr => hothers no' o' r hno' hr,
        .set hpage fun _ _ hitem' => ⟨hitem', rfl⟩⟩ hfile (only_isDataPage hcopy.page) hrow hh

/-- Nothing is touched. -/
def Untouched (_ : Nat) (_ : Int) : Prop := False

/-- A step with fresh copies puts the version it writes in front. -/
theorem TableInv.history_step {a : Fin n × RowCall} (h : TableInv s) (hsafe : StepSafe s a)
    (hstep : tableStep s a = some t) (hh : RowHistory s.file no o (s.written no o ++ vs)) :
    RowHistory t.file no o (t.written no o ++ vs) := by
  obtain ⟨w, call⟩ := a
  obtain ⟨hroom, hfresh⟩ := hsafe
  have hnone : ∀ no o, Untouched no o → IsDataPage s.file no := fun _ _ hT => hT.elim
  cases tableStep_effect hroom hstep with
  | none hfile hwritten =>
    rw [hfile, hwritten]
    exact hh
  | searched u hfile hwritten =>
    rw [hfile, hwritten]
    exact RowsStay.history (.ofKept (h.file.undoSpace_kept u))
      (h.file.stepUndoSpace (P := fun _ => False) u).1 hnone id hh
  | updated u undono hcall hphase hfile hwritten =>
    subst hcall
    simp only [StepRoom, hphase] at hroom
    simp only [StepFresh, hphase] at hfresh
    rw [hfile, hwritten]
    exact h.history_update hphase hroom hfresh rfl hh
  | deleted col cols hcall hcols hfile hwritten =>
    subst hcall
    simp only [StepRoom, hcols] at hroom
    simp only [StepFresh, hcols] at hfresh
    rw [hfile, hwritten]
    exact h.history_delete hcols hroom hfresh hh
  | inserted cols hnodup hfits hfile hwritten =>
    rw [hfile, hwritten]
    exact RowsStay.history (h.file.insert_stay (s.workers w).curr.lt hnodup hfits)
      (FileOk.stepInsert (s.workers w).curr.lt h.file hnodup hfits).1 hnone id hh
  | extended num hfile hwritten =>
    obtain ⟨hok, hkept, hend⟩ := h.file.extensionTbl num
    rw [hfile, hwritten]
    exact RowsStay.history (.ofKept hkept)
      (.ofKept (P := fun _ => False) hok hkept hend) hnone id hh

/-! ## Two runs -/

/-- A table with one row. -/
def rowTable : TableSys 2 := withColumn (newTable 2) (2, newValue 9)

theorem rowHistory_rowTable : TableInit rowTable ∧
    RowHistory rowTable.file 2 40 [⟨0, List.replicate 9 7⟩] := by
  have hnew := (tableInit_newTable 2).inv
  have hinv := hnew.withColumn (2, newValue 9) (by decide)
  have hpage : (newTable 2).file.page 2 = some (initPage 2) := rfl
  have hfits : (insertedRow 0 (newValue 9).1).Fits := insertedRow_fits (by norm_num) _
  obtain ⟨-, hat, -⟩ := hnew.file.appendRow hpage hfits (by decide)
  refine ⟨⟨hinv.file, hinv.links, fun _ => ⟨rfl, rfl, rfl⟩⟩, _, [],
    ⟨?_, .inl hat⟩, .last rfl, rfl⟩
  exact ⟨_, set_page_self .., rfl⟩

theorem one_lt_invalidXtid : 1 < invalidXtid := by decide

theorem two_lt_invalidXtid : 2 < invalidXtid := by decide

/-- A statement of transaction `curr` that sees the ids below `high` fetches the row
for an update. -/
def fetchRowUpdate (w : Fin 2) (curr : Xtid) (high : Nat) (row : NewRow) :
    List (Fin 2 × RowCall) :=
  (w, .statement curr (some ⟨high, high, 0, []⟩)) :: fetchUndo w 0 row

/-- The second transaction fetches the row after the first has written it. -/
def inTurn : List (Fin 2 × RowCall) :=
  fetchRowUpdate 0 ⟨1, one_lt_invalidXtid⟩ 1 (newValue 5) ++ [(0, .update)] ++
    fetchRowUpdate 1 ⟨2, two_lt_invalidXtid⟩ 2 (newValue 12) ++ [(1, .update)]

/-- Both transactions fetch the row before either writes. -/
def atOnce : List (Fin 2 × RowCall) :=
  fetchRowUpdate 0 ⟨1, one_lt_invalidXtid⟩ 1 (newValue 5) ++
    fetchRowUpdate 1 ⟨2, two_lt_invalidXtid⟩ 1 (newValue 6) ++ [(0, .update), (1, .update)]

/-! ## The result -/

/-- In every run whose writers work from fresh copies, the chain of a row is the
versions written to it, the newest first, and the chain it had at the start. -/
theorem rowVersions_written {s₀ s : TableSys n} {acts : List (Fin n × RowCall)}
    (h₀ : TableInit s₀) (hwritten : s₀.written no o = []) (hh : RowHistory s₀.file no o vs)
    (hsafe : Along tableStep StepSafe s₀ acts) (hrun : run tableStep s₀ acts = some s) :
    ∃ k, ∀ fuel, k ≤ fuel → rowVersions s.file no o fuel = s.written no o ++ vs := by
  have hstart : TableInv s₀ ∧ RowHistory s₀.file no o (s₀.written no o ++ vs) := by
    rw [hwritten, List.nil_append]
    exact ⟨h₀.inv, hh⟩
  obtain ⟨hinv, hend⟩ := run_invariant
    (I := fun s => TableInv s ∧ RowHistory s.file no o (s.written no o ++ vs))
    (fun h hok hstep => ⟨h.1.step hok.1 hstep, h.1.history_step hok hstep h.2⟩) hstart
      hsafe hrun
  exact hend.rowVersions hinv.file

/-- Two updates of a row in turn. -/
theorem rowVersions_inTurn : ∃ s k, run tableStep rowTable inTurn = some s ∧
    ∀ fuel, k ≤ fuel → rowVersions s.file 2 40 fuel
      = [⟨2, List.replicate 12 7⟩, ⟨1, List.replicate 5 7⟩, ⟨0, List.replicate 9 7⟩] := by
  have hrun : run tableStep rowTable inTurn = some (exec tableStep rowTable inTurn) :=
    run_exec (by decide)
  obtain ⟨k, hk⟩ := rowVersions_written rowHistory_rowTable.1 rfl rowHistory_rowTable.2
    (by decide) hrun
  have hwritten : (exec tableStep rowTable inTurn).written 2 40
      = [⟨2, List.replicate 12 7⟩, ⟨1, List.replicate 5 7⟩] := by decide
  rw [hwritten] at hk
  exact ⟨_, k, hrun, hk⟩

/-- Two updates at once: both succeed, and the version of the first is gone. -/
theorem update_lost : ∃ s, TableInit rowTable ∧
    RowHistory rowTable.file 2 40 [⟨0, List.replicate 9 7⟩] ∧
    run tableStep rowTable atOnce = some s ∧
    s.written 2 40 = [⟨2, List.replicate 6 7⟩, ⟨1, List.replicate 5 7⟩] ∧
    ∀ fuel, 3 ≤ fuel →
      rowVersions s.file 2 40 fuel = [⟨2, List.replicate 6 7⟩, ⟨0, List.replicate 9 7⟩] := by
  have hrun : run tableStep rowTable atOnce = some (exec tableStep rowTable atOnce) :=
    run_exec (by decide)
  have hchain : rowVersions (exec tableStep rowTable atOnce).file 2 40 3
      = [⟨2, List.replicate 6 7⟩, ⟨0, List.replicate 9 7⟩] := by decide
  refine ⟨_, rowHistory_rowTable.1, rowHistory_rowTable.2, hrun, by decide, ?_⟩
  rw [← hchain]
  exact rowVersions_stable (by decide)

end Toadb
