/-
Toadb.Storage.AlignmentTheorems — the columns of a group under any number of workers.

`GroupSys` adds the rows that were inserted into one group, in order, to the state of the
workers; no step reads them. The columns are aligned (`ColumnsAligned`) when the row items of
each page are those of the inserted rows, and item `index` of each page leads to values of row
`index`: the one that was inserted, and those updates have written since.

An insert holds the locks of the first columns until its last column is written, so the
inserts of a group come one after the other, whatever the number of columns (`Progress`).

`columns_aligned` is the result, for steps that have the room they need and updates that stay
on the page. An item that was redirected to an extension page is not found by its offset:
`columns_notAligned`.
-/
import Toadb.Storage.GroupStepTheorems

namespace Toadb

open Bytes Transition

variable {f : TableFile} {no : Nat} {o : Int} {page : PageDataHeader} {g : List Nat}
  {W X : Nat → Int → List UInt8 → Prop} {n : Nat} {s t : TableSys n} {w : Fin n}

/-! ## Inserting -/

variable {curr : Nat} {cols : List (Nat × NewRow)} {col : Nat × NewRow}

theorem foldl_insertColumn_others :
    ∀ {f : TableFile} {cols : List (Nat × NewRow)}, no ∉ cols.map Prod.fst →
    (cols.foldl (insertColumn curr) f).page no = f.page no
  | _, [], _ => rfl
  | f, c :: cols, hno => by
    rw [List.map_cons, List.mem_cons, not_or] at hno
    rw [List.foldl_cons, foldl_insertColumn_others hno.2, insertColumn_page_of_ne hno.1]

/-- The page of a column after the columns were written. -/
theorem foldl_insertColumn_page :
    ∀ {f : TableFile} {cols : List (Nat × NewRow)}, (cols.map Prod.fst).Nodup →
    col ∈ cols → f.page col.1 = some page →
    (cols.foldl (insertColumn curr) f).page col.1 = some
    (writeRowOnePage page (insertedRow curr col.2.1)).1
  | f, c :: cols, hnodup, hmem, hpage => by
    rw [List.map_cons, List.nodup_cons] at hnodup
    rw [List.foldl_cons]
    rcases List.mem_cons.mp hmem with rfl | hrest
    · have hfirst : (insertColumn curr f col).page col.1
          = some (writeRowOnePage page (insertedRow curr col.2.1)).1 := by
        rw [insertColumn, hpage]
        exact set_page_self ..
      rw [foldl_insertColumn_others hnodup.1, hfirst]
    · have hne : col.1 ≠ c.1 := fun heq => hnodup.1 (heq ▸ List.mem_map_of_mem hrest)
      exact foldl_insertColumn_page hnodup.2 hrest ((insertColumn_page_of_ne hne).trans hpage)

/-- Columns are written, of the group or not. -/
theorem GroupOk.insertColumns (h : GroupOk g W s) (hcurr : curr < 2 ^ 64)
    (hnodup : (cols.map Prod.fst).Nodup)
    (hspace : ∀ col ∈ cols, SpaceFor s.file col.1 col.2.1.size)
    (hvalues : ∀ no o d, W no o d → X no o d)
    (hnew : ∀ col ∈ cols, col.1 ∈ g → ∀ page, s.file.page col.1 = some page →
      X col.1 page.dataOffset col.2.1.data) :
    ColumnsStep g s.file s.rooms W (cols.foldl (insertColumn curr) s.file) X := by
  obtain ⟨hfile, -⟩ := FileOk.stepInsert hcurr h.table.file hnodup hspace
  refine ⟨fun pos rs hc => hfile.undoChain hc, hvalues, fun no hno page hpage => ?_⟩
  by_cases hin : no ∈ cols.map Prod.fst
  · obtain ⟨col, hcol, rfl⟩ := List.mem_map.mp hin
    have hroom := (hspace col hcol).of_page hpage
    refine ⟨_, some (page.dataOffset, insertedRow curr col.2.1),
      foldl_insertColumn_page hnodup hcol hpage,
      .appended (insertedRow_fits hcurr col.2) hroom, ?_⟩
    rintro o r ⟨⟩
    exact ⟨hnew col hcol hno page hpage, [], .last rfl, nofun⟩
  · exact ⟨page, none, (foldl_insertColumn_others hin).trans hpage, .kept (.refl page), nofun⟩

/-- Page `no` has `m` items. -/
def ItemCount (f : TableFile) (no m : Nat) : Prop :=
  ∀ page, f.page no = some page → page.dataOffset = itemOffsetOfIndex m

theorem ItemCount.keep {m : Nat} (h : ItemCount f no m) (hno : no ∉ cols.map Prod.fst) :
    ItemCount (cols.foldl (insertColumn curr) f) no m := by
  intro page hpage
  rw [foldl_insertColumn_others hno] at hpage
  exact h page hpage

theorem ItemCount.insert {m : Nat} (h : ItemCount f col.1 m)
    (hnodup : (cols.map Prod.fst).Nodup)
    (hcol : col ∈ cols) (hsome : ∃ page, f.page col.1 = some page) :
    ItemCount (cols.foldl (insertColumn curr) f) col.1 (m + 1) := by
  obtain ⟨page, hpage⟩ := hsome
  intro page' hpage'
  rw [foldl_insertColumn_page hnodup hcol hpage, Option.some.injEq] at hpage'
  rw [← hpage', writeRowOnePage_dataOffset, h page hpage, itemOffsetOfIndex_eq,
    itemOffsetOfIndex_eq]
  omega

theorem CountsKept.itemCount {m : Nat} (h : CountsKept g s.file t.file)
    (hc : ItemCount s.file no m) (hno : no ∈ g)
    (hsome : ∃ page, s.file.page no = some page) : ItemCount t.file no m := by
  obtain ⟨page, hpage⟩ := hsome
  intro page' hpage'
  rw [h no hno page page' hpage hpage', hc page hpage]

/-! ## The rows of a group -/

/-- The table, and the rows inserted into one group, in order, each value with its page. No
step reads the rows. -/
structure GroupSys (n : Nat) where
  table : TableSys n
  inserted : List (List (Nat × NewRow))

/-- The row a call inserts into group `g`. -/
def insertedBy (g : List Nat) (s : TableSys n) : RowCall → List (List (Nat × NewRow))
  | .insert cols =>
    if cols.map Prod.fst = g ∧ freeSpaceCheck s.file cols = true then [cols] else []
  | _ => []

theorem insertedBy_insert (g : List Nat) (s : TableSys n) (cols : List (Nat × NewRow)) :
    insertedBy g s (.insert cols)
      = if cols.map Prod.fst = g ∧ freeSpaceCheck s.file cols = true then [cols]
        else [] := rfl

theorem insertedBy_other {s : TableSys n} {call : RowCall} (h : ∀ cols, call ≠ .insert cols) :
    insertedBy g s call = [] := by
  cases call with
  | insert cols => exact absurd rfl (h cols)
  | _ => rfl

/-- A step of the workers, with the row it inserts. -/
def groupStep (g : List Nat) (s : GroupSys n) (a : Fin n × RowCall) : Option (GroupSys n) :=
  (tableStep s.table a).map fun t => ⟨t, s.inserted ++ insertedBy g s.table a.2⟩

/-- The values of item `o` of page `no`: the one that was inserted, and those that updates
wrote. -/
def RowValue (inserted : List (List (Nat × NewRow))) (written : Nat → Int → List RowVersion)
    (no : Nat) (o : Int) (d : List UInt8) : Prop :=
  ∃ index cols col, inserted[index]? = some cols ∧ col ∈ cols ∧ col.1 = no ∧
    o = itemOffsetOfIndex index ∧
    (d = col.2.1.data ∨ ∃ v ∈ written no o, v.data = d)

/-- How far the inserts into the group have come. -/
inductive Progress (g : List Nat) (s : TableSys n)
    (inserted : List (List (Nat × NewRow))) : Prop
  /-- Every row is complete. -/
  | between : (∀ w, (s.workers w).phase.NotInserting g) →
      (∀ no ∈ g, ItemCount s.file no inserted.length) →
      Progress g s inserted
  /-- Worker `w` has written the columns `first` of the last row. -/
  | within (w : Fin n) (before : List (List (Nat × NewRow)))
      (first rest : List (Nat × NewRow)) :
      inserted = before ++ [first ++ rest] → rest ≠ [] →
      (s.workers w).phase = .insertRest (g.take maxLocalLockNum) rest →
      (∀ w', w' ≠ w → (s.workers w').phase.NotInserting g) →
      (∀ col ∈ first, ItemCount s.file col.1 (before.length + 1)) →
      (∀ col ∈ rest, ItemCount s.file col.1 before.length) → Progress g s inserted

/-- The invariant of the group. -/
structure GroupInv (g : List Nat) (s : GroupSys n) : Prop where
  nodup : g.Nodup
  group : GroupOk g (RowValue s.inserted s.table.written) s.table
  rows : ∀ cols ∈ s.inserted, cols.map Prod.fst = g
  progress : Progress g s.table s.inserted

theorem GroupInv.lastRow {s : GroupSys n} (h : GroupInv g s)
    {before : List (List (Nat × NewRow))}
    {cols : List (Nat × NewRow)} (hins : s.inserted = before ++ [cols]) :
    cols.map Prod.fst = g :=
  h.rows cols (by rw [hins]; simp)

theorem RowValue.mono {inserted more : List (List (Nat × NewRow))}
    {written written' : Nat → Int → List RowVersion}
    (hwritten : ∀ no o, ∀ v ∈ written no o, v ∈ written' no o) {d : List UInt8}
    (h : RowValue inserted written no o d) : RowValue (inserted ++ more) written' no o d := by
  obtain ⟨index, cols, col, hget, hcol, hno, ho, hd⟩ := h
  obtain ⟨hlt, -⟩ := List.getElem?_eq_some_iff.mp hget
  refine ⟨index, cols, col, by rw [List.getElem?_append_left hlt, hget], hcol, hno,
    ho, hd.imp_right ?_⟩
  rintro ⟨v, hv, rfl⟩
  exact ⟨v, hwritten no o v hv, rfl⟩

theorem RowValue.written {inserted : List (List (Nat × NewRow))}
    {written written' : Nat → Int → List RowVersion}
    {d : List UInt8} (h : RowValue inserted written no o d) {v : RowVersion}
    (hv : v ∈ written' no o) :
    RowValue inserted written' no o v.data := by
  obtain ⟨index, cols, col, hget, hcol, hno, ho, -⟩ := h
  exact ⟨index, cols, col, hget, hcol, hno, ho, .inr ⟨v, hv, rfl⟩⟩

theorem GroupOk.somePage (h : GroupOk g W s) (hno : no ∈ g) :
    ∃ page, s.file.page no = some page := by
  obtain ⟨page, hpage, -⟩ := (h.columns no hno).page
  exact ⟨page, hpage⟩

/-- The columns that are left to write are of the group. -/
theorem not_notInserting {locked : List Nat} {first rest : List (Nat × NewRow)}
    (hcols : (first ++ rest).map Prod.fst = g) (hrest : rest ≠ []) :
    ¬ (RowPhase.insertRest locked rest).NotInserting g := by
  intro hnot
  obtain ⟨col, hcol⟩ := List.exists_mem_of_ne_nil rest hrest
  refine hnot col hcol ?_
  rw [← hcols]
  exact List.mem_map_of_mem (List.mem_append_right first hcol)

/-- A step that inserts nothing into the group. -/
theorem GroupInv.quiet {s : GroupSys n} {t : TableSys n} (h : GroupInv g s) (ht : TableInv t)
    (hstep : GroupStep g (RowValue s.inserted s.table.written)
      (RowValue s.inserted t.written) s.table t) :
    GroupInv g ⟨t, s.inserted⟩ := by
  refine ⟨h.nodup, h.group.step hstep ht, h.rows, ?_⟩
  have hcount : ∀ no ∈ g, ∀ m, ItemCount s.table.file no m → ItemCount t.file no m :=
    fun no hno m hm => hstep.counts.itemCount hm hno (h.group.somePage hno)
  have hquiet : ∀ w, (s.table.workers w).phase.NotInserting g →
      (t.workers w).phase.NotInserting g := by
    intro w hw
    rcases hstep.phases w with heq | ⟨-, hw'⟩
    · rwa [heq]
    · exact hw'
  cases h.progress with
  | between hidle hcounts =>
    exact .between (fun w => hquiet w (hidle w)) fun no hno =>
      hcount no hno _ (hcounts no hno)
  | within w before first rest hins hrest hphase hothers hfirst hleft =>
    have hcols := h.lastRow hins
    have hin : ∀ col ∈ first ++ rest, col.1 ∈ g :=
      fun col hcol => hcols ▸ List.mem_map_of_mem hcol
    refine .within w before first rest hins hrest ?_
      (fun w' hw' => hquiet w' (hothers w' hw')) ?_ ?_
    · rcases hstep.phases w with heq | ⟨hnot, -⟩
      · rw [heq, hphase]
      · rw [hphase] at hnot
        exact absurd hnot (not_notInserting hcols hrest)
    · exact fun col hcol =>
        hcount _ (hin col (List.mem_append_left _ hcol)) _ (hfirst col hcol)
    · exact fun col hcol =>
        hcount _ (hin col (List.mem_append_right _ hcol)) _ (hleft col hcol)

/-- The phase of a worker that has the columns `rest` left to write. -/
def restPhase (locked : List Nat) (rest : List (Nat × NewRow)) : RowPhase :=
  if rest = [] then .ready else .insertRest locked rest

/-- Either there is no space, or the first columns are written. -/
theorem insertRow_cases (hready : (s.workers w).phase = .ready)
    (hstep : insertRow cols s w = some t) :
    (freeSpaceCheck s.file cols = false ∧ t = s) ∨
      freeSpaceCheck s.file cols = true ∧ (cols.map Prod.fst).Nodup ∧
      (∀ col ∈ cols.take maxLocalLockNum, lockFree s w col.1 = true) ∧
      t.file = (cols.take maxLocalLockNum).foldl (insertColumn (s.workers w).curr) s.file ∧
      t.written = s.written ∧ t.workers = Function.update s.workers w { s.workers w with
        phase := restPhase ((cols.take maxLocalLockNum).map Prod.fst)
          (cols.drop maxLocalLockNum) } := by
  unfold Toadb.insertRow at hstep
  dsimp only at hstep
  rw [List.splitAt_eq] at hstep
  split at hstep
  · rename_i hcond
    obtain ⟨hnodup, -, hlocks⟩ := hcond
    split at hstep
    · rename_i hspace
      refine .inr ⟨hspace, hnodup, List.all_eq_true.mp hlocks, ?_⟩
      cases hstep
      unfold restPhase
      split
      · have hsame : { s.workers w with phase := RowPhase.ready } = s.workers w := by
          rw [← hready]
        exact ⟨rfl, rfl, by rw [hsame, Function.update_eq_self]; rfl⟩
      · exact ⟨rfl, rfl, rfl⟩
    · rename_i hspace
      cases hstep
      exact .inl ⟨by simpa using hspace, rfl⟩
  · cases hstep

theorem insertNext_cases (hstep : insertNext s w = some t) :
    ∃ locked col rest, (s.workers w).phase = .insertRest locked (col :: rest) ∧
      t.file = [col].foldl (insertColumn (s.workers w).curr) s.file ∧ t.written = s.written ∧
      t.workers = Function.update s.workers w
        { s.workers w with phase := restPhase locked rest } := by
  unfold Toadb.insertNext at hstep
  dsimp only at hstep
  split at hstep
  · rename_i locked col rest hphase
    cases hstep
    exact ⟨locked, col, rest, hphase, rfl, rfl, rfl⟩
  · cases hstep

theorem restPhase_inHand (locked : List Nat) (rest : List (Nat × NewRow)) :
    (restPhase locked rest).InHand g f W := by
  unfold restPhase
  split <;> trivial

theorem restPhase_notInserting {locked : List Nat} {rest : List (Nat × NewRow)}
    (h : ∀ col ∈ rest, col.1 ∉ g) :
    (restPhase locked rest).NotInserting g := by
  unfold restPhase
  split
  · trivial
  · exact h

/-- Columns of other pages are written. -/
theorem GroupOk.insert_elsewhere (h : GroupOk g W s) {locked : List Nat}
    {first rest : List (Nat × NewRow)} (hnodup : (first.map Prod.fst).Nodup)
    (hspace : ∀ col ∈ first, SpaceFor s.file col.1 col.2.1.size)
    (hno : ∀ col ∈ first ++ rest, col.1 ∉ g) (hquiet : (s.workers w).phase.NotInserting g)
    (hfile : t.file = first.foldl (insertColumn (s.workers w).curr) s.file)
    (hworkers : t.workers =
      Function.update s.workers w { s.workers w with phase := restPhase locked rest }) :
    GroupStep g W W s t := by
  have hk := h.hands w
  have hcolumns := h.insertColumns (s.workers w).curr.lt hnodup hspace (fun _ _ _ hd => hd)
    fun col hcol hin => absurd hin (hno col (List.mem_append_left _ hcol))
  rw [← hfile] at hcolumns
  refine h.stepWorker hcolumns (fun no hin page page' hpage hpage' => ?_) hworkers
    (hcolumns.handOk h.table.file ⟨restPhase_inHand locked rest, hk.rows, hk.cols⟩)
    (.inr ⟨hquiet, restPhase_notInserting fun col hcol =>
      hno col (List.mem_append_right _ hcol)⟩)
  have hnotFirst : no ∉ first.map Prod.fst := by
    intro hmem
    obtain ⟨col, hcol, rfl⟩ := List.mem_map.mp hmem
    exact hno col (List.mem_append_left _ hcol) hin
  rw [hfile, foldl_insertColumn_others hnotFirst, hpage, Option.some.injEq] at hpage'
  rw [hpage']

/-- The columns `now` of the last row are written. -/
theorem GroupInv.writeColumns {s : GroupSys n} {t : TableSys n}
    (h : GroupInv g s) (ht : TableInv t) {before more : List (List (Nat × NewRow))}
    {first now rest : List (Nat × NewRow)} {locked : List Nat}
    (hins : s.inserted ++ more = before ++ [first ++ now ++ rest])
    (hrows : ∀ cols ∈ s.inserted ++ more, cols.map Prod.fst = g)
    (hspace : ∀ col ∈ now, SpaceFor s.table.file col.1 col.2.1.size)
    (hfirst : ∀ col ∈ first, ItemCount s.table.file col.1 (before.length + 1))
    (hleft : ∀ col ∈ now ++ rest, ItemCount s.table.file col.1 before.length)
    (hothers : ∀ w', w' ≠ w → (s.table.workers w').phase.NotInserting g)
    (hlocked : rest ≠ [] → locked = g.take maxLocalLockNum)
    (hfile : t.file = now.foldl (insertColumn (s.table.workers w).curr) s.table.file)
    (hwritten : t.written = s.table.written)
    (hworkers : t.workers = Function.update s.table.workers w
      { s.table.workers w with phase := restPhase locked rest }) :
    GroupInv g ⟨t, s.inserted ++ more⟩ := by
  have hk := h.group.hands w
  have hcols : (first ++ now ++ rest).map Prod.fst = g := hrows _ (by rw [hins]; simp)
  have hin : ∀ col ∈ first ++ now ++ rest, col.1 ∈ g :=
    fun col hcol => hcols ▸ List.mem_map_of_mem hcol
  -- The pages of the columns are different.
  have hnodup := h.nodup
  rw [← hcols, List.map_append, List.map_append, List.nodup_append',
    List.nodup_append'] at hnodup
  obtain ⟨⟨-, hnow, hbehind⟩, -, hahead⟩ := hnodup
  have hkeep : ∀ col, col ∈ first ∨ col ∈ rest → col.1 ∉ now.map Prod.fst := by
    rintro col (hcol | hcol) hmem
    · exact hbehind (List.mem_map_of_mem hcol) hmem
    · exact hahead (List.mem_append_right _ hmem) (List.mem_map_of_mem hcol)
  have hsome : ∀ col ∈ first ++ now ++ rest, ∃ page, s.table.file.page col.1 = some page :=
    fun col hcol => h.group.somePage (hin col hcol)
  have hcolumns := h.group.insertColumns (X := RowValue (s.inserted ++ more) s.table.written)
    (s.table.workers w).curr.lt hnow hspace (fun no o d hd => hd.mono fun _ _ _ hv => hv) (by
      intro col hcol _ page hpage
      rw [hleft col (List.mem_append_left _ hcol) page hpage]
      exact ⟨before.length, first ++ now ++ rest, col, by rw [hins]; simp, by
        simp [hcol], rfl, rfl, .inl rfl⟩)
  rw [← hfile] at hcolumns
  have hhands := h.group.hands_update hcolumns hworkers
    (hcolumns.handOk h.group.table.file ⟨restPhase_inHand locked rest, hk.rows, hk.cols⟩)
  have hgroup : GroupOk g (RowValue (s.inserted ++ more) t.written) t := by
    rw [hwritten]
    exact ⟨ht, fun no hno =>
      hcolumns.columnOk h.group.table.file hno (h.group.columns no hno), hhands⟩
  have hphases : ∀ w', w' ≠ w → (t.workers w').phase.NotInserting g := by
    intro w' hw'
    rw [hworkers, Function.update_of_ne hw']
    exact hothers w' hw'
  have hphase : (t.workers w).phase = restPhase locked rest := by
    rw [hworkers, Function.update_self]
  have hwrittenCols : ∀ col ∈ first ++ now, ItemCount t.file col.1 (before.length + 1) := by
    intro col hcol
    rw [hfile]
    rcases List.mem_append.mp hcol with hold | hnew
    · exact (hfirst col hold).keep (hkeep col (.inl hold))
    · exact (hleft col (List.mem_append_left _ hnew)).insert hnow hnew
        (hsome col (List.mem_append_left _ hcol))
  refine ⟨h.nodup, hgroup, hrows, ?_⟩
  by_cases hrest : rest = []
  · refine .between (fun w' => ?_) fun no hno => ?_
    · by_cases hw : w' = w
      · rw [hw, hphase, restPhase, if_pos hrest]
        trivial
      · exact hphases w' hw
    · rw [← hcols, hrest, List.append_nil] at hno
      obtain ⟨col, hcol, rfl⟩ := List.mem_map.mp hno
      rw [hins, List.length_append, List.length_singleton]
      exact hwrittenCols col hcol
  · refine .within w before (first ++ now) rest hins hrest ?_ hphases hwrittenCols
      fun col hcol => ?_
    · rw [hphase, restPhase, if_neg hrest, hlocked hrest]
    · rw [hfile]
      exact (hleft col (List.mem_append_right _ hcol)).keep (hkeep col (.inr hcol))

/-- No one else can be inserting when the first pages of the group are free. -/
theorem Progress.between_of_locks {inserted : List (List (Nat × NewRow))}
    (h : Progress g s inserted)
    (hrows : ∀ cols ∈ inserted, cols.map Prod.fst = g) (hready : (s.workers w).phase = .ready)
    (hlocks : ∀ no ∈ g.take maxLocalLockNum, lockFree s w no = true) :
    (∀ w, (s.workers w).phase.NotInserting g) ∧ ∀ no ∈ g,
      ItemCount s.file no inserted.length := by
  cases h with
  | between hidle hcounts => exact ⟨hidle, hcounts⟩
  | within w' before first rest hins hrest hphase _ _ _ =>
    have hcols : (first ++ rest).map Prod.fst = g := hrows _ (by rw [hins]; simp)
    have hw : w' ≠ w := by
      rintro rfl
      rw [hready] at hphase
      cases hphase
    cases hg : g.take maxLocalLockNum with
    | nil =>
      have hempty : g = [] := by simpa [maxLocalLockNum] using hg
      rw [hempty, List.map_eq_nil_iff, List.append_eq_nil_iff] at hcols
      exact absurd hcols.2 hrest
    | cons no others =>
      have hfree := of_decide_eq_true (hlocks no (hg ▸ List.mem_cons_self)) w' hw
      rw [RowWorker.locked, hphase] at hfree
      exact absurd (hg ▸ List.mem_cons_self) hfree

theorem GroupInv.insertRow {s : GroupSys n} {t : TableSys n}
    (h : GroupInv g s) (ht : TableInv t) (hready : (s.table.workers w).phase = .ready)
    (hgroup : cols.map Prod.fst = g ∨ ∀ col ∈ cols, col.1 ∉ g)
    (hstep : insertRow cols s.table w = some t) :
    GroupInv g ⟨t, s.inserted ++ insertedBy g s.table (.insert cols)⟩ := by
  rw [insertedBy_insert]
  rcases insertRow_cases hready hstep with ⟨hfull, rfl⟩ | ⟨hspace, hnodup, hlocks,
    hfile, hwritten, hworkers⟩
  · rw [if_neg (by simp [hfull]), List.append_nil]
    exact h.quiet ht h.group.idle
  have hfits : ∀ col ∈ cols.take maxLocalLockNum, SpaceFor s.table.file col.1 col.2.1.size :=
    fun col hcol => spaceFor_of_freeSpaceCheck hspace (List.mem_of_mem_take hcol)
  by_cases hg : cols.map Prod.fst = g
  · rw [if_pos ⟨hg, hspace⟩]
    have hlocked : (cols.take maxLocalLockNum).map Prod.fst = g.take maxLocalLockNum := by
      rw [List.map_take, hg]
    obtain ⟨hidle, hcounts⟩ := h.progress.between_of_locks h.rows hready (w := w) (by
      intro no hno
      rw [← hlocked] at hno
      obtain ⟨col, hcol, rfl⟩ := List.mem_map.mp hno
      exact hlocks col hcol)
    have hcols : s.inserted ++ [cols]
        = s.inserted ++ [[] ++ cols.take maxLocalLockNum ++ cols.drop maxLocalLockNum] := by
          simp
    refine h.writeColumns ht hcols ?_ hfits nofun
      (fun col hcol => hcounts _ ?_) (fun w' _ => hidle w')
        (fun _ => hlocked) hfile hwritten hworkers
    · intro cols' hcols'
      rcases List.mem_append.mp hcols' with hold | hnew
      · exact h.rows cols' hold
      · rw [List.mem_singleton.mp hnew, hg]
    · rw [List.take_append_drop] at hcol
      exact hg ▸ List.mem_map_of_mem hcol
  · rw [if_neg fun hc => hg hc.1, List.append_nil]
    have hno := hgroup.resolve_left hg
    refine h.quiet ht ?_
    rw [hwritten]
    refine h.group.insert_elsewhere
      (hnodup.sublist ((List.take_sublist ..).map Prod.fst)) hfits ?_
      (by rw [hready]; trivial) hfile hworkers
    rw [List.take_append_drop]
    exact hno

theorem GroupInv.insertNext {s : GroupSys n} {t : TableSys n}
    (h : GroupInv g s) (ht : TableInv t)
    (hroom : StepRoom s.table (w, .insertNext)) (hstep : insertNext s.table w = some t) :
    GroupInv g ⟨t, s.inserted⟩ := by
  obtain ⟨locked, col, rest, hphase, hfile, hwritten, hworkers⟩ := insertNext_cases hstep
  have hspace : ∀ col' ∈ [col], SpaceFor s.table.file col'.1 col'.2.1.size := by
    intro col' hcol'
    rw [List.mem_singleton.mp hcol']
    simpa [StepRoom, hphase] using hroom
  -- A worker that is not inserting into the group writes elsewhere.
  have helse : (s.table.workers w).phase.NotInserting g → GroupInv g ⟨t, s.inserted⟩ := by
    intro hnot
    have hno := hnot
    rw [hphase] at hno
    refine h.quiet ht ?_
    rw [hwritten]
    exact h.group.insert_elsewhere (by simp) hspace hno hnot hfile hworkers
  cases h.progress with
  | between hidle _ => exact helse (hidle w)
  | within w' before first left hins hrest hphase' hothers hfirst hleft =>
    by_cases hw : w = w'
    · subst hw
      rw [hphase, RowPhase.insertRest.injEq] at hphase'
      obtain ⟨hlocked, rfl⟩ := hphase'
      have hcols : s.inserted ++ [] = before ++ [first ++ [col] ++ rest] := by
        simpa using hins
      have hresult :=
        h.writeColumns ht hcols (by simpa using h.rows) hspace hfirst hleft hothers
          (fun _ => hlocked) hfile hwritten hworkers
      rwa [List.append_nil] at hresult
    · exact helse (hothers w hw)

/-- What a step needs for the columns to stay aligned: its room, an update of the group that
stays on its page, and an insert whose columns are those of the group, or of others. -/
def StepAligned (g : List Nat) (s : TableSys n) (a : Fin n × RowCall) : Prop :=
  StepRoom s a ∧
    match a.2, (s.workers a.1).phase with
    | .update, .update u _ => UpdateStays g s a.1 u
    | .insert cols, _ => cols.map Prod.fst = g ∨ ∀ col ∈ cols, col.1 ∉ g
    | _, _ => True

instance (g : List Nat) (s : TableSys n) (w : Fin n)
    (u : ColumnUpdate) : Decidable (UpdateStays g s w u) := by
  unfold UpdateStays; infer_instance

instance (g : List Nat) (s : TableSys n)
    (a : Fin n × RowCall) : Decidable (StepAligned g s a) := by
  obtain ⟨w, call⟩ := a
  delta StepAligned
  generalize (s.workers w).phase = phase
  induction call using RowCall.casesOn <;> induction phase using
    RowPhase.casesOn <;> infer_instance

theorem FileEffect.written {call : RowCall} (h : FileEffect s w call t)
    (hcall : call ≠ .update) :
    t.written = s.written := by
  cases h with
  | updated u undono heq => exact absurd heq hcall
  | none _ hwritten => exact hwritten
  | searched _ _ hwritten => exact hwritten
  | deleted _ _ _ _ _ hwritten => exact hwritten
  | inserted _ _ _ _ hwritten => exact hwritten
  | extended _ _ hwritten => exact hwritten

theorem GroupOk.extend (h : GroupOk g W s) (num : Nat) :
    GroupStep g W W s (s.setFile (extensionTbl num s.file)) := by
  obtain ⟨hok, hkept, hend⟩ := h.table.file.extensionTbl num
  have hcolumns : ColumnsStep g s.file s.rooms W (extensionTbl num s.file) W :=
    (FileStep.ofKept (P := fun _ => False) hok hkept hend).columnsStep (fun _ _ _ hd => hd)
      fun no _ => hkept no
  exact ⟨hcolumns, countsKept_of_sameRows fun no _ => hkept no,
    fun w => hcolumns.handOk h.table.file (h.hands w), fun _ => .inl rfl⟩

/-- A step that is neither an update nor an insert. -/
theorem GroupOk.stepOther {a : Fin n × RowCall} (h : GroupOk g W s) (hroom : StepRoom s a)
    (hupdate : a.2 ≠ .update) (hnext : a.2 ≠ .insertNext)
    (hinsert : ∀ cols, a.2 ≠ .insert cols)
    (hstep : tableStep s a = some t) : GroupStep g W W s t := by
  obtain ⟨w, call⟩ := a
  have hk := h.hands w
  unfold tableStep at hstep
  split at hstep
  · exact h.walkVersion hstep
  · rename_i heq
    exact absurd heq hupdate
  · rename_i heq
    exact absurd heq hnext
  · cases hstep
    exact h.setWorker ⟨hk.phase, by simp, by simp⟩ (.inl rfl)
  · exact h.scanRow ‹_› hstep
  · exact h.fetchRow hstep
  · exact h.copyItem hstep
  · exact h.findUndoPage ‹_› hstep
  · rename_i heq _
    cases heq
    exact h.deleteRow hroom hstep
  · rename_i heq _
    exact absurd heq (hinsert _)
  · cases hstep
    exact h.extend _
  · cases hstep

theorem updateRows_written (hstep : updateRows s w = some t) (no : Nat) (o : Int) :
    ∀ v ∈ s.written no o, v ∈ t.written no o := by
  intro v hv
  unfold updateRows at hstep
  dsimp only at hstep
  split at hstep
  · split at hstep
    · split at hstep
      · cases hstep
        exact hv
      · cases hstep
        rw [TableSys.setWorker_written, TableSys.writeVersion]
        dsimp only
        split
        · exact List.mem_cons_of_mem _ hv
        · exact hv
    · cases hstep
  · cases hstep

theorem insert_ready (hstep : tableStep s (w, .insert cols) = some t) :
    (s.workers w).phase = .ready ∧ Toadb.insertRow cols s w = some t := by
  cases hphase : (s.workers w).phase with
  | ready =>
    simp only [tableStep, hphase] at hstep
    exact ⟨rfl, hstep⟩
  | walk | update | insertRest => simp [tableStep, hphase] at hstep

/-- Every step that meets the condition keeps the invariant. -/
theorem GroupInv.step {s t : GroupSys n} {a : Fin n × RowCall} (h : GroupInv g s)
    (hok : StepAligned g s.table a) (hstep : groupStep g s a = some t) : GroupInv g t := by
  obtain ⟨w, call⟩ := a
  obtain ⟨hroom, hcond⟩ := hok
  unfold groupStep at hstep
  obtain ⟨table, htable, rfl⟩ := Option.map_eq_some_iff.mp hstep
  have ht := h.group.table.step hroom htable
  have hother : call ≠ .update → call ≠ .insertNext → (∀ cols, call ≠ .insert cols) →
      GroupInv g ⟨table, s.inserted ++ insertedBy g s.table call⟩ := by
    intro hupdate hnext hinsert
    rw [insertedBy_other hinsert, List.append_nil]
    have hwritten := (tableStep_effect hroom htable).written hupdate
    refine h.quiet ht ?_
    rw [hwritten]
    exact h.group.stepOther hroom hupdate hnext hinsert htable
  cases call with
  | update =>
    have hnone : insertedBy g s.table .update = [] := insertedBy_other nofun
    have hkept := updateRows_written htable
    rw [hnone, List.append_nil]
    refine h.quiet ht
      (h.group.updateRows hroom (fun u undono hphase => ?_) (fun no o d hd => ?_) ?_ htable)
    · simpa [hphase] using hcond
    · rw [← List.append_nil s.inserted]
      exact hd.mono hkept
    · intro no o d hd v hv
      exact hd.written hv
  | insertNext =>
    have hnone : insertedBy g s.table .insertNext = [] := insertedBy_other nofun
    rw [hnone, List.append_nil]
    exact h.insertNext ht hroom htable
  | insert cols =>
    obtain ⟨hready, hinsert⟩ := insert_ready htable
    exact h.insertRow ht hready hcond hinsert
  | statement | scan | walk | fetch | copyItem | undoSpace | delete | extend =>
    exact hother nofun nofun nofun

/-! ## Alignment -/

/-- No insert into the group is in progress. -/
def NoInsert (g : List Nat) (s : TableSys n) : Prop := ∀ w, (s.workers w).phase.NotInserting g

instance (g : List Nat) : ∀ phase : RowPhase, Decidable (phase.NotInserting g)
  | .insertRest _ cols => inferInstanceAs (Decidable (∀ col ∈ cols, col.1 ∉ g))
  | .ready | .walk .. | .update .. => isTrue trivial

instance (g : List Nat) (s : TableSys n) : Decidable (NoInsert g s) := by
  unfold NoInsert; infer_instance

/-- The values of column `col` of row `index`. -/
def WrittenValue (s : GroupSys n) (col : Nat × NewRow) (index : Nat)
    (d : List UInt8) : Prop :=
  d = col.2.1.data ∨ ∃ v ∈ s.table.written col.1 (itemOffsetOfIndex index), v.data = d

/-- The columns of the group are aligned. -/
structure ColumnsAligned (g : List Nat) (s : GroupSys n) : Prop where
  /-- The row items of each page are those of the inserted rows. -/
  items : NoInsert g s.table → ∀ no ∈ g, ∃ page, s.table.file.page no = some page ∧
    ∀ o, IsRowItem page o ↔ ∃ index < s.inserted.length, o = itemOffsetOfIndex index
  rows : ∀ cols ∈ s.inserted, cols.map Prod.fst = g
  /-- What is fetched at the offset of a complete row is a version of that row, and so are the
  versions behind it. -/
  fetch : ∀ index cols, s.inserted[index]? = some cols →
    NoInsert g s.table ∨ index + 1 < s.inserted.length →
    ∀ col ∈ cols, ∃ r, rowByIndex s.table.file col.1 (itemOffsetOfIndex index) = some r ∧
      VersionsIn s.table.file (WrittenValue s col index) r

/-- A table with an empty group. -/
structure GroupInit (g : List Nat) (s : GroupSys n) : Prop where
  table : TableInit s.table
  nodup : g.Nodup
  pages : ∀ no ∈ g, ∃ page, s.table.file.page no = some page ∧ page.pageType = .data ∧
    page.dataOffset = pageDataHeaderSize
  inserted : s.inserted = []

theorem GroupInit.inv {s : GroupSys n} (h : GroupInit g s) : GroupInv g s := by
  have hready : ∀ w, (s.table.workers w).phase.NotInserting g := by
    intro w
    rw [(h.table.idle w).1]
    trivial
  have hempty : ∀ no ∈ g, ∀ page, s.table.file.page no = some page → ∀ o,
      ¬ IsItem page o := by
    intro no hno page hpage o hitem
    obtain ⟨page', hpage', -, hoffset⟩ := h.pages no hno
    rw [hpage, Option.some.injEq] at hpage'
    subst hpage'
    have hlt := hitem.lt
    rw [hoffset, pageDataHeaderSize] at hlt
    omega
  refine ⟨h.nodup, ⟨h.table.inv, fun no hno => ?_, fun w => ?_⟩, by
    simp [h.inserted], .between hready ?_⟩
  · obtain ⟨page, hpage, htype, -⟩ := h.pages no hno
    refine ⟨⟨page, hpage, htype, fun o ho => absurd ho (hempty no hno page hpage o)⟩, ?_⟩
    rintro o r ⟨page', hpage', hitem, -⟩
    exact absurd hitem.isItem (hempty no hno page' hpage' o)
  · obtain ⟨hphase, hrows, hcols⟩ := h.table.idle w
    exact ⟨by rw [hphase]; trivial, by simp [hrows], by simp [hcols]⟩
  · intro no hno page hpage
    obtain ⟨page', hpage', -, hoffset⟩ := h.pages no hno
    rw [hpage, Option.some.injEq] at hpage'
    rw [hpage', hoffset, h.inserted, List.length_nil,
      itemOffsetOfIndex_eq, pageDataHeaderSize]
    rfl

/-- A page of the group has an item for each row, whose value is complete. -/
theorem GroupInv.itemCount {s : GroupSys n} (h : GroupInv g s) {index : Nat}
    {cols : List (Nat × NewRow)} (hget : s.inserted[index]? = some cols)
    (hdone : NoInsert g s.table ∨ index + 1 < s.inserted.length)
    {no : Nat} (hno : no ∈ g) : ∃ m, index < m ∧ ItemCount s.table.file no m := by
  obtain ⟨hlt, -⟩ := List.getElem?_eq_some_iff.mp hget
  cases h.progress with
  | between _ hcounts => exact ⟨_, hlt, hcounts no hno⟩
  | within w before first rest hins hrest hphase _ hfirst hleft =>
    have hcols := h.lastRow hins
    have hlen : s.inserted.length = before.length + 1 := by rw [hins]; simp
    have hbefore : index < before.length := by
      rcases hdone with hidle | hbehind
      · have hnot := hidle w
        rw [hphase] at hnot
        exact absurd hnot (not_notInserting hcols hrest)
      · omega
    rw [← hcols] at hno
    obtain ⟨col, hcol, rfl⟩ := List.mem_map.mp hno
    rcases List.mem_append.mp hcol with hwritten | hnext
    · exact ⟨_, by omega, hfirst col hwritten⟩
    · exact ⟨_, hbefore, hleft col hnext⟩

/-- The values of an item are those of its row and column. -/
theorem GroupInv.columnValue {s : GroupSys n} (h : GroupInv g s) {index : Nat}
    {cols : List (Nat × NewRow)}
    (hget : s.inserted[index]? = some cols) {col : Nat × NewRow}
    (hcol : col ∈ cols) {d : List UInt8}
    (hd : RowValue s.inserted s.table.written col.1 (itemOffsetOfIndex index) d) :
    WrittenValue s col index d := by
  obtain ⟨index', cols', col', hget', hcol', hno, hoffset, hvalue⟩ := hd
  obtain rfl : index' = index := by
    rw [itemOffsetOfIndex_eq, itemOffsetOfIndex_eq] at hoffset
    omega
  rw [hget, Option.some.injEq] at hget'
  subst hget'
  have hnodup : (cols.map Prod.fst).Nodup := by
    rw [h.rows cols (List.mem_of_getElem? hget)]
    exact h.nodup
  obtain rfl : col' = col := List.inj_on_of_nodup_map hnodup hcol' hcol hno
  exact hvalue

theorem VersionsIn.mono {V V' : List UInt8 → Prop} {r : RowColumnData} (h : VersionsIn f V r)
    (hV : ∀ d, V d → V' d) : VersionsIn f V' r := by
  obtain ⟨hdata, rs, hchain, hvs⟩ := h
  exact ⟨hV _ hdata, rs, hchain, fun v hv => hV _ (hvs v hv)⟩

theorem GroupInv.aligned {s : GroupSys n} (h : GroupInv g s) : ColumnsAligned g s := by
  refine ⟨fun hidle no hno => ?_, h.rows, fun index cols hget hdone col hcol => ?_⟩
  · obtain ⟨page, hpage, -, hitems⟩ := (h.group.columns no hno).page
    have hcount : page.dataOffset = itemOffsetOfIndex s.inserted.length := by
      cases h.progress with
      | between _ hcounts => exact hcounts no hno page hpage
      | within w before first rest hins hrest hphase _ _ _ =>
        have hnot := hidle w
        rw [hphase] at hnot
        exact absurd hnot (not_notInserting (h.lastRow hins) hrest)
    refine ⟨page, hpage, fun o => ⟨fun ho => ?_, ?_⟩⟩
    · obtain ⟨index, hindex, hlt⟩ := ho.isItem
      refine ⟨index, ?_, hindex⟩
      rw [hindex, hcount, itemOffsetOfIndex_eq, itemOffsetOfIndex_eq] at hlt
      omega
    · rintro ⟨index, hindex, rfl⟩
      refine hitems _ ⟨index, rfl, ?_⟩
      rw [hcount, itemOffsetOfIndex_eq, itemOffsetOfIndex_eq]
      omega
  · have hin : col.1 ∈ g := h.rows cols (List.mem_of_getElem? hget) ▸ List.mem_map_of_mem hcol
    obtain ⟨page, hpage, -, hitems⟩ := (h.group.columns col.1 hin).page
    obtain ⟨m, hm, hcount⟩ := h.itemCount hget hdone hin
    have hitem : IsRowItem page (itemOffsetOfIndex index) := by
      refine hitems _ ⟨index, rfl, ?_⟩
      rw [hcount page hpage, itemOffsetOfIndex_eq, itemOffsetOfIndex_eq]
      omega
    obtain ⟨r, hstored, -⟩ := (h.group.table.file.layout _ page hpage).row hitem
    have hat : RowAt s.table.file col.1 (itemOffsetOfIndex index) r :=
      ⟨page, hpage, hitem, hstored⟩
    exact ⟨r, hat.rowByIndex h.group.table.file,
      ((h.group.columns col.1 hin).versions _ r hat).mono fun d hd =>
        h.columnValue hget hcol hd⟩

/-! ## Two runs -/

/-- A table with `num` pages behind the head page, and no row. -/
def newGroup (n num : Nat) : GroupSys n :=
  ⟨{ newTable n with file := extensionTbl (num + 1) ⟨0, fun _ => none⟩ }, []⟩

theorem tableInit_newGroup (n num : Nat) : TableInit (newGroup n num).table :=
  tableInit_newPages rfl rfl fun _ => ⟨rfl, rfl, rfl⟩

/-- The pages of nine columns. -/
def nineColumns : List Nat := List.range' 2 9

/-- Row 0 of page `no` is updated. -/
def updateColumn (w : Fin n) (no : Nat) (row : NewRow) : List (Fin n × RowCall) :=
  [(w, .scan no 0), (w, .copyItem), (w, .undoSpace row 0), (w, .update)]

/-- A row of nine columns is inserted; another worker reads its first column before the last
one is written, and then updates that. -/
def nineColumnRun : List (Fin 2 × RowCall) :=
  [(0, .insert (nineColumns.map fun no => (no, newValue 9))), (0, .insertNext)] ++
    updateColumn 1 10 (newValue 5)

theorem groupInit_newGroup {num : Nat} (hnodup : g.Nodup)
    (hpages : ∀ no ∈ g, ∃ page ∈ (newGroup n num).table.file.page no, page.pageType = .data ∧
      page.dataOffset = pageDataHeaderSize) : GroupInit g (newGroup n num) :=
  ⟨tableInit_newGroup n num, hnodup, hpages, rfl⟩

/-- A row with a long value in its second column. -/
def twoColumns : List (Nat × NewRow) := [(2, newValue 9), (3, newValue 2000)]

/-- The long value is updated to one that is a byte longer. -/
def growingColumn : List (Fin 1 × RowCall) :=
  (0, .insert twoColumns) :: updateColumn 0 3 (newValue 2001)

/-! ## The result -/

/-- In every run whose steps meet the condition, the columns of the group are aligned. -/
theorem columns_aligned {s₀ s : GroupSys n} {acts : List (Fin n × RowCall)}
    (h₀ : GroupInit g s₀)
    (hok : Along (groupStep g) (fun s a => StepAligned g s.table a) s₀ acts)
    (hrun : run (groupStep g) s₀ acts = some s) : ColumnsAligned g s := by
  have hinv : GroupInv g s :=
    run_invariant (fun h hok hstep => h.step hok hstep) h₀.inv hok hrun
  exact hinv.aligned

/-- Nine columns, inserted, read and updated by two workers. -/
theorem columns_aligned_nine :
    ∃ s, run (groupStep nineColumns) (newGroup 2 9) nineColumnRun = some s ∧
    s.inserted.length = 1 ∧ NoInsert nineColumns s.table ∧ ColumnsAligned nineColumns s := by
  have hrun : run (groupStep nineColumns) (newGroup 2 9) nineColumnRun
      = some (exec (groupStep nineColumns) (newGroup 2 9) nineColumnRun) :=
        run_exec (by decide)
  exact ⟨_, hrun, by decide, by decide,
    columns_aligned (groupInit_newGroup (by decide) (by decide)) (by decide) hrun⟩

/-- The longer value goes to an extension page, and the second column of the row is not
found. -/
theorem columns_notAligned : ∃ s, GroupInit [2, 3] (newGroup 1 2) ∧
    run (groupStep [2, 3]) (newGroup 1 2) growingColumn = some s ∧ NoInsert [2, 3] s.table ∧
    s.inserted = [twoColumns] ∧
      (rowByIndex s.table.file 2 (itemOffsetOfIndex 0)).isSome = true ∧
    rowByIndex s.table.file 3 (itemOffsetOfIndex 0) = none ∧ ¬ ColumnsAligned [2, 3] s := by
  have hrun : run (groupStep [2, 3]) (newGroup 1 2) growingColumn
      = some (exec (groupStep [2, 3]) (newGroup 1 2) growingColumn) :=
        run_exec (by decide +kernel)
  have hidle : NoInsert [2, 3]
      (exec (groupStep [2, 3]) (newGroup 1 2) growingColumn).table := by decide +kernel
  have hins : (exec (groupStep [2, 3]) (newGroup 1 2) growingColumn).inserted =
      [twoColumns] := by decide +kernel
  have hlost : rowByIndex (exec (groupStep [2, 3]) (newGroup 1 2) growingColumn).table.file 3
      (itemOffsetOfIndex 0)
      = none := by decide +kernel
  have hfound :
      (rowByIndex (exec (groupStep [2, 3]) (newGroup 1 2) growingColumn).table.file 2
      (itemOffsetOfIndex 0)).isSome = true := by decide +kernel
  have hinit : GroupInit [2, 3] (newGroup 1 2) := groupInit_newGroup (by decide) (by decide)
  generalize exec (groupStep [2, 3]) (newGroup 1 2) growingColumn = s at *
  refine ⟨s, hinit, hrun, hidle, hins, hfound, hlost, fun h => ?_⟩
  have hget : s.inserted[0]? = some twoColumns := by rw [hins, List.getElem?_cons_zero]
  obtain ⟨r, hr, -⟩ :=
    h.fetch 0 twoColumns hget (.inl hidle) _ (List.mem_cons_of_mem _ List.mem_cons_self)
  rw [hlost] at hr
  cases hr

end Toadb
