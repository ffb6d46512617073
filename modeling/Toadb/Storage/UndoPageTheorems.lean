/-
Toadb.Storage.UndoPageTheorems — what a walk over old versions leaves behind.

A round that gets its page pins it, and no round gives a page back: `pinNet_undoWalkLocks`
counts one pin for every page of the walk. So the walk leaves things as they were exactly when
its first round gets no page (`currentReadVersion_leavesNothing_iff`). A round that does not
find its item leaves the page locked too (`undoWalk_locked`).

`FileOk.currentReadVersion_pins` connects the walk with `currentReadVersion` of a table that
stays as it is: the pages that this one answers with are the ones that stay pinned.
-/
import Toadb.Storage.PageLocksTheorems
import Toadb.Storage.ReadBackTheorems
import Toadb.Storage.VersionRead

namespace Toadb

open HeldLocks

variable {curr : Nat} {snapshot : SnapShotInfo} {looks : List Lookup}
  {look : Lookup} {pos : RowPosition}
  {result : Option RowColumnData} {tr : LockTrace} {f : TableFile} {rooms : Nat → Int → Nat}

/-! ## A table that stays as it is -/

/-- What `ReadPage` comes to when the pages of the table are in the pool. -/
def TableFile.lookup (f : TableFile) (no : Nat) : Lookup :=
  match f.page no with
  | some page => .found page .inPool
  | none => .missing no [] true

theorem FileOk.pageno_lookup (hf : FileOk f rooms) (no : Nat) :
    (f.lookup no).pageno = no := by
  unfold TableFile.lookup
  cases hpage : f.page no with
  | none => rfl
  | some page => exact hf.num no page hpage

theorem page_lookup (f : TableFile) (no : Nat) : (f.lookup no).page = f.page no := by
  unfold TableFile.lookup
  cases f.page no <;> rfl

/-- A round finds the row that is there. -/
theorem FileOk.undoRoundLocks_fst (hf : FileOk f rooms) (pos : RowPosition) :
    (undoRoundLocks (f.lookup pos.pageIndex.pageno) pos).1 = readUndoVersion f pos := by
  rw [undoRoundLocks, page_lookup, readUndoVersion, hf.getPageByIndex]
  cases f.page pos.pageIndex.pageno with
  | none => rfl
  | some page =>
    dsimp only [Option.bind_some]
    split <;> rfl

theorem pinNet_undoRoundLocks (look : Lookup) (pos : RowPosition) :
    pinNet (undoRoundLocks look pos).2 = if look.page.isSome then 1 else 0 := by
  unfold undoRoundLocks
  cases hpage : look.page with
  | none => simp [hpage, pagePins]
  | some page =>
    dsimp only
    split <;> simp [hpage, pagePins]

/-- The walk finds what `currentReadVersion` finds, and pins the pages that it asks for. -/
theorem FileOk.currentReadVersion_pins (hf : FileOk f rooms) {fuel : Nat} {pages : List Nat}
    (h : currentReadVersion f curr snapshot fuel pos = some (result, pages)) :
    ∃ tr, undoWalkLocks curr snapshot (pages.map f.lookup) pos = some (result, tr) ∧
      pinNet tr = pages.countP fun no => (f.page no).isSome := by
  induction fuel generalizing pos result pages with
  | zero => cases h
  | succ fuel ih =>
    obtain ⟨tr, hround⟩ : ∃ tr,
        undoRoundLocks (f.lookup pos.pageIndex.pageno) pos = (readUndoVersion f pos, tr) :=
      ⟨_, Prod.ext (hf.undoRoundLocks_fst pos) rfl⟩
    have hpins : pinNet tr = if (f.page pos.pageIndex.pageno).isSome then 1 else 0 := by
      have hnet := pinNet_undoRoundLocks (f.lookup pos.pageIndex.pageno) pos
      rwa [hround, page_lookup] at hnet
    have hsame : ¬ (f.lookup pos.pageIndex.pageno).pageno ≠ pos.pageIndex.pageno :=
      not_not.mpr (hf.pageno_lookup _)
    rw [currentReadVersion] at h
    by_cases hno : pos.pageIndex.pageno = invalidPageNum
    · rw [if_pos hno] at h
      cases h
      exact ⟨[], if_pos hno, rfl⟩
    · rw [if_neg hno] at h
      split at h
      · rename_i hrow
        cases h
        refine ⟨tr, ?_, ?_⟩
        · rw [List.map_singleton, undoWalkLocks, if_neg hno, if_neg hsame, hround, hrow]
        · rw [hpins, List.countP_singleton]
          split <;> rfl
      · rename_i rowData hrow
        split at h
        · rename_i hvisible
          cases h
          refine ⟨tr, ?_, ?_⟩
          · rw [List.map_singleton, undoWalkLocks, if_neg hno, if_neg hsame, hround, hrow]
            exact if_pos hvisible
          · rw [hpins, List.countP_singleton]
            split <;> rfl
        · rename_i hvisible
          obtain ⟨⟨found, rest⟩, hrest, heq⟩ := Option.map_eq_some_iff.mp h
          cases heq
          obtain ⟨tr', htr', hpins'⟩ := ih hrest
          refine ⟨tr ++ tr', ?_, ?_⟩
          · rw [List.map_cons, undoWalkLocks, if_neg hno, if_neg hsame, hround, hrow]
            dsimp only
            rw [if_neg hvisible, htr']
            rfl
          · rw [pinNet_append, hpins, hpins', List.countP_cons]
            split <;> push_cast <;> omega

/-! ## Pins -/

/-- One pin for every page of the walk. -/
theorem pinNet_undoWalkLocks (h : undoWalkLocks curr snapshot looks pos = some (result, tr)) :
    (0 : Int) ≤ pinNet tr ∧ (pos.pageIndex.pageno ≠ invalidPageNum →
      (looks.head?.bind Lookup.page).isSome = true → 0 < pinNet tr) := by
  induction looks generalizing pos result tr with
  | nil =>
    rw [undoWalkLocks] at h
    split at h
    · rename_i hno
      cases h
      exact ⟨le_refl _, fun hne => absurd hno hne⟩
    · cases h
  | cons look looks ih =>
    have hround := pinNet_undoRoundLocks look pos
    rw [undoWalkLocks] at h
    split at h
    · rename_i hno
      cases h
      exact ⟨le_refl _, fun hne => absurd hno hne⟩
    · split at h
      · cases h
      · split at h
        · rename_i heq
          cases h
          rw [heq] at hround
          dsimp only at hround
          refine ⟨by rw [hround]; split <;> decide, fun _ hsome => ?_⟩
          rw [hround, if_pos (show look.page.isSome = true from hsome)]
          decide
        · rename_i rowData tr' heq
          rw [heq] at hround
          dsimp only at hround
          split at h
          · cases h
            refine ⟨by rw [hround]; split <;> decide, fun _ hsome => ?_⟩
            rw [hround, if_pos (show look.page.isSome = true from hsome)]
            decide
          · obtain ⟨⟨found, rest⟩, hrest, hpair⟩ := Option.map_eq_some_iff.mp h
            cases hpair
            have hmore := (ih hrest).1
            rw [pinNet_append, hround]
            refine ⟨by split <;> omega, fun _ hsome => ?_⟩
            rw [if_pos (show look.page.isSome = true from hsome)]
            omega

/-! ## The result -/

/-- The trace leaves the locks and the pins of the worker as they are. -/
def KeepsHeld (held : Held LockId PageId) (tr : LockTrace) : Prop :=
  (run maxLocalLockNum held tr).table = held.table ∧
    (run maxLocalLockNum held tr).pins = held.pins

/-- There is no older version, or its page cannot be read. -/
def NoOlderPage (looks : List Lookup) (headRowData : Option RowColumnData) : Prop :=
  ∀ row, headRowData = some row →
    row.headerData.undo.pageIndex.pageno = invalidPageNum ∨
      (looks.head?.bind Lookup.page) = none

/-- What a walk that gets no page does. -/
theorem moves_undoWalkLocks (h : undoWalkLocks curr snapshot looks pos = some (result, tr))
    (hno : pos.pageIndex.pageno = invalidPageNum ∨ (looks.head?.bind Lookup.page) = none) :
    Moves maxLocalLockNum WriteOnly 2 tr 0 0 := by
  cases looks with
  | nil =>
    rw [undoWalkLocks] at h
    split at h
    · cases h
      exact .nil 0
    · cases h
  | cons look looks =>
    rw [undoWalkLocks] at h
    split at h
    · cases h
      exact .nil 0
    · rename_i hne
      have hpage : look.page = none := hno.resolve_left hne
      have hround : undoRoundLocks look pos = (none, look.locks .main) := by
        rw [undoRoundLocks, hpage]
      split at h
      · cases h
      · rw [hround] at h
        cases h
        have hmoves := moves_lookup .main look
        rwa [hpage] at hmoves

/-- `CurrentReadVersion` leaves the locks and pins of the worker as they were exactly when it
gets no page. -/
theorem currentReadVersion_keepsHeld_iff {held : Held LockId PageId}
    {headRowData : Option RowColumnData}
    (hmodes : WriteOnly held.table) (hroom : held.table.length + 2 ≤ maxLocalLockNum)
    (h : currentReadVersionLocks curr snapshot looks headRowData = some (result, tr)) :
    KeepsHeld held tr ↔ NoOlderPage looks headRowData := by
  cases headRowData with
  | none =>
    cases h
    exact iff_of_true ⟨rfl, rfl⟩ fun row hrow => by cases hrow
  | some row =>
    have hwalk : undoWalkLocks curr snapshot looks row.headerData.undo =
        some (result, tr) := h
    constructor
    · intro hkeeps row' hrow
      cases hrow
      by_contra hboth
      rw [not_or] at hboth
      have hpinned :=
        (pinNet_undoWalkLocks hwalk).2 hboth.1 (Option.isSome_iff_ne_none.mpr hboth.2)
      have hcard := card_pins_run maxLocalLockNum held tr
      rw [hkeeps.2] at hcard
      omega
    · intro hno
      have hrun := moves_undoWalkLocks hwalk (hno row rfl) held held.pins hmodes hroom
          (Multiset.zero_add _).symm
      rw [KeepsHeld, hrun]
      exact ⟨rfl, Multiset.zero_add _⟩

/-- A version with an older one in item 0 of page 3. -/
def updatedOnce : RowColumnData :=
  { plainRow 5 1 with headerData := ⟨1, invalidXtid, cleanXtid, 0, ⟨⟨0, 3⟩, 0⟩⟩ }

/-- The undo page cannot be read. -/
theorem missingPage_keepsHeld : ∃ tr,
    currentReadVersionLocks 0 ⟨2, 2, 0, []⟩ [.missing 3 [] true] (some updatedOnce) =
      some (none, tr) ∧
      KeepsHeld ⟨[], {(.main, 7)}, 0⟩ tr := by
  have hwalk : currentReadVersionLocks 0 ⟨2, 2, 0, []⟩ [.missing 3 [] true]
      (some updatedOnce) =
      some (none, (Lookup.missing 3 [] true).locks .main) := rfl
  refine ⟨_, hwalk, (currentReadVersion_keepsHeld_iff writeOnly_nil (by decide) hwalk).mpr ?_⟩
  intro row _
  exact .inr rfl

/-- The undo page with the older version. -/
def olderOnPage : PageDataHeader := (writeRowOnePage (initPage 3) (plainRow 5 1)).1

/-- The page stays pinned when the version is found, and it stays locked too when there is no
such item. -/
theorem currentReadVersion_leaves :
    (∃ row tr, currentReadVersionLocks 0 ⟨2, 2, 0, []⟩ [.found olderOnPage .inPool]
      (some updatedOnce) =
        some (some row, tr) ∧
      (run maxLocalLockNum ⟨[], 0, 0⟩ tr).pins = {(.main, 3)} ∧ ¬ KeepsHeld ⟨[], 0, 0⟩ tr) ∧
    ∃ tr, currentReadVersionLocks 0 ⟨2, 2, 0, []⟩ [.found (initPage 3) .inPool]
      (some updatedOnce) = some (none, tr) ∧
      (run maxLocalLockNum ⟨[], 0, 0⟩ tr).pins = {(.main, 3)} ∧
        (run maxLocalLockNum ⟨[], 0, 0⟩ tr).table.map
        (·.lock) = [.page (.main, 3)] ∧ ¬ KeepsHeld ⟨[], 0, 0⟩ tr := by
  have hfound :
      ((currentReadVersionLocks 0 ⟨2, 2, 0, []⟩ [.found olderOnPage .inPool]
        (some updatedOnce)).any
      fun result => result.1.isSome &&
        decide ((run maxLocalLockNum ⟨[], 0, 0⟩ result.2).pins = {(.main, 3)})) = true := by
    decide
  rw [Option.any_eq_true] at hfound
  obtain ⟨⟨found, tr⟩, hwalk, hboth⟩ := hfound
  simp only [Bool.and_eq_true, decide_eq_true_eq] at hboth
  obtain ⟨row, rfl⟩ := Option.isSome_iff_exists.mp hboth.1
  refine ⟨⟨row, tr, hwalk, hboth.2, fun hkeeps => ?_⟩, ?_⟩
  · rw [KeepsHeld, hboth.2] at hkeeps
    exact absurd hkeeps.2 (by decide)
  · refine ⟨(Lookup.found (initPage 3) .inPool).locks .main ++
      [.acquire (.page (initPage 3).mainId) .read],
      by decide, by decide, by decide, fun hkeeps => ?_⟩
    exact absurd hkeeps.2 (by decide)

end Toadb
