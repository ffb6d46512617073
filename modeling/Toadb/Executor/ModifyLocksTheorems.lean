/-
Toadb.Executor.ModifyLocksTheorems — when an operation gives back all locks and pins.

`modify_balanced_iff` is about every path of the three operations. A delete
always gives back what it takes. An update does not when no undo page is found or
made, and when a larger value is written: the page of the new version is
unlocked once more than it was locked. An insert does not when the new pages of a group
cannot be read, which leaves the extension lock, and when the pages of its columns fill the
table of local locks.
-/
import Toadb.Executor.ModifyLocks
import Toadb.Storage.PageLocksTheorems

namespace Toadb

open HeldLocks

variable {curr : Nat} {u : ColumnUpdate} {s : UpdateSight} {data : SpaceSight}

/-! ## Updating -/

/-- A round that balances from its two locks on: the old value was changed by another
transaction, the new one is not larger, or the search for a place for it is refused. -/
def LockedBalanced (curr : Nat) (u : ColumnUpdate) (data : SpaceSight) : Prop :=
  tupleUpdateSatisfy curr u.old.headerData ≠ .ok ∨ u.row.size ≤ u.old.size ∨
    data.Refused (u.row.size + itemSize) .data

/-- There is an undo page, or a new one can be read. -/
def UndoFound (u : ColumnUpdate) (undo : SpaceSight) : Prop :=
  ¬ undo.Refused (itemSize + u.oldRowSize) .undo ∧
    ¬ undo.Leaks (itemSize + u.oldRowSize) .undo

/-- A round of `pax_ExecUpdate` that balances. -/
def ColumnBalanced (curr : Nat) (u : ColumnUpdate) (s : UpdateSight) : Prop :=
  s.origin.page = none ∨ UndoFound u s.undo ∧ LockedBalanced curr u s.data

theorem moves_updateLockedLocks (h : LockedBalanced curr u data)
    (origin undo : PageDataHeader) :
    ∃ mid, (updateLockedLocks curr u origin undo data).2 = mid ++ updateEndLocks origin undo ∧
      Moves maxLocalLockNum WriteOnly 4 mid 0 0 := by
  have hwrite : Moves maxLocalLockNum WriteOnly 4 (tableWriteLocks .main) 0 0 :=
    (moves_tableWriteLocks .main).mono (by decide)
  unfold updateLockedLocks
  split
  · exact ⟨[], rfl, .nil 0⟩
  · rename_i hsatisfy
    split
    · exact ⟨_, rfl, hwrite.append hwrite⟩
    · rename_i hsize
      have hrefused := (h.resolve_left hsatisfy).resolve_left hsize
      have hnone := (getSpaceSpecifyPageLocks_none hrefused.not_leaks).mpr hrefused
      have hsearch := moves_getSpaceSpecifyPageLocks hrefused.not_leaks
      generalize getSpaceSpecifyPageLocks (u.row.size + itemSize) .data data = result
        at hnone hsearch
      obtain ⟨found, locks⟩ := result
      obtain rfl : found = none := hnone
      exact ⟨_, rfl, hwrite.append hsearch⟩

theorem moves_updateColumnLocks (h : ColumnBalanced curr u s) :
    Moves maxLocalLockNum WriteOnly 6 (updateColumnLocks curr u s).2 0 0 := by
  have horigin := (moves_lookup .main s.origin).mono (show 2 ≤ 6 by decide)
  unfold updateColumnLocks
  rcases h with hnone | ⟨⟨hrefused, hleaks⟩, hlocked⟩
  · rw [hnone] at horigin ⊢
    exact horigin
  · cases hpage : s.origin.page with
    | none =>
      rw [hpage] at horigin
      exact horigin
    | some origin =>
      rw [hpage] at horigin
      have hsearch := moves_getSpaceSpecifyPageLocks hleaks
      have hsome := mt (getSpaceSpecifyPageLocks_none hleaks).mp hrefused
      dsimp only
      generalize getSpaceSpecifyPageLocks (itemSize + u.oldRowSize) .undo s.undo = result
        at hsome hsearch
      obtain ⟨found, locks⟩ := result
      cases found with
      | none => exact absurd rfl hsome
      | some undo =>
        obtain ⟨mid, hmid, hmoves⟩ := moves_updateLockedLocks hlocked origin undo
        have hundo := moves_unlockAndRelease undo.mainId hmoves (by decide)
        have hboth := moves_unlockAndRelease origin.mainId hundo (by decide)
        have hpins : {origin.mainId} + ({undo.mainId} + 0) =
            pagePins .main (some undo) + ({origin.mainId} : Multiset PageId) := by
          rw [Multiset.add_comm, Multiset.add_zero]
          rfl
        rw [hpins] at hboth
        have hsearch' := (hsearch.frame {origin.mainId}).mono (show 4 ≤ 6 by decide)
        rw [Multiset.zero_add] at hsearch'
        simpa [hmid, updateEndLocks] using (horigin.append hsearch').append hboth

/-! ### The other rounds -/

/-- The round from its two locks on gives back the two pins, and the locks unless the larger
value was written. -/
theorem counted_updateLockedLocks (curr : Nat) (u : ColumnUpdate)
    (origin undo : PageDataHeader) (data : SpaceSight) :
    0 ≤ pinNet (updateLockedLocks curr u origin undo data).2 + 2 ∧
      (¬ LockedBalanced curr u data →
        0 < pinNet (updateLockedLocks curr u origin undo data).2 + 2 ∨
        2 < net (updateLockedLocks curr u origin undo data).2) := by
  unfold updateLockedLocks LockedBalanced
  split
  · rename_i hsatisfy
    simp [updateEndLocks, hsatisfy]
  · rename_i hsatisfy
    split
    · rename_i hsize
      simp [updateEndLocks, hsize]
    · rename_i hsize
      have hcount := counted_getSpaceSpecifyPageLocks (u.row.size + itemSize) data (.inr rfl)
      have hnone := @getSpaceSpecifyPageLocks_none (u.row.size + itemSize) .data data
      generalize getSpaceSpecifyPageLocks (u.row.size + itemSize) .data data =
        result at hcount hnone
      obtain ⟨found, locks⟩ := result
      obtain ⟨hnet, hpin, hleaks⟩ := hcount
      have hend : net (updateEndLocks origin undo) = 2 ∧
          pinNet (updateEndLocks origin undo) = -2 := by
        simp [updateEndLocks]
      cases found with
      | none =>
        simp only [pagePins, Multiset.card_zero] at hpin hleaks
        simp only [net_append, pinNet_append, net_tableWriteLocks,
          pinNet_tableWriteLocks, hend]
        refine ⟨by omega, fun h => .inl ?_⟩
        have hleak : data.Leaks (u.row.size + itemSize) .data := by
          by_contra hnot
          exact h (.inr (.inr ((hnone hnot).mp rfl)))
        have := hleaks hleak
        omega
      | some newRowPage =>
        simp only [pagePins, Multiset.card_singleton] at hpin hleaks
        have hlarger : net (writeLargerLocks origin newRowPage) = 1 ∧
            pinNet (writeLargerLocks origin newRowPage) = -1 := by
          unfold writeLargerLocks
          split <;> simp
        simp only [net_append, pinNet_append, net_tableWriteLocks,
          pinNet_tableWriteLocks, hend, hlarger]
        refine ⟨by omega, fun _ => ?_⟩
        by_cases hleak : data.Leaks (u.row.size + itemSize) .data
        · have := hleaks hleak
          omega
        · have := hnet hleak
          omega

/-- A round that does not balance keeps a pin, or gives a lock back that it does not have. -/
theorem counted_updateColumnLocks (curr : Nat) (u : ColumnUpdate) (s : UpdateSight) :
    0 ≤ pinNet (updateColumnLocks curr u s).2 ∧ (¬ ColumnBalanced curr u s →
      0 < pinNet (updateColumnLocks curr u s).2 ∨
        0 < net (updateColumnLocks curr u s).2) := by
  unfold updateColumnLocks ColumnBalanced
  cases hpage : s.origin.page with
  | none => simp [hpage, pagePins]
  | some origin =>
    have horigin : pinNet (s.origin.locks .main) = 1 := by simp [hpage, pagePins]
    have hcount :=
      counted_getSpaceSpecifyPageLocks (itemSize + u.oldRowSize) s.undo (.inl rfl)
    have hnone := @getSpaceSpecifyPageLocks_none (itemSize + u.oldRowSize) .undo s.undo
    generalize getSpaceSpecifyPageLocks (itemSize + u.oldRowSize) .undo s.undo =
      result at hcount hnone
    obtain ⟨found, locks⟩ := result
    obtain ⟨hnet, hpin, hleaks⟩ := hcount
    cases found with
    | none =>
      simp only [pagePins, Multiset.card_zero] at hpin
      simp only [net_append, pinNet_append, horigin]
      exact ⟨by omega, fun _ => .inl (by omega)⟩
    | some undo =>
      simp only [pagePins, Multiset.card_singleton] at hpin hleaks
      obtain ⟨hlocked, hbad⟩ := counted_updateLockedLocks curr u origin undo s.data
      simp only [net_append, pinNet_append, net_cons, pinNet_cons, net_acquire,
        pinNet_acquire, horigin,
        net_lookup]
      refine ⟨by omega, fun h => ?_⟩
      by_cases hleak : s.undo.Leaks (itemSize + u.oldRowSize) .undo
      · have := hleaks hleak
        omega
      · have hfound : UndoFound u s.undo :=
          ⟨fun hrefused => absurd ((hnone hleak).mpr hrefused) (by simp), hleak⟩
        have hbad' := hbad fun hlocked => h (.inr ⟨hfound, hlocked⟩)
        have := hnet hleak
        omega

/-! ### All rounds -/

/-- The rounds of `pax_ExecUpdate` balance, up to the first that ends the loop. -/
def UpdateBalanced (curr : Nat) : List (ColumnUpdate × UpdateSight) → Prop
  | [] => True
  | (u, s) :: cols =>
      ColumnBalanced curr u s ∧
        ((updateColumnLocks curr u s).1 = true → UpdateBalanced curr cols)

theorem pinNet_paxExecUpdateLocks (curr : Nat) (cols : List (ColumnUpdate × UpdateSight)) :
    0 ≤ pinNet (paxExecUpdateLocks curr cols) := by
  induction cols with
  | nil => simp [paxExecUpdateLocks]
  | cons col cols ih =>
    obtain ⟨u, s⟩ := col
    have hcol := (counted_updateColumnLocks curr u s).1
    simp only [paxExecUpdateLocks]
    split
    · rw [pinNet_append]
      omega
    · exact hcol

theorem update_balanced_iff (curr : Nat) (cols : List (ColumnUpdate × UpdateSight))
    (pins : Multiset PageId) (faults : Nat) :
    run maxLocalLockNum ⟨[], pins, faults⟩ (paxExecUpdateLocks curr cols) =
      ⟨[], pins, faults⟩ ↔
      UpdateBalanced curr cols := by
  induction cols with
  | nil => simp [paxExecUpdateLocks, UpdateBalanced]
  | cons col cols ih =>
    obtain ⟨u, s⟩ := col
    obtain ⟨hpos, hbad⟩ := counted_updateColumnLocks curr u s
    have hrest := pinNet_paxExecUpdateLocks curr cols
    by_cases hcol : ColumnBalanced curr u s
    · have hrun := (moves_updateColumnLocks hcol).run writeOnly_nil (by decide) pins faults
      rw [Multiset.zero_add] at hrun
      simp only [paxExecUpdateLocks, UpdateBalanced, hcol, true_and]
      split
      · rename_i hok
        rw [run_append, hrun, ih]
        simp [hok]
      · rename_i hok
        simp [hrun, hok]
    · simp only [UpdateBalanced, hcol, false_and, iff_false]
      intro hrun
      rcases hbad hcol with hpin | hnet
      · -- A pin is left at the end.
        have hcard := card_pins_run maxLocalLockNum ⟨[], pins, faults⟩
            (paxExecUpdateLocks curr ((u, s) :: cols))
        rw [hrun] at hcard
        have hpinNet : 0 < pinNet (paxExecUpdateLocks curr ((u, s) :: cols)) := by
          simp only [paxExecUpdateLocks]
          split
          · rw [pinNet_append]
            omega
          · exact hpin
        dsimp only at hcard
        omega
      · -- The fault of this round stays.
        have hfault := faults_of_net maxLocalLockNum pins faults hnet
        have hlast :
            (run maxLocalLockNum ⟨[], pins, faults⟩ (updateColumnLocks curr u s).2).faults ≤
            (run maxLocalLockNum ⟨[], pins, faults⟩
              (paxExecUpdateLocks curr ((u, s) :: cols))).faults := by
          simp only [paxExecUpdateLocks]
          split
          · rw [run_append]
            exact faults_run ..
          · exact Nat.le_refl _
        rw [hrun] at hlast
        dsimp only at hlast
        omega

/-! ## Deleting -/

theorem delete_balanced (curr : Nat) (cols : List (RowColumnData × Lookup)) :
    Moves maxLocalLockNum WriteOnly 2 (paxExecDeleteLocks curr cols) 0 0 := by
  induction cols with
  | nil => exact .nil 0
  | cons col cols ih =>
    obtain ⟨old, origin⟩ := col
    have horigin := moves_lookup .main origin
    simp only [paxExecDeleteLocks]
    cases hpage : origin.page with
    | none =>
      rw [hpage] at horigin
      exact horigin
    | some page =>
      rw [hpage] at horigin
      dsimp only
      split
      · have hback := moves_unlockAndRelease page.mainId (.nil 0) (Nat.le_refl 1)
        simpa using horigin.append hback
      · have hback :=
          moves_unlockAndRelease page.mainId (moves_tableWriteLocks (p := 0) .main)
            (Nat.le_refl 1)
        simpa using (horigin.append hback).append ih

/-! ## Inserting -/

/-- The locks of the pages of a group. -/
def pageListLocks (pageList : List PageDataHeader) : List LockId :=
  pageList.map fun page => .page page.mainId

/-- The table of local locks has room for the locks of the pages, and for one more if they are
written. -/
def PagesLockable (pageList : List PageDataHeader) (hasSpace : Bool) : Prop :=
  if hasSpace then (pageListLocks pageList).toFinset.card < maxLocalLockNum
  else (pageListLocks pageList).dropLast.toFinset.card < maxLocalLockNum

instance (pageList : List PageDataHeader) (hasSpace : Bool) :
    Decidable (PagesLockable pageList hasSpace) := by
  unfold PagesLockable
  infer_instance

theorem writeOnly_acquired {pageList : List PageDataHeader} {t : List (Entry LockId)}
    (h : Acquired .write (pageListLocks pageList) t) : WriteOnly t := by
  intro e he
  have hheld : e.lock ∈ pageListLocks pageList := by
    rw [← List.count_pos_iff, ← h.count, heldCount_pos]
    exact List.mem_map_of_mem he
  obtain ⟨page, -, heq⟩ := List.mem_map.mp hheld
  rw [h.inMode e he, ← heq]
  rfl

theorem moves_writePages (pageList : List PageDataHeader) (pins : Multiset PageId) :
    Moves maxLocalLockNum WriteOnly 1 (pageList.map fun _ => tableWriteLocks .main).flatten
      pins pins := by
  induction pageList with
  | nil => exact .nil pins
  | cons page rest ih => exact (moves_tableWriteLocks .main).append ih

/-- With room for the locks, the pages are locked, written and unlocked. -/
theorem run_insertRowDataWithGroupLocks {pageList : List PageDataHeader} {hasSpace : Bool}
    (h : PagesLockable pageList hasSpace) (pins : Multiset PageId) (faults : Nat) :
    run maxLocalLockNum ⟨[], pins, faults⟩ (insertRowDataWithGroupLocks pageList hasSpace) =
      ⟨[], pins, faults⟩ := by
  have hroom : (pageListLocks pageList).dropLast.toFinset.card < maxLocalLockNum := by
    unfold PagesLockable at h
    split at h
    · refine Nat.lt_of_le_of_lt (Finset.card_le_card fun l hl => ?_) h
      rw [List.mem_toFinset] at hl ⊢
      exact List.dropLast_subset _ hl
    · exact h
  obtain ⟨t, hrun, hacquired⟩ := acquireAll_of_room (m := .write) hroom pins faults
  have hwrite : run maxLocalLockNum ⟨t, pins, faults⟩
      (if hasSpace then (pageList.map fun _ => tableWriteLocks .main).flatten else []) =
      ⟨t, pins, faults⟩ := by
    split
    · rename_i hspace
      rw [PagesLockable, if_pos hspace, ← hacquired.length] at h
      have hmoves :=
        moves_writePages pageList pins ⟨t, pins, faults⟩ 0 (writeOnly_acquired hacquired) h
      rw [Multiset.add_zero] at hmoves
      exact hmoves rfl
    · rfl
  have hrelease : run maxLocalLockNum ⟨t, pins, faults⟩
      (releaseAll (pageListLocks pageList)) =
      ⟨[], pins, faults⟩ := run_releaseAll hacquired.count pins faults
  rw [insertRowDataWithGroupLocks, run_append, run_append]
  rw [pageListLocks] at hrun hrelease
  rw [hrun, hwrite, hrelease]

theorem net_insertRowDataWithGroupLocks (pageList : List PageDataHeader) (hasSpace : Bool) :
    net (insertRowDataWithGroupLocks pageList hasSpace) = 0 := by
  cases hasSpace <;>
    simp [insertRowDataWithGroupLocks, net_acquireAll, net_releaseAll, net_replicate]

/-- Without room, a lock that was refused is given back. -/
theorem faults_insertRowDataWithGroupLocks {pageList : List PageDataHeader} {hasSpace : Bool}
    (h : ¬ PagesLockable pageList hasSpace) (pins : Multiset PageId) (faults : Nat) :
    faults <
      (run maxLocalLockNum ⟨[], pins, faults⟩
        (insertRowDataWithGroupLocks pageList hasSpace)).faults := by
  have hnet := net_insertRowDataWithGroupLocks pageList hasSpace
  have hne : pageListLocks pageList ≠ [] := by
    intro hnil
    apply h
    simp [PagesLockable, hnil, maxLocalLockNum]
  rw [insertRowDataWithGroupLocks, List.append_assoc] at hnet ⊢
  by_cases hroom : (pageListLocks pageList).dropLast.toFinset.card < maxLocalLockNum
  · -- All pages are locked, and the first write finds the table full.
    obtain ⟨t, hrun, hacquired⟩ := acquireAll_of_room (m := .write) hroom pins faults
    cases hasSpace with
    | false => exact absurd hroom h
    | true =>
      have hfull : maxLocalLockNum ≤ t.length := by
        rw [hacquired.length]
        exact Nat.not_lt.mp h
      cases pageList with
      | nil => exact absurd rfl hne
      | cons page rest =>
        rw [pageListLocks] at hrun
        rw [if_pos rfl, List.map_cons (f := fun _ => tableWriteLocks .main),
          List.flatten_cons] at hnet ⊢
        refine faults_of_full pins faults ?_ (le_of_eq hnet.symm)
        rw [hrun]
        exact hfull
  · exact faults_of_no_room hne (Nat.not_lt.mp hroom) _ (le_of_eq hnet.symm) pins faults

/-- The rounds of `pax_ExecInsert` balance: the pages of a group can be locked, and new pages
can be read. -/
def InsertBalanced (colNum : Nat) (sizes : List Nat) (search : SpaceGroupSearch) :
    List InsertSight → Prop
  | [] => True
  | s :: rounds =>
      match (getSpaceGroupPageLocks sizes search s.groups).1 with
      | none => True
      | some (some pageList, search) =>
          PagesLockable pageList (groupHasSpace sizes s.locked) ∧
            (groupHasSpace sizes s.locked = false → InsertBalanced colNum sizes search rounds)
      | some (none, search) =>
          s.ext.Extends colNum ∧ InsertBalanced colNum sizes search rounds

/-- A group that has pages with space. -/
theorem moves_groupFound {pageList : List PageDataHeader} {search search' : SpaceGroupSearch}
    {locks : LockTrace}
    (h : Moves maxLocalLockNum NoPages 2 locks (searchPins search.page)
      (columnPins (some pageList) + searchPins search'.page))
    {hasSpace : Bool} (hlockable : PagesLockable pageList hasSpace) (pins : Multiset PageId)
    (faults : Nat) :
    run maxLocalLockNum ⟨[], searchPins search.page + pins, faults⟩
        (locks ++ insertRowDataWithGroupLocks pageList hasSpace ++
          releasePageListLocks pageList) =
      ⟨[], searchPins search'.page + pins, faults⟩ := by
  have hrelease := ((moves_releasePageListLocks pageList).frame (searchPins search'.page)).run
    writeOnly_nil (by decide) pins faults
  rw [Multiset.zero_add] at hrelease
  rw [run_append, run_append, h.run noPages_nil (by decide),
    run_insertRowDataWithGroupLocks hlockable]
  exact hrelease

/-- The group is extended, its new pages are recorded, and the extension lock is given
back. -/
theorem moves_groupExtended {colNum : Nat} {s : InsertSight} {page : PageDataHeader}
    {locks locks' : LockTrace}
    (hext : extensionTblLocks colNum .main s.ext = (some page, locks))
    (hitem : insertGroupItemLocks page colNum s.item = (true, locks')) :
    Moves maxLocalLockNum NoPages 3 ((.acquire .extension .write ::
      (locks ++ locks' ++ [.release .extension])) ++ releasePageLocks page.mainId) 0 0 := by
  have hpages := moves_extensionTblLocks colNum .main s.ext
  rw [hext] at hpages
  have hrecord := (moves_insertGroupItemLocks hitem).frame {page.mainId}
  rw [Multiset.zero_add] at hrecord
  have hlock : Moves maxLocalLockNum NoPages 3 (.acquire .extension .write ::
      (locks ++ locks' ++ [.release .extension])) 0 {page.mainId} :=
    Moves.lock ((moves_noPages hpages).append hrecord) fun _ ht => ht.acquire_extension
  exact hlock.append ((moves_noPages (moves_releasePageLocks page.mainId)).mono (by decide))

/-- Without room for the pages of a group, a fault stays. -/
theorem run_groupFound_ne {pageList : List PageDataHeader} {search search' : SpaceGroupSearch}
    {locks rest : LockTrace}
    (h : Moves maxLocalLockNum NoPages 2 locks (searchPins search.page)
      (columnPins (some pageList) + searchPins search'.page))
    {hasSpace : Bool} (hlockable : ¬ PagesLockable pageList hasSpace)
    (pins pins' : Multiset PageId) (faults : Nat) :
    run maxLocalLockNum ⟨[], searchPins search.page + pins, faults⟩
      (locks ++ insertRowDataWithGroupLocks pageList hasSpace ++ rest) ≠
        ⟨[], pins', faults⟩ := by
  intro hrun
  have hfault := faults_insertRowDataWithGroupLocks hlockable
    (columnPins (some pageList) + searchPins search'.page + pins) faults
  rw [run_append, run_append, h.run noPages_nil (by decide)] at hrun
  have hlast := faults_run maxLocalLockNum (run maxLocalLockNum
    ⟨[], columnPins (some pageList) + searchPins search'.page + pins, faults⟩
    (insertRowDataWithGroupLocks pageList hasSpace)) rest
  rw [hrun] at hlast
  dsimp only at hlast
  omega

/-- When the group cannot be extended, the extension lock is still held. -/
theorem run_extension_ne {colNum : Nat} {s : InsertSight} {search search' : SpaceGroupSearch}
    {locks locks' : LockTrace}
    (h : Moves maxLocalLockNum NoPages 2 locks (searchPins search.page)
      (searchPins search'.page))
    (hext : extensionTblLocks colNum .main s.ext = (none, locks'))
    (pins pins' : Multiset PageId) (faults : Nat) :
    run maxLocalLockNum ⟨[], searchPins search.page + pins, faults⟩
      (locks ++ .acquire .extension .write :: locks') ≠ ⟨[], pins', faults⟩ := by
  intro hrun
  have hpages := moves_extensionTblLocks colNum .main s.ext
  rw [hext] at hpages
  have hstep : step maxLocalLockNum ⟨[], searchPins search'.page + pins, faults⟩
      (.acquire .extension .write : Action LockId PageId) =
        ⟨[⟨.extension, .write, 1, Nat.one_pos⟩], searchPins search'.page + pins, faults⟩ :=
          rfl
  have hheld :=
    hpages ⟨[⟨.extension, .write, 1, Nat.one_pos⟩], searchPins search'.page + pins,
    faults⟩ _ (by simp [WriteOnly, InMode, writeMode]) (show 3 ≤ maxLocalLockNum by decide)
    (Multiset.zero_add _).symm
  rw [run_append, h.run noPages_nil (by decide), run_cons, hstep, hheld] at hrun
  have htable := congrArg Held.table hrun
  cases htable

theorem insert_balanced_iff {colNum : Nat} {sizes : List Nat}
    {search search' : SpaceGroupSearch} {rounds : List InsertSight} {locks : LockTrace}
    (h : insertRoundsLocks colNum sizes search rounds = (some search', locks))
    (pins : Multiset PageId) (faults : Nat) :
    run maxLocalLockNum ⟨[], searchPins search.page + pins, faults⟩ locks =
      ⟨[], searchPins search'.page + pins, faults⟩ ↔
        InsertBalanced colNum sizes search rounds := by
  induction rounds generalizing search locks with
  | nil => cases h
  | cons s rounds ih =>
    simp only [insertRoundsLocks] at h
    simp only [InsertBalanced]
    generalize hgroup : getSpaceGroupPageLocks sizes search s.groups = result at h ⊢
    obtain ⟨_ | ⟨found, search₁⟩, locks₁⟩ := result
    · cases h
    · have hmoves := moves_getSpaceGroupPageLocks hgroup
      cases found with
      | some pageList =>
        dsimp only at h ⊢
        generalize groupHasSpace sizes s.locked = hasSpace at h ⊢
        generalize hrest : insertRoundsLocks colNum sizes search₁ rounds = result at h
        obtain ⟨result, locks₂⟩ := result
        by_cases hlockable : PagesLockable pageList hasSpace
        · have hrun := moves_groupFound hmoves hlockable pins faults
          cases hasSpace with
          | true =>
            cases h
            rw [hrun]
            exact iff_of_true rfl ⟨hlockable, fun hfalse => by cases hfalse⟩
          | false =>
            cases h
            rw [run_append, hrun, ih hrest]
            exact ⟨fun hbalanced => ⟨hlockable, fun _ => hbalanced⟩,
              fun hbalanced => hbalanced.2 rfl⟩
        · -- The fault of the locked pages stays.
          obtain ⟨rest, rfl⟩ : ∃ rest, locks =
              locks₁ ++ insertRowDataWithGroupLocks pageList hasSpace ++ rest := by
            cases hasSpace with
            | true =>
              cases h
              exact ⟨_, rfl⟩
            | false =>
              cases h
              exact ⟨releasePageListLocks pageList ++ locks₂, (List.append_assoc ..)⟩
          exact iff_of_false (run_groupFound_ne hmoves hlockable pins _ faults)
            fun hbalanced => hlockable hbalanced.1
      | none =>
        dsimp only at h ⊢
        have hsearch : Moves maxLocalLockNum NoPages 2 locks₁ (searchPins search.page)
            (searchPins search₁.page) := by
          simpa [columnPins] using hmoves
        have hrun₁ := hsearch.run noPages_nil (by decide) pins faults
        have hextends := extensionTblLocks_ne_none colNum .main s.ext
        generalize hext : extensionTblLocks colNum .main s.ext = result at h ⊢
        obtain ⟨found, locks₂⟩ := result
        cases found with
        | none =>
          -- The extension lock is still held.
          cases h
          exact iff_of_false (run_extension_ne hsearch hext pins _ faults) fun hbalanced =>
            hextends.mpr hbalanced.1 (by rw [hext])
        | some page =>
          dsimp only at h ⊢
          generalize hitem : insertGroupItemLocks page colNum s.item = result at h
          obtain ⟨_ | _, locks₃⟩ := result
          · cases h
          · generalize hrest : insertRoundsLocks colNum sizes search₁ rounds = result at h
            obtain ⟨result, locks₄⟩ := result
            cases h
            have hrun₂ :=
              ((moves_groupExtended hext hitem).frame (searchPins search₁.page)).run
                noPages_nil (by decide) pins faults
            rw [Multiset.zero_add] at hrun₂
            rw [run_append, List.append_assoc, run_append, hrun₁, hrun₂, ih hrest]
            exact (and_iff_right (hextends.mp (by simp [hext]))).symm

/-! ## The operations -/

/-- A call of an operation, or of `GetSpaceSpecifyPage` by `pax_ExecUpdate`: for an undo page,
or for a page with space for the new value while the page of the old one and the undo page are
locked. -/
inductive ModifyCall where
  | insert (colNum pageListNum : Nat) (sizes : List Nat) (search : SpaceGroupSearch)
      (rounds : List InsertSight)
  | update (curr : Nat) (cols : List (ColumnUpdate × UpdateSight))
  | delete (curr : Nat) (cols : List (RowColumnData × Lookup))
  | undoSpace (size : Nat) (s : SpaceSight)
  | dataSpace (origin undo : PageDataHeader) (size : Nat) (s : SpaceSight)

/-- The locks that are held before the call. -/
def ModifyCall.table : ModifyCall → List (Entry LockId)
  | .dataSpace origin undo _ _ =>
      (run maxLocalLockNum ⟨[], (0 : Multiset PageId), 0⟩
        (acquireAll .write (pageListLocks [origin, undo]))).table
  | _ => []

/-- The pins that the call takes over: the page of the group search. -/
def ModifyCall.pins : ModifyCall → Multiset PageId
  | .insert _ _ _ search _ => searchPins search.page
  | _ => 0

/-- The pins that the call hands over and its trace, if it returns. -/
def ModifyCall.locks : ModifyCall → Option (Multiset PageId × LockTrace)
  | .insert colNum pageListNum sizes search rounds =>
      let result := paxExecInsertLocks colNum pageListNum sizes search rounds
      result.1.map fun search => (searchPins search.page, result.2)
  | .update curr cols => some (0, paxExecUpdateLocks curr cols)
  | .delete curr cols => some (0, paxExecDeleteLocks curr cols)
  | .undoSpace size s =>
      let result := getSpaceSpecifyPageLocks size .undo s
      some (pagePins .main result.1, result.2)
  | .dataSpace _ _ size s =>
      let result := getSpaceSpecifyPageLocks size .data s
      some (pagePins .main result.1, result.2)

/-- The calls that balance. -/
def ModifyCall.Balanced : ModifyCall → Prop
  | .insert colNum pageListNum sizes search rounds =>
      pageListNum < sizes.length ∨ InsertBalanced colNum sizes search rounds
  | .update curr cols => UpdateBalanced curr cols
  | .delete _ _ => True
  | .undoSpace size s => ¬ s.Leaks size .undo
  | .dataSpace _ _ size s => ¬ s.Leaks size .data

theorem ModifyCall.table_dataSpace (origin undo : PageDataHeader)
    (size : Nat) (s : SpaceSight) :
    WriteOnly (ModifyCall.dataSpace origin undo size s).table ∧
      (ModifyCall.dataSpace origin undo size s).table.length + 4 ≤ maxLocalLockNum := by
  have hcard : (pageListLocks [origin, undo]).toFinset.card ≤ 2 := List.toFinset_card_le _
  have hroom : (pageListLocks [origin, undo]).dropLast.toFinset.card < maxLocalLockNum :=
    Nat.lt_of_le_of_lt (List.toFinset_card_le _) (show 1 < maxLocalLockNum by decide)
  obtain ⟨t, hrun, hacquired⟩ :=
    acquireAll_of_room (m := .write) hroom (0 : Multiset PageId) 0
  have htable : (ModifyCall.dataSpace origin undo size s).table = t :=
    congrArg Held.table hrun
  rw [htable]
  refine ⟨writeOnly_acquired hacquired, ?_⟩
  rw [hacquired.length, maxLocalLockNum]
  omega

/-- A call that returns leaves the locks and pins that were there, but for the pins it takes
over and those it hands over, if and only if it is one of the calls that balance. -/
theorem modify_balanced_iff (call : ModifyCall) {handed : Multiset PageId} {locks : LockTrace}
    (h : call.locks = some (handed, locks)) (pins : Multiset PageId) (faults : Nat) :
    run maxLocalLockNum ⟨call.table, call.pins + pins, faults⟩ locks =
      ⟨call.table, handed + pins, faults⟩ ↔ call.Balanced := by
  cases call with
  | insert colNum pageListNum sizes search rounds =>
    obtain ⟨search', hlocks, heq⟩ := Option.map_eq_some_iff.mp h
    cases heq
    simp only [paxExecInsertLocks] at hlocks ⊢
    simp only [ModifyCall.table, ModifyCall.pins, ModifyCall.Balanced]
    split at hlocks
    · rename_i hroom
      cases hlocks
      simp [hroom]
    · rename_i hroom
      rw [if_neg hroom, insert_balanced_iff (Prod.ext hlocks rfl)]
      exact (or_iff_right hroom).symm
  | update curr cols =>
    cases h
    have hupdate := update_balanced_iff curr cols pins faults
    simpa [ModifyCall.table, ModifyCall.pins, ModifyCall.Balanced] using hupdate
  | delete curr cols =>
    cases h
    have hdelete := (delete_balanced curr cols).run writeOnly_nil (by decide) pins faults
    simpa [ModifyCall.table, ModifyCall.pins, ModifyCall.Balanced] using hdelete
  | undoSpace size s =>
    cases h
    have hspace := space_balanced_iff size s (.inl rfl) writeOnly_nil (by decide) pins faults
    simpa [ModifyCall.table, ModifyCall.pins, ModifyCall.Balanced] using hspace
  | dataSpace origin undo size s =>
    cases h
    obtain ⟨htable, hroom⟩ := ModifyCall.table_dataSpace origin undo size s
    have hspace := space_balanced_iff size s (.inr rfl) htable hroom pins faults
    simpa [ModifyCall.pins, ModifyCall.Balanced] using hspace

/-- A page without space. -/
def fullPage (no : Nat) : PageDataHeader :=
  { initPage no with dataEndOffset := pageDataHeaderSize }

/-- A row of two columns, inserted into a table whose only group, with page 2 for its first
column, is full. The pages 4 and 5 are the new group, recorded on page 2 of the group file. -/
def insertCall : ModifyCall :=
  .insert 2 2 [60, 60] ⟨none, true⟩
    [{ groups := [⟨⟨.found (initPage 2) .inPool, []⟩, [[.found (fullPage 2) .inPool]]⟩,
          ⟨⟨.missing 0 [] true, [.missing 3 [] true]⟩, []⟩]
       ext := ⟨.inPool, .found (initPage 5) ⟨[], .file true⟩⟩
       item := ⟨[.found (initPage 2) .inPool], ⟨.inPool, .missing 3 [] true⟩, .inPool⟩
       locked := [] },
     { groups := [⟨⟨.found (initPage 2) .inPool, []⟩, [[.found (fullPage 2) .inPool]]⟩,
          ⟨⟨.missing 0 [] true, []⟩,
            [[.found (initPage 4) .inPool], [.found (initPage 5) .inPool]]⟩]
       ext := ⟨.inPool, .missing 6 [] true⟩
       item := ⟨[], ⟨.inPool, .missing 3 [] true⟩, .inPool⟩
       locked := [initPage 4, initPage 5] }]

/-- A value of 60 bytes on a page, and its new value of the given size. -/
def updateOf (no size : Nat) : ColumnUpdate where
  old := ⟨60, 0, ⟨4, invalidXtid, 0, 0, RowPosition.none⟩, []⟩
  oldRowSize := 60
  headItem := ⟨no, 40, ⟨4036, true, false, 60⟩⟩
  row := ⟨size, 0, ⟨0, 0, 0, 0, RowPosition.none⟩, []⟩

/-- The values of a row on the pages 2 and 3 are replaced where they are. Page 2 has an undo
page, and page 3 gets one. -/
def updateCall : ModifyCall :=
  .update 4
    [(updateOf 2 60,
      { origin := .found { initPage 2 with undoPage := 4 } .inPool
        undo := ⟨{ initPage 2 with undoPage := 4 },
          .found { initPage 4 with pageType := .undo } .inPool, ⟨.inPool, .missing 5 [] true⟩⟩
        data := ⟨initPage 2, .missing 3 [] true, ⟨.inPool, .missing 5 [] true⟩⟩ }),
     (updateOf 3 52,
      { origin := .found (initPage 3) ⟨[⟨(.main, 6), true⟩], .file false⟩
        undo := ⟨initPage 3, .missing 0 [] true, ⟨.inPool, .found (initPage 5) .inPool⟩⟩
        data := ⟨initPage 3, .missing 4 [] true, ⟨.inPool, .missing 5 [] true⟩⟩ })]

/-- The columns of a row on the pages 2 and 3 are deleted. -/
def deleteCall : ModifyCall :=
  .delete 4 [((updateOf 2 60).old, .found (initPage 2) .inPool),
    ((updateOf 3 60).old, .found (initPage 3) ⟨[], .file true⟩)]

/-- With page 7 pinned before, the call leaves what it has found. -/
def LeavesPageSeven (call : ModifyCall) : Prop :=
  ∃ handed locks, call.locks = some (handed, locks) ∧
    run maxLocalLockNum ⟨call.table, call.pins + {(.main, 7)}, 0⟩ locks =
      ⟨call.table, handed + {(.main, 7)}, 0⟩ ∧ call.Balanced

theorem calls_balanced :
    LeavesPageSeven insertCall ∧ LeavesPageSeven updateCall ∧ LeavesPageSeven deleteCall := by
  have hleaves (call : ModifyCall) {handed : Multiset PageId} {locks : LockTrace}
      (h : call.locks = some (handed, locks))
      (hrun : run maxLocalLockNum ⟨call.table, call.pins + {(.main, 7)}, 0⟩ locks =
        ⟨call.table, handed + {(.main, 7)}, 0⟩) : LeavesPageSeven call :=
    ⟨handed, locks, h, hrun, (modify_balanced_iff call h _ 0).mp hrun⟩
  refine ⟨?_, ?_, ?_⟩
  · exact hleaves insertCall (show insertCall.locks = some ({(.group, 2)}, _) from rfl)
      (by decide +kernel)
  · exact hleaves updateCall (show updateCall.locks = some (0, _) from rfl)
      (by decide +kernel)
  · exact hleaves deleteCall (show deleteCall.locks = some (0, _) from rfl)
      (by decide +kernel)

/-- A value of page 2 is replaced by a larger one on the same page; page 3 is the undo
page. -/
def updateLarger : ModifyCall :=
  .update 4
    [(updateOf 2 80,
      { origin := .found (initPage 2) .inPool
        undo := ⟨{ initPage 2 with undoPage := 3 },
          .found { initPage 3 with pageType := .undo } .inPool, ⟨.inPool, .missing 4 [] true⟩⟩
        data := ⟨initPage 2, .missing 3 [] true, ⟨.inPool, .missing 4 [] true⟩⟩ })]

/-- The lock of page 2 is given back once more than it was taken. -/
theorem update_larger_unbalanced :
    ¬ ∀ call : ModifyCall, ∀ handed locks, call.locks = some (handed, locks) →
      ∀ pins, run maxLocalLockNum ⟨call.table, call.pins + pins, 0⟩ locks =
        ⟨call.table, handed + pins, 0⟩ := by
  intro h
  have hrun := congrArg Held.faults (h updateLarger _ _ rfl 0)
  revert hrun
  decide

end Toadb
