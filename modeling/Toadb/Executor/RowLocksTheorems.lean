/-
Toadb.Executor.RowLocksTheorems — when workers on one table do not wait for each other in a
cycle.

Every operation that keeps to the order of `PageOrderTheorems` asks for its locks in order and
leaves its worker without any (`RowOperation.InOrder`). `LockingInv` carries this through a
run, beside what the workers know: a page that is not recorded is locked by the worker that
adds it, or for a moment by `AllocBuffer`. In every state of such a run there is no cycle
(`rows_not_deadlocked`).

The operations that do not keep to it are those that leave a page or the extension locked,
those for which `AllocBuffer` waits for the buffer of another page while pages are locked, and
the update that writes a larger value into the page of the old one: it unlocks the page, and
then asks for it again to release it, with the undo page locked. Two such updates of one page
wait for each other (`updates_deadlocked`).
-/
import Toadb.Executor.RowLocks
import Toadb.Executor.ModifyLocksTheorems
import Toadb.Storage.PageOrderTheorems
import Toadb.Lib.Transition

namespace Toadb

open HeldLocks

variable {r : PageRoles} {curr : Nat} {u : ColumnUpdate} {s : UpdateSight} {data : SpaceSight}
  {x : ℕ ×ₗ ℕ} {t : List (Entry LockId)}

/-! ## Updating -/

/-- There is space on the start page itself. -/
def SpaceSight.OnStart (s : SpaceSight) (size : Nat) : Prop :=
  size + pageDataHeaderSize < pageMaxSize ∧ s.first.pageType = .data ∧
    hasFreeSpace s.first size = true

/-- A round from its two locks on: the value does not grow, or its new place is on another
page. -/
def LockedInOrder (r : PageRoles) (curr : Nat) (u : ColumnUpdate) (origin : PageDataHeader)
    (data : SpaceSight) : Prop :=
  tupleUpdateSatisfy curr u.old.headerData ≠ .ok ∨ u.row.size ≤ u.old.size ∨
    data.first.pageNum = origin.pageNum ∧ data.Follows r (u.row.size + itemSize) .data ∧
      data.InOrder (u.row.size + itemSize) .data ∧ ¬ data.OnStart (u.row.size + itemSize)

/-- A round of `pax_ExecUpdate` that takes its locks in order. -/
def ColumnInOrder (r : PageRoles) (curr : Nat) (u : ColumnUpdate) (s : UpdateSight) : Prop :=
  ∀ origin, s.origin.page = some origin →
    s.undo.first.pageNum = origin.pageNum ∧ s.undo.Follows r (itemSize + u.oldRowSize) .undo ∧
      s.undo.InOrder (itemSize + u.oldRowSize) .undo ∧
      (¬ s.undo.Refused (itemSize + u.oldRowSize) .undo →
        LockedInOrder r curr u origin s.data)

/-- The page `GetSpaceSpecifyPage` returns is the start page, or has the use it is looked
for. -/
theorem role_of_space {size : Nat} {pageType : PageType} {s : SpaceSight}
    (hkind : pageType = .undo ∨ pageType = .data) (hfollows : s.Follows r size pageType)
    (hstart : pageType = .data → ¬ s.OnStart size) (page : PageDataHeader)
    (h : (getSpaceSpecifyPageLocks size pageType s).1 = some page) :
    r.role page.pageNum = chainType pageType := by
  have hchain : ∀ {page}, s.first.chain (chainType pageType) ≠ invalidPageNum →
      s.chain.page = some page → r.role page.pageNum = chainType pageType := by
    intro page hvalid hpage
    rw [← lookup_pageNum hpage]
    exact hfollows.chain hvalid
  have hadded := hfollows.added
  rw [← searchSpaceLocks_full] at hadded
  unfold getSpaceSpecifyPageLocks at h
  cases hsearch : searchSpaceLocks size pageType s with
  | mk found locks =>
    rw [hsearch] at h hadded
    cases found with
    | refused => cases h
    | full =>
      have hpage : s.ext.last.page = some page := by
        rw [← extendChainLocks_page]
        exact h
      rw [← lookup_pageNum hpage]
      exact hadded rfl
    | found page' =>
      cases h
      -- The page is the head of the chain.
      unfold searchSpaceLocks at hsearch
      unfold searchChainLocks at hsearch
      unfold SpaceSight.OnStart at hstart
      rcases hkind with rfl | rfl
      · simp only [chainType] at hchain ⊢
        grind
      · simp only [chainType] at hchain ⊢
        grind

theorem steady_updateLockedLocks {origin : PageDataHeader} (undo : PageDataHeader)
    (h : LockedInOrder r curr u origin data)
    (horigin : r.role origin.pageNum = .data) :
    ∃ mid, (updateLockedLocks curr u origin undo data).2 = mid ++ updateEndLocks origin undo ∧
      Steady maxLocalLockNum (lockAllowed r)
        (Holding r origin.pageNum (toLex (2, 0))) 5 mid := by
  have hwrite : Steady maxLocalLockNum (lockAllowed r) (Below r (toLex (2, 0))) 5
      (tableWriteLocks .main) :=
        steady_tableWriteLocks .main (by simp [Prod.Lex.toLex_le_toLex])
  have hwrites := (hwrite.append hwrite).weaken
    (fun t (ht : Holding r origin.pageNum (toLex (2, 0)) t) => ht.1)
  unfold updateLockedLocks
  split
  · exact ⟨[], rfl, .nil⟩
  · rename_i hsatisfy
    split
    · exact ⟨_, rfl, hwrites⟩
    · rename_i hsize
      obtain ⟨hfirst, hfollows, horder, hstart⟩ :=
        (h.resolve_left hsatisfy).resolve_left hsize
      have hsearch := steady_getSpaceSpecifyPageLocks (.inr rfl) hfollows horder
      have hrole := role_of_space (.inr rfl) hfollows fun _ => hstart
      rw [hfirst] at hsearch
      generalize getSpaceSpecifyPageLocks (u.row.size + itemSize) .data data =
        result at hsearch hrole
      obtain ⟨found, locks⟩ := result
      have hsearched := (hwrite.weaken fun t
        (ht : Holding r origin.pageNum (toLex (2, 0)) t) => ht.1).append
        (hsearch.weaken fun t ht => ⟨ht.1, .inr ht.2⟩)
      cases found with
      | none => exact ⟨_, rfl, hsearched⟩
      | some newRowPage =>
        have hnew : r.role newRowPage.pageNum = .extData := hrole newRowPage rfl
        have hrank : toLex (2, 0) = lockRank r (.page newRowPage.mainId) :=
          (lockRank_extData hnew).symm
        have hne : newRowPage.pageNum ≠ origin.pageNum := by
          intro heq
          rw [heq, horigin] at hnew
          cases hnew
        -- The page is locked, written, and unlocked twice.
        have hlock : Steady maxLocalLockNum (lockAllowed r) (Below r (toLex (2, 0))) 5
            (.acquire (.page newRowPage.mainId) .write ::
              (tableWriteLocks .main ++ tableWriteLocks .main ++
                [.release (.page newRowPage.mainId)])) :=
          (steady_lock (k := 1) ((steady_tableWriteLocks .main le_rfl).append
            (steady_tableWriteLocks .main le_rfl)) (le_of_eq hrank)
              (lockRank_page_lt _)).mono (by decide)
        have hunlock : Steady maxLocalLockNum (lockAllowed r) (Below r (toLex (2, 0))) 5
            ([.release (.page newRowPage.mainId)] : LockTrace) :=
          (steady_release fun t (ht : Below r (toLex (2, 0)) t) hmem =>
            absurd (ht.2 _ hmem) (hrank ▸ lt_irrefl _)).mono (Nat.zero_le 5)
        have hrelease := (steady_releasePageLocks newRowPage.mainId (le_of_eq hrank)).mono
          (show 1 ≤ 5 by decide)
        have hlarger : Steady maxLocalLockNum (lockAllowed r) (Below r (toLex (2, 0))) 5
            (writeLargerLocks origin newRowPage) := by
          simpa [writeLargerLocks, hne, unlockAndRelease] using
            hlock.append (hunlock.append hrelease)
        exact ⟨_, rfl, hsearched.append (hlarger.weaken fun t ht => ht.1)⟩

theorem steady_updateColumnLocks (h : ColumnInOrder r curr u s) :
    Steady maxLocalLockNum (lockAllowed r) Free 8 (updateColumnLocks curr u s).2 := by
  have hlookup := (steady_lookup (r := r) .main s.origin).mono (show 2 ≤ 8 by decide)
  unfold updateColumnLocks
  cases hpage : s.origin.page with
  | none => exact hlookup
  | some origin =>
    obtain ⟨hfirst, hfollows, horder, hlocked⟩ := h origin hpage
    have hsearch := steady_getSpaceSpecifyPageLocks (.inl rfl) hfollows horder
    have hrole := role_of_space (.inl rfl) hfollows (by simp)
    have hnone : (getSpaceSpecifyPageLocks (itemSize + u.oldRowSize) .undo s.undo).1 ≠ none →
        ¬ s.undo.Refused (itemSize + u.oldRowSize) .undo := fun hsome hrefused =>
      hsome ((getSpaceSpecifyPageLocks_none hrefused.not_leaks).mpr hrefused)
    rw [hfirst] at hsearch
    dsimp only
    generalize getSpaceSpecifyPageLocks (itemSize + u.oldRowSize) .undo s.undo = result
      at hsearch hrole hnone
    obtain ⟨found, locks⟩ := result
    have hsearched := hlookup.append
      ((hsearch.weaken fun t (ht : Free t) => ⟨ht.below, .inl ht⟩).mono (by decide))
    cases found with
    | none => exact hsearched
    | some undo =>
      have horigin : r.role origin.pageNum = .data := hfirst ▸ hfollows.first
      have hundo : r.role undo.pageNum = .undo := hrole undo rfl
      obtain ⟨mid, hmid, hsteady⟩ :=
        steady_updateLockedLocks undo (hlocked (hnone (by simp))) horigin
      have hrank : lockRank r (.page undo.mainId) = toLex (1, 0) := lockRank_undo hundo
      -- The undo page is locked with the page of the old value locked.
      have hinner : Steady maxLocalLockNum (lockAllowed r)
          (Holding r origin.pageNum (toLex (1, 0))) 6
          (.acquire (.page undo.mainId) .write ::
            (mid ++ [.release (.page undo.mainId)])) := by
        refine hsteady.lock fun t ⟨hbelow, hmem⟩ => ?_
        obtain ⟨hallowed, t', ht', hbelow'⟩ := hbelow.acquire (le_of_eq hrank.symm)
          (show lockRank r (.page undo.mainId) < toLex (2, 0) by
            simp [hrank, Prod.Lex.toLex_lt_toLex])
        exact ⟨.inr hallowed, t', ht', hbelow', (mem_locks_acquireEntry ht').mpr (.inl hmem)⟩
      have hrelease : Steady maxLocalLockNum (lockAllowed r)
          (Holding r origin.pageNum (toLex (1, 0))) 6
          (releasePageLocks undo.mainId) :=
        ((steady_releasePageLocks undo.mainId (le_of_eq hrank.symm)).weaken fun t ht =>
          ht.1).mono
          (by decide)
      have hboth := steady_startAndRelease (hinner.append hrelease)
        (show lockRank r (.page (.main, origin.pageNum)) < toLex (1, 0) by
          simp [lockRank_data horigin, Prod.Lex.toLex_lt_toLex])
      have hfree : Steady maxLocalLockNum (lockAllowed r) Free 8 _ :=
        (hboth.weaken fun t (ht : Free t) => ⟨ht.below, .inl ht⟩).mono (by decide)
      simpa [hmid, updateEndLocks, unlockAndRelease, PageDataHeader.mainId] using
        hsearched.append hfree

/-- The rounds of `pax_ExecUpdate` take their locks in order, up to the first that ends the
loop. -/
def UpdateInOrder (r : PageRoles) (curr : Nat) : List (ColumnUpdate × UpdateSight) → Prop
  | [] => True
  | (u, s) :: cols =>
      ColumnInOrder r curr u s ∧
        ((updateColumnLocks curr u s).1 = true → UpdateInOrder r curr cols)

theorem steady_paxExecUpdateLocks {cols : List (ColumnUpdate × UpdateSight)}
    (h : UpdateInOrder r curr cols) :
    Steady maxLocalLockNum (lockAllowed r) Free 8 (paxExecUpdateLocks curr cols) := by
  induction cols with
  | nil => exact .nil
  | cons col cols ih =>
    obtain ⟨u, s⟩ := col
    have hcol := steady_updateColumnLocks h.1
    simp only [paxExecUpdateLocks]
    split
    · rename_i hok
      exact hcol.append (ih (h.2 hok))
    · exact hcol

/-! ## Deleting -/

/-- A page that is locked first, and given back. -/
theorem steady_onePage {k : Nat} {tr : LockTrace} (p : PageId)
    (h : Steady maxLocalLockNum (lockAllowed r) (Below r (toLex (6, 0))) k tr) :
    Steady maxLocalLockNum (lockAllowed r) Free (k + 1)
      (.acquire (.page p) .write :: (tr ++ unlockAndRelease p)) := by
  have hlock := steady_free (steady_lock h le_rfl (lockRank_page_lt p))
  have hrelease := (steady_free (steady_releasePageLocks (r := r) p le_rfl)).mono
    (show 1 ≤ k + 1 by omega)
  simpa [unlockAndRelease, writeMode] using hlock.append hrelease

theorem steady_paxExecDeleteLocks (curr : Nat) (cols : List (RowColumnData × Lookup)) :
    Steady maxLocalLockNum (lockAllowed r) Free 8 (paxExecDeleteLocks curr cols) := by
  induction cols with
  | nil => exact .nil
  | cons col cols ih =>
    obtain ⟨old, origin⟩ := col
    have hlookup := (steady_lookup (r := r) .main origin).mono (show 2 ≤ 8 by decide)
    simp only [paxExecDeleteLocks]
    cases origin.page with
    | none => exact hlookup
    | some page =>
      dsimp only
      split
      · have hback :=
          (steady_onePage (r := r) (k := 0) page.mainId .nil).mono (show 1 ≤ 8 by decide)
        simpa using hlookup.append hback
      · have hback := (steady_onePage (r := r) (k := 0) page.mainId
          (steady_tableWriteLocks .main le_rfl)).mono (show 1 ≤ 8 by decide)
        simpa using (hlookup.append hback).append ih

/-! ## Inserting -/

/-- The pages of a group follow each other in the order of the columns. -/
def PagesInOrder (r : PageRoles) (pageList : List PageDataHeader) : Prop :=
  pageList.Pairwise (fun page page' => page.pageNum < page'.pageNum) ∧
    ∀ page ∈ pageList, r.role page.pageNum = .data

/-- Data pages are locked in the order of their numbers. -/
theorem ordered_lockPages {pageList : List PageDataHeader} (h : PagesInOrder r pageList)
    {s : Held LockId PageId} (hmode : WriteOnly s.table)
    (hbelow : ∀ l ∈ locks s.table, ∀ page ∈ pageList,
      lockRank r l < lockRank r (.page page.mainId))
    (hpages : ∀ l ∈ locks s.table, lockRank r l < toLex (6, 0)) :
    Ordered maxLocalLockNum (lockAllowed r) s (acquireAll .write (pageListLocks pageList)) ∧
      Below r (toLex (6, 0))
        (run maxLocalLockNum s (acquireAll .write (pageListLocks pageList))).table := by
  induction pageList generalizing s with
  | nil => exact ⟨trivial, hmode, hpages⟩
  | cons page rest ih =>
    obtain ⟨hsorted, hdata⟩ := h
    obtain ⟨hfirst, hsorted⟩ := List.pairwise_cons.mp hsorted
    obtain ⟨hpage, hdata⟩ := List.forall_mem_cons.mp hdata
    obtain ⟨t, ht, hmode'⟩ := hmode.acquire (.page page.mainId)
    have hgrow : ∀ page' ∈ rest, lockRank r (.page page.mainId) <
        lockRank r (.page page'.mainId) := by
      intro page' hpage'
      have := hfirst page' hpage'
      rw [PageDataHeader.mainId, PageDataHeader.mainId, lockRank_data hpage,
        lockRank_data (hdata page' hpage')]
      simpa [Prod.Lex.toLex_lt_toLex] using this
    -- The table with the page, or the full table without it.
    have hstep :
        WriteOnly (step maxLocalLockNum s (.acquire (.page page.mainId) .write)).table ∧
        ∀ l ∈ locks (step maxLocalLockNum s (.acquire (.page page.mainId) .write)).table,
          l ∈ locks s.table ∨ l = .page page.mainId := by
      simp only [step]
      split
      · exact ⟨hmode, fun l hl => .inl hl⟩
      · rw [show acquireEntry (.page page.mainId) .write s.table = some t from ht]
        exact ⟨hmode', fun l hl => (mem_locks_acquireEntry ht).mp hl⟩
    obtain ⟨hord, htable⟩ := ih ⟨hsorted, hdata⟩ hstep.1
      (by
        intro l hl page' hpage'
        rcases hstep.2 l hl with hold | rfl
        · exact hbelow l hold page' (List.mem_cons_of_mem _ hpage')
        · exact hgrow page' hpage')
      (by
        intro l hl
        rcases hstep.2 l hl with hold | rfl
        · exact hpages l hold
        · exact lockRank_page_lt _)
    refine ⟨⟨fun l m heq _ => ?_, hord⟩, htable⟩
    cases heq
    exact .inl fun l' hl' => hbelow l' hl' page (List.mem_cons_self ..)

theorem steady_insertRowDataWithGroupLocks {pageList : List PageDataHeader} (hasSpace : Bool)
    (h : PagesInOrder r pageList) :
    Steady maxLocalLockNum (lockAllowed r) Free 8
      (insertRowDataWithGroupLocks pageList hasSpace) := by
  intro s hfree _
  have hempty : s.table = [] := hfree
  obtain ⟨hord, hbelow⟩ := ordered_lockPages h (s := s) (by simp [hempty, writeOnly_nil])
    (by simp [hempty, locks]) (by simp [hempty, locks])
  have hlength :
      (run maxLocalLockNum s (acquireAll .write (pageListLocks pageList))).table.length ≤
      maxLocalLockNum := length_run_le (by simp [hempty]) _
  have hwrites : Steady maxLocalLockNum (lockAllowed r) (Below r (toLex (6, 0))) 0
      (if hasSpace then (pageList.map fun _ => tableWriteLocks .main).flatten else []) := by
    split
    · rw [List.map_const']
      exact steady_replicate (steady_tableWriteLocks .main le_rfl) pageList.length
    · exact .nil
  obtain ⟨hord', htable⟩ := hwrites _ hbelow hlength
  have hcount : ∀ l,
      heldCount l (run maxLocalLockNum s (acquireAll .write (pageListLocks pageList))).table ≤
      heldCount l s.table + (pageListLocks pageList).count l :=
        heldCount_acquireAll s .write _
  have hrelease : ∀ (s : Held LockId PageId) (ls : List LockId),
      Ordered maxLocalLockNum (lockAllowed r) s (releaseAll ls) := by
    intro s ls
    induction ls generalizing s with
    | nil => trivial
    | cons l ls ih => exact ⟨fun l' m heq => (by cases heq), ih _⟩
  refine ⟨ordered_append.mpr ⟨ordered_append.mpr ⟨hord, hord'⟩, hrelease _ _⟩, ?_⟩
  rw [insertRowDataWithGroupLocks, run_append, run_append, hempty]
  refine table_releaseAll fun l => ?_
  rw [show (pageList.map fun page => LockId.page page.mainId) = pageListLocks pageList from
    rfl, htable]
  simpa [hempty, heldCount] using hcount l

/-- The rounds of `pax_ExecInsert` take their locks in order: the pages of a group follow each
other, and new pages can be read, from buffers that are there or free. -/
def InsertInOrder (r : PageRoles) (colNum : Nat) (sizes : List Nat)
    (search : SpaceGroupSearch) :
    List InsertSight → Prop
  | [] => True
  | s :: rounds =>
      match (getSpaceGroupPageLocks sizes search s.groups).1 with
      | none => True
      | some (some pageList, search) =>
          PagesInOrder r pageList ∧
            (groupHasSpace sizes s.locked = false →
              InsertInOrder r colNum sizes search rounds)
      | some (none, search) =>
          (s.ext.Extends colNum ∧ s.ext.Untried ∧ s.item.Untried ∧
            r.role s.ext.last.pageNum ≠ .header) ∧
            InsertInOrder r colNum sizes search rounds

/-- What a trace of an insert does: it takes its locks in order, and if it returns, it leaves
none. -/
def TakesInOrder (r : PageRoles) (returns : Bool) (tr : LockTrace) : Prop :=
  ∀ s : Held LockId PageId, s.table = [] → Ordered maxLocalLockNum (lockAllowed r) s tr ∧
    (returns = true → (run maxLocalLockNum s tr).table = [])

theorem TakesInOrder.ofSteady {tr : LockTrace}
    (h : Steady maxLocalLockNum (lockAllowed r) Free 8 tr) (returns : Bool) :
    TakesInOrder r returns tr := by
  intro s hs
  obtain ⟨hord, htable⟩ := h s hs (by simp [hs, maxLocalLockNum])
  exact ⟨hord, fun _ => htable.trans hs⟩

theorem TakesInOrder.cons {tr tr' : LockTrace} {returns : Bool}
    (h : Steady maxLocalLockNum (lockAllowed r) Free 8 tr) (h' : TakesInOrder r returns tr') :
    TakesInOrder r returns (tr ++ tr') := by
  intro s hs
  obtain ⟨hord, htable⟩ := h s hs (by simp [hs, maxLocalLockNum])
  obtain ⟨hord', htable'⟩ := h' (run maxLocalLockNum s tr) (htable.trans hs)
  refine ⟨ordered_append.mpr ⟨hord, hord'⟩, ?_⟩
  rw [run_append]
  exact htable'

theorem lookup_page_ne {num : Nat} {forkNum : ForkType} {s : ExtensionSight}
    {page : PageDataHeader}
    {tr : LockTrace} (h : extensionTblLocks num forkNum s = (some page, tr)) :
    s.last.page = some page := by
  unfold extensionTblLocks at h
  split at h
  · cases h
  · exact congrArg Prod.fst h

theorem insert_inOrder {colNum : Nat} {sizes : List Nat} {search : SpaceGroupSearch}
    {rounds : List InsertSight} (h : InsertInOrder r colNum sizes search rounds) :
    TakesInOrder r (insertRoundsLocks colNum sizes search rounds).1.isSome
      (insertRoundsLocks colNum sizes search rounds).2 := by
  induction rounds generalizing search with
  | nil => exact .ofSteady .nil _
  | cons s rounds ih =>
    simp only [InsertInOrder] at h
    simp only [insertRoundsLocks]
    have hgroup := (steady_getSpaceGroupPageLocks (r := r) sizes search s.groups).mono
      (show 2 ≤ 8 by decide)
    generalize getSpaceGroupPageLocks sizes search s.groups = result at h hgroup
    obtain ⟨_ | ⟨found, search₁⟩, locks₁⟩ := result
    · exact .ofSteady hgroup _
    · cases found with
      | some pageList =>
        obtain ⟨hpages, hrest⟩ := h
        dsimp only at hrest ⊢
        have hround := (hgroup.append
          (steady_insertRowDataWithGroupLocks (groupHasSpace sizes s.locked) hpages)).append
          ((steady_releasePageListLocks pageList).mono (show 1 ≤ 8 by decide))
        split
        · exact .ofSteady hround _
        · rename_i hspace
          exact .cons hround (ih (hrest (Bool.eq_false_iff.mpr hspace)))
      | none =>
        obtain ⟨⟨hextends, huntried, hitem, hlast⟩, hrest⟩ := h
        dsimp only at hrest ⊢
        have hext := steady_extensionTblLocks colNum huntried hlast
        have hsome := (extensionTblLocks_ne_none colNum .main s.ext).mpr hextends
        generalize hpair : extensionTblLocks colNum .main s.ext = result at hext hsome
        obtain ⟨page, locks₂⟩ := result
        cases page with
        | none => exact absurd rfl hsome
        | some page =>
          rw [lookup_pageNum (lookup_page_ne hpair)] at hlast
          have hinsert := steady_insertGroupItemLocks colNum hitem hlast
          dsimp only at hext ⊢
          generalize insertGroupItemLocks page colNum s.item = result at hinsert
          obtain ⟨returned, locks₃⟩ := result
          have hboth :=
            (hext.weaken fun t (ht : JustExtending t) => ht.extending).append hinsert
          have hok : ∀ t : List (Entry LockId), Free t →
              (.extension ∈ locks t ∨ lockAllowed r (locks t) .extension) ∧
              ∃ t', acquireEntry .extension .write t = some t' ∧ JustExtending t' := by
            intro t ht
            obtain rfl : t = [] := ht
            exact ⟨.inr (.inl (by simp [locks])), _, rfl, by
              simp [WriteOnly, InMode, writeMode], rfl⟩
          cases returned with
          | false =>
            -- The server crashes with the extension lock held.
            refine .cons hgroup fun s' hs' => ?_
            obtain ⟨hallowed, t', ht', hext'⟩ := hok s'.table hs'
            have hstep : step maxLocalLockNum s' (.acquire .extension .write) =
                { s' with table := t' } := by
              have hroom : ¬ maxLocalLockNum ≤ s'.table.length := by
                simp [hs', maxLocalLockNum]
              simp only [step, if_neg hroom, ht']
            obtain ⟨hord, -⟩ := hboth { s' with table := t' } hext'
              (by
                have := congrArg List.length hext'.2
                simp only [locks, List.length_map, List.length_singleton] at this
                dsimp only
                rw [this]
                decide)
            refine ⟨⟨fun l m heq hlacks => ?_, ?_⟩, fun hfalse => by cases hfalse⟩
            · cases heq
              exact hallowed.resolve_left hlacks.2
            · rw [hstep]
              exact hord
          | true =>
            have hlock := (Steady.lock hboth hok).mono (show 3 ≤ 8 by decide)
            have hrelease :=
              (steady_free (steady_releasePageLocks (r := r) page.mainId le_rfl)).mono
                (show 1 ≤ 8 by decide)
            exact .cons ((hgroup.append hlock).append hrelease) (ih hrest)

/-! ## Scans -/

/-- A version that is looked for is found. -/
def ScanLockStep.Finds : ScanLockStep → Prop
  | .version look valid => look.page ≠ none → valid = true
  | _ => True

theorem steady_lookAt (p : PageId) :
    Steady maxLocalLockNum (lockAllowed r) Free 8 (briefly (.page p) .read) :=
  steady_free (steady_briefly .read le_rfl)

theorem steady_scanLockStep {step : ScanLockStep} (h : step.Finds) :
    Steady maxLocalLockNum (lockAllowed r) Free 8 step.locks := by
  cases step with
  | group search s => exact (steady_getGroupInfoLocks search s).mono (by decide)
  | member look => exact (steady_lookup .main look).mono (by decide)
  | release p => exact (steady_free (steady_releasePageLocks p le_rfl)).mono (by decide)
  | item page => exact steady_lookAt page.mainId
  | version look valid =>
    have hlookup := (steady_lookup (r := r) .main look).mono (show 2 ≤ 8 by decide)
    simp only [ScanLockStep.locks]
    simp only [ScanLockStep.Finds] at h
    cases hpage : look.page with
    | none => exact hlookup.append .nil
    | some page =>
      obtain rfl := h (by simp [hpage])
      exact hlookup.append (steady_lookAt page.mainId)
  | column look =>
    have hlookup := (steady_lookup (r := r) .main look).mono (show 2 ≤ 8 by decide)
    simp only [ScanLockStep.locks]
    cases look.page with
    | none => exact hlookup.append .nil
    | some page =>
      exact hlookup.append ((steady_lookAt page.mainId).append
        ((steady_free (steady_releasePageLocks (r := r) page.mainId le_rfl)).mono
          (by decide)))

theorem steady_scan {steps : List ScanLockStep} (h : ∀ step ∈ steps, step.Finds) :
    Steady maxLocalLockNum (lockAllowed r) Free 8 (steps.map ScanLockStep.locks).flatten := by
  induction steps with
  | nil => exact .nil
  | cons step steps ih =>
    obtain ⟨hstep, hrest⟩ := List.forall_mem_cons.mp h
    exact (steady_scanLockStep hstep).append (ih hrest)

/-! ## Operations -/

/-- An operation that takes its locks in order and leaves none. -/
def RowOperation.InOrder (r : PageRoles) : RowOperation → Prop
  | .insert colNum pageListNum sizes search rounds =>
      pageListNum < sizes.length ∨ InsertInOrder r colNum sizes search rounds
  | .update curr cols => UpdateInOrder r curr cols
  | .delete _ _ => True
  | .scan steps => ∀ step ∈ steps, step.Finds

theorem RowOperation.takesInOrder {op : RowOperation} (h : op.InOrder r) :
    TakesInOrder r op.locks.1 op.locks.2 := by
  cases op with
  | insert colNum pageListNum sizes search rounds =>
    simp only [RowOperation.locks, paxExecInsertLocks]
    split
    · exact .ofSteady .nil _
    · rename_i hroom
      exact insert_inOrder (h.resolve_left hroom)
  | update curr cols => exact .ofSteady (steady_paxExecUpdateLocks h) _
  | delete curr cols => exact .ofSteady (steady_paxExecDeleteLocks curr cols) _
  | scan steps => exact .ofSteady (steady_scan h) _

/-! ## Runs -/

variable {n : Nat} {sys sys' : LockingSys n} {w w' : Fin n}

/-- A worker that gives a lock back before it asks for another one. -/
def Leaving (no : Nat) (k : LockingWorker) : Prop :=
  (∃ m, k.held.table = [⟨.page (.main, no), m, 1, Nat.one_pos⟩]) ∧
    ((∃ rest, k.todo = .release (.page (.main, no)) :: rest) ∨
      (∃ a rest, k.todo = .unpin a :: .release (.page (.main, no)) :: rest) ∨
      ∃ a b rest, k.todo = .pin a :: .unpin b :: .release (.page (.main, no)) :: rest)

/-- What holds of every worker: its rest is in order, and the pages it has locked are known to
it, or taken by `AllocBuffer` for a moment. -/
structure WorkerOk (r : PageRoles) (recorded : List Nat) (k : LockingWorker) : Prop where
  ordered : Ordered maxLocalLockNum (lockAllowed r) k.held k.todo
  free : k.returns = true → (run maxLocalLockNum k.held k.todo).table = []
  known : ∀ no, .page (.main, no) ∈ locks k.held.table →
    no = pageHeadPageNum ∨ no ∈ recorded ∨ no ∈ k.making ∨ Leaving no k

/-- The invariant of a run. -/
structure LockingInv (r : PageRoles) (sys : LockingSys n) : Prop where
  worker : ∀ w, WorkerOk r sys.recorded (sys.workers w)
  fresh : ∀ w, ∀ no ∈ (sys.workers w).making, no ∉ sys.recorded
  apart : ∀ w w', w ≠ w' → ∀ no ∈ (sys.workers w).making, no ∉ (sys.workers w').making

theorem lockingInv_init (recorded : List Nat) : LockingInv r (lockingInit n recorded) where
  worker _ := ⟨trivial, fun _ => rfl, by simp [lockingInit, locks]⟩
  fresh := by simp [lockingInit]
  apart := by simp [lockingInit]

theorem setLocking_self (sys : LockingSys n) (w : Fin n) (k : LockingWorker) :
    (sys.setWorker w k).workers w = k := Function.update_self ..

theorem setLocking_of_ne (sys : LockingSys n) {w w' : Fin n}
    (k : LockingWorker) (h : w' ≠ w) :
    (sys.setWorker w k).workers w' = sys.workers w' := Function.update_of_ne h ..

/-- Every worker after one was changed. -/
theorem forall_setLocking {p : Fin n → LockingWorker → Prop} {k : LockingWorker} (hk : p w k)
    (h : ∀ w', p w' (sys.workers w')) (w' : Fin n) :
    p w' ((sys.setWorker w k).workers w') := by
  by_cases heq : w' = w
  · subst heq
    rw [setLocking_self]
    exact hk
  · rw [setLocking_of_ne _ _ heq]
    exact h w'

theorem locks_release_subset {s : Held LockId PageId} {l l' : LockId}
    (h : l' ∈ locks (step maxLocalLockNum s (.release l)).table) : l' ∈ locks s.table := by
  simp only [step] at h
  split at h
  · rename_i t ht
    -- What is left was there.
    have hpos : 0 < heldCount l' t := heldCount_pos.mpr h
    by_cases hheld : 0 < heldCount l s.table
    · obtain ⟨t', ht', hcount⟩ := releaseEntry_of_held hheld
      obtain rfl : t' = t := Option.some.inj (ht'.symm.trans ht)
      exact heldCount_pos.mp (by have := hcount l'; omega)
    · rw [releaseEntry_of_not_mem fun hmem => hheld (heldCount_pos.mpr hmem)] at ht
      cases ht
  · exact h

/-- A worker that is about to give its lock back does not ask for one. -/
theorem Leaving.not_acquire {no : Nat} {k : LockingWorker} (h : Leaving no k)
    {l : LockId} {m : Mode} {rest : LockTrace} : k.todo ≠ .acquire l m :: rest := by
  obtain ⟨-, ⟨_, h⟩ | ⟨_, _, h⟩ | ⟨_, _, _, h⟩⟩ := h <;> simp [h]

/-- The locks after an acquire of a lock that is there, or in a full table. -/
theorem locks_acquire_of_not_lacks {s : Held LockId PageId} {l : LockId} (m : Mode)
    (h : ¬ Lacks maxLocalLockNum s.table l) :
    locks (step maxLocalLockNum s (.acquire l m)).table = locks s.table := by
  simp only [step]
  split
  · rfl
  · rename_i hroom
    have hl : l ∈ locks s.table := by
      by_contra hl
      exact h ⟨Nat.not_le.mp hroom, hl⟩
    split
    · rename_i t ht
      rw [locks, keys_acquireEntry ht]
      exact if_pos hl
    · rfl

/-- The table after an acquire of a lock that is not there. -/
theorem locks_acquire_of_lacks {s : Held LockId PageId} {l : LockId} (m : Mode)
    (h : Lacks maxLocalLockNum s.table l) :
    locks (step maxLocalLockNum s (.acquire l m)).table = locks s.table ++ [l] := by
  obtain ⟨t, ht⟩ := acquireEntry_of_not_mem m h.2
  simp only [step, if_neg (Nat.not_le.mpr h.1), ht]
  rw [locks, keys_acquireEntry ht]
  exact if_neg h.2

/-- The actions that change no lock. -/
theorem table_step_pins {s : Held LockId PageId} {a : Action LockId PageId}
    (hacquire : ∀ l m, a ≠ .acquire l m) (hrelease : ∀ l, a ≠ .release l) :
    (step maxLocalLockNum s a).table = s.table := by
  cases a with
  | acquire l m => exact absurd rfl (hacquire l m)
  | release l => exact absurd rfl (hrelease l)
  | pin p => rfl
  | unpin p =>
    simp only [step]
    split <;> rfl

/-- One action of a worker. -/
theorem WorkerOk.act {recorded : List Nat} {k : LockingWorker} {a : Action LockId PageId}
    {rest : LockTrace} (h : WorkerOk r recorded k) (htodo : k.todo = a :: rest)
    (hasks : ∀ no m, a = .acquire (.page (.main, no)) m →
      Lacks maxLocalLockNum k.held.table (.page (.main, no)) →
      no = pageHeadPageNum ∨ no ∈ recorded ∨ no ∈ k.making ∨
        k.held.table = [] ∧ takenBriefly (.page (.main, no)) rest = true) :
    WorkerOk r recorded { k with held := step maxLocalLockNum k.held a, todo := rest } := by
  obtain ⟨hordered, hfree, hknown⟩ := h
  rw [htodo] at hordered hfree
  refine ⟨hordered.2, hfree, fun no hmem => ?_⟩
  dsimp only at hmem ⊢
  -- A lock that was there is known as before, unless its worker was leaving.
  have hold : .page (.main, no) ∈ locks k.held.table →
      (Leaving no k → no = pageHeadPageNum ∨ no ∈ recorded ∨ no ∈ k.making ∨
        Leaving no { k with held := step maxLocalLockNum k.held a, todo := rest }) →
      no = pageHeadPageNum ∨ no ∈ recorded ∨ no ∈ k.making ∨
        Leaving no { k with held := step maxLocalLockNum k.held a, todo := rest } := by
    intro hmem hleave
    rcases hknown no hmem with hhead | hrec | hmaking | hleaving
    · exact .inl hhead
    · exact .inr (.inl hrec)
    · exact .inr (.inr (.inl hmaking))
    · exact hleave hleaving
  cases a with
  | acquire l m =>
    by_cases hlacks : Lacks maxLocalLockNum k.held.table l
    · rw [locks_acquire_of_lacks m hlacks, List.mem_append, List.mem_singleton] at hmem
      rcases hmem with hmem | rfl
      · exact hold hmem fun hleaving => absurd htodo hleaving.not_acquire
      · rcases hasks no m rfl hlacks with hhead | hrec | hmaking | ⟨hempty, hbrief⟩
        · exact .inl hhead
        · exact .inr (.inl hrec)
        · exact .inr (.inr (.inl hmaking))
        · refine .inr (.inr (.inr ⟨⟨m, ?_⟩, ?_⟩))
          · simp [step, hempty, acquireEntry, maxLocalLockNum]
          · unfold takenBriefly at hbrief
            split at hbrief
            · exact .inl ⟨_, by rw [eq_of_beq hbrief]⟩
            · exact .inr (.inr ⟨_, _, _, by rw [eq_of_beq hbrief]⟩)
            · cases hbrief
    · rw [locks_acquire_of_not_lacks m hlacks] at hmem
      exact hold hmem fun hleaving => absurd htodo hleaving.not_acquire
  | release l =>
    refine hold (locks_release_subset hmem) fun hleaving => ?_
    obtain ⟨⟨m, htable⟩, ⟨rest', hleave⟩ | ⟨_, _, hleave⟩ | ⟨_, _, _, hleave⟩⟩ := hleaving
    · -- The lock is given back.
      rw [htodo] at hleave
      cases hleave
      simp [step, htable, releaseEntry, locks] at hmem
    · rw [htodo] at hleave
      cases hleave
    · rw [htodo] at hleave
      cases hleave
  | pin p =>
    refine hold hmem fun hleaving => .inr (.inr (.inr ?_))
    obtain ⟨htable, ⟨_, hleave⟩ | ⟨_, _, hleave⟩ | ⟨p', q, rest', hleave⟩⟩ := hleaving <;>
      rw [htodo] at hleave <;> cases hleave
    exact ⟨htable, .inr (.inl ⟨q, rest', rfl⟩)⟩
  | unpin p =>
    have hsame : (step maxLocalLockNum k.held (.unpin p)).table = k.held.table :=
      table_step_pins (by simp) (by simp)
    rw [hsame] at hmem
    refine hold hmem fun hleaving => .inr (.inr (.inr ?_))
    obtain ⟨htable, ⟨_, hleave⟩ | ⟨p', rest', hleave⟩ | ⟨_, _, _, hleave⟩⟩ := hleaving <;>
      rw [htodo] at hleave <;> cases hleave
    exact ⟨hsame ▸ htable, .inl ⟨rest', rfl⟩⟩

/-- What holds of a worker holds when more pages are recorded, or when it adds more of its
own. -/
theorem WorkerOk.grow {recorded recorded' : List Nat} {k : LockingWorker} {nos : List Nat}
    (h : WorkerOk r recorded k)
    (hgrow : ∀ no, no ∈ recorded ∨ no ∈ k.making → no ∈ recorded' ∨ no ∈ nos) :
    WorkerOk r recorded' { k with making := nos } where
  ordered := h.ordered
  free := h.free
  known no hmem := by
    rcases h.known no hmem with hhead | hrec | hmaking | hleaving
    · exact .inl hhead
    · exact .inr ((hgrow no (.inl hrec)).imp_right .inl)
    · exact .inr ((hgrow no (.inr hmaking)).imp_right .inl)
    · exact .inr (.inr (.inr hleaving))

/-- What an acquire of a page that the worker gets to says about the page. -/
theorem LockingSys.asks_page {no : Nat} {rest : LockTrace}
    (h : sys.asks w (.page (.main, no)) rest = true) :
    no = pageHeadPageNum ∨ no ∈ (sys.workers w).making ∨
      no ∈ sys.recorded ∧ .extension ∉ locks (sys.workers w).held.table ∨
      (sys.workers w).held.table = [] ∧ takenBriefly (.page (.main, no)) rest = true := by
  simp only [LockingSys.asks, LockingSys.knows, Bool.or_eq_true, beq_iff_eq,
    List.contains_iff_mem,
    Bool.and_eq_true, Bool.not_eq_true', List.isEmpty_iff] at h
  rcases h with ((hhead | hmaking) | ⟨hrec, hext⟩) | ⟨hempty, hbrief⟩
  · exact .inl hhead
  · exact .inr (.inl hmaking)
  · exact .inr (.inr (.inl ⟨hrec, by simpa using hext⟩))
  · exact .inr (.inr (.inr ⟨List.map_eq_nil_iff.mp hempty, hbrief⟩))

/-- A step changes no page of another worker. -/
theorem LockingInv.setHeld (h : LockingInv r sys) {k : LockingWorker}
    (hk : WorkerOk r sys.recorded k) (hmaking : k.making = (sys.workers w).making) :
    LockingInv r (sys.setWorker w k) where
  worker := forall_setLocking (p := fun _ => WorkerOk r sys.recorded) hk h.worker
  fresh := forall_setLocking (p := fun _ k => ∀ no ∈ k.making, no ∉ sys.recorded)
    (hmaking ▸ h.fresh w) h.fresh
  apart w₁ w₂ hne := by
    have hsame : ∀ w', ((sys.setWorker w k).workers w').making = (sys.workers w').making :=
      forall_setLocking (p := fun w' k => k.making = (sys.workers w').making) hmaking fun _ =>
        rfl
    rw [hsame, hsame]
    exact h.apart w₁ w₂ hne

/-- An operation that is started takes its locks in order. -/
def StartsInOrder (r : PageRoles) (_ : LockingSys n) (a : Fin n × LockingCall) : Prop :=
  ∀ op, a.2 = .start op → op.InOrder r

/-- One step keeps the invariant. -/
theorem LockingInv.step {a : Fin n × LockingCall} (h : LockingInv r sys)
    (hop : StartsInOrder r sys a)
    (hstep : lockingStep sys a = some sys') : LockingInv r sys' := by
  obtain ⟨w, call⟩ := a
  have hw := h.worker w
  unfold lockingStep at hstep
  dsimp only at hstep
  cases call with
  | start op =>
    simp only [Option.ite_none_right_eq_some, Option.some.injEq] at hstep
    obtain ⟨⟨htodo, hreturns⟩, rfl⟩ := hstep
    -- The operation before left no lock.
    have hempty : (sys.workers w).held.table = [] := by
      have := hw.free hreturns
      rwa [htodo] at this
    obtain ⟨hordered, hfree⟩ :=
      RowOperation.takesInOrder (hop op rfl) (sys.workers w).held hempty
    exact h.setHeld ⟨hordered, hfree, fun no hmem => by simp [hempty, locks] at hmem⟩ rfl
  | act =>
    cases htodo : (sys.workers w).todo with
    | nil =>
      rw [htodo] at hstep
      cases hstep
    | cons act rest =>
      rw [htodo] at hstep
      simp only [Option.ite_none_right_eq_some, Option.some.injEq] at hstep
      obtain ⟨hready, rfl⟩ := hstep
      refine h.setHeld (hw.act htodo fun no m heq hlacks => ?_) rfl
      subst heq
      simp only [LockingSys.ready, if_pos hlacks, Bool.and_eq_true] at hready
      rcases LockingSys.asks_page hready.1 with hhead | hmaking | ⟨hrec, -⟩ | hbrief
      · exact .inl hhead
      · exact .inr (.inr (.inl hmaking))
      · exact .inr (.inl hrec)
      · exact .inr (.inr (.inr hbrief))
  | addPages nos =>
    simp only [Option.ite_none_right_eq_some, Option.some.injEq] at hstep
    obtain ⟨⟨hnone, hnew⟩, rfl⟩ := hstep
    refine ⟨?_, ?_, fun w₁ w₂ hne no hno hno' => ?_⟩
    · exact forall_setLocking (p := fun _ => WorkerOk r sys.recorded)
        (hw.grow fun no hno => .inl (by simpa [hnone] using hno)) h.worker
    · exact forall_setLocking (p := fun _ k => ∀ no ∈ k.making, no ∉ sys.recorded)
        (fun no hno => (hnew no hno).2.1) h.fresh
    · by_cases h₁ : w₁ = w
      · subst h₁
        rw [setLocking_self] at hno
        rw [setLocking_of_ne _ _ (Ne.symm hne)] at hno'
        exact (hnew no hno).2.2 w₂ hno'
      · rw [setLocking_of_ne _ _ h₁] at hno
        by_cases h₂ : w₂ = w
        · subst h₂
          rw [setLocking_self] at hno'
          exact (hnew no hno').2.2 w₁ hno
        · rw [setLocking_of_ne _ _ h₂] at hno'
          exact h.apart w₁ w₂ hne no hno hno'
  | recordPages =>
    simp only [Option.some.injEq] at hstep
    subst hstep
    refine ⟨fun w' => ?_, fun w' no hno => ?_, fun w₁ w₂ hne no hno hno' => ?_⟩
    · refine forall_setLocking (p := fun _ =>
        WorkerOk r ((sys.workers w).making ++ sys.recorded))
        (hw.grow fun no hno => ?_) (fun w' => (h.worker w').grow fun no hno => ?_) w'
      · exact .inl (List.mem_append.mpr hno.symm)
      · exact hno.imp_left (List.mem_append_right _)
    · by_cases heq : w' = w
      · subst heq
        simp [setLocking_self] at hno
      · replace hno : no ∈ ((sys.setWorker w _).workers w').making := hno
        rw [setLocking_of_ne _ _ heq] at hno
        exact List.mem_append.not.mpr
          (not_or.mpr ⟨h.apart w' w heq no hno, h.fresh w' no hno⟩)
    · by_cases h₁ : w₁ = w
      · subst h₁
        simp [setLocking_self] at hno
      · by_cases h₂ : w₂ = w
        · subst h₂
          simp [setLocking_self] at hno'
        · replace hno : no ∈ ((sys.setWorker w _).workers w₁).making := hno
          replace hno' : no ∈ ((sys.setWorker w _).workers w₂).making := hno'
          rw [setLocking_of_ne _ _ h₁] at hno
          rw [setLocking_of_ne _ _ h₂] at hno'
          exact h.apart w₁ w₂ hne no hno hno'

/-! ## No cycle -/

/-- A lock that excludes another worker is in the table. -/
theorem mem_of_excludes {l : LockId} {m : Mode}
    (h : excludes t l m = true) : l ∈ locks t := by
  simp only [excludes, List.any_eq_true, Bool.and_eq_true, beq_iff_eq] at h
  obtain ⟨e, he, hl, -⟩ := h
  exact List.mem_map.mpr ⟨e, he, hl⟩

/-- The worker is at an acquire of `l` and does not have it. -/
def LockingSys.waits (s : LockingSys n) (w : Fin n) (l : LockId) : Prop :=
  ∃ m rest, (s.workers w).todo = .acquire l m :: rest ∧
    Lacks maxLocalLockNum (s.workers w).held.table l ∧ s.asks w l rest

theorem LockingSys.waits_unique {l l' : LockId} (h : sys.waits w l)
    (h' : sys.waits w l') : l = l' := by
  obtain ⟨m, rest, htodo, -⟩ := h
  obtain ⟨m', rest', htodo', -⟩ := h'
  rw [htodo] at htodo'
  cases htodo'
  rfl

/-- A lock that is waited for comes after all the worker has, or is a page it adds: nobody who
has that page waits. -/
theorem LockingInv.waits_inOrder (h : LockingInv r sys) {l : LockId}
    (hwaits : sys.waits w l) :
    (∀ l' ∈ locks (sys.workers w).held.table, lockRank r l' < lockRank r l) ∨
      ∀ w', l ∈ locks (sys.workers w').held.table → ∀ l', ¬ sys.waits w' l' := by
  obtain ⟨m, rest, htodo, hlacks, hasks⟩ := hwaits
  have hordered := (h.worker w).ordered
  rw [htodo] at hordered
  rcases hordered.1 l m rfl hlacks with hrank | ⟨hext, no, rfl, hrole⟩
  · exact .inl hrank
  · right
    rintro w' hmem l' ⟨m', rest', htodo', -⟩
    have hhead : no ≠ pageHeadPageNum := fun heq => hrole (heq ▸ r.head)
    -- The page is one the worker adds.
    have hmaking : no ∈ (sys.workers w).making := by
      rcases LockingSys.asks_page hasks with hno | hmaking | ⟨-, hnot⟩ | ⟨hempty, -⟩
      · exact absurd hno hhead
      · exact hmaking
      · exact absurd hext hnot
      · simp [hempty, locks] at hext
    have hne : w' ≠ w := by
      rintro rfl
      exact hlacks.2 hmem
    rcases (h.worker w').known no hmem with hno | hrec | hmaking' | hleaving
    · exact hhead hno
    · exact h.fresh w no hmaking hrec
    · exact h.apart w w' hne.symm no hmaking hmaking'
    · exact hleaving.not_acquire htodo'

/-- With the invariant no workers wait for each other in a cycle. -/
theorem LockingInv.not_deadlocked (h : LockingInv r sys) : ¬ sys.Deadlocked := by
  rintro ⟨w, hcycle⟩
  have hchain : Relation.TransGen
      (WaitsOn sys.waits fun w l => l ∈ locks (sys.workers w).held.table) w w := by
    refine hcycle.lift id fun w w' hblocked => ?_
    obtain ⟨l, m, rest, htodo, hlacks, hasks, hexcludes⟩ := hblocked
    exact ⟨l, ⟨m, rest, htodo, hlacks, hasks⟩, mem_of_excludes hexcludes⟩
  have hunique : ∀ w l l', sys.waits w l → sys.waits w l' → l = l' :=
    fun _ _ _ => LockingSys.waits_unique
  exact no_waitCycle (lockRank r) hunique (fun _ _ => h.waits_inOrder) w hchain

/-- Workers whose operations all take their locks in order are never deadlocked, in any
interleaving. -/
theorem rows_not_deadlocked (r : PageRoles) (n : Nat) (recorded : List Nat)
    (as : List (Fin n × LockingCall)) (sys : LockingSys n)
    (hops : Transition.Along lockingStep (StartsInOrder r) (lockingInit n recorded) as)
    (hrun : Transition.run lockingStep (lockingInit n recorded) as = some sys) :
    ¬ sys.Deadlocked :=
  (Transition.run_invariant (I := LockingInv r) (fun h hop hstep => h.step hop hstep)
    (lockingInv_init recorded) hops hrun).not_deadlocked

/-- The pages of a small table: page 1 is the head page, the pages 3 and 4 are undo pages and
the others have data. -/
def smallTable : PageRoles where
  role no := if no = 1 then .header else if no = 3 ∨ no = 4 then .undo else .data
  head := rfl

/-- The update of a value of page 2, with its undo page, by one of the given size. -/
def updateOnPage (size : Nat) : RowOperation :=
  .update 4
    [(updateOf 2 size,
      { origin := .found { initPage 2 with undoPage := 3 } .inPool
        undo := ⟨{ initPage 2 with undoPage := 3 },
          .found { initPage 3 with pageType := .undo } .inPool,
          ⟨.inPool, .found { initPage 4 with pageType := .undo } .inPool⟩⟩
        data := ⟨initPage 2, .missing 4 [] true, ⟨.inPool, .missing 4 [] true⟩⟩ })]

theorem updateOnPage_inOrder : (updateOnPage 60).InOrder smallTable := by
  refine ⟨fun origin horigin => ?_, fun _ => trivial⟩
  cases horigin
  exact ⟨rfl, ⟨rfl, fun _ => rfl, fun _ => rfl⟩,
    ⟨rfl, ⟨rfl, rfl⟩, fun _ => by simp [Lookup.page]⟩,
    fun _ => .inr (.inl le_rfl)⟩

/-- The two columns of a row are deleted. -/
def deletePair : RowOperation :=
  .delete 4 [((updateOf 2 60).old, .found (initPage 2) .inPool),
    ((updateOf 5 60).old, .found (initPage 5) .inPool)]

/-- The first worker locks page 2 and its undo page to update a value. When it has unlocked
them, the second one locks page 2 to delete, and the first one waits for it to give the page
back. -/
def updateAndDelete : List (Fin 2 × LockingCall) :=
  (0, .start (updateOnPage 60)) :: List.replicate 18 (0, .act) ++
    (1, .start deletePair) :: List.replicate 13 (0, .act) ++ List.replicate 4 (1, .act)

theorem updateAndDelete_not_deadlocked :
    ∃ sys, Transition.run lockingStep (lockingInit 2 [2, 3, 5]) updateAndDelete = some sys ∧
      sys.blockedBy 0 1 ∧ ¬ sys.Deadlocked := by
  have hrun : Transition.run lockingStep (lockingInit 2 [2, 3, 5]) updateAndDelete =
      some (Transition.exec lockingStep _ _) := Transition.run_exec (by decide)
  refine ⟨_, hrun, ⟨.page (.main, 2), .write, _, rfl, by decide, by decide, by decide⟩,
    rows_not_deadlocked smallTable 2 [2, 3, 5] updateAndDelete _ ?_ hrun⟩
  refine (Transition.along_iff_forall_mem
    (p := fun a => StartsInOrder smallTable (lockingInit 2 []) a) hrun).mpr ?_
  intro a ha op hstart
  simp only [updateAndDelete, List.mem_append, List.mem_cons, List.mem_replicate] at ha
  rcases ha with ((rfl | ⟨-, rfl⟩) | rfl | ⟨-, rfl⟩) | ⟨-, rfl⟩ <;> cases hstart
  · exact updateOnPage_inOrder
  · exact trivial

/-- A value of page 2 is replaced by a larger one on the same page. -/
def growOnPage : RowOperation := updateOnPage 80

/-- Two updates: the first has unlocked page 2 and gets to the `ReleasePage` of it, the second
has locked it to look for its undo page. -/
def growTwice : List (Fin 2 × LockingCall) :=
  (0, .start growOnPage) :: List.replicate 32 (0, .act) ++
    (1, .start growOnPage) :: List.replicate 7 (1, .act)

/-- The state after `growTwice`. -/
def grownTwice : LockingSys 2 :=
  Transition.exec lockingStep (lockingInit 2 [1, 2, 3]) growTwice

/-- The first waits for page 2, and the second for page 3. -/
theorem updates_deadlocked :
    ¬ ∀ (n : Nat) (recorded : List Nat)
      (as : List (Fin n × LockingCall)) (sys : LockingSys n),
      Transition.run lockingStep (lockingInit n recorded) as = some sys →
        ¬ sys.Deadlocked := by
  intro h
  have hrun : Transition.run lockingStep (lockingInit 2 [1, 2, 3]) growTwice =
      some grownTwice :=
    Transition.run_exec (by decide)
  have hfirst : grownTwice.blockedBy 0 1 :=
    ⟨.page (.main, 2), .write, _, rfl, by decide, by decide, by decide⟩
  have hsecond : grownTwice.blockedBy 1 0 :=
    ⟨.page (.main, 3), .write, _, rfl, by decide, by decide, by decide⟩
  exact h 2 [1, 2, 3] growTwice grownTwice hrun ⟨0, .head hfirst (.single hsecond)⟩

end Toadb
