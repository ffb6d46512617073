/-
Toadb.Storage.PageOrderTheorems — the order in which the page functions take locks.

The order is nowhere written down in the source; `lockRank` is it: the data pages of a group
by their numbers, an undo page, an extension page, the extension lock, the head page, the
pages of the group file, and the locks inside `TableRead` and `TableWrite`. Each page of the
main file has one use (`PageRoles`). A page that is being added is locked under the extension
lock, and nobody else knows it.

`GetSpaceSpecifyPage` keeps to the order when the buffers of the pages it reads are free
(`Fetch.tried`): while the start page is locked, `AllocBuffer` must not wait for the
buffer of another page.
-/
import Toadb.Lib.LockOrder
import Toadb.Storage.PageLocksTheorems
import Mathlib.Data.Prod.Lex

namespace Toadb

open HeldLocks

/-! ## The order -/

/-- What the pages of the main file are used for. -/
structure PageRoles where
  role : Nat → PageType
  head : role pageHeadPageNum = .header

/-- The place of a lock in the order. -/
def lockRank (r : PageRoles) : LockId → ℕ ×ₗ ℕ
  | .page (.main, no) =>
      match r.role no with
      | .data => toLex (0, no)
      | .undo => toLex (1, 0)
      | .extData => toLex (2, 0)
      | .header => toLex (4, 0)
  | .extension => toLex (3, 0)
  | .page (.group, _) => toLex (5, 0)
  | .smgr => toLex (6, 0)
  | .file _ => toLex (7, 0)

/-- A page that is being added: it is locked under the extension lock. -/
def addedPage (r : PageRoles) (held : List LockId) (l : LockId) : Prop :=
  .extension ∈ held ∧ ∃ no, l = .page (.main, no) ∧ r.role no ≠ .header

/-- A lock that a worker with the locks `held` can ask for. -/
def lockAllowed (r : PageRoles) (held : List LockId) (l : LockId) : Prop :=
  (∀ l' ∈ held, lockRank r l' < lockRank r l) ∨ addedPage r held l

variable {r : PageRoles} {x y : ℕ ×ₗ ℕ} {k : Nat} {tr : LockTrace} {no : Nat}
  {pageType : PageType}
  {t : List (Entry LockId)} {l : LockId}

theorem lockRank_header (h : r.role no = .header) :
    lockRank r (.page (.main, no)) = toLex (4, 0) := by
  simp [lockRank, h]

theorem lockRank_undo (h : r.role no = .undo) :
    lockRank r (.page (.main, no)) = toLex (1, 0) := by
  simp [lockRank, h]

theorem lockRank_extData (h : r.role no = .extData) :
    lockRank r (.page (.main, no)) = toLex (2, 0) := by
  simp [lockRank, h]

theorem lockRank_data (h : r.role no = .data) :
    lockRank r (.page (.main, no)) = toLex (0, no) := by
  simp [lockRank, h]

/-- Every page is before the locks of `TableRead` and `TableWrite`. -/
theorem lockRank_page_lt (p : PageId) : lockRank r (.page p) < toLex (6, 0) := by
  obtain ⟨fork, no⟩ := p
  cases fork with
  | group => simp [lockRank, Prod.Lex.toLex_lt_toLex]
  | main =>
    simp only [lockRank]
    split <;> simp [Prod.Lex.toLex_lt_toLex]

/-- The pages before the head page. -/
theorem lockRank_lt_head (h : r.role no ≠ .header) :
    lockRank r (.page (.main, no)) < toLex (4, 0) := by
  simp only [lockRank]
  split <;> simp_all [Prod.Lex.toLex_lt_toLex]

/-! ## Tables -/

/-- The locks of the table are before `x`. -/
def Below (r : PageRoles) (x : ℕ ×ₗ ℕ) (t : List (Entry LockId)) : Prop :=
  WriteOnly t ∧ ∀ l ∈ locks t, lockRank r l < x

/-- The table is empty. -/
def Free (t : List (Entry LockId)) : Prop := t = []

theorem Below.mono (h : Below r x t) (hxy : x ≤ y) : Below r y t :=
  ⟨h.1, fun l hl => lt_of_lt_of_le (h.2 l hl) hxy⟩

theorem Free.below (h : Free t) : Below r x t := by
  subst h
  exact ⟨writeOnly_nil, by simp [locks]⟩

theorem mem_locks_acquireEntry {m : Mode} {t' : List (Entry LockId)}
    (h : acquireEntry l m t = some t') {l' : LockId} :
    l' ∈ locks t' ↔ l' ∈ locks t ∨ l' = l := by
  rw [locks, keys_acquireEntry h, ← locks]
  split
  · rename_i hl
    exact ⟨.inl, fun h => h.elim id fun heq => heq ▸ hl⟩
  · simp

/-- A lock after all that are held. -/
theorem Below.acquire (h : Below r x t) (hx : x ≤ lockRank r l) (hy : lockRank r l < y) :
    lockAllowed r (locks t) l ∧ ∃ t',
      acquireEntry l (writeMode l) t = some t' ∧ Below r y t' := by
  obtain ⟨t', ht', hmode⟩ := h.1.acquire l
  refine ⟨.inl fun l' hl' => lt_of_lt_of_le (h.2 l' hl') hx, t', ht', hmode, fun l' hl' => ?_⟩
  rcases (mem_locks_acquireEntry ht').mp hl' with hold | rfl
  · exact lt_trans (lt_of_lt_of_le (h.2 l' hold) hx) hy
  · exact hy

theorem steady_lock (h : Steady maxLocalLockNum (lockAllowed r) (Below r y) k tr)
    (hx : x ≤ lockRank r l) (hy : lockRank r l < y) :
    Steady maxLocalLockNum (lockAllowed r) (Below r x) (k + 1)
      (.acquire l (writeMode l) :: (tr ++ [.release l])) :=
  h.lock fun _ ht => ⟨.inr (ht.acquire hx hy).1, (ht.acquire hx hy).2⟩

/-- The first lock of a worker. -/
theorem steady_first {ok : List (Entry LockId) → Prop} {m : Mode}
    (h : Steady maxLocalLockNum (lockAllowed r) ok k tr) (hok : ok [⟨l, m, 1, Nat.one_pos⟩]) :
    Steady maxLocalLockNum (lockAllowed r) Free (k + 1)
      (.acquire l m :: (tr ++ [.release l])) := by
  refine h.lock fun t ht => ?_
  obtain rfl : t = [] := ht
  exact ⟨.inr (.inl (by simp [locks])), _, rfl, hok⟩

/-! ## Reading and writing pages -/

/-- A lock after all that are held is taken and given back. -/
theorem steady_briefly (m : Mode) (hx : x ≤ lockRank r l) :
    Steady maxLocalLockNum (lockAllowed r) (Below r x) k (briefly l m) := by
  refine Steady.brief m fun t ht => ?_
  have hlt : ∀ l' ∈ locks t, lockRank r l' < lockRank r l :=
    fun l' hl' => lt_of_lt_of_le (ht.2 l' hl') hx
  exact ⟨fun hmem => lt_irrefl _ (hlt _ hmem), .inl hlt⟩

theorem steady_tableWriteLocks (forkNum : ForkType) (hx : x ≤ toLex (6, 0)) :
    Steady maxLocalLockNum (lockAllowed r) (Below r x) k (tableWriteLocks forkNum) :=
  (steady_briefly (l := .smgr) .read hx).append
    (steady_briefly (l := .file forkNum) .write
      (hx.trans (le_of_lt (by simp [lockRank, Prod.Lex.toLex_lt_toLex]))))

theorem steady_tableReadLocks (forkNum : ForkType) (isOpen : Bool) (hx : x ≤ toLex (6, 0)) :
    Steady maxLocalLockNum (lockAllowed r) (Below r x) k (tableReadLocks forkNum isOpen) := by
  have hfile : x ≤ lockRank r (.file forkNum) :=
    hx.trans (le_of_lt (by simp [lockRank, Prod.Lex.toLex_lt_toLex]))
  refine ((steady_briefly (l := .smgr) .read hx).append ?_).append
    (steady_briefly .write hfile)
  cases isOpen with
  | true => exact .nil
  | false => exact steady_tableWriteLocks forkNum hx

/-- `AllocBuffer` waits for other buffers when nothing is locked. -/
theorem steady_triedLocks (tried : List TriedBuffer) :
    Steady maxLocalLockNum (lockAllowed r) Free 1 (triedLocks tried) := by
  induction tried with
  | nil => exact .nil
  | cons buffer rest ih =>
    obtain ⟨page, found⟩ := buffer
    have hpins : Steady maxLocalLockNum (lockAllowed r) (fun _ => True) 0
        (if found then [.pin page, .unpin page] else [] : LockTrace) := by
      cases found with
      | true => exact (steady_pin page).append (steady_unpin page)
      | false => exact .nil
    exact (steady_first hpins trivial).append ih

/-- A page of which the buffer is there, or free. -/
theorem steady_readBuffer (p : PageId) (source : PageSource) (hx : x ≤ lockRank r (.page p)) :
    Steady maxLocalLockNum (lockAllowed r) (Below r x) 2 (readPageLocks p ⟨[], source⟩) := by
  have hpin : Steady maxLocalLockNum (lockAllowed r) (Below r (toLex (6, 0))) 1 [.pin p] :=
    (steady_pin p).mono (Nat.zero_le 1)
  cases source with
  | inPool => exact steady_lock hpin hx (lockRank_page_lt p)
  | file isOpen =>
    exact steady_lock (hpin.append (steady_tableReadLocks p.1 isOpen le_rfl)) hx
      (lockRank_page_lt p)

theorem steady_readPageLocks (p : PageId) (fetch : Fetch) :
    Steady maxLocalLockNum (lockAllowed r) Free 2 (readPageLocks p fetch) := by
  obtain ⟨tried, source⟩ := fetch
  exact ((steady_triedLocks tried).mono (by decide)).append
    ((steady_readBuffer p source le_rfl).weaken fun _ ht => ht.below)

theorem steady_releasePageLocks (p : PageId) (hx : x ≤ lockRank r (.page p)) :
    Steady maxLocalLockNum (lockAllowed r) (Below r x) 1 (releasePageLocks p) :=
  steady_lock (steady_unpin p) hx (lockRank_page_lt p)

/-- The number of the page that is asked for. -/
def Lookup.pageNum : Lookup → Nat
  | .found page _ => page.pageNum
  | .missing no _ _ => no

/-- The buffers `AllocBuffer` waits for. -/
def Lookup.tried : Lookup → List TriedBuffer
  | .found _ fetch => fetch.tried
  | .missing _ tried _ => tried

theorem lookup_pageNum {look : Lookup} {page : PageDataHeader} (h : look.page = some page) :
    look.pageNum = page.pageNum := by
  cases look with
  | found page' fetch =>
    cases h
    rfl
  | missing => cases h

/-- The read of a page that is not there, from the lock of its buffer on. -/
theorem steady_missing (p : PageId) (isOpen : Bool) (hx : x ≤ lockRank r (.page p)) :
    Steady maxLocalLockNum (lockAllowed r) (Below r x) 2
      (.acquire (.page p) .write :: (.pin p :: tableReadLocks p.1 isOpen ++ [.unpin p] ++
        [.release (.page p)])) := by
  have hpin : Steady maxLocalLockNum (lockAllowed r) (Below r (toLex (6, 0))) 1 [.pin p] :=
    (steady_pin p).mono (Nat.zero_le 1)
  have hunpin : Steady maxLocalLockNum (lockAllowed r)
      (Below r (toLex (6, 0))) 1 [.unpin p] :=
    (steady_unpin p).mono (Nat.zero_le 1)
  exact steady_lock ((hpin.append (steady_tableReadLocks p.1 isOpen le_rfl)).append hunpin) hx
    (lockRank_page_lt p)

theorem steady_lookup (forkNum : ForkType) (look : Lookup) :
    Steady maxLocalLockNum (lockAllowed r) Free 2 (look.locks forkNum) := by
  cases look with
  | found page fetch => exact steady_readPageLocks (forkNum, page.pageNum) fetch
  | missing no tried isOpen =>
    simp only [Lookup.locks]
    split
    · exact .nil
    · exact ((steady_triedLocks tried).mono (by decide)).append
        ((steady_missing (forkNum, no) isOpen le_rfl).weaken fun _ ht => ht.below)

/-- A lookup under locks. -/
theorem steady_lookup_below (forkNum : ForkType) {look : Lookup} (htried : look.tried = [])
    (hx : x ≤ lockRank r (.page (forkNum, look.pageNum))) :
    Steady maxLocalLockNum (lockAllowed r) (Below r x) 2 (look.locks forkNum) := by
  cases look with
  | found page fetch =>
    obtain ⟨tried, source⟩ := fetch
    obtain rfl : tried = [] := htried
    exact steady_readBuffer _ source hx
  | missing no tried isOpen =>
    obtain rfl : tried = [] := htried
    simp only [Lookup.locks]
    split
    · exact .nil
    · exact steady_missing (forkNum, no) isOpen hx

/-! ## Extending -/

/-- The extension lock is held, with locks before the head page. -/
def Extending (r : PageRoles) (t : List (Entry LockId)) : Prop :=
  Below r (toLex (4, 0)) t ∧ .extension ∈ locks t

/-- A page that is being added. -/
theorem Extending.acquire_page (h : Extending r t) (hno : r.role no ≠ .header) :
    lockAllowed r (locks t) (.page (.main, no)) ∧
      ∃ t', acquireEntry (.page (.main, no)) .write t = some t' ∧ Extending r t' := by
  obtain ⟨t', ht', hmode⟩ := h.1.1.acquire (.page (.main, no))
  refine ⟨.inr ⟨h.2, no, rfl, hno⟩, t', ht', ⟨hmode, fun l hl => ?_⟩,
    (mem_locks_acquireEntry ht').mpr (.inl h.2)⟩
  rcases (mem_locks_acquireEntry ht').mp hl with hold | rfl
  · exact h.1.2 l hold
  · exact lockRank_lt_head hno

theorem steady_addedPage
    (h : Steady maxLocalLockNum (lockAllowed r) (Below r (toLex (6, 0))) k tr)
    (hno : r.role no ≠ .header) :
    Steady maxLocalLockNum (lockAllowed r) (Extending r) (k + 1)
      (.acquire (.page (.main, no)) .write :: (tr ++ [.release (.page (.main, no))])) :=
  h.lock fun _ ht =>
    have ⟨hallowed, t', ht', hext⟩ := ht.acquire_page hno
    ⟨.inr hallowed, t', ht', hext.1.mono (by simp [Prod.Lex.toLex_le_toLex])⟩

theorem steady_extending {ok : List (Entry LockId) → Prop}
    (h : Steady maxLocalLockNum (lockAllowed r) ok k tr)
    (hok : ∀ t, Below r (toLex (4, 0)) t → ok t) :
    Steady maxLocalLockNum (lockAllowed r) (Extending r) k tr :=
  h.weaken fun t ht => hok t ht.1

theorem steady_updateMetaDataLocks (forkNum : ForkType) {head : Fetch}
    (hhead : head.tried = []) (hx : x ≤ lockRank r (.page (forkNum, pageHeadPageNum))) :
    Steady maxLocalLockNum (lockAllowed r) (Below r x) 2
      (updateMetaDataLocks forkNum head) := by
  obtain ⟨tried, source⟩ := head
  obtain rfl : tried = [] := hhead
  refine ((steady_readBuffer _ source hx).append ?_).append
    ((steady_releasePageLocks _ hx).mono (by decide))
  exact steady_lock (steady_tableWriteLocks forkNum le_rfl) hx (lockRank_page_lt _)

theorem steady_replicate {ok : List (Entry LockId) → Prop}
    (h : Steady maxLocalLockNum (lockAllowed r) ok k tr) (num : Nat) :
    Steady maxLocalLockNum (lockAllowed r) ok k (List.replicate num tr).flatten := by
  induction num with
  | zero => exact .nil
  | succ num ih =>
    rw [List.replicate_succ, List.flatten_cons]
    exact h.append ih

/-- The buffers of an extension are there, or free. -/
def ExtensionSight.Untried (s : ExtensionSight) : Prop :=
  s.head.tried = [] ∧ s.last.tried = []

/-- The new pages of the main file. -/
theorem steady_extensionTblLocks (num : Nat) {s : ExtensionSight} (huntried : s.Untried)
    (hlast : r.role s.last.pageNum ≠ .header) :
    Steady maxLocalLockNum (lockAllowed r) (Extending r) 2
      (extensionTblLocks num .main s).2 := by
  unfold extensionTblLocks
  split
  · exact .nil
  · have hhead : toLex (4, 0) ≤ lockRank r (.page (.main, pageHeadPageNum)) :=
      le_of_eq (lockRank_header r.head).symm
    have hwrite : Steady maxLocalLockNum (lockAllowed r) (Below r (toLex (4, 0))) 2
        (tableWriteLocks .main) :=
          steady_tableWriteLocks .main (by simp [Prod.Lex.toLex_le_toLex])
    have hmeta := steady_updateMetaDataLocks .main huntried.1 hhead
    refine (steady_extending ((steady_replicate hwrite num).append hmeta) fun t ht =>
      ht).append ?_
    -- The last page is read while nobody else knows it.
    have htried := huntried.2
    generalize s.last = look at hlast htried
    have hpin (p : PageId) :
        Steady maxLocalLockNum (lockAllowed r) (Below r (toLex (6, 0))) 1 [.pin p] :=
      (steady_pin p).mono (Nat.zero_le 1)
    cases look with
    | found page fetch =>
      obtain ⟨tried, source⟩ := fetch
      obtain rfl : tried = [] := htried
      cases source with
      | inPool => exact steady_addedPage (hpin _) hlast
      | file isOpen =>
        exact steady_addedPage
          ((hpin _).append (steady_tableReadLocks .main isOpen le_rfl)) hlast
    | missing no tried isOpen =>
      obtain rfl : tried = [] := htried
      simp only [Lookup.locks]
      split
      · exact .nil
      · have hunpin : Steady maxLocalLockNum (lockAllowed r) (Below r (toLex (6, 0))) 1
            [.unpin ((.main, no) : PageId)] := (steady_unpin _).mono (Nat.zero_le 1)
        exact steady_addedPage
          (((hpin _).append (steady_tableReadLocks .main isOpen le_rfl)).append hunpin) hlast

/-- The new pages of the group file. -/
theorem steady_extensionTblLocks_group (num : Nat) {s : ExtensionSight} (huntried : s.Untried)
    (hx : x ≤ toLex (5, 0)) :
    Steady maxLocalLockNum (lockAllowed r) (Below r x) 2
      (extensionTblLocks num .group s).2 := by
  unfold extensionTblLocks
  split
  · exact .nil
  · have hwrite : Steady maxLocalLockNum (lockAllowed r) (Below r x) 2
        (tableWriteLocks .group) :=
      steady_tableWriteLocks .group (hx.trans (by simp [Prod.Lex.toLex_le_toLex]))
    exact ((steady_replicate hwrite num).append
      (steady_updateMetaDataLocks .group huntried.1 hx)).append
      (steady_lookup_below .group huntried.2 hx)

/-! ## `GetSpaceSpecifyPage` -/

/-- The place of the pages of a chain. -/
def chainRank (pageType : PageType) : ℕ ×ₗ ℕ :=
  match chainType pageType with
  | .undo => toLex (1, 0)
  | _ => toLex (2, 0)

theorem lockRank_chain (h : r.role no = chainType pageType) :
    lockRank r (.page (.main, no)) = chainRank pageType := by
  cases pageType <;> simp_all [chainRank, chainType, lockRank]

theorem chainRank_le (pageType : PageType) : chainRank pageType ≤ toLex (2, 0) := by
  cases pageType <;> simp [chainRank, chainType, Prod.Lex.toLex_le_toLex]

/-- The pages that are found have the use they are looked for. -/
structure SpaceSight.Follows (r : PageRoles) (s : SpaceSight) (size : Nat)
    (pageType : PageType) : Prop where
  first : r.role s.first.pageNum = .data
  chain : s.first.chain (chainType pageType) ≠ invalidPageNum →
    r.role s.chain.pageNum = chainType pageType
  added : s.Full size pageType → r.role s.ext.last.pageNum = chainType pageType

/-- The buffers of the pages that are read while the start page is locked are there, or free,
and the new page can be read. -/
structure SpaceSight.InOrder (s : SpaceSight) (size : Nat) (pageType : PageType) : Prop where
  chain : s.chain.tried = []
  ext : s.ext.Untried
  added : s.Full size pageType → s.ext.last.page ≠ none

/-- The start page is one of the locks that are held, if there are any. -/
def StartTable (r : PageRoles) (first : Nat) (x : ℕ ×ₗ ℕ) (t : List (Entry LockId)) : Prop :=
  Below r x t ∧ (t = [] ∨ .page (.main, first) ∈ locks t)

/-- The start page is held, with locks before `x`. -/
def Holding (r : PageRoles) (first : Nat) (x : ℕ ×ₗ ℕ) (t : List (Entry LockId)) : Prop :=
  Below r x t ∧ .page (.main, first) ∈ locks t

theorem steady_startPage {first : Nat}
    (h : Steady maxLocalLockNum (lockAllowed r) (Holding r first x) k tr)
    (hx : lockRank r (.page (.main, first)) < x) :
    Steady maxLocalLockNum (lockAllowed r) (StartTable r first x) (k + 1)
      (.acquire (.page (.main, first)) .write ::
        (tr ++ [.release (.page (.main, first))])) := by
  refine h.lock fun t ⟨hbelow, hfirst⟩ => ?_
  obtain ⟨t', ht', hmode⟩ := hbelow.1.acquire (.page (.main, first))
  refine ⟨?_, t', ht', ⟨hmode, fun l hl => ?_⟩, (mem_locks_acquireEntry ht').mpr (.inr rfl)⟩
  · rcases hfirst with rfl | hmem
    · exact .inr (.inl (by simp [locks]))
    · exact .inl hmem
  · rcases (mem_locks_acquireEntry ht').mp hl with hold | rfl
    · exact hbelow.2 l hold
    · exact hx

/-- What the search on the chain does between the lock of the start page and its end. -/
def ChainOrdered (r : PageRoles) (x : ℕ ×ₗ ℕ) (first : PageId) : SpaceEnd × LockTrace → Prop
  | (.full, locks) => Steady maxLocalLockNum (lockAllowed r) (Below r x) 2 locks
  | (_, locks) => ∃ mid, locks = mid ++ unlockAndRelease first ∧
      Steady maxLocalLockNum (lockAllowed r) (Below r x) 2 mid

theorem chainOrdered (size : Nat) {s : SpaceSight} (hchain : pageType = chainType pageType)
    (hfirst : r.role s.first.pageNum = .data)
    (hrole : s.first.chain pageType ≠ invalidPageNum → r.role s.chain.pageNum = pageType)
    (htried : s.chain.tried = []) :
    ChainOrdered r (chainRank pageType) s.first.mainId
      (searchChainLocks size pageType s) := by
  unfold searchChainLocks
  split
  · exact .nil
  · rename_i hvalid
    have hrank : lockRank r (.page (.main, s.chain.pageNum)) = chainRank pageType :=
      lockRank_chain ((hrole hvalid).trans hchain)
    have hlookup := steady_lookup_below .main htried (le_of_eq hrank.symm)
    dsimp only
    split
    · exact hlookup
    · rename_i page hpage
      rw [lookup_pageNum hpage] at hrank hrole
      have hlock : Steady maxLocalLockNum (lockAllowed r) (Below r (chainRank pageType)) 2
          (.acquire (.page page.mainId) .write :: ([] ++ [.release (.page page.mainId)])) :=
        steady_briefly .write (le_of_eq hrank.symm)
      have hrelease := (steady_releasePageLocks page.mainId (le_of_eq hrank.symm)).mono
        (show 1 ≤ 2 by decide)
      have hback := (hlookup.append hlock).append hrelease
      split
      · refine ⟨_, rfl, ?_⟩
        simpa [unlockAndRelease] using hback
      · split
        · refine ⟨_, rfl, ?_⟩
          simpa using hlookup.append hlock
        · split
          · rename_i heq
            have htype := hrole hvalid
            rw [heq, hfirst] at htype
            cases pageType <;> cases hchain <;> cases htype
          · simpa [ChainOrdered, unlockAndRelease] using hback

theorem steady_readStart {first : Nat} (hx : lockRank r (.page (.main, first)) < x) :
    Steady maxLocalLockNum (lockAllowed r) (StartTable r first x) 1
      (readPageLocks (.main, first) .inPool) :=
  steady_startPage ((steady_pin _).weaken fun _ _ => trivial) hx

theorem steady_releaseStart {first : Nat} (hx : lockRank r (.page (.main, first)) < x) :
    Steady maxLocalLockNum (lockAllowed r) (StartTable r first x) 1
      (releasePageLocks (.main, first)) :=
  steady_startPage ((steady_unpin _).weaken fun _ _ => trivial) hx

/-- The start page locked, unlocked and released. -/
theorem steady_startAndRelease {first : Nat}
    (h : Steady maxLocalLockNum (lockAllowed r) (Holding r first x) k tr)
    (hx : lockRank r (.page (.main, first)) < x) :
    Steady maxLocalLockNum (lockAllowed r) (StartTable r first x) (k + 1)
      (.acquire (.page (.main, first)) .write ::
        (tr ++ unlockAndRelease (.main, first))) := by
  have := (steady_startPage h hx).append
      ((steady_releaseStart hx).mono (show 1 ≤ k + 1 by omega))
  simpa [unlockAndRelease] using this

/-- What the search does. -/
def SpaceOrdered (r : PageRoles) (x : ℕ ×ₗ ℕ) (first : Nat) : SpaceEnd × LockTrace → Prop
  | (.full, locks) => ∃ mid, locks = readPageLocks (.main, first) .inPool ++
        (.acquire (.page (.main, first)) .write :: mid) ∧
      Steady maxLocalLockNum (lockAllowed r) (Below r x) 2 mid
  | (_, locks) => Steady maxLocalLockNum (lockAllowed r) (StartTable r first x) 3 locks

/-- The start page is read and locked before the search on the chain. -/
theorem ChainOrdered.start {first : Nat} {found : SpaceEnd × LockTrace}
    (h : ChainOrdered r x (.main, first) found) (hx : lockRank r (.page (.main, first)) < x) :
    SpaceOrdered r x first (found.1, readPageLocks (.main, first) .inPool ++
      [.acquire (.page (.main, first)) .write] ++ found.2) := by
  have hread := (steady_readStart hx).mono (show 1 ≤ 3 by decide)
  obtain ⟨found, locks⟩ := found
  cases found with
  | full => exact ⟨locks, by simp, h⟩
  | refused | found page =>
    obtain ⟨mid, rfl, hmid⟩ := h
    simpa [SpaceOrdered] using
      hread.append (steady_startAndRelease (hmid.weaken fun _ ht => ht.1) hx)

theorem lockRank_start_lt (pageType : PageType) {s : SpaceSight}
    (hfirst : r.role s.first.pageNum = .data) :
    lockRank r (.page s.first.mainId) < chainRank pageType := by
  rw [PageDataHeader.mainId, lockRank_data hfirst]
  cases pageType <;> simp [chainRank, chainType, Prod.Lex.toLex_lt_toLex]

theorem spaceOrdered {size : Nat} {s : SpaceSight}
    (hkind : pageType = .undo ∨ pageType = .data)
    (hfollows : s.Follows r size pageType) (htried : s.chain.tried = []) :
    SpaceOrdered r (chainRank pageType) s.first.pageNum
      (searchSpaceLocks size pageType s) := by
  have hx := lockRank_start_lt pageType hfollows.first
  have hread := (steady_readStart hx).mono (show 1 ≤ 3 by decide)
  have hrole := hfollows.chain
  unfold searchSpaceLocks
  split
  · exact .nil
  · dsimp only
    rcases hkind with rfl | rfl
    · exact (chainOrdered size rfl hfollows.first hrole htried).start hx
    · rw [if_neg (by decide)]
      split
      · simpa [SpaceOrdered, PageDataHeader.mainId] using
          hread.append ((steady_startAndRelease .nil hx).mono (show 1 ≤ 3 by decide))
      · split
        · simpa [SpaceOrdered, PageDataHeader.mainId] using
            hread.append ((steady_startPage .nil hx).mono (show 1 ≤ 3 by decide))
        · exact (chainOrdered size rfl hfollows.first hrole htried).start hx

/-- A new page is added while the start page is locked. -/
theorem steady_extendChainLocks {s : SpaceSight} {extpage : PageDataHeader}
    (h : s.ext.last.page = some extpage) (huntried : s.ext.Untried)
    (hrole : r.role extpage.pageNum ≠ .header) (hx : x ≤ toLex (3, 0)) :
    ∃ mid, extendChainLocks s = (some extpage, mid ++ unlockAndRelease s.first.mainId) ∧
      Steady maxLocalLockNum (lockAllowed r) (Below r x) 4 mid := by
  have hext := steady_extensionTblLocks (r := r) 1 huntried ((lookup_pageNum h).symm ▸ hrole)
  have hresult : (extensionTblLocks 1 .main s.ext).1 = some extpage := by
    simp [extensionTblLocks, pageExtensionMaxNum, h]
  generalize hpair : extensionTblLocks 1 .main s.ext = result at hext hresult
  obtain ⟨found, locks⟩ := result
  obtain rfl : found = some extpage := hresult
  have hlocks : extendChainLocks s = (some extpage,
      .acquire .extension .write ::
          (locks ++
              (.acquire (.page extpage.mainId) .write ::
                (tableWriteLocks .main ++ [.release (.page extpage.mainId)])) ++
            [.release .extension]) ++
        unlockAndRelease s.first.mainId) := by
    simp only [extendChainLocks, hpair]
  have hlink := steady_addedPage (k := 1) (steady_tableWriteLocks .main le_rfl) hrole
  have hinner := (hext.append hlink).mono (show 2 ≤ 3 by decide)
  refine ⟨_, hlocks, hinner.lock fun t ht => ?_⟩
  obtain ⟨hallowed, t', ht', hbelow⟩ :=
    ht.acquire (l := .extension) (y := toLex (4, 0)) hx
      (by simp [lockRank, Prod.Lex.toLex_lt_toLex])
  exact ⟨.inr hallowed, t', ht', hbelow, (mem_locks_acquireEntry ht').mpr (.inr rfl)⟩

/-- `GetSpaceSpecifyPage` takes its locks in order. -/
theorem steady_getSpaceSpecifyPageLocks {size : Nat} {s : SpaceSight}
    (hkind : pageType = .undo ∨ pageType = .data) (hfollows : s.Follows r size pageType)
    (horder : s.InOrder size pageType) :
    Steady maxLocalLockNum (lockAllowed r)
      (StartTable r s.first.pageNum (chainRank pageType)) 5
      (getSpaceSpecifyPageLocks size pageType s).2 := by
  have hsearch := spaceOrdered hkind hfollows horder.chain
  have hadded := horder.added
  have hrole := hfollows.added
  rw [← searchSpaceLocks_full] at hadded hrole
  unfold getSpaceSpecifyPageLocks
  generalize searchSpaceLocks size pageType s = result at hadded hrole hsearch
  obtain ⟨found, locks⟩ := result
  cases found with
  | refused => exact Steady.mono hsearch (by decide)
  | found page => exact Steady.mono hsearch (by decide)
  | full =>
    obtain ⟨mid, rfl, hmid⟩ := hsearch
    obtain ⟨extpage, hext⟩ := Option.ne_none_iff_exists'.mp (hadded rfl)
    have hlast := hrole rfl
    rw [lookup_pageNum hext] at hlast
    have hx := lockRank_start_lt pageType hfollows.first
    obtain ⟨mid', hextend, hmid'⟩ := steady_extendChainLocks (r := r) hext horder.ext
      (by rw [hlast]; cases pageType <;> simp [chainType])
      ((chainRank_le pageType).trans (by simp [Prod.Lex.toLex_le_toLex]))
    have hread := (steady_readStart hx).mono (show 1 ≤ 5 by decide)
    have hrest := steady_startAndRelease
      (((hmid.mono (show 2 ≤ 4 by decide)).append hmid').weaken fun _ ht => ht.1) hx
    simpa [hextend, PageDataHeader.mainId] using hread.append hrest

/-! ## Groups -/

theorem steady_free (h : Steady maxLocalLockNum (lockAllowed r) (Below r x) k tr) :
    Steady maxLocalLockNum (lockAllowed r) Free k tr :=
  h.weaken fun _ ht => ht.below

theorem steady_groupPagesLocks (no : Nat) (next : List Lookup) :
    Steady maxLocalLockNum (lockAllowed r) Free 2
      (.acquire (.page (.group, no)) .read :: (groupPagesLocks no next).2) := by
  have hlook : Steady maxLocalLockNum (lockAllowed r) Free 2
      (briefly (.page (.group, no)) .read) :=
    steady_free (steady_briefly .read le_rfl)
  induction next generalizing no with
  | nil => exact hlook
  | cons l rest ih =>
    have hrelease := (steady_free (steady_releasePageLocks (r := r) (.group, no) le_rfl)).mono
      (show 1 ≤ 2 by decide)
    have hfirst := (hlook.append hrelease).append (steady_lookup .group l)
    simp only [groupPagesLocks]
    cases hpage : l.page with
    | none => simpa [briefly, unlockAndRelease] using hfirst
    | some page =>
      have hrest :=
        hfirst.append (ih page.pageNum (steady_free (steady_briefly .read le_rfl)))
      simpa [briefly, unlockAndRelease] using hrest

theorem steady_getGroupInfoLocks (search : Option Nat) (s : GroupSight) :
    Steady maxLocalLockNum (lockAllowed r) Free 2 (getGroupInfoLocks search s).2 := by
  cases search with
  | some no => exact steady_groupPagesLocks no s.next
  | none =>
    simp only [getGroupInfoLocks]
    cases s.first.page with
    | none => exact steady_lookup .group s.first
    | some page =>
      exact (steady_lookup .group s.first).append (steady_groupPagesLocks page.pageNum s.next)

theorem steady_getFreeSpaceMemberPageLocks (size : Nat) (members : List Lookup) :
    Steady maxLocalLockNum (lockAllowed r) Free 2
      (getFreeSpaceMemberPageLocks size members).2 := by
  induction members with
  | nil => exact .nil
  | cons l rest ih =>
    simp only [getFreeSpaceMemberPageLocks]
    cases l.page with
    | none => exact steady_lookup .main l
    | some page =>
      have hlook := (steady_lookup (r := r) .main l).append
        (steady_free (steady_briefly (l := .page page.mainId) .read le_rfl))
      dsimp only
      split
      · exact hlook
      · have hrelease :=
          (steady_free (steady_releasePageLocks (r := r) page.mainId le_rfl)).mono
            (show 1 ≤ 2 by decide)
        exact (hlook.append hrelease).append ih

theorem steady_releasePageListLocks (pageList : List PageDataHeader) :
    Steady maxLocalLockNum (lockAllowed r) Free 1 (releasePageListLocks pageList) := by
  induction pageList with
  | nil => exact .nil
  | cons page rest ih =>
    exact (steady_free (steady_releasePageLocks page.mainId le_rfl)).append ih

theorem steady_groupColumnsLocks (pageList : List PageDataHeader) (sizes : List Nat)
    (columns : List (List Lookup)) :
    Steady maxLocalLockNum (lockAllowed r) Free 2
      (groupColumnsLocks pageList sizes columns).2 := by
  induction sizes generalizing pageList columns with
  | nil => exact .nil
  | cons size sizes ih =>
    have hmember := steady_getFreeSpaceMemberPageLocks (r := r) size (columns.headD [])
    simp only [groupColumnsLocks]
    generalize getFreeSpaceMemberPageLocks size (columns.headD []) = result at hmember
    obtain ⟨found, locks⟩ := result
    cases found with
    | none => exact hmember.append ((steady_releasePageListLocks pageList).mono (by decide))
    | some page => exact hmember.append (ih (pageList ++ [page]) columns.tail)

theorem steady_getSpaceGroupPageLocks (sizes : List Nat) (search : SpaceGroupSearch)
    (rounds : List GroupRound) :
    Steady maxLocalLockNum (lockAllowed r) Free 2
      (getSpaceGroupPageLocks sizes search rounds).2 := by
  induction rounds generalizing search with
  | nil => exact .nil
  | cons round rounds ih =>
    have hinfo : Steady maxLocalLockNum (lockAllowed r) Free 2
        (if search.isNoSpace then getGroupInfoLocks search.page round.group
          else (search.page, [])).2 := by
      split
      · exact steady_getGroupInfoLocks search.page round.group
      · exact .nil
    simp only [getSpaceGroupPageLocks]
    generalize (if search.isNoSpace then getGroupInfoLocks search.page round.group
      else (search.page, [])) = result at hinfo
    obtain ⟨page, locks⟩ := result
    dsimp only at hinfo ⊢
    split
    · exact hinfo
    · have hcolumns := steady_groupColumnsLocks (r := r) [] sizes round.columns
      generalize groupColumnsLocks [] sizes round.columns = result at hcolumns
      obtain ⟨pageList, locks'⟩ := result
      cases pageList with
      | some pageList => exact hinfo.append hcolumns
      | none => exact (hinfo.append hcolumns).append (ih ⟨page, true⟩)

/-! ### The group item -/

/-- Only the extension lock is held. -/
def JustExtending (t : List (Entry LockId)) : Prop := WriteOnly t ∧ locks t = [.extension]

theorem JustExtending.extending (h : JustExtending t) : Extending r t := by
  refine ⟨⟨h.1, fun l hl => ?_⟩, h.2 ▸ List.mem_singleton_self _⟩
  rw [h.2] at hl
  rw [List.mem_singleton.mp hl]
  simp [lockRank, Prod.Lex.toLex_lt_toLex]

/-- The pages of the group file are read under the extension lock. -/
theorem steady_getSpacePageLocks (size : Nat) {ext : ExtensionSight} {pages : List Lookup}
    (hext : ext.Untried) (hpages : ∀ l ∈ pages, l.tried = []) :
    Steady maxLocalLockNum (lockAllowed r) (Below r (toLex (5, 0))) 2
      (getSpacePageLocks size ext pages).2 := by
  induction pages with
  | nil => exact steady_extensionTblLocks_group 1 hext le_rfl
  | cons l rest ih =>
    obtain ⟨htried, hrest⟩ := List.forall_mem_cons.mp hpages
    have hlookup := steady_lookup_below (r := r) (x := toLex (5, 0)) .group htried le_rfl
    simp only [getSpacePageLocks]
    cases l.page with
    | none => exact hlookup.append (steady_extensionTblLocks_group 1 hext le_rfl)
    | some page =>
      have hlook :=
        hlookup.append (steady_briefly (l := .page (.group, page.pageNum)) .read le_rfl)
      dsimp only
      split
      · exact hlook
      · have hrelease :=
          (steady_releasePageLocks (r := r) (x := toLex (5, 0)) (.group, page.pageNum)
            le_rfl).mono (show 1 ≤ 2 by decide)
        exact (hlook.append hrelease).append (ih hrest)

/-- The buffers of the pages of the group file are there, or free. -/
structure GroupItemSight.Untried (s : GroupItemSight) : Prop where
  pages : ∀ l ∈ s.pages, l.tried = []
  ext : s.ext.Untried
  head : s.head.tried = []

theorem steady_insertGroupItemLocks {lastpage : PageDataHeader} (num : Nat)
    {s : GroupItemSight}
    (huntried : s.Untried) (hlast : r.role lastpage.pageNum ≠ .header) :
    Steady maxLocalLockNum (lockAllowed r) JustExtending 2
      (insertGroupItemLocks lastpage num s).2 := by
  have hlook : Steady maxLocalLockNum (lockAllowed r) JustExtending 2
      (briefly (.page lastpage.mainId) .read) := by
    refine Steady.brief .read fun t ht => ?_
    exact ⟨by simp [ht.2], .inr ⟨by simp [ht.2], _, rfl, hlast⟩⟩
  have hweaken {tr : LockTrace}
      (h : Steady maxLocalLockNum (lockAllowed r) (Below r (toLex (5, 0))) 2 tr) :
      Steady maxLocalLockNum (lockAllowed r) JustExtending 2 tr :=
    h.weaken fun t ht => ht.extending.1.mono (by simp [Prod.Lex.toLex_le_toLex])
  unfold insertGroupItemLocks
  dsimp only
  split
  · exact hlook
  · split
    · exact hlook
    · have hpage := steady_getSpacePageLocks (r := r) (groupItemSize + num * memberDataSize)
        huntried.ext huntried.pages
      generalize getSpacePageLocks (groupItemSize + num * memberDataSize) s.ext s.pages =
        result at hpage
      obtain ⟨found, locks'⟩ := result
      cases found with
      | none => exact hlook.append (hweaken hpage)
      | some page =>
        have hwrite : Steady maxLocalLockNum (lockAllowed r) (Below r (toLex (5, 0))) 2
            (.acquire (.page (.group, page.pageNum)) .write ::
              (tableWriteLocks .group ++ [.release (.page (.group, page.pageNum))])) :=
          steady_lock (steady_tableWriteLocks .group le_rfl) le_rfl (lockRank_page_lt _)
        have hrelease :=
          (steady_releasePageLocks (r := r) (x := toLex (5, 0)) (.group, page.pageNum)
            le_rfl).mono (show 1 ≤ 2 by decide)
        have hmeta :=
          steady_updateMetaDataLocks (r := r) (x := toLex (5, 0)) .group huntried.head le_rfl
        exact (((hlook.append (hweaken hpage)).append (hweaken hwrite)).append
          (hweaken hrelease)).append
          (hweaken hmeta)

end Toadb
