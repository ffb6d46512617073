/-
Toadb.Storage.PageLocksTheorems — which page functions give back what they take.

Each function has two facts. Its trace moves the pins from what it is given to what it
returns, when there is room for the locks it nests (`moves_*`). And, room or not, the
releases and pins of the trace are counted (`net_*`, `pinNet_*`): that is what is left for the
paths that do not balance. `GetSpaceSpecifyPage` keeps the start page locked and
pinned when the new page cannot be read (`SpaceSight.Leaks`).
-/
import Toadb.Storage.PageLocks

namespace Toadb

open HeldLocks

/-! ## Locks and pins -/

/-- The mode of a lock, except where pages are read. -/
def writeMode : LockId → Mode
  | .smgr => .read
  | _ => .write

/-- No page is locked for reading. -/
def WriteOnly (t : List (Entry LockId)) : Prop := InMode writeMode t

/-- No page is locked at all. -/
def NoPages (t : List (Entry LockId)) : Prop := WriteOnly t ∧ ∀ e ∈ t, e.lock = .extension

theorem writeOnly_nil : WriteOnly [] := by simp [WriteOnly, InMode]

theorem noPages_nil : NoPages [] := ⟨writeOnly_nil, by simp⟩

theorem WriteOnly.acquire {t : List (Entry LockId)} (h : WriteOnly t) (l : LockId) :
    ∃ t', acquireEntry l (writeMode l) t = some t' ∧ WriteOnly t' :=
  acquireEntry_of_inMode writeMode l h

/-- The pin of a page that is handed over. -/
def pagePins (forkNum : ForkType) : Option PageDataHeader → Multiset PageId
  | none => 0
  | some page => {(forkNum, page.pageNum)}

variable {k : Nat} {ok : List (Entry LockId) → Prop} {tr : LockTrace} {p q : Multiset PageId}
  {forkNum : ForkType}

/-- A trace that pins nothing. -/
theorem moves_keep (h : Moves maxLocalLockNum ok k tr 0 0) (p : Multiset PageId) :
    Moves maxLocalLockNum ok k tr p p := by
  simpa using h.frame p

/-- A lock around a trace. -/
theorem moves_lock (h : Moves maxLocalLockNum WriteOnly k tr p q) (l : LockId) :
    Moves maxLocalLockNum WriteOnly (k + 1)
      (.acquire l (writeMode l) :: (tr ++ [.release l])) p q :=
  h.lock fun _ ht => ht.acquire l

theorem moves_briefly (l : LockId) :
    Moves maxLocalLockNum WriteOnly 1 (briefly l (writeMode l)) p p :=
  moves_lock (.nil p) l

theorem moves_tableWriteLocks (forkNum : ForkType) :
    Moves maxLocalLockNum WriteOnly 1 (tableWriteLocks forkNum) p p :=
  (moves_briefly .smgr).append (moves_briefly (.file forkNum))

theorem moves_tableReadLocks (forkNum : ForkType) (isOpen : Bool) :
    Moves maxLocalLockNum WriteOnly 1 (tableReadLocks forkNum isOpen) p p := by
  refine ((moves_briefly .smgr).append ?_).append (moves_briefly (.file forkNum))
  cases isOpen with
  | true => exact .nil p
  | false => exact moves_tableWriteLocks forkNum

theorem moves_triedLocks (tried : List TriedBuffer) :
    Moves maxLocalLockNum WriteOnly 1 (triedLocks tried) p p := by
  induction tried with
  | nil => exact .nil p
  | cons buffer rest ih =>
    obtain ⟨page, found⟩ := buffer
    have hpins : Moves maxLocalLockNum WriteOnly 0
        (if found then [.pin page, .unpin page] else [] : LockTrace) 0 0 := by
      cases found with
      | true => exact (moves_pin page).append (moves_unpin page)
      | false => exact .nil 0
    exact (moves_keep (moves_lock hpins (.page page)) p).append ih

theorem moves_readPageLocks (page : PageId) (fetch : Fetch) :
    Moves maxLocalLockNum WriteOnly 2 (readPageLocks page fetch) 0 {page} := by
  obtain ⟨tried, source⟩ := fetch
  have hpin : Moves maxLocalLockNum WriteOnly 1 [.pin page] 0 {page} :=
    (moves_pin page).mono (Nat.zero_le 1)
  refine ((moves_triedLocks tried).mono (by decide)).append ?_
  cases source with
  | inPool => exact moves_lock hpin (.page page)
  | file isOpen =>
    exact moves_lock (hpin.append (moves_tableReadLocks page.1 isOpen)) (.page page)

theorem moves_releasePageLocks (page : PageId) :
    Moves maxLocalLockNum WriteOnly 1 (releasePageLocks page) {page} 0 :=
  moves_lock (moves_unpin page) (.page page)

theorem moves_lookup (forkNum : ForkType) (l : Lookup) :
    Moves maxLocalLockNum WriteOnly 2 (l.locks forkNum) 0 (pagePins forkNum l.page) := by
  cases l with
  | found page fetch => exact moves_readPageLocks (forkNum, page.pageNum) fetch
  | missing no tried isOpen =>
    simp only [Lookup.locks, Lookup.page, pagePins]
    split
    · exact .nil 0
    · refine ((moves_triedLocks tried).mono (by decide)).append ?_
      have hpin : Moves maxLocalLockNum WriteOnly 1 [.pin (forkNum, no)] 0 {(forkNum, no)} :=
        (moves_pin _).mono (Nat.zero_le 1)
      have hunpin : Moves maxLocalLockNum WriteOnly 1 [.unpin (forkNum, no)]
          {(forkNum, no)} 0 :=
        (moves_unpin _).mono (Nat.zero_le 1)
      exact moves_lock ((hpin.append (moves_tableReadLocks forkNum isOpen)).append hunpin)
        (.page (forkNum, no))

/-! ## Extending -/

theorem moves_updateMetaDataLocks (forkNum : ForkType) (head : Fetch) :
    Moves maxLocalLockNum WriteOnly 2 (updateMetaDataLocks forkNum head) 0 0 := by
  refine ((moves_readPageLocks (forkNum, pageHeadPageNum) head).append ?_).append
    ((moves_releasePageLocks _).mono (by decide))
  exact moves_lock (moves_tableWriteLocks forkNum) _

theorem moves_replicate (h : Moves maxLocalLockNum ok k tr p p) (num : Nat) :
    Moves maxLocalLockNum ok k (List.replicate num tr).flatten p p := by
  induction num with
  | zero => exact .nil p
  | succ num ih =>
    rw [List.replicate_succ, List.flatten_cons]
    exact h.append ih

theorem moves_extensionTblLocks (num : Nat) (forkNum : ForkType) (s : ExtensionSight) :
    Moves maxLocalLockNum WriteOnly 2 (extensionTblLocks num forkNum s).2 0
      (pagePins forkNum (extensionTblLocks num forkNum s).1) := by
  unfold extensionTblLocks
  split
  · exact .nil 0
  · refine (Moves.append ?_ (moves_updateMetaDataLocks forkNum s.head)).append
      (moves_lookup forkNum s.last)
    exact moves_replicate ((moves_tableWriteLocks forkNum).mono (by decide)) num

/-- `num` pages can be added, and the last one is read. -/
def ExtensionSight.Extends (s : ExtensionSight) (num : Nat) : Prop :=
  num ≠ 0 ∧ num ≤ pageExtensionMaxNum ∧ s.last.page ≠ none

theorem extensionTblLocks_ne_none (num : Nat) (forkNum : ForkType) (s : ExtensionSight) :
    (extensionTblLocks num forkNum s).1 ≠ none ↔ s.Extends num := by
  unfold extensionTblLocks ExtensionSight.Extends
  grind

/-! ## `GetSpaceSpecifyPage` -/

/-- The page the chain starts with is the start page. -/
def SpaceSight.SelfLinked (s : SpaceSight) (pageType : PageType) : Prop :=
  s.first.chain pageType ≠ invalidPageNum ∧
    ∃ page, s.chain.page = some page ∧ page.pageNum = s.first.pageNum

/-- The type of the pages of the chain that is searched, by a search for an undo page or a
data page. -/
def chainType : PageType → PageType
  | .undo => .undo
  | _ => .extData

/-- The page the chain starts with is of another type. -/
def SpaceSight.WrongChain (s : SpaceSight) (pageType : PageType) : Prop :=
  s.first.chain pageType ≠ invalidPageNum ∧
    ∃ page, s.chain.page = some page ∧ page.pageType ≠ pageType

/-- The chain has no page with space at its start. -/
def SpaceSight.FullChain (s : SpaceSight) (size : Nat) (pageType : PageType) : Prop :=
  s.first.chain pageType = invalidPageNum ∨
    ∀ page, s.chain.page = some page →
      page.pageType = pageType ∧ hasFreeSpace page size = false

/-- No page can be used: the data is too large, or a page is of another type. -/
def SpaceSight.Refused (s : SpaceSight) (size : Nat) (pageType : PageType) : Prop :=
  pageMaxSize ≤ size + pageDataHeaderSize ∨
    if pageType = .undo then s.WrongChain .undo
    else s.first.pageType ≠ pageType ∨
      hasFreeSpace s.first size = false ∧ pageType = .data ∧ s.WrongChain .extData

/-- A new page is needed. -/
def SpaceSight.Full (s : SpaceSight) (size : Nat) (pageType : PageType) : Prop :=
  size + pageDataHeaderSize < pageMaxSize ∧
    if pageType = .undo then s.FullChain size .undo
    else s.first.pageType = pageType ∧ hasFreeSpace s.first size = false ∧
      (pageType = .data → s.FullChain size .extData)

/-- A new page is needed, and cannot be read or the start page was taken twice. -/
def SpaceSight.Leaks (s : SpaceSight) (size : Nat) (pageType : PageType) : Prop :=
  s.Full size pageType ∧ (s.ext.last.page = none ∨ s.SelfLinked (chainType pageType))

theorem searchChainLocks_full (size : Nat) (pageType : PageType) (s : SpaceSight) :
    (searchChainLocks size pageType s).1 = .full ↔ s.FullChain size pageType := by
  unfold searchChainLocks SpaceSight.FullChain
  split
  · rename_i hinvalid
    simp [hinvalid]
  · rename_i hvalid
    cases hpage : s.chain.page with
    | none => simp
    | some page => by_cases htype : page.pageType = pageType <;> grind

theorem searchChainLocks_refused (size : Nat) (pageType : PageType) (s : SpaceSight) :
    (searchChainLocks size pageType s).1 = .refused ↔ s.WrongChain pageType := by
  unfold searchChainLocks SpaceSight.WrongChain
  split
  · rename_i hinvalid
    simp [hinvalid]
  · rename_i hvalid
    cases hpage : s.chain.page with
    | none => simp
    | some page => by_cases htype : page.pageType = pageType <;> grind

theorem searchSpaceLocks_full (size : Nat) (pageType : PageType) (s : SpaceSight) :
    (searchSpaceLocks size pageType s).1 = .full ↔ s.Full size pageType := by
  have hundo := searchChainLocks_full size .undo s
  have hext := searchChainLocks_full size .extData s
  unfold searchSpaceLocks SpaceSight.Full
  grind

theorem searchSpaceLocks_refused (size : Nat) (pageType : PageType) (s : SpaceSight) :
    (searchSpaceLocks size pageType s).1 = .refused ↔ s.Refused size pageType := by
  have hundo := searchChainLocks_refused size .undo s
  have hext := searchChainLocks_refused size .extData s
  unfold searchSpaceLocks SpaceSight.Refused
  grind

theorem SpaceSight.Refused.not_leaks {s : SpaceSight} {size : Nat} {pageType : PageType}
    (h : s.Refused size pageType) : ¬ s.Leaks size pageType := by
  rw [← searchSpaceLocks_refused] at h
  rw [SpaceSight.Leaks, ← searchSpaceLocks_full, h]
  simp

theorem moves_unlockAndRelease (page : PageId) (h : Moves maxLocalLockNum WriteOnly k tr p q)
    (hk : 1 ≤ k) :
    Moves maxLocalLockNum WriteOnly (k + 1)
      (.acquire (.page page) .write :: (tr ++ unlockAndRelease page))
      ({page} + p) q := by
  have hlock := (moves_lock h (.page page)).frame {page}
  have hrelease := ((moves_releasePageLocks page).frame q).mono (show 1 ≤ k + 1 by omega)
  rw [Multiset.add_comm {page} q, Multiset.zero_add] at hrelease
  rw [Multiset.add_comm {page} p]
  have := hlock.append hrelease
  simpa [unlockAndRelease, writeMode] using this

/-- What the search on the chain does between the lock of the start page and its end. -/
def ChainSearched (first : PageId) (selfLinked : Prop) : SpaceEnd × LockTrace → Prop
  | (.refused, locks) => ∃ mid, locks = mid ++ unlockAndRelease first ∧
      Moves maxLocalLockNum WriteOnly 2 mid 0 0
  | (.found page, locks) => ∃ mid, locks = mid ++ unlockAndRelease first ∧
      Moves maxLocalLockNum WriteOnly 2 mid 0 {page.mainId}
  | (.full, locks) => ¬ selfLinked → Moves maxLocalLockNum WriteOnly 2 locks 0 0

theorem chainSearched (size : Nat) (pageType : PageType) (s : SpaceSight) :
    ChainSearched s.first.mainId (s.SelfLinked pageType)
      (searchChainLocks size pageType s) := by
  unfold searchChainLocks
  split
  · exact fun _ => .nil 0
  · rename_i hvalid
    dsimp only
    have hlookup := moves_lookup .main s.chain
    split
    · rename_i hnone
      rw [hnone] at hlookup
      exact fun _ => hlookup
    · rename_i page hpage
      rw [hpage] at hlookup
      -- The page is locked and given back.
      have hback : Moves maxLocalLockNum WriteOnly 2 (.acquire (.page page.mainId) .write ::
          ([] ++ unlockAndRelease page.mainId)) {page.mainId} 0 := by
        simpa using moves_unlockAndRelease page.mainId (.nil 0) (Nat.le_refl 1)
      split
      · refine ⟨_, rfl, ?_⟩
        simpa using hlookup.append hback
      · split
        · refine ⟨_, rfl, ?_⟩
          have hlock := (moves_briefly (.page page.mainId)).mono (p := {page.mainId})
            (show 1 ≤ 2 by decide)
          simpa [briefly, writeMode] using hlookup.append hlock
        · split
          · rename_i heq
            exact fun hself => absurd ⟨hvalid, page, hpage, heq⟩ hself
          · intro _
            simpa using hlookup.append hback

/-- What the search does. -/
def SpaceSearched (first : PageId) (selfLinked : Prop) : SpaceEnd × LockTrace → Prop
  | (.refused, locks) => Moves maxLocalLockNum WriteOnly 3 locks 0 0
  | (.found page, locks) => Moves maxLocalLockNum WriteOnly 3 locks 0 {page.mainId}
  | (.full, locks) => ∃ mid,
      locks = readPageLocks first .inPool ++ (.acquire (.page first) .write :: mid) ∧
        (¬ selfLinked → Moves maxLocalLockNum WriteOnly 2 mid 0 0)

/-- The start page is read and locked before the search on the chain. -/
theorem ChainSearched.start {first : PageId} {selfLinked : Prop}
    {found : SpaceEnd × LockTrace} (h : ChainSearched first selfLinked found) :
    SpaceSearched first selfLinked
      (found.1, readPageLocks first .inPool ++
        [.acquire (.page first) .write] ++ found.2) := by
  have hread := (moves_readPageLocks first .inPool).mono (show 2 ≤ 3 by decide)
  obtain ⟨found, locks⟩ := found
  cases found with
  | refused =>
    obtain ⟨mid, rfl, hmid⟩ := h
    simpa [SpaceSearched] using hread.append (moves_unlockAndRelease first hmid (by decide))
  | found page =>
    obtain ⟨mid, rfl, hmid⟩ := h
    simpa [SpaceSearched] using hread.append (moves_unlockAndRelease first hmid (by decide))
  | full => exact ⟨locks, by simp, h⟩

theorem spaceSearched (size : Nat) (pageType : PageType) (s : SpaceSight) :
    SpaceSearched s.first.mainId (s.SelfLinked (chainType pageType))
      (searchSpaceLocks size pageType s) := by
  have hread := (moves_readPageLocks s.first.mainId .inPool).mono (show 2 ≤ 3 by decide)
  unfold searchSpaceLocks
  split
  · exact .nil 0
  · dsimp only
    split
    · rename_i hundo
      subst hundo
      exact (chainSearched size .undo s).start
    · rename_i hundo
      have hchain : chainType pageType = .extData := by
        cases pageType <;> first | rfl | exact absurd rfl hundo
      rw [hchain]
      split
      · have hback := moves_unlockAndRelease s.first.mainId (.nil 0)
          (show 1 ≤ 2 by decide)
        simpa [SpaceSearched] using hread.append hback
      · split
        · have hlock := (moves_briefly (.page s.first.mainId)).mono
            (p := {s.first.mainId}) (show 1 ≤ 3 by decide)
          simpa [SpaceSearched, briefly, writeMode] using hread.append hlock
        · split
          · exact (chainSearched size .extData s).start
          · exact ⟨[], by simp, fun _ => .nil 0⟩

/-- A new page is added while the start page is locked. -/
theorem moves_extendChainLocks {s : SpaceSight} {extpage : PageDataHeader}
    (h : s.ext.last.page = some extpage) :
    ∃ mid, extendChainLocks s = (some extpage, mid ++ unlockAndRelease s.first.mainId) ∧
      Moves maxLocalLockNum WriteOnly 3 mid 0 {extpage.mainId} := by
  have hext := moves_extensionTblLocks 1 .main s.ext
  have hresult : (extensionTblLocks 1 .main s.ext).1 = some extpage := by
    simp [extensionTblLocks, pageExtensionMaxNum, h]
  generalize hpair : extensionTblLocks 1 .main s.ext = result at hext hresult
  obtain ⟨found, locks⟩ := result
  obtain rfl : found = some extpage := hresult
  have hlocks : extendChainLocks s = (some extpage,
      .acquire .extension .write ::
          (locks ++
              (.acquire (.page extpage.mainId) .write ::
                (tableWriteLocks .main ++ [.release (.page extpage.mainId)])) ++
            [.release .extension]) ++
        unlockAndRelease s.first.mainId) := by
    simp only [extendChainLocks, hpair]
  refine ⟨_, hlocks, ?_⟩
  refine moves_lock ?_ .extension
  refine hext.append ?_
  exact moves_lock (moves_tableWriteLocks .main) (.page extpage.mainId)

/-- `GetSpaceSpecifyPage` gives back what it takes but the page it returns. -/
theorem moves_getSpaceSpecifyPageLocks {size : Nat} {pageType : PageType} {s : SpaceSight}
    (h : ¬ s.Leaks size pageType) :
    Moves maxLocalLockNum WriteOnly 4 (getSpaceSpecifyPageLocks size pageType s).2 0
      (pagePins .main (getSpaceSpecifyPageLocks size pageType s).1) := by
  have hsearch := spaceSearched size pageType s
  rw [SpaceSight.Leaks, ← searchSpaceLocks_full] at h
  unfold getSpaceSpecifyPageLocks
  generalize searchSpaceLocks size pageType s = result at h hsearch
  obtain ⟨found, locks⟩ := result
  cases found with
  | refused => exact Moves.mono hsearch (by decide)
  | found page => exact Moves.mono hsearch (by decide)
  | full =>
    obtain ⟨mid, rfl, hmid⟩ := hsearch
    rw [not_and, not_or] at h
    obtain ⟨hlast, hself⟩ := h rfl
    obtain ⟨extpage, hext⟩ := Option.ne_none_iff_exists'.mp hlast
    obtain ⟨mid', hextend, hmid'⟩ := moves_extendChainLocks hext
    have hread := (moves_readPageLocks s.first.mainId .inPool).mono (show 2 ≤ 4 by decide)
    have hrest := moves_unlockAndRelease s.first.mainId
      (((hmid hself).mono (show 2 ≤ 3 by decide)).append hmid') (by decide)
    simpa [hextend, pagePins, PageDataHeader.mainId] using hread.append hrest

/-! ## Counting -/

@[simp] theorem net_briefly (l : LockId) (m : Mode) :
    net (briefly l m) = 0 := by simp [briefly]

@[simp] theorem pinNet_briefly (l : LockId) (m : Mode) : pinNet (briefly l m) = 0 := by
  simp [briefly]

@[simp] theorem net_tableWriteLocks (forkNum : ForkType) :
    net (tableWriteLocks forkNum) = 0 := by
  simp [tableWriteLocks]

@[simp] theorem pinNet_tableWriteLocks (forkNum : ForkType) :
    pinNet (tableWriteLocks forkNum) = 0 := by
  simp [tableWriteLocks]

@[simp] theorem net_tableReadLocks (forkNum : ForkType) (isOpen : Bool) :
    net (tableReadLocks forkNum isOpen) = 0 := by
  cases isOpen <;> simp [tableReadLocks]

@[simp] theorem pinNet_tableReadLocks (forkNum : ForkType) (isOpen : Bool) :
    pinNet (tableReadLocks forkNum isOpen) = 0 := by
  cases isOpen <;> simp [tableReadLocks]

@[simp] theorem net_triedLocks (tried : List TriedBuffer) : net (triedLocks tried) = 0 := by
  induction tried with
  | nil => rfl
  | cons buffer rest ih =>
    obtain ⟨page, found⟩ := buffer
    cases found <;> simp [triedLocks, ih]

@[simp] theorem pinNet_triedLocks (tried : List TriedBuffer) :
    pinNet (triedLocks tried) = 0 := by
  induction tried with
  | nil => rfl
  | cons buffer rest ih =>
    obtain ⟨page, found⟩ := buffer
    cases found <;> simp [triedLocks, ih]

@[simp] theorem net_readPageLocks (page : PageId) (fetch : Fetch) :
    net (readPageLocks page fetch) = 0 := by
  obtain ⟨tried, source⟩ := fetch
  cases source <;> simp [readPageLocks]

@[simp] theorem pinNet_readPageLocks (page : PageId) (fetch : Fetch) :
    pinNet (readPageLocks page fetch) = 1 := by
  obtain ⟨tried, source⟩ := fetch
  cases source <;> simp [readPageLocks]

@[simp] theorem net_releasePageLocks (page : PageId) : net (releasePageLocks page) = 0 := by
  simp [releasePageLocks]

@[simp] theorem pinNet_releasePageLocks (page : PageId) :
    pinNet (releasePageLocks page) = -1 := by
  simp [releasePageLocks]

@[simp] theorem net_unlockAndRelease (page : PageId) : net (unlockAndRelease page) = 1 := by
  simp [unlockAndRelease]

@[simp] theorem pinNet_unlockAndRelease (page : PageId) :
    pinNet (unlockAndRelease page) = -1 := by
  simp [unlockAndRelease]

@[simp] theorem net_lookup (forkNum : ForkType) (l : Lookup) : net (l.locks forkNum) = 0 := by
  cases l with
  | found page fetch => simp [Lookup.locks]
  | missing no tried isOpen =>
    simp only [Lookup.locks]
    split <;> simp

@[simp] theorem pinNet_lookup (forkNum : ForkType) (l : Lookup) :
    pinNet (l.locks forkNum) = (pagePins forkNum l.page).card := by
  cases l with
  | found page fetch => simp [Lookup.locks, Lookup.page, pagePins]
  | missing no tried isOpen =>
    simp only [Lookup.locks]
    split <;> simp [Lookup.page, pagePins]

@[simp] theorem net_updateMetaDataLocks (forkNum : ForkType) (head : Fetch) :
    net (updateMetaDataLocks forkNum head) = 0 := by
  simp [updateMetaDataLocks]

@[simp] theorem pinNet_updateMetaDataLocks (forkNum : ForkType) (head : Fetch) :
    pinNet (updateMetaDataLocks forkNum head) = 0 := by
  simp [updateMetaDataLocks]

theorem net_replicate (h : net tr = 0) (num : Nat) :
    net (List.replicate num tr).flatten = 0 := by
  induction num with
  | zero => simp
  | succ num ih => simp [List.replicate_succ, h, ih]

theorem pinNet_replicate (h : pinNet tr = 0) (num : Nat) :
    pinNet (List.replicate num tr).flatten = 0 := by
  induction num with
  | zero => simp
  | succ num ih => simp [List.replicate_succ, h, ih]

@[simp] theorem net_extensionTblLocks (num : Nat) (forkNum : ForkType) (s : ExtensionSight) :
    net (extensionTblLocks num forkNum s).2 = 0 := by
  unfold extensionTblLocks
  split
  · simp
  · simp [net_replicate]

@[simp] theorem pinNet_extensionTblLocks (num : Nat) (forkNum : ForkType)
    (s : ExtensionSight) :
    pinNet (extensionTblLocks num forkNum s).2 =
      (pagePins forkNum (extensionTblLocks num forkNum s).1).card := by
  unfold extensionTblLocks
  split
  · simp [pagePins]
  · simp [pinNet_replicate]

/-- The locks and pins that are left after the search on the chain, less the start page's. -/
def ChainCounted (selfLinked : Prop) : SpaceEnd × LockTrace → Prop
  | (.refused, locks) => net locks = 1 ∧ pinNet locks = -1
  | (.found _, locks) => net locks = 1 ∧ pinNet locks = 0
  | (.full, locks) => net locks = -pinNet locks ∧ 0 ≤ pinNet locks ∧
      (selfLinked ↔ 0 < pinNet locks)

theorem chainCounted (size : Nat) (pageType : PageType) (s : SpaceSight) :
    ChainCounted (s.SelfLinked pageType) (searchChainLocks size pageType s) := by
  unfold searchChainLocks
  split
  · rename_i hinvalid
    simp [ChainCounted, SpaceSight.SelfLinked, hinvalid]
  · rename_i hvalid
    dsimp only
    split
    · rename_i hnone
      simp [ChainCounted, SpaceSight.SelfLinked, hnone, pagePins]
    · rename_i page hpage
      split
      · simp [ChainCounted, hpage, pagePins]
      · split
        · simp [ChainCounted, hpage, pagePins]
        · split
          · rename_i heq
            simp [ChainCounted, SpaceSight.SelfLinked, hvalid, hpage, heq, pagePins]
          · rename_i hne
            simp [ChainCounted, SpaceSight.SelfLinked, hpage, hne, pagePins]

/-- The locks and pins that are left after the search. -/
def SpaceCounted (selfLinked : Prop) : SpaceEnd × LockTrace → Prop
  | (.refused, locks) => net locks = 0 ∧ pinNet locks = 0
  | (.found _, locks) => net locks = 0 ∧ pinNet locks = 1
  | (.full, locks) => net locks = -pinNet locks ∧ 1 ≤ pinNet locks ∧
      (selfLinked ↔ 1 < pinNet locks)

theorem ChainCounted.start {first : PageId} {selfLinked : Prop} {found : SpaceEnd × LockTrace}
    (h : ChainCounted selfLinked found) :
    SpaceCounted selfLinked
      (found.1, readPageLocks first .inPool ++
        [.acquire (.page first) .write] ++ found.2) := by
  obtain ⟨found, locks⟩ := found
  cases found with
  | refused =>
    obtain ⟨hnet, hpin⟩ := h
    simp [SpaceCounted, hnet, hpin]
  | found page =>
    obtain ⟨hnet, hpin⟩ := h
    simp [SpaceCounted, hnet, hpin]
  | full =>
    obtain ⟨hnet, hpos, hself⟩ := h
    simp only [SpaceCounted, net_append, pinNet_append, net_readPageLocks,
      pinNet_readPageLocks,
      net_cons, pinNet_cons, net_acquire, pinNet_acquire, net_nil, pinNet_nil, hself]
    omega

theorem spaceCounted (size : Nat) {pageType : PageType} (s : SpaceSight)
    (hkind : pageType = .undo ∨ pageType = .data) :
    SpaceCounted (s.SelfLinked (chainType pageType)) (searchSpaceLocks size pageType s) := by
  unfold searchSpaceLocks
  split
  · simp [SpaceCounted]
  · dsimp only
    rcases hkind with rfl | rfl
    · exact (chainCounted size .undo s).start
    · rw [if_neg (by decide)]
      split
      · simp [SpaceCounted]
      · split
        · simp [SpaceCounted]
        · exact (chainCounted size .extData s).start

@[simp] theorem net_extendChainLocks (s : SpaceSight) :
    net (extendChainLocks s).2 = (pagePins .main (extendChainLocks s).1).card := by
  have hnet := net_extensionTblLocks 1 .main s.ext
  unfold extendChainLocks
  generalize extensionTblLocks 1 .main s.ext = result at hnet
  obtain ⟨found, locks⟩ := result
  cases found <;> simp_all [pagePins]

@[simp] theorem pinNet_extendChainLocks (s : SpaceSight) :
    pinNet (extendChainLocks s).2 = 0 := by
  have hpin := pinNet_extensionTblLocks 1 .main s.ext
  unfold extendChainLocks
  generalize extensionTblLocks 1 .main s.ext = result at hpin
  obtain ⟨found, locks⟩ := result
  cases found <;> simp_all [pagePins]

theorem extendChainLocks_page (s : SpaceSight) :
    (extendChainLocks s).1 = s.ext.last.page := by
  have hresult : (extensionTblLocks 1 .main s.ext).1 = s.ext.last.page := by
    simp [extensionTblLocks, pageExtensionMaxNum]
  unfold extendChainLocks
  generalize extensionTblLocks 1 .main s.ext = result at hresult
  obtain ⟨found, locks⟩ := result
  cases found <;> exact hresult

/-- `GetSpaceSpecifyPage` returns no page if it is refused, or leaks. -/
theorem getSpaceSpecifyPageLocks_none {size : Nat} {pageType : PageType} {s : SpaceSight}
    (h : ¬ s.Leaks size pageType) :
    (getSpaceSpecifyPageLocks size pageType s).1 = none ↔ s.Refused size pageType := by
  rw [SpaceSight.Leaks, ← searchSpaceLocks_full] at h
  rw [← searchSpaceLocks_refused]
  unfold getSpaceSpecifyPageLocks
  generalize searchSpaceLocks size pageType s = result at h
  obtain ⟨found, locks⟩ := result
  cases found with
  | refused => simp
  | found page => simp
  | full =>
    have hlast : s.ext.last.page ≠ none := fun hnone => h ⟨rfl, .inl hnone⟩
    simp [extendChainLocks_page, hlast]

/-- `GetSpaceSpecifyPage` pins at least what it returns, and more if it leaks. -/
theorem counted_getSpaceSpecifyPageLocks (size : Nat) {pageType : PageType} (s : SpaceSight)
    (hkind : pageType = .undo ∨ pageType = .data) :
    let (page, locks) := getSpaceSpecifyPageLocks size pageType s
    (¬ s.Leaks size pageType → net locks = 0) ∧ (pagePins .main page).card ≤ pinNet locks ∧
      (s.Leaks size pageType → (pagePins .main page).card < pinNet locks) := by
  have hcount := spaceCounted size s hkind
  rw [SpaceSight.Leaks, ← searchSpaceLocks_full]
  unfold getSpaceSpecifyPageLocks
  generalize searchSpaceLocks size pageType s = result at hcount
  obtain ⟨found, locks⟩ := result
  cases found with
  | refused =>
    obtain ⟨hnet, hpin⟩ := hcount
    simp [hnet, hpin, pagePins]
  | found page =>
    obtain ⟨hnet, hpin⟩ := hcount
    simp [hnet, hpin, pagePins]
  | full =>
    obtain ⟨hnet, hpos, hself⟩ := hcount
    simp only [net_append, pinNet_append, net_extendChainLocks, pinNet_extendChainLocks,
      extendChainLocks_page, true_and, hself, hnet]
    cases hlast : s.ext.last.page with
    | none =>
      simp [pagePins]
      omega
    | some extpage =>
      simp [pagePins]
      omega

/-- A call of `GetSpaceSpecifyPage` leaves what was there, and the pin of the page it returns,
if and only if it does not leak. -/
theorem space_balanced_iff (size : Nat) {pageType : PageType} (s : SpaceSight)
    (hkind : pageType = .undo ∨ pageType = .data) {table : List (Entry LockId)}
    (htable : WriteOnly table) (hroom : table.length + 4 ≤ maxLocalLockNum)
    (pins : Multiset PageId) (faults : Nat) :
    run maxLocalLockNum ⟨table, pins, faults⟩ (getSpaceSpecifyPageLocks size pageType s).2 =
        ⟨table, pagePins .main (getSpaceSpecifyPageLocks size pageType s).1 + pins, faults⟩ ↔
      ¬ s.Leaks size pageType := by
  refine ⟨fun hrun hleaks => ?_, fun hleaks => ?_⟩
  · have hcard := card_pins_run maxLocalLockNum ⟨table, pins, faults⟩
      (getSpaceSpecifyPageLocks size pageType s).2
    have hcount : (pagePins .main (getSpaceSpecifyPageLocks size pageType s).1).card <
        pinNet (getSpaceSpecifyPageLocks size pageType s).2 :=
      (counted_getSpaceSpecifyPageLocks size s hkind).2.2 hleaks
    rw [hrun] at hcard
    simp only [Multiset.card_add] at hcard
    omega
  · exact moves_getSpaceSpecifyPageLocks hleaks ⟨table, pins, faults⟩ pins htable hroom
      (Multiset.zero_add pins).symm

/-! ## Groups -/

theorem NoPages.acquire_extension {t : List (Entry LockId)} (h : NoPages t) :
    ∃ t', acquireEntry .extension .write t = some t' ∧ NoPages t' := by
  obtain ⟨t', ht', hmode⟩ := h.1.acquire .extension
  refine ⟨t', ht', hmode, fun e he => ?_⟩
  have hkeys : e.lock ∈ t'.map (·.lock) := List.mem_map_of_mem he
  rw [keys_acquireEntry ht'] at hkeys
  split at hkeys
  · obtain ⟨e', he', heq⟩ := List.mem_map.mp hkeys
    exact heq ▸ h.2 e' he'
  · rcases List.mem_append.mp hkeys with hold | hnew
    · obtain ⟨e', he', heq⟩ := List.mem_map.mp hold
      exact heq ▸ h.2 e' he'
    · exact List.mem_singleton.mp hnew

theorem NoPages.acquire_page {t : List (Entry LockId)} (h : NoPages t)
    (page : PageId) (m : Mode) :
    ∃ t', acquireEntry (.page page) m t = some t' ∧ True := by
  have hlocks := h.2
  clear h
  induction t with
  | nil => exact ⟨_, rfl, trivial⟩
  | cons e es ih =>
    obtain ⟨he, hes⟩ := List.forall_mem_cons.mp hlocks
    obtain ⟨t', ht', -⟩ := ih hes
    exact ⟨e :: t', by simp [acquireEntry, he, ht'], trivial⟩

/-- A trace of a worker that has no page locked. -/
theorem moves_noPages (h : Moves maxLocalLockNum WriteOnly k tr p q) :
    Moves maxLocalLockNum NoPages k tr p q :=
  h.weaken fun _ ht => ht.1

/-- A page is looked at. -/
theorem moves_lookAt (page : PageId) (m : Mode) :
    Moves maxLocalLockNum NoPages 1 (briefly (.page page) m) p p :=
  Moves.lock (.nil p) fun _ ht => ht.acquire_page page m

/-- The pin of the page of the group search. -/
def searchPins : Option Nat → Multiset PageId
  | none => 0
  | some no => {(.group, no)}

theorem moves_groupPagesLocks (no : Nat) (next : List Lookup) :
    Moves maxLocalLockNum NoPages 2
      (.acquire (.page (.group, no)) .read :: (groupPagesLocks no next).2)
      {(.group, no)} (searchPins (groupPagesLocks no next).1) := by
  induction next generalizing no with
  | nil => exact (moves_lookAt (.group, no) .read).mono (by decide)
  | cons l rest ih =>
    have hlook := (moves_lookAt (p := {(.group, no)}) (.group, no) .read).mono
      (show 1 ≤ 2 by decide)
    have hrelease := (moves_noPages (moves_releasePageLocks (.group, no))).mono
      (show 1 ≤ 2 by decide)
    have hlookup := moves_noPages (moves_lookup .group l)
    simp only [groupPagesLocks]
    cases hpage : l.page with
    | none =>
      rw [hpage] at hlookup
      simpa [briefly, unlockAndRelease, pagePins, searchPins] using
        (hlook.append hrelease).append hlookup
    | some page =>
      rw [hpage] at hlookup
      have hrest := (hlook.append hrelease).append (hlookup.append (ih page.pageNum))
      simpa [briefly, unlockAndRelease] using hrest

theorem moves_getGroupInfoLocks (search : Option Nat) (s : GroupSight) :
    Moves maxLocalLockNum NoPages 2 (getGroupInfoLocks search s).2 (searchPins search)
      (searchPins (getGroupInfoLocks search s).1) := by
  cases search with
  | some no => exact moves_groupPagesLocks no s.next
  | none =>
    have hlookup := moves_noPages (moves_lookup .group s.first)
    simp only [getGroupInfoLocks]
    cases hpage : s.first.page with
    | none =>
      rw [hpage] at hlookup
      exact hlookup
    | some page =>
      rw [hpage] at hlookup
      exact hlookup.append (moves_groupPagesLocks page.pageNum s.next)

theorem moves_getFreeSpaceMemberPageLocks (size : Nat) (members : List Lookup) :
    Moves maxLocalLockNum NoPages 2 (getFreeSpaceMemberPageLocks size members).2 0
      (pagePins .main (getFreeSpaceMemberPageLocks size members).1) := by
  induction members with
  | nil => exact .nil 0
  | cons l rest ih =>
    have hlookup := moves_noPages (moves_lookup .main l)
    simp only [getFreeSpaceMemberPageLocks]
    cases hpage : l.page with
    | none =>
      rw [hpage] at hlookup
      exact hlookup
    | some page =>
      rw [hpage] at hlookup
      have hlook := hlookup.append ((moves_lookAt page.mainId .read).mono (by decide))
      dsimp only
      split
      · exact hlook
      · have hrelease := (moves_noPages (moves_releasePageLocks page.mainId)).mono
          (show 1 ≤ 2 by decide)
        exact (hlook.append hrelease).append ih

/-- The pins of the pages of a group. -/
def listPins (pageList : List PageDataHeader) : Multiset PageId :=
  (pageList.map PageDataHeader.mainId : List PageId)

theorem moves_releasePageListLocks (pageList : List PageDataHeader) :
    Moves maxLocalLockNum WriteOnly 1 (releasePageListLocks pageList)
      (listPins pageList) 0 := by
  induction pageList with
  | nil => exact .nil 0
  | cons page rest ih =>
    have hrelease := (moves_releasePageLocks page.mainId).frame (listPins rest)
    rw [Multiset.zero_add] at hrelease
    exact hrelease.append ih

/-- What is pinned after the columns of a group were tried. -/
def columnPins : Option (List PageDataHeader) → Multiset PageId
  | none => 0
  | some pageList => listPins pageList

theorem moves_groupColumnsLocks (pageList : List PageDataHeader) (sizes : List Nat)
    (columns : List (List Lookup)) :
    Moves maxLocalLockNum NoPages 2 (groupColumnsLocks pageList sizes columns).2
      (listPins pageList)
      (columnPins (groupColumnsLocks pageList sizes columns).1) := by
  induction sizes generalizing pageList columns with
  | nil => exact .nil _
  | cons size sizes ih =>
    have hmember := (moves_getFreeSpaceMemberPageLocks size (columns.headD [])).frame
      (listPins pageList)
    rw [Multiset.zero_add] at hmember
    simp only [groupColumnsLocks]
    generalize getFreeSpaceMemberPageLocks size (columns.headD []) = result at hmember
    obtain ⟨found, locks⟩ := result
    cases found with
    | none =>
      have hrelease := (moves_noPages (moves_releasePageListLocks pageList)).mono
        (show 1 ≤ 2 by decide)
      simp only [pagePins, Multiset.zero_add] at hmember
      exact hmember.append hrelease
    | some page =>
      have hpins : pagePins .main (some page) + listPins pageList =
          listPins (pageList ++ [page]) := by
        rw [listPins, listPins, List.map_append, ← Multiset.coe_add, Multiset.add_comm]
        rfl
      rw [hpins] at hmember
      exact hmember.append (ih (pageList ++ [page]) columns.tail)

/-- What is pinned after `GetSpaceGroupPage`. -/
theorem moves_getSpaceGroupPageLocks {sizes : List Nat} {search search' : SpaceGroupSearch}
    {rounds : List GroupRound} {found : Option (List PageDataHeader)} {locks : LockTrace}
    (h : getSpaceGroupPageLocks sizes search rounds = (some (found, search'), locks)) :
    Moves maxLocalLockNum NoPages 2 locks (searchPins search.page)
      (columnPins found + searchPins search'.page) := by
  induction rounds generalizing search locks with
  | nil => cases h
  | cons round rounds ih =>
    simp only [getSpaceGroupPageLocks] at h
    -- The group is looked for, or is the one of the row before.
    have hinfo : Moves maxLocalLockNum NoPages 2
        (if search.isNoSpace then getGroupInfoLocks search.page round.group
          else (search.page, [])).2
        (searchPins search.page)
        (searchPins
          (if search.isNoSpace then getGroupInfoLocks search.page round.group
            else (search.page, [])).1) := by
      split
      · exact moves_getGroupInfoLocks search.page round.group
      · exact .nil _
    generalize (if search.isNoSpace then getGroupInfoLocks search.page round.group
      else (search.page, [])) = result at h hinfo
    obtain ⟨page, locks₁⟩ := result
    dsimp only at h hinfo
    split at h
    · rename_i hnone
      obtain ⟨-, rfl⟩ := hnone
      cases h
      split
      · simpa [columnPins, listPins] using hinfo
      · simpa [columnPins] using hinfo
    · have hcolumns := (moves_groupColumnsLocks [] sizes round.columns).frame
        (searchPins page)
      generalize groupColumnsLocks [] sizes round.columns = result at h hcolumns
      obtain ⟨pageList, locks₂⟩ := result
      have hboth : Moves maxLocalLockNum NoPages 2 (locks₁ ++ locks₂) (searchPins search.page)
          (columnPins pageList + searchPins page) := by
        refine hinfo.append ?_
        simpa [listPins] using hcolumns
      cases pageList with
      | some pageList =>
        cases h
        exact hboth
      | none =>
        rw [columnPins, Multiset.zero_add] at hboth
        generalize hrest : getSpaceGroupPageLocks sizes ⟨page, true⟩ rounds = result at h
        obtain ⟨result, locks₃⟩ := result
        cases h
        exact hboth.append (ih hrest)

theorem moves_getSpacePageLocks (size : Nat) (ext : ExtensionSight) (pages : List Lookup) :
    Moves maxLocalLockNum NoPages 2 (getSpacePageLocks size ext pages).2 0
      (pagePins .group (getSpacePageLocks size ext pages).1) := by
  induction pages with
  | nil => exact moves_noPages (moves_extensionTblLocks 1 .group ext)
  | cons l rest ih =>
    have hlookup := moves_noPages (moves_lookup .group l)
    simp only [getSpacePageLocks]
    cases hpage : l.page with
    | none =>
      rw [hpage] at hlookup
      exact hlookup.append (moves_noPages (moves_extensionTblLocks 1 .group ext))
    | some page =>
      rw [hpage] at hlookup
      have hlook := hlookup.append
        ((moves_lookAt (.group, page.pageNum) .read).mono (show 1 ≤ 2 by decide))
      dsimp only
      split
      · exact hlook
      · have hrelease := (moves_noPages
          (moves_releasePageLocks (.group, page.pageNum))).mono (show 1 ≤ 2 by decide)
        exact (hlook.append hrelease).append ih

theorem moves_insertGroupItemLocks {lastpage : PageDataHeader} {num : Nat}
    {s : GroupItemSight}
    {locks : LockTrace} (h : insertGroupItemLocks lastpage num s = (true, locks)) :
    Moves maxLocalLockNum NoPages 2 locks 0 0 := by
  have hlook := (moves_lookAt (p := 0) lastpage.mainId .read).mono (show 1 ≤ 2 by decide)
  simp only [insertGroupItemLocks] at h
  split at h
  · cases h
    exact hlook
  · split at h
    · cases h
    · have hpage := moves_getSpacePageLocks (groupItemSize + num * memberDataSize)
        s.ext s.pages
      generalize getSpacePageLocks (groupItemSize + num * memberDataSize) s.ext s.pages =
        result
        at h hpage
      obtain ⟨found, locks'⟩ := result
      cases found with
      | none => cases h
      | some page =>
        cases h
        have hwrite : Moves maxLocalLockNum NoPages 2
            (.acquire (.page (.group, page.pageNum)) .write ::
              (tableWriteLocks .group ++ [.release (.page (.group, page.pageNum))]))
            {(.group, page.pageNum)} {(.group, page.pageNum)} :=
          moves_noPages
            (moves_lock (moves_tableWriteLocks .group) (.page (.group, page.pageNum)))
        have hrelease := (moves_noPages
          (moves_releasePageLocks (.group, page.pageNum))).mono (show 1 ≤ 2 by decide)
        have hmeta := moves_noPages (moves_updateMetaDataLocks .group s.head)
        exact (((hlook.append hpage).append hwrite).append hrelease).append hmeta

end Toadb
