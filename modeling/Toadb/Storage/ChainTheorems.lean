/-
Toadb.Storage.ChainTheorems — the undo and extension chains in the file.

A page that is linked to a chain is changed in its buffer only: its type and
its link reach the file with the first row that is written to it, while
the data page is written at once. Until then the chain in the file leads to an empty
data page, and what was behind it is cut off; when the buffer is dropped before,
it stays so. `chains_onDisk_iff` says that this is the only way it goes wrong.
-/
import Toadb.Storage.OwnerTheorems
import Mathlib.Data.List.Induction

namespace Toadb

open Transition

variable {n : Nat} {s t : ExtendSys n} {w : Fin n} {no firstno last : Nat}
  {page firstpage extpage : PageDataHeader} {pageType : PageType} {stored : Bool}

/-! ## The invariant -/

/-- The types of chains. -/
def IsChain (k : PageType) : Prop := k = .undo ∨ k = .extData

/-- A page of a chain, followed by the pages `rest`. -/
structure PageGood (k : PageType) (rest : List Nat) (page : PageDataHeader) : Prop where
  pageType : page.pageType = k
  next : page.chain k = rest.headD invalidPageNum

/-- The part of the invariant that is about the pages of the chains. -/
structure ChainPages (s : ExtendSys n) : Prop where
  members : ∀ d k no, no ∈ s.chains d k → d ∈ s.groups.flatten ∧ IsChain k
  first : ∀ d k page, d ∈ s.groups.flatten → IsChain k → s.Has d page →
    page.chain k = (s.chains d k).headD invalidPageNum
  firstThere : ∀ d k no, no ∈ s.chains d k → ∃ page, s.disk.page d = some page
  written : ∀ d k before c rest, s.chains d k = before ++ c :: rest → c ∉ s.unwritten →
    (∃ page, s.disk.page c = some page) ∧ ∀ page, s.Has c page → PageGood k rest page
  onDisk : ∀ d k c page, c ∈ s.chains d k → c ∈ s.unwritten → s.disk.page c = some page →
    page.pageType = .data
  inBuffer : ∀ d k before c rest page, s.chains d k = before ++ c :: rest → c ∈ s.unwritten →
    s.file.page c = some page → page.pageType ≠ .data → PageGood k rest page
  unwritten : ∀ c ∈ s.unwritten, ∃ d k, c ∈ s.chains d k

/-- The invariant: the pages of the chains, the pages of extensions, which are empty data
pages, and the pages in hand, which are pages of groups or pages of chains that were not
dropped. -/
structure ChainInv (s : ExtendSys n) : Prop where
  own : OwnInv s
  pages : ChainPages s
  got : ∀ w, ∀ no ∈ (s.workers w).phase.got, ∀ page, s.Has no page → page.pageType = .data
  hand : ∀ w, ∀ no ∈ (s.workers w).hand, no ∈ s.groups.flatten ∨ ∃ d k, no ∈ s.chains d k
  handPage : ∀ w, ∀ no ∈ (s.workers w).hand, ∀ d k, no ∈ s.chains d k →
    ∃ page, s.file.page no = some page ∧ page.pageType ≠ .data

theorem IsChain.ne_data {k : PageType} (h : IsChain k) : k ≠ .data := by
  rcases h with rfl | rfl <;> decide

theorem SameHeader.chain {page page' : PageDataHeader}
    (h : SameHeader page page') (k : PageType) :
    page'.chain k = page.chain k := by
  unfold PageDataHeader.chain
  split
  · exact h.extPage
  · exact h.undoPage

theorem SameHeader.pageGood {page page' : PageDataHeader}
    (h : SameHeader page page') {k : PageType}
    {rest : List Nat} (hgood : PageGood k rest page) : PageGood k rest page' :=
  ⟨h.pageType.trans hgood.pageType, (h.chain k).trans hgood.next⟩

/-! ## Steps on other pages -/

/-- The groups, the chains and their pages are the same. -/
structure SameChains (s t : ExtendSys n) : Prop where
  groups : t.groups = s.groups
  chains : t.chains = s.chains
  unwritten : t.unwritten = s.unwritten
  file : ∀ no ∈ s.handed, t.file.page no = s.file.page no
  disk : ∀ no ∈ s.handed, t.disk.page no = s.disk.page no

theorem SameChains.has (h : SameChains s t) (hno : no ∈ s.handed) (hpage : t.Has no page) :
    s.Has no page := by
  rw [ExtendSys.Has, h.file no hno, h.disk no hno] at hpage
  exact hpage

theorem OwnInv.chained_mem (h : OwnInv s) {d c : Nat} {k : PageType} {before rest : List Nat}
    (hc : s.chains d k = before ++ c :: rest) : c ∈ s.handed := by
  refine (h.pages.chained d k c ?_).1
  rw [hc]
  simp

theorem ChainPages.ofSame (h : ChainPages s) (hown : OwnInv s) (hsame : SameChains s t) :
    ChainPages t where
  members := by
    rw [hsame.chains, hsame.groups]
    exact h.members
  first := fun d k page hd hk hpage => by
    rw [hsame.groups] at hd
    rw [hsame.chains]
    exact h.first d k page hd hk (hsame.has (hown.pages.groups d hd).1 hpage)
  firstThere := fun d k no hno => by
    rw [hsame.chains] at hno
    rw [hsame.disk d (hown.pages.chained d k no hno).2.1]
    exact h.firstThere d k no hno
  written := fun d k before c rest hc hwritten => by
    rw [hsame.chains] at hc
    rw [hsame.unwritten] at hwritten
    have hmem := hown.chained_mem hc
    obtain ⟨hthere, hgood⟩ := h.written d k before c rest hc hwritten
    rw [hsame.disk c hmem]
    exact ⟨hthere, fun page hpage => hgood page (hsame.has hmem hpage)⟩
  onDisk := fun d k c page hc hunwritten hpage => by
    rw [hsame.chains] at hc
    rw [hsame.unwritten] at hunwritten
    rw [hsame.disk c (hown.pages.chained d k c hc).1] at hpage
    exact h.onDisk d k c page hc hunwritten hpage
  inBuffer := fun d k before c rest page hc hunwritten hpage => by
    rw [hsame.chains] at hc
    rw [hsame.unwritten] at hunwritten
    rw [hsame.file c (hown.chained_mem hc)] at hpage
    exact h.inBuffer d k before c rest page hc hunwritten hpage
  unwritten := by
    rw [hsame.unwritten, hsame.chains]
    exact h.unwritten

/-- An extension goes on. -/
theorem ChainInv.ofSame (h : ChainInv s) (hown : OwnInv t) (hsame : SameChains s t)
    (hhand : ∀ w, (t.workers w).hand = (s.workers w).hand)
    (hgot : ∀ w, ∀ no ∈ (t.workers w).phase.got, ∀ page, t.Has no page →
      page.pageType = .data) :
    ChainInv t where
  own := hown
  pages := h.pages.ofSame h.own hsame
  got := hgot
  hand := fun w no hno => by
    rw [hhand] at hno
    rw [hsame.groups, hsame.chains]
    exact h.hand w no hno
  handPage := fun w no hno d k hmem => by
    rw [hhand] at hno
    rw [hsame.chains] at hmem
    rw [hsame.file no (h.own.pages.chained d k no hmem).1]
    exact h.handPage w no hno d k hmem

theorem SameChains.refl (s : ExtendSys n) : SameChains s s :=
  ⟨rfl, rfl, rfl, fun _ _ => rfl, fun _ _ => rfl⟩

/-! ## The steps of an extension -/

theorem OwnInv.inHand (h : OwnInv s) (hno : no ∈ (s.workers w).phase.got) : InHand s no := by
  have hok := h.phase w
  cases hphase : (s.workers w).phase with
  | ready =>
    rw [hphase] at hno
    cases hno
  | extend job got =>
    rw [hphase] at hno hok
    exact hok.2.inHand no hno
  | load job got =>
    rw [hphase] at hno hok
    exact hok.2.1.inHand no hno
  | loaded job got last =>
    rw [hphase] at hno hok
    exact hok.2.1.inHand no hno

/-- A worker goes on with its extension. -/
theorem ChainInv.setPhase {phase : ExtendPhase} (h : ChainInv s) (hsame : SameChains s t)
    (hworkers : t.workers = s.workers)
    (hown : OwnInv (t.setWorker w { t.workers w with phase := phase }))
    (hgot : ∀ no ∈ phase.got, ∀ page, t.Has no page → page.pageType = .data) :
    ChainInv (t.setWorker w { t.workers w with phase := phase }) := by
  refine h.ofSame hown ⟨hsame.groups, hsame.chains, hsame.unwritten, hsame.file, hsame.disk⟩
    (fun w' => ?_) fun w' no hno page hpage => ?_
  · by_cases hw : w' = w
    · subst hw
      rw [setWorker_workers_self, hworkers]
    · rw [setWorker_workers_of_ne _ _ hw, hworkers]
  · by_cases hw : w' = w
    · subst hw
      rw [setWorker_workers_self] at hno
      exact hgot no hno page hpage
    · rw [setWorker_workers_of_ne _ _ hw, hworkers] at hno
      exact h.got w' no hno page (hsame.has (h.own.inHand hno).handed hpage)

theorem ChainInv.startExtend (h : ChainInv s) {job : ExtendJob} {locks : Nat}
    (hlocks : locks < maxLocalLockNum) (hready : (s.workers w).phase = .ready)
    (hstep : startExtend job locks s w = some t) : ChainInv t := by
  have hown := h.own.startExtend hlocks hready hstep
  unfold Toadb.startExtend at hstep
  split at hstep
  · obtain ⟨s₁, hlock, hs₁⟩ := Option.map_eq_some_iff.mp hstep
    obtain ⟨count, rfl, -⟩ := startExtensionTbl_cases hlocks hlock
    split at hs₁
    · subst hs₁
      exact h.ofSame hown ⟨rfl, rfl, rfl, fun _ _ => rfl, fun _ _ => rfl⟩ (fun _ => rfl) h.got
    · subst hs₁
      exact h.setPhase ⟨rfl, rfl, rfl, fun _ _ => rfl, fun _ _ => rfl⟩ rfl hown
        fun no hno => by cases hno
  · cases hstep

/-- A new page is an empty data page beside the others. -/
theorem sameChains_nextPage (h : PagesOk s) (stored : Bool) :
    SameChains s (nextPage s stored) := by
  have hne : ∀ {no}, no ∈ s.handed → no ≠ s.pageCnt + 1 := by
    rintro no hno rfl
    exact h.not_handed hno
  have hdisk : ∀ no, no ≠ s.pageCnt + 1 →
      (nextPage s stored).disk.page no = s.disk.page no := by
    intro no hno
    cases stored with
    | false => rfl
    | true => exact set_page_of_ne _ _ hno
  have hbuffer : (nextPage s stored).buffer = s.buffer := writePage_buffer ..
  refine ⟨?_, ?_, ?_, fun no hno => ?_, fun no hno => hdisk no (hne hno)⟩
  · exact writePage_groups ..
  · exact writePage_chains ..
  · cases stored <;> rfl
  · rw [file_page, file_page, hbuffer, hdisk no (hne hno)]

theorem ChainInv.addPage (h : ChainInv s) (hcnt : s.pageCnt + 1 < pageCntModulus)
    (hstep : addPage stored s w = some t) : ChainInv t := by
  have hown := h.own.addPage hcnt hstep
  unfold Toadb.addPage at hstep
  split at hstep
  · rename_i job got hphase
    split at hstep
    · rw [Option.some.injEq, Nat.mod_eq_of_lt hcnt] at hstep
      have hworkers : (nextPage s stored).workers = s.workers := writePage_workers ..
      have ht : t = (nextPage s stored).setWorker w
          { (nextPage s stored).workers w with
            phase := .extend job (got ++ [s.pageCnt + 1]) } := by
        rw [← hstep, hworkers]
        rfl
      rw [ht] at hown ⊢
      refine h.setPhase (sameChains_nextPage h.own.pages stored) hworkers hown
        fun no hno page hpage => ?_
      rcases has_nextPage hpage with ⟨-, rfl⟩ | hold
      · rfl
      · rcases List.mem_append.mp hno with hgot | hlast
        · exact h.got w no (by rw [hphase]; exact hgot) page hold
        · obtain rfl := List.mem_singleton.mp hlast
          exact absurd (h.own.pages.fresh _ page hold) (by omega)
    · cases hstep
  · cases hstep

theorem ChainInv.updateMetaData (h : ChainInv s)
    (hstep : updateMetaData stored s w = some t) :
    ChainInv t := by
  have hown := h.own.updateMetaData hstep
  unfold Toadb.updateMetaData at hstep
  split at hstep
  · rename_i job got hphase
    have hgot : ∀ no ∈ got, ∀ page, s.Has no page → page.pageType = .data :=
      fun no hno => h.got w no (by rw [hphase]; exact hno)
    split at hstep
    · cases stored with
      | false =>
        cases hstep
        exact h.setPhase (.refl s) rfl hown hgot
      | true =>
        cases hstep
        exact h.setPhase ⟨rfl, rfl, rfl, fun _ _ => rfl, fun _ _ => rfl⟩ rfl hown hgot
    · cases hstep
  · cases hstep

theorem ChainInv.loadLast (h : ChainInv s) (hstep : loadLast s w = some t) : ChainInv t := by
  have hown := h.own.loadLast hstep
  unfold Toadb.loadLast at hstep
  split at hstep
  · rename_i job got hphase
    have hgot : ∀ no ∈ got, ∀ page, s.Has no page → page.pageType = .data :=
      fun no hno => h.got w no (by rw [hphase]; exact hno)
    dsimp only at hstep
    split at hstep
    · cases hstep
      exact h.setPhase (.refl s) rfl hown hgot
    · have hnone : ∀ no ∈ ExtendPhase.ready.got, ∀ page, s.Has no page →
          page.pageType = .data :=
        fun no hno => by cases hno
      cases job with
      | chain firstno pageType =>
        obtain ⟨lock, hlock⟩ := endExtensionTbl_eq s w
        cases hstep
        dsimp only at hown ⊢
        rw [hlock] at hown ⊢
        exact h.setPhase ⟨rfl, rfl, rfl, fun _ _ => rfl, fun _ _ => rfl⟩ rfl hown hnone
      | group num =>
        cases hstep
        exact h.setPhase (.refl s) rfl hown hnone
  · cases hstep

/-! ## Linking a page -/

theorem chain_setChain_self (page : PageDataHeader) (k : PageType) (no : Nat) :
    (page.setChain k no).chain k = no := by
  unfold PageDataHeader.chain PageDataHeader.setChain
  split <;> rfl

theorem chain_setChain_of_ne {k k' : PageType} (hk : IsChain k)
    (hk' : IsChain k') (hne : k ≠ k')
    (page : PageDataHeader) (no : Nat) : (page.setChain k' no).chain k = page.chain k := by
  rcases hk with rfl | rfl <;> rcases hk' with rfl | rfl
  · exact absurd rfl hne
  · rfl
  · rfl
  · exact absurd rfl hne

theorem pageGood_chainHead (pageType : PageType) (firstpage extpage : PageDataHeader)
    {rest : List Nat} (h : firstpage.chain pageType = rest.headD invalidPageNum) :
    PageGood pageType rest (chainHead pageType firstpage extpage) := by
  refine ⟨?_, (chain_setChain_self ..).trans h⟩
  unfold chainHead PageDataHeader.setChain
  split <;> rfl

/-- What `linked` does when the data page reaches the file. -/
structure IsLinked (s : ExtendSys n) (firstno last : Nat) (pageType : PageType)
    (firstpage extpage : PageDataHeader) (t : ExtendSys n) : Prop where
  groups : t.groups = s.groups
  unwritten : t.unwritten = last :: s.unwritten
  chainSelf : t.chains firstno pageType = last :: s.chains firstno pageType
  chainOther : ∀ d k, ¬ (d = firstno ∧ k = pageType) → t.chains d k = s.chains d k
  fileFirst : t.file.page firstno = some (firstpage.setChain pageType extpage.pageNum)
  diskFirst : t.disk.page firstno = some (firstpage.setChain pageType extpage.pageNum)
  fileLast : t.file.page last = some (chainHead pageType firstpage extpage)
  diskLast : t.disk.page last = s.disk.page last
  fileOther : ∀ no, no ≠ firstno → no ≠ last → t.file.page no = s.file.page no
  diskOther : ∀ no, no ≠ firstno → t.disk.page no = s.disk.page no

theorem isLinked (s : ExtendSys n) (firstpage extpage : PageDataHeader) (pageType : PageType)
    (hne : last ≠ firstno) :
    IsLinked s firstno last pageType firstpage extpage
      (linked s firstno last pageType firstpage extpage true) := by
  have hbuffer : ∀ no,
      (linked s firstno last pageType firstpage extpage true).file.page no =
        ((s.setBuffer last (chainHead pageType firstpage extpage)).setBuffer firstno
          (firstpage.setChain pageType extpage.pageNum)).file.page no := by
    intro no
    rw [← chainHead_pageNum pageType firstpage extpage]
    exact writePage_file _ (Function.update_self ..) _ _ no
  refine ⟨rfl, rfl, ?_, fun d k hdk => ?_, ?_, ?_, ?_, ?_, fun no hfirst hlast => ?_,
    fun no hfirst => ?_⟩
  · simp [linked]
  · by_cases hd : d = firstno
    · subst hd
      have hk : k ≠ pageType := fun heq => hdk ⟨rfl, heq⟩
      simp [linked, hk]
    · simp [linked, hd]
  · rw [hbuffer, setBuffer_file_self]
  · rw [← chainHead_pageNum pageType firstpage extpage]
    exact set_page_self ..
  · rw [hbuffer, setBuffer_file_of_ne _ _ hne, setBuffer_file_self]
  · exact set_page_of_ne _ _ hne
  · rw [hbuffer, setBuffer_file_of_ne _ _ hfirst, setBuffer_file_of_ne _ _ hlast]
  · exact set_page_of_ne _ _ hfirst

/-- A page that has no buffer of its own is not changed. -/
theorem IsLinked.has (h : IsLinked s firstno last pageType firstpage extpage t)
    (hfirst : no ≠ firstno) (hlast : no ≠ last) (hpage : t.Has no page) : s.Has no page := by
  rw [ExtendSys.Has, h.fileOther no hfirst hlast, h.diskOther no hfirst] at hpage
  exact hpage

/-- A page of a chain is one of the chain as it was, or the new one. -/
theorem IsLinked.mem (h : IsLinked s firstno last pageType firstpage extpage t) {d : Nat}
    {k : PageType} :
    no ∈ t.chains d k ↔ no ∈ s.chains d k ∨ no = last ∧ d = firstno ∧ k = pageType := by
  by_cases hdk : d = firstno ∧ k = pageType
  · obtain ⟨rfl, rfl⟩ := hdk
    simp [h.chainSelf, or_comm]
  · rw [h.chainOther d k hdk]
    simp [hdk]

/-- The same, with the pages that follow. -/
theorem IsLinked.split (h : IsLinked s firstno last pageType firstpage extpage t) {d c : Nat}
    {k : PageType} {before rest : List Nat} (hc : t.chains d k = before ++ c :: rest) :
    c = last ∧ d = firstno ∧ k = pageType ∧ rest = s.chains firstno pageType ∨
      ∃ before', s.chains d k = before' ++ c :: rest := by
  by_cases hdk : d = firstno ∧ k = pageType
  · obtain ⟨rfl, rfl⟩ := hdk
    rw [h.chainSelf] at hc
    cases before with
    | nil =>
      obtain ⟨rfl, rfl⟩ := List.cons.inj hc
      exact .inl ⟨rfl, rfl, rfl, rfl⟩
    | cons _ before' => exact .inr ⟨before', (List.cons.inj hc).2⟩
  · rw [h.chainOther d k hdk] at hc
    exact .inr ⟨before, hc⟩

theorem ChainPages.linked (h : ChainPages s) (hown : PagesOk s)
    (hl : IsLinked s firstno last pageType firstpage extpage t)
    (hfirst : firstno ∈ s.groups.flatten) (hkind : IsChain pageType) (hlast : InHand s last)
    (hfirstpage : s.Has firstno firstpage) (hnum : extpage.pageNum = last)
    (hdata : ∀ page, s.Has last page → page.pageType = .data) : ChainPages t := by
  have hdata_ne : ∀ {d}, d ∈ s.groups.flatten → d ≠ last :=
    fun hd heq => hlast.ungrouped (heq ▸ hd)
  have hchain_ne : ∀ {d k c}, c ∈ s.chains d k → c ≠ firstno ∧ c ≠ last ∧ d ≠ last := by
    intro d k c hc
    refine ⟨?_, ?_, ?_⟩
    · rintro rfl
      exact (hown.groups c hfirst).2 d k hc
    · rintro rfl
      exact hlast.unlinked d k hc
    · rintro rfl
      rw [hlast.noChain k] at hc
      cases hc
  refine ⟨fun d k no hno => ?_, fun d k page hd hk hpage => ?_, fun d k no hno => ?_,
    fun d k before c rest hc hwritten => ?_, fun d k c page hc hunwritten hpage => ?_,
    fun d k before c rest page hc hunwritten hpage htype => ?_, fun c hc => ?_⟩
  · rw [hl.groups]
    rcases hl.mem.mp hno with hold | ⟨-, rfl, rfl⟩
    · exact h.members d k no hold
    · exact ⟨hfirst, hkind⟩
  · rw [hl.groups] at hd
    by_cases heq : d = firstno
    · subst heq
      have hpage' : page = firstpage.setChain pageType extpage.pageNum := by
        rw [ExtendSys.Has, hl.fileFirst, hl.diskFirst] at hpage
        exact (Option.some.inj (hpage.elim id id)).symm
      rw [hpage']
      by_cases hk' : k = pageType
      · subst hk'
        rw [chain_setChain_self, hl.chainSelf, hnum]
        rfl
      · rw [chain_setChain_of_ne hk hkind hk', hl.chainOther d k fun hdk => hk' hdk.2]
        exact h.first d k firstpage hd hk hfirstpage
    · rw [hl.chainOther d k fun hdk => heq hdk.1]
      exact h.first d k page hd hk (hl.has heq (hdata_ne hd) hpage)
  · by_cases heq : d = firstno
    · subst heq
      exact ⟨_, hl.diskFirst⟩
    · rcases hl.mem.mp hno with hold | ⟨-, rfl, -⟩
      · rw [hl.diskOther d heq]
        exact h.firstThere d k no hold
      · exact absurd rfl heq
  · rw [hl.unwritten, List.mem_cons, not_or] at hwritten
    rcases hl.split hc with ⟨rfl, -⟩ | ⟨before', hold⟩
    · exact absurd rfl hwritten.1
    · obtain ⟨hcfirst, hclast, -⟩ := hchain_ne (show c ∈ s.chains d k by simp [hold])
      obtain ⟨hthere, hgood⟩ := h.written d k before' c rest hold hwritten.2
      rw [hl.diskOther c hcfirst]
      exact ⟨hthere, fun page hpage => hgood page (hl.has hcfirst hclast hpage)⟩
  · rcases hl.mem.mp hc with hold | ⟨rfl, -⟩
    · obtain ⟨hcfirst, hclast, -⟩ := hchain_ne hold
      rw [hl.unwritten, List.mem_cons] at hunwritten
      rw [hl.diskOther c hcfirst] at hpage
      exact h.onDisk d k c page hold (hunwritten.resolve_left hclast) hpage
    · rw [hl.diskLast] at hpage
      exact hdata page (.inr hpage)
  · rcases hl.split hc with ⟨rfl, rfl, rfl, rfl⟩ | ⟨before', hold⟩
    · rw [hl.fileLast, Option.some.injEq] at hpage
      subst hpage
      exact pageGood_chainHead _ _ _ (h.first _ _ _ hfirst hkind hfirstpage)
    · obtain ⟨hcfirst, hclast, -⟩ := hchain_ne (show c ∈ s.chains d k by simp [hold])
      rw [hl.unwritten, List.mem_cons] at hunwritten
      rw [hl.fileOther c hcfirst hclast] at hpage
      exact h.inBuffer d k before' c rest page hold
        (hunwritten.resolve_left hclast) hpage htype
  · rw [hl.unwritten, List.mem_cons] at hc
    rcases hc with rfl | hold
    · exact ⟨firstno, pageType, hl.mem.mpr (.inr ⟨rfl, rfl, rfl⟩)⟩
    · obtain ⟨d, k, hmem⟩ := h.unwritten c hold
      exact ⟨d, k, hl.mem.mpr (.inl hmem)⟩

theorem ChainInv.linkPage (h : ChainInv s)
    (hstep : linkPage true s w = some t) : ChainInv t := by
  have hown := h.own.linkPage hstep
  unfold Toadb.linkPage at hstep
  split at hstep
  · rename_i firstno pageType got last hphase
    have hok := h.own.phase w
    rw [hphase] at hok
    obtain ⟨⟨hfirst, hkind⟩, hgot, hlength, hlast⟩ := hok
    have hpos : got ≠ [] := fun hnil => by
      rw [hnil] at hlength
      cases hlength
    have hmem : last ∈ got := hlast ▸ hgot.mem_last hpos
    have hin : InHand s last := hgot.inHand last hmem
    have hne : last ≠ firstno := fun heq => hin.ungrouped (heq ▸ hfirst)
    split at hstep
    · rename_i firstpage extpage hfirstpage hextpage
      have hl := isLinked s firstpage extpage pageType hne
      have hworkers := linked_workers s firstno last pageType firstpage extpage true
      have hpages := h.pages.linked h.own.pages hl hfirst hkind hin (.inl hfirstpage)
        (h.own.pages.num _ _ (.inl hextpage)) (h.got w last (by rw [hphase]; exact hmem))
      obtain ⟨lock, hlock⟩ := endExtensionTbl_eq
        (linked s firstno last pageType firstpage extpage true) w
      rw [Option.some.injEq, hlock] at hstep
      -- The page of a worker is one it had before, or the new page.
      have hhand : ∀ w' no, no ∈ (t.workers w').hand →
          no ∈ (s.workers w').hand ∨ no = last := by
        intro w' no hno
        rw [← hstep] at hno
        by_cases hw : w' = w
        · subst hw
          rw [setWorker_workers_self] at hno
          exact (List.mem_cons.mp hno).symm
        · rw [setWorker_workers_of_ne _ _ hw] at hno
          dsimp only at hno
          rw [hworkers] at hno
          exact .inl hno
      rw [← hstep]
      rw [← hstep] at hown hhand
      refine ⟨hown,
        ⟨hpages.members, hpages.first, hpages.firstThere, hpages.written, hpages.onDisk,
        hpages.inBuffer, hpages.unwritten⟩, fun w' no hno => ?_, fun w' no hno => ?_,
        fun w' no hno d k hmem' => ?_⟩
      · by_cases hw : w' = w
        · subst hw
          rw [setWorker_workers_self] at hno
          cases hno
        · rw [setWorker_workers_of_ne _ _ hw] at hno
          dsimp only at hno
          rw [hworkers, h.own.others_ready (by simp [hphase]) hw] at hno
          cases hno
      · rcases hhand w' no hno with hold | rfl
        · refine (h.hand w' no hold).imp_right ?_
          rintro ⟨d, k, hmem'⟩
          exact ⟨d, k, hl.mem.mpr (.inl hmem')⟩
        · exact .inr ⟨firstno, pageType, hl.mem.mpr (.inr ⟨rfl, rfl, rfl⟩)⟩
      · by_cases hnew : no = last
        · subst hnew
          refine ⟨_, hl.fileLast, ?_⟩
          have hgood := pageGood_chainHead pageType firstpage extpage
            (h.pages.first _ _ _ hfirst hkind (.inl hfirstpage))
          rw [hgood.pageType]
          exact IsChain.ne_data hkind
        · have hmem'' := (hl.mem.mp hmem').resolve_right fun hlast => hnew hlast.1
          have hfirstno : no ≠ firstno := by
            rintro rfl
            exact (h.own.pages.groups no hfirst).2 d k hmem''
          obtain ⟨page, hpage, htype⟩ :=
            h.handPage w' no ((hhand w' no hno).resolve_right hnew) d k hmem''
          exact ⟨page, (hl.fileOther no hfirstno hnew).trans hpage, htype⟩
    · cases hstep
  · cases hstep

/-! ## Recording a group -/

theorem ChainPages.record (h : ChainPages s) {got : List Nat}
    (hin : ∀ no ∈ got, InHand s no) :
    ChainPages { s with groups := s.groups ++ [got] } := by
  have hflatten : (s.groups ++ [got]).flatten = s.groups.flatten ++ got := by simp
  refine ⟨fun d k no hno => ?_, fun d k page hd hk hpage => ?_, h.firstThere,
    h.written, h.onDisk,
    h.inBuffer, h.unwritten⟩
  · obtain ⟨hd, hk⟩ := h.members d k no hno
    refine ⟨?_, hk⟩
    rw [hflatten]
    exact List.mem_append_left got hd
  · rw [hflatten] at hd
    rcases List.mem_append.mp hd with hold | hnew
    · exact h.first d k page hold hk hpage
    · obtain ⟨hundo, hext⟩ := (hin d hnew).blank page hpage
      dsimp only
      rw [(hin d hnew).noChain k]
      rcases hk with rfl | rfl
      · exact hundo
      · exact hext

theorem ChainInv.insertGroupItem (h : ChainInv s) (hstep : insertGroupItem s w = some t) :
    ChainInv t := by
  have hown := h.own.insertGroupItem hstep
  unfold Toadb.insertGroupItem at hstep
  split at hstep
  · rename_i num got last hphase
    have hok := h.own.phase w
    rw [hphase] at hok
    obtain ⟨hjob, hgot, hlength, rfl⟩ := hok
    have hpos : got ≠ [] := fun hnil => by
      rw [hnil] at hlength
      exact absurd hlength.symm (Nat.ne_of_gt hjob.num_pos)
    split at hstep
    · rename_i lastpage hlastpage
      have hmembers :=
        hgot.groupMembers (h.own.pages.num _ _ (.inl hlastpage)) h.own.pages hpos
      rw [show got.length = num from hlength] at hmembers
      rw [hmembers] at hstep
      obtain ⟨lock, hlock⟩ :=
        endExtensionTbl_eq ({ s with groups := s.groups ++ [got] } : ExtendSys n) w
      have hpages := h.pages.record hgot.inHand
      dsimp only at hstep
      rw [Option.some.injEq, hlock] at hstep
      have hhand : ∀ w', (t.workers w').hand = (s.workers w').hand := by
        intro w'
        rw [← hstep]
        by_cases hw : w' = w
        · subst hw
          rw [setWorker_workers_self]
        · rw [setWorker_workers_of_ne _ _ hw]
      rw [← hstep] at hown hhand ⊢
      refine ⟨hown,
        ⟨hpages.members, hpages.first, hpages.firstThere, hpages.written, hpages.onDisk,
        hpages.inBuffer, hpages.unwritten⟩, fun w' no hno => ?_, fun w' no hno => ?_,
        fun w' no hno => ?_⟩
      · by_cases hw : w' = w
        · subst hw
          rw [setWorker_workers_self] at hno
          cases hno
        · rw [setWorker_workers_of_ne _ _ hw] at hno
          exact h.got w' no hno
      · rw [hhand] at hno
        refine (h.hand w' no hno).imp_left fun hold => ?_
        show no ∈ (s.groups ++ [got]).flatten
        rw [List.flatten_append]
        exact List.mem_append_left _ hold
      · rw [hhand] at hno
        exact h.handPage w' no hno
    · cases hstep
  · cases hstep

/-! ## Working with pages -/

/-- A worker takes a page. -/
theorem ChainInv.takeHand (h : ChainInv s)
    (hno : no ∈ s.groups.flatten ∨ ∃ d k, no ∈ s.chains d k)
    (hpage : ∀ d k, no ∈ s.chains d k →
      ∃ page, s.file.page no = some page ∧ page.pageType ≠ .data) :
    ChainInv (s.setWorker w { s.workers w with hand := no :: (s.workers w).hand }) := by
  have hhand : ∀ w' no', no' ∈ ((s.setWorker w
      { s.workers w with hand := no :: (s.workers w).hand }).workers w').hand →
      no' ∈ (s.workers w').hand ∨ no' = no := by
    intro w' no' hno'
    by_cases hw : w' = w
    · subst hw
      rw [setWorker_workers_self] at hno'
      exact (List.mem_cons.mp hno').symm
    · rw [setWorker_workers_of_ne _ _ hw] at hno'
      exact .inl hno'
  refine ⟨h.own.setHand _,
    ⟨h.pages.members, h.pages.first, h.pages.firstThere, h.pages.written,
    h.pages.onDisk, h.pages.inBuffer, h.pages.unwritten⟩, fun w' no' hno' => ?_,
    fun w' no' hno' => ?_, fun w' no' hno' d k hmem => ?_⟩
  · refine h.got w' no' ?_
    by_cases hw : w' = w
    · subst hw
      rwa [setWorker_workers_self] at hno'
    · rwa [setWorker_workers_of_ne _ _ hw] at hno'
  · rcases hhand w' no' hno' with hold | rfl
    · exact h.hand w' no' hold
    · exact hno
  · rcases hhand w' no' hno' with hold | rfl
    · exact h.handPage w' no' hold d k hmem
    · exact hpage d k hmem

theorem ChainInv.takePage (h : ChainInv s)
    (hstep : takePage no s w = some t) : ChainInv t := by
  unfold Toadb.takePage at hstep
  split at hstep
  · split at hstep
    · rename_i hgroup
      rw [List.contains_iff_mem] at hgroup
      cases hstep
      exact h.takeHand (.inl hgroup) fun d k hmem =>
        absurd hmem ((h.own.pages.groups no hgroup).2 d k)
    · cases hstep
  · cases hstep

theorem ChainInv.findSpace (h : ChainInv s)
    (hstep : findSpace firstno pageType s w = some t) :
    ChainInv t := by
  unfold Toadb.findSpace at hstep
  split at hstep
  · rename_i firstpage hfirstpage
    dsimp only at hstep
    split at hstep
    · rename_i page hpage
      split at hstep
      · rename_i hfound
        obtain ⟨hfirst, hkind, htype⟩ := hfound
        rw [List.contains_iff_mem] at hfirst
        cases hstep
        unfold getPageByIndex at hpage
        split at hpage
        · cases hpage
        · rename_i hvalid
          have hhead :=
            h.pages.first firstno pageType firstpage hfirst hkind (.inl hfirstpage)
          refine h.takeHand (.inr ⟨firstno, pageType, ?_⟩) fun d k hmem => ⟨page, hpage, ?_⟩
          · cases hchain : s.chains firstno pageType with
            | nil =>
              rw [hchain] at hhead
              exact absurd hhead hvalid
            | cons c rest =>
              rw [hchain] at hhead
              rw [hhead]
              exact List.mem_cons_self
          · rw [htype]
            exact IsChain.ne_data hkind
      · cases hstep
    · cases hstep
  · cases hstep

/-- What `writeRow` does with page `no`. -/
structure IsWritten (s : ExtendSys n) (no : Nat) (page new : PageDataHeader) (stored : Bool)
    (t : ExtendSys n) : Prop where
  groups : t.groups = s.groups
  chains : t.chains = s.chains
  workers : t.workers = s.workers
  unwritten : ∀ c, c ∈ t.unwritten ↔ c ∈ s.unwritten ∧ ¬ (stored = true ∧ c = no)
  old : s.file.page no = some page
  same : SameHeader page new
  file : t.file.page no = some new
  disk : t.disk.page no = if stored then some new else s.disk.page no
  fileOther : ∀ no', no' ≠ no → t.file.page no' = s.file.page no'
  diskOther : ∀ no', no' ≠ no → t.disk.page no' = s.disk.page no'

theorem writeRow_cases {row : RowWrite} (hstep : writeRow no row stored s w = some t) :
    no ∈ (s.workers w).hand ∧
      ∃ page, IsWritten s no page (row.apply page) stored t := by
  unfold writeRow at hstep
  split at hstep
  · rename_i page hpage
    split at hstep
    · rename_i hhand
      refine ⟨List.contains_iff_mem.mp hhand, page, ?_⟩
      rw [Option.some.injEq] at hstep
      have hbuffer : ∀ no', t.file.page no' =
          (s.setBuffer no (row.apply page)).file.page no' := by
        intro no'
        rw [← hstep]
        exact writePage_file _ (Function.update_self ..) _ _ no'
      refine ⟨?_, ?_, ?_, fun c => ?_, hpage, row.sameHeader page, ?_, ?_, fun no' hne => ?_,
        fun no' hne => ?_⟩
      · rw [← hstep]
        exact writePage_groups ..
      · rw [← hstep]
        exact writePage_chains ..
      · rw [← hstep]
        exact writePage_workers ..
      · rw [← hstep]
        have hunwritten : (s.setBuffer no (row.apply page)).unwritten = s.unwritten := rfl
        cases stored <;> simp [hunwritten]
      · rw [hbuffer, setBuffer_file_self]
      · rw [← hstep]
        cases stored with
        | false => rfl
        | true => exact set_page_self ..
      · rw [hbuffer, setBuffer_file_of_ne _ _ hne]
      · rw [← hstep]
        cases stored with
        | false => rfl
        | true => exact set_page_of_ne _ _ hne
    · cases hstep
  · cases hstep

variable {new : PageDataHeader}

/-- Every page has the header it had. -/
theorem IsWritten.has (h : IsWritten s no page new stored t) {c : Nat}
    {page' : PageDataHeader}
    (hpage : t.Has c page') : ∃ page₀, s.Has c page₀ ∧ SameHeader page₀ page' := by
  by_cases hc : c = no
  · subst hc
    rw [ExtendSys.Has, h.file, h.disk] at hpage
    cases stored with
    | false =>
      rcases hpage with hnew | hold
      · cases hnew
        exact ⟨page, .inl h.old, h.same⟩
      · exact ⟨page', .inr hold, .refl page'⟩
    | true =>
      cases hpage.elim id id
      exact ⟨page, .inl h.old, h.same⟩
  · rw [ExtendSys.Has, h.fileOther c hc, h.diskOther c hc] at hpage
    exact ⟨page', hpage, .refl page'⟩

/-- A page that is written with the right header has it in the file, too. -/
theorem ChainPages.written_row (h : ChainPages s) (hw : IsWritten s no page new stored t)
    (hdata : ∀ d k, no ∈ s.chains d k → page.pageType ≠ .data) : ChainPages t := by
  have hthere : ∀ c, (∃ page, s.disk.page c = some page) → ∃ page,
      t.disk.page c = some page := by
    intro c hc
    by_cases heq : c = no
    · subst heq
      rw [hw.disk]
      cases stored with
      | false => exact hc
      | true => exact ⟨new, rfl⟩
    · rwa [hw.diskOther c heq]
  refine ⟨?_, fun d k page' hd hk hpage => ?_, fun d k c hc => ?_,
    fun d k before c rest hc hwritten => ?_, fun d k c page' hc hunwritten hpage => ?_,
    fun d k before c rest page' hc hunwritten hpage htype => ?_, fun c hc => ?_⟩
  · rw [hw.chains, hw.groups]
    exact h.members
  · obtain ⟨page₀, hpage₀, hsame⟩ := hw.has hpage
    rw [hw.groups] at hd
    rw [hsame.chain k, hw.chains]
    exact h.first d k page₀ hd hk hpage₀
  · rw [hw.chains] at hc
    exact hthere d (h.firstThere d k c hc)
  · rw [hw.chains] at hc
    by_cases hold : c ∈ s.unwritten
    · -- The page was in its buffer only; now it is in the file.
      have hnow : stored = true ∧ c = no := by
        by_contra hnot
        exact hwritten ((hw.unwritten c).mpr ⟨hold, hnot⟩)
      obtain ⟨rfl, rfl⟩ := hnow
      have hgood := h.inBuffer d k before c rest page hc hold hw.old
        (hdata d k (by simp [hc]))
      have hdisk : t.disk.page c = some new := hw.disk
      refine ⟨⟨new, hdisk⟩, fun page' hpage => ?_⟩
      rw [ExtendSys.Has, hw.file, hdisk] at hpage
      cases hpage.elim id id
      exact hw.same.pageGood hgood
    · obtain ⟨hdisk, hgood⟩ := h.written d k before c rest hc hold
      refine ⟨hthere c hdisk, fun page' hpage => ?_⟩
      obtain ⟨page₀, hpage₀, hsame⟩ := hw.has hpage
      exact hsame.pageGood (hgood page₀ hpage₀)
  · rw [hw.chains] at hc
    obtain ⟨hold, hnot⟩ := (hw.unwritten c).mp hunwritten
    refine h.onDisk d k c page' hc hold ?_
    by_cases heq : c = no
    · subst heq
      cases stored with
      | false =>
        rw [hw.disk] at hpage
        exact hpage
      | true => exact absurd ⟨rfl, rfl⟩ hnot
    · rwa [hw.diskOther c heq] at hpage
  · rw [hw.chains] at hc
    obtain ⟨hold, -⟩ := (hw.unwritten c).mp hunwritten
    by_cases heq : c = no
    · subst heq
      rw [hw.file, Option.some.injEq] at hpage
      subst hpage
      rw [hw.same.pageType] at htype
      exact hw.same.pageGood (h.inBuffer d k before c rest page hc hold hw.old htype)
    · rw [hw.fileOther c heq] at hpage
      exact h.inBuffer d k before c rest page' hc hold hpage htype
  · rw [hw.chains]
    exact h.unwritten c ((hw.unwritten c).mp hc).1

theorem ChainInv.writeRow {row : RowWrite} (h : ChainInv s)
    (hstep : writeRow no row stored s w = some t) : ChainInv t := by
  have hown := h.own.writeRow hstep
  obtain ⟨hhand, page, hw⟩ := writeRow_cases hstep
  have hdata : ∀ d k, no ∈ s.chains d k → page.pageType ≠ .data := by
    intro d k hmem
    obtain ⟨page', hpage, htype⟩ := h.handPage w no hhand d k hmem
    rw [hw.old, Option.some.injEq] at hpage
    rwa [hpage]
  refine ⟨hown, h.pages.written_row hw hdata, fun w' no' hno page' hpage => ?_,
    fun w' no' hno => ?_,
    fun w' no' hno d k hmem => ?_⟩
  · obtain ⟨page₀, hpage₀, hsame⟩ := hw.has hpage
    rw [hw.workers] at hno
    rw [hsame.pageType]
    exact h.got w' no' hno page₀ hpage₀
  · rw [hw.workers] at hno
    rw [hw.groups, hw.chains]
    exact h.hand w' no' hno
  · rw [hw.workers] at hno
    rw [hw.chains] at hmem
    by_cases heq : no' = no
    · subst heq
      refine ⟨_, hw.file, ?_⟩
      rw [hw.same.pageType]
      exact hdata d k hmem
    · rw [hw.fileOther no' heq]
      exact h.handPage w' no' hno d k hmem

theorem ChainInv.releaseHand (h : ChainInv s) : ChainInv (releaseHand s w) := by
  have hhand : ∀ w' no', no' ∈ ((Toadb.releaseHand s w).workers w').hand →
      no' ∈ (s.workers w').hand := by
    intro w' no' hno'
    unfold Toadb.releaseHand at hno'
    by_cases hw : w' = w
    · subst hw
      rw [setWorker_workers_self] at hno'
      cases hno'
    · rwa [setWorker_workers_of_ne _ _ hw] at hno'
  refine ⟨h.own.setHand _,
    ⟨h.pages.members, h.pages.first, h.pages.firstThere, h.pages.written,
    h.pages.onDisk, h.pages.inBuffer, h.pages.unwritten⟩, fun w' no' hno' => ?_,
    fun w' no' hno' => h.hand w' no' (hhand w' no' hno'),
    fun w' no' hno' => h.handPage w' no' (hhand w' no' hno')⟩
  refine h.got w' no' ?_
  unfold Toadb.releaseHand at hno'
  by_cases hw : w' = w
  · subst hw
    rwa [setWorker_workers_self] at hno'
  · rwa [setWorker_workers_of_ne _ _ hw] at hno'

/-! ## Dropping buffers -/

/-- Buffers are dropped, and the pages are what they are in the file. -/
theorem ChainPages.dropBuffers (h : ChainPages s) (hgroups : t.groups = s.groups)
    (hchains : t.chains = s.chains) (hunwritten : t.unwritten = s.unwritten)
    (hdisk : t.disk.page = s.disk.page)
    (hfile : ∀ no, t.file.page no = s.file.page no ∨ t.file.page no = s.disk.page no) :
    ChainPages t := by
  have hhas : ∀ no page, t.Has no page → s.Has no page := by
    intro no page hpage
    rw [ExtendSys.Has, hdisk] at hpage
    rcases hpage with hbuffer | hdisk
    · rcases hfile no with hsame | hdropped
      · exact .inl (hsame ▸ hbuffer)
      · exact .inr (hdropped ▸ hbuffer)
    · exact .inr hdisk
  refine ⟨?_, fun d k page hd hk hpage => ?_, ?_, fun d k before c rest hc hwritten => ?_, ?_,
    fun d k before c rest page hc hunw hpage htype => ?_, ?_⟩
  · rw [hchains, hgroups]
    exact h.members
  · rw [hgroups] at hd
    rw [hchains]
    exact h.first d k page hd hk (hhas d page hpage)
  · rw [hchains, hdisk]
    exact h.firstThere
  · rw [hchains] at hc
    rw [hunwritten] at hwritten
    obtain ⟨hthere, hgood⟩ := h.written d k before c rest hc hwritten
    rw [hdisk]
    exact ⟨hthere, fun page hpage => hgood page (hhas c page hpage)⟩
  · rw [hchains, hunwritten, hdisk]
    exact h.onDisk
  · rw [hchains] at hc
    rw [hunwritten] at hunw
    rcases hfile c with hsame | hdropped
    · exact h.inBuffer d k before c rest page hc hunw (hsame ▸ hpage) htype
    · -- What comes back from the file is an empty data page.
      exact absurd (h.onDisk d k c page (by simp [hc]) hunw (hdropped ▸ hpage)) htype
  · rw [hchains, hunwritten]
    exact h.unwritten

theorem ChainInv.evictPage (h : ChainInv s)
    (hstep : evictPage no s = some t) : ChainInv t := by
  have hown := h.own.evictPage hstep
  unfold Toadb.evictPage at hstep
  split at hstep
  · rename_i hpins
    cases hstep
    have hne : ∀ no', no' ≠ no →
        ({ s with buffer := Function.update s.buffer no none } : ExtendSys n).file.page no' =
          s.file.page no' := by
      intro no' hno
      rw [file_page, file_page]
      dsimp only
      rw [Function.update_of_ne hno]
    refine ⟨hown, h.pages.dropBuffers rfl rfl rfl rfl fun no' => ?_,
      fun w no' hno page hpage => ?_,
      h.hand, fun w no' hno d k hmem => ?_⟩
    · by_cases hno : no' = no
      · subst hno
        refine .inr ?_
        rw [file_page]
        dsimp only
        rw [Function.update_self, Option.none_or]
      · exact .inl (hne no' hno)
    · refine h.got w no' hno page (has_dropBuffer (fun no'' page' hpage' => ?_) hpage)
      by_cases heq : no'' = no
      · subst heq
        rw [Function.update_self] at hpage'
        cases hpage'
      · rwa [Function.update_of_ne heq] at hpage'
    · have hno' : no' ≠ no := by
        rintro rfl
        exact hpins w (List.mem_append_left _ hno)
      rw [hne no' hno']
      exact h.handPage w no' hno d k hmem
  · cases hstep

theorem ChainInv.restart (h : ChainInv s) (hcnt : s.disk.pageCnt = s.pageCnt)
    (hstep : restart s.groups s = some t) : ChainInv t := by
  have hown := h.own.restart hcnt hstep
  unfold Toadb.restart at hstep
  split at hstep
  · cases hstep
    refine ⟨hown, h.pages.dropBuffers rfl rfl rfl rfl fun no => .inr rfl,
      fun _ no hno => ?_, fun _ no hno => ?_, fun _ no hno => ?_⟩
    all_goals cases hno
  · cases hstep

/-! ## A run -/

/-- The condition on a step: that of `StepCounted`, the data page a page is linked to reaches
the file, and a restart finds all groups. -/
def StepChained (s : ExtendSys n) (a : Fin n × ExtendCall) : Prop :=
  StepCounted s a ∧
    match a.2 with
    | .linkPage stored => stored = true
    | .restart kept => kept = s.groups
    | _ => True

instance (s : ExtendSys n) (a : Fin n × ExtendCall) : Decidable (StepChained s a) := by
  obtain ⟨w, call⟩ := a
  delta StepChained
  cases call <;> infer_instance

/-- Every step keeps the invariant. -/
theorem ChainInv.step {a : Fin n × ExtendCall} (h : ChainInv s) (hok : StepChained s a)
    (hstep : extendStep s a = some t) : ChainInv t := by
  obtain ⟨w, call⟩ := a
  obtain ⟨hcounted, hchained⟩ := hok
  cases call with
  | start job locks =>
    obtain ⟨hready, hstart⟩ := whenReady_eq_some.mp hstep
    exact h.startExtend hcounted hready hstart
  | addPage stored => exact h.addPage hcounted hstep
  | updateMetaData stored => exact h.updateMetaData hstep
  | loadLast => exact h.loadLast hstep
  | linkPage stored =>
    obtain rfl : stored = true := hchained
    exact h.linkPage hstep
  | insertGroupItem => exact h.insertGroupItem hstep
  | takePage no => exact h.takePage (whenReady_eq_some.mp hstep).2
  | findSpace firstno pageType => exact h.findSpace (whenReady_eq_some.mp hstep).2
  | writeRow no row stored => exact h.writeRow (whenReady_eq_some.mp hstep).2
  | releaseHand =>
    cases (whenReady_eq_some.mp hstep).2
    exact h.releaseHand
  | evictPage no => exact h.evictPage hstep
  | restart kept =>
    obtain rfl : kept = s.groups := hchained
    exact h.restart hcounted hstep

theorem chainInv_createTable (n : Nat) : ChainInv (createTable n) := by
  refine ⟨ownInv_createTable n, ⟨?_, ?_, ?_, ?_, ?_, ?_, ?_⟩, ?_, ?_, ?_⟩
  all_goals simp [createTable, ExtendPhase.got]

/-! ## The result -/

/-- The pages that are reached from the data pages in the file have the right types, and are
all pages that were linked. -/
structure ChainsOnDisk (s : ExtendSys n) : Prop where
  types : ∀ d k no, d ∈ s.groups.flatten → IsChain k →
    Relation.TransGen (Links s.disk k) d no → ∃ page,
      s.disk.page no = some page ∧ page.pageType = k
  complete : ∀ d k no, no ∈ s.chains d k → Relation.TransGen (Links s.disk k) d no

/-- With every page written, the chain in the file is the chain that was linked. -/
theorem ChainInv.reach (h : ChainInv s) (hwritten : s.unwritten = []) {d : Nat} {k : PageType}
    {before rest : List Nat} {c : Nat} (hc : s.chains d k = before ++ c :: rest) :
    Relation.TransGen (Links s.disk k) d c := by
  have hvalid : ∀ c ∈ s.chains d k, c ≠ invalidPageNum := by
    intro c hmem
    exact Nat.ne_of_gt (Nat.lt_of_succ_lt
      (h.own.pages.bounds c (h.own.pages.chained d k c hmem).1).1)
  have hmem : c ∈ s.chains d k := by simp [hc]
  induction before using List.reverseRec generalizing c rest with
  | nil =>
    obtain ⟨hd, hk⟩ := h.pages.members d k c hmem
    obtain ⟨page, hpage⟩ := h.pages.firstThere d k c hmem
    have hfirst := h.pages.first d k page hd hk (.inr hpage)
    rw [hc] at hfirst
    exact .single ⟨hvalid c hmem, page, hpage, hfirst⟩
  | append_singleton before b ih =>
    have hb : s.chains d k = before ++ b :: c :: rest := by rw [hc, List.append_assoc]; rfl
    obtain ⟨⟨page, hpage⟩, hgood⟩ :=
      h.pages.written d k before b (c :: rest) hb (by simp [hwritten])
    exact .tail (ih hb (by simp [hb]))
      ⟨hvalid c hmem, page, hpage, (hgood page (.inr hpage)).next⟩

theorem ChainInv.chainsOnDisk_iff (h : ChainInv s) : ChainsOnDisk s ↔ s.unwritten = [] := by
  constructor
  · intro hchains
    refine List.eq_nil_iff_forall_not_mem.mpr fun c hc => ?_
    obtain ⟨d, k, hmem⟩ := h.pages.unwritten c hc
    obtain ⟨hd, hk⟩ := h.pages.members d k c hmem
    obtain ⟨page, hpage, htype⟩ := hchains.types d k c hd hk (hchains.complete d k c hmem)
    exact hk.ne_data (htype.symm.trans (h.pages.onDisk d k c page hmem hc hpage))
  · intro hwritten
    refine ⟨fun d k no hd hk hreach => ?_, fun d k no hno => ?_⟩
    · have hmem := h.own.pages.mem_chains (fun _ _ hpage => .inr hpage) hk hd hreach
      obtain ⟨before, rest, hc⟩ := List.append_of_mem hmem
      obtain ⟨⟨page, hpage⟩, hgood⟩ :=
        h.pages.written d k before no rest hc (by simp [hwritten])
      exact ⟨page, hpage, (hgood page (.inr hpage)).pageType⟩
    · obtain ⟨before, rest, hc⟩ := List.append_of_mem hno
      exact h.reach hwritten hc

/-- In every state of every run the chains in the file are right if and only if each page that
was linked was written since. -/
theorem chains_onDisk_iff {acts : List (Fin n × ExtendCall)}
    (hok : Along extendStep StepChained (createTable n) acts)
    (hrun : run extendStep (createTable n) acts = some s) :
    ChainsOnDisk s ↔ s.unwritten = [] :=
  (run_invariant (fun h hok hstep => ChainInv.step h hok hstep) (chainInv_createTable n) hok
    hrun).chainsOnDisk_iff

/-- A worker adds undo page `no` to a data page and writes an old version to it. -/
def addUndoVersion (w : Fin n) (firstno no : Nat) : List (Fin n × ExtendCall) :=
  [(w, .start (.chain firstno .undo) 0), (w, .addPage true),
    (w, .updateMetaData true), (w, .loadLast),
    (w, .linkPage true), (w, .writeRow no (.append (.new 0 [1])) true), (w, .releaseHand)]

/-- Two undo pages that are written, dropped and read again. -/
theorem chains_onDisk_written : ∃ s : ExtendSys 2,
    s.chains 2 .undo = [4, 3] ∧ (ChainsOnDisk s ↔ s.unwritten = []) ∧ ChainsOnDisk s := by
  let acts : List (Fin 2 × ExtendCall) :=
    addGroup 0 1 true ++ addUndoVersion 0 2 3 ++ addUndoVersion 1 2 4 ++
      [(0, .evictPage 3), (0, .evictPage 4)]
  have hrun : run extendStep (createTable 2) acts =
      some (exec extendStep (createTable 2) acts) :=
    run_exec (by decide)
  have hchains := chains_onDisk_iff (by decide) hrun
  exact ⟨_, by decide, hchains, hchains.mpr (by decide)⟩

/-- An update that links undo page 4 and then finds a conflict writes nothing to it. When its
buffer is dropped, the old version on page 3 is lost. -/
theorem chains_onDisk_lost : ∃ s : ExtendSys 1,
    run extendStep (createTable 1)
      (addGroup 0 1 true ++ addUndoVersion 0 2 3 ++ addUndoPage 0 2 ++
      [(0, .evictPage 4)]) = some s ∧
    s.chains 2 .undo = [4, 3] ∧ Links s.disk .undo 2 4 ∧
    (s.disk.page 4).map (·.pageType) = some .data ∧
    ¬ Relation.TransGen (Links s.file .undo) 2 3 ∧ ¬ ChainsOnDisk s := by
  let acts : List (Fin 1 × ExtendCall) :=
    addGroup 0 1 true ++ addUndoVersion 0 2 3 ++ addUndoPage 0 2 ++ [(0, .evictPage 4)]
  have hrun : run extendStep (createTable 1) acts =
      some (exec extendStep (createTable 1) acts) :=
    run_exec (by decide)
  have hchains : (exec extendStep (createTable 1) acts).chains 2 .undo = [4, 3] := by decide
  have hgroup : 2 ∈ (exec extendStep (createTable 1) acts).groups.flatten := by decide
  have hfirst : ((exec extendStep (createTable 1) acts).file.page 2).map (·.chain .undo) =
      some 4 := by
    decide
  have hfirstdisk : ((exec extendStep (createTable 1) acts).disk.page 2).map (·.chain .undo) =
    some 4 := by decide
  have hlast : ((exec extendStep (createTable 1) acts).file.page 4).map (·.chain .undo) =
      some 0 := by
    decide
  have htype : ((exec extendStep (createTable 1) acts).disk.page 4).map (·.pageType) =
      some .data := by
    decide
  generalize exec extendStep (createTable 1) acts =
    s at hrun hchains hgroup hfirst hfirstdisk hlast htype
  have hlink : Links s.disk .undo 2 4 := by
    obtain ⟨page, hpage, hnext⟩ := Option.map_eq_some_iff.mp hfirstdisk
    exact ⟨by decide, page, hpage, hnext⟩
  -- From page 2 the links lead to page 4 and no further.
  have honly : ∀ no, Relation.TransGen (Links s.file .undo) 2 no → no = 4 := by
    intro no hreach
    induction hreach with
    | single hstep =>
      obtain ⟨-, page, hpage, rfl⟩ := hstep
      rw [hpage] at hfirst
      exact Option.some.inj hfirst
    | tail _ hstep ih =>
      obtain ⟨hne, page, hpage, rfl⟩ := hstep
      rw [ih] at hpage
      rw [hpage] at hlast
      exact absurd (Option.some.inj hlast) hne
  refine ⟨s, hrun, hchains, hlink, htype,
    fun hreach => absurd (honly 3 hreach) (by decide), ?_⟩
  intro hondisk
  obtain ⟨page, hpage, hundo⟩ := hondisk.types 2 .undo 4 hgroup (.inl rfl) (.single hlink)
  rw [hpage, Option.map_some, hundo] at htype
  cases htype

end Toadb
