/-
Toadb.Storage.OwnerTheorems — every page of a table has one owner.

`OwnInv` is the invariant. The numbers given out are different because the
count only grows, and every one of them is at most the count; the pages of
one extension follow each other because the extension lock is held from the first to
the last; and the links of a page, in its buffer and in the file, lead to pages
that were linked to the same chain. A restart keeps all of this when
the head page in the file has the count. `UpdateMetaData` does not look
whether its write reached the file; after one that did not, a restart gives the same
numbers out again (`pages_owned_twice`).
-/
import Toadb.Storage.Extend
import Toadb.Storage.TableFileTheorems
import Mathlib.Data.List.Nodup
import Mathlib.Data.List.Flatten
import Mathlib.Logic.Relation

namespace Toadb

open Transition

variable {n : Nat} {s t : ExtendSys n} {w : Fin n} {no : Nat} {page : PageDataHeader}

/-! ## Pages in memory and in the file -/

/-- `page` is what page `no` is in memory or in the file. -/
def ExtendSys.Has (s : ExtendSys n) (no : Nat) (page : PageDataHeader) : Prop :=
  s.file.page no = some page ∨ s.disk.page no = some page

@[simp] theorem file_pageCnt (s : ExtendSys n) : s.file.pageCnt = s.pageCnt := rfl

theorem file_page (s : ExtendSys n) (no : Nat) :
    s.file.page no = (s.buffer no).or (s.disk.page no) := rfl

@[simp] theorem setWorker_file (s : ExtendSys n) (w : Fin n) (k : ExtendWorker) :
    (s.setWorker w k).file = s.file := rfl

@[simp] theorem setWorker_workers_self (s : ExtendSys n) (w : Fin n) (k : ExtendWorker) :
    (s.setWorker w k).workers w = k := Function.update_self ..

theorem setWorker_workers_of_ne (s : ExtendSys n) {w w' : Fin n}
    (k : ExtendWorker) (h : w' ≠ w) :
    (s.setWorker w k).workers w' = s.workers w' := Function.update_of_ne h ..

@[simp] theorem setBuffer_file_self (s : ExtendSys n) (no : Nat) (page : PageDataHeader) :
    (s.setBuffer no page).file.page no = some page := by
  simp [file_page, ExtendSys.setBuffer]

theorem setBuffer_file_of_ne (s : ExtendSys n) {no no' : Nat} (page : PageDataHeader)
    (h : no' ≠ no) : (s.setBuffer no page).file.page no' = s.file.page no' := by
  simp [file_page, ExtendSys.setBuffer, Function.update_of_ne h]

@[simp] theorem writePage_pageCnt (s : ExtendSys n) (no : Nat) (new : PageDataHeader)
    (stored : Bool) : (s.writePage no new stored).pageCnt = s.pageCnt := by
  cases stored <;> rfl

@[simp] theorem writePage_handed (s : ExtendSys n) (no : Nat) (new : PageDataHeader)
    (stored : Bool) : (s.writePage no new stored).handed = s.handed := by
  cases stored <;> rfl

@[simp] theorem writePage_chains (s : ExtendSys n) (no : Nat) (new : PageDataHeader)
    (stored : Bool) : (s.writePage no new stored).chains = s.chains := by
  cases stored <;> rfl

@[simp] theorem writePage_unwritten (s : ExtendSys n) (no : Nat) (new : PageDataHeader)
    (stored : Bool) : (s.writePage no new stored).unwritten = s.unwritten := by
  cases stored <;> rfl

@[simp] theorem writePage_groups (s : ExtendSys n) (no : Nat) (new : PageDataHeader)
    (stored : Bool) : (s.writePage no new stored).groups = s.groups := by
  cases stored <;> rfl

@[simp] theorem writePage_workers (s : ExtendSys n) (no : Nat) (new : PageDataHeader)
    (stored : Bool) : (s.writePage no new stored).workers = s.workers := by
  cases stored <;> rfl

@[simp] theorem writePage_extLock (s : ExtendSys n) (no : Nat) (new : PageDataHeader)
    (stored : Bool) : (s.writePage no new stored).extLock = s.extLock := by
  cases stored <;> rfl

@[simp] theorem writePage_buffer (s : ExtendSys n) (no : Nat) (new : PageDataHeader)
    (stored : Bool) : (s.writePage no new stored).buffer = s.buffer := by
  cases stored <;> rfl

/-- A page with a buffer is read from the buffer. -/
theorem writePage_file (s : ExtendSys n) {page : PageDataHeader} (h : s.buffer no = some page)
    (new : PageDataHeader) (stored : Bool) (no' : Nat) :
    (s.writePage no new stored).file.page no' = s.file.page no' := by
  cases stored with
  | false => rfl
  | true =>
    by_cases hno : no' = no
    · subst hno
      simp [ExtendSys.writePage, file_page, h]
    · simp [ExtendSys.writePage, file_page, set_page_of_ne _ _ hno]

theorem writePage_disk (s : ExtendSys n) (no : Nat) (new : PageDataHeader) (stored : Bool)
    (no' : Nat) {page : PageDataHeader}
    (h : (s.writePage no new stored).disk.page no' = some page) :
    no' = no ∧ page = new ∨ s.disk.page no' = some page := by
  cases stored with
  | false => exact .inr h
  | true =>
    by_cases hno : no' = no
    · subst hno
      rw [ExtendSys.writePage, if_pos rfl] at h
      rw [set_page_self, Option.some.injEq] at h
      exact .inl ⟨rfl, h.symm⟩
    · rw [ExtendSys.writePage, if_pos rfl, set_page_of_ne _ _ hno] at h
      exact .inr h

/-- A page that is changed in its buffer and written. -/
theorem ExtendSys.Has.ofWrite {new page : PageDataHeader} {stored : Bool} {no' : Nat}
    (h : ((s.setBuffer no new).writePage no new stored).Has no' page) :
    no' = no ∧ page = new ∨ s.Has no' page := by
  rcases h with hfile | hdisk
  · rw [writePage_file _ (show (s.setBuffer no new).buffer no = some new from
      Function.update_self ..)] at hfile
    by_cases hno : no' = no
    · subst hno
      rw [setBuffer_file_self, Option.some.injEq] at hfile
      exact .inl ⟨rfl, hfile.symm⟩
    · rw [setBuffer_file_of_ne _ _ hno] at hfile
      exact .inr (.inl hfile)
  · rcases writePage_disk _ _ _ _ _ hdisk with hnew | hold
    · exact .inl hnew
    · exact .inr (.inr hold)

/-- A page that is written without a buffer. -/
theorem ExtendSys.Has.ofDisk {new page : PageDataHeader} {stored : Bool} {no' : Nat}
    (h : (s.writePage no new stored).Has no' page) :
    no' = no ∧ page = new ∨ s.Has no' page := by
  rcases h with hfile | hdisk
  · rw [file_page, writePage_buffer] at hfile
    cases hno : s.buffer no' with
    | none =>
      rw [hno, Option.none_or] at hfile
      exact (writePage_disk _ _ _ _ _ hfile).imp_right .inr
    | some p =>
      refine .inr (.inl ?_)
      rw [file_page, hno]
      rw [hno] at hfile
      exact hfile
  · exact (writePage_disk _ _ _ _ _ hdisk).imp_right .inr

/-- The links of two pages are the same. -/
structure SameHeader (page page' : PageDataHeader) : Prop where
  pageType : page'.pageType = page.pageType
  pageNum : page'.pageNum = page.pageNum
  undoPage : page'.undoPage = page.undoPage
  extPage : page'.extPage = page.extPage

theorem SameHeader.refl (page : PageDataHeader) : SameHeader page page := ⟨rfl, rfl, rfl, rfl⟩

/-- A row write keeps the header. -/
theorem RowWrite.sameHeader (row : RowWrite) (page : PageDataHeader) :
    SameHeader page (row.apply page) := by
  cases row with
  | append row => exact ⟨rfl, rfl, rfl, rfl⟩
  | replace row offset => exact ⟨rfl, rfl, rfl, rfl⟩
  | relocate itemOffset row rowSize => exact ⟨rfl, rfl, rfl, rfl⟩
  | redirect itemOffset rowPos => exact ⟨rfl, rfl, rfl, rfl⟩

/-! ## The invariant -/

/-- A link of page `p` leads nowhere, or along the chain that `p` is the data page of or is
in. -/
def LinkOk (chains : Nat → PageType → List Nat) (p : Nat) (pageType : PageType)
    (no : Nat) : Prop :=
  no = invalidPageNum ∨ ∃ d, no ∈ chains d pageType ∧ (p = d ∨ p ∈ chains d pageType)

/-- No chain has page `no`. -/
def Unlinked (chains : Nat → PageType → List Nat) (no : Nat) : Prop := ∀ d k, no ∉ chains d k

/-- A page number that was given out and is not used yet. -/
structure InHand (s : ExtendSys n) (no : Nat) : Prop where
  handed : no ∈ s.handed
  ungrouped : no ∉ s.groups.flatten
  unlinked : Unlinked s.chains no
  noChain : ∀ k, s.chains no k = []
  blank : ∀ page, s.Has no page → page.undoPage = invalidPageNum ∧
    page.extPage = invalidPageNum

/-- A job that can be done. -/
def JobOk (s : ExtendSys n) : ExtendJob → Prop
  | .chain firstno pageType =>
      firstno ∈ s.groups.flatten ∧ (pageType = .undo ∨ pageType = .extData)
  | .group num => 0 < num

/-- The pages of an extension follow each other up to the count. -/
structure GotOk (s : ExtendSys n) (got : List Nat) : Prop where
  block : ∃ start, got = List.range' start got.length ∧ start + got.length = s.pageCnt + 1
  inHand : ∀ no ∈ got, InHand s no

/-- Where a worker can be. -/
def PhaseOk (s : ExtendSys n) : ExtendPhase → Prop
  | .ready => True
  | .extend job got => JobOk s job ∧ GotOk s got
  | .load job got => JobOk s job ∧ GotOk s got ∧ got.length = job.num
  | .loaded job got last =>
    JobOk s job ∧ GotOk s got ∧ got.length = job.num ∧ last = s.pageCnt

/-- The part of the invariant that is not about the workers. -/
structure PagesOk (s : ExtendSys n) : Prop where
  cnt : 1 ≤ s.pageCnt
  nodup : s.handed.Nodup
  bounds : ∀ no ∈ s.handed, 1 < no ∧ no ≤ s.pageCnt
  fresh : ∀ no page, s.Has no page → no ≤ s.pageCnt
  num : ∀ no page, s.Has no page → page.pageNum = no
  links : ∀ no page, s.Has no page →
    LinkOk s.chains no .undo page.undoPage ∧ LinkOk s.chains no .extData page.extPage
  groupsNodup : s.groups.flatten.Nodup
  groups : ∀ no ∈ s.groups.flatten, no ∈ s.handed ∧ Unlinked s.chains no
  chained : ∀ d k no, no ∈ s.chains d k → no ∈ s.handed ∧ d ∈ s.handed ∧ Unlinked s.chains d
  disjoint : ∀ d k d' k' no, no ∈ s.chains d k → no ∈ s.chains d' k' → d = d' ∧ k = k'

/-- The invariant of the system. -/
structure OwnInv (s : ExtendSys n) : Prop where
  pages : PagesOk s
  phase : ∀ w, PhaseOk s (s.workers w).phase
  lock : ∀ w, (s.workers w).phase ≠ .ready → ∃ count, s.extLock = some (w, count)

/-- While one worker extends the table, the others do not. -/
theorem OwnInv.others_ready (h : OwnInv s) (hw : (s.workers w).phase ≠ .ready) {w' : Fin n}
    (hne : w' ≠ w) : (s.workers w').phase = .ready := by
  by_contra hw'
  obtain ⟨count, hlock⟩ := h.lock w hw
  obtain ⟨count', hlock'⟩ := h.lock w' hw'
  rw [hlock, Option.some.injEq, Prod.mk.injEq] at hlock'
  exact hne hlock'.1.symm

/-! ## Steps that keep the headers -/

/-- The pages of `t` have the headers they have in `s`. -/
def SameHeaders (s t : ExtendSys n) : Prop :=
  ∀ no page, t.Has no page → ∃ page₀, s.Has no page₀ ∧ SameHeader page₀ page

/-- The fields the invariant is about are the same. -/
structure SameTable (s t : ExtendSys n) : Prop where
  pageCnt : t.pageCnt = s.pageCnt
  handed : t.handed = s.handed
  chains : t.chains = s.chains
  groups : t.groups = s.groups
  headers : SameHeaders s t

theorem SameTable.inHand (h : SameTable s t) (hno : InHand s no) : InHand t no := by
  refine ⟨h.handed ▸ hno.handed, h.groups ▸ hno.ungrouped, h.chains ▸ hno.unlinked,
    h.chains ▸ hno.noChain, fun page hpage => ?_⟩
  obtain ⟨page₀, hpage₀, hsame⟩ := h.headers no page hpage
  rw [hsame.undoPage, hsame.extPage]
  exact hno.blank page₀ hpage₀

theorem SameTable.jobOk (h : SameTable s t) {job : ExtendJob}
    (hjob : JobOk s job) : JobOk t job := by
  cases job with
  | chain firstno pageType => exact ⟨h.groups ▸ hjob.1, hjob.2⟩
  | group num => exact hjob

theorem SameTable.gotOk (h : SameTable s t) {got : List Nat}
    (hgot : GotOk s got) : GotOk t got :=
  ⟨h.pageCnt ▸ hgot.block, fun no hno => h.inHand (hgot.inHand no hno)⟩

theorem SameTable.phaseOk (h : SameTable s t) {phase : ExtendPhase}
    (hphase : PhaseOk s phase) :
    PhaseOk t phase := by
  cases phase with
  | ready => trivial
  | extend job got => exact ⟨h.jobOk hphase.1, h.gotOk hphase.2⟩
  | load job got => exact ⟨h.jobOk hphase.1, h.gotOk hphase.2.1, hphase.2.2⟩
  | loaded job got last =>
    exact ⟨h.jobOk hphase.1, h.gotOk hphase.2.1, hphase.2.2.1, h.pageCnt ▸ hphase.2.2.2⟩

theorem PagesOk.ofSame (h : PagesOk s) (hsame : SameTable s t) : PagesOk t where
  cnt := hsame.pageCnt ▸ h.cnt
  nodup := hsame.handed ▸ h.nodup
  bounds := by
    rw [hsame.handed, hsame.pageCnt]
    exact h.bounds
  fresh := fun no page hpage => by
    obtain ⟨page₀, hpage₀, -⟩ := hsame.headers no page hpage
    rw [hsame.pageCnt]
    exact h.fresh no page₀ hpage₀
  num := fun no page hpage => by
    obtain ⟨page₀, hpage₀, heq⟩ := hsame.headers no page hpage
    rw [heq.pageNum]
    exact h.num no page₀ hpage₀
  links := fun no page hpage => by
    obtain ⟨page₀, hpage₀, heq⟩ := hsame.headers no page hpage
    rw [hsame.chains, heq.undoPage, heq.extPage]
    exact h.links no page₀ hpage₀
  groupsNodup := hsame.groups ▸ h.groupsNodup
  groups := by
    rw [hsame.groups, hsame.handed, hsame.chains]
    exact h.groups
  chained := by
    rw [hsame.handed, hsame.chains]
    exact h.chained
  disjoint := by
    rw [hsame.chains]
    exact h.disjoint

/-- Pages change, but not their headers. -/
theorem OwnInv.ofPages (h : OwnInv s) (hsame : SameTable s t) (hlock : t.extLock = s.extLock)
    (hphase : ∀ w, (t.workers w).phase = (s.workers w).phase) : OwnInv t := by
  refine ⟨h.pages.ofSame hsame, fun w => ?_, fun w hw => ?_⟩
  · rw [hphase]
    exact hsame.phaseOk (h.phase w)
  · rw [hlock]
    exact h.lock w (hphase w ▸ hw)

theorem SameHeaders.refl (s : ExtendSys n) : SameHeaders s s :=
  fun _ page hpage => ⟨page, hpage, .refl page⟩

/-- The one worker that extends the table goes on. -/
theorem OwnInv.setPhase {k : ExtendWorker} (h : PagesOk t) (hphase : PhaseOk t k.phase)
    (hothers : ∀ w', w' ≠ w → (t.workers w').phase = .ready)
    (hlock : k.phase ≠ .ready → ∃ count, t.extLock = some (w, count)) :
    OwnInv (t.setWorker w k) := by
  have hsame : SameTable t (t.setWorker w k) := ⟨rfl, rfl, rfl, rfl, .refl t⟩
  refine ⟨h.ofSame hsame, fun w' => ?_, fun w' hw' => ?_⟩
  · by_cases hw : w' = w
    · subst hw
      rw [setWorker_workers_self]
      exact hsame.phaseOk hphase
    · rw [setWorker_workers_of_ne _ _ hw, hothers w' hw]
      trivial
  · by_cases hw : w' = w
    · subst hw
      rw [setWorker_workers_self] at hw'
      exact hlock hw'
    · rw [setWorker_workers_of_ne _ _ hw, hothers w' hw] at hw'
      exact absurd rfl hw'

/-! ## The steps -/

theorem startExtensionTbl_cases {locks : Nat} (hlocks : locks < maxLocalLockNum)
    (hstep : startExtensionTbl s w locks = some t) :
    ∃ count, t = { s with extLock := some (w, count) } ∧
      ∀ w' count', s.extLock = some (w', count') → w' = w := by
  unfold startExtensionTbl at hstep
  rw [if_neg (Nat.not_le.mpr hlocks)] at hstep
  split at hstep
  · rename_i hnone
    exact ⟨1, (Option.some.inj hstep).symm, fun _ _ h => by rw [hnone] at h; cases h⟩
  · rename_i holder count hsome
    split at hstep
    · rename_i hholder
      refine ⟨count + 1, (Option.some.inj hstep).symm, fun w' count' h => ?_⟩
      rw [hsome, Option.some.injEq, Prod.mk.injEq] at h
      exact h.1.symm.trans hholder
    · cases hstep

/-- `EndExtensionTbl` is about the lock only. -/
theorem endExtensionTbl_eq (s : ExtendSys n) (w : Fin n) :
    ∃ lock, endExtensionTbl s w = { s with extLock := lock } := by
  unfold endExtensionTbl
  split
  · split
    · exact ⟨_, rfl⟩
    · exact ⟨s.extLock, rfl⟩
  · split
    · exact ⟨_, rfl⟩
    · exact ⟨s.extLock, rfl⟩
  · exact ⟨s.extLock, rfl⟩

theorem OwnInv.startExtend (h : OwnInv s) {job : ExtendJob} {locks : Nat}
    (hlocks : locks < maxLocalLockNum) (hready : (s.workers w).phase = .ready)
    (hstep : startExtend job locks s w = some t) : OwnInv t := by
  unfold Toadb.startExtend at hstep
  split at hstep
  · rename_i hjob
    obtain ⟨s₁, hlock, hs₁⟩ := Option.map_eq_some_iff.mp hstep
    obtain ⟨count, rfl, hown⟩ := startExtensionTbl_cases hlocks hlock
    have hothers : ∀ w', w' ≠ w → (s.workers w').phase = .ready := by
      intro w' hw
      by_contra hw'
      obtain ⟨count', hlock'⟩ := h.lock w' hw'
      exact hw (hown w' count' hlock')
    have hsame : SameTable s { s with extLock := some (w, count) } :=
      ⟨rfl, rfl, rfl, rfl, .refl s⟩
    split at hs₁
    · subst hs₁
      refine ⟨h.pages.ofSame hsame, fun w' => hsame.phaseOk (h.phase w'), fun w' hw' => ?_⟩
      by_cases hw : w' = w
      · subst hw
        exact absurd hready hw'
      · exact absurd (hothers w' hw) hw'
    · rename_i hnum
      subst hs₁
      have hok : JobOk s job := by
        cases job with
        | chain firstno pageType =>
          simp only [jobAllowed] at hjob
          split at hjob
          · simp only [Bool.and_eq_true, Bool.or_eq_true, beq_iff_eq,
              List.contains_iff_mem] at hjob
            exact hjob.1
          · cases hjob
        | group num => exact Nat.pos_of_ne_zero fun hzero => hnum (.inl hzero)
      exact .setPhase (h.pages.ofSame hsame)
        ⟨hsame.jobOk hok, ⟨⟨s.pageCnt + 1, rfl, rfl⟩, by simp⟩⟩
        hothers
        fun _ => ⟨count, rfl⟩
  · cases hstep

/-- The condition on a step: a worker that starts an extension has room for the lock, the
count fits its 32 bits, and a restart finds the count in the file. -/
def StepCounted (s : ExtendSys n) (a : Fin n × ExtendCall) : Prop :=
  match a.2 with
  | .start _ locks => locks < maxLocalLockNum
  | .addPage _ => s.pageCnt + 1 < pageCntModulus
  | .restart _ => s.disk.pageCnt = s.pageCnt
  | _ => True

instance (s : ExtendSys n) (a : Fin n × ExtendCall) : Decidable (StepCounted s a) := by
  unfold StepCounted
  split <;> infer_instance

/-- The table with one page number more. -/
def nextPage (s : ExtendSys n) (stored : Bool) : ExtendSys n :=
  ({ s with pageCnt := s.pageCnt + 1, handed := (s.pageCnt + 1) :: s.handed } :
    ExtendSys n).writePage (s.pageCnt + 1) (initPage (s.pageCnt + 1)) stored

theorem PagesOk.not_handed (h : PagesOk s) : s.pageCnt + 1 ∉ s.handed := fun hmem => by
  have := (h.bounds _ hmem).2
  omega

theorem has_nextPage {stored : Bool} (hpage : (nextPage s stored).Has no page) :
    no = s.pageCnt + 1 ∧ page = initPage (s.pageCnt + 1) ∨ s.Has no page := hpage.ofDisk

theorem PagesOk.nextPage (h : PagesOk s) (stored : Bool) : PagesOk (nextPage s stored) where
  cnt := by simp [Toadb.nextPage]
  nodup := by
    rw [Toadb.nextPage, writePage_handed]
    exact List.nodup_cons.mpr ⟨h.not_handed, h.nodup⟩
  bounds := by
    have hcnt := h.cnt
    simp only [Toadb.nextPage, writePage_handed, writePage_pageCnt, List.mem_cons]
    rintro no (rfl | hno)
    · omega
    · have := h.bounds no hno
      omega
  fresh := fun no page hpage => by
    rw [Toadb.nextPage, writePage_pageCnt]
    rcases has_nextPage hpage with ⟨rfl, -⟩ | hold
    · exact Nat.le_refl _
    · exact Nat.le_succ_of_le (h.fresh no page hold)
  num := fun no page hpage => by
    rcases has_nextPage hpage with ⟨rfl, rfl⟩ | hold
    · rfl
    · exact h.num no page hold
  links := fun no page hpage => by
    rw [Toadb.nextPage, writePage_chains]
    rcases has_nextPage hpage with ⟨rfl, rfl⟩ | hold
    · exact ⟨.inl rfl, .inl rfl⟩
    · exact h.links no page hold
  groupsNodup := by
    rw [Toadb.nextPage, writePage_groups]
    exact h.groupsNodup
  groups := by
    simp only [Toadb.nextPage, writePage_groups, writePage_handed, writePage_chains]
    exact fun no hno => ⟨List.mem_cons_of_mem _ (h.groups no hno).1, (h.groups no hno).2⟩
  chained := by
    simp only [Toadb.nextPage, writePage_handed, writePage_chains]
    intro d k no hno
    obtain ⟨hhanded, hd, hroot⟩ := h.chained d k no hno
    exact ⟨List.mem_cons_of_mem _ hhanded, List.mem_cons_of_mem _ hd, hroot⟩
  disjoint := by
    rw [Toadb.nextPage, writePage_chains]
    exact h.disjoint

/-- The numbers a worker has, and the new one. -/
theorem PagesOk.gotOk_nextPage (h : PagesOk s) {got : List Nat}
    (hgot : GotOk s got) (stored : Bool) :
    GotOk (Toadb.nextPage s stored) (got ++ [s.pageCnt + 1]) := by
  obtain ⟨⟨start, hblock, hstart⟩, hin⟩ := hgot
  have hnew := h.not_handed
  refine ⟨⟨start, ?_, ?_⟩, fun no hno => ?_⟩
  · rw [List.length_append, List.length_singleton, List.range'_concat, ← hblock,
      ← hstart, Nat.one_mul]
  · simp [Toadb.nextPage]
    omega
  · have hfields : (Toadb.nextPage s stored).handed = (s.pageCnt + 1) :: s.handed ∧
        (Toadb.nextPage s stored).groups = s.groups ∧
        (Toadb.nextPage s stored).chains = s.chains := by
      simp [Toadb.nextPage]
    obtain ⟨hhanded, hgroups, hchains⟩ := hfields
    rcases List.mem_append.mp hno with hold | hlast
    · obtain ⟨hmem, hgroup, hlink, hnone, hblank⟩ := hin no hold
      refine ⟨hhanded ▸ List.mem_cons_of_mem _ hmem, hgroups ▸ hgroup, hchains ▸ hlink,
        hchains ▸ hnone, fun page hpage => ?_⟩
      rcases has_nextPage hpage with ⟨-, rfl⟩ | hpage'
      · exact ⟨rfl, rfl⟩
      · exact hblank page hpage'
    · obtain rfl := List.mem_singleton.mp hlast
      refine ⟨hhanded ▸ List.mem_cons_self, ?_, ?_, fun k => ?_, fun page hpage => ?_⟩
      · rw [hgroups]
        exact fun hmem => hnew (h.groups _ hmem).1
      · rw [hchains]
        exact fun d k hmem => hnew (h.chained d k _ hmem).1
      · rw [hchains]
        exact List.eq_nil_iff_forall_not_mem.mpr fun no hno => hnew (h.chained _ k no hno).2.1
      · rcases has_nextPage hpage with ⟨-, rfl⟩ | hpage'
        · exact ⟨rfl, rfl⟩
        · exact absurd (h.fresh _ page hpage') (by omega)

theorem OwnInv.addPage (h : OwnInv s) {stored : Bool} (hcnt : s.pageCnt + 1 < pageCntModulus)
    (hstep : addPage stored s w = some t) : OwnInv t := by
  unfold Toadb.addPage at hstep
  split at hstep
  · rename_i job got hphase
    have hok := h.phase w
    rw [hphase] at hok
    obtain ⟨hjob, hgot⟩ := hok
    split at hstep
    · rw [Option.some.injEq, Nat.mod_eq_of_lt hcnt] at hstep
      subst hstep
      have hjob' : JobOk (nextPage s stored) job := by
        cases job with
        | chain firstno pageType =>
          refine ⟨?_, hjob.2⟩
          rw [nextPage, writePage_groups]
          exact hjob.1
        | group num => exact hjob
      refine .setPhase (h.pages.nextPage stored)
        ⟨hjob', h.pages.gotOk_nextPage hgot stored⟩ (fun w' hw => ?_) fun _ => ?_
      · rw [writePage_workers]
        exact h.others_ready (by simp [hphase]) hw
      · rw [writePage_extLock]
        exact h.lock w (by simp [hphase])
    · cases hstep
  · cases hstep

theorem OwnInv.updateMetaData (h : OwnInv s) {stored : Bool}
    (hstep : updateMetaData stored s w = some t) : OwnInv t := by
  unfold Toadb.updateMetaData at hstep
  split at hstep
  · rename_i job got hphase
    have hok := h.phase w
    rw [hphase] at hok
    obtain ⟨hjob, hgot⟩ := hok
    split at hstep
    · rename_i hlength
      have hsame : SameTable s
          (if stored then { s with disk := { s.disk with pageCnt := s.pageCnt } }
            else s) := by
        cases stored <;> exact ⟨rfl, rfl, rfl, rfl, .refl s⟩
      cases hstep
      refine .setPhase (h.pages.ofSame hsame) ⟨hsame.jobOk hjob, hsame.gotOk hgot, hlength⟩
        (fun w' hw => ?_) fun _ => ?_
      · have hready := h.others_ready (by simp [hphase]) hw
        split <;> exact hready
      · have hlock := h.lock w (by simp [hphase])
        split <;> exact hlock
    · cases hstep
  · cases hstep

/-- The last number of an extension is the count. -/
theorem GotOk.last {got : List Nat} (h : GotOk s got) (hpos : got ≠ []) :
    got.getLastD invalidPageNum = s.pageCnt := by
  obtain ⟨⟨start, hblock, hstart⟩, -⟩ := h
  cases hlen : got.length with
  | zero => exact absurd (List.length_eq_zero_iff.mp hlen) hpos
  | succ k =>
    rw [hlen] at hblock hstart
    rw [hblock, List.range'_concat, List.getLastD_concat]
    omega

theorem GotOk.mem_last {got : List Nat} (h : GotOk s got) (hpos : got ≠ []) :
    s.pageCnt ∈ got := by
  have hlast := h.last hpos
  rw [List.getLastD_eq_getLast?, List.getLast?_eq_some_getLast hpos,
    Option.getD_some] at hlast
  rw [← hlast]
  exact List.getLast_mem hpos

theorem JobOk.num_pos {job : ExtendJob} (h : JobOk s job) : 0 < job.num := by
  cases job with
  | chain firstno pageType => exact Nat.one_pos
  | group num => exact h

theorem OwnInv.loadLast (h : OwnInv s) (hstep : loadLast s w = some t) : OwnInv t := by
  unfold Toadb.loadLast at hstep
  split at hstep
  · rename_i job got hphase
    have hok := h.phase w
    rw [hphase] at hok
    obtain ⟨hjob, hgot, hlength⟩ := hok
    have hothers : ∀ w', w' ≠ w → (s.workers w').phase = .ready :=
      fun w' hw => h.others_ready (by simp [hphase]) hw
    have hpos : got ≠ [] := by
      rintro rfl
      have := hjob.num_pos
      rw [← hlength] at this
      cases this
    dsimp only at hstep
    split at hstep
    · cases hstep
      exact .setPhase h.pages ⟨hjob, hgot, hlength, hgot.last hpos⟩ hothers
        fun _ => h.lock w (by simp [hphase])
    · cases hstep
      cases job with
      | chain firstno pageType =>
        obtain ⟨lock, hlock⟩ := endExtensionTbl_eq s w
        have hsame : SameTable s (endExtensionTbl s w) := by
          rw [hlock]
          exact ⟨rfl, rfl, rfl, rfl, .refl s⟩
        refine .setPhase (h.pages.ofSame hsame) trivial (fun w' hw => ?_) fun hne =>
          absurd rfl hne
        rw [hlock]
        exact hothers w' hw
      | group num => exact .setPhase h.pages trivial hothers fun hne => absurd rfl hne
  · cases hstep

/-! ## Linking a page -/

variable {firstno last : Nat} {pageType : PageType} {firstpage extpage : PageDataHeader}
  {stored : Bool}

/-- A chain has the pages it had, and the one that was linked. -/
theorem mem_chains_linked {d no : Nat} {k : PageType} :
    no ∈ (linked s firstno last pageType firstpage extpage stored).chains d k ↔
      no ∈ s.chains d k ∨ no = last ∧ d = firstno ∧ k = pageType := by
  by_cases hd : d = firstno
  · subst hd
    by_cases hk : k = pageType
    · subst hk
      simp [linked, or_comm]
    · simp [linked, hk]
  · simp [linked, hd]

@[simp] theorem setChain_pageNum (page : PageDataHeader) (pageType : PageType) (no : Nat) :
    (page.setChain pageType no).pageNum = page.pageNum := by
  unfold PageDataHeader.setChain
  split <;> rfl

@[simp] theorem chainHead_pageNum (pageType : PageType) (firstpage extpage : PageDataHeader) :
    (chainHead pageType firstpage extpage).pageNum = extpage.pageNum := by
  simp [chainHead]

theorem has_linked
    (h : (linked s firstno last pageType firstpage extpage stored).Has no page) :
    no = firstno ∧ page = firstpage.setChain pageType extpage.pageNum ∨
      no = last ∧ page = chainHead pageType firstpage extpage ∨ s.Has no page := by
  have hpage : (((s.setBuffer last (chainHead pageType firstpage extpage)).setBuffer firstno
      (firstpage.setChain pageType (chainHead pageType firstpage extpage).pageNum)).writePage
        firstno
      (firstpage.setChain pageType (chainHead pageType firstpage extpage).pageNum) stored).Has
      no page := h
  rw [chainHead_pageNum] at hpage
  refine hpage.ofWrite.imp_right fun hold => ?_
  have hset : ((s.setBuffer last (chainHead pageType firstpage extpage)).writePage last
      (chainHead pageType firstpage extpage) false).Has no page := hold
  exact hset.ofWrite

/-- Links stay right when a chain gets a page more. -/
theorem LinkOk.linked {p next : Nat} {k : PageType} (h : LinkOk s.chains p k next) :
    LinkOk (linked s firstno last pageType firstpage extpage stored).chains p k next := by
  refine h.imp_right ?_
  rintro ⟨d, hmem, hp⟩
  exact ⟨d, mem_chains_linked.mpr (.inl hmem),
    hp.imp_right fun hp => mem_chains_linked.mpr (.inl hp)⟩

theorem PagesOk.linked (h : PagesOk s) (hfirst : firstno ∈ s.groups.flatten)
    (hlast : InHand s last)
    (hkind : pageType = .undo ∨ pageType = .extData) (hfirstpage : s.Has firstno firstpage)
    (hextpage : s.Has last extpage) :
    PagesOk (linked s firstno last pageType firstpage extpage stored) := by
  obtain ⟨hfirsthanded, hfirstroot⟩ := h.groups firstno hfirst
  have hne : firstno ≠ last := fun heq => hlast.ungrouped (heq ▸ hfirst)
  obtain ⟨hundo, hext⟩ := h.links firstno firstpage hfirstpage
  obtain ⟨hnoundo, hnoext⟩ := hlast.blank extpage hextpage
  -- What the first page led to is in its chain.
  have hold : ∀ {k next}, LinkOk s.chains firstno k next →
      next = invalidPageNum ∨ next ∈ s.chains firstno k := by
    intro k next hlink
    refine hlink.imp_right ?_
    rintro ⟨d, hmem, rfl | hroot⟩
    · exact hmem
    · exact absurd hroot (hfirstroot d k)
  have hhead : last ∈
      (Toadb.linked s firstno last pageType firstpage extpage stored).chains firstno
      pageType := mem_chains_linked.mpr (.inr ⟨rfl, rfl, rfl⟩)
  have hnext : ∀ {next}, LinkOk s.chains firstno pageType next →
      LinkOk (Toadb.linked s firstno last pageType firstpage extpage stored).chains
        last pageType
        next :=
    fun hlink => (hold hlink).imp_right fun hmem =>
      ⟨firstno, mem_chains_linked.mpr (.inl hmem), .inr hhead⟩
  have hroot : ∀ d, Unlinked s.chains d → d ≠ last →
      Unlinked (Toadb.linked s firstno last pageType firstpage extpage stored).chains d := by
    intro d hd hdne d' k hmem
    rcases mem_chains_linked.mp hmem with hmem | ⟨heq, -⟩
    · exact hd d' k hmem
    · exact hdne heq
  have hfields : (Toadb.linked s firstno last pageType firstpage extpage stored).pageCnt =
      s.pageCnt ∧
      (Toadb.linked s firstno last pageType firstpage extpage stored).handed = s.handed ∧
      (Toadb.linked s firstno last pageType firstpage extpage stored).groups = s.groups := by
    cases stored <;> exact ⟨rfl, rfl, rfl⟩
  obtain ⟨hcnt, hhanded, hgroups⟩ := hfields
  refine ⟨hcnt ▸ h.cnt, hhanded ▸ h.nodup, ?_, fun no page hpage => ?_,
    fun no page hpage => ?_,
    fun no page hpage => ?_, hgroups ▸ h.groupsNodup, fun no hno => ?_, fun d k no hno => ?_,
    fun d k d' k' no hno hno' => ?_⟩
  · rw [hhanded, hcnt]
    exact h.bounds
  · rw [hcnt]
    rcases has_linked hpage with ⟨rfl, -⟩ | ⟨rfl, -⟩ | hpage
    · exact (h.bounds _ hfirsthanded).2
    · exact (h.bounds _ hlast.handed).2
    · exact h.fresh no page hpage
  · rcases has_linked hpage with ⟨rfl, rfl⟩ | ⟨rfl, rfl⟩ | hpage
    · rw [setChain_pageNum, h.num _ _ hfirstpage]
    · rw [chainHead_pageNum, h.num _ _ hextpage]
    · exact h.num no page hpage
  · rcases has_linked hpage with ⟨rfl, rfl⟩ | ⟨rfl, rfl⟩ | hpage
    · rw [h.num _ _ hextpage]
      rcases hkind with rfl | rfl
      · exact ⟨.inr ⟨no, hhead, .inl rfl⟩, hext.linked⟩
      · exact ⟨hundo.linked, .inr ⟨no, hhead, .inl rfl⟩⟩
    · rcases hkind with rfl | rfl
      · exact ⟨hnext hundo, .inl hnoext⟩
      · exact ⟨.inl hnoundo, hnext hext⟩
    · obtain ⟨hundo', hext'⟩ := h.links no page hpage
      exact ⟨hundo'.linked, hext'.linked⟩
  · rw [hgroups] at hno
    obtain ⟨hmem, hunlinked⟩ := h.groups no hno
    exact ⟨hhanded ▸ hmem, hroot no hunlinked fun heq => hlast.ungrouped (heq ▸ hno)⟩
  · rw [hhanded]
    rcases mem_chains_linked.mp hno with hmem | ⟨rfl, rfl, rfl⟩
    · obtain ⟨hmem', hd, hunlinked⟩ := h.chained d k no hmem
      refine ⟨hmem', hd, hroot d hunlinked fun heq => ?_⟩
      rw [heq, hlast.noChain] at hmem
      cases hmem
    · exact ⟨hlast.handed, hfirsthanded, hroot d hfirstroot hne⟩
  · rcases mem_chains_linked.mp hno with hmem | ⟨rfl, rfl, rfl⟩
    · rcases mem_chains_linked.mp hno' with hmem' | ⟨rfl, rfl, rfl⟩
      · exact h.disjoint d k d' k' no hmem hmem'
      · exact absurd hmem (hlast.unlinked d k)
    · rcases mem_chains_linked.mp hno' with hmem' | ⟨-, rfl, rfl⟩
      · exact absurd hmem' (hlast.unlinked d' k')
      · exact ⟨rfl, rfl⟩

theorem linked_workers (s : ExtendSys n) (firstno last : Nat) (pageType : PageType)
    (firstpage extpage : PageDataHeader) (stored : Bool) :
    (linked s firstno last pageType firstpage extpage stored).workers = s.workers := by
  cases stored <;> rfl

theorem OwnInv.linkPage (h : OwnInv s) (hstep : linkPage stored s w = some t) : OwnInv t := by
  unfold Toadb.linkPage at hstep
  split at hstep
  · rename_i firstno pageType got last hphase
    have hok := h.phase w
    rw [hphase] at hok
    obtain ⟨⟨hfirst, hkind⟩, hgot, hlength, hlast⟩ := hok
    have hpos : got ≠ [] := fun hnil => by
      rw [hnil] at hlength
      cases hlength
    have hmem : last ∈ got := hlast ▸ hgot.mem_last hpos
    split at hstep
    · rename_i firstpage extpage hfirstpage hextpage
      have hpages : PagesOk (linked s firstno last pageType firstpage extpage stored) :=
        h.pages.linked hfirst (hgot.inHand last hmem) hkind (.inl hfirstpage) (.inl hextpage)
      obtain ⟨lock, hlock⟩ := endExtensionTbl_eq
        (linked s firstno last pageType firstpage extpage stored) w
      rw [Option.some.injEq] at hstep
      rw [← hstep]
      refine .setPhase ?_ trivial (fun w' hw => ?_) fun hne => absurd rfl hne
      · rw [hlock]
        exact hpages.ofSame ⟨rfl, rfl, rfl, rfl, .refl _⟩
      · rw [hlock]
        dsimp only
        rw [linked_workers]
        exact h.others_ready (by simp [hphase]) hw
    · cases hstep
  · cases hstep

/-! ## Recording a group -/

/-- The pages that are recorded are the pages of the extension. -/
theorem GotOk.groupMembers {got : List Nat} {lastpage : PageDataHeader} (h : GotOk s got)
    (hnum : lastpage.pageNum = s.pageCnt) (hpages : PagesOk s) (hpos : got ≠ []) :
    groupMembers lastpage got.length = some got := by
  obtain ⟨⟨start, hblock, hstart⟩, hin⟩ := h
  have hfirst : 1 < start := by
    have hmem : start ∈ got := by
      rw [hblock, List.mem_range'_1]
      have := List.length_pos_iff.mpr hpos
      omega
    exact (hpages.bounds start (hin start hmem).handed).1
  rw [Toadb.groupMembers, hnum, pageHeadPageNum, if_neg (by omega),
    show s.pageCnt + 1 - got.length = start by omega, ← hblock]

theorem PagesOk.record (h : PagesOk s) {got : List Nat} (hgot : GotOk s got) :
    PagesOk { s with groups := s.groups ++ [got] } := by
  have hflatten : (s.groups ++ [got]).flatten = s.groups.flatten ++ got := by simp
  obtain ⟨start, hblock, -⟩ := hgot.block
  refine ⟨h.cnt, h.nodup, h.bounds, h.fresh, h.num, h.links, ?_, fun no hno => ?_, h.chained,
    h.disjoint⟩
  · dsimp only
    rw [hflatten]
    refine List.nodup_append.mpr ⟨h.groupsNodup, hblock ▸ List.nodup_range', ?_⟩
    rintro no hno no' hno' rfl
    exact (hgot.inHand no hno').ungrouped hno
  · dsimp only at hno
    rw [hflatten] at hno
    rcases List.mem_append.mp hno with hold | hnew
    · exact h.groups no hold
    · exact ⟨(hgot.inHand no hnew).handed, (hgot.inHand no hnew).unlinked⟩

theorem OwnInv.insertGroupItem (h : OwnInv s)
    (hstep : insertGroupItem s w = some t) : OwnInv t := by
  unfold Toadb.insertGroupItem at hstep
  split at hstep
  · rename_i num got last hphase
    have hok := h.phase w
    rw [hphase] at hok
    obtain ⟨hjob, hgot, hlength, rfl⟩ := hok
    have hpos : got ≠ [] := fun hnil => by
      rw [hnil] at hlength
      exact absurd hlength.symm (Nat.ne_of_gt hjob.num_pos)
    split at hstep
    · rename_i lastpage hlastpage
      have hmembers := hgot.groupMembers (h.pages.num _ _ (.inl hlastpage)) h.pages hpos
      rw [show got.length = num from hlength] at hmembers
      rw [hmembers] at hstep
      obtain ⟨lock, hlock⟩ :=
        endExtensionTbl_eq ({ s with groups := s.groups ++ [got] } : ExtendSys n) w
      cases hstep
      refine .setPhase ?_ trivial (fun w' hw => ?_) fun hne => absurd rfl hne
      · rw [hlock]
        exact (h.pages.record hgot).ofSame ⟨rfl, rfl, rfl, rfl, .refl _⟩
      · rw [hlock]
        exact h.others_ready (by simp [hphase]) hw
    · cases hstep
  · cases hstep

/-! ## Working with pages -/

theorem OwnInv.setHand (h : OwnInv s) (hand : List Nat) :
    OwnInv (s.setWorker w { s.workers w with hand := hand }) := by
  refine h.ofPages ⟨rfl, rfl, rfl, rfl, .refl s⟩ rfl fun w' => ?_
  by_cases hw : w' = w
  · subst hw
    rw [setWorker_workers_self]
  · rw [setWorker_workers_of_ne _ _ hw]

theorem OwnInv.takePage (h : OwnInv s) (hstep : takePage no s w = some t) : OwnInv t := by
  unfold Toadb.takePage at hstep
  split at hstep
  · split at hstep
    · cases hstep
      exact h.setHand _
    · cases hstep
  · cases hstep

theorem OwnInv.findSpace (h : OwnInv s) (hstep : findSpace firstno pageType s w = some t) :
    OwnInv t := by
  unfold Toadb.findSpace at hstep
  split at hstep
  · dsimp only at hstep
    split at hstep
    · split at hstep
      · cases hstep
        exact h.setHand _
      · cases hstep
    · cases hstep
  · cases hstep

theorem OwnInv.writeRow (h : OwnInv s) {row : RowWrite}
    (hstep : writeRow no row stored s w = some t) :
    OwnInv t := by
  unfold Toadb.writeRow at hstep
  split at hstep
  · rename_i page hpage
    split at hstep
    · rw [Option.some.injEq] at hstep
      subst hstep
      refine h.ofPages ⟨?_, ?_, ?_, ?_, fun no' page' hpage' => ?_⟩ ?_ fun w' => ?_
      · exact writePage_pageCnt ..
      · exact writePage_handed ..
      · exact writePage_chains ..
      · exact writePage_groups ..
      · have hhas :
            ((s.setBuffer no (row.apply page)).writePage no (row.apply page) stored).Has
            no' page' := hpage'
        rcases hhas.ofWrite with ⟨rfl, rfl⟩ | hold
        · exact ⟨page, .inl hpage, row.sameHeader page⟩
        · exact ⟨page', hold, .refl page'⟩
      · exact writePage_extLock ..
      · have hworkers :=
          writePage_workers (s.setBuffer no (row.apply page)) no (row.apply page) stored
        exact congrArg (fun workers => (workers w').phase) hworkers
    · cases hstep
  · cases hstep

/-- A page whose buffer is dropped is what it is in the file. -/
theorem has_dropBuffer {buffer : Nat → Option PageDataHeader}
    (hbuffer : ∀ no page, buffer no = some page → s.buffer no = some page)
    (h : ({ s with buffer := buffer } : ExtendSys n).Has no page) : s.Has no page := by
  rcases h with hfile | hdisk
  · rw [file_page] at hfile
    dsimp only at hfile
    cases hno : buffer no with
    | none =>
      rw [hno, Option.none_or] at hfile
      exact .inr hfile
    | some p =>
      rw [hno, Option.some_or, Option.some.injEq] at hfile
      refine .inl ?_
      rw [file_page, hbuffer no p hno, Option.some_or, hfile]
  · exact .inr hdisk

theorem OwnInv.evictPage (h : OwnInv s) (hstep : evictPage no s = some t) : OwnInv t := by
  unfold Toadb.evictPage at hstep
  split at hstep
  · cases hstep
    refine h.ofPages ⟨rfl, rfl, rfl, rfl, fun no' page hpage => ⟨page, ?_, .refl page⟩⟩ rfl
      fun _ => rfl
    refine has_dropBuffer (fun no'' page' hpage' => ?_) hpage
    by_cases hno : no'' = no
    · subst hno
      rw [Function.update_self] at hpage'
      cases hpage'
    · rwa [Function.update_of_ne hno] at hpage'
  · cases hstep

theorem OwnInv.restart (h : OwnInv s) {kept : List (List Nat)}
    (hcnt : s.disk.pageCnt = s.pageCnt) (hstep : restart kept s = some t) : OwnInv t := by
  unfold Toadb.restart at hstep
  split at hstep
  · rename_i hclean
    cases hstep
    have hsub : kept.flatten.Sublist s.groups.flatten := hclean.2.flatten
    have hhas : ∀ no page, ({ s with
        pageCnt := s.disk.pageCnt, buffer := fun _ => none, groups := kept, extLock := none,
        workers := fun _ => ⟨.ready, []⟩ } : ExtendSys n).Has no page → s.Has no page := by
      intro no page hpage
      have hnone : ∀ no page, (fun _ => none : Nat → Option PageDataHeader) no = some page →
          s.buffer no = some page := fun _ _ h => by cases h
      exact has_dropBuffer hnone hpage
    refine ⟨⟨?_, h.pages.nodup, ?_, ?_, ?_, ?_, h.pages.groupsNodup.sublist hsub, ?_,
      h.pages.chained, h.pages.disjoint⟩, fun _ => trivial, fun _ hne => absurd rfl hne⟩
    · dsimp only
      rw [hcnt]
      exact h.pages.cnt
    · dsimp only
      rw [hcnt]
      exact h.pages.bounds
    · dsimp only
      rw [hcnt]
      exact fun no page hpage => h.pages.fresh no page (hhas no page hpage)
    · exact fun no page hpage => h.pages.num no page (hhas no page hpage)
    · exact fun no page hpage => h.pages.links no page (hhas no page hpage)
    · exact fun no hno => h.pages.groups no (hsub.subset hno)
  · cases hstep

/-! ## A run -/

theorem whenReady_eq_some {next : Option (ExtendSys n)} :
    whenReady s w next = some t ↔ (s.workers w).phase = .ready ∧ next = some t := by
  unfold whenReady
  by_cases hready : (s.workers w).phase = .ready <;> simp [hready]

/-- Every step keeps the invariant. -/
theorem OwnInv.step {a : Fin n × ExtendCall} (h : OwnInv s) (hok : StepCounted s a)
    (hstep : extendStep s a = some t) : OwnInv t := by
  obtain ⟨w, call⟩ := a
  cases call with
  | start job locks =>
    obtain ⟨hready, hstart⟩ := whenReady_eq_some.mp hstep
    exact h.startExtend hok hready hstart
  | addPage stored => exact h.addPage hok hstep
  | updateMetaData stored => exact h.updateMetaData hstep
  | loadLast => exact h.loadLast hstep
  | linkPage stored => exact h.linkPage hstep
  | insertGroupItem => exact h.insertGroupItem hstep
  | takePage no => exact h.takePage (whenReady_eq_some.mp hstep).2
  | findSpace firstno pageType => exact h.findSpace (whenReady_eq_some.mp hstep).2
  | writeRow no row stored => exact h.writeRow (whenReady_eq_some.mp hstep).2
  | releaseHand =>
    cases (whenReady_eq_some.mp hstep).2
    exact h.setHand []
  | evictPage no => exact h.evictPage hstep
  | restart kept => exact h.restart hok hstep

theorem ownInv_createTable (n : Nat) : OwnInv (createTable n) := by
  have hhas : ∀ no page, (createTable n).Has no page → no = 1 ∧ page = headPage := by
    intro no page hpage
    have hdisk : (if no = pageHeadPageNum then some headPage else none) = some page :=
      hpage.elim id id
    split at hdisk
    · rename_i hno
      exact ⟨hno, (Option.some.inj hdisk).symm⟩
    · cases hdisk
  refine ⟨⟨Nat.le_refl 1, List.nodup_nil, by simp [createTable], fun no page hpage => ?_,
    fun no page hpage => ?_, fun no page hpage => ?_, List.nodup_nil, by simp [createTable],
    by simp [createTable], by simp [createTable]⟩, fun _ => trivial,
      fun _ hne => absurd rfl hne⟩
  · obtain ⟨rfl, -⟩ := hhas no page hpage
    exact Nat.le_refl 1
  · obtain ⟨rfl, rfl⟩ := hhas no page hpage
    rfl
  · obtain ⟨rfl, rfl⟩ := hhas no page hpage
    exact ⟨.inl rfl, .inl rfl⟩

/-! ## Owners -/

/-- What a page of the main file can belong to. -/
inductive PageOwner where
  | head
  | column (group col : Nat)
  | chain (firstno : Nat) (pageType : PageType)
  deriving DecidableEq, Repr

/-- A link of page `p` leads to page `no`. -/
def Links (f : TableFile) (pageType : PageType) (p no : Nat) : Prop :=
  no ≠ invalidPageNum ∧ ∃ page, f.page p = some page ∧ page.chain pageType = no

/-- Page `no` belongs to the owner: it is the head page, the page of a column of a
group, or is reached by the links from a data page of a group. -/
def Owns (f : TableFile) (groups : List (List Nat)) : PageOwner → Nat → Prop
  | .head, no => no = pageHeadPageNum
  | .column group col, no =>
    ∃ members, groups[group]? = some members ∧ members[col]? = some no
  | .chain firstno pageType, no => firstno ∈ groups.flatten ∧
      (pageType = .undo ∨ pageType = .extData) ∧
        Relation.TransGen (Links f pageType) firstno no

/-- The pages reached from a data page were linked to its chain. -/
theorem PagesOk.mem_chains (h : PagesOk s) {f : TableFile}
    (hf : ∀ no page, f.page no = some page → s.Has no page)
    (hkind : pageType = .undo ∨ pageType = .extData) (hfirst : firstno ∈ s.groups.flatten)
    (hreach : Relation.TransGen (Links f pageType) firstno no) :
    no ∈ s.chains firstno pageType := by
  have hlink : ∀ {p next}, Links f pageType p next →
      ∃ d, next ∈ s.chains d pageType ∧ (p = d ∨ p ∈ s.chains d pageType) := by
    rintro p next ⟨hne, page, hpage, rfl⟩
    obtain ⟨hundo, hext⟩ := h.links p page (hf p page hpage)
    rcases hkind with rfl | rfl
    · exact hundo.resolve_left hne
    · exact hext.resolve_left hne
  induction hreach with
  | single hstep =>
    obtain ⟨d, hmem, rfl | hp⟩ := hlink hstep
    · exact hmem
    · exact absurd hp ((h.groups firstno hfirst).2 d pageType)
  | tail _ hstep ih =>
    obtain ⟨d, hmem, rfl | hp⟩ := hlink hstep
    · exact absurd ih ((h.chained _ _ _ hmem).2.2 firstno pageType)
    · obtain ⟨rfl, -⟩ := h.disjoint _ _ _ _ _ hp ih
      exact hmem

theorem mem_flatten_of_column {groups : List (List Nat)}
    {members : List Nat} {group col : Nat}
    (hgroup : groups[group]? = some members) (hcol : members[col]? = some no) :
    no ∈ groups.flatten :=
  List.mem_flatten.mpr ⟨members, List.mem_of_getElem? hgroup, List.mem_of_getElem? hcol⟩

/-- A page is in one place of the groups. -/
theorem column_unique {groups : List (List Nat)} (h : groups.flatten.Nodup)
    {members members' : List Nat} {group group' col col' : Nat}
    (hgroup : groups[group]? = some members) (hcol : members[col]? = some no)
    (hgroup' : groups[group']? = some members') (hcol' : members'[col']? = some no) :
    group = group' ∧ col = col' := by
  obtain ⟨hnodup, hdisjoint⟩ := List.nodup_flatten.mp h
  have heq : group = group' := by
    by_contra hne
    obtain ⟨hlt, rfl⟩ := List.getElem?_eq_some_iff.mp hgroup
    obtain ⟨hlt', rfl⟩ := List.getElem?_eq_some_iff.mp hgroup'
    have hpair := List.pairwise_iff_getElem.mp hdisjoint
    rcases Nat.lt_or_gt_of_ne hne with hlt₁ | hlt₁
    · exact hpair group group' hlt hlt' hlt₁ (List.mem_of_getElem? hcol)
        (List.mem_of_getElem? hcol')
    · exact hpair group' group hlt' hlt hlt₁ (List.mem_of_getElem? hcol')
        (List.mem_of_getElem? hcol)
  subst heq
  rw [hgroup, Option.some.injEq] at hgroup'
  subst hgroup'
  obtain ⟨hlt, hno⟩ := List.getElem?_eq_some_iff.mp hcol
  obtain ⟨hlt', hno'⟩ := List.getElem?_eq_some_iff.mp hcol'
  have hmember := hnodup members (List.mem_of_getElem? hgroup)
  exact ⟨rfl, (hmember.getElem_inj_iff).mp (hno.trans hno'.symm)⟩

/-- A page has one owner. -/
theorem PagesOk.owner_unique (h : PagesOk s) {f : TableFile}
    (hf : ∀ no page, f.page no = some page → s.Has no page) {owner owner' : PageOwner}
    (ho : Owns f s.groups owner no) (ho' : Owns f s.groups owner' no) : owner = owner' := by
  have hcolumn : ∀ {group col}, Owns f s.groups (.column group col) no →
      no ∈ s.handed ∧ Unlinked s.chains no := by
    rintro group col ⟨members, hgroup, hcol⟩
    exact h.groups no (mem_flatten_of_column hgroup hcol)
  have hchain : ∀ {firstno pageType}, Owns f s.groups (.chain firstno pageType) no →
      no ∈ s.handed ∧ no ∈ s.chains firstno pageType := by
    rintro firstno pageType ⟨hfirst, hkind, hreach⟩
    have hmem := h.mem_chains hf hkind hfirst hreach
    exact ⟨(h.chained _ _ _ hmem).1, hmem⟩
  have hhead : Owns f s.groups .head no → no ∉ s.handed := by
    rintro rfl hmem
    exact absurd (h.bounds _ hmem).1 (by decide)
  cases owner with
  | head =>
    cases owner' with
    | head => rfl
    | column group col => exact absurd (hcolumn ho').1 (hhead ho)
    | chain firstno pageType => exact absurd (hchain ho').1 (hhead ho)
  | column group col =>
    cases owner' with
    | head => exact absurd (hcolumn ho).1 (hhead ho')
    | column group' col' =>
      obtain ⟨members, hgroup, hcol⟩ := ho
      obtain ⟨members', hgroup', hcol'⟩ := ho'
      obtain ⟨rfl, rfl⟩ := column_unique h.groupsNodup hgroup hcol hgroup' hcol'
      rfl
    | chain firstno pageType => exact absurd (hchain ho').2 ((hcolumn ho).2 _ _)
  | chain firstno pageType =>
    cases owner' with
    | head => exact absurd (hchain ho).1 (hhead ho')
    | column group col => exact absurd (hchain ho).2 ((hcolumn ho').2 _ _)
    | chain firstno' pageType' =>
      obtain ⟨rfl, rfl⟩ := h.disjoint _ _ _ _ _ (hchain ho).2 (hchain ho').2
      rfl

/-! ## The result -/

/-- A number is given out once, a page has one owner, in memory and in the file, and a group
that is about to be recorded has the pages of its extension. -/
structure PagesOwned (s : ExtendSys n) : Prop where
  handed : s.handed.Nodup
  memory : ∀ no owner owner', Owns s.file s.groups owner no → Owns s.file s.groups owner' no →
    owner = owner'
  file : ∀ no owner owner', Owns s.disk s.groups owner no → Owns s.disk s.groups owner' no →
    owner = owner'
  recorded : ∀ w num got last lastpage, (s.workers w).phase = .loaded (.group num) got last →
    s.file.page last = some lastpage → groupMembers lastpage num = some got

theorem OwnInv.pagesOwned (h : OwnInv s) : PagesOwned s where
  handed := h.pages.nodup
  memory := fun _ _ _ ho ho' => h.pages.owner_unique (fun _ _ hpage => .inl hpage) ho ho'
  file := fun _ _ _ ho ho' => h.pages.owner_unique (fun _ _ hpage => .inr hpage) ho ho'
  recorded := fun w num got last lastpage hphase hpage => by
    have hok := h.phase w
    rw [hphase] at hok
    obtain ⟨hjob, hgot, hlength, rfl⟩ := hok
    have hpos : got ≠ [] := fun hnil => by
      rw [hnil] at hlength
      exact absurd hlength.symm (Nat.ne_of_gt hjob.num_pos)
    rw [← show got.length = num from hlength]
    exact hgot.groupMembers (h.pages.num _ _ (.inl hpage)) h.pages hpos

/-- In every run from a new table whose restarts find the page count in the file, every page
has one owner. -/
theorem pages_owned {acts : List (Fin n × ExtendCall)}
    (hok : Along extendStep StepCounted (createTable n) acts)
    (hrun : run extendStep (createTable n) acts = some s) : PagesOwned s :=
  (run_invariant (fun h hok hstep => OwnInv.step h hok hstep) (ownInv_createTable n) hok
    hrun).pagesOwned

/-- A worker adds a group. -/
def addGroup (w : Fin n) (num : Nat) (stored : Bool) : List (Fin n × ExtendCall) :=
  (w, .start (.group num) 0) :: List.replicate num (w, .addPage true) ++
    [(w, .updateMetaData stored), (w, .loadLast), (w, .insertGroupItem)]

/-- A worker adds an undo page to a data page. -/
def addUndoPage (w : Fin n) (firstno : Nat) : List (Fin n × ExtendCall) :=
  [(w, .start (.chain firstno .undo) 0), (w, .addPage true),
    (w, .updateMetaData true), (w, .loadLast),
    (w, .linkPage true), (w, .releaseHand)]

/-- Two workers, two groups, an undo page and a restart. -/
theorem pages_owned_restart : ∃ s : ExtendSys 2, s.handed = [6, 5, 4, 3, 2] ∧
    s.groups = [[2, 3], [5, 6]] ∧ PagesOwned s := by
  let acts : List (Fin 2 × ExtendCall) :=
    addGroup 0 2 true ++ addUndoPage 1 2 ++ (0, .restart [[2, 3]]) :: addGroup 1 2 true
  have hrun : run extendStep (createTable 2) acts =
      some (exec extendStep (createTable 2) acts) :=
    run_exec (by decide)
  exact ⟨_, by decide, by decide, pages_owned (by decide) hrun⟩

/-- The head page does not reach the file, and after a restart the same page is given to
a second group. -/
theorem pages_owned_twice : ∃ s : ExtendSys 1,
    run extendStep (createTable 1)
      (addGroup 0 1 false ++ (0, .restart [[2]]) :: addGroup 0 1 true)
      = some s ∧
    s.handed = [2, 2] ∧ Owns s.file s.groups (.column 0 0) 2 ∧
    Owns s.file s.groups (.column 1 0) 2 ∧ ¬ PagesOwned s := by
  let acts : List (Fin 1 × ExtendCall) :=
    addGroup 0 1 false ++ (0, .restart [[2]]) :: addGroup 0 1 true
  have hrun : run extendStep (createTable 1) acts =
      some (exec extendStep (createTable 1) acts) :=
    run_exec (by decide)
  have hhanded : (exec extendStep (createTable 1) acts).handed = [2, 2] := by decide
  have hgroups : (exec extendStep (createTable 1) acts).groups = [[2], [2]] := by decide
  refine ⟨_, hrun, hhanded, ⟨[2], by rw [hgroups]; rfl, rfl⟩,
    ⟨[2], by rw [hgroups]; rfl, rfl⟩, ?_⟩
  intro howned
  have hnodup := howned.handed
  rw [hhanded] at hnodup
  exact absurd hnodup (by decide)

end Toadb
